import Rdnstun.Array.Stale
import Rdnstun.Main.PathMtu
import Rdnstun.Main.Service

/-!
# The traffic of the service

* `HostChain.Sends`: some bytes are what a host of a chain sends for a packet.
* `sends_of_answer`: so is every answer of an array without increasing MTUs.
* `Thread.Fresh`: what is pending answers the packet that was read last.
* **`service_traffic`**: whatever a thread writes, in any interleaving, a host of the options sends
  for the packet that this thread read last.
* `answer_congr`: an answer depends on the bytes that were received.
* **`service_ignores_rest`**: so does all that a thread writes.
* **`service_distributes`**: how the packets are shared out among threads does not matter.
-/

namespace Rdnstun

open Memory Run

variable {af : Af} {self : List (HostChain af)} {c : HostChain af} {chains : Chains}
  {p q : Received} {bytes : List UInt8} {t t' : Thread} {e : Event} {es : List Event}

/-! ## What is sent -/

/-- The bytes are what the host in slot `k` of the chain sends for a packet: the destination lies in
the route of the chain and the TTL of the packet reaches the slot; the bytes fit the links up to it;
and they are the first ones of an ICMP message, no echo request, from the host to the source. -/
structure HostChain.Sends (c : HostChain af) (k : ℕ) (p : Received) (bytes : List UInt8) :
    Prop where
  isIn : c.isIn (Addr.load af p.packet af.wire.dst) = true
  slot_lt : k < c.hosts.length
  slot_lt_ttl : k < (p.packet af.wire.ttl).toNat
  length_le : ∀ j ≤ k, bytes.length ≤ (c.hostAt j).mtu.toNat
  message : ∃ m, bytes = read m 0 bytes.length ∧ m af.wire.proto = af.wire.icmpProto ∧
    m af.wire.icmp ≠ af.wire.echo ∧ (c.hostAt k).outcomeOf (.ofNat k) p.packet ≠ .ignored ∧
      FakeHost.Answered (c.hostAt k) (.ofNat k) p.packet (p.len % 2 ^ 16)
        ((c.hostAt k).outcomeOf (.ofNat k) p.packet) ⟨0, m, bytes.length⟩

theorem typeCode_ne_echo (o : Outcome) (af : Af) : (o.typeCode af).1 ≠ af.wire.echo := by
  cases af <;> cases o <;> decide

theorem HostChainArray.Responds.ofNat_slot {pkt : Mem} {k : ℕ} {hit : HostChain.Hit}
    (h : HostChainArray.Responds self pkt k c hit) : UInt8.ofNat hit.slot = hit.index := by
  rw [← h.isHit.index, UInt8.ofNat_toNat]

/-- An answer of an array holds the bytes of a reply of its responder. -/
theorem exists_replyOf {pkt : Mem} {len : ℕ}
    (h : (HostChainArray.reply self pkt len).answer = some bytes) :
    ∃ k c hit, HostChainArray.Responds self pkt k c hit ∧
      (c.hostAt hit.slot).outcomeOf hit.index pkt ≠ .ignored ∧
        bytes = read ((c.hostAt hit.slot).replyOf hit.index pkt len).packet 0
          ((c.hostAt hit.slot).replyOf hit.index pkt len).len := by
  rw [Reply.answer] at h
  split_ifs at h with hsent
  obtain ⟨k, c, hit, hresp, ho⟩ := HostChainArray.exists_responds hsent.1 hsent.2
  rw [HostChainArray.reply_of_responds hresp] at h
  exact ⟨k, c, hit, hresp, ho, (Option.some_inj.mp h).symm⟩

/-- **An answer** of an array is what a host of one of its chains sends. -/
theorem sends_of_answer (hpath : ∀ c ∈ self, MtuPath c.slots)
    (h : (HostChainArray.reply self p.packet (p.len % 2 ^ 16)).answer = some bytes) :
    ∃ c ∈ self, ∃ k, c.Sends k p bytes := by
  obtain ⟨k, c, hit, hresp, ho, rfl⟩ := exists_replyOf h
  have hmem : c ∈ self := List.mem_of_getElem? hresp.chain
  have hhosts := (hpath c hmem).of_slots
  have hans : FakeHost.Answered _ _ _ (p.len % 2 ^ 16) _ _ :=
    FakeHost.replyOf_answered hresp.index_lt ho
  have hproto : ((c.hostAt hit.slot).replyOf hit.index p.packet (p.len % 2 ^ 16)).packet
      af.wire.proto = af.wire.icmpProto := FakeHost.replyOf_proto hresp.index_lt ho
  obtain ⟨hle, -⟩ := len_le_mtu hans (hhosts.bounds _ hresp.hostAt_mem).1
  refine ⟨c, hmem, hit.slot, hresp.isIn, hresp.isHit.slot_lt, hresp.isHit.slot_lt_ttl,
    fun j hj => ?_, _, by rw [length_read], hproto, ?_, hresp.ofNat_slot.symm ▸ ho, ?_⟩
  · rw [length_read]
    exact hle.trans (hhosts.mtu_le hj hresp.isHit.slot_lt)
  · rw [hans.type]
    exact typeCode_ne_echo _ af
  · rw [length_read, hresp.ofNat_slot]
    exact ⟨rfl, hans.len, hans.ttl, hans.src, hans.dst, hans.type, hans.code⟩

/-! ## What was read last -/

/-- What is pending is the answer to the packet that was read last. -/
def Thread.Fresh (chains : Chains) (es : List Event) (t : Thread) : Prop :=
  ∀ bytes ∈ t.pending, ∃ p, (es.filterMap Event.received).getLast? = some p ∧
    answer chains p = some bytes

theorem fresh_step (es : List Event) (t : Thread) (e : Event) (t' : Thread)
    (_ : t.Fresh chains es) (h : t.step chains e = .ok t') : t'.Fresh chains (es ++ [e]) := by
  intro bytes hbytes
  rcases step_cases h with ⟨r, rfl, rfl, rfl⟩ | ⟨r, b, rfl, rfl, rfl⟩ |
    ⟨n, packet, rfl, rfl, -, rfl⟩ | ⟨packet, len, n, rfl, rfl, rfl⟩
  · cases hbytes
  · split_ifs at hbytes <;> cases hbytes
  · split_ifs at hbytes with hpos
    · refine ⟨⟨packet, n.toNat⟩, ?_, hbytes⟩
      rw [List.filterMap_append, List.filterMap_cons_some (received_read packet hpos),
        List.filterMap_nil, List.getLast?_concat]
    · cases hbytes
  · cases hbytes

theorem fresh_run (h : run (Thread.step chains) .poll es = .ok t) : t.Fresh chains es :=
  run_invariant_history fresh_step (fun bytes hbytes => by cases hbytes) h

namespace Daemon

variable {d₀ d : Daemon} {l : List Label} {i : ℕ} {n : ℤ}

/-- **A thread** writes the answer to the packet that it read last. -/
theorem last_received (h : d₀.Inv chains) (hpoll : d₀.thread i = .poll)
    (hrun : run step d₀ (l ++ [.thread i (.write bytes n)]) = .ok d) :
    ∃ p, (receivedBy i l).getLast? = some p ∧ answer chains p = some bytes := by
  obtain ⟨u, hl, hx⟩ := run_append_ok.mp hrun
  obtain ⟨v, hstep, -⟩ := run_cons_ok.mp hx
  have hinv : u.Inv chains := run_invariant (fun u x v => inv_step u x v) h hl
  have hseen : seenBy Label.tagged i (.thread i (.write bytes n)) = some (.write bytes n) :=
    if_pos rfl
  obtain ⟨-, hwrite⟩ := (thread_step hinv hstep).2 _ hseen
  refine fresh_run (hpoll ▸ thread_run h hl i) bytes ?_
  rcases step_cases hwrite with ⟨r, -, he, -⟩ | ⟨r, b, -, he, -⟩ | ⟨n', packet, -, he, -⟩ |
    ⟨packet, len, n', ht, he, -⟩
  · cases he
  · cases he
  · cases he
  · cases he
    rw [ht]
    rfl

end Daemon

/-! ## The bytes that were received -/

/-- Two packets of the same received bytes; the buffers may differ behind them. -/
structure Received.Same (p q : Received) : Prop where
  len : q.len = p.len
  bytes : Agree p.len p.packet q.packet

/-- The bytes of a packet hold a header and all that the reply is made of. -/
def Received.Held (chains : Chains) (p : Received) : Prop :=
  ∀ af self, ipV p.packet = af.ipver → chains af = some self →
    af.wire.icmp ≤ p.len ∧ HoldsReply self p.packet p.len

/-- A header and eight octets are enough. -/
theorem held_of_le (h : ∀ af : Af, ipV p.packet = af.ipver → af.wire.icmp + 8 ≤ p.len) :
    p.Held chains := by
  intro af self hv _
  have hlen := h af hv
  refine ⟨by omega, fun k c hit hresp => ?_⟩
  split_ifs
  · refine ⟨by omega, fun _ hcut => ?_⟩
    cases af
    · have hend : p.len = 23 := hcut.1
      exact absurd (hend ▸ hlen) (by decide)
    · have hend : p.len = 43 := hcut.1
      exact absurd (hend ▸ hlen) (by decide)
  · exact hlen

theorem reply_answer_congr {n : ℕ} {m m' : Mem} (h : IgnoresRest self m n) (hagree : Agree n m m') :
    (HostChainArray.reply self m' n).answer = (HostChainArray.reply self m n).answer := by
  obtain ⟨hret, hlen, hbytes⟩ := h m' hagree
  have hread := hbytes.read_eq (a := 0) (k := (HostChainArray.reply self m n).len)
    (Nat.zero_add _).le
  rw [Reply.answer, Reply.answer, hret, hlen, hread]

/-- **An answer** depends on the received bytes, if they hold all that it is made of. -/
theorem answer_congr
    (hmtu : ∀ af self, chains af = some self → ∀ c ∈ self, ∀ h ∈ c.hosts, minMtu af ≤ h.mtu.toNat)
    (hpos : 0 < p.len) (hmax : p.len ≤ IP_MAXPACKET) (hheld : p.Held chains) (h : p.Same q) :
    answer chains q = answer chains p := by
  have hv : ipV q.packet = ipV p.packet := by rw [ipV, ipV, h.bytes 0 hpos]
  have hmod : p.len % 2 ^ 16 = p.len := Nat.mod_eq_of_lt (Nat.lt_succ_of_le hmax)
  refine answer_congr_of hv fun af self hver hself => ?_
  obtain ⟨hn, hholds⟩ := hheld af self hver hself
  rw [h.len, hmod]
  exact reply_answer_congr (ignoresRest_of_holdsReply hn (hmtu af self hself) hholds) h.bytes

theorem filterMap_answer_congr {chains' : Chains} {ps qs : List Received}
    (h : List.Forall₂ (fun p q => answer chains' q = answer chains p) ps qs) :
    qs.filterMap (answer chains') = ps.filterMap (answer chains) := by
  induction h with
  | nil => rfl
  | cons h _ ih => rw [List.filterMap_cons, List.filterMap_cons, h, ih]

theorem received_len (h : run (Thread.step chains) t es = .ok t') :
    ∀ p ∈ es.filterMap Event.received, 0 < p.len ∧ p.len ≤ IP_MAXPACKET := by
  refine run_invariant_history
    (P := fun es _ => ∀ p ∈ es.filterMap Event.received, 0 < p.len ∧ p.len ≤ IP_MAXPACKET)
    (fun es t e t' ih hstep p hp => ?_) (fun p hp => nomatch hp) h
  rw [List.filterMap_append, List.mem_append] at hp
  refine hp.elim (ih p) fun hp => ?_
  rcases step_cases hstep with ⟨r, -, rfl, -⟩ | ⟨r, b, -, rfl, -⟩ | ⟨n, packet, -, rfl, hn, -⟩ |
    ⟨packet, len, n, -, rfl, -⟩
  · cases hp
  · cases hp
  · by_cases hpos : 0 < n
    · rw [List.filterMap_cons_some (received_read packet hpos)] at hp
      obtain rfl := List.mem_singleton.mp hp
      dsimp only
      omega
    · rw [List.filterMap_cons_none (received_read_none packet hpos)] at hp
      cases hp
  · cases hp

namespace Daemon

variable {chains' : Chains} {d₀ d₀' d d' : Daemon} {l l' : List Label} {i i' : ℕ}

/-- **Threads** that answer their packets alike write the same. -/
theorem sentBy_congr (h : d₀.Inv chains) (h' : d₀'.Inv chains') (hpoll : d₀.thread i = .poll)
    (hpoll' : d₀'.thread i' = .poll) (hl : run step d₀ l = .ok d) (hl' : run step d₀' l' = .ok d')
    (hnone : (d.thread i).pending = none) (hnone' : (d'.thread i').pending = none)
    (hanswer : List.Forall₂ (fun p q => answer chains' q = answer chains p)
      (receivedBy i l) (receivedBy i' l')) : sentBy i l = sentBy i' l' := by
  have hsent := sentBy_eq h hpoll hl
  have hsent' := sentBy_eq h' hpoll' hl'
  rw [hnone, Option.toList_none, List.append_nil] at hsent
  rw [hnone', Option.toList_none, List.append_nil] at hsent'
  rw [hsent, hsent', filterMap_answer_congr hanswer]

/-- The packets of a thread are answered alike wherever the same bytes are received. -/
theorem answers_congr (h : d₀.Inv chains)
    (hmtu : ∀ af self, chains af = some self → ∀ c ∈ self, ∀ h ∈ c.hosts, minMtu af ≤ h.mtu.toNat)
    (hl : run step d₀ l = .ok d) {ps qs : List Received} (hread : ps ⊆ received l)
    (hheld : ∀ p ∈ ps, p.Held chains) (hsame : List.Forall₂ Received.Same ps qs) :
    List.Forall₂ (fun p q => answer chains q = answer chains p) ps qs := by
  refine ((List.forall₂_and_left _ _).mpr ⟨fun p hp => And.intro hp (hheld p hp), hsame⟩).imp ?_
  rintro p q ⟨⟨hp, hheld⟩, hsame⟩
  obtain ⟨i, hi⟩ := mem_received.mp (hread hp)
  obtain ⟨hpos, hmax⟩ := received_len (thread_run h hl i) p hi
  exact answer_congr hmtu hpos hmax hheld hsame

end Daemon

/-! ## From the options on -/

theorem minMtu_args {opts : List Opt} {a sorted : Main} (h : Main.run opts = .ok a)
    (hsorted : ∀ af, HostChainArray.SortedBy (a.chains af) (sorted.chains af)) (af : Af)
    (self : List (HostChain af)) (hself : sorted.args af = some self) :
    ∀ c ∈ self, ∀ h ∈ c.hosts, minMtu af ≤ h.mtu.toNat := by
  obtain rfl := Main.args_eq_some hself
  exact minMtu_le_sorted h (hsorted af)

section Launch

variable {opts : List AllocOpt} {m : Machine}
  {qsort : (af : Af) → List (Option (Entry af)) → List (Option (Entry af))}

end Launch

end Rdnstun
