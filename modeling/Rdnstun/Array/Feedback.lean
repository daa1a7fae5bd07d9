import Rdnstun.Array.Storm

/-!
# Packets that are fed back to an array

The replies of a whole array are fed back to it. A host that answers is looked up again when the
next answer comes back to it; that it is found in its own chain is what ends the exchange.

* `IsAnswered`, `Fed`, `feed`: as for one chain.
* `Homed`: no chain has a host of another one in its route.
* `responder_lt`: the slot of the responder decreases over two replies.
* **`not_storm_array`**: a homed array answers at most twice as many packets in a row as its longest
  chain has hosts.
* `Closed`: the addresses of a set are answered for by others of the set; **`storm`**: then packets
  among them are answered forever.
-/

namespace Rdnstun

open Memory Descent

variable {af : Af}

namespace HostChainArray

/-- What the array makes of a packet. -/
def replyTo (self : List (HostChain af)) (p : Received) : Reply := reply self p.packet p.len

/-- A packet is answered: no error, and something is sent. -/
def IsAnswered (self : List (HostChain af)) (p : Received) : Prop :=
  (replyTo self p).ret = 0 ∧ 0 < (replyTo self p).len

/-- The reply to `p` is received as `q`, its TTL as it was or smaller. -/
structure Fed (chains : List (HostChain af)) (p q : Received) : Prop where
  len : q.len = (replyTo chains p).len
  ttl : q.packet af.wire.ttl ≤ (replyTo chains p).packet af.wire.ttl
  bytes : ∀ k < max q.len (af.wire.icmp + 1), ¬ HostChain.ForwardSets af k →
    q.packet k = (replyTo chains p).packet k

/-- A reply received as it was sent. -/
def feed (self : List (HostChain af)) (p : Received) : Received :=
  ⟨(replyTo self p).packet, (replyTo self p).len⟩

theorem fed_feed (self : List (HostChain af)) (p : Received) : Fed self p (feed self p) :=
  ⟨rfl, UInt8.le_refl _, fun _ _ _ => rfl⟩

/-- A chain that has a host of some chain in its route is that chain. -/
def Homed (self : List (HostChain af)) : Prop :=
  ∀ (k k' : ℕ) (c c' : HostChain af), self[k]? = some c → self[k']? = some c' →
    ∀ h ∈ c.hosts, c'.isIn h.addr = true → k' = k

/-- The slot of the host that answers a packet. -/
def responder (self : List (HostChain af)) (p : Received) : ℕ :=
  match find self (Addr.load af p.packet af.wire.dst) (p.packet af.wire.ttl) 0 with
  | (some host, _) => host.slot
  | (none, _) => 0

variable {self : List (HostChain af)} {p q r : Received} {k k' k'' : ℕ} {c c' c'' : HostChain af}
  {hit hit' hit'' : HostChain.Hit}

/-! ## An answer -/

/-- What is known of a packet that is answered, and of its answer. -/
structure AnsweredBy (chains : List (HostChain af)) (p : Received) (k : ℕ) (c : HostChain af)
    (hit : HostChain.Hit) : Prop where
  responds : Responds chains p.packet k c hit
  answered : FakeHost.Answered (c.hostAt hit.slot) hit.index p.packet p.len
    ((c.hostAt hit.slot).outcomeOf hit.index p.packet) (replyTo chains p)
  outcome : (c.hostAt hit.slot).outcomeOf hit.index p.packet ≠ .ignored

theorem IsAnswered.exists_hit (h : IsAnswered self p) :
    ∃ k c hit, AnsweredBy self p k c hit := by
  obtain ⟨k, c, hit, hresp, ho⟩ := exists_responds h.1 h.2
  refine ⟨k, c, hit, hresp, ?_, ho⟩
  rw [replyTo, reply_of_responds hresp]
  exact FakeHost.replyOf_answered hresp.index_lt ho

theorem AnsweredBy.responder_eq (h : AnsweredBy self p k c hit) :
    responder self p = hit.slot := by
  rw [responder, h.responds.result]

theorem AnsweredBy.not_echo (h : AnsweredBy self p k c hit) :
    (replyTo self p).packet af.wire.proto = af.wire.icmpProto ∧
      (replyTo self p).packet af.wire.icmp ≠ af.wire.echo := by
  constructor
  · rw [replyTo, reply_of_responds h.responds]
    exact FakeHost.replyOf_proto h.responds.index_lt h.outcome
  · rw [h.answered.type]
    cases af <;> cases (c.hostAt hit.slot).outcomeOf hit.index p.packet <;> decide

/-! ## An answer that is fed back -/

theorem Fed.icmp (h : Fed self p q) :
    q.packet af.wire.icmp = (replyTo self p).packet af.wire.icmp :=
  h.bytes _ (by omega) (by cases af <;> decide)

theorem Fed.proto (h : Fed self p q) :
    q.packet af.wire.proto = (replyTo self p).packet af.wire.proto := by
  refine h.bytes _ (lt_max_of_lt_right ?_) ?_ <;> cases af <;> decide

theorem Fed.addr (h : Fed self p q) {a : ℕ} (hsrc : af.wire.src ≤ a)
    (hend : a + af.size ≤ af.wire.icmp) :
    Addr.load af q.packet a = Addr.load af (replyTo self p).packet a :=
  Addr.ext_bytes (read_congr fun i hi =>
    h.bytes (a + i) (by omega) (HostChain.not_forwardSets_of_src_le (by omega)))

/-- A reply that is fed back is for the source of the packet, and comes from its responder. -/
theorem AnsweredBy.fed (h : AnsweredBy self p k c hit) (hfed : Fed self p q) :
    Addr.load af q.packet af.wire.src = (c.hostAt hit.slot).addr ∧
      Addr.load af q.packet af.wire.dst = Addr.load af p.packet af.wire.src := by
  constructor
  · rw [hfed.addr (Nat.le_refl _) (by cases af <;> decide), h.answered.src]
  · rw [hfed.addr (by cases af <;> decide) (by cases af <;> decide), h.answered.dst]

/-- A reply that is fed back is answered by a host before its target. -/
theorem AnsweredBy.not_found (hp : AnsweredBy self p k c hit) (hfed : Fed self p q)
    (hq : AnsweredBy self q k' c' hit') : hit'.found = false := by
  by_contra hfound
  have htarget := hq.responds.isHit.addr_eq_iff.mpr (by simpa using hfound)
  obtain ⟨hproto, htype⟩ := hp.not_echo
  refine hq.outcome ?_
  rw [FakeHost.outcomeOf_of_eq htarget, hfed.proto, if_pos hproto, hfed.icmp, if_neg htype]

/-- **Two replies.** The target of a reply to a reply is the host that answered first. It is looked
up in its own chain, where another host before it answers. -/
theorem responder_lt (hhome : Homed self) (hp : IsAnswered self p) (hq : IsAnswered self q)
    (hr : IsAnswered self r) (hpq : Fed self p q) (hqr : Fed self q r) :
    responder self r < responder self p := by
  obtain ⟨k, c, hit, hp⟩ := hp.exists_hit
  obtain ⟨k', c', hit', hq⟩ := hq.exists_hit
  obtain ⟨k'', c'', hit'', hr⟩ := hr.exists_hit
  have htarget : Addr.load af r.packet af.wire.dst = (c.hostAt hit.slot).addr := by
    rw [(hq.fed hqr).2, (hp.fed hpq).1]
  have hin : c''.isIn (c.hostAt hit.slot).addr = true := htarget ▸ hr.responds.isIn
  obtain rfl : k'' = k := hhome k k'' c c'' hp.responds.chain hr.responds.chain _
    hp.responds.hostAt_mem hin
  obtain rfl : c'' = c := Option.some_inj.mp (hr.responds.chain.symm.trans hp.responds.chain)
  have hpos := HostChain.pos_addr_le hp.responds.isHit.slot_lt
  obtain ⟨hslot, hle⟩ := hr.responds.isHit.missed (hq.not_found hqr hr)
  have hlt := hr.responds.isHit.slot_lt
  have httl := hr.responds.isHit.slot_lt_ttl
  rw [htarget] at hle
  rw [hp.responder_eq, hr.responder_eq]
  omega

/-- **No packet storm.** If every reply is fed back to a homed array, a packet is not answered after
at most twice as many replies as its longest chain has hosts. -/
theorem not_storm_array (hhome : Homed self) {N : ℕ} (hN : ∀ c ∈ self, c.hosts.length ≤ N)
    {p : ℕ → Received} (h : ∀ i, IsAnswered self (p i) → Fed self (p i) (p (i + 1))) :
    ∃ i ≤ 2 * N, ¬ IsAnswered self (p i) := by
  refine exists_dead (f := responder self) (fun q hq => ?_) ?_ h
  · obtain ⟨k, c, hit, hq⟩ := hq.exists_hit
    rw [hq.responder_eq]
    exact hq.responds.isHit.slot_lt.trans_le (hN c (List.mem_of_getElem? hq.responds.chain))
  · intro q hfed hlive
    have hans (i : ℕ) (hi : i < 3) : IsAnswered self (q i) := hlive i hi
    have hnext (i : ℕ) (hi : i < 3) : Fed self (q i) (q (i + 1)) := hfed i (hans i hi)
    exact responder_lt hhome (hans 0 (by omega)) (hans 1 (by omega)) (hans 2 (by omega))
      (hnext 0 (by omega)) (hnext 1 (by omega))

theorem length_le_24 : 24 ≤ inetSize .inet := by decide

/-- Two chains with a host each, in their own routes. -/
def slash24s : List (HostChain .inet) :=
  [.slash24, .ofHosts [⟨64, 1500, .v4 10 0 1 1⟩] (.v4 10 0 1 0) 24 length_le_24]

theorem homed_slash24s : Homed slash24s := by
  intro k k' c c' hk hk' h hh hin
  have hslot {j : ℕ} {d : HostChain .inet} (hj : slash24s[j]? = some d) :
      j = 0 ∧ d = .slash24 ∨
        j = 1 ∧ d = .ofHosts [⟨64, 1500, .v4 10 0 1 1⟩] (.v4 10 0 1 0) 24 length_le_24 := by
    rcases j with _ | _ | j
    · cases hj
      exact .inl ⟨rfl, rfl⟩
    · cases hj
      exact .inr ⟨rfl, rfl⟩
    · cases hj
  rcases hslot hk with ⟨rfl, rfl⟩ | ⟨rfl, rfl⟩ <;> rcases hslot hk' with ⟨rfl, rfl⟩ | ⟨rfl, rfl⟩
  · rfl
  · revert h
    decide
  · revert h
    decide
  · rfl

/-- A ping and the replies that follow it. -/
theorem not_storm_slash24s :
    ∃ i ≤ 2 * 1, ¬ IsAnswered slash24s ((feed slash24s)^[i] ⟨ping, 28⟩) :=
  not_storm_array homed_slash24s (by decide) fun i _ => by
    rw [Function.iterate_succ_apply']
    exact fed_feed _ _

/-! ## A storm -/

/-- Each address of the set lies in some route, and all hosts of the chains for it are others of the
set. The TTL of a host is above its slot. -/
structure Closed (chains : List (HostChain af)) (S : Set (Addr af)) : Prop where
  routed : ∀ a ∈ S, ∃ c ∈ chains, c.isIn a = true
  hosts : ∀ a ∈ S, ∀ c ∈ chains, c.isIn a = true →
    c.hosts ≠ [] ∧ ∀ h ∈ c.hosts, h.addr ∈ S ∧ h.addr ≠ a
  ttl : ∀ c ∈ chains, ∀ k < c.hosts.length, k < (c.hostAt k).ttl.toNat

/-- A packet from an address of the set to one of the set. -/
structure Circulates (S : Set (Addr af)) (p : Received) : Prop where
  ttl : 0 < p.packet af.wire.ttl
  src : Addr.load af p.packet af.wire.src ∈ S
  dst : Addr.load af p.packet af.wire.dst ∈ S

variable {S : Set (Addr af)}

/-- **One reply** among addresses of a closed set: it is sent, and is such a packet again. -/
theorem Circulates.feed (hS : Closed self S) (h : Circulates S p) :
    IsAnswered self p ∧ Circulates S (feed self p) := by
  have hchain (c : HostChain af) (hc : c ∈ self)
      (hin : c.isIn (Addr.load af p.packet af.wire.dst) = true) := hS.hosts _ h.dst c hc hin
  obtain ⟨k, c, hit, hresp⟩ := exists_responds_of_isIn h.ttl
    (fun c hc hin => (hchain c hc hin).1) (hS.routed _ h.dst)
  have hmem : c ∈ self := List.mem_of_getElem? hresp.chain
  obtain ⟨hS', hne⟩ := (hchain c hmem hresp.isIn).2 _ hresp.hostAt_mem
  have hnot : (c.hostAt hit.slot).outcomeOf hit.index p.packet ≠ .ignored ∧
      (c.hostAt hit.slot).outcomeOf hit.index p.packet ≠ .echoReply := by
    rw [FakeHost.outcomeOf_of_ne hne]
    split_ifs <;> decide
  have hans : FakeHost.Answered _ _ _ p.len _ _ := FakeHost.replyOf_answered hresp.index_lt hnot.1
  rw [← reply_of_responds hresp] at hans
  refine ⟨⟨hans.ret, ?_⟩, ?_, ?_, ?_⟩
  · show 0 < (reply self p.packet p.len).len
    rw [hans.len, if_neg hnot.2]
    cases af <;> decide
  · have hslot := hS.ttl c hmem hit.slot hresp.isHit.slot_lt
    have hle : hit.index ≤ (c.hostAt hit.slot).ttl := by
      rw [UInt8.le_iff_toNat_le, hresp.isHit.index]
      exact hslot.le
    show 0 < (reply self p.packet p.len).packet af.wire.ttl
    rw [hans.ttl, UInt8.lt_iff_toNat_lt, UInt8.toNat_sub_of_le _ _ hle, hresp.isHit.index]
    exact Nat.sub_pos_of_lt hslot
  · exact hans.src ▸ hS'
  · exact hans.dst ▸ h.src

/-- **A storm.** Fed back to an array with a closed set of addresses, a packet among them is
answered forever. -/
theorem storm (hS : Closed self S) (h : Circulates S p) (i : ℕ) :
    IsAnswered self ((feed self)^[i] p) := by
  have hall : ∀ i, Circulates S ((feed self)^[i] p) := by
    intro i
    induction i with
    | zero => exact h
    | succ i ih =>
      rw [Function.iterate_succ_apply']
      exact (ih.feed hS).2
  exact ((hall i).feed hS).1

/-- Two chains, each with its host in the route of the other. -/
def crossed : List (HostChain .inet) :=
  [.ofHosts [⟨64, 1500, .v4 10 0 1 1⟩] (.v4 10 0 0 0) 24 length_le_24,
    .ofHosts [⟨64, 1500, .v4 10 0 0 1⟩] (.v4 10 0 1 0) 24 length_le_24]

theorem closed_crossed : Closed crossed {Addr.v4 10 0 0 1, Addr.v4 10 0 1 1} where
  routed := by
    rintro a (rfl | rfl) <;> decide
  hosts := by
    rintro a (rfl | rfl) <;> simp only [Set.mem_insert_iff, Set.mem_singleton_iff] <;> decide
  ttl := by decide

/-- A ping between the two hosts. -/
def crossing : Received := ⟨write ping Ip.ipSrc [10, 0, 1, 1], 28⟩

theorem circulates_crossing : Circulates {Addr.v4 10 0 0 1, Addr.v4 10 0 1 1} crossing where
  ttl := by decide
  src := .inr (show Addr.load .inet crossing.packet Ip.ipSrc = .v4 10 0 1 1 by decide)
  dst := .inl (show Addr.load .inet crossing.packet Ip.ipDst = .v4 10 0 0 1 by decide)

theorem storm_crossed : IsAnswered crossed ((feed crossed)^[1000] crossing) :=
  storm closed_crossed circulates_crossing 1000

end HostChainArray

end Rdnstun
