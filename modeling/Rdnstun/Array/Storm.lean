import Rdnstun.Array.Reply
import Rdnstun.Lib.Descent

/-!
# No packet storm

The replies of a chain are fed back to it. They are never echo requests, so from the second packet
on the target of a packet does not answer it, and a packet is answered by a host before its
target. The target is the host that answered two packets ago: the slot of the responder decreases
over every two replies.

* `IsAnswered`: a packet is answered; `Fed`: a reply is received, possibly with a smaller TTL.
* `responder`: the slot of the host that answers a packet.
* `responder_lt`: it decreases over two replies.
* **`not_storm`**: after at most twice as many replies as the chain has hosts, a packet is not
  answered.
-/

namespace Rdnstun

open Memory Descent

variable {af : Af}

/-- A packet as it is received: the buffer and the number of bytes read. -/
structure Received where
  packet : Mem
  len : ℕ

namespace HostChain

/-- What the chain makes of a packet. -/
def replyTo (c : HostChain af) (p : Received) : Reply := HostChainArray.reply [c] p.packet p.len

/-- A packet is answered: no error, and something is sent. -/
def IsAnswered (c : HostChain af) (p : Received) : Prop :=
  (c.replyTo p).ret = 0 ∧ 0 < (c.replyTo p).len

/-- The bytes that change when a packet is forwarded: its TTL and the header checksum. -/
def ForwardSets : Af → ℕ → Prop
  | .inet, k => k = Ip.ipTtl ∨ k = Ip.ipSum ∨ k = Ip.ipSum + 1
  | .inet6, k => k = Ip6.ip6Hlim

instance (af : Af) (k : ℕ) : Decidable (ForwardSets af k) :=
  match af with
  | .inet => inferInstanceAs (Decidable (_ ∨ _))
  | .inet6 => inferInstanceAs (Decidable (_ = _))

/-- The reply to `p` is received as `q`, its TTL as it was or smaller. Behind a reply that ends
before its ICMP type, the buffer holds what was there when it was sent. -/
structure Fed (c : HostChain af) (p q : Received) : Prop where
  len : q.len = (c.replyTo p).len
  ttl : q.packet af.wire.ttl ≤ (c.replyTo p).packet af.wire.ttl
  bytes : ∀ k < max q.len (af.wire.icmp + 1), ¬ ForwardSets af k →
    q.packet k = (c.replyTo p).packet k

/-- A reply received as it was sent. -/
def feed (c : HostChain af) (p : Received) : Received := ⟨(c.replyTo p).packet, (c.replyTo p).len⟩

theorem fed_feed (c : HostChain af) (p : Received) : c.Fed p (c.feed p) :=
  ⟨rfl, UInt8.le_refl _, fun _ _ _ => rfl⟩

/-- The slot of the host that answers a packet. -/
def responder (c : HostChain af) (p : Received) : ℕ :=
  match c.find (Addr.load af p.packet af.wire.dst) (p.packet af.wire.ttl) with
  | some hit => hit.slot
  | none => 0

variable {c : HostChain af} {p q r : Received}

/-! ## An answer -/

/-- What is known of a packet that is answered, and of its answer. -/
structure AnsweredBy (c : HostChain af) (p : Received) (hit : Hit) : Prop where
  responds : HostChainArray.Responds [c] p.packet 0 c hit
  answered : FakeHost.Answered (c.hostAt hit.slot) hit.index p.packet p.len
    ((c.hostAt hit.slot).outcomeOf hit.index p.packet) (c.replyTo p)
  outcome : (c.hostAt hit.slot).outcomeOf hit.index p.packet ≠ .ignored

theorem IsAnswered.exists_hit (h : c.IsAnswered p) : ∃ hit, c.AnsweredBy p hit := by
  obtain ⟨k, d, hit, hresp, ho⟩ := HostChainArray.exists_responds h.1 h.2
  have hchain := hresp.chain
  obtain _ | k := k
  · cases hchain
    refine ⟨hit, hresp, ?_, ho⟩
    rw [replyTo, HostChainArray.reply_of_responds hresp]
    exact FakeHost.replyOf_answered hresp.index_lt ho
  · cases hchain

theorem AnsweredBy.responder_eq {hit : Hit} (h : c.AnsweredBy p hit) :
    c.responder p = hit.slot := by
  rw [responder, h.responds.find]

theorem responder_lt_length (h : c.IsAnswered p) : c.responder p < c.hosts.length := by
  obtain ⟨hit, hans⟩ := h.exists_hit
  rw [hans.responder_eq]
  exact hans.responds.isHit.slot_lt

theorem AnsweredBy.type_ne_echo {hit : Hit} (h : c.AnsweredBy p hit) :
    (c.replyTo p).packet af.wire.icmp ≠ af.wire.echo := by
  rw [h.answered.type]
  cases af <;> cases (c.hostAt hit.slot).outcomeOf hit.index p.packet <;> decide

theorem AnsweredBy.proto {hit : Hit} (h : c.AnsweredBy p hit) :
    (c.replyTo p).packet af.wire.proto = af.wire.icmpProto := by
  rw [replyTo, HostChainArray.reply_of_responds h.responds]
  exact FakeHost.replyOf_proto h.responds.index_lt h.outcome

/-! ## An answer that is fed back -/

theorem Fed.icmp (h : c.Fed p q) :
    q.packet af.wire.icmp = (c.replyTo p).packet af.wire.icmp :=
  h.bytes _ (by omega) (by cases af <;> decide)

theorem Fed.proto (h : c.Fed p q) :
    q.packet af.wire.proto = (c.replyTo p).packet af.wire.proto := by
  refine h.bytes _ (lt_max_of_lt_right ?_) ?_ <;> cases af <;> decide

theorem not_forwardSets_of_src_le {k : ℕ} (hk : af.wire.src ≤ k) : ¬ ForwardSets af k := by
  cases af
  · simp only [ForwardSets, Af.wire, Ip.ipTtl, Ip.ipSum, Ip.ipSrc] at hk ⊢
    omega
  · simp only [ForwardSets, Af.wire, Ip6.ip6Hlim, Ip6.ip6Src] at hk ⊢
    omega

theorem Fed.src (h : c.Fed p q) :
    Addr.load af q.packet af.wire.src = Addr.load af (c.replyTo p).packet af.wire.src := by
  refine Addr.ext_bytes (read_congr fun i hi => ?_)
  have hend : af.wire.src + af.size ≤ af.wire.icmp := by cases af <;> decide
  exact h.bytes _ (by omega) (not_forwardSets_of_src_le (by omega))

theorem Fed.dst (h : c.Fed p q) :
    Addr.load af q.packet af.wire.dst = Addr.load af (c.replyTo p).packet af.wire.dst := by
  refine Addr.ext_bytes (read_congr fun i hi => ?_)
  have hstart : af.wire.src ≤ af.wire.dst := by cases af <;> decide
  have hend : af.wire.dst + af.size ≤ af.wire.icmp := by cases af <;> decide
  exact h.bytes _ (by omega) (not_forwardSets_of_src_le (by omega))

/-- A reply that is fed back is answered by a host before its target. -/
theorem Fed.not_found (h : c.Fed p q) {hit hit' : Hit} (hp : c.AnsweredBy p hit)
    (hq : c.AnsweredBy q hit') : hit'.found = false := by
  by_contra hfound
  have htarget := hq.responds.isHit.addr_eq_iff.mpr (by simpa using hfound)
  have hout : (c.hostAt hit'.slot).outcomeOf hit'.index q.packet = _ :=
    FakeHost.outcomeOf_of_eq htarget
  rw [h.proto, hp.proto, if_pos rfl, h.icmp, if_neg hp.type_ne_echo] at hout
  exact hq.outcome hout

theorem pos_addr_le {i : ℕ} (hi : i < c.hosts.length) : c.pos (c.hostAt i).addr ≤ i := by
  by_contra hlt
  rw [hostAt_eq_getElem hi] at hlt
  exact getElem_of_lt_pos (by omega) hi rfl

/-- **Two replies.** The target of a reply to a reply is the host that answered first, so another
host before it answers. -/
theorem responder_lt (hp : c.IsAnswered p) (hq : c.IsAnswered q) (hr : c.IsAnswered r)
    (hpq : c.Fed p q) (hqr : c.Fed q r) : c.responder r < c.responder p := by
  obtain ⟨hit, hp⟩ := hp.exists_hit
  obtain ⟨hit', hq⟩ := hq.exists_hit
  obtain ⟨hit'', hr⟩ := hr.exists_hit
  have htarget : Addr.load af r.packet af.wire.dst = (c.hostAt hit.slot).addr := by
    rw [hqr.dst, hq.answered.dst, hpq.src, hp.answered.src]
  have hpos := pos_addr_le hp.responds.isHit.slot_lt
  obtain ⟨hslot, hle⟩ := hr.responds.isHit.missed (hqr.not_found hq hr)
  have hlt := hr.responds.isHit.slot_lt
  have httl := hr.responds.isHit.slot_lt_ttl
  rw [htarget] at hle
  rw [hp.responder_eq, hr.responder_eq]
  omega

/-- **No packet storm.** If every reply is fed back, a packet is not answered after at most twice
as many replies as the chain has hosts. -/
theorem not_storm (c : HostChain af) {p : ℕ → Received}
    (h : ∀ i, c.IsAnswered (p i) → c.Fed (p i) (p (i + 1))) :
    ∃ i ≤ 2 * c.hosts.length, ¬ c.IsAnswered (p i) := by
  refine exists_dead (f := c.responder) (fun _ => responder_lt_length) ?_ h
  intro q hfed hlive
  have hans (i : ℕ) (hi : i < 3) : c.IsAnswered (q i) := hlive i hi
  have hnext (i : ℕ) (hi : i < 3) : c.Fed (q i) (q (i + 1)) := hfed i (hans i hi)
  exact responder_lt (hans 0 (by omega)) (hans 1 (by omega)) (hans 2 (by omega))
    (hnext 0 (by omega)) (hnext 1 (by omega))

/-- A ping and the replies that follow it. -/
theorem not_storm_ping :
    ∃ i ≤ 2 * oneHop.hosts.length, ¬ oneHop.IsAnswered (oneHop.feed^[i] ⟨ping, 28⟩) :=
  not_storm oneHop fun i _ => by
    rw [Function.iterate_succ_apply']
    exact fed_feed _ _

end HostChain

end Rdnstun
