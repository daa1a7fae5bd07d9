import Rdnstun.Array.Traceroute
import Rdnstun.Lib.Network

/-!
# Arrays as networks

What an array of chains is for: a network, in which the hosts of a chain are the hops of a path.

* `chainPaths`: the chains as paths; `findLoop_deliver`: the loop over the chains delivers probes.
* `stopOutcome`: what the end of a walk means for a packet.
* `Responds.deliver_eq`, `deliver_of_not_responds`: where a packet is delivered.
* `Delivery`, `delivery`: the message that the network asks for; **`reply_delivery`**: the reply of
  the array is that message.
-/

namespace Rdnstun

open Memory Network Path

variable {af : Af}

/-- The route and the hosts of a chain. -/
def chainPaths (af : Af) : Paths (HostChain af) (Addr af) :=
  ⟨fun c addr => c.isIn addr, fun c => c.hosts.map FakeHost.addr⟩

theorem chainPaths_hops {c : HostChain af} : (chainPaths af).hops c = [] ↔ c.hosts = [] :=
  List.map_eq_nil_iff

/-! ## Lookups -/

/-- The scan of a chain ends where the walk along its hosts does. -/
theorem HostChain.find_eq_walk {c : HostChain af} (addr : Addr af) {ttl : UInt8}
    (hhosts : c.hosts ≠ []) (httl : 0 < ttl) :
    ∃ hit, c.find addr ttl = some hit ∧ hit.index = .ofNat hit.slot ∧
      hit.slot = (walk addr ((chainPaths af).hops c) ttl.toNat 0).1 ∧
        (hit.found = true ↔ (walk addr ((chainPaths af).hops c) ttl.toNat 0).2 = .reached) := by
  have hpos : 0 < ttl.toNat := UInt8.lt_iff_toNat_lt.mp httl
  have hlen := List.length_pos_iff.mpr hhosts
  have hidx : ((chainPaths af).hops c).idxOf addr = c.pos addr := (pos_eq_idxOf c addr).symm
  have hlength : ((chainPaths af).hops c).length = c.hosts.length := List.length_map _
  rw [walk_eq_probe (mt chainPaths_hops.mp hhosts) hpos, probe, hidx, hlength, find_eq]
  by_cases hlt : c.pos addr < min ttl.toNat c.hosts.length
  · rw [if_pos hlt, if_pos hlt]
    exact ⟨_, rfl, rfl, rfl, iff_of_true rfl rfl⟩
  · rw [if_neg hlt, if_neg hlt, if_neg (by omega)]
    refine ⟨_, rfl, rfl, rfl, iff_of_false Bool.false_ne_true ?_⟩
    dsimp only
    split_ifs <;> decide

/-! ## Messages -/

/-- What the end of a walk means for a packet. -/
def stopOutcome (af : Af) (pkt : Mem) : Verdict → Outcome
  | .expired => .timeExceeded
  | .lost => .hostUnreachable
  | .reached =>
    if pkt af.wire.proto = af.wire.icmpProto then
      if pkt af.wire.icmp = af.wire.echo then .echoReply else .ignored
    else .portUnreachable

/-- A message of an outcome from a hop of a path. -/
structure Delivery where
  af : Af
  path : HostChain af
  hop : ℕ
  outcome : Outcome

/-- A reply is the message, with the TTL that is left over after the way back. -/
structure Delivery.Shown (x : Delivery) (pkt : Mem) (len : ℕ) (r : Reply) : Prop where
  sent : 0 < r.len
  answered : FakeHost.Answered (x.path.hostAt x.hop) (.ofNat x.hop) pkt len x.outcome r
  proto : r.packet x.af.wire.proto = x.af.wire.icmpProto

namespace HostChainArray

variable {self : List (HostChain af)} {addr : Addr af} {ttl : UInt8} {pkt : Mem} {k len : ℕ}
  {c : HostChain af} {hit : HostChain.Hit}

/-- The host that is handed back: its chain, its slot and the index. -/
def found (self : List (HostChain af)) (r : Option HostPtr × UInt8) :
    Option (Option (HostChain af) × ℕ × UInt8) :=
  r.1.map fun host => (self[host.chain]?, host.slot, r.2)

/-- **The loop** hands back the host at which a probe is delivered on the rest of the chains, or
else what it was given. -/
theorem findLoop_deliver (addr : Addr af) (httl : 0 < ttl) {cs : List (HostChain af)} {i : ℕ}
    (hcs : self.drop i = cs) (ret : Option HostPtr) (index : UInt8) :
    found self (findLoop addr ttl cs i ret index) =
      ((deliver (chainPaths af) addr ttl.toNat cs).map fun d =>
        (some d.1, d.2.1, UInt8.ofNat d.2.1)).or (found self (ret, index)) := by
  induction cs generalizing i ret index with
  | nil => rfl
  | cons c cs ih =>
    have hi : self[i]? = some c := by rw [← List.head?_drop, hcs, List.head?_cons]
    have hrest : self.drop (i + 1) = cs := by rw [← List.tail_drop, hcs, List.tail_cons]
    rw [findLoop]
    cases hin : c.isIn addr with
    | false =>
      have hcovers : (chainPaths af).covers c addr = false := hin
      rw [if_neg Bool.false_ne_true, deliver_of_not_covers hcovers]
      exact ih hrest ret index
    | true =>
      have hcovers : (chainPaths af).covers c addr = true := hin
      rw [if_pos rfl]
      by_cases hhosts : c.hosts = []
      · have hfind : c.find addr ttl = none := by
          rw [HostChain.find_eq, hhosts, List.length_nil, Nat.min_zero,
            if_neg (Nat.not_lt_zero _), if_pos rfl]
        rw [hfind, deliver_of_hops_eq_nil hcovers (chainPaths_hops.mpr hhosts)]
        rfl
      · obtain ⟨hit, hfind, hindex, hslot, hfound⟩ := HostChain.find_eq_walk addr hhosts httl
        have hhops := mt chainPaths_hops.mp hhosts
        have hthis : found self (some ⟨i, hit.slot⟩, hit.index) =
            some (some c, hit.slot, UInt8.ofNat hit.slot) := by
          rw [found, Option.map_some, hi, hindex]
        rw [hfind]
        dsimp only
        cases hcase : hit.found with
        | true =>
          rw [if_pos rfl, deliver_of_reached hcovers hhops (hfound.mp hcase), hthis, hslot]
          rfl
        | false =>
          have hwalk := mt hfound.mpr (by simp [hcase])
          rw [if_neg Bool.false_ne_true, ih hrest, hthis,
            deliver_of_not_reached hcovers hhops hwalk, hslot]
          cases deliver (chainPaths af) addr ttl.toNat cs <;> rfl

/-- **A packet with a responder** is delivered at its slot, and the end of the walk says what the
responder does. -/
theorem Responds.deliver_eq (h : Responds self pkt k c hit) :
    ∃ v, deliver (chainPaths af) (Addr.load af pkt af.wire.dst) (pkt af.wire.ttl).toNat self =
        some (c, hit.slot, v) ∧
      (c.hostAt hit.slot).outcomeOf hit.index pkt = stopOutcome af pkt v := by
  have hloop := findLoop_deliver (Addr.load af pkt af.wire.dst) h.ttl
    (List.drop_zero : self.drop 0 = self) none 0
  have hresult : findLoop (Addr.load af pkt af.wire.dst) (pkt af.wire.ttl) self 0 none 0 = _ :=
    h.result
  rw [hresult, found, found, Option.map_some, Option.map_none, Option.or_none, h.chain] at hloop
  obtain ⟨⟨c', i, v⟩, hdeliver, heq⟩ := Option.map_eq_some_iff.mp hloop.symm
  simp only [Prod.mk.injEq, Option.some.injEq] at heq
  obtain ⟨rfl, rfl, -⟩ := heq
  obtain ⟨-, -, -, hstop⟩ := deliver_spec hdeliver
  have hwalk : walk (Addr.load af pkt af.wire.dst) ((chainPaths af).hops c')
      (pkt af.wire.ttl).toNat 0 = _ := walk_eq h
  rw [hwalk, Prod.mk.injEq] at hstop
  refine ⟨v, hdeliver, ?_⟩
  rw [h.outcome_eq, hstop.2]
  split_ifs <;> simp [stopOutcome, *]

theorem deliver_of_not_responds (httl : 0 < pkt af.wire.ttl)
    (h : ∀ k c hit, ¬ Responds self pkt k c hit) :
    deliver (chainPaths af) (Addr.load af pkt af.wire.dst) (pkt af.wire.ttl).toNat self = none := by
  have hloop := findLoop_deliver (Addr.load af pkt af.wire.dst) httl
    (List.drop_zero : self.drop 0 = self) none 0
  rcases findLoop_sound self (Addr.load af pkt af.wire.dst) (pkt af.wire.ttl) 0 none 0 with
    hnone | ⟨k, c, hit, hk, hin, hfind, hresult⟩
  · rw [hnone, found, Option.map_none, Option.or_none] at hloop
    exact Option.map_eq_none_iff.mp hloop.symm
  · rw [Nat.zero_add] at hresult
    exact absurd ⟨httl, hk, hin, hfind, hresult⟩ (h k c hit)

/-- The message that the network asks for, if any. -/
def delivery (self : List (HostChain af)) (pkt : Mem) : Option Delivery :=
  if 0 < pkt af.wire.ttl then
    (deliver (chainPaths af) (Addr.load af pkt af.wire.dst) (pkt af.wire.ttl).toNat self).bind
      fun (c, hop, v) =>
        if stopOutcome af pkt v = .ignored then none else some ⟨af, c, hop, stopOutcome af pkt v⟩
  else none

theorem Responds.delivery_eq (h : Responds self pkt k c hit) : delivery self pkt =
    if (c.hostAt hit.slot).outcomeOf hit.index pkt = .ignored then none
    else some ⟨af, c, hit.slot, (c.hostAt hit.slot).outcomeOf hit.index pkt⟩ := by
  obtain ⟨v, hdeliver, ho⟩ := h.deliver_eq
  rw [delivery, if_pos h.ttl, hdeliver, Option.bind_some, ho]

/-- **The reply** of an array is the message that the network asks for, or nothing is sent. -/
theorem reply_delivery (self : List (HostChain af)) (pkt : Mem) (hlen : 0 < len)
    (hmtu : ∀ c ∈ self, ∀ h ∈ c.hosts, 0 < h.mtu.toNat) :
    match delivery self pkt with
    | some x => x.Shown pkt len (reply self pkt len)
    | none => (reply self pkt len).ret ≠ 0 ∨ (reply self pkt len).len = 0 := by
  by_cases hsome : ∃ k c hit, Responds self pkt k c hit
  · obtain ⟨k, c, hit, hresp⟩ := hsome
    have hsent := fun ho => hresp.sent ho (hresp.of_forall hmtu) hlen
    rw [reply_of_responds hresp] at hsent ⊢
    rw [hresp.delivery_eq]
    by_cases ho : (c.hostAt hit.slot).outcomeOf hit.index pkt = .ignored
    · rw [if_pos ho]
      exact .inr (by rw [FakeHost.replyOf_ignored hresp.index_lt ho])
    · have hindex : hit.index = .ofNat hit.slot := by rw [← hresp.isHit.index, UInt8.ofNat_toNat]
      rw [if_neg ho]
      refine ⟨(hsent ho).2, ?_, FakeHost.replyOf_proto hresp.index_lt ho⟩
      rw [← hindex]
      exact FakeHost.replyOf_answered hresp.index_lt ho
  · have hnone : ∀ k c hit, ¬ Responds self pkt k c hit := fun k c hit h => hsome ⟨k, c, hit, h⟩
    have hdelivery : delivery self pkt = none := by
      rw [delivery]
      split_ifs with httl
      · rw [deliver_of_not_responds httl hnone, Option.bind_none]
      · rfl
    rw [hdelivery, reply_of_not_responds hnone]
    refine .inl ?_
    dsimp only
    split_ifs <;> decide

end HostChainArray

end Rdnstun
