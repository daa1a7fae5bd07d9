import Rdnstun.Array.Find
import Rdnstun.Host.Wire

/-!
# Replies of an array

* `HostChainArray.reply`: the reply function of the family; `reply_eq`: both in one form.
* `Responds`: the array finds a responder for a packet, a host in a slot that the TTL reaches.
* **`reply_of_responds`**: the reply is then that of the responder, and never an error.
* `reply_of_not_responds`: otherwise nothing is changed.
-/

namespace Rdnstun

open Memory

variable {af : Af}

namespace HostChainArray

/-- The reply function of the family. -/
def reply : {af : Af} → List (HostChain af) → Mem → ℕ → Reply
  | .inet => HostChain4Array.reply
  | .inet6 => HostChain6Array.reply

theorem reply_eq (self : List (HostChain af)) (pkt : Mem) (len : ℕ) :
    reply self pkt len =
      if 0 < pkt af.wire.ttl then
        match find self (Addr.load af pkt af.wire.dst) (pkt af.wire.ttl) 0 with
        | (some host, index) => ((host.deref self).replyOf index pkt len).raise
        | (none, _) => ⟨17, pkt, len⟩
      else ⟨18, pkt, len⟩ := by
  cases af <;> rfl

/-- Chain `c`, at position `k`, answers the packet, with a hit. -/
structure Responds (chains : List (HostChain af)) (pkt : Mem) (k : ℕ) (c : HostChain af)
    (hit : HostChain.Hit) : Prop where
  ttl : 0 < pkt af.wire.ttl
  chain : chains[k]? = some c
  isIn : c.isIn (Addr.load af pkt af.wire.dst) = true
  find : c.find (Addr.load af pkt af.wire.dst) (pkt af.wire.ttl) = some hit
  result : HostChainArray.find chains (Addr.load af pkt af.wire.dst) (pkt af.wire.ttl) 0 =
    (some ⟨k, hit.slot⟩, hit.index)

variable {self : List (HostChain af)} {pkt : Mem} {len k : ℕ} {c : HostChain af}
  {hit : HostChain.Hit}

theorem Responds.isHit (h : Responds self pkt k c hit) :
    HostChain.IsHit c (Addr.load af pkt af.wire.dst) (pkt af.wire.ttl) hit :=
  HostChain.isHit h.find

theorem Responds.index_lt (h : Responds self pkt k c hit) : hit.index < pkt af.wire.ttl := by
  rw [UInt8.lt_iff_toNat_lt, h.isHit.index]
  exact h.isHit.slot_lt_ttl

theorem Responds.deref (h : Responds self pkt k c hit) :
    (HostPtr.mk k hit.slot).deref self = c.hostAt hit.slot := by
  rw [HostPtr.deref, h.chain]

theorem Responds.hostAt_mem (h : Responds self pkt k c hit) : c.hostAt hit.slot ∈ c.hosts := by
  rw [HostChain.hostAt_eq_getElem h.isHit.slot_lt]
  exact List.getElem_mem _

/-- The responder is one of the hosts of the array. -/
theorem Responds.of_forall (h : Responds self pkt k c hit) {P : FakeHost af → Prop}
    (hP : ∀ c ∈ self, ∀ h ∈ c.hosts, P h) : P (c.hostAt hit.slot) :=
  hP c (List.mem_of_getElem? h.chain) _ h.hostAt_mem

theorem Responds.unique (h : Responds self pkt k c hit) {k' : ℕ} {c' : HostChain af}
    {hit' : HostChain.Hit} (h' : Responds self pkt k' c' hit') : c' = c ∧ hit' = hit := by
  have hresult := h'.result.symm.trans h.result
  rw [Prod.mk.injEq, Option.some_inj, HostPtr.mk.injEq] at hresult
  obtain ⟨⟨rfl, -⟩, -⟩ := hresult
  have hchain := h'.chain.symm.trans h.chain
  rw [Option.some_inj] at hchain
  obtain rfl := hchain
  exact ⟨rfl, Option.some_inj.mp (h'.find.symm.trans h.find)⟩

/-- A packet with a TTL has a responder if its destination lies in some route. -/
theorem exists_responds_of_isIn (httl : 0 < pkt af.wire.ttl)
    (hhosts : ∀ c ∈ self, c.isIn (Addr.load af pkt af.wire.dst) = true → c.hosts ≠ [])
    (hin : ∃ c ∈ self, c.isIn (Addr.load af pkt af.wire.dst) = true) :
    ∃ k c hit, Responds self pkt k c hit := by
  obtain ⟨k, hit, hans, hfind⟩ := find_isAnswer hhosts httl hin 0
  obtain ⟨c, hk, hcin, hc⟩ := hans.answers
  exact ⟨k, c, hit, httl, hk, hcin, hc, hfind⟩

theorem Responds.sub_eq_one_iff (h : Responds self pkt k c hit) :
    pkt af.wire.ttl - hit.index = 1 ↔ (pkt af.wire.ttl).toNat = hit.slot + 1 := by
  have hsub := UInt8.toNat_sub_of_le _ _ (UInt8.le_of_lt h.index_lt)
  have hlt := h.isHit.slot_lt_ttl
  rw [← UInt8.toNat_inj, hsub, h.isHit.index, UInt8.toNat_one]
  omega

theorem Responds.addr_eq_iff (h : Responds self pkt k c hit) :
    (c.hostAt hit.slot).addr = Addr.load af pkt af.wire.dst ↔
      c.Reaches (Addr.load af pkt af.wire.dst) (pkt af.wire.ttl) :=
  h.isHit.addr_eq_iff.trans (HostChain.found_iff h.find)

/-- **The outcome** at the responder. -/
theorem Responds.outcome_eq (h : Responds self pkt k c hit) :
    (c.hostAt hit.slot).outcomeOf hit.index pkt =
      if c.Reaches (Addr.load af pkt af.wire.dst) (pkt af.wire.ttl) then
        if pkt af.wire.proto = af.wire.icmpProto then
          if pkt af.wire.icmp = af.wire.echo then .echoReply else .ignored
        else .portUnreachable
      else if (pkt af.wire.ttl).toNat ≤ c.hosts.length then .timeExceeded
      else .hostUnreachable := by
  have hfound := HostChain.found_iff h.find
  by_cases hreach : c.Reaches (Addr.load af pkt af.wire.dst) (pkt af.wire.ttl)
  · rw [if_pos hreach]
    exact FakeHost.outcomeOf_of_eq (h.addr_eq_iff.mpr hreach)
  · have hmiss : hit.found = false := by simpa using mt hfound.mp hreach
    have hne := mt h.addr_eq_iff.mp hreach
    have hslot := (h.isHit.missed hmiss).1
    have hlt := h.isHit.slot_lt
    have httl := h.isHit.slot_lt_ttl
    rw [if_neg hreach, FakeHost.outcomeOf_of_ne hne]
    refine if_congr (h.sub_eq_one_iff.trans ?_) rfl rfl
    omega

theorem raise_of_ret_eq_zero {r : Reply} (h : r.ret = 0) : r.raise = r := by
  obtain ⟨ret, packet, len⟩ := r
  cases h
  rfl

theorem reply_eq_raise (h : Responds self pkt k c hit) :
    reply self pkt len = ((c.hostAt hit.slot).replyOf hit.index pkt len).raise := by
  rw [reply_eq, if_pos h.ttl, h.result]
  dsimp only
  rw [h.deref]

/-- **The reply** of an array with a responder is that of the responder. -/
theorem reply_of_responds (h : Responds self pkt k c hit) :
    reply self pkt len = (c.hostAt hit.slot).replyOf hit.index pkt len := by
  rw [reply_eq_raise h]
  exact raise_of_ret_eq_zero (FakeHost.replyOf_ret h.index_lt)

theorem Responds.sent (h : Responds self pkt k c hit)
    (ho : (c.hostAt hit.slot).outcomeOf hit.index pkt ≠ .ignored)
    (hmtu : 0 < (c.hostAt hit.slot).mtu.toNat) (hlen : 0 < len) :
    (reply self pkt len).ret = 0 ∧ 0 < (reply self pkt len).len := by
  have hans : FakeHost.Answered _ _ _ len _ _ := FakeHost.replyOf_answered h.index_lt ho
  rw [reply_of_responds h, hans.ret, hans.len]
  refine ⟨rfl, ?_⟩
  split_ifs
  · exact Nat.lt_min.mpr ⟨hlen, hmtu⟩
  · cases af <;> decide

theorem responds_of_find {ptr : HostPtr} {index : UInt8} (httl : 0 < pkt af.wire.ttl)
    (h : find self (Addr.load af pkt af.wire.dst) (pkt af.wire.ttl) 0 = (some ptr, index)) :
    ∃ c hit, Responds self pkt ptr.chain c hit ∧ ptr.slot = hit.slot ∧ index = hit.index := by
  rcases findLoop_sound self (Addr.load af pkt af.wire.dst) (pkt af.wire.ttl) 0 none 0 with
    hnone | ⟨k, c, hit, hk, hin, hfind, hloop⟩
  · rw [find, hnone] at h
    cases h
  · rw [Nat.zero_add] at hloop
    have hresult := hloop.symm.trans h
    rw [Prod.mk.injEq, Option.some_inj] at hresult
    obtain ⟨rfl, rfl⟩ := hresult
    exact ⟨c, hit, ⟨httl, hk, hin, hfind, hloop⟩, rfl, rfl⟩

theorem reply_of_not_responds (h : ∀ k c hit, ¬ Responds self pkt k c hit) :
    reply self pkt len = ⟨if 0 < pkt af.wire.ttl then 17 else 18, pkt, len⟩ := by
  rw [reply_eq]
  split_ifs with httl
  · cases hfind : find self (Addr.load af pkt af.wire.dst) (pkt af.wire.ttl) 0 with
    | mk ptr index =>
      cases ptr with
      | none => rfl
      | some ptr =>
        obtain ⟨c, hit, hresp, -⟩ := responds_of_find httl hfind
        exact absurd hresp (h _ c hit)
  · rfl

/-- A packet that is answered has a responder that does not ignore it. -/
theorem exists_responds (hret : (reply self pkt len).ret = 0)
    (hlen : 0 < (reply self pkt len).len) :
    ∃ k c hit, Responds self pkt k c hit ∧
      (c.hostAt hit.slot).outcomeOf hit.index pkt ≠ .ignored := by
  by_cases hresp : ∃ k c hit, Responds self pkt k c hit
  · obtain ⟨k, c, hit, h⟩ := hresp
    refine ⟨k, c, hit, h, fun ho => ?_⟩
    rw [reply_of_responds h, FakeHost.replyOf_ignored h.index_lt ho] at hlen
    exact absurd hlen (Nat.lt_irrefl 0)
  · rw [reply_of_not_responds fun k c hit h => hresp ⟨k, c, hit, h⟩] at hret
    dsimp only at hret
    split_ifs at hret

end HostChainArray

/-- A chain for all addresses with the host `10.0.0.1`. -/
def oneHop : HostChain .inet := .defaultRoute [⟨64, 1500, .v4 10 0 0 1⟩]

/-- A ping of `10.0.0.1` with TTL 1. -/
def ping : Mem := fun k =>
  [0x45, 0, 0, 28, 0, 0, 0, 0, 1, 1, 0, 0, 192, 0, 2, 1, 10, 0, 0, 1, 8, 0, 0xf7, 0xff].getD k 0

end Rdnstun
