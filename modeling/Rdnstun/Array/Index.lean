import Rdnstun.Array.Reply

/-!
# The index of a responder

The loop over the chains overwrites the pointer to a host and the index at different places. They
agree whenever a host is handed back.

* `IsHostAt`: a pointer to a host of an array, and its position in its own chain, below the TTL.
* **`find_isHostAt`**: so the TTL always suffices at the responder, and the only errors of a reply
  are those that leave the packet as it is.
-/

namespace Rdnstun

open Memory

variable {af : Af}

namespace HostChainArray

/-- The pointer is to a host of the array, the index is its position in its chain, and the TTL
exceeds it. -/
structure IsHostAt (chains : List (HostChain af)) (ttl : UInt8) (ptr : HostPtr)
    (index : UInt8) : Prop where
  host : ∃ c, chains[ptr.chain]? = some c ∧ c.hosts[ptr.slot]? = some (ptr.deref chains)
  index_eq : index.toNat = ptr.slot
  index_lt : index < ttl

variable {self : List (HostChain af)} {addr : Addr af} {ttl index index' : UInt8} {ptr : HostPtr}

/-- **The loops** hand back a host together with its own position. -/
theorem isHostAt_of_find (h : find self addr ttl index = (some ptr, index')) :
    IsHostAt self ttl ptr index' := by
  rcases findLoop_sound self addr ttl 0 none index with hnone | ⟨k, c, hit, hk, -, hfind, hloop⟩
  · rw [find, hnone] at h
    cases h
  · rw [find, hloop, Nat.zero_add] at h
    cases h
    have hhit := HostChain.isHit hfind
    refine ⟨⟨c, hk, ?_⟩, hhit.index, ?_⟩
    · simp only [HostPtr.deref, hk]
      rw [HostChain.hostAt_eq_getElem hhit.slot_lt, List.getElem?_eq_getElem hhit.slot_lt]
    · rw [UInt8.lt_iff_toNat_lt, hhit.index]
      exact hhit.slot_lt_ttl

theorem reply_ret (self : List (HostChain af)) (pkt : Mem) (len : ℕ) :
    (reply self pkt len).ret = 0 ∨
      reply self pkt len = ⟨17, pkt, len⟩ ∨ reply self pkt len = ⟨18, pkt, len⟩ := by
  by_cases hresp : ∃ k c hit, Responds self pkt k c hit
  · obtain ⟨k, c, hit, h⟩ := hresp
    rw [reply_of_responds h]
    exact .inl (FakeHost.replyOf_ret h.index_lt)
  · rw [reply_of_not_responds fun k c hit h => hresp ⟨k, c, hit, h⟩]
    split_ifs
    · exact .inr (.inl rfl)
    · exact .inr (.inr rfl)

/-- **The TTL suffices.** A host that is found comes with its own position, below the TTL, and does
not fail. A reply fails with `17` or `18` only, and then changes nothing. -/
theorem find_isHostAt (self : List (HostChain af)) (pkt : Mem) (len : ℕ) :
    (∀ index ptr index',
      find self (Addr.load af pkt af.wire.dst) (pkt af.wire.ttl) index = (some ptr, index') →
        IsHostAt self (pkt af.wire.ttl) ptr index' ∧
          ((ptr.deref self).replyOf index' pkt len).ret = 0) ∧
      ((reply self pkt len).ret = 0 ∨ (reply self pkt len).ret = 17 ∨
        (reply self pkt len).ret = 18) ∧
      ((reply self pkt len).ret ≠ 0 →
        (reply self pkt len).packet = pkt ∧ (reply self pkt len).len = len) := by
  refine ⟨fun index ptr index' h => ?_, ?_, fun hret => ?_⟩
  · have hhost := isHostAt_of_find h
    exact ⟨hhost, FakeHost.replyOf_ret hhost.index_lt⟩
  · rcases reply_ret self pkt len with h | h | h <;> simp [h]
  · rcases reply_ret self pkt len with h | h | h
    · exact absurd h hret
    · exact h ▸ ⟨rfl, rfl⟩
    · exact h ▸ ⟨rfl, rfl⟩

theorem find_isHostAt_ping : IsHostAt [oneHop] 1 ⟨0, 0⟩ 0 ∧
    ((HostPtr.deref ⟨0, 0⟩ [oneHop]).replyOf 0 ping 28).ret = 0 :=
  (find_isHostAt [oneHop] ping 28).1 0 ⟨0, 0⟩ 0 (by decide)

end HostChainArray

end Rdnstun
