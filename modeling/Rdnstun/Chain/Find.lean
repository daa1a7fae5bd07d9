import Rdnstun.Chain.Model

/-!
# Lookup in one chain

* `length_hosts`, `buf_eq`: the buffer is the hosts, a null slot, and slots that nothing reads.
* `isIn_iff`: membership in the route is equality of the leading bits.
* `find_eq`: the scan in terms of the hosts and of the position of the address.
-/

namespace Rdnstun

variable {af : Af}

namespace HostChain

theorem length_hosts (c : HostChain af) : c.hosts.length = c.nitem := by
  rw [hosts, List.takeWhile_eq_take_findIdx_not, List.length_take, nitem]
  simp only [Bool.not_not]
  exact Nat.min_eq_left (List.findIdx_le_length)

/-- The slots from the first null one on. -/
theorem buf_eq (c : HostChain af) :
    ∃ h rest, c.buf = c.hosts ++ h :: rest ∧ h.isnull = true := by
  have hlt : c.hosts.length < c.buf.length := c.length_hosts ▸ c.nitem_lt
  have hsplit : c.buf = c.hosts ++ c.buf.dropWhile fun h => !h.isnull :=
    (List.takeWhile_append_dropWhile ..).symm
  cases hd : c.buf.dropWhile fun h => !h.isnull with
  | nil =>
    rw [hd, List.append_nil] at hsplit
    rw [← hsplit] at hlt
    omega
  | cons h rest =>
    refine ⟨h, rest, by rw [← hd]; exact hsplit, ?_⟩
    have := List.head?_dropWhile_not (fun h : FakeHost af => !h.isnull) c.buf
    rw [hd] at this
    simpa using this

theorem not_isnull_of_mem_hosts {c : HostChain af} {h : FakeHost af} (hh : h ∈ c.hosts) :
    h.isnull = false := by
  simpa using List.mem_takeWhile_imp hh

theorem hostAt_eq_getElem {c : HostChain af} {i : ℕ} (hi : i < c.hosts.length) :
    c.hostAt i = c.hosts[i] := by
  obtain ⟨h, rest, hbuf, -⟩ := c.buf_eq
  rw [hostAt, hbuf, List.getD_append _ _ _ _ hi, List.getD_eq_getElem _ _ hi]

theorem isIn_iff {c : HostChain af} {a : Addr af} :
    c.isIn a = true ↔ c.network.block c.prefixLen = a.block c.prefixLen := by
  rw [← membcmp_eq_zero_iff_block c.prefixLen_le, isIn, Bool.or_eq_true, beq_iff_eq, beq_iff_eq]
  refine or_iff_right_of_imp fun h => ?_
  rw [membcmp_eq_zero_iff_block c.prefixLen_le, h, Addr.block_zero, Addr.block_zero]

/-! ## The scan -/

/-- The loop stops at the address if it stands among the first `ttl` hosts, else after the first
`ttl` hosts. -/
theorem findLoop_eq (addr : Addr af) (buf : List (FakeHost af)) (ttl i : ℕ) :
    findLoop addr buf ttl i =
      (let hosts := buf.takeWhile fun h => !h.isnull
       let pos := hosts.findIdx fun h => h.addr = addr
       if pos < min ttl hosts.length then (true, i + pos)
       else (false, i + min ttl hosts.length)) := by
  induction buf generalizing ttl i with
  | nil => simp [findLoop]
  | cons host buf ih =>
    obtain _ | ttl := ttl
    · simp [findLoop]
    cases hnull : host.isnull with
    | true => simp [findLoop, hnull]
    | false =>
      by_cases haddr : host.addr = addr
      · simp [findLoop, hnull, haddr, List.findIdx_cons]
      · rw [findLoop, if_neg (by simp [hnull]), if_neg haddr, ih]
        simp only [List.takeWhile_cons, hnull, Bool.not_false, if_true, List.findIdx_cons, haddr,
          decide_false, cond_false, List.length_cons, Nat.add_min_add_right,
          Nat.add_lt_add_iff_right]
        split_ifs <;> simp only [Prod.mk.injEq, true_and] <;> omega

/-- **`HostChain.find`**: the host with the address if it stands within the TTL, else the last
host within the TTL. -/
theorem find_eq (c : HostChain af) (addr : Addr af) (ttl : UInt8) :
    c.find addr ttl =
      if c.pos addr < min ttl.toNat c.hosts.length then
        some ⟨c.pos addr, true, UInt8.ofNat (c.pos addr)⟩
      else if min ttl.toNat c.hosts.length = 0 then none
      else some ⟨min ttl.toNat c.hosts.length - 1, false,
        UInt8.ofNat (min ttl.toNat c.hosts.length - 1)⟩ := by
  have hloop := findLoop_eq addr c.buf ttl.toNat 0
  simp only [Nat.zero_add] at hloop
  change _ = if c.pos addr < min ttl.toNat c.hosts.length then (true, c.pos addr)
    else (false, min ttl.toNat c.hosts.length) at hloop
  rw [find, hloop]
  by_cases hpos : c.pos addr < min ttl.toNat c.hosts.length
  · rw [if_pos hpos, if_pos hpos]
    rfl
  · rw [if_neg hpos, if_neg hpos]
    rfl

theorem getElem_pos {c : HostChain af} {addr : Addr af} (h : c.pos addr < c.hosts.length) :
    c.hosts[c.pos addr].addr = addr := by
  have hfound := List.findIdx_getElem (p := fun h : FakeHost af => decide (h.addr = addr)) (w := h)
  exact of_decide_eq_true hfound

theorem getElem_of_lt_pos {c : HostChain af} {addr : Addr af} {k : ℕ} (hk : k < c.pos addr)
    (hlt : k < c.hosts.length) : c.hosts[k].addr ≠ addr := by
  simpa using List.not_of_lt_findIdx hk

/-- The address is among the first `ttl` hosts. -/
def Reaches (c : HostChain af) (addr : Addr af) (ttl : UInt8) : Prop :=
  c.pos addr < min ttl.toNat c.hosts.length

instance (c : HostChain af) (addr : Addr af) (ttl : UInt8) : Decidable (c.Reaches addr ttl) :=
  inferInstanceAs (Decidable (_ < _))

/-- What a hit says. -/
structure IsHit (c : HostChain af) (addr : Addr af) (ttl : UInt8) (hit : Hit) : Prop where
  slot_lt : hit.slot < c.hosts.length
  slot_lt_ttl : hit.slot < ttl.toNat
  index : hit.index.toNat = hit.slot
  found : hit.found = true → hit.slot = c.pos addr
  missed : hit.found = false →
    hit.slot = min ttl.toNat c.hosts.length - 1 ∧ min ttl.toNat c.hosts.length ≤ c.pos addr

theorem isHit {c : HostChain af} {addr : Addr af} {ttl : UInt8} {hit : Hit}
    (h : c.find addr ttl = some hit) : IsHit c addr ttl hit := by
  have httl := ttl.toNat_lt
  have hindex : ∀ i < ttl.toNat, (UInt8.ofNat i).toNat = i := fun i hi => by
    rw [UInt8.toNat_ofNat']
    exact Nat.mod_eq_of_lt (by omega)
  rw [find_eq] at h
  split_ifs at h with hpos hzero
  · cases h
    exact ⟨by dsimp only; omega, by dsimp only; omega, hindex _ (by omega), fun _ => rfl,
      fun h => by cases h⟩
  · cases h
    exact ⟨by dsimp only; omega, by dsimp only; omega, hindex _ (by omega), fun h => by (cases h),
      fun _ => ⟨rfl, by omega⟩⟩

theorem IsHit.addr_eq_iff {c : HostChain af} {addr : Addr af} {ttl : UInt8} {hit : Hit}
    (h : IsHit c addr ttl hit) : (c.hostAt hit.slot).addr = addr ↔ hit.found = true := by
  rw [hostAt_eq_getElem h.slot_lt]
  cases hfound : hit.found with
  | true =>
    have hslot := h.found hfound
    have hlt := h.slot_lt
    simp only [hslot, iff_true] at hlt ⊢
    exact getElem_pos hlt
  | false =>
    obtain ⟨hslot, hle⟩ := h.missed hfound
    have hlt := h.slot_lt
    have httl := h.slot_lt_ttl
    have hpos : hit.slot < c.pos addr := by omega
    exact iff_of_false (getElem_of_lt_pos hpos hlt) Bool.false_ne_true

end HostChain

end Rdnstun
