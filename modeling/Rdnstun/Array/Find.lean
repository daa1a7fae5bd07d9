import Rdnstun.Array.Model

/-!
# The answering chain

The loop of `HostChainArray.find` hands back the hit of one chain, `IsAnswer`: a chain in whose
route the address lies, before which no chain found the address, and which found it itself or is
the last one in whose route the address lies.

* `find_isAnswer`: there is such a chain as soon as the address lies in some route.
* `findLoop_sound`: whatever is handed back is the hit of such a route.
-/

namespace Rdnstun

variable {af : Af}

namespace HostChain

theorem exists_find {c : HostChain af} {ttl : UInt8} (addr : Addr af) (hhosts : c.hosts ≠ [])
    (httl : 0 < ttl) : ∃ hit, c.find addr ttl = some hit := by
  have hlen := List.length_pos_iff.mpr hhosts
  have hpos : 0 < ttl.toNat := UInt8.lt_iff_toNat_lt.mp httl
  rw [find_eq]
  split_ifs with hfound hzero
  · exact ⟨_, rfl⟩
  · omega
  · exact ⟨_, rfl⟩

theorem found_iff {c : HostChain af} {addr : Addr af} {ttl : UInt8} {hit : Hit}
    (h : c.find addr ttl = some hit) :
    hit.found = true ↔ c.Reaches addr ttl := by
  rw [find_eq] at h
  split_ifs at h with hfound
  · cases h
    exact iff_of_true rfl hfound
  · cases h
    exact iff_of_false Bool.false_ne_true hfound

end HostChain

namespace HostChainArray

/-- Chain `k` answers for the address, with `hit`. -/
structure IsAnswer (chains : List (HostChain af)) (addr : Addr af) (ttl : UInt8) (k : ℕ)
    (hit : HostChain.Hit) : Prop where
  answers : ∃ c, chains[k]? = some c ∧ c.isIn addr = true ∧ c.find addr ttl = some hit
  before : ∀ j < k, ∀ c, chains[j]? = some c → c.isIn addr = true →
    ∀ h, c.find addr ttl = some h → h.found = false
  after : hit.found = false → ∀ j, k < j → ∀ c, chains[j]? = some c → c.isIn addr = false

variable {c : HostChain af} {cs : List (HostChain af)} {addr : Addr af} {ttl : UInt8} {k : ℕ}
  {hit : HostChain.Hit}

theorem IsAnswer.cons (h : IsAnswer cs addr ttl k hit)
    (hc : c.isIn addr = true → ∀ h, c.find addr ttl = some h → h.found = false) :
    IsAnswer (c :: cs) addr ttl (k + 1) hit := by
  obtain ⟨hanswers, hbefore, hafter⟩ := h
  refine ⟨hanswers, ?_, ?_⟩
  · intro j hj d hd
    obtain _ | j := j
    · cases hd
      exact hc
    · exact hbefore j (by omega) d hd
  · intro hfound j hj d hd
    obtain _ | j := j
    · omega
    · exact hafter hfound j (by omega) d hd

theorem isAnswer_zero (hin : c.isIn addr = true) (hfind : c.find addr ttl = some hit)
    (hafter : hit.found = false → ∀ d ∈ cs, d.isIn addr = false) :
    IsAnswer (c :: cs) addr ttl 0 hit := by
  refine ⟨⟨c, rfl, hin, hfind⟩, fun j hj => absurd hj (Nat.not_lt_zero j), ?_⟩
  intro hfound j hj d hd
  obtain _ | j := j
  · omega
  · exact hafter hfound d (List.mem_of_getElem? hd)

theorem findLoop_of_forall_not_isIn (h : ∀ c ∈ cs, c.isIn addr = false) (i : ℕ)
    (ret : Option HostPtr) (index : UInt8) : findLoop addr ttl cs i ret index = (ret, index) := by
  induction cs generalizing i with
  | nil => rfl
  | cons c cs ih =>
    rw [findLoop, if_neg (by simp [h c List.mem_cons_self])]
    exact ih (fun d hd => h d (List.mem_cons_of_mem c hd)) (i + 1)

/-- What the loop hands back is what it was given or the hit of a chain in whose route the address
lies. -/
theorem findLoop_sound (cs : List (HostChain af)) (addr : Addr af) (ttl : UInt8) (i : ℕ)
    (ret : Option HostPtr) (index : UInt8) :
    findLoop addr ttl cs i ret index = (ret, index) ∨
      ∃ k c hit, cs[k]? = some c ∧ c.isIn addr = true ∧ c.find addr ttl = some hit ∧
        findLoop addr ttl cs i ret index = (some ⟨i + k, hit.slot⟩, hit.index) := by
  induction cs generalizing i ret index with
  | nil => exact .inl rfl
  | cons c cs ih =>
    rw [findLoop]
    split_ifs with hc
    · cases hfind : c.find addr ttl with
      | none => exact .inl rfl
      | some hit =>
        dsimp only
        split_ifs with hfound
        · exact .inr ⟨0, c, hit, rfl, hc, hfind, rfl⟩
        · rcases ih (i + 1) (some ⟨i, hit.slot⟩) hit.index with h | ⟨k, d, hit', hk, hin, hd, h⟩
          · exact .inr ⟨0, c, hit, rfl, hc, hfind, h⟩
          · exact .inr ⟨k + 1, d, hit', hk, hin, hd, by rw [h, Nat.add_right_comm, Nat.add_assoc]⟩
    · rcases ih (i + 1) ret index with h | ⟨k, d, hit', hk, hin, hd, h⟩
      · exact .inl h
      · exact .inr ⟨k + 1, d, hit', hk, hin, hd, by rw [h, Nat.add_right_comm, Nat.add_assoc]⟩

/-- **The loop** hands back what it was given if the address lies in no route, and the hit of the
answering chain otherwise. -/
theorem findLoop_isAnswer (hhosts : ∀ c ∈ cs, c.isIn addr = true → c.hosts ≠ [])
    (httl : 0 < ttl) (hin : ∃ c ∈ cs, c.isIn addr = true) (i : ℕ) (ret : Option HostPtr)
    (index : UInt8) :
    ∃ k hit, IsAnswer cs addr ttl k hit ∧
      findLoop addr ttl cs i ret index = (some ⟨i + k, hit.slot⟩, hit.index) := by
  induction cs generalizing i ret index with
  | nil => simp at hin
  | cons c cs ih =>
    have hrest : ∀ d ∈ cs, d.isIn addr = true → d.hosts ≠ [] := fun d hd =>
      hhosts d (List.mem_cons_of_mem c hd)
    by_cases hc : c.isIn addr = true
    · obtain ⟨hit, hfind⟩ := HostChain.exists_find addr
        (hhosts c List.mem_cons_self hc) httl
      rw [findLoop, if_pos hc, hfind]
      dsimp only
      cases hfound : hit.found with
      | true => exact ⟨0, hit, isAnswer_zero hc hfind (by simp [hfound]), rfl⟩
      | false =>
        by_cases hmore : ∃ d ∈ cs, d.isIn addr = true
        · obtain ⟨k, hit', hans, hloop⟩ := ih hrest hmore (i + 1) (some ⟨i, hit.slot⟩) hit.index
          refine ⟨k + 1, hit', hans.cons fun _ h hh => ?_, ?_⟩
          · rw [hfind, Option.some_inj] at hh
            rw [← hh, hfound]
          · rw [if_neg Bool.false_ne_true, hloop, Nat.add_right_comm, Nat.add_assoc]
        · have hnone : ∀ d ∈ cs, d.isIn addr = false := by simpa using hmore
          refine ⟨0, hit, isAnswer_zero hc hfind fun _ => hnone, ?_⟩
          rw [if_neg Bool.false_ne_true, findLoop_of_forall_not_isIn hnone, Nat.add_zero]
    · obtain ⟨d, hd, hdin⟩ := hin
      obtain rfl | hd := List.mem_cons.mp hd
      · exact absurd hdin hc
      · obtain ⟨k, hit, hans, hloop⟩ := ih hrest ⟨d, hd, hdin⟩ (i + 1) ret index
        refine ⟨k + 1, hit, hans.cons fun h => absurd h hc, ?_⟩
        rw [findLoop, if_neg hc, hloop, Nat.add_right_comm, Nat.add_assoc]

theorem find_isAnswer (hhosts : ∀ c ∈ cs, c.isIn addr = true → c.hosts ≠ [])
    (httl : 0 < ttl) (hin : ∃ c ∈ cs, c.isIn addr = true) (index : UInt8) :
    ∃ k hit, IsAnswer cs addr ttl k hit ∧
      find cs addr ttl index = (some ⟨k, hit.slot⟩, hit.index) := by
  obtain ⟨k, hit, hans, hloop⟩ := findLoop_isAnswer hhosts httl hin 0 none index
  rw [Nat.zero_add] at hloop
  exact ⟨k, hit, hans, hloop⟩

end HostChainArray

end Rdnstun
