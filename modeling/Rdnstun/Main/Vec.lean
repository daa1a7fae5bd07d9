import Rdnstun.Main.Heap

/-!
# Arrays that hold chains

* `Vec.Filled`: the entries are those of chains in blocks, with entries behind them.
* `Vec.Holds`: the hosts of the chains are in the blocks, and there is room for a terminator.
* `read_eq`, `write_eq`, **`Filled.irealloc`**: accesses within the capacity.
* **`Filled.release`**: every buffer and the array are freed.
* **`Holds.terminate`**: the terminator, the number of entries, and sorting.
-/

namespace Rdnstun

open Run

variable {af : Af} {heap : Heap} {v : Vec af} {ps : List ℕ} {xs ys : List (ℕ × HostChain af)}
  {rest : List (Option (Entry af))}

/-- The entries of chains in blocks. -/
def cellsOf (xs : List (ℕ × HostChain af)) : List (Option (Entry af)) :=
  xs.map fun x => some (Entry.of x)

@[simp] theorem length_cellsOf : (cellsOf xs).length = xs.length := List.length_map _

theorem cellsOf_append : cellsOf (xs ++ ys) = cellsOf xs ++ cellsOf ys := List.map_append

namespace Vec

/-- The array has the entries of the chains, with others behind them that have no buffers. -/
structure Filled (v : Vec af) (xs : List (ℕ × HostChain af)) (rest : List (Option (Entry af))) :
    Prop where
  len : v.len = xs.length
  cells : v.cells = cellsOf xs ++ rest
  base : v.base = none → v.cells = []
  spare : ∀ e, some e ∈ rest → e.buf = none

/-- The array holds the chains: their entries come first, their hosts are in the blocks of the
entries, and there is room for one more entry. -/
structure Holds (heap : Heap) (v : Vec af) (xs : List (ℕ × HostChain af)) : Prop where
  filled : ∃ rest, v.Filled xs rest ∧ (xs ≠ [] → rest ≠ [])
  hosts : ∀ x ∈ xs, heap.hosts af x.1 = x.2.buf

/-- The block of the array and the buffers of its chains. -/
def blocks (v : Vec af) (xs : List (ℕ × HostChain af)) : List ℕ :=
  v.base.toList ++ xs.map Prod.fst

theorem blocks_push (x : ℕ × HostChain af) :
    (x.1 :: (v.blocks xs ++ ps)).Perm (v.blocks (xs ++ [x]) ++ ps) := by
  rw [blocks, blocks, List.map_append, ← List.append_assoc]
  exact (List.perm_append_singleton _ _).symm.append_right ps

theorem Holds.len (h : v.Holds heap xs) : v.len = xs.length := by
  obtain ⟨rest, hfill, -⟩ := h.filled
  exact hfill.len

theorem Filled.base_ne_none (h : v.Filled xs rest) (hrest : rest ≠ []) : v.base ≠ none := by
  intro hbase
  have hnil := h.base hbase
  rw [h.cells, List.append_eq_nil_iff] at hnil
  exact hrest hnil.2

theorem Holds.base_ne_none (h : v.Holds heap xs) (hne : xs ≠ []) : v.base ≠ none := by
  obtain ⟨rest, hfill, hrest⟩ := h.filled
  exact hfill.base_ne_none (hrest hne)

theorem Holds.of_extends {heap' : Heap} (h : v.Holds heap xs)
    (hlt : ∀ x ∈ xs, x.1 < heap.blocks.next) (hext : heap.Extends heap') : v.Holds heap' xs where
  filled := h.filled
  hosts x hx := (hext.hosts af x.1 (hlt x hx)).trans (h.hosts x hx)

/-! ## Accesses -/

theorem read_eq {b : ℕ} {x : ℕ × HostChain af} (hcells : v.cells = cellsOf xs ++ rest)
    (hx : xs[b]? = some x) : v.read b = .ok (Entry.of x) := by
  have hb : b < xs.length := (List.getElem?_eq_some_iff.mp hx).1
  have hget : v.cells[b]? = some (some (Entry.of x)) := by
    rw [hcells, List.getElem?_append_left (by simpa using hb), cellsOf, List.getElem?_map, hx]
    rfl
  rw [read, hget]

theorem write_eq {i : ℕ} {cell cell' : Option (Entry af)}
    (hcells : v.cells = cellsOf xs ++ cell :: rest) (hi : i = xs.length) :
    v.write i cell' = .ok { v with cells := cellsOf xs ++ cell' :: rest } := by
  rw [write, hcells, hi, if_pos (by simp), List.set_append_right _ _ (by simp), length_cellsOf,
    Nat.sub_self, List.set_cons_zero]

/-- What is written behind the entries of the chains. -/
theorem Filled.set_spare {cell cell' : Option (Entry af)} (h : v.Filled xs (cell :: rest))
    (hspare : ∀ e, cell' = some e → e.buf = none) :
    { v with cells := cellsOf xs ++ cell' :: rest : Vec af }.Filled xs (cell' :: rest) where
  len := h.len
  cells := rfl
  base hbase := absurd hbase (h.base_ne_none (List.cons_ne_nil _ _))
  spare e he := by
    rcases List.mem_cons.mp he with rfl | he
    · exact hspare e rfl
    · exact h.spare e (List.mem_cons_of_mem _ he)

theorem Filled.push {cell : Option (Entry af)} {x : ℕ × HostChain af}
    (h : v.Filled xs (cell :: rest)) (hmax : xs.length + 1 < 2 ^ 32) :
    { v with cells := cellsOf xs ++ some (Entry.of x) :: rest : Vec af }.grow.Filled
      (xs ++ [x]) rest where
  len := by
    rw [grow, h.len, Nat.mod_eq_of_lt hmax, List.length_append, List.length_singleton]
  cells := by
    rw [cellsOf_append, List.append_assoc]
    rfl
  base hbase := absurd hbase (h.base_ne_none (List.cons_ne_nil _ _))
  spare e he := h.spare e (List.mem_cons_of_mem _ he)

/-- A reallocation to more entries than are in use keeps those. -/
theorem Filled.irealloc {count : ℕ} (h : v.Filled xs rest) (hlt : xs.length < count)
    (hmax : count < 2 ^ 32) (hown : heap.blocks.Owns (v.blocks xs ++ ps)) :
    ∃ heap' v' rest', heap.irealloc v count true = .ok (heap', v', true) ∧ v'.Filled xs rest' ∧
      rest'.length = count - xs.length ∧ heap'.blocks.Owns (v'.blocks xs ++ ps) ∧
        heap.Extends heap' := by
  rw [blocks, List.append_assoc] at hown
  obtain ⟨heap', p, hrealloc, hown', hext⟩ := Heap.irealloc_ok (by omega) hmax hown
  have htake : v.cells.take count ++ List.replicate (count - v.cells.length) none =
      cellsOf xs ++ (rest.take (count - xs.length) ++
        List.replicate (count - v.cells.length) none) := by
    rw [h.cells, List.take_append, List.take_of_length_le (by simpa using hlt.le), length_cellsOf,
      List.append_assoc]
  refine ⟨heap', _, _, hrealloc, ⟨h.len, htake, nofun, ?_⟩, ?_, ?_, hext⟩
  · intro e he
    rcases List.mem_append.mp he with he | he
    · exact h.spare e (List.mem_of_mem_take he)
    · cases List.eq_of_mem_replicate he
  · rw [List.length_append, List.length_take, List.length_replicate, h.cells, List.length_append,
      length_cellsOf]
    omega
  · exact hown'

/-! ## Release -/

/-- The entries of an array are freed, each with a promise about the next one. -/
theorem destroySize_owned (hrest : xs ≠ [] → rest ≠ [])
    (hspare : ∀ e, some e ∈ rest → e.buf = none)
    (hown : heap.blocks.Owns (xs.map Prod.fst ++ ps)) :
    ∃ heap', Heap.destroySize (cellsOf xs ++ rest) xs.length heap = .ok heap' ∧
      heap'.blocks.Owns ps := by
  induction xs generalizing heap with
  | nil => exact ⟨heap, by rw [List.length_nil, Heap.destroySize], hown⟩
  | cons x xs ih =>
    obtain ⟨next, cells, hcells, hpromise⟩ : ∃ next cells, cellsOf xs ++ rest = next :: cells ∧
        Heap.promised (Entry.of x) next = true := by
      cases xs with
      | nil =>
        obtain ⟨next, cells, rfl⟩ := List.exists_cons_of_ne_nil (hrest (List.cons_ne_nil _ _))
        refine ⟨next, cells, rfl, ?_⟩
        cases next with
        | none => rfl
        | some e =>
          have hnull := hspare e List.mem_cons_self
          simp [Heap.promised, Entry.of, hnull]
      | cons y ys =>
        refine ⟨_, _, rfl, ?_⟩
        have hne : x.1 ≠ y.1 := fun heq =>
          (List.nodup_cons.mp hown.nodup).1 (by rw [heq]; exact List.mem_cons_self)
        simp [Heap.promised, Entry.of, hne]
    obtain ⟨heap₁, hfree, hown₁, -⟩ := Heap.free_owned (p := some x.1) hown
    obtain ⟨heap₂, hdestroy, hown₂⟩ := ih (fun _ => hrest (List.cons_ne_nil _ _)) hown₁
    refine ⟨heap₂, ?_, hown₂⟩
    show Heap.destroySize (some (Entry.of x) :: (cellsOf xs ++ rest)) (xs.length + 1) heap = _
    rw [hcells] at hdestroy ⊢
    rw [Heap.destroySize, if_pos hpromise]
    show (heap.free (some x.1) >>= _) = _
    rw [hfree]
    exact hdestroy

/-- **An array** and all its buffers are released. -/
theorem Filled.release (hfill : v.Filled xs rest) (hrest : xs ≠ [] → rest ≠ [])
    (hown : heap.blocks.Owns (v.blocks xs ++ ps)) :
    ∃ heap', heap.release v = .ok heap' ∧ heap'.blocks.Owns ps := by
  rw [Heap.release]
  split_ifs with hbase
  · have hnil : xs = [] := by
      have hcells := hfill.cells
      rw [hfill.base hbase, eq_comm, List.append_eq_nil_iff] at hcells
      exact List.map_eq_nil_iff.mp hcells.1
    refine ⟨heap, rfl, ?_⟩
    rwa [blocks, hbase, hnil] at hown
  · have hown' : heap.blocks.Owns (xs.map Prod.fst ++ (v.base.toList ++ ps)) := by
      refine hown.perm ?_
      rw [blocks, ← List.append_assoc]
      exact List.perm_append_comm.append_right ps
    obtain ⟨heap₁, hdestroy, hown₁⟩ := destroySize_owned hrest hfill.spare hown'
    obtain ⟨heap₂, hfree, hown₂, -⟩ := Heap.free_owned hown₁
    refine ⟨heap₂, ?_, hown₂⟩
    rw [hfill.cells, hfill.len, hdestroy]
    exact hfree

/-! ## The terminator -/

theorem nitemLoop_eq {e : Entry af} (he : e.buf = none) (i : ℕ) :
    nitemLoop (cellsOf xs ++ some e :: rest) i = .ok (i + xs.length) := by
  induction xs generalizing i with
  | nil => exact if_pos he
  | cons x xs ih =>
    have hnext := ih (i + 1)
    rw [show i + 1 + xs.length = i + (x :: xs).length by simp; omega] at hnext
    exact (if_neg (Option.some_ne_none x.1)).trans hnext

theorem exists_perm_of_cells {cells : List (Option (Entry af))} (h : cells.Perm (cellsOf xs)) :
    ∃ ys, cells = cellsOf ys ∧ ys.Perm xs := by
  have hcomp := congrFun (congrFun (List.eq_map_comp_perm fun x : ℕ × HostChain af =>
    some (Entry.of x)) cells) xs
  exact hcomp.mpr h

/-- **A terminator** is written behind the entries, which are then sorted up to it. -/
theorem Holds.terminate {qsort : List (Option (Entry af)) → List (Option (Entry af))}
    (h : v.Holds heap xs) (hne : xs ≠ []) (hsort : ∀ l, (qsort l).Perm l) :
    ∃ v₁ v' ys, v.write v.len (some (.zero af)) = .ok v₁ ∧ v₁.sort qsort = .ok v' ∧
      v'.nitem = .ok v.len ∧ v'.base = v.base ∧ ys.Perm xs ∧ v'.Holds heap ys := by
  obtain ⟨rest, hfill, hrest⟩ := h.filled
  obtain ⟨cell, rest, rfl⟩ := List.exists_cons_of_ne_nil (hrest hne)
  obtain ⟨ys, hys, hperm⟩ := exists_perm_of_cells (hsort (cellsOf xs))
  have hzero : (Entry.zero af).buf = none := rfl
  have hnitem (zs : List (ℕ × HostChain af)) :
      nitemLoop (cellsOf zs ++ some (.zero af) :: rest) 0 = .ok zs.length := by
    rw [nitemLoop_eq hzero, Nat.zero_add]
  refine ⟨_, { v with cells := cellsOf ys ++ some (.zero af) :: rest }, ys,
    write_eq hfill.cells hfill.len, ?_, ?_, rfl, hperm, ?_⟩
  · rw [sort, nitem, hnitem, ok_bind, List.take_left' length_cellsOf,
      List.drop_left' length_cellsOf, hys]
    rfl
  · rw [nitem, hnitem, hfill.len, hperm.length_eq]
  · refine ⟨⟨some (.zero af) :: rest, ⟨?_, rfl, ?_, ?_⟩, fun _ => List.cons_ne_nil _ _⟩, ?_⟩
    · exact hfill.len.trans hperm.length_eq.symm
    · exact fun hbase => absurd hbase (h.base_ne_none hne)
    · intro e he
      rcases List.mem_cons.mp he with he | he
      · cases he; rfl
      · exact hfill.spare e (List.mem_cons_of_mem _ he)
    · exact fun x hx => h.hosts x (hperm.subset hx)

end Vec

end Rdnstun
