import Mathlib

/-!
# Ledgers of allocated blocks

A heap hands out blocks by number and never the same number twice.

* `Ledger`: how many blocks were handed out, and which were given back.
* `Owns`: the blocks that were not given back are those of a list, each once.
* `Owns.alloc`, **`Owns.free`**: an owned block can be given back, and only its owner can.
* `Owns.perm`: the order of the owned blocks does not matter.
* `AllFreed`: every block was given back, each once.
-/

/-- The blocks of a heap: the number of allocations, and the blocks that were freed. -/
structure Ledger where
  next : ℕ
  freed : List ℕ
  deriving DecidableEq

namespace Ledger

variable {h : Ledger} {p : ℕ} {ps qs : List ℕ}

def empty : Ledger := ⟨0, []⟩

/-- The ledger after an allocation, of the block `h.next`. -/
def alloc (h : Ledger) : Ledger := { h with next := h.next + 1 }

/-- The block was allocated and not freed. -/
def Live (h : Ledger) (p : ℕ) : Prop := p < h.next ∧ p ∉ h.freed

instance (h : Ledger) (p : ℕ) : Decidable (h.Live p) := inferInstanceAs (Decidable (_ ∧ _))

/-- The ledger after a block is freed, if it is live. -/
def free (h : Ledger) (p : ℕ) : Option Ledger :=
  if h.Live p then some { h with freed := p :: h.freed } else none

/-- The live blocks are those of a list, each once. -/
def Owns (h : Ledger) (ps : List ℕ) : Prop := (h.freed ++ ps).Perm (List.range h.next)

/-- Every block was freed, each once. -/
def AllFreed (h : Ledger) : Prop := h.freed.Perm (List.range h.next)

theorem owns_empty : empty.Owns [] := List.Perm.refl _

theorem Owns.allFreed (hown : h.Owns []) : h.AllFreed := by
  rwa [Owns, List.append_nil] at hown

theorem Owns.perm (hown : h.Owns ps) (hperm : ps.Perm qs) : h.Owns qs :=
  (hperm.symm.append_left h.freed).trans hown

theorem owns_append_comm : h.Owns (ps ++ qs) ↔ h.Owns (qs ++ ps) :=
  ⟨fun hown => hown.perm List.perm_append_comm, fun hown => hown.perm List.perm_append_comm⟩

theorem Owns.nodup (hown : h.Owns ps) : ps.Nodup :=
  (List.nodup_append.mp (hown.nodup_iff.mpr List.nodup_range)).2.1

theorem Owns.live (hown : h.Owns ps) (hp : p ∈ ps) : h.Live p := by
  refine ⟨List.mem_range.mp (hown.subset (List.mem_append_right _ hp)), fun hfreed => ?_⟩
  have hnodup := List.nodup_append.mp (hown.nodup_iff.mpr List.nodup_range)
  exact hnodup.2.2 p hfreed p hp rfl

theorem Owns.alloc (hown : h.Owns ps) : h.alloc.Owns (h.next :: ps) := by
  show (h.freed ++ h.next :: ps).Perm (List.range (h.next + 1))
  rw [List.range_succ]
  exact List.perm_middle.trans ((hown.cons h.next).trans (List.perm_append_singleton _ _).symm)

/-- **An owned block** can be freed. -/
theorem Owns.free (hown : h.Owns (p :: ps)) :
    ∃ h', h.free p = some h' ∧ h'.Owns ps ∧ h'.next = h.next :=
  ⟨_, if_pos (hown.live List.mem_cons_self), List.perm_middle.symm.trans hown, rfl⟩

end Ledger
