import Mathlib

/-!
# Measures that decrease after a while

A sequence whose entries are related from each one to the next as long as they are alive. A
measure below a bound need not decrease at every step: it is enough that it does over every `k`
steps.

* `Alive`: the first `n` entries are alive; `GoesOn`: a live entry is related to the next.
* **`Alive.le_of_descent`**: at most `k` times the bound many entries are alive in a row.
* **`exists_dead`**: a sequence that goes on as long as it is alive meets a dead entry.
-/

namespace Descent

variable {α : Type*} {Live : α → Prop} {r : α → α → Prop} {f : α → ℕ} {p : ℕ → α} {k n bound : ℕ}

/-- The first `n` entries are alive. -/
def Alive (Live : α → Prop) (p : ℕ → α) (n : ℕ) : Prop := ∀ i < n, Live (p i)

/-- As long as the entries are alive, each is related to the next. -/
def GoesOn (Live : α → Prop) (r : α → α → Prop) (p : ℕ → α) : Prop :=
  ∀ i, Live (p i) → r (p i) (p (i + 1))

theorem GoesOn.shift (h : GoesOn Live r p) (i : ℕ) : GoesOn Live r fun j => p (i + j) :=
  fun j hj => h (i + j) hj

/-- **Descent rule.** A measure below a bound that decreases over every `k` steps. -/
theorem Alive.le_of_descent (hlive : Alive Live p n) (hbound : ∀ a, Live a → f a < bound)
    (hdec : ∀ i, i + k < n → f (p (i + k)) < f (p i)) : n ≤ k * bound := by
  have hsum : ∀ j, k * j < n → f (p (k * j)) + j ≤ f (p 0) := by
    intro j
    induction j with
    | zero => exact fun _ => Nat.le_refl _
    | succ j ih =>
      intro hj
      rw [Nat.mul_succ] at hj ⊢
      have hlt := hdec (k * j) hj
      have hle := ih (by omega)
      omega
  by_contra hn
  have hb := hbound (p 0) (hlive 0 (by omega))
  have hle := hsum bound (by omega)
  omega

/-- **Termination.** If the measure decreases over every `k` steps of every sequence, a sequence
that goes on as long as it is alive meets a dead entry soon. -/
theorem exists_dead (hbound : ∀ a, Live a → f a < bound)
    (hdec : ∀ p, GoesOn Live r p → Alive Live p (k + 1) → f (p k) < f (p 0))
    (h : GoesOn Live r p) : ∃ i ≤ k * bound, ¬ Live (p i) := by
  by_contra hall
  push Not at hall
  have hlive : Alive Live p (k * bound + 1) := fun i hi => hall i (by omega)
  have hle := hlive.le_of_descent (f := f) (k := k) hbound fun i hi =>
    hdec _ (h.shift i) fun j hj => hlive (i + j) (by omega)
  omega

end Descent
