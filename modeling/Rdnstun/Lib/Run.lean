import Mathlib

/-!
# Runs of a fallible step

`run step s l` folds a step that may fail over a list of inputs. `Visits step s l t x`: the run
reaches the input `x` in state `t`.

* `bind_eq_ok`: both parts of a sequence that succeeds do.
* `run_invariant_history`: a property that depends on the inputs so far.
* `Commutes.run_move`: an input that commutes with every other may stand anywhere.
* `run_invariant`, `Visits.invariant`: what every step preserves holds at the end and at every
  visit.
* `run_invariant_visits`: the steps may be assumed to be taken at visits.
* **`run_related`**: two runs whose steps correspond.
* `run_potential`: a number that no step increases is kept exactly when every step keeps it.
* `exists_visits_of_error`: a failed run failed at a visit; `Visits.exists_run`: a finished one went
  on from every visit.
-/

namespace Run

variable {σ α ε : Type*} {step : σ → α → Except ε σ} {s t : σ} {x y : α} {l : List α}

@[simp] theorem ok_bind {ε : Type*} {α β : Type _} (a : α) (f : α → Except ε β) :
    (Except.ok a >>= f) = f a := rfl

theorem bind_eq_ok {ε : Type*} {α β : Type _} {x : Except ε α} {f : α → Except ε β} {b : β}
    (h : (x >>= f) = .ok b) : ∃ a, x = .ok a ∧ f a = .ok b := by
  cases x with
  | error e => cases h
  | ok a => exact ⟨a, rfl, h⟩

/-- The step folded over the inputs, up to the first failure. -/
def run (step : σ → α → Except ε σ) (s : σ) (l : List α) : Except ε σ := l.foldlM step s

@[simp] theorem run_nil : run step s [] = .ok s := rfl

theorem run_cons_ok :
    run step s (x :: l) = .ok t ↔ ∃ s', step s x = .ok s' ∧ run step s' l = .ok t := by
  rw [run, List.foldlM_cons]
  cases step s x <;> simp [run, bind, Except.bind]

theorem run_cons_error {e : ε} :
    run step s (x :: l) = .error e ↔
      step s x = .error e ∨ ∃ s', step s x = .ok s' ∧ run step s' l = .error e := by
  rw [run, List.foldlM_cons]
  cases step s x <;> simp [run, bind, Except.bind]

/-- **Run rule.** What every step preserves, a run preserves. -/
theorem run_invariant {P : σ → Prop} (hstep : ∀ s x s', P s → step s x = .ok s' → P s')
    (hs : P s) (h : run step s l = .ok t) : P t := by
  induction l generalizing s with
  | nil => cases h; exact hs
  | cons x l ih =>
    obtain ⟨s', hx, hl⟩ := run_cons_ok.mp h
    exact ih (hstep s x s' hs hx) hl

theorem run_append_ok {m : List α} {u : σ} :
    run step s (l ++ m) = .ok u ↔ ∃ t, run step s l = .ok t ∧ run step t m = .ok u := by
  induction l generalizing s with
  | nil => simp
  | cons x l ih =>
    rw [List.cons_append, run_cons_ok]
    simp only [ih, run_cons_ok]
    constructor
    · rintro ⟨s', hx, t, hl, hm⟩
      exact ⟨t, ⟨s', hx, hl⟩, hm⟩
    · rintro ⟨t, ⟨s', hx, hl⟩, hm⟩
      exact ⟨s', hx, t, hl, hm⟩

/-- **Run rule** for a property that depends on the inputs so far. -/
theorem run_invariant_history {P : List α → σ → Prop}
    (hstep : ∀ l s x s', P l s → step s x = .ok s' → P (l ++ [x]) s') (hs : P [] s)
    (h : run step s l = .ok t) : P l t := by
  induction l using List.reverseRecOn generalizing t with
  | nil => cases h; exact hs
  | append_singleton l x ih =>
    obtain ⟨u, hl, hx⟩ := run_append_ok.mp h
    obtain ⟨u', hu', hnil⟩ := run_cons_ok.mp hx
    cases hnil
    exact hstep l u x t (ih hl) hu'

/-! ## Inputs that may be moved -/

/-- Before or after any other input, `x` has the same effect. -/
def Commutes (step : σ → α → Except ε σ) (x : α) : Prop :=
  ∀ s y t, run step s [y, x] = .ok t ↔ run step s [x, y] = .ok t

theorem Commutes.run_append (hx : Commutes step x) {m : List α} :
    run step s (l ++ x :: m) = .ok t ↔ run step s (x :: (l ++ m)) = .ok t := by
  induction l generalizing s with
  | nil => rfl
  | cons y l ih =>
    have hswap : run step s ([x, y] ++ (l ++ m)) = .ok t ↔ _ := run_append_ok
    have hswap' : run step s ([y, x] ++ (l ++ m)) = .ok t ↔ _ := run_append_ok
    simp only [hx s y] at hswap'
    rw [List.cons_append, run_cons_ok]
    simp only [ih]
    rw [← run_cons_ok]
    exact hswap'.trans hswap.symm

/-- **Move rule.** An input that commutes with every other may stand anywhere. -/
theorem Commutes.run_move (hx : Commutes step x) {m l' m' : List α} (h : l ++ m = l' ++ m') :
    run step s (l ++ x :: m) = .ok t ↔ run step s (l' ++ x :: m') = .ok t := by
  rw [hx.run_append, hx.run_append, h]

/-! ## Visits -/

/-- The run from `s` over `l` reaches the input `x` in state `t`. -/
def Visits (step : σ → α → Except ε σ) (s : σ) (l : List α) (t : σ) (x : α) : Prop :=
  ∃ pre post, l = pre ++ x :: post ∧ run step s pre = .ok t

theorem not_visits_nil : ¬ Visits step s [] t x := by
  rintro ⟨pre, post, h, -⟩
  simp at h

theorem visits_cons :
    Visits step s (y :: l) t x ↔
      (t = s ∧ x = y) ∨ ∃ s', step s y = .ok s' ∧ Visits step s' l t x := by
  constructor
  · rintro ⟨_ | ⟨z, pre⟩, post, hl, hrun⟩
    · cases hl; cases hrun
      exact .inl ⟨rfl, rfl⟩
    · cases hl
      obtain ⟨s', hs', hpre⟩ := run_cons_ok.mp hrun
      exact .inr ⟨s', hs', pre, post, rfl, hpre⟩
  · rintro (⟨rfl, rfl⟩ | ⟨s', hs', pre, post, rfl, hpre⟩)
    · exact ⟨[], l, rfl, rfl⟩
    · exact ⟨y :: pre, post, rfl, run_cons_ok.mpr ⟨s', hs', hpre⟩⟩

theorem Visits.mem (h : Visits step s l t x) : x ∈ l := by
  obtain ⟨pre, post, rfl, -⟩ := h
  simp

/-- **Visit rule.** What every step preserves holds at every visit. -/
theorem Visits.invariant {P : σ → Prop} (hstep : ∀ s x s', P s → step s x = .ok s' → P s')
    (hs : P s) (h : Visits step s l t x) : P t := by
  obtain ⟨pre, post, -, hpre⟩ := h
  exact run_invariant hstep hs hpre

theorem exists_visits_of_error {e : ε} (h : run step s l = .error e) :
    ∃ t x, Visits step s l t x ∧ step t x = .error e := by
  induction l generalizing s with
  | nil => cases h
  | cons y l ih =>
    rcases run_cons_error.mp h with hy | ⟨s', hy, hl⟩
    · exact ⟨s, y, visits_cons.mpr (.inl ⟨rfl, rfl⟩), hy⟩
    · obtain ⟨t, x, hv, hx⟩ := ih hl
      exact ⟨t, x, visits_cons.mpr (.inr ⟨s', hy, hv⟩), hx⟩

theorem Visits.exists_run {t' : σ} (h : Visits step s l t x) (hrun : run step s l = .ok t') :
    ∃ u rest, step t x = .ok u ∧ run step u rest = .ok t' := by
  induction l generalizing s with
  | nil => exact absurd h not_visits_nil
  | cons y l ih =>
    obtain ⟨s', hy, hl⟩ := run_cons_ok.mp hrun
    rcases visits_cons.mp h with ⟨rfl, rfl⟩ | ⟨s'', hs'', hv⟩
    · exact ⟨s', l, hy, hl⟩
    · rw [hy] at hs''
      cases hs''
      exact ih hv hl

theorem exists_visits_of_mem {t' : σ} (h : x ∈ l) (hrun : run step s l = .ok t') :
    ∃ t, Visits step s l t x := by
  induction l generalizing s with
  | nil => cases h
  | cons y l ih =>
    obtain ⟨s', hy, hl⟩ := run_cons_ok.mp hrun
    obtain rfl | hx := List.mem_cons.mp h
    · exact ⟨s, visits_cons.mpr (.inl ⟨rfl, rfl⟩)⟩
    · obtain ⟨t, ht⟩ := ih hx hl
      exact ⟨t, visits_cons.mpr (.inr ⟨s', hy, ht⟩)⟩

/-- **Run rule**, with the knowledge that the steps are taken at visits. -/
theorem run_invariant_visits {P : σ → Prop}
    (hstep : ∀ t x t', Visits step s l t x → P t → step t x = .ok t' → P t')
    (hs : P s) (h : run step s l = .ok t) : P t := by
  induction l generalizing s with
  | nil => cases h; exact hs
  | cons y l ih =>
    obtain ⟨s', hy, hl⟩ := run_cons_ok.mp h
    refine ih (fun t x t' hv => hstep t x t' (visits_cons.mpr (.inr ⟨s', hy, hv⟩))) ?_ hl
    exact hstep s y s' (visits_cons.mpr (.inl ⟨rfl, rfl⟩)) hs hy

/-- The results of two steps correspond, by `R` if they go on and by `Q` if they fail. -/
def Related {τ δ : Type*} (Q : ε → δ → Prop) (R : σ → τ → Prop) :
    Except ε σ → Except δ τ → Prop
  | .ok s, .ok t => R s t
  | .error e, .error d => Q e d
  | _, _ => False

theorem Related.imp {τ δ : Type*} {Q Q' : ε → δ → Prop} {R R' : σ → τ → Prop} {r : Except ε σ}
    {r' : Except δ τ} (h : Related Q R r r') (hQ : ∀ e d, Q e d → Q' e d)
    (hR : ∀ s t, R s t → R' s t) : Related Q' R' r r' := by
  cases r with
  | ok s =>
    cases r' with
    | ok t => exact hR s t h
    | error d => exact h
  | error e =>
    cases r' with
    | ok t => exact h
    | error d => exact hQ e d h

/-- **Simulation rule.** Runs correspond if their steps do. -/
theorem run_related {τ δ : Type*} {step' : τ → α → Except δ τ} {Q : ε → δ → Prop}
    {R : σ → τ → Prop} {s' : τ}
    (hstep : ∀ u u' x, Visits step s l u x → R u u' → Related Q R (step u x) (step' u' x))
    (hs : R s s') : Related Q R (run step s l) (run step' s' l) := by
  induction l generalizing s s' with
  | nil => exact hs
  | cons x l ih =>
    have hfirst := hstep s s' x (visits_cons.mpr (.inl ⟨rfl, rfl⟩)) hs
    rw [run, run, List.foldlM_cons, List.foldlM_cons]
    cases hx : step s x with
    | error e =>
      cases hx' : step' s' x with
      | error d => rwa [hx, hx'] at hfirst
      | ok t' => rw [hx, hx'] at hfirst; exact hfirst.elim
    | ok t =>
      cases hx' : step' s' x with
      | error d => rw [hx, hx'] at hfirst; exact hfirst.elim
      | ok t' =>
        rw [hx, hx'] at hfirst
        exact ih (fun u u' y hv => hstep u u' y (visits_cons.mpr (.inr ⟨t, hx, hv⟩))) hfirst

/-- **Potential rule.** A number that no step increases, and that a step keeps exactly when it is
good, is kept by a run exactly when all its steps are good. -/
theorem run_potential {f : σ → ℕ} {Good : σ → α → Prop}
    (hstep : ∀ s x s', step s x = .ok s' → f s' ≤ f s ∧ (f s' = f s ↔ Good s x))
    (h : run step s l = .ok t) :
    f t ≤ f s ∧ (f t = f s ↔ ∀ u x, Visits step s l u x → Good u x) := by
  induction l generalizing s with
  | nil =>
    cases h
    exact ⟨Nat.le_refl _, iff_of_true rfl fun u x hv => absurd hv not_visits_nil⟩
  | cons y l ih =>
    obtain ⟨s', hy, hl⟩ := run_cons_ok.mp h
    obtain ⟨hle, hkeep⟩ := ih hl
    obtain ⟨hle', hkeep'⟩ := hstep s y s' hy
    refine ⟨hle.trans hle', fun heq u x hv => ?_, fun hgood => ?_⟩
    · rcases visits_cons.mp hv with ⟨rfl, rfl⟩ | ⟨s'', hs'', hv⟩
      · exact hkeep'.mp (by omega)
      · rw [hy] at hs''
        cases hs''
        exact hkeep.mp (by omega) u x hv
    · have hfirst := hkeep'.mpr (hgood s y (visits_cons.mpr (.inl ⟨rfl, rfl⟩)))
      have hrest := hkeep.mpr fun u x hv => hgood u x (visits_cons.mpr (.inr ⟨s', hy, hv⟩))
      exact hrest.trans hfirst

end Run
