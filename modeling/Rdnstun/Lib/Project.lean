import Rdnstun.Lib.Run

/-!
# Systems of components

A component of a system sees some of its inputs, by a partial map from the inputs of the system to
its own.

* `Visits.append`: what a run over a list visits, one over a longer list does.
* **`run_project`**: what a run of the system is for a component.
* `run_forward`: a run that another system follows.
* `sum_filterMap_seenBy`: what the components see, counted together.
* `run_countdown`, `exists_run_final`: a number that every step decreases bounds the rest of a run,
  and a system that is never stuck can be driven to its end.
-/

namespace Run

variable {σ τ α β ε δ : Type*} {step : σ → α → Except ε σ} {s t : σ} {l : List α}

theorem Visits.append {u : σ} {x : α} (h : Visits step s l u x) (m : List α) :
    Visits step s (l ++ m) u x := by
  obtain ⟨pre, post, rfl, hpre⟩ := h
  exact ⟨pre, post ++ m, by rw [List.append_assoc, List.cons_append], hpre⟩

/-! ## One component -/

/-- **Projection rule.** Every step of the system is one that the component does not see, or one of
its own; then a run is a run of the component over what it sees. -/
theorem run_project {step' : τ → β → Except δ τ} (π : σ → τ) (p : α → Option β)
    (hskip : ∀ u x v, Visits step s l u x → step u x = .ok v → p x = none → π v = π u)
    (hown : ∀ u x v y, Visits step s l u x → step u x = .ok v → p x = some y →
      step' (π u) y = .ok (π v))
    (h : run step s l = .ok t) : run step' (π s) (l.filterMap p) = .ok (π t) := by
  induction l generalizing s with
  | nil => cases h; rfl
  | cons x l ih =>
    obtain ⟨s', hx, hl⟩ := run_cons_ok.mp h
    have hfirst : Visits step s (x :: l) s x := visits_cons.mpr (.inl ⟨rfl, rfl⟩)
    have hlater {u : σ} {y : α} (hv : Visits step s' l u y) : Visits step s (x :: l) u y :=
      visits_cons.mpr (.inr ⟨s', hx, hv⟩)
    have hrest := ih (fun u y v hv => hskip u y v (hlater hv))
      (fun u y v z hv => hown u y v z (hlater hv)) hl
    cases hp : p x with
    | none =>
      rw [List.filterMap_cons_none hp, ← hskip s x s' hfirst hx hp]
      exact hrest
    | some y =>
      rw [List.filterMap_cons_some hp]
      exact run_cons_ok.mpr ⟨π s', hown s x s' y hfirst hx hp, hrest⟩

/-- **Forward rule.** Another system that can follow every step of a run can follow the run. -/
theorem run_forward {step' : τ → β → Except δ τ} {f : α → β} {R : σ → τ → Prop} {s' : τ}
    (hstep : ∀ u u' x v, Visits step s l u x → R u u' → step u x = .ok v →
      ∃ v', step' u' (f x) = .ok v' ∧ R v v')
    (hs : R s s') (h : run step s l = .ok t) :
    ∃ t', run step' s' (l.map f) = .ok t' ∧ R t t' := by
  induction l generalizing s s' with
  | nil =>
    cases h
    exact ⟨s', rfl, hs⟩
  | cons x l ih =>
    obtain ⟨u, hx, hl⟩ := run_cons_ok.mp h
    obtain ⟨u', hx', hu⟩ := hstep s s' x u (visits_cons.mpr (.inl ⟨rfl, rfl⟩)) hs hx
    obtain ⟨t', hl', ht⟩ :=
      ih (fun w w' y v hv => hstep w w' y v (visits_cons.mpr (.inr ⟨u, hx, hv⟩))) hu hl
    exact ⟨t', run_cons_ok.mpr ⟨u', hx', hl'⟩, ht⟩

/-! ## All components -/

/-- What the component `i` sees of inputs that carry the name of their component. -/
def seenBy {ι : Type*} [DecidableEq ι] (p : α → Option (ι × β)) (i : ι) (x : α) : Option β :=
  (p x).bind fun y => if y.1 = i then some y.2 else none

/-- **Distribution.** What the components see, counted together, is what all inputs show. -/
theorem sum_filterMap_seenBy {ι : Type*} [DecidableEq ι] {p : α → Option (ι × β)} {S : Finset ι}
    (h : ∀ x ∈ l, ∀ y ∈ p x, y.1 ∈ S) :
    ∑ i ∈ S, (l.filterMap (seenBy p i) : Multiset β) =
      (l.filterMap fun x => (p x).map Prod.snd : List β) := by
  induction l with
  | nil => simp
  | cons x l ih =>
    have hrest := ih fun y hy => h y (List.mem_cons_of_mem x hy)
    cases hp : p x with
    | none => simpa [List.filterMap_cons, seenBy, hp] using hrest
    | some y =>
      have hhead (i : ι) : ((x :: l).filterMap (seenBy p i) : Multiset β) =
          (if y.1 = i then {y.2} else 0) + (l.filterMap (seenBy p i) : Multiset β) := by
        rw [List.filterMap_cons, seenBy, hp, Option.bind_some]
        split_ifs <;> simp
      simp only [hhead]
      rw [Finset.sum_add_distrib, hrest, Finset.sum_ite_eq, if_pos (h x List.mem_cons_self y hp)]
      simp [hp]

/-! ## The end of a run -/

/-- **Countdown rule.** If every input of a kind decreases a number, and no input increases it, then
a run has at most so many inputs of that kind. -/
theorem run_countdown {μ : σ → ℕ} {q : α → Bool}
    (hstep : ∀ u x v, Visits step s l u x → step u x = .ok v →
      μ v + (if q x then 1 else 0) ≤ μ u)
    (h : run step s l = .ok t) : μ t + l.countP q ≤ μ s := by
  induction l generalizing s with
  | nil => cases h; simp
  | cons x l ih =>
    obtain ⟨s', hx, hl⟩ := run_cons_ok.mp h
    have hrest := ih (fun u y v hv => hstep u y v (visits_cons.mpr (.inr ⟨s', hx, hv⟩))) hl
    have hfirst := hstep s x s' (visits_cons.mpr (.inl ⟨rfl, rfl⟩)) hx
    rw [List.countP_cons]
    omega

/-- A system that, until its end, always has a step that decreases a number can reach its end. -/
theorem exists_run_final {P Final : σ → Prop} (μ : σ → ℕ)
    (hstep : ∀ s, P s → ¬ Final s → ∃ x t, step s x = .ok t ∧ P t ∧ μ t < μ s) (hs : P s) :
    ∃ l t, run step s l = .ok t ∧ P t ∧ Final t := by
  induction hμ : μ s using Nat.strong_induction_on generalizing s with
  | _ n ih =>
    by_cases hfinal : Final s
    · exact ⟨[], s, rfl, hs, hfinal⟩
    · obtain ⟨x, u, hx, hu, hlt⟩ := hstep s hs hfinal
      obtain ⟨l, t, hl, ht⟩ := ih (μ u) (hμ ▸ hlt) hu rfl
      exact ⟨x :: l, t, run_cons_ok.mpr ⟨u, hx, hl⟩, ht⟩

end Run
