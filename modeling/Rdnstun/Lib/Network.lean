import Rdnstun.Lib.Path

/-!
# Networks of paths

A network is a list of paths, each with its hops and the targets that it covers. A probe goes along
the paths that cover its target, in their order: it is delivered on the first one on which it
reaches the target, else on the last one. A path without hops ends the search.

* `deliver`: the path on which a probe is delivered, with the walk along it.
* `deliver_spec`: it covers the target and has hops.
* `deliver_filter`: the other paths do not matter; `deliver_singleton`: a single one.
-/

namespace Network

open Path

variable {α β : Type*} [DecidableEq α]

/-- The targets that a path covers, and its hops. -/
structure Paths (β α : Type*) where
  covers : β → α → Bool
  hops : β → List α

variable (net : Paths β α) (target : α) (ttl : ℕ)

/-- Where a probe is delivered: the path, the hop at which it stops and why. -/
def deliver : List β → Option (β × ℕ × Verdict)
  | [] => none
  | c :: cs =>
    if net.covers c target then
      if net.hops c = [] then none
      else
        let stop := walk target (net.hops c) ttl 0
        if stop.2 = .reached then some (c, stop) else (deliver cs).or (some (c, stop))
    else deliver cs

variable {net target ttl} {c : β} {cs : List β} {stop : ℕ × Verdict}

theorem deliver_of_not_covers (h : net.covers c target = false) :
    deliver net target ttl (c :: cs) = deliver net target ttl cs := by
  rw [deliver, if_neg (by simp [h])]

theorem deliver_of_hops_eq_nil (h : net.covers c target = true) (hhops : net.hops c = []) :
    deliver net target ttl (c :: cs) = none := by
  rw [deliver, if_pos h, if_pos hhops]

theorem deliver_of_reached (h : net.covers c target = true) (hhops : net.hops c ≠ [])
    (hwalk : (walk target (net.hops c) ttl 0).2 = .reached) :
    deliver net target ttl (c :: cs) = some (c, walk target (net.hops c) ttl 0) := by
  rw [deliver, if_pos h, if_neg hhops]
  exact if_pos hwalk

theorem deliver_of_not_reached (h : net.covers c target = true) (hhops : net.hops c ≠ [])
    (hwalk : (walk target (net.hops c) ttl 0).2 ≠ .reached) :
    deliver net target ttl (c :: cs) =
      (deliver net target ttl cs).or (some (c, walk target (net.hops c) ttl 0)) := by
  rw [deliver, if_pos h, if_neg hhops]
  exact if_neg hwalk

/-- **A delivery** is the walk along a path that covers the target. -/
theorem deliver_spec (h : deliver net target ttl cs = some (c, stop)) :
    c ∈ cs ∧ net.covers c target = true ∧ net.hops c ≠ [] ∧
      stop = walk target (net.hops c) ttl 0 := by
  induction cs with
  | nil => cases h
  | cons d cs ih =>
    have hrest (h : deliver net target ttl cs = some (c, stop)) := by
      obtain ⟨hmem, hspec⟩ := ih h
      exact And.intro (List.mem_cons_of_mem d hmem) hspec
    cases hcovers : net.covers d target with
    | false => exact hrest (deliver_of_not_covers hcovers ▸ h)
    | true =>
      by_cases hhops : net.hops d = []
      · rw [deliver_of_hops_eq_nil hcovers hhops] at h
        cases h
      have hhead : c ∈ d :: cs ∧ net.covers c target = true ∧ net.hops c ≠ [] ∧
          stop = walk target (net.hops c) ttl 0 ∨ deliver net target ttl cs = some (c, stop) := by
        by_cases hwalk : (walk target (net.hops d) ttl 0).2 = .reached
        · rw [deliver_of_reached hcovers hhops hwalk] at h
          cases h
          exact .inl ⟨List.mem_cons_self, hcovers, hhops, rfl⟩
        · rw [deliver_of_not_reached hcovers hhops hwalk, Option.or_eq_some_iff] at h
          rcases h with h | ⟨-, h⟩
          · exact .inr h
          · cases h
            exact .inl ⟨List.mem_cons_self, hcovers, hhops, rfl⟩
      exact hhead.elim id hrest

/-- **Other paths** do not matter. -/
theorem deliver_filter (cs : List β) :
    deliver net target ttl (cs.filter (net.covers · target)) = deliver net target ttl cs := by
  induction cs with
  | nil => rfl
  | cons c cs ih =>
    cases hcovers : net.covers c target with
    | false =>
      rw [List.filter_cons_of_neg (by simp [hcovers]), deliver_of_not_covers hcovers, ih]
    | true =>
      rw [List.filter_cons_of_pos (p := fun d => net.covers d target) hcovers, deliver, deliver, ih]

theorem deliver_singleton (h : cs.filter (net.covers · target) = [c]) (hhops : net.hops c ≠ []) :
    deliver net target ttl cs = some (c, walk target (net.hops c) ttl 0) := by
  have hmem : c ∈ cs.filter (net.covers · target) := by rw [h, List.mem_singleton]
  have hcovers := (List.mem_filter.mp hmem).2
  rw [← deliver_filter, h]
  by_cases hwalk : (walk target (net.hops c) ttl 0).2 = .reached
  · exact deliver_of_reached hcovers hhops hwalk
  · exact deliver_of_not_reached hcovers hhops hwalk

end Network
