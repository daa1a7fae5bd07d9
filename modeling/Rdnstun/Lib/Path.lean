import Mathlib

/-!
# Probes along a path

A probe with a TTL goes along the hops of a path. It stops at its target, at the hop where the
TTL runs out, or at the last hop (`walk`). `probe` says in one step where it stops and why;
`walk_eq_probe`.
-/

namespace Path

/-- Why a probe stops: at its target, without TTL, or at the end of the path. -/
inductive Verdict where
  | reached | expired | lost
  deriving DecidableEq

variable {α : Type*} [DecidableEq α] {target : α}

/-- The way of a probe from hop `i` on, with the TTL it arrives there with. -/
def walk (target : α) : List α → ℕ → ℕ → ℕ × Verdict
  | [], _, i => (i, .lost)
  | hop :: hops, ttl, i =>
    if hop = target then (i, .reached)
    else if ttl ≤ 1 then (i, .expired)
    else if hops = [] then (i, .lost)
    else walk target hops (ttl - 1) (i + 1)

/-- Where a probe stops and why. -/
def probe (hops : List α) (target : α) (ttl : ℕ) : ℕ × Verdict :=
  if hops.idxOf target < min ttl hops.length then (hops.idxOf target, .reached)
  else (min ttl hops.length - 1, if ttl ≤ hops.length then .expired else .lost)

theorem walk_add (hops : List α) (ttl i j : ℕ) :
    walk target hops ttl (i + j) =
      ((walk target hops ttl i).1 + j, (walk target hops ttl i).2) := by
  induction hops generalizing ttl i with
  | nil => rfl
  | cons hop hops ih =>
    rw [walk, walk]
    split_ifs
    · rfl
    · rfl
    · rfl
    · rw [Nat.add_right_comm]
      exact ih (ttl - 1) (i + 1)

theorem probe_cons_of_ne {hop : α} {hops : List α} {ttl : ℕ} (hne : hop ≠ target)
    (hhops : hops ≠ []) (httl : 1 < ttl) : probe (hop :: hops) target ttl =
      ((probe hops target (ttl - 1)).1 + 1, (probe hops target (ttl - 1)).2) := by
  have hlen := List.length_pos_iff.mpr hhops
  have hreach : (hop :: hops).idxOf target < min ttl (hop :: hops).length ↔
      hops.idxOf target < min (ttl - 1) hops.length := by
    rw [List.idxOf_cons_ne _ hne, List.length_cons]
    omega
  have hend : ttl ≤ (hop :: hops).length ↔ ttl - 1 ≤ hops.length := by
    rw [List.length_cons]
    omega
  unfold probe
  by_cases h : hops.idxOf target < min (ttl - 1) hops.length
  · rw [if_pos (hreach.mpr h), if_pos h, List.idxOf_cons_ne _ hne]
  · rw [if_neg (mt hreach.mp h), if_neg h, if_congr hend rfl rfl, List.length_cons]
    congr 1
    omega

/-- **A probe** is a walk along the path. -/
theorem walk_eq_probe {hops : List α} {ttl : ℕ} (hhops : hops ≠ []) (httl : 0 < ttl) :
    walk target hops ttl 0 = probe hops target ttl := by
  induction hops generalizing ttl with
  | nil => exact absurd rfl hhops
  | cons hop hops ih =>
    rw [walk]
    by_cases hhit : hop = target
    · subst hhit
      rw [if_pos rfl, probe, if_pos]
      · rw [List.idxOf_cons_self]
      · rw [List.idxOf_cons_self, List.length_cons]
        omega
    rw [if_neg hhit]
    by_cases hone : ttl ≤ 1
    · obtain rfl : ttl = 1 := by omega
      have hfar : ¬ (hop :: hops).idxOf target < min 1 (hop :: hops).length := by
        rw [List.idxOf_cons_ne _ hhit]
        omega
      have hlen : 1 ≤ (hop :: hops).length := Nat.succ_pos _
      rw [if_pos hone, probe, if_neg hfar, if_pos hlen, Nat.min_eq_left hlen]
    rw [if_neg hone]
    by_cases hlast : hops = []
    · subst hlast
      have hfar : ¬ [hop].idxOf target < min ttl [hop].length := by
        rw [List.idxOf_cons_ne _ hhit, List.length_singleton]
        omega
      have hlen : ¬ ttl ≤ [hop].length := hone
      rw [if_pos rfl, probe, if_neg hfar, if_neg hlen, List.length_singleton,
        Nat.min_eq_right (by omega)]
    · rw [if_neg hlast, walk_add hops (ttl - 1) 0 1, ih hlast (by omega),
        probe_cons_of_ne hhit hlast (by omega)]

end Path
