import Mathlib

/-!
# One's complement sums

Addition of words up to `M` with an end-around carry: a sum beyond `M` is reduced by `M`.

* `add`, `sum`: of two words, of a list.
* `residue M n`: the representative of `n` modulo `M` among `1, …, M`, and `0` for `0`.
* **`sum_eq_residue`**: the sum of a list is the residue of the sum of its numbers.
* `fold_eq_residue`: folding the carries of a number of two words in, twice, gives its residue.
* `residue_add_compl`: with its complement, a number has the residue `M`.
-/

namespace Carry

variable {M a b n : ℕ}

/-- The sum of two words. -/
def add (M a b : ℕ) : ℕ := if a + b ≤ M then a + b else a + b - M

/-- The sum of the words of a list. -/
def sum (M : ℕ) (l : List ℕ) : ℕ := l.foldl (add M) 0

/-- The representative of a number among `1, …, M`, or `0` for `0`. -/
def residue (M n : ℕ) : ℕ := if n = 0 then 0 else (n - 1) % M + 1

@[simp] theorem residue_zero (M : ℕ) : residue M 0 = 0 := rfl

theorem residue_le (hM : 0 < M) (n : ℕ) : residue M n ≤ M := by
  have hlt := Nat.mod_lt (n - 1) hM
  unfold residue
  split_ifs <;> omega

theorem residue_eq_zero : residue M n = 0 ↔ n = 0 := by
  unfold residue
  split_ifs with h <;> simp [h]

theorem residue_modEq (M n : ℕ) : residue M n ≡ n [MOD M] := by
  unfold residue
  split_ifs with h
  · rw [h]
  · have hmod := (Nat.mod_modEq (n - 1) M).add_right 1
    rwa [Nat.sub_add_cancel (Nat.one_le_iff_ne_zero.mpr h)] at hmod

/-- A word is the residue of the numbers that it is congruent to and zero with. -/
theorem eq_residue (hM : 0 < M) (hle : a ≤ M) (hmod : a ≡ n [MOD M]) (hzero : a = 0 ↔ n = 0) :
    a = residue M n := by
  obtain rfl | hn := Nat.eq_zero_or_pos n
  · rw [hzero.mpr rfl, residue_zero]
  have ha : a ≠ 0 := mt hzero.mp hn.ne'
  rw [residue, if_neg hn.ne']
  have hpred : a - 1 ≡ n - 1 [MOD M] := by
    refine Nat.ModEq.add_right_cancel' 1 ?_
    rwa [Nat.sub_add_cancel (by omega), Nat.sub_add_cancel hn]
  have := Nat.mod_eq_of_modEq hpred.symm (by omega)
  omega

theorem residue_eq_self_iff (hM : 0 < M) : residue M n = M ↔ 0 < n ∧ M ∣ n := by
  constructor
  · intro h
    have hmod := residue_modEq M n
    rw [h] at hmod
    refine ⟨Nat.pos_of_ne_zero fun hn => ?_, (Nat.modEq_zero_iff_dvd.mp ?_)⟩
    · rw [hn, residue_zero] at h
      omega
    · exact hmod.symm.trans (Nat.modEq_zero_iff_dvd.mpr (dvd_refl M))
  · rintro ⟨hn, hdvd⟩
    refine (eq_residue hM (Nat.le_refl M) ?_ ?_).symm
    · exact (Nat.modEq_zero_iff_dvd.mpr (dvd_refl M)).trans (Nat.modEq_zero_iff_dvd.mpr hdvd).symm
    · omega

theorem add_eq_residue (hM : 0 < M) (ha : a ≤ M) (hb : b ≤ M) : add M a b = residue M (a + b) := by
  unfold add
  split_ifs with h
  · exact eq_residue hM h rfl Iff.rfl
  · refine eq_residue hM (by omega) ?_ (by omega)
    have hmod : a + b - M + M ≡ a + b - M [MOD M] := Nat.add_modEq_right
    rw [Nat.sub_add_cancel (by omega)] at hmod
    exact hmod.symm

theorem residue_residue_add (hM : 0 < M) (a b : ℕ) :
    residue M (residue M a + b) = residue M (a + b) := by
  refine eq_residue hM (residue_le hM _) ?_ ?_
  · exact (residue_modEq M _).trans ((residue_modEq M a).add_right b)
  · rw [residue_eq_zero, Nat.add_eq_zero_iff, residue_eq_zero, ← Nat.add_eq_zero_iff]

/-- **The sum of a list** is the residue of the sum of its numbers. -/
theorem sum_eq_residue (hM : 0 < M) {l : List ℕ} (hl : ∀ x ∈ l, x ≤ M) :
    sum M l = residue M l.sum := by
  suffices hfold : ∀ a ≤ M, l.foldl (add M) a = residue M (a + l.sum) by
    have := hfold 0 (Nat.zero_le M)
    rwa [Nat.zero_add] at this
  induction l with
  | nil => exact fun a ha => eq_residue hM ha rfl Iff.rfl
  | cons x l ih =>
    intro a ha
    have hx := hl x List.mem_cons_self
    have hadd := add_eq_residue hM ha hx
    rw [List.foldl_cons, ih (fun y hy => hl y (List.mem_cons_of_mem x hy)) _
      (hadd ▸ residue_le hM _), hadd, residue_residue_add hM, List.sum_cons, Nat.add_assoc]

/-- Carries folded in twice, as a checksum over words up to `M` does. -/
theorem fold_eq_residue (hM : 1 < M) (hn : n < (M + 1) * (M + 1)) :
    (n / (M + 1) + n % (M + 1) + (n / (M + 1) + n % (M + 1)) / (M + 1)) % (M + 1) =
      residue M n := by
  have hdiv : n / (M + 1) < M + 1 := Nat.div_lt_of_lt_mul hn
  have hmod : n % (M + 1) < M + 1 := Nat.mod_lt n (by omega)
  have hsplit := Nat.div_add_mod n (M + 1)
  generalize n / (M + 1) = q at *
  generalize n % (M + 1) = r at *
  have hcong : q + r ≡ n [MOD M] := by
    have hmul : q + r + M * q ≡ q + r [MOD M] :=
      (Nat.modEq_zero_iff_dvd.mpr (dvd_mul_right M q)).add_left (q + r)
    rw [show q + r + M * q = n by rw [← hsplit]; ring] at hmul
    exact hmul.symm
  have hzero : q + r = 0 ↔ n = 0 := by
    rw [← hsplit, Nat.add_eq_zero_iff, Nat.add_eq_zero_iff, Nat.mul_eq_zero]
    omega
  by_cases hcarry : q + r < M + 1
  · rw [Nat.div_eq_of_lt hcarry, Nat.add_zero, Nat.mod_eq_of_lt hcarry]
    exact eq_residue (by omega) (by omega) hcong hzero
  · have hone : (q + r) / (M + 1) = 1 := Nat.div_eq_of_lt_le (by omega) (by omega)
    have hlow : (q + r + 1) % (M + 1) = q + r - M := by
      rw [show q + r + 1 = q + r - M + (M + 1) by omega, Nat.add_mod_right,
        Nat.mod_eq_of_lt (by omega)]
    rw [hone, hlow]
    refine eq_residue (by omega) (by omega) ?_ (by omega)
    have hsub : q + r - M + M ≡ q + r - M [MOD M] := Nat.add_modEq_right
    rw [Nat.sub_add_cancel (by omega)] at hsub
    exact hsub.symm.trans hcong

/-- **The complement** of the residue of a number completes it to all ones. -/
theorem residue_add_compl (hM : 0 < M) (hn : 0 < n) : residue M (n + (M - residue M n)) = M := by
  have hle := residue_le hM n
  refine (residue_eq_self_iff hM).mpr ⟨by omega, Nat.modEq_zero_iff_dvd.mp ?_⟩
  have hmod := (residue_modEq M n).symm.add_right (M - residue M n)
  rw [Nat.add_sub_cancel' hle] at hmod
  exact hmod.trans (Nat.modEq_zero_iff_dvd.mpr (dvd_refl M))

/-- All ones do not depend on the order of the digits of a word. -/
theorem residue_mul_eq_self_iff (hM : 0 < M) {c : ℕ} (hc : 0 < c) (hcop : M.Coprime c) :
    residue M (c * n) = M ↔ residue M n = M := by
  rw [residue_eq_self_iff hM, residue_eq_self_iff hM, hcop.dvd_mul_left,
    Nat.mul_pos_iff_of_pos_left hc]

end Carry
