import Mathlib

/-!
# Translations of a cyclic space and its blocks

`translate N d v` is `v + d` modulo `N`. A block of size `B` is a set of numbers with one
quotient by `B`. A translation by a multiple of `B` moves blocks as wholes: it acts on the
quotients as the translation by `d / B` (`translate_div`) and keeps the remainders
(`translate_mod`). Hence it keeps the relation of being in one block (`translate_div_eq_iff`),
and two translations that differ on the quotients send a block to disjoint blocks
(`translate_div_ne`).
-/

namespace Translate

/-- `v + d` modulo `N`. -/
def translate (N : ℕ) (d : ℤ) (v : ℕ) : ℕ := ((v + d) % N).toNat

variable {N B v w : ℕ} {d e : ℤ}

theorem cast_translate (hN : 0 < N) (d : ℤ) (v : ℕ) : (translate N d v : ℤ) = (v + d) % N :=
  Int.toNat_of_nonneg (Int.emod_nonneg _ (by omega))

theorem translate_lt (hN : 0 < N) (d : ℤ) (v : ℕ) : translate N d v < N := by
  have := Int.emod_lt_of_pos (v + d) (show (0 : ℤ) < N by omega)
  have := cast_translate hN d v
  omega

theorem translate_translate (hN : 0 < N) (d e : ℤ) (v : ℕ) :
    translate N e (translate N d v) = translate N (d + e) v := by
  have h : ((translate N e (translate N d v) : ℕ) : ℤ) = translate N (d + e) v := by
    rw [cast_translate hN, cast_translate hN, cast_translate hN, Int.emod_add_emod, add_assoc]
  exact_mod_cast h

theorem translate_of_dvd (hd : (N : ℤ) ∣ d) (hv : v < N) : translate N d v = v := by
  obtain ⟨c, rfl⟩ := hd
  have h : ((translate N (N * c) v : ℕ) : ℤ) = v := by
    rw [cast_translate (by omega), Int.add_mul_emod_self_left, Int.emod_eq_of_lt (by omega)
      (by omega)]
  exact_mod_cast h

theorem translate_zero (hv : v < N) : translate N 0 v = v := translate_of_dvd (dvd_zero _) hv

theorem translate_inj (hv : v < N) (hw : w < N) :
    translate N d v = translate N d w ↔ v = w := by
  refine ⟨fun h => ?_, fun h => by rw [h]⟩
  have hback : ∀ u < N, translate N (-d) (translate N d u) = u := fun u hu => by
    rw [translate_translate (by omega), add_neg_cancel, translate_zero hu]
  rw [← hback v hv, h, hback w hw]

theorem translate_natCast (hN : 0 < N) (n v : ℕ) : translate N n v = (v + n) % N := by
  have h : ((translate N n v : ℕ) : ℤ) = ((v + n) % N : ℕ) := by
    rw [cast_translate hN]
    push_cast
    rfl
  exact_mod_cast h

/-- Translations by two amounts agree at a point exactly when the amounts are congruent. -/
theorem translate_eq_iff (hN : 0 < N) : translate N d v = translate N e v ↔ d ≡ e [ZMOD N] := by
  have h : translate N d v = translate N e v ↔ (v + d) % N = ((v : ℤ) + e) % N := by
    rw [← cast_translate hN, ← cast_translate hN]
    norm_cast
  rw [h]
  exact ⟨fun h => Int.ModEq.add_left_cancel' _ h, fun h => Int.ModEq.add_left _ h⟩

/-! ## Blocks -/

/-- **A translation by whole blocks** acts on the quotients and keeps the remainders. -/
theorem translate_blocks {M : ℕ} (hB : 0 < B) (hM : 0 < M) (c : ℤ) (v : ℕ) :
    translate (B * M) (B * c) v = B * translate M c (v / B) + v % B := by
  have hr : v % B < B := Nat.mod_lt v hB
  have hx : B * translate M c (v / B) + v % B < B * M := by
    have := Nat.mul_le_mul_left B (translate_lt hM c (v / B))
    rw [Nat.mul_succ] at this
    omega
  have hv : (v : ℤ) = B * (v / B : ℕ) + (v % B : ℕ) := by exact_mod_cast (Nat.div_add_mod v B).symm
  obtain ⟨k, hq⟩ : ∃ k : ℤ, ((v / B : ℕ) : ℤ) + c = M * k + translate M c (v / B) :=
    ⟨_, by rw [cast_translate hM]; exact (Int.mul_ediv_add_emod _ _).symm⟩
  have h : ((translate (B * M) (B * c) v : ℕ) : ℤ) = (B * translate M c (v / B) + v % B : ℕ) := by
    rw [cast_translate (Nat.mul_pos hB hM)]
    calc ((v : ℤ) + B * c) % (B * M : ℕ)
        = (B * ((v / B : ℕ) + c) + (v % B : ℕ)) % (B * M : ℕ) := by
          congr 1; linear_combination hv
      _ = ((B * translate M c (v / B) + v % B : ℕ) + (B * M : ℕ) * k) % (B * M : ℕ) := by
        rw [hq]; congr 1; push_cast; ring
      _ = (B * translate M c (v / B) + v % B : ℕ) := by
        rw [Int.add_mul_emod_self_left, Int.emod_eq_of_lt (by omega) (by exact_mod_cast hx)]
  exact_mod_cast h

theorem translate_div {M : ℕ} (hB : 0 < B) (hM : 0 < M) (c : ℤ) (v : ℕ) :
    translate (B * M) (B * c) v / B = translate M c (v / B) := by
  rw [translate_blocks hB hM, Nat.mul_add_div hB, Nat.div_eq_of_lt (Nat.mod_lt v hB), add_zero]

theorem translate_mod {M : ℕ} (hB : 0 < B) (hM : 0 < M) (c : ℤ) (v : ℕ) :
    translate (B * M) (B * c) v % B = v % B := by
  rw [translate_blocks hB hM, Nat.mul_add_mod, Nat.mod_mod]

/-- **Equivariance.** A translation by whole blocks keeps two points in one block, and apart. -/
theorem translate_div_eq_iff {M : ℕ} (hB : 0 < B) (hM : 0 < M) (c : ℤ) (hv : v < B * M)
    (hw : w < B * M) :
    translate (B * M) (B * c) v / B = translate (B * M) (B * c) w / B ↔ v / B = w / B := by
  rw [translate_div hB hM, translate_div hB hM]
  exact translate_inj (Nat.div_lt_of_lt_mul hv) (Nat.div_lt_of_lt_mul hw)

/-- **Disjointness.** Translations by numbers of blocks that are not congruent send a point to
different blocks. -/
theorem translate_div_ne {M : ℕ} (hB : 0 < B) (hM : 0 < M) {c c' : ℤ} (h : ¬ c ≡ c' [ZMOD M])
    (v : ℕ) : translate (B * M) (B * c) v / B ≠ translate (B * M) (B * c') v / B := by
  rw [translate_div hB hM, translate_div hB hM]
  exact fun e => h ((translate_eq_iff hM).mp e)

end Translate
