import Rdnstun.Inet.Checksum

/-!
# Checksums over any number of bytes

A receiver verifies a checksum by a sum of big-endian words, a last odd byte being the high one of
its word. The code sums words of the machine's own order.

* `wordsAt`, `Verifies`: the words of a block, and that words sum to all ones.
* `Swapped`: a sum in the machine's order stands for words; `verifies_iff`.
* `byteSum`, `inetCksumContinue_eq_byteSum`: the loop is a sum.
* **`residue_add_finish`**: a sum with its checksum has the residue of all ones.
-/

namespace Rdnstun

open Memory Carry

variable {m m' : Mem} {a j n s v w : ℕ} {ws vs : List ℕ}

/-- The big-endian words of `n` bytes. -/
def wordsAt (m : Mem) (a : ℕ) : ℕ → List ℕ
  | 0 => []
  | 1 => [(m a).toNat * 256]
  | n + 2 => word16 m a :: wordsAt m (a + 2) n

/-- The words sum to all ones. -/
def Verifies (ws : List ℕ) : Prop := Carry.sum 65535 ws = 65535

instance (ws : List ℕ) : Decidable (Verifies ws) := inferInstanceAs (Decidable (_ = _))

/-- The sum of `n` bytes as words of the machine's order. -/
def byteSum (m : Mem) (a : ℕ) : ℕ → ℕ
  | 0 => 0
  | 1 => (m a).toNat
  | n + 2 => load16 m a + byteSum m (a + 2) n

/-! ## The order of the bytes -/

/-- `n` is the sum of the words with their bytes swapped, up to carries. -/
structure Swapped (n : ℕ) (ws : List ℕ) : Prop where
  le : ∀ w ∈ ws, w ≤ 65535
  modEq : 256 * n ≡ ws.sum [MOD 65535]
  zero_iff : n = 0 ↔ ws.sum = 0

theorem Swapped.append (h : Swapped v vs) (h' : Swapped w ws) : Swapped (v + w) (vs ++ ws) where
  le x hx := (List.mem_append.mp hx).elim (h.le x) (h'.le x)
  modEq := by
    rw [Nat.mul_add, List.sum_append]
    exact h.modEq.add h'.modEq
  zero_iff := by
    rw [List.sum_append, Nat.add_eq_zero_iff, Nat.add_eq_zero_iff, h.zero_iff, h'.zero_iff]

theorem swapped_htons (h : w ≤ 65535) : Swapped (htons w) [w] where
  le x hx := List.mem_singleton.mp hx ▸ h
  modEq := by
    have hsplit : 256 * htons w = w + 65535 * (w % 256) := by
      unfold htons
      omega
    rw [hsplit, List.sum_singleton]
    exact Nat.add_mul_mod_self_left w 65535 (w % 256)
  zero_iff := by
    rw [List.sum_singleton]
    unfold htons
    omega

theorem load16_eq_htons (m : Mem) (a : ℕ) : load16 m a = htons (word16 m a) := by
  have h₀ := (m a).toNat_lt
  have h₁ := (m (a + 1)).toNat_lt
  unfold load16 htons word16
  omega

theorem swapped_byteSum (m : Mem) (a n : ℕ) : Swapped (byteSum m a n) (wordsAt m a n) := by
  induction a, n using byteSum.induct with
  | case1 a => exact ⟨fun x hx => absurd hx List.not_mem_nil, rfl, Iff.rfl⟩
  | case2 a =>
    have h₀ := (m a).toNat_lt
    have hbyte : htons ((m a).toNat * 256) = (m a).toNat := by
      unfold htons
      omega
    have hword := swapped_htons (show (m a).toNat * 256 ≤ 65535 by omega)
    rwa [hbyte] at hword
  | case3 a n ih =>
    have hword := swapped_htons (word16_le m a)
    rw [← load16_eq_htons] at hword
    exact hword.append ih

/-- **Words verify** exactly when the sum in the machine's order has the residue of all ones. -/
theorem verifies_iff (h : Swapped n ws) : Verifies ws ↔ residue 65535 n = 65535 := by
  have hswap : residue 65535 (256 * n) = 65535 ↔ residue 65535 n = 65535 :=
    residue_mul_eq_self_iff (by decide) (by decide) (by decide)
  rw [← hswap, Verifies, sum_eq_residue (by decide) h.le, residue_eq_self_iff (by decide),
    residue_eq_self_iff (by decide), (h.modEq.dvd_iff (dvd_refl 65535)), Nat.pos_iff_ne_zero,
    Nat.pos_iff_ne_zero, Nat.mul_ne_zero_iff, ne_eq n, h.zero_iff]
  simp

/-! ## The loop -/

theorem byteSum_congr {b : ℕ} (h : ∀ k < n, m (a + k) = m' (b + k)) :
    byteSum m a n = byteSum m' b n := by
  induction a, n using byteSum.induct generalizing b with
  | case1 a => rfl
  | case2 a => exact congrArg UInt8.toNat (h 0 (by omega))
  | case3 a n ih =>
    have h₀ : m a = m' b := h 0 (by omega)
    have h₁ : m (a + 1) = m' (b + 1) := h 1 (by omega)
    rw [byteSum, byteSum, load16, load16, h₀, h₁, @ih (b + 2) fun k hk => ?_]
    have hk := h (k + 2) (by omega)
    rwa [show a + 2 + k = a + (k + 2) by omega, show b + 2 + k = b + (k + 2) by omega]

theorem byteSum_add (m : Mem) (a j n : ℕ) :
    byteSum m a (2 * j + n) = byteSum m a (2 * j) + byteSum m (a + 2 * j) n := by
  induction j generalizing a with
  | zero => simp [byteSum]
  | succ j ih =>
    rw [show 2 * (j + 1) + n = 2 * j + n + 2 by omega, show 2 * (j + 1) = 2 * j + 2 by omega,
      byteSum, byteSum, ih, show a + (2 * j + 2) = a + 2 + 2 * j by omega,
      Nat.add_assoc (load16 m a)]

theorem byteSum_le (m : Mem) (a n : ℕ) : byteSum m a n ≤ 65535 * ((n + 1) / 2) := by
  induction a, n using byteSum.induct with
  | case1 a => exact Nat.le_refl 0
  | case2 a =>
    have h₀ := (m a).toNat_lt
    unfold byteSum
    omega
  | case3 a n ih =>
    have hword := load16_le m a
    unfold byteSum
    omega

/-- The loop is a sum as long as it does not overflow. -/
theorem inetCksumContinue_eq_byteSum (h : s + byteSum m a n < 2 ^ 32) :
    inetCksumContinue s m a n = s + byteSum m a n := by
  induction a, n using byteSum.induct generalizing s with
  | case1 a => rfl
  | case2 a => exact Nat.mod_eq_of_lt h
  | case3 a n ih =>
    rw [byteSum] at h ⊢
    rw [inetCksumContinue, Nat.mod_eq_of_lt (by omega), ih (by omega), Nat.add_assoc]

theorem byteSum_store16 (m : Mem) (a : ℕ) (hj : 2 * j + 2 ≤ n) (hw : w ≤ 65535) :
    byteSum (store16 m (a + 2 * j) w) a n = byteSum (store16 m (a + 2 * j) 0) a n + w := by
  induction j generalizing a n with
  | zero =>
    obtain ⟨n, rfl⟩ : ∃ k, n = k + 2 := ⟨n - 2, by omega⟩
    have hrest (v : ℕ) : byteSum (store16 m a v) (a + 2) n = byteSum m (a + 2) n :=
      byteSum_congr fun k _ => store16_of_ne v (by omega) (by omega)
    rw [Nat.mul_zero, Nat.add_zero, byteSum, byteSum, hrest, hrest, load16_store16 m a hw,
      load16_store16 m a (Nat.zero_le _)]
    omega
  | succ j ih =>
    obtain ⟨n, rfl⟩ : ∃ k, n = k + 2 := ⟨n - 2, by omega⟩
    rw [byteSum, byteSum, show a + 2 * (j + 1) = a + 2 + 2 * j by ring, ih (a + 2) (by omega),
      load16_store16_of_ne m w (by omega) (by omega) (by omega),
      load16_store16_of_ne m 0 (by omega) (by omega) (by omega)]
    omega

theorem inetCksumFinish_le (n : ℕ) : inetCksumFinish n ≤ 65535 := by
  unfold inetCksumFinish
  dsimp only
  omega

/-- **A checksum** completes its sum to all ones. -/
theorem residue_add_finish (h : n < 2 ^ 32) : residue 65535 (n + inetCksumFinish n) = 65535 := by
  rw [inetCksumFinish_eq h]
  obtain rfl | hn := Nat.eq_zero_or_pos n
  · rfl
  · exact residue_add_compl (by decide) hn

/-- A word that completes a sum is its checksum, up to the two zeros. -/
theorem modEq_finish (h : n < 2 ^ 32) (hw : residue 65535 (n + w) = 65535) :
    w ≡ inetCksumFinish n [MOD 65535] := by
  have hmod (v : ℕ) (hv : residue 65535 (n + v) = 65535) : n + v ≡ 0 [MOD 65535] :=
    Nat.modEq_zero_iff_dvd.mpr ((residue_eq_self_iff (by decide)).mp hv).2
  exact Nat.ModEq.add_left_cancel' n ((hmod w hw).trans (hmod _ (residue_add_finish h)).symm)

end Rdnstun
