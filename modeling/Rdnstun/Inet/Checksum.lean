import Rdnstun.Inet.Model
import Rdnstun.Lib.Carry

/-!
# Checksums verify

* `store16_of_ne`, `inetCksumAt_of_ne`: a checksum changes its own two bytes.
* `word16`: a big-endian word; `SumsToOnes`: the words of a block sum to all ones, which is how a
  receiver verifies a checksum. The code sums words of the machine's own order.
* `inetCksumContinue_eq`, `inetCksumFinish_eq`: the loop is a sum, its end the complement of the
  residue.
* **`sumsToOnes_inetCksumHeader`**: a header checksum verifies.
-/

namespace Rdnstun

open Memory Carry

variable {m : Mem} {a j k n s : ℕ}

theorem store16_of_ne (w : ℕ) (h₀ : k ≠ a) (h₁ : k ≠ a + 1) : store16 m a w k = m k := by
  by_cases hk : k < a
  · exact write_of_lt _ hk
  · exact write_of_ge (by simp only [List.length_cons, List.length_nil]; omega)

theorem store16_lo (m : Mem) (a w : ℕ) : store16 m a w a = UInt8.ofNat w :=
  write_at m a (k := 0) (by simp)

theorem store16_hi (m : Mem) (a w : ℕ) : store16 m a w (a + 1) = UInt8.ofNat (w / 256) :=
  write_at m a (k := 1) (by simp)

theorem inetCksumAt_of_ne (base count : ℕ) (append : Bool) (h₀ : k ≠ a) (h₁ : k ≠ a + 1) :
    inetCksumAt m a base count append k = m k := by
  rw [inetCksumAt, store16_of_ne _ h₀ h₁, store16_of_ne _ h₀ h₁]

/-! ## Sums of words -/

/-- A big-endian word in memory. -/
def word16 (m : Mem) (a : ℕ) : ℕ := (m a).toNat * 256 + (m (a + 1)).toNat

/-- The `k` words at `a` sum to all ones. -/
def SumsToOnes (m : Mem) (a k : ℕ) : Prop :=
  Carry.sum 65535 ((List.range k).map fun i => word16 m (a + 2 * i)) = 65535

instance (m : Mem) (a k : ℕ) : Decidable (SumsToOnes m a k) :=
  inferInstanceAs (Decidable (_ = _))

/-- The sum of the `k` words at `a`, in the machine's order. -/
def blockSum (m : Mem) (a k : ℕ) : ℕ := ((List.range k).map fun i => load16 m (a + 2 * i)).sum

/-! ## The order of the bytes -/

theorem word16_le (m : Mem) (a : ℕ) : word16 m a ≤ 65535 := by
  have h₁ := (m a).toNat_lt
  have h₂ := (m (a + 1)).toNat_lt
  unfold word16
  omega

theorem load16_le (m : Mem) (a : ℕ) : load16 m a ≤ 65535 := by
  have h₁ := (m a).toNat_lt
  have h₂ := (m (a + 1)).toNat_lt
  unfold load16
  omega

theorem sum_word16 (m : Mem) (a k : ℕ) :
    256 * blockSum m a k = ((List.range k).map fun i => word16 m (a + 2 * i)).sum +
      65535 * ((List.range k).map fun i => (m (a + 2 * i + 1)).toNat).sum := by
  unfold blockSum
  rw [← List.sum_map_mul_left, ← List.sum_map_mul_left, ← List.sum_map_add]
  congr 1
  refine List.map_congr_left fun i _ => ?_
  simp only [load16, word16]
  ring

theorem sumsToOnes_iff : SumsToOnes m a k ↔ residue 65535 (blockSum m a k) = 65535 := by
  have hlow : ((List.range k).map fun i => (m (a + 2 * i + 1)).toNat).sum ≤
      ((List.range k).map fun i => word16 m (a + 2 * i)).sum :=
    List.sum_le_sum fun i _ => Nat.le_add_left _ _
  have hswap : residue 65535 (256 * blockSum m a k) = 65535 ↔
      residue 65535 (blockSum m a k) = 65535 :=
    residue_mul_eq_self_iff (by decide) (by decide) (by decide)
  rw [← hswap, SumsToOnes,
    sum_eq_residue (by decide) (by simpa using fun i _ => word16_le m (a + 2 * i)), sum_word16,
    residue_eq_self_iff (by decide), residue_eq_self_iff (by decide),
    Nat.dvd_add_left (dvd_mul_right 65535 _)]
  refine and_congr_left fun _ => ?_
  omega

/-! ## The loop -/

theorem blockSum_succ (m : Mem) (a k : ℕ) :
    blockSum m a (k + 1) = load16 m a + blockSum m (a + 2) k := by
  unfold blockSum
  rw [List.range_succ_eq_map, List.map_cons, List.sum_cons, List.map_map, Nat.mul_zero]
  congr 2
  refine List.map_congr_left fun i _ => ?_
  rw [Function.comp_apply, show a + 2 * (i + 1) = a + 2 + 2 * i by ring]

theorem blockSum_le (m : Mem) (a k : ℕ) : blockSum m a k ≤ 65535 * k := by
  induction k generalizing a with
  | zero => exact Nat.le_refl 0
  | succ k ih =>
    have hword := load16_le m a
    have hrest := ih (a + 2)
    rw [blockSum_succ]
    omega

/-- The loop over an even number of bytes is a sum as long as it does not overflow. -/
theorem inetCksumContinue_eq (h : s + 65535 * k < 2 ^ 32) :
    inetCksumContinue s m a (2 * k) = s + blockSum m a k := by
  induction k generalizing s a with
  | zero => rfl
  | succ k ih =>
    have hword := load16_le m a
    rw [Nat.mul_succ, inetCksumContinue, Nat.mod_eq_of_lt (by omega), ih (by omega), blockSum_succ,
      Nat.add_assoc]

theorem inetCksumContinue_congr {m' : Mem} {b count : ℕ} (sum : ℕ)
    (h : ∀ k < count, m (a + k) = m' (b + k)) :
    inetCksumContinue sum m a count = inetCksumContinue sum m' b count := by
  induction sum, a, count using inetCksumContinue.induct m generalizing b with
  | case1 => rfl
  | case2 sum a =>
    have h₀ : m a = m' b := h 0 Nat.zero_lt_one
    rw [inetCksumContinue, inetCksumContinue, h₀]
  | case3 sum a count ih =>
    have h₀ : m a = m' b := h 0 (by omega)
    have h₁ : m (a + 1) = m' (b + 1) := h 1 (by omega)
    have hload : load16 m a = load16 m' b := by rw [load16, load16, h₀, h₁]
    rw [inetCksumContinue, inetCksumContinue, ← hload]
    refine ih fun k hk => ?_
    have hnext := h (k + 2) (by omega)
    rwa [show a + 2 + k = a + (k + 2) by omega, show b + 2 + k = b + (k + 2) by omega]

theorem inetCksumFinish_eq (h : n < 2 ^ 32) : inetCksumFinish n = 65535 - residue 65535 n := by
  rw [← fold_eq_residue (by decide) (by omega)]
  simp only [inetCksumFinish]
  omega

/-! ## A header -/

theorem load16_store16 (m : Mem) (a : ℕ) {w : ℕ} (h : w ≤ 65535) :
    load16 (store16 m a w) a = w := by
  rw [load16, store16_lo, store16_hi, UInt8.toNat_ofNat', UInt8.toNat_ofNat']
  omega

theorem load16_store16_of_ne (m : Mem) (w : ℕ) (h₀ : k ≠ a) (h₁ : k ≠ a + 1) (h₂ : k + 1 ≠ a) :
    load16 (store16 m a w) k = load16 m k := by
  rw [load16, store16_of_ne w h₀ h₁, store16_of_ne w h₂ (by omega), load16]

theorem blockSum_store16 (m : Mem) (a : ℕ) {w : ℕ} (hj : j < k) (hw : w ≤ 65535) :
    blockSum (store16 m (a + 2 * j) w) a k = blockSum (store16 m (a + 2 * j) 0) a k + w := by
  induction k generalizing a j with
  | zero => omega
  | succ k ih =>
    rw [blockSum_succ, blockSum_succ]
    obtain _ | j := j
    · have hrest (v : ℕ) : blockSum (store16 m a v) (a + 2) k = blockSum m (a + 2) k := by
        refine congrArg List.sum (List.map_congr_left fun i _ => ?_)
        exact load16_store16_of_ne m v (by omega) (by omega) (by omega)
      rw [Nat.mul_zero, Nat.add_zero, hrest, hrest, load16_store16 m a hw,
        load16_store16 m a (Nat.zero_le _)]
      omega
    · rw [show a + 2 * (j + 1) = a + 2 + 2 * j by ring, ih (a + 2) (by omega),
        load16_store16_of_ne m w (by omega) (by omega) (by omega),
        load16_store16_of_ne m 0 (by omega) (by omega) (by omega)]
      omega

theorem store16_store16 (m : Mem) (a v w : ℕ) : store16 (store16 m a v) a w = store16 m a w := by
  funext k
  by_cases h₀ : k = a
  · rw [h₀, store16_lo, store16_lo]
  by_cases h₁ : k = a + 1
  · rw [h₁, store16_hi, store16_hi]
  · rw [store16_of_ne w h₀ h₁, store16_of_ne v h₀ h₁, store16_of_ne w h₀ h₁]

theorem store16_load16 (m : Mem) (a : ℕ) : store16 m a (load16 m a) = m := by
  have h₀ := (m a).toNat_lt
  have h₁ := (m (a + 1)).toNat_lt
  funext k
  by_cases hk : k = a
  · rw [hk, store16_lo, ← UInt8.toNat_inj, UInt8.toNat_ofNat', load16]
    omega
  by_cases hk' : k = a + 1
  · rw [hk', store16_hi, ← UInt8.toNat_inj, UInt8.toNat_ofNat', load16]
    omega
  · exact store16_of_ne _ hk hk'

/-- A multiple of all ones does not change a residue that is not zero. -/
theorem residue_add_ones (hn : 0 < n) : residue 65535 (65535 + n) = residue 65535 n := by
  refine eq_residue (by decide) (residue_le (by decide) _) ?_ ?_
  · exact (residue_modEq 65535 (65535 + n)).trans Nat.add_modEq_left
  · rw [residue_eq_zero]
    omega

/-- **A header checksum** verifies if some other word of the header is not zero. -/
theorem sumsToOnes_inetCksumHeader (hj : j < k) (hk : k ≤ 65535)
    (hpos : 0 < blockSum (store16 m (a + 2 * j) 0) a k) :
    SumsToOnes (inetCksumHeader m (a + 2 * j) a (2 * k)) a k := by
  have hle := blockSum_le (store16 m (a + 2 * j) 0) a k
  have hsum : inetCksumHeader m (a + 2 * j) a (2 * k) = store16 (store16 m (a + 2 * j) 0)
      (a + 2 * j) (65535 - residue 65535 (blockSum (store16 m (a + 2 * j) 0) a k)) := by
    rw [inetCksumHeader, inetCksumAt, inetCksumContinue_eq (by omega), if_pos rfl,
      Nat.mod_eq_of_lt (by omega), inetCksumFinish_eq (by omega), Nat.zero_add,
      residue_add_ones hpos]
  rw [sumsToOnes_iff, hsum, blockSum_store16 _ a hj (Nat.sub_le _ _), store16_store16,
    residue_add_compl (by decide) hpos]

end Rdnstun
