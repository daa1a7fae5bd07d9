import Rdnstun.Lib.Radix

/-!
# Leading bits and order of byte strings

* `bit`, `leading`: a bit of a string, most significant first, and the number of its first bits.
* `testBit_val`, `testBit_leading`: the bits of the two numbers.
* **`leading_eq_iff`**: the first bits of two strings agree exactly if their numbers do.
* `sign_sub_split`: numbers are compared by their first digits; `lt_iff_val_lt`: strings of one
  length have the order of their numbers.
-/

namespace Radix

/-- The bit at a position of a string, most significant bit first. -/
def bit (l : List UInt8) (k : ℕ) : Bool := (l.getD (k / 8) 0).toNat.testBit (7 - k % 8)

/-- The first `n` bits of a string as a number. -/
def leading (l : List UInt8) (n : ℕ) : ℕ := val l / 2 ^ (8 * l.length - n)

theorem testBit_val (l : List UInt8) (i : ℕ) :
    (val l).testBit i = (decide (i < 8 * l.length) && bit l (8 * l.length - 1 - i)) := by
  induction l with
  | nil => simp
  | cons b l ih =>
    have hpow : (256 : ℕ) ^ l.length = 2 ^ (8 * l.length) := by
      rw [pow_mul]
      norm_num
    have hl := val_lt l
    rw [hpow] at hl
    rw [val, hpow, Nat.mul_comm, Nat.testBit_two_pow_mul_add _ hl, List.length_cons, bit]
    split_ifs with hi
    · -- a bit of a later byte
      have hpos : (8 * (l.length + 1) - 1 - i) / 8 = (8 * l.length - 1 - i) / 8 + 1 := by omega
      have hmod : (8 * (l.length + 1) - 1 - i) % 8 = (8 * l.length - 1 - i) % 8 := by omega
      rw [ih, bit, hpos, hmod, List.getD_cons_succ, decide_eq_true hi,
        decide_eq_true (show i < 8 * (l.length + 1) by omega)]
    · by_cases hlt : i < 8 * (l.length + 1)
      · have hpos : (8 * (l.length + 1) - 1 - i) / 8 = 0 := by omega
        have hmod : 7 - (8 * (l.length + 1) - 1 - i) % 8 = i - 8 * l.length := by omega
        rw [hpos, hmod, List.getD_cons_zero, decide_eq_true hlt, Bool.true_and]
      · rw [decide_eq_false hlt, Bool.false_and]
        refine Nat.testBit_lt_two_pow (b.toNat_lt.trans_le ?_)
        exact Nat.pow_le_pow_right (by norm_num) (show 8 ≤ i - 8 * l.length by omega)

theorem testBit_leading {l : List UInt8} {n i : ℕ} (hn : n ≤ 8 * l.length) (hi : i < n) :
    (leading l n).testBit i = bit l (n - 1 - i) := by
  have hlt : 8 * l.length - n + i < 8 * l.length := by omega
  rw [leading, Nat.testBit_div_two_pow, Nat.add_comm i, testBit_val, decide_eq_true hlt,
    Bool.true_and, show 8 * l.length - 1 - (8 * l.length - n + i) = n - 1 - i by omega]

theorem leading_lt {l : List UInt8} {n : ℕ} (hn : n ≤ 8 * l.length) : leading l n < 2 ^ n := by
  have hl := val_lt l
  rw [show (256 : ℕ) = 2 ^ 8 by norm_num, ← pow_mul] at hl
  rw [leading, Nat.div_lt_iff_lt_mul (Nat.two_pow_pos _), ← pow_add, Nat.add_sub_cancel' hn]
  exact hl

/-- **The first bits** of two strings agree exactly if the numbers of these bits do. -/
theorem leading_eq_iff {l m : List UInt8} {n : ℕ} (hl : n ≤ 8 * l.length)
    (hm : n ≤ 8 * m.length) : leading l n = leading m n ↔ ∀ k < n, bit l k = bit m k := by
  constructor
  · intro h k hk
    have hbit : (leading l n).testBit (n - 1 - k) = (leading m n).testBit (n - 1 - k) := by rw [h]
    rwa [testBit_leading hl (by omega), testBit_leading hm (by omega),
      show n - 1 - (n - 1 - k) = k by omega] at hbit
  · intro h
    refine Nat.eq_of_testBit_eq fun i => ?_
    by_cases hi : i < n
    · rw [testBit_leading hl hi, testBit_leading hm hi]
      exact h _ (by omega)
    · have hpow : 2 ^ n ≤ 2 ^ i := Nat.pow_le_pow_right (by norm_num) (Nat.not_lt.mp hi)
      rw [Nat.testBit_lt_two_pow ((leading_lt hl).trans_le hpow),
        Nat.testBit_lt_two_pow ((leading_lt hm).trans_le hpow)]

theorem leading_div {l : List UInt8} {j n : ℕ} (hj : j ≤ n) (hn : n ≤ 8 * l.length) :
    leading l n / 2 ^ (n - j) = leading l j := by
  rw [leading, leading, Nat.div_div_eq_div_mul, ← pow_add,
    show 8 * l.length - n + (n - j) = 8 * l.length - j by omega]

/-! ## Order -/

/-- Numbers are compared by their first digits, then by the rest. -/
theorem sign_sub_split {M x y r s : ℕ} (hr : r < M) (hs : s < M) :
    (((x * M + r : ℕ) : ℤ) - (y * M + s : ℕ)).sign =
      if x = y then ((r : ℤ) - s).sign else ((x : ℤ) - y).sign := by
  split_ifs with h
  · rw [h]
    congr 1
    push_cast
    ring
  · obtain hlt | hlt := Nat.lt_or_gt_of_ne h
    · have hmul := Nat.mul_le_mul_right M (Nat.succ_le_of_lt hlt)
      rw [Nat.succ_mul] at hmul
      rw [Int.sign_eq_neg_one_of_neg (by omega), Int.sign_eq_neg_one_of_neg (by omega)]
    · have hmul := Nat.mul_le_mul_right M (Nat.succ_le_of_lt hlt)
      rw [Nat.succ_mul] at hmul
      rw [Int.sign_eq_one_of_pos (by omega), Int.sign_eq_one_of_pos (by omega)]

theorem sign_sub_eq_zero {x y : ℕ} : ((x : ℤ) - y).sign = 0 ↔ x = y := by
  rw [Int.sign_eq_zero_iff_zero, sub_eq_zero, Nat.cast_inj]

theorem sign_sub_eq_neg_one {x y : ℕ} : ((x : ℤ) - y).sign = -1 ↔ x < y := by
  rw [Int.sign_eq_neg_one_iff_neg]
  omega

/-- A comparison with the sign of a difference is not positive for ordered numbers. -/
theorem nonpos_iff_of_sign {r : ℤ} {x y : ℕ} (h : r.sign = ((x : ℤ) - y).sign) :
    r ≤ 0 ↔ x ≤ y := by
  rw [← Int.sign_nonpos_iff, h, Int.sign_nonpos_iff]
  omega

theorem neg_iff_of_sign {r : ℤ} {x y : ℕ} (h : r.sign = ((x : ℤ) - y).sign) : r < 0 ↔ x < y := by
  rw [← Int.sign_neg_iff, h, Int.sign_neg_iff]
  omega

theorem eq_zero_iff_of_sign {r : ℤ} {x y : ℕ} (h : r.sign = ((x : ℤ) - y).sign) :
    r = 0 ↔ x = y := by
  rw [← Int.sign_eq_zero_iff_zero, h, sign_sub_eq_zero]

theorem lt_iff_val_lt {l m : List UInt8} (hlen : l.length = m.length) :
    l < m ↔ val l < val m := by
  induction l generalizing m with
  | nil =>
    obtain rfl := List.length_eq_zero_iff.mp hlen.symm
    simp
  | cons a l ih =>
    obtain _ | ⟨b, m⟩ := m
    · simp at hlen
    have hlen' : l.length = m.length := by simpa using hlen
    have hl := val_lt l
    have hm := val_lt m
    rw [← hlen'] at hm
    have hcons : a.toNat * 256 ^ l.length + val l < b.toNat * 256 ^ l.length + val m ↔
        (if a.toNat = b.toNat then ((val l : ℤ) - val m).sign
          else ((a.toNat : ℤ) - b.toNat).sign) = -1 := by
      rw [← sign_sub_split hl hm, sign_sub_eq_neg_one]
    rw [List.cons_lt_cons_iff, ih hlen', val, val, ← hlen', hcons, UInt8.lt_iff_toNat_lt,
      ← UInt8.toNat_inj]
    split_ifs with hab
    · rw [sign_sub_eq_neg_one]
      omega
    · rw [sign_sub_eq_neg_one]
      omega

end Radix
