import Mathlib

/-!
# Byte strings as numbers

* `val l`: the number a byte string denotes, most significant byte first; `bytes n v`: `v` in
  `n` bytes. The two are inverse to each other (`val_bytes`, `bytes_val`).
* `val_take`, `val_drop`: cutting a string is division by a power of 256.
* `val_div_split`: the leading bits of a string, a whole number of bytes and a partial one.
* `val_zipWith_land`: bitwise conjunction byte by byte; `land_leading_ones`: with a mask of leading
  ones.
-/

namespace Radix

/-- The value of a byte string, most significant byte first. -/
def val : List UInt8 → ℕ
  | [] => 0
  | b :: l => b.toNat * 256 ^ l.length + val l

/-- `v` in `n` bytes, most significant byte first. -/
def bytes : ℕ → ℕ → List UInt8
  | 0, _ => []
  | n + 1, v => bytes n (v / 256) ++ [UInt8.ofNat v]

@[simp] theorem val_nil : val [] = 0 := rfl

@[simp] theorem length_bytes (n v : ℕ) : (bytes n v).length = n := by
  induction n generalizing v with
  | zero => rfl
  | succ n ih => simp [bytes, ih]

theorem val_lt (l : List UInt8) : val l < 256 ^ l.length := by
  induction l with
  | nil => simp
  | cons b l ih =>
    have hb : b.toNat + 1 ≤ 256 := b.toNat_lt
    calc val (b :: l) < b.toNat * 256 ^ l.length + 256 ^ l.length := by
          rw [val]; omega
      _ = (b.toNat + 1) * 256 ^ l.length := by ring
      _ ≤ 256 * 256 ^ l.length := Nat.mul_le_mul_right _ hb
      _ = 256 ^ (b :: l).length := by rw [List.length_cons, pow_succ']

theorem val_append (l m : List UInt8) : val (l ++ m) = val l * 256 ^ m.length + val m := by
  induction l with
  | nil => simp
  | cons b l ih =>
    rw [List.cons_append, val, val, ih, List.length_append, pow_add]
    ring

theorem val_singleton (b : UInt8) : val [b] = b.toNat := by simp [val]

theorem val_bytes (n v : ℕ) : val (bytes n v) = v % 256 ^ n := by
  induction n generalizing v with
  | zero => simp [bytes, Nat.mod_one]
  | succ n ih =>
    rw [bytes, val_append, ih, val_singleton, List.length_singleton, pow_one, pow_succ',
      Nat.mod_mul, UInt8.toNat_ofNat']
    ring

theorem val_inj {l m : List UInt8} (hlen : l.length = m.length) (h : val l = val m) : l = m := by
  induction l generalizing m with
  | nil => exact (List.length_eq_zero_iff.mp hlen.symm).symm
  | cons a l ih =>
    obtain _ | ⟨b, m⟩ := m
    · simp at hlen
    have hlen' : l.length = m.length := by simpa using hlen
    have hl := val_lt l
    have hm := val_lt m
    rw [← hlen'] at hm
    rw [val, val, ← hlen'] at h
    have hdiv (x : ℕ) (y : ℕ) (hy : y < 256 ^ l.length) :
        (x * 256 ^ l.length + y) / 256 ^ l.length = x := by
      rw [Nat.add_comm, Nat.add_mul_div_right _ _ (by positivity), Nat.div_eq_of_lt hy, zero_add]
    have hab : a.toNat = b.toNat := by
      have := congrArg (· / 256 ^ l.length) h
      simpa only [hdiv _ _ hl, hdiv _ _ hm] using this
    rw [UInt8.toNat_inj.mp hab, ih hlen' (by rw [hab] at h; omega)]

theorem val_inj_iff {l m : List UInt8} (hlen : l.length = m.length) : val l = val m ↔ l = m :=
  ⟨val_inj hlen, fun h => by rw [h]⟩

theorem bytes_val (l : List UInt8) : bytes l.length (val l) = l :=
  val_inj (by simp) (by rw [val_bytes, Nat.mod_eq_of_lt (val_lt l)])

theorem bytes_mod (n v : ℕ) : bytes n (v % 256 ^ n) = bytes n v :=
  val_inj (by simp) (by rw [val_bytes, val_bytes, Nat.mod_mod])

theorem val_eq_zero {l : List UInt8} : val l = 0 ↔ ∀ b ∈ l, b = 0 := by
  induction l with
  | nil => simp
  | cons b l ih =>
    have hp : 256 ^ l.length ≠ 0 := by positivity
    rw [val, Nat.add_eq_zero_iff, ih, Nat.mul_eq_zero, or_iff_left hp, List.forall_mem_cons,
      ← UInt8.toNat_inj, UInt8.toNat_zero]

theorem val_replicate_zero (n : ℕ) : val (List.replicate n 0) = 0 :=
  val_eq_zero.mpr fun _ h => List.eq_of_mem_replicate h

theorem val_take (l : List UInt8) (k : ℕ) :
    val (l.take k) = val l / 256 ^ (l.length - k) := by
  conv_rhs => rw [← List.take_append_drop k l, val_append, List.take_append_drop,
    ← List.length_drop]
  rw [Nat.add_comm, Nat.add_mul_div_right _ _ (by positivity), Nat.div_eq_of_lt (val_lt _),
    zero_add]

theorem val_drop (l : List UInt8) (k : ℕ) :
    val (l.drop k) = val l % 256 ^ (l.length - k) := by
  conv_rhs => rw [← List.take_append_drop k l, val_append, List.take_append_drop,
    ← List.length_drop]
  rw [Nat.mul_comm, Nat.mul_add_mod, Nat.mod_eq_of_lt (val_lt _)]

/-- **Leading bits.** The first `8 * k + r` bits of a string are its first `k` bytes and the
first `r` bits of the next one. -/
theorem val_div_split {l : List UInt8} {k r : ℕ} (hk : k < l.length) (hr : r ≤ 8) :
    val l / 2 ^ (8 * l.length - (8 * k + r)) =
      val (l.take k) * 2 ^ r + l[k].toNat / 2 ^ (8 - r) := by
  have hsplit : val l = val (l.take k) * 256 ^ (l.length - k) +
      (l[k].toNat * 256 ^ (l.length - k - 1) + val (l.drop (k + 1))) := by
    conv_lhs => rw [← List.take_append_drop k l, val_append, List.length_drop,
      List.drop_eq_getElem_cons hk, val, List.length_drop]
    rfl
  have hrest : val (l.drop (k + 1)) < 256 ^ (l.length - k - 1) := by
    have := val_lt (l.drop (k + 1))
    rwa [List.length_drop, ← Nat.sub_sub] at this
  have hpow : 2 ^ (8 * l.length - (8 * k + r)) = 256 ^ (l.length - k - 1) * 2 ^ (8 - r) := by
    rw [show (256 : ℕ) = 2 ^ 8 by norm_num, ← pow_mul, ← pow_add]
    congr 1
    omega
  have hfull : 256 ^ (l.length - k) = 256 ^ (l.length - k - 1) * (2 ^ r * 2 ^ (8 - r)) := by
    rw [← pow_add, show r + (8 - r) = 8 by omega, show (2 : ℕ) ^ 8 = 256 by norm_num, ← pow_succ]
    congr 1
    omega
  generalize 256 ^ (l.length - k - 1) = M at *
  rw [hsplit, hpow, hfull, ← Nat.div_div_eq_div_mul]
  have hM : (val (l.take k) * (M * (2 ^ r * 2 ^ (8 - r))) +
      (l[k].toNat * M + val (l.drop (k + 1)))) / M =
        val (l.take k) * 2 ^ r * 2 ^ (8 - r) + l[k].toNat := by
    rw [show val (l.take k) * (M * (2 ^ r * 2 ^ (8 - r))) +
      (l[k].toNat * M + val (l.drop (k + 1))) = val (l.drop (k + 1)) +
        (val (l.take k) * 2 ^ r * 2 ^ (8 - r) + l[k].toNat) * M by ring,
      Nat.add_mul_div_right _ _ (by omega), Nat.div_eq_of_lt hrest, zero_add]
  rw [hM, Nat.add_comm, Nat.add_mul_div_right _ _ (by positivity), Nat.add_comm]

/-! ## Bitwise conjunction -/

theorem land_split (a b : ℕ) {c d k : ℕ} (hc : c < 2 ^ k) (hd : d < 2 ^ k) :
    (2 ^ k * a + c) &&& (2 ^ k * b + d) = 2 ^ k * (a &&& b) + (c &&& d) := by
  refine Nat.eq_of_testBit_eq fun i => ?_
  rw [Nat.testBit_and, Nat.testBit_two_pow_mul_add _ hc, Nat.testBit_two_pow_mul_add _ hd,
    Nat.testBit_two_pow_mul_add _ (Nat.and_lt_two_pow c hd)]
  split_ifs <;> simp

theorem val_zipWith_land {l m : List UInt8} (hlen : l.length = m.length) :
    val (List.zipWith (· &&& ·) l m) = val l &&& val m := by
  induction l generalizing m with
  | nil => simp
  | cons a l ih =>
    obtain _ | ⟨b, m⟩ := m
    · simp at hlen
    have hlen' : l.length = m.length := by simpa using hlen
    have hpow : (256 : ℕ) ^ m.length = 2 ^ (8 * m.length) := by
      rw [pow_mul]
      norm_num
    have hl := val_lt l
    have hm := val_lt m
    rw [hlen', hpow] at hl
    rw [hpow] at hm
    rw [List.zipWith_cons_cons, val, val, val, ih hlen', List.length_zipWith, hlen', Nat.min_self,
      hpow, UInt8.toNat_and, Nat.mul_comm a.toNat, Nat.mul_comm b.toNat, land_split _ _ hl hm,
      Nat.mul_comm]

/-- Masking with `n - k` leading ones clears the last `k` bits. -/
theorem land_leading_ones {x n k : ℕ} (hk : k ≤ n) (hx : x < 2 ^ n) :
    x &&& (2 ^ n - 2 ^ k) = 2 ^ k * (x / 2 ^ k) := by
  have hmask : 2 ^ n - 2 ^ k = 2 ^ k * (2 ^ (n - k) - 1) + 0 := by
    rw [Nat.mul_sub, ← pow_add, Nat.add_sub_cancel' hk, Nat.mul_one, Nat.add_zero]
  have hq : x / 2 ^ k < 2 ^ (n - k) := by
    rw [Nat.div_lt_iff_lt_mul (Nat.two_pow_pos k), ← pow_add, Nat.sub_add_cancel hk]
    exact hx
  conv_lhs => rw [← Nat.div_add_mod x (2 ^ k), hmask]
  rw [land_split _ _ (Nat.mod_lt x (Nat.two_pow_pos k)) (Nat.two_pow_pos k), Nat.and_zero,
    Nat.add_zero, Nat.and_two_pow_sub_one_of_lt_two_pow hq]

end Radix
