import Rdnstun.Inet.Model
import Rdnstun.Lib.Bits

/-!
# Prefixes

* `sign_cmp`, `sign_memcmp`: byte comparison is that of big-endian numbers.
* **`sign_membcmp`**: bit comparison is that of the numbers of the first bits.
* `Addr.block`: the route of `p` bits an address belongs to; `membcmp_eq_zero_iff_block`.
-/

namespace Rdnstun

open Radix

variable {s₁ s₂ : List UInt8} {n : ℕ}

theorem sign_cmp (a b : UInt8) : (cmp a b).sign = ((a.toNat : ℤ) - b.toNat).sign := by
  unfold cmp
  split_ifs with heq hlt
  · rw [heq, sub_self]
  · exact (sign_sub_eq_neg_one.mpr (UInt8.lt_iff_toNat_lt.mp hlt)).symm
  · have hne : a.toNat ≠ b.toNat := mt UInt8.toNat_inj.mp heq
    have hle := mt UInt8.lt_iff_toNat_lt.mpr hlt
    exact (Int.sign_eq_one_of_pos (by omega)).symm

/-- **Byte comparison** of what both strings cover. -/
theorem sign_memcmp (h₁ : n ≤ s₁.length) (h₂ : n ≤ s₂.length) :
    (memcmp s₁ s₂ n).sign = ((val (s₁.take n) : ℤ) - val (s₂.take n)).sign := by
  induction n generalizing s₁ s₂ with
  | zero => cases s₁ <;> cases s₂ <;> rfl
  | succ n ih =>
    obtain ⟨a, s₁, rfl⟩ := List.exists_cons_of_length_pos (show 0 < s₁.length by omega)
    obtain ⟨b, s₂, rfl⟩ := List.exists_cons_of_length_pos (show 0 < s₂.length by omega)
    have h₁' : n ≤ s₁.length := Nat.le_of_succ_le_succ h₁
    have h₂' : n ≤ s₂.length := Nat.le_of_succ_le_succ h₂
    have hlen₁ : (s₁.take n).length = n := List.length_take_of_le h₁'
    have hlen₂ : (s₂.take n).length = n := List.length_take_of_le h₂'
    have hlt₁ := val_lt (s₁.take n)
    have hlt₂ := val_lt (s₂.take n)
    rw [hlen₁] at hlt₁
    rw [hlen₂] at hlt₂
    rw [memcmp, List.take_succ_cons, List.take_succ_cons, val, val, hlen₁, hlen₂,
      sign_sub_split hlt₁ hlt₂, apply_ite Int.sign, ih h₁' h₂', sign_cmp]
    simp only [UInt8.toNat_inj]

/-- Masking with `255 << r` clears the last `r` bits. -/
theorem toNat_land_mask (c : UInt8) {r : ℕ} (hr : r < 8) :
    (c &&& UInt8.ofNat (255 * 2 ^ r)).toNat = c.toNat / 2 ^ r * 2 ^ r := by
  have h : ∀ r < 8, ∀ n < 256, n &&& 255 * 2 ^ r % 256 = n / 2 ^ r * 2 ^ r := by decide +kernel
  rw [UInt8.toNat_and, UInt8.toNat_ofNat']
  exact h r hr _ c.toNat_lt

theorem sign_cmp_mask (c d : UInt8) {r : ℕ} (hr : r < 8) :
    (cmp (c &&& UInt8.ofNat (255 * 2 ^ r)) (d &&& UInt8.ofNat (255 * 2 ^ r))).sign =
      (((c.toNat / 2 ^ r : ℕ) : ℤ) - (d.toNat / 2 ^ r : ℕ)).sign := by
  have hsplit := sign_sub_split (x := c.toNat / 2 ^ r) (y := d.toNat / 2 ^ r) (Nat.two_pow_pos r)
    (Nat.two_pow_pos r)
  rw [Nat.add_zero, Nat.add_zero, sub_self] at hsplit
  rw [sign_cmp, toNat_land_mask c hr, toNat_land_mask d hr, hsplit]
  split_ifs with h
  · rw [h, sub_self]
  · rfl

/-- The number of the first bits, by whole bytes and a partial one. -/
theorem leading_split {l : List UInt8} (hn : n ≤ 8 * l.length) (hbits : n % 8 ≠ 0) :
    leading l n =
      val (l.take (n / 8)) * 2 ^ (n % 8) + (l.getD (n / 8) 0).toNat / 2 ^ (8 - n % 8) := by
  have hk : n / 8 < l.length := by omega
  have hsplit := val_div_split hk (show n % 8 ≤ 8 by omega)
  rw [Nat.div_add_mod] at hsplit
  rw [leading, hsplit, List.getD_eq_getElem _ _ hk]

theorem leading_bytes {l : List UInt8} (hn : n ≤ 8 * l.length) (hbits : n % 8 = 0) :
    leading l n = val (l.take (n / 8)) := by
  rw [leading, val_take, show (256 : ℕ) = 2 ^ 8 by norm_num, ← pow_mul]
  congr 2
  omega

/-- **Bit comparison** of what both strings cover, as long as the bytes are an `unsigned int`. -/
theorem sign_membcmp (h₁ : n ≤ 8 * s₁.length) (h₂ : n ≤ 8 * s₂.length) (hn : n < 2 ^ 35) :
    (membcmp s₁ s₂ n).sign = ((leading s₁ n : ℤ) - leading s₂ n).sign := by
  have hbytes : n / 8 % 2 ^ 32 = n / 8 := Nat.mod_eq_of_lt (by omega)
  have hres := sign_memcmp (show n / 8 ≤ s₁.length by omega) (show n / 8 ≤ s₂.length by omega)
  unfold membcmp
  dsimp only
  rw [hbytes]
  by_cases hbits : n % 8 = 0
  · -- whole bytes only
    rw [leading_bytes h₁ hbits, leading_bytes h₂ hbits, ← hres]
    split_ifs with h
    · rfl
    · rw [not_not.mp h]
  · -- the partial byte follows the whole ones
    have hc (c : UInt8) : c.toNat / 2 ^ (8 - n % 8) < 2 ^ (n % 8) := by
      rw [Nat.div_lt_iff_lt_mul (by positivity), ← pow_add,
        Nat.add_sub_cancel' (show n % 8 ≤ 8 by omega)]
      exact c.toNat_lt
    have hzero : memcmp s₁ s₂ (n / 8) = 0 ↔ val (s₁.take (n / 8)) = val (s₂.take (n / 8)) :=
      eq_zero_iff_of_sign hres
    rw [leading_split h₁ hbits, leading_split h₂ hbits, sign_sub_split (hc _) (hc _), if_neg hbits]
    by_cases h : memcmp s₁ s₂ (n / 8) = 0
    · rw [if_neg (not_not.mpr h), if_pos (hzero.mp h)]
      exact sign_cmp_mask _ _ (by omega)
    · rw [if_pos h, if_neg (mt hzero.mpr h)]
      exact hres

/-! ## Routes -/

variable {af : Af}

/-- The first `p` bits of an address. -/
def Addr.block (a : Addr af) (p : ℕ) : ℕ := a.toNat / 2 ^ (inetSize af - p)

theorem Addr.block_zero (a : Addr af) : a.block 0 = 0 := Nat.div_eq_of_lt a.toNat_lt

theorem leading_bytes_addr (a : Addr af) (p : ℕ) : leading a.bytes p = a.block p := by
  rw [leading, a.size_eq, ← inetSize_eq]
  rfl

theorem membcmp_eq_zero_iff_block {a b : Addr af} {p : ℕ} (hp : p ≤ inetSize af) :
    membcmp a.bytes b.bytes p = 0 ↔ a.block p = b.block p := by
  have hsize (c : Addr af) : p ≤ 8 * c.bytes.length := by rwa [c.size_eq, ← inetSize_eq]
  have hlt : p < 2 ^ 35 := hp.trans_lt (by cases af <;> decide)
  rw [eq_zero_iff_of_sign (sign_membcmp (hsize a) (hsize b) hlt), leading_bytes_addr,
    leading_bytes_addr]

end Rdnstun
