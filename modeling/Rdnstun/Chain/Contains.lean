import Rdnstun.Chain.Find

/-!
# Containment in a route

* `membcmp_mod`: only `2 ^ 35` bits are counted.
* `PrefixExact`: bit comparison of two strings, and containment in routes.
* **`prefixExact_iff`**: it is right unless the bits that are counted agree and the others do not.
* `not_prefixExact`: two strings of `2 ^ 32` bytes.
-/

namespace Rdnstun

open Radix

variable {s₁ s₂ : List UInt8} {n : ℕ}

/-- What `membcmp` makes of the first `n` bits of two strings, and `HostChain_in` of addresses. -/
structure PrefixExact (s₁ s₂ : List UInt8) (n : ℕ) : Prop where
  zero : membcmp s₁ s₂ n = 0 ↔ ∀ k < n, bit s₁ k = bit s₂ k
  sign : (membcmp s₁ s₂ n).sign = ((leading s₁ n : ℤ) - leading s₂ n).sign
  isIn : ∀ (af : Af) (c : HostChain af) (addr : Addr af), c.isIn addr = true ↔
    addr.toNat / 2 ^ (inetSize af - c.prefixLen) =
      c.network.toNat / 2 ^ (inetSize af - c.prefixLen)
  shorter : ∀ (af : Af) (c c' : HostChain af) (addr : Addr af), c'.network = c.network →
    c'.prefixLen ≤ c.prefixLen → c.isIn addr = true → c'.isIn addr = true

theorem membcmp_mod (s₁ s₂ : List UInt8) (n : ℕ) :
    membcmp s₁ s₂ n = membcmp s₁ s₂ (n % 2 ^ 35) := by
  have hbytes : n % 2 ^ 35 / 8 % 2 ^ 32 = n / 8 % 2 ^ 32 := by omega
  have hbits : n % 2 ^ 35 % 8 = n % 8 := by omega
  unfold membcmp
  rw [hbytes, hbits]

theorem sign_membcmp_mod (h₁ : n ≤ 8 * s₁.length) (h₂ : n ≤ 8 * s₂.length) :
    (membcmp s₁ s₂ n).sign =
      ((leading s₁ (n % 2 ^ 35) : ℤ) - leading s₂ (n % 2 ^ 35)).sign := by
  have hle := Nat.mod_le n (2 ^ 35)
  rw [membcmp_mod]
  exact sign_membcmp (by omega) (by omega) (Nat.mod_lt n (Nat.two_pow_pos 35))

/-- Strings whose first bits differ are compared by these. -/
theorem sign_leading_of_ne {j : ℕ} (hj : j ≤ n) (h₁ : n ≤ 8 * s₁.length)
    (h₂ : n ≤ 8 * s₂.length) (hne : leading s₁ j ≠ leading s₂ j) :
    ((leading s₁ n : ℤ) - leading s₂ n).sign = ((leading s₁ j : ℤ) - leading s₂ j).sign := by
  have hsplit (l : List UInt8) (hl : n ≤ 8 * l.length) :
      leading l n = leading l j * 2 ^ (n - j) + leading l n % 2 ^ (n - j) := by
    rw [← leading_div hj hl, Nat.mul_comm, Nat.div_add_mod]
  have hlt (l : List UInt8) : leading l n % 2 ^ (n - j) < 2 ^ (n - j) :=
    Nat.mod_lt _ (Nat.two_pow_pos _)
  rw [hsplit s₁ h₁, hsplit s₂ h₂, sign_sub_split (hlt s₁) (hlt s₂), if_neg hne]

theorem HostChain.isIn_of_le {af : Af} {c c' : HostChain af} {addr : Addr af}
    (hnetwork : c'.network = c.network) (hle : c'.prefixLen ≤ c.prefixLen)
    (h : c.isIn addr = true) : c'.isIn addr = true := by
  have hsize := c.prefixLen_le
  have hblock (a : Addr af) :
      a.block c'.prefixLen = a.block c.prefixLen / 2 ^ (c.prefixLen - c'.prefixLen) := by
    rw [Addr.block, Addr.block, Nat.div_div_eq_div_mul, ← pow_add]
    congr 2
    omega
  rw [isIn_iff] at h ⊢
  rw [hnetwork, hblock, hblock, h]

/-- **Bit comparison** of two strings is right exactly if they agree on all their bits wherever they
agree on those that are counted. Containment in routes always is. -/
theorem prefixExact_iff (h₁ : n ≤ 8 * s₁.length) (h₂ : n ≤ 8 * s₂.length) :
    PrefixExact s₁ s₂ n ↔
      ((∀ k < n % 2 ^ 35, bit s₁ k = bit s₂ k) → ∀ k < n, bit s₁ k = bit s₂ k) := by
  have hle := Nat.mod_le n (2 ^ 35)
  have hsign := sign_membcmp_mod h₁ h₂
  have hcounted := leading_eq_iff (n := n % 2 ^ 35) (hle.trans h₁) (hle.trans h₂)
  have hall := leading_eq_iff h₁ h₂
  constructor
  · intro h hbits
    exact h.zero.mp ((eq_zero_iff_of_sign hsign).mpr (hcounted.mpr hbits))
  · intro h
    have hsame : (membcmp s₁ s₂ n).sign = ((leading s₁ n : ℤ) - leading s₂ n).sign := by
      rw [hsign]
      by_cases heq : leading s₁ (n % 2 ^ 35) = leading s₂ (n % 2 ^ 35)
      · rw [sign_sub_eq_zero.mpr heq, sign_sub_eq_zero.mpr (hall.mpr (h (hcounted.mp heq)))]
      · exact (sign_leading_of_ne hle h₁ h₂ heq).symm
    refine ⟨?_, hsame, fun af c addr => HostChain.isIn_iff.trans eq_comm,
      fun af c c' addr => HostChain.isIn_of_le⟩
    rw [eq_zero_iff_of_sign hsame, hall]

/-- Two addresses under a prefix of 24 bits. -/
theorem prefixExact_slash24 : PrefixExact [10, 0, 0, 1] [10, 0, 0, 200] 24 :=
  (prefixExact_iff (by decide) (by decide)).mpr id

/-- Of the bits of `2 ^ 32` bytes none is counted. -/
theorem not_prefixExact_of_head {zeros : List UInt8} :
    ¬ PrefixExact (0 :: zeros) (1 :: zeros) (2 ^ 35) := by
  intro h
  have hzero : membcmp (0 :: zeros) (1 :: zeros) (2 ^ 35) = 0 := by
    rw [membcmp_mod]
    rfl
  have hbit := h.zero.mp hzero 7 (by norm_num)
  have hfirst : bit (0 :: zeros) 7 = (0 : UInt8).toNat.testBit 0 := rfl
  have hfirst' : bit (1 :: zeros) 7 = (1 : UInt8).toNat.testBit 0 := rfl
  rw [hfirst, hfirst'] at hbit
  exact absurd hbit (by decide)

/-- Two strings of `2 ^ 32` bytes that differ in the first one. -/
theorem not_prefixExact : ¬ ∀ (s₁ s₂ : List UInt8) (n : ℕ), n ≤ 8 * s₁.length →
    n ≤ 8 * s₂.length → PrefixExact s₁ s₂ n := by
  intro h
  refine not_prefixExact_of_head (h (0 :: List.replicate (2 ^ 32 - 1) 0)
    (1 :: List.replicate (2 ^ 32 - 1) 0) (2 ^ 35) ?_ ?_)
  · rw [List.length_cons, List.length_replicate]
    norm_num
  · rw [List.length_cons, List.length_replicate]
    norm_num

end Rdnstun
