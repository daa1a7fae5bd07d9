import Rdnstun.Inet.Shift

/-!
# Network addresses

* `isnetworkShifts`: the amounts by which `inetIsnetwork` shifts. A prefix of no bits makes the
  IPv4 path shift by the whole width of the operand (`isnetworkShifts_lt_iff`).
* `inetIsnetwork4_iff`, `inetIsnetwork6_iff`: one word, and four.
* **`inetIsnetwork_iff`**: where the shifts are narrow enough, the result says whether the bits
  behind the prefix are zero.
-/

namespace Rdnstun

open Radix

variable {af : Af} {overshift : UInt32} {p : ℕ}

/-- The amounts by which `inet_isnetwork` shifts, in its calls of `_inet_tomask`. -/
def isnetworkShifts : {af : Af} → Addr af → ℕ → List ℕ
  | .inet, _, prefixLen => [32 - prefixLen]
  | .inet6, network, prefixLen =>
    let prefix32 := prefixLen / 32
    let prefix32rem := prefixLen % 32
    let from32 := prefix32 + if prefix32rem ≠ 0 then 1 else 0
    if [3, 2, 1, 0].any fun i => from32 ≤ i && word32 network.bytes i != 0 then []
    else if prefix32rem = 0 then [] else [32 - prefix32rem]

/-! ## Words -/

theorem load32_store32 (w : UInt32) : load32 (store32 w) = w := by
  have hlt := w.toNat_lt
  rw [load32, store32, List.reverse_reverse, val_bytes, ← UInt32.toNat_inj, UInt32.toNat_ofNat']
  omega

theorem load32_inj {l m : List UInt8} (hl : l.length = 4) (hm : m.length = 4) :
    load32 l = load32 m ↔ l = m := by
  refine ⟨fun h => val_inj (hl.trans hm.symm) ?_, fun h => by rw [h]⟩
  rw [← toNat_ntohl_load32 hl, ← toNat_ntohl_load32 hm, h]

theorem load32_land {l m : List UInt8} (hl : l.length = 4) (hm : m.length = 4) :
    load32 l &&& load32 m = load32 (List.zipWith (· &&& ·) l m) := by
  have hlt : ∀ l : List UInt8, l.length = 4 → val l.reverse < 2 ^ 32 := fun l h => by
    simpa [h] using val_lt l.reverse
  rw [← UInt32.toNat_inj, UInt32.toNat_and, load32, load32, load32, UInt32.toNat_ofNat',
    UInt32.toNat_ofNat', UInt32.toNat_ofNat', Nat.mod_eq_of_lt (hlt l hl),
    Nat.mod_eq_of_lt (hlt m hm), Nat.mod_eq_of_lt (hlt _ (by simp [hl, hm])),
    List.reverse_zipWith (hl.trans hm.symm), val_zipWith_land (by simp [hl, hm])]

theorem load32_eq_zero {l : List UInt8} (hl : l.length = 4) : load32 l = 0 ↔ val l = 0 := by
  have hzero : load32 (List.replicate 4 0) = 0 := rfl
  rw [← hzero, load32_inj hl List.length_replicate, ← val_inj_iff (by simp [hl]),
    val_replicate_zero]

theorem bitVec_land_not_eq_zero {w : ℕ} {a b : BitVec w} : a &&& ~~~b = 0#w ↔ a &&& b = a := by
  simp only [BitVec.eq_of_getLsbD_eq_iff, BitVec.getLsbD_and, BitVec.getLsbD_not,
    BitVec.getLsbD_zero]
  refine forall₂_congr fun i hi => ?_
  cases a.getLsbD i <;> cases b.getLsbD i <;> simp [hi]

/-- Nothing lies outside a mask exactly when the mask keeps all. -/
theorem land_not_eq_zero {a b : UInt32} : a &&& ~~~b = 0 ↔ a &&& b = a := by
  rw [← UInt32.toBitVec_inj, ← UInt32.toBitVec_inj]
  exact bitVec_land_not_eq_zero

/-! ## The mask -/

/-- The mask of a prefix, before its bytes are swapped. -/
theorem toNat_mask (hp : 0 < p) (hle : p ≤ 32) :
    (~~~((1 : UInt32) <<< UInt32.ofNat (32 - p) - 1)).toNat = 2 ^ 32 - 2 ^ (32 - p) := by
  have hlt : 2 ^ (32 - p) < 2 ^ 32 := Nat.pow_lt_pow_right (by norm_num) (by omega)
  have hpos := Nat.two_pow_pos (32 - p)
  have hshift : ((1 : UInt32) <<< UInt32.ofNat (32 - p)).toNat = 2 ^ (32 - p) := by
    rw [UInt32.toNat_shiftLeft, UInt32.toNat_ofNat', UInt32.toNat_one, Nat.one_shiftLeft,
      Nat.mod_eq_of_lt (show 32 - p < 2 ^ 32 by omega),
      Nat.mod_eq_of_lt (show 32 - p < 32 by omega), Nat.mod_eq_of_lt hlt]
  have hone : (1 : UInt32) ≤ 1 <<< UInt32.ofNat (32 - p) := by
    rw [UInt32.le_iff_toNat_le, hshift]
    exact hpos
  have hsize : UInt32.size = 2 ^ 32 := rfl
  rw [UInt32.toNat_not, UInt32.toNat_sub_of_le _ _ hone, hshift, UInt32.toNat_one]
  omega

theorem inetTomask_eq (hp : 0 < p) (hle : p ≤ 32) :
    inetTomask overshift p = load32 (bytes 4 (2 ^ 32 - 2 ^ (32 - p))) := by
  rw [inetTomask, if_pos (by omega), ← toNat_mask hp hle, ← store32_htonl, load32_store32]

/-- **One word** lies in the network of a prefix exactly when the bits behind the prefix are
zero. -/
theorem inetIsnetwork4_iff {l : List UInt8} (hl : l.length = 4) (hp : 0 < p) (hle : p ≤ 32) :
    inetIsnetwork4 overshift (load32 l) p = true ↔ val l % 2 ^ (32 - p) = 0 := by
  have hval : val l < 2 ^ 32 := by simpa [hl] using val_lt l
  have hmask : 2 ^ 32 - 2 ^ (32 - p) < 256 ^ 4 :=
    Nat.sub_lt (by norm_num) (Nat.two_pow_pos (32 - p))
  have hdiv := Nat.div_add_mod (val l) (2 ^ (32 - p))
  rw [inetIsnetwork4, beq_iff_eq, land_not_eq_zero, inetTomask_eq hp hle,
    load32_land hl (length_bytes ..), load32_inj (by simp [hl]) hl,
    ← val_inj_iff (by simp [hl]), val_zipWith_land (by simp [hl]), val_bytes,
    Nat.mod_eq_of_lt hmask, land_leading_ones (Nat.sub_le 32 p) hval]
  omega

/-! ## Four words -/

variable {l : List UInt8}

theorem val_drop_words (hl : l.length = 16) (i : ℕ) : val (l.drop (4 * i)) =
    val ((l.drop (4 * i)).take 4) * 256 ^ (16 - 4 * (i + 1)) + val (l.drop (4 * (i + 1))) := by
  have hlen : (l.drop (4 * (i + 1))).length = 16 - 4 * (i + 1) := by rw [List.length_drop, hl]
  rw [← hlen, ← val_append]
  congr 1
  conv_lhs => rw [← List.take_append_drop 4 (l.drop (4 * i)), List.drop_drop]
  rfl

theorem word32_eq_zero (hl : l.length = 16) {i : ℕ} (hi : i < 4) :
    word32 l i = 0 ↔ val ((l.drop (4 * i)).take 4) = 0 :=
  load32_eq_zero (by simp [hl]; omega)

theorem any_word32_eq_false (hl : l.length = 16) {from32 : ℕ} (hfrom : from32 ≤ 4) :
    ([3, 2, 1, 0].any fun i => from32 ≤ i && word32 l i != 0) = false ↔
      val (l.drop (4 * from32)) = 0 := by
  have hend : l.drop (4 * 4) = [] := List.drop_eq_nil_of_le (by omega)
  have h₀ := val_drop_words hl 0
  have h₁ := val_drop_words hl 1
  have h₂ := val_drop_words hl 2
  have h₃ := val_drop_words hl 3
  norm_num [hend] at h₀ h₁ h₂ h₃
  have hword : ∀ i < 4, (word32 l i != 0) = !decide (val ((l.drop (4 * i)).take 4) = 0) := by
    intro i hi
    rw [bne, ← decide_eq_decide.mpr (word32_eq_zero hl hi)]
    rfl
  simp only [List.any_cons, List.any_nil, hword 0 (by omega), hword 1 (by omega),
    hword 2 (by omega), hword 3 (by omega)]
  interval_cases from32 <;> norm_num [hend] <;> omega

/-- The bits behind a prefix that ends within the word `i` are those of the word behind its own
part of the prefix, and all the following. -/
theorem val_mod_word (hl : l.length = 16) {i r : ℕ} (hi : i < 4) (hr : r ≤ 32) :
    val l % 2 ^ (128 - (32 * i + r)) = 0 ↔
      val (l.drop (4 * (i + 1))) = 0 ∧ val ((l.drop (4 * i)).take 4) % 2 ^ (32 - r) = 0 := by
  have hbase : (256 : ℕ) = 2 ^ 8 := by norm_num
  have hpow : 2 ^ (128 - (32 * i + r)) = 256 ^ (16 - 4 * (i + 1)) * 2 ^ (32 - r) := by
    rw [hbase, ← pow_mul, ← pow_add]
    congr 1
    omega
  have hdvd : 2 ^ (128 - (32 * i + r)) ∣ 256 ^ (l.length - 4 * i) := by
    rw [hbase, ← pow_mul, hl]
    exact pow_dvd_pow 2 (by omega)
  have htail : val (l.drop (4 * (i + 1))) < 256 ^ (16 - 4 * (i + 1)) := by
    simpa [hl] using val_lt (l.drop (4 * (i + 1)))
  have hpos : 0 < 256 ^ (16 - 4 * (i + 1)) := by positivity
  rw [← Nat.mod_mod_of_dvd _ hdvd, ← val_drop, hpow, val_drop_words hl, Nat.mod_mul,
    Nat.mul_add_mod_of_lt htail, Nat.add_comm (_ * _) (val _), Nat.add_mul_div_right _ _ hpos,
    Nat.div_eq_of_lt htail, Nat.zero_add, Nat.add_eq_zero_iff, Nat.mul_eq_zero,
    or_iff_right hpos.ne']

/-- **Four words** lie in the network of a prefix exactly when the bits behind the prefix are
zero. -/
theorem inetIsnetwork6_iff (hl : l.length = 16) (hp : p ≤ 128) :
    inetIsnetwork6 overshift l p = true ↔ val l % 2 ^ (128 - p) = 0 := by
  have hsplit := Nat.div_add_mod p 32
  unfold inetIsnetwork6
  dsimp only
  by_cases hrem : p % 32 = 0
  · have hpow : 2 ^ (128 - p) = 256 ^ (l.length - 4 * (p / 32)) := by
      rw [show (256 : ℕ) = 2 ^ 8 by norm_num, ← pow_mul, hl]
      congr 1
      omega
    rw [hpow, ← val_drop, ← any_word32_eq_false hl (show p / 32 ≤ 4 by omega),
      if_neg (not_not.mpr hrem), Nat.add_zero]
    generalize List.any _ _ = dirty
    cases dirty <;> simp [hrem]
  · have hi : p / 32 < 4 := by omega
    have hmod := val_mod_word hl hi (Nat.mod_lt p (show 0 < 32 by norm_num)).le
    rw [hsplit] at hmod
    have hlt := Nat.mod_lt p (show 0 < 32 by norm_num)
    have hword : inetIsnetwork4 overshift (load32 ((l.drop (4 * (p / 32))).take 4)) (p % 32) =
        true ↔ _ :=
      inetIsnetwork4_iff (by simp [hl]; omega) (Nat.pos_of_ne_zero hrem) hlt.le
    rw [hmod, ← any_word32_eq_false hl hi, ← hword, if_pos hrem, word32]
    generalize List.any _ _ = dirty
    cases dirty <;> simp [hrem]

/-! ## Both families -/

variable {network : Addr af}

/-- A shift is as wide as its operand only for an IPv4 prefix of no bits. -/
theorem isnetworkShifts_lt_iff :
    (∀ k ∈ isnetworkShifts network p, k < 32) ↔ af = .inet6 ∨ 0 < p := by
  cases af
  · simp [isnetworkShifts]
  · simp only [true_or, iff_true]
    intro k hk
    have hrem : p % 32 ≠ 0 ∧ k = 32 - p % 32 := by
      unfold isnetworkShifts at hk
      dsimp only at hk
      by_cases hrem : p % 32 = 0
      · rw [if_pos hrem, ite_self] at hk
        cases hk
      · rw [if_neg hrem] at hk
        exact ⟨hrem, List.mem_singleton.mp (List.mem_ite_nil_left.mp hk).2⟩
    omega

/-- **A network** is accepted exactly when the bits behind its prefix are zero. -/
theorem inetIsnetwork_iff (hp : p ≤ inetSize af) (hshift : af = .inet6 ∨ 0 < p) :
    inetIsnetwork overshift network p = true ↔ network.toNat % 2 ^ (inetSize af - p) = 0 := by
  cases af
  · have hpos : 0 < p := hshift.resolve_left (by decide)
    exact inetIsnetwork4_iff network.size_eq hpos hp
  · exact inetIsnetwork6_iff network.size_eq hp

end Rdnstun
