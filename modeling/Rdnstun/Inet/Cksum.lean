import Rdnstun.Inet.Verify

/-!
# The core of the checksum

* `inetCksumContinue_append`: the sum of a block from those of its two pieces.
* `inetCksumFinish_eq_add`: the end folds the two halves of a sum, with an end-around carry.
* `residue_add_finish_ones`: the complement with all ones added first.
* `CksumExact`, **`cksumExact`**: what the functions do on a block of at most 65535 bytes.
-/

namespace Rdnstun

open Memory Carry

variable {m m' : Mem} {a b f j n s w : ℕ}

/-- The checksum functions on the `n` bytes at `a`: no sum overflows, a block may be summed in
pieces, the end is the complement of a one's complement sum, and a checksum that is stored in the
block makes its sum end in zero. -/
structure CksumExact (m : Mem) (a n : ℕ) : Prop where
  sum : ∀ s < 2 ^ 31 - 2 ^ 17, inetCksumContinue s m a n = s + byteSum m a n ∧
    s + byteSum m a n < 2 ^ 32
  pieces : ∀ s j m₁ a₁ m₂ a₂ k, read m a n = read m₁ a₁ (2 * j) ++ read m₂ a₂ k →
    inetCksumContinue (inetCksumContinue s m₁ a₁ (2 * j)) m₂ a₂ k = inetCksumContinue s m a n
  finish : ∀ sum < 2 ^ 32,
    inetCksumFinish sum = 65535 - Carry.add 65535 (sum / 2 ^ 16) (sum % 2 ^ 16)
  cksum : ∀ j, 2 * j + 2 ≤ n →
    inetCksumFinish (inetCksumContinue 0 (inetCksum m (a + 2 * j) a n) a n) = 0
  header : ∀ j, 2 * j + 2 ≤ n → (∃ k < n, k ≠ 2 * j ∧ k ≠ 2 * j + 1 ∧ m (a + k) ≠ 0) →
    inetCksumFinish (inetCksumContinue 0 (inetCksumHeader m (a + 2 * j) a n) a n) = 0

/-! ## Pieces -/

theorem inetCksumContinue_append (s : ℕ) (m : Mem) (a j n : ℕ) :
    inetCksumContinue s m a (2 * j + n) =
      inetCksumContinue (inetCksumContinue s m a (2 * j)) m (a + 2 * j) n := by
  induction j generalizing s a with
  | zero =>
    rw [Nat.mul_zero, Nat.zero_add, Nat.add_zero]
    rfl
  | succ j ih =>
    rw [show 2 * (j + 1) + n = 2 * j + n + 2 by omega, show 2 * (j + 1) = 2 * j + 2 by omega,
      inetCksumContinue, inetCksumContinue, ih, show a + (2 * j + 2) = a + 2 + 2 * j by omega]

theorem read_append_eq {m₁ m₂ : Mem} {a₁ a₂ k : ℕ}
    (h : read m a n = read m₁ a₁ j ++ read m₂ a₂ k) : n = j + k ∧
      (∀ i < j, m (a + i) = m₁ (a₁ + i)) ∧ ∀ i < k, m (a + j + i) = m₂ (a₂ + i) := by
  obtain rfl : n = j + k := by simpa using congrArg List.length h
  rw [read_add] at h
  obtain ⟨hfirst, hsecond⟩ := List.append_inj h (by simp)
  exact ⟨rfl, fun i hi => eq_of_read_eq hfirst hi, fun i hi => eq_of_read_eq hsecond hi⟩

/-! ## The end -/

theorem inetCksumFinish_eq_add (h : s < 2 ^ 32) :
    inetCksumFinish s = 65535 - Carry.add 65535 (s / 2 ^ 16) (s % 2 ^ 16) := by
  have hhigh : s / 2 ^ 16 ≤ 65535 := by omega
  have hlow : s % 2 ^ 16 ≤ 65535 := by omega
  have hfold : residue 65535 s = residue 65535 (s / 2 ^ 16 + s % 2 ^ 16) := by
    refine eq_residue (by decide) (residue_le (by decide) s) ((residue_modEq 65535 s).trans ?_) ?_
    · unfold Nat.ModEq
      omega
    · rw [residue_eq_zero]
      omega
  rw [inetCksumFinish_eq h, add_eq_residue (by decide) hhigh hlow, hfold]

theorem inetCksumFinish_eq_zero (h : s < 2 ^ 32) (hs : residue 65535 s = 65535) :
    inetCksumFinish s = 0 := by
  rw [inetCksumFinish_eq h, hs]

/-- All ones that are added first do not change the checksum of a sum that is not zero. -/
theorem residue_add_finish_ones (hs : 0 < s) (h : 65535 + s < 2 ^ 32) :
    residue 65535 (s + inetCksumFinish (65535 + s)) = 65535 := by
  rw [inetCksumFinish_eq h, residue_add_ones hs]
  exact residue_add_compl (by decide) hs

/-! ## A checksum in its block -/

theorem byteSum_pos {k : ℕ} (hk : k < n) (h : m (a + k) ≠ 0) : 0 < byteSum m a n := by
  have hpos (b : ℕ) (hb : m b ≠ 0) : 0 < (m b).toNat :=
    Nat.pos_of_ne_zero fun h => hb (UInt8.toNat_inj.mp h)
  induction a, n using byteSum.induct generalizing k with
  | case1 a => omega
  | case2 a =>
    obtain rfl := Nat.lt_one_iff.mp hk
    exact hpos a h
  | case3 a n ih =>
    rw [byteSum, load16]
    obtain _ | _ | k := k
    · have := hpos a h
      omega
    · have := hpos (a + 1) h
      omega
    · have := ih (k := k) (by omega) (by rwa [show a + 2 + k = a + (k + 2) by omega])
      omega

theorem byteSum_lt (m : Mem) (a : ℕ) (hn : n ≤ 65535) : byteSum m a n < 2 ^ 31 := by
  have hle := byteSum_le m a n
  omega

/-- **A checksum** that is stored completes the sum of its block, if it completes the sum of the
block without it. -/
theorem finish_inetCksumAt {append : Bool} (hn : n ≤ 65535) (hj : 2 * j + 2 ≤ n)
    (h : append = true → 0 < byteSum (store16 m (a + 2 * j) 0) a n) :
    inetCksumFinish (inetCksumContinue 0 (inetCksumAt m (a + 2 * j) a n append) a n) = 0 := by
  have hlt := byteSum_lt (store16 m (a + 2 * j) 0) a hn
  have hsum : inetCksumContinue 0 (store16 m (a + 2 * j) 0) a n =
      byteSum (store16 m (a + 2 * j) 0) a n := by
    rw [inetCksumContinue_eq_byteSum (by omega), Nat.zero_add]
  rw [inetCksumAt, hsum]
  have hones : residue 65535 (byteSum (store16 m (a + 2 * j) 0) a n + inetCksumFinish
      (((if append then 65535 else 0) + byteSum (store16 m (a + 2 * j) 0) a n) % 2 ^ 32)) =
        65535 := by
    cases append with
    | false =>
      rw [if_neg Bool.false_ne_true, Nat.zero_add, Nat.mod_eq_of_lt (by omega)]
      exact residue_add_finish (by omega)
    | true =>
      rw [if_pos rfl, Nat.mod_eq_of_lt (by omega)]
      exact residue_add_finish_ones (h rfl) (by omega)
  generalize ((if append then 65535 else 0) + _) % 2 ^ 32 = sum at hones ⊢
  have hle := inetCksumFinish_le sum
  have hstored : byteSum (store16 (store16 m (a + 2 * j) 0) (a + 2 * j) (inetCksumFinish sum)) a n =
      byteSum (store16 m (a + 2 * j) 0) a n + inetCksumFinish sum := by
    rw [store16_store16]
    exact byteSum_store16 m a hj hle
  rw [inetCksumContinue_eq_byteSum (by omega), hstored, Nat.zero_add]
  exact inetCksumFinish_eq_zero (by omega) hones

/-- **The checksum functions** on a block of at most 65535 bytes. -/
theorem cksumExact (m : Mem) (a : ℕ) (hn : n ≤ 65535) : CksumExact m a n where
  sum s hs := by
    have hlt := byteSum_lt m a hn
    exact ⟨inetCksumContinue_eq_byteSum (by omega), by omega⟩
  pieces s j m₁ a₁ m₂ a₂ k h := by
    obtain ⟨rfl, hfirst, hsecond⟩ := read_append_eq h
    rw [inetCksumContinue_append, inetCksumContinue_congr s hfirst]
    exact (inetCksumContinue_congr _ hsecond).symm
  finish sum := inetCksumFinish_eq_add
  cksum j hj := finish_inetCksumAt hn hj nofun
  header j hj := by
    rintro ⟨k, hk, hne₀, hne₁, hbyte⟩
    refine finish_inetCksumAt hn hj fun _ => byteSum_pos hk ?_
    rwa [store16_of_ne 0 (by omega) (by omega)]

/-- A block of three bytes. -/
theorem cksumExact_three : CksumExact (fun k => .ofNat k) 0 3 := cksumExact _ _ (by decide)

end Rdnstun
