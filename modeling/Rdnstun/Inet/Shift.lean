import Rdnstun.Inet.Prefix
import Rdnstun.Lib.Translate

/-!
# Shifting an address

`inetShift` translates the address, as a big-endian number, by `offset` blocks of the size that
the given number of leading bits leaves (`inetShift_eq`). What follows about routes is
`Translate` at that size.

* `Place.Fits`, `inetShiftAt_of_fits`, `inetShiftAt_misaligned`: the places at which the code may
  shift an address.
* **`shiftExact_iff`**: there, and only there, shifts add up, can be undone, keep the last bits, and
  fail for long prefixes.
-/

namespace Rdnstun

open Radix Translate

/-! ## Byte order -/

theorem toNat_ntohl_load32 {l : List UInt8} (hl : l.length = 4) :
    (ntohl (load32 l)).toNat = val l := by
  have hrev : val l.reverse < 2 ^ 32 := by simpa [hl] using val_lt l.reverse
  have hval : val l < 2 ^ 32 := by simpa [hl] using val_lt l
  have hbytes : bytes 4 (val l.reverse) = l.reverse := by
    have := bytes_val l.reverse
    rwa [List.length_reverse, hl] at this
  rw [ntohl, load32, UInt32.toNat_ofNat', UInt32.toNat_ofNat', Nat.mod_eq_of_lt hrev, hbytes,
    List.reverse_reverse, Nat.mod_eq_of_lt hval]

theorem store32_htonl (w : UInt32) : store32 (htonl w) = bytes 4 w.toNat := by
  have hlt : val (bytes 4 w.toNat).reverse < 2 ^ 32 := by
    simpa using val_lt (bytes 4 w.toNat).reverse
  have hbytes := bytes_val (bytes 4 w.toNat).reverse
  rw [List.length_reverse, length_bytes] at hbytes
  rw [store32, htonl, ntohl, UInt32.toNat_ofNat', Nat.mod_eq_of_lt hlt, hbytes,
    List.reverse_reverse]

theorem store32_htonl_toUint32 (x : ℤ) :
    store32 (htonl (toUint32 x)) = bytes 4 (x % 2 ^ 32).toNat := by
  rw [store32_htonl, toUint32, UInt32.toNat_ofNat']
  exact bytes_mod 4 _

theorem val_words {l : List UInt8} (hl : l.length = 16) :
    val l = (ntohl (word32 l 3)).toNat + (ntohl (word32 l 2)).toNat * 2 ^ 32 +
      (ntohl (word32 l 1)).toNat * 2 ^ 64 + (ntohl (word32 l 0)).toNat * 2 ^ 96 := by
  have hword : ∀ i < 4, (ntohl (word32 l i)).toNat =
      val l % 256 ^ (16 - 4 * i) / 256 ^ (16 - 4 * i - 4) := fun i hi => by
    rw [word32, toNat_ntohl_load32 (by simp [hl]; omega), val_take, val_drop, List.length_drop, hl]
  have hlt := val_lt l
  rw [hl] at hlt
  rw [hword 0 (by omega), hword 1 (by omega), hword 2 (by omega), hword 3 (by omega)]
  norm_num at hlt ⊢
  omega

/-! ## The two paths -/

theorem bmod_emod_of_dvd (x : ℤ) {n : ℕ} {m : ℤ} (h : m ∣ n) : x.bmod n % m = x % m := by
  rw [← Int.emod_emod_of_dvd (x.bmod n) h, Int.bmod_emod, Int.emod_emod_of_dvd x h]

/-- Wrapping sums agree with the true sum modulo every divisor of the width. -/
theorem bmod_add_bmod_emod (x y : ℤ) {n : ℕ} {m : ℤ} (h : m ∣ n) :
    (x + y.bmod n).bmod n % m = (x + y) % m := by
  rw [bmod_emod_of_dvd _ h, Int.add_emod, bmod_emod_of_dvd y h, ← Int.add_emod]

theorem val_inetShift4 {addr : List UInt8} (h : addr.length = 4) (offset : ℤ) (p : ℕ) :
    val (inetShift4 addr offset p) = translate (2 ^ 32) (offset * 2 ^ (32 - p)) (val addr) := by
  have hlt := translate_lt (N := 2 ^ 32) (by norm_num) (offset * 2 ^ (32 - p)) (val addr)
  unfold inetShift4
  dsimp only
  rw [store32_htonl_toUint32, toNat_ntohl_load32 h, bmod_add_bmod_emod _ _ (by norm_num), val_bytes]
  exact Nat.mod_eq_of_lt hlt

theorem val_inetShift6 {addr : List UInt8} (h : addr.length = 16) (offset : ℤ) (p : ℕ) :
    val (inetShift6 addr offset p) = translate (2 ^ 128) (offset * 2 ^ (128 - p)) (val addr) := by
  have hval := val_words h
  have hlt := translate_lt (N := 2 ^ 128) (by norm_num) (offset * 2 ^ (128 - p)) (val addr)
  have hcast := cast_translate (N := 2 ^ 128) (by norm_num) (offset * 2 ^ (128 - p)) (val addr)
  have hsum := bmod_add_bmod_emod (n := 2 ^ 128) (m := 2 ^ 128) (val addr)
    (offset * 2 ^ (128 - p)) (by norm_num)
  unfold inetShift6
  dsimp only
  simp only [Nat.sub_zero, Nat.reduceSub, Nat.reduceMul]
  rw [← hval, store32_htonl_toUint32, store32_htonl_toUint32, store32_htonl_toUint32,
    store32_htonl_toUint32]
  -- the sum is the translated address modulo `2 ^ 128`
  rw [Nat.cast_pow, Nat.cast_ofNat, ← hsum] at hcast
  generalize ((val addr : ℤ) + (offset * 2 ^ (128 - p)).bmod (2 ^ 128)).bmod (2 ^ 128) = sum
    at hcast ⊢
  generalize translate (2 ^ 128) (offset * 2 ^ (128 - p)) (val addr) = t at hcast hlt ⊢
  rw [val_append, val_append, val_append, val_bytes, val_bytes, val_bytes, val_bytes]
  simp only [length_bytes]
  norm_num at hcast hlt ⊢
  omega

/-! ## The shift of an address -/

variable {af : Af}

theorem Addr.toNat_ofNat_translate (d : ℤ) (v : ℕ) :
    (Addr.ofNat af (translate (2 ^ inetSize af) d v)).toNat = translate (2 ^ inetSize af) d v := by
  rw [Addr.toNat_ofNat, Nat.mod_eq_of_lt (translate_lt (by positivity) d v)]

/-- **`inetShift` is a translation** of the address space by blocks of the given prefix. -/
theorem inetShift_eq (a : Addr af) (offset : ℤ) {p : ℕ} (hp : p ≤ inetSize af) :
    inetShift a offset p = some (Addr.ofNat af
      (translate (2 ^ inetSize af) (offset * 2 ^ (inetSize af - p)) a.toNat)) := by
  cases af
  · rw [inetShift, if_pos hp, Option.some_inj, ← Addr.toNat_inj, Addr.toNat_ofNat_translate]
    exact val_inetShift4 a.size_eq offset p
  · rw [inetShift, if_pos hp, Option.some_inj, ← Addr.toNat_inj, Addr.toNat_ofNat_translate]
    exact val_inetShift6 a.size_eq offset p

theorem inetShift_eq_none {a : Addr af} {offset : ℤ} {p : ℕ} :
    inetShift a offset p = none ↔ inetSize af < p := by
  cases af <;> simp [inetShift]

/-! ## All shifts of an address -/

variable {a : Addr af} {offset : ℤ} {p : ℕ}

theorem inetShift_add (a : Addr af) (o₁ o₂ : ℤ) (hp : p ≤ inetSize af) :
    (inetShift a o₁ p).bind (inetShift · o₂ p) = inetShift a (o₁ + o₂) p := by
  rw [inetShift_eq a o₁ hp, Option.bind_some, inetShift_eq _ o₂ hp, inetShift_eq a _ hp,
    Addr.toNat_ofNat_translate, Translate.translate_translate (by positivity), add_mul]

theorem inetShift_zero (a : Addr af) (hp : p ≤ inetSize af) : inetShift a 0 p = some a := by
  rw [inetShift_eq a 0 hp, Option.some_inj, ← Addr.toNat_inj, Addr.toNat_ofNat_translate, zero_mul,
    translate_zero a.toNat_lt]

theorem toNat_mod_of_inetShift {b : Addr af} (h : inetShift a offset p = some b) :
    b.toNat % 2 ^ (inetSize af - p) = a.toNat % 2 ^ (inetSize af - p) := by
  have hp : p ≤ inetSize af := by
    by_contra hlt
    rw [inetShift_eq_none.mpr (Nat.not_le.mp hlt)] at h
    cases h
  have hsize : 2 ^ inetSize af = 2 ^ (inetSize af - p) * 2 ^ p := by
    rw [← pow_add, Nat.sub_add_cancel hp]
  have hmod := translate_mod (Nat.two_pow_pos (inetSize af - p)) (Nat.two_pow_pos p) offset a.toNat
  rw [inetShift_eq a offset hp, Option.some_inj] at h
  rw [← h, Addr.toNat_ofNat_translate, hsize, mul_comm offset]
  exact_mod_cast hmod

/-! ## Places -/

/-- The code may shift an address of the family at this place. -/
def Place.Fits (place : Place) (af : Af) : Prop := af = .inet ∨ 16 ∣ place.loc

instance (place : Place) (af : Af) : Decidable (place.Fits af) :=
  inferInstanceAs (Decidable (_ ∨ _))

variable {place : Place}

theorem inetShiftAt_of_fits (h : place.Fits af) (a : Addr af) (offset : ℤ) (hp : 1 ≤ p) :
    inetShiftAt place a offset p = .ok (inetShift a offset p) := by
  cases af with
  | inet => rfl
  | inet6 =>
    have hdvd : 16 ∣ place.loc := h.resolve_left (by decide)
    rw [inetShiftAt, if_neg (by omega : p ≠ 0), if_pos hdvd]
    split_ifs with hlt
    · rw [inetShift_eq_none.mpr hlt]
    · rfl

theorem inetShiftAt_misaligned (h : ¬ place.Fits af) (a : Addr af) (offset : ℤ) (hp : 1 ≤ p)
    (hp' : p ≤ inetSize af) : inetShiftAt place a offset p = .error .misaligned := by
  obtain ⟨hne, hdvd⟩ := not_or.mp h
  cases af with
  | inet => exact absurd rfl hne
  | inet6 => rw [inetShiftAt, if_neg (by omega), if_neg (by omega), if_neg hdvd]

theorem inetShiftAt_of_lt (place : Place) (a : Addr af) (offset : ℤ) (hp : inetSize af < p) :
    inetShiftAt place a offset p = .ok none := by
  cases af with
  | inet => rw [inetShiftAt, inetShift_eq_none.mpr hp]
  | inet6 => rw [inetShiftAt, if_pos hp]

theorem inetShift_of_inetShiftAt {r : Option (Addr af)}
    (h : inetShiftAt place a offset p = .ok r) : inetShift a offset p = r := by
  cases af with
  | inet => exact Except.ok.inj h
  | inet6 =>
    rw [inetShiftAt] at h
    split_ifs at h with hlt
    · rw [inetShift_eq_none.mpr hlt]
      exact Except.ok.inj h
    · exact Except.ok.inj h

/-- What `inet_shift` does to an address at a place: it adds a multiple of the block size modulo the
size of the address space, so that shifts add up and keep the last bits; a prefix that is too long
is an error. -/
structure ShiftExact (place : Place) (a : Addr af) : Prop where
  shifts : ∀ offset p, 1 ≤ p → p ≤ inetSize af → ∃ b,
    inetShiftAt place a offset p = .ok (some b) ∧
      (b.toNat : ℤ) = (a.toNat + offset * 2 ^ (inetSize af - p)) % 2 ^ inetSize af
  add : ∀ o₁ o₂ p, 1 ≤ p → p ≤ inetSize af → ∃ b, inetShiftAt place a o₁ p = .ok (some b) ∧
    inetShiftAt place b o₂ p = inetShiftAt place a (o₁ + o₂) p
  neg : ∀ offset p, 1 ≤ p → p ≤ inetSize af → ∃ b, inetShiftAt place a offset p = .ok (some b) ∧
    inetShiftAt place b (-offset) p = .ok (some a)
  low : ∀ offset p b, 1 ≤ p → p ≤ inetSize af → inetShiftAt place a offset p = .ok (some b) →
    b.toNat % 2 ^ (inetSize af - p) = a.toNat % 2 ^ (inetSize af - p)
  rejects : ∀ offset p, inetSize af < p → inetShiftAt place a offset p = .ok none

theorem shiftExact_of_fits (h : place.Fits af) (a : Addr af) : ShiftExact place a where
  shifts offset p hp hp' := by
    refine ⟨_, (inetShiftAt_of_fits h a offset hp).trans (congrArg _ (inetShift_eq a offset hp')),
      ?_⟩
    rw [Addr.toNat_ofNat_translate, cast_translate (by positivity)]
    push_cast
    rfl
  add o₁ o₂ p hp hp' := by
    have hadd := inetShift_add a o₁ o₂ hp'
    rw [inetShift_eq a o₁ hp', Option.bind_some] at hadd
    refine ⟨_, (inetShiftAt_of_fits h a o₁ hp).trans (congrArg _ (inetShift_eq a o₁ hp')), ?_⟩
    rw [inetShiftAt_of_fits h _ o₂ hp, inetShiftAt_of_fits h a _ hp, hadd]
  neg offset p hp hp' := by
    have hneg := inetShift_add a offset (-offset) hp'
    rw [inetShift_eq a offset hp', Option.bind_some, add_neg_cancel, inetShift_zero a hp'] at hneg
    refine ⟨_, (inetShiftAt_of_fits h a offset hp).trans
      (congrArg _ (inetShift_eq a offset hp')), ?_⟩
    rw [inetShiftAt_of_fits h _ _ hp, hneg]
  low _ _ _ _ _ hshift := toNat_mod_of_inetShift (inetShift_of_inetShiftAt hshift)
  rejects offset p hp := inetShiftAt_of_lt place a offset hp

theorem ShiftExact.fits (h : ShiftExact place a) : place.Fits af := by
  by_contra hfits
  have hsize : 1 ≤ inetSize af := by cases af <;> decide
  obtain ⟨b, hb, -⟩ := h.shifts 1 1 (Nat.le_refl 1) hsize
  rw [inetShiftAt_misaligned hfits a 1 (Nat.le_refl 1) hsize] at hb
  cases hb

/-- **`inet_shift`** is exact at every place of an IPv4 address, and at the places of an IPv6
address that are multiples of 16. -/
theorem shiftExact_iff (place : Place) (a : Addr af) :
    ShiftExact place a ↔ af = .inet ∨ 16 ∣ place.loc :=
  ⟨ShiftExact.fits, fun h => shiftExact_of_fits h a⟩

/-- The network of a chain stands 8 bytes behind the start of its structure. -/
theorem not_shiftExact : ¬ ∀ (af : Af) (place : Place) (a : Addr af), ShiftExact place a :=
  fun h => absurd (h .inet6 ⟨4104, by decide⟩ (Addr.any .inet6)).fits (by decide)

end Rdnstun
