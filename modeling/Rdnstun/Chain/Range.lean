import Rdnstun.Chain.Ttl

/-!
# Ranges of addresses

* `rangeSize`, `consecutive`: the number of addresses of a range and the addresses, by their values.
* `span_tail32`, `rangeAddrs_eq_consecutive`: with equal leading bits these are what the parser
  computes on the last 32 bits.
* `RangeExact`: a range that fits is appended, a range that does not fails with error 3, and the
  leading bits differ in ranges of 256 addresses on only.
* **`rangeExact_iff`**: this is so exactly when the sum of the guard does not wrap and, where the
  leading bits differ, the range has as many addresses.
-/

namespace Rdnstun

open Radix Run

variable {af : Af} {env : Env af} {s : List Char} {p : Parse af} {token : List Char}
  {first last : Addr af} {j : ℕ}

/-- The number of addresses from `first` to `last`, in either direction. -/
def rangeSize (first last : Addr af) : ℕ :=
  max first.toNat last.toNat - min first.toNat last.toNat + 1

/-- The addresses from `first` to `last`, in either direction. -/
def consecutive (first last : Addr af) : List (Addr af) :=
  (List.range (rangeSize first last)).map fun j =>
    Addr.ofNat af (if first.toNat < last.toNat then first.toNat + j else first.toNat - j)

/-- What the parser does with the token of a range: it appends all its addresses, with the current
TTL and MTU, if they fit, else it fails with error 3; the leading bits of the two ends differ only
if the range is too large for any chain. -/
structure RangeExact (env : Env af) (p : Parse af) (token : List Char) (first last : Addr af) :
    Prop where
  accepts : p.i + rangeSize first last < MAXTTL →
    ∃ p', step env p token = .ok p' ∧ Appends p.defaults p' (consecutive first last)
  rejects : MAXTTL ≤ p.i + rangeSize first last → step env p token = .error (.errnum 3)
  heads : head96 first ≠ head96 last → 256 ≤ rangeSize first last

/-! ## The last 32 bits -/

theorem toNat_eq_head96 (addr : Addr af) :
    addr.toNat = val (head96 addr) * 2 ^ 32 + (tail32 addr).toNat := by
  have hlt := (tail32 addr).toNat_lt
  rw [Addr.toNat, bytes_eq_head96, val_append, val_bytes, length_bytes,
    Nat.mod_eq_of_lt (show (tail32 addr).toNat < 256 ^ 4 by omega)]
  norm_num

theorem span_tail32 (h : head96 first = head96 last) :
    span (tail32 first) (tail32 last) = rangeSize first last := by
  rw [span, rangeSize, toNat_eq_head96 first, toNat_eq_head96 last, h]
  omega

theorem lt_iff_tail32 (h : head96 first = head96 last) :
    first.toNat < last.toNat ↔ tail32 first < tail32 last := by
  rw [UInt32.lt_iff_toNat_lt, toNat_eq_head96 first, toNat_eq_head96 last, h]
  omega

/-- The last 32 bits of the `j`-th address, upwards or downwards. -/
theorem toNat_tail_range {start stop : UInt32} (hj : j < span start stop) :
    (start + UInt32.ofNat j * if stop > start then 1 else -1).toNat =
      if start < stop then start.toNat + j else start.toNat - j := by
  have h₁ := start.toNat_lt
  have h₂ := stop.toNat_lt
  have hneg : (-1 : UInt32).toNat = 2 ^ 32 - 1 := rfl
  unfold span at hj
  by_cases h : start < stop
  · have hlt := UInt32.lt_iff_toNat_lt.mp h
    rw [if_pos h, if_pos h, mul_one, UInt32.toNat_add, UInt32.toNat_ofNat']
    omega
  · have hle := UInt32.le_iff_toNat_le.mp (UInt32.not_lt.mp h)
    rw [if_neg h, if_neg h, UInt32.toNat_add, UInt32.toNat_mul, UInt32.toNat_ofNat', hneg]
    omega

theorem toNat_rangeAddr (h : head96 first = head96 last) (hj : j < rangeSize first last) :
    (rangeAddr first (tail32 first) (tail32 last) j).toNat =
      if first.toNat < last.toNat then first.toNat + j else first.toNat - j := by
  have hspan : j < span (tail32 first) (tail32 last) := by rwa [span_tail32 h]
  have htail := toNat_tail_range hspan
  have hlt :=
    (tail32 first + UInt32.ofNat j * if tail32 last > tail32 first then 1 else -1).toNat_lt
  have hj' := hspan
  unfold span at hj'
  rw [rangeAddr, Addr.toNat, val_append, store32_htonl, length_bytes, val_bytes,
    Nat.mod_eq_of_lt (show _ < 256 ^ 4 from hlt), htail]
  simp only [lt_iff_tail32 h]
  have hfirst := toNat_eq_head96 first
  split_ifs with hdir
  · omega
  · have hle := UInt32.le_iff_toNat_le.mp (UInt32.not_lt.mp hdir)
    omega

/-- **The addresses of a range** with equal leading bits, unless their number wraps. -/
theorem rangeAddrs_eq_consecutive (hne : first ≠ last) (h : head96 first = head96 last)
    (hsize : rangeSize first last < 2 ^ 32) : rangeAddrs first last = consecutive first last := by
  rw [rangeAddrs, if_neg hne, toNat_nAddr, span_tail32 h, Nat.mod_eq_of_lt hsize, consecutive]
  refine List.map_congr_left fun j hj => ?_
  have hnat := toNat_rangeAddr h (List.mem_range.mp hj)
  rw [← Addr.toNat_inj, Addr.toNat_ofNat, ← hnat, Nat.mod_eq_of_lt (Addr.toNat_lt _)]

/-! ## The token of a range -/

/-- The token of a range is a step of `initRange`, the first address being stored. -/
theorem step_range (hopt : strchr token '=' = none) (hok : p.ttlOk) (hi : p.i < MAXTTL)
    (hends : rangeEnds af token = some (first, last)) :
    step env p token = initRange
      { p.defaults with slots := Function.update p.defaults.slots p.i (p.defaults.host first) }
      first last := by
  have hstore (slots : ℕ → FakeHost af) (host : FakeHost af) :
      store slots p.defaults.i host = .ok (Function.update slots p.i host) := by
    rw [Parse.i_defaults]
    exact if_pos hi
  have hcheck : ¬ (p.i ≠ 0 ∧ ¬ p.i < p.ttl) := by
    unfold Parse.ttlOk at hok
    omega
  unfold rangeEnds at hends
  rw [step, hopt]
  dsimp only
  rw [initAddress, if_neg hcheck, initHosts]
  dsimp only
  cases hdash : strchr token '-' with
  | none => rw [hdash] at hends; cases hends
  | some parts =>
    obtain ⟨a, b⟩ := parts
    rw [hdash] at hends
    dsimp only [Option.map_some, Option.getD_some] at hends ⊢
    cases hfirst : inetPton af a with
    | none => rw [hfirst] at hends; cases hends
    | some f =>
      cases hlast : inetPton af b with
      | none => rw [hfirst, hlast] at hends; cases hends
      | some l =>
        rw [hfirst, hlast] at hends
        cases hends
        dsimp only
        rw [hstore]

theorem initRange_of_head_ne (hne : first ≠ last) (h : head96 first ≠ head96 last) :
    initRange p first last = .error (.errnum 3) := by
  rw [initRange, if_neg hne, if_pos h]

theorem initRange_of_not_fits (hne : first ≠ last)
    (h : rangeFits p.i (tail32 first) (tail32 last) = false) :
    initRange p first last = .error (.errnum 3) := by
  rw [initRange, if_neg hne]
  dsimp only
  rw [h]
  exact ite_self _

theorem exists_overrun_of_fill {host : ℕ → FakeHost af} {i count : ℕ} {slots : ℕ → FakeHost af}
    {e : InitError} (h : fill host i count j slots = .error e) : ∃ k, e = .overrun k := by
  induction count generalizing j slots with
  | zero => cases h
  | succ count ih =>
    rw [fill, store] at h
    split_ifs at h with hlt
    · exact ih h
    · cases h
      exact ⟨_, rfl⟩

theorem initRange_of_lt (hne : first ≠ last) (h : head96 first = head96 last)
    (hfit : p.i + rangeSize first last < MAXTTL) : ∃ p', initRange p first last = .ok p' := by
  have hmax : MAXTTL = 255 := rfl
  have hsize : rangeSize first last = (rangeSize first last - 1) + 1 := by
    unfold rangeSize
    omega
  have hfits : rangeFits p.i (tail32 first) (tail32 last) = true :=
    (rangeFits_iff (by omega)).mpr (.inl (by rwa [span_tail32 h]))
  rw [initRange, if_neg hne, if_neg (not_not.mpr h)]
  dsimp only
  rw [if_pos hfits, toNat_nAddr, span_tail32 h, Nat.mod_eq_of_lt (by omega),
    fill_ok (by omega)]
  exact ⟨_, rfl⟩

theorem initRange_of_fits (hne : first ≠ last) (h : head96 first = head96 last)
    (hfits : rangeFits p.i (tail32 first) (tail32 last) = true) :
    initRange p first last ≠ .error (.errnum 3) := by
  intro herr
  rw [initRange, if_neg hne, if_neg (not_not.mpr h)] at herr
  dsimp only at herr
  rw [if_pos hfits] at herr
  cases hfill : fill _ _ _ _ _ with
  | ok slots => rw [hfill] at herr; cases herr
  | error e =>
    rw [hfill] at herr
    obtain ⟨k, rfl⟩ := exists_overrun_of_fill hfill
    cases herr

/-- **A range** that ends within the slots appends all its addresses. -/
theorem step_range_ok (hopt : strchr token '=' = none) (hok : p.ttlOk) (hi : p.i < MAXTTL)
    (hends : rangeEnds af token = some (first, last)) (hne : first ≠ last)
    (h : head96 first = head96 last) (hfit : p.i + rangeSize first last < MAXTTL) :
    ∃ p', step env p token = .ok p' ∧ Appends p.defaults p' (consecutive first last) := by
  have hmax : MAXTTL = 255 := rfl
  obtain ⟨p', hp'⟩ := initRange_of_lt (p := { p.defaults with
    slots := Function.update p.defaults.slots p.i (p.defaults.host first) }) hne h
    (by rwa [Parse.i_defaults])
  have hstep : step env p token = .ok p' := (step_range hopt hok hi hends).trans hp'
  refine ⟨p', hstep, ?_⟩
  rcases step_ok hstep with ⟨hsome, -⟩ | ⟨-, -, -, happ⟩
  · rw [hopt] at hsome
    cases hsome
  · rw [← rangeAddrs_eq_consecutive hne h (by omega), ← tokenAddrs_of_rangeEnds hends]
    exact happ

/-- **A range** is expanded exactly, or rejected for its size, exactly when the sum of the guard
does not wrap and leading bits that differ make it as large as any chain. -/
theorem rangeExact_iff (hvisit : Visits (step env) (Parse.start env) (tokens s) p token)
    (hopt : strchr token '=' = none) (hok : p.ttlOk)
    (hends : rangeEnds af token = some (first, last)) (hne : first ≠ last) :
    RangeExact env p token first last ↔
      (head96 first = head96 last → p.i + rangeSize first last < 2 ^ 32) ∧
        (head96 first ≠ head96 last → 256 ≤ rangeSize first last) := by
  have hmax : MAXTTL = 255 := rfl
  have hi : p.i < MAXTTL := Parse.i_lt_of_ttlOk (visits_ttl_le hvisit) hok
  have hstep : step env p token = _ := step_range hopt hok hi hends
  constructor
  · intro h
    refine ⟨fun hhead => ?_, h.heads⟩
    by_contra hwrap
    -- the guard lets a sum that wraps through
    have hfits : rangeFits p.i (tail32 first) (tail32 last) = true :=
      (rangeFits_iff hi).mpr (.inr (by rw [span_tail32 hhead]; omega))
    refine initRange_of_fits hne hhead ?_ (hstep.symm.trans (h.rejects (by omega)))
    rwa [Parse.i_defaults]
  · rintro ⟨hwrap, hheads⟩
    by_cases hhead : head96 first = head96 last
    · have hsize := hwrap hhead
      refine ⟨step_range_ok hopt hok hi hends hne hhead, fun hlarge => ?_, hheads⟩
      rw [hstep]
      refine initRange_of_not_fits hne (Bool.eq_false_iff.mpr fun hfits => ?_)
      rw [Parse.i_defaults] at hfits
      have hspan := (rangeFits_iff hi).mp hfits
      rw [span_tail32 hhead] at hspan
      omega
    · have hlarge := hheads hhead
      refine ⟨fun hfit => ?_, fun _ => ?_, hheads⟩
      · omega
      · rw [hstep]
        exact initRange_of_head_ne hne hhead

/-- A range of three addresses. -/
theorem rangeExact_three : RangeExact (Env.zeroed .inet) (Parse.start (Env.zeroed .inet))
    "10.0.0.1-10.0.0.3".toList (.v4 10 0 0 1) (.v4 10 0 0 3) :=
  (rangeExact_iff (s := "10.0.0.1-10.0.0.3".toList)
    (visits_cons.mpr (.inl ⟨rfl, rfl⟩)) (by decide) (.inl rfl) (by decide) (by decide)).mpr
      (by decide)

/-- Three IPv6 addresses across a multiple of `2 ^ 32`. -/
theorem not_rangeExact : ¬ ∀ (af : Af) (env : Env af) (s token : List Char) (p : Parse af)
    (first last : Addr af), Visits (step env) (Parse.start env) (tokens s) p token →
      strchr token '=' = none → p.ttlOk → rangeEnds af token = some (first, last) →
        first ≠ last → RangeExact env p token first last := by
  intro h
  have hexact := h .inet6 (Env.zeroed .inet6) "::ffff:ffff-::1:0:1".toList
    "::ffff:ffff-::1:0:1".toList (Parse.start (Env.zeroed .inet6))
    (.ofNat .inet6 (2 ^ 32 - 1)) (.ofNat .inet6 (2 ^ 32 + 1)) (visits_cons.mpr (.inl ⟨rfl, rfl⟩))
    (by decide) (.inl rfl) (by decide) (by decide)
  exact absurd (hexact.heads (by decide)) (by decide)

end Rdnstun
