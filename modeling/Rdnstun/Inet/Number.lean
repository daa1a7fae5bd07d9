import Rdnstun.Inet.Pton

/-!
# Numbers in arguments

* `IsNumeral`: a text that is a decimal numeral and nothing else, and its value.
* `ReadsAs`: the value of the numeral that a text starts with.
* `strtol_append`: `strtol` reads a numeral to its end; `strtol_of_readsAs`: its value for any text.
* `argtoi_eq_some`: `argtoi` accepts whatever `strtol` reads, converted to `int`, within the bounds.
* **`argtoi_strict_iff`**: it accepts the numerals within the bounds, and these only, exactly when
  the text is the numeral of an `int` or starts with no numeral that is taken for one within the
  bounds.
-/

namespace Rdnstun

variable {s ws digits rest : List Char} {v min max : ℤ} {c : Char}

/-- The text is white space, a sign that may be missing, and at least one digit; `v` is its
value. -/
def IsNumeral (s : List Char) (v : ℤ) : Prop :=
  ∃ ws sign digits, s = ws ++ (sign ++ digits) ∧ (∀ c ∈ ws, isspace c = true) ∧ digits ≠ [] ∧
    (∀ c ∈ digits, isdigit c = true) ∧
    ((sign = [] ∨ sign = ['+']) ∧ v = decimal digits ∨ sign = ['-'] ∧ v = -(decimal digits : ℤ))

/-- `v` is the value of the longest numeral at the start of the text, or zero if it starts with
none. -/
def ReadsAs (s : List Char) (v : ℤ) : Prop :=
  (∃ numeral rest, s = numeral ++ rest ∧ IsNumeral numeral v ∧ rest.head?.any isdigit = false) ∨
    v = 0 ∧ ∀ numeral rest w, s = numeral ++ rest → ¬ IsNumeral numeral w

/-- A `long` for an integer: the nearest one. -/
def saturate (v : ℤ) : ℤ := Max.max (-2 ^ 63) (Min.min (2 ^ 63 - 1) v)

/-- `argtoi` accepts the numerals within the bounds, with their values, and no other text. -/
def ArgtoiStrict (s : List Char) (min max : ℤ) : Prop :=
  ∀ v, (argtoi s min max).map Subtype.val = some v ↔ IsNumeral s v ∧ min ≤ v ∧ v ≤ max

/-! ## `strtol` -/

theorem not_isspace_of_isdigit (h : isdigit c = true) : isspace c = false := by
  simp only [isdigit, isspace, Bool.and_eq_true, decide_eq_true_eq, Bool.or_eq_false_iff,
    Bool.and_eq_false_iff, decide_eq_false_iff_not] at h ⊢
  omega

theorem ne_sign_of_isdigit (h : isdigit c = true) : c ≠ '-' ∧ c ≠ '+' := by
  refine ⟨?_, ?_⟩ <;> rintro rfl <;> simp [isdigit] at h

theorem dropWhile_isspace_append (hws : ∀ c ∈ ws, isspace c = true) (t : List Char) :
    (ws ++ t).dropWhile isspace = t.dropWhile isspace := List.dropWhile_append_of_pos hws

theorem takeWhile_isdigit_append (hdigits : ∀ c ∈ digits, isdigit c = true)
    (hrest : rest.head?.any isdigit = false) : (digits ++ rest).takeWhile isdigit = digits := by
  rw [List.takeWhile_append_of_pos hdigits]
  obtain _ | ⟨c, rest⟩ := rest
  · exact List.append_nil digits
  · rw [List.takeWhile_cons_of_neg (by simpa using hrest), List.append_nil]

theorem dropWhile_isdigit_append (hdigits : ∀ c ∈ digits, isdigit c = true)
    (hrest : rest.head?.any isdigit = false) : (digits ++ rest).dropWhile isdigit = rest := by
  rw [List.dropWhile_append_of_pos hdigits]
  obtain _ | ⟨c, rest⟩ := rest
  · rfl
  · exact List.dropWhile_cons_of_neg (by simpa using hrest)

/-- **A numeral** is read to its end. -/
theorem strtol_append (h : IsNumeral s v) (hrest : rest.head?.any isdigit = false) :
    strtol (s ++ rest) = (saturate v, rest) := by
  obtain ⟨ws, sign, digits, rfl, hws, hne, hdigits, hsign⟩ := h
  have htake := takeWhile_isdigit_append hdigits hrest
  have hdrop := dropWhile_isdigit_append hdigits hrest
  unfold strtol
  rw [List.append_assoc, dropWhile_isspace_append hws, List.append_assoc]
  rcases hsign with ⟨rfl | rfl, rfl⟩ | ⟨rfl, rfl⟩
  · obtain _ | ⟨d, digits⟩ := digits
    · exact absurd rfl hne
    have hd := hdigits d List.mem_cons_self
    obtain ⟨hminus, hplus⟩ := ne_sign_of_isdigit hd
    simp only [List.cons_append] at htake hdrop
    simp [not_isspace_of_isdigit hd, hminus, hplus, htake, hdrop, saturate]
  · simp [isspace, htake, hdrop, hne, saturate]
  · simp [isspace, htake, hdrop, hne, saturate]

theorem strtol_of_isNumeral (h : IsNumeral s v) : strtol s = (saturate v, []) := by
  have hread : strtol (s ++ []) = (saturate v, []) := strtol_append h rfl
  rwa [List.append_nil] at hread

theorem head?_dropWhile_isdigit (l : List Char) :
    (l.dropWhile isdigit).head?.any isdigit = false := by
  have h := List.head?_dropWhile_not isdigit l
  cases hd : (l.dropWhile isdigit).head? with
  | none => rfl
  | some c => simpa [hd] using h

/-- The text behind what `strtol` reads does not start with a digit. -/
theorem strtol_rest (s : List Char) : (strtol s).2.head?.any isdigit = false := by
  unfold strtol
  dsimp only
  generalize hdigits : (if (s.dropWhile isspace).head? = some '-' ∨
    (s.dropWhile isspace).head? = some '+' then (s.dropWhile isspace).tail
    else s.dropWhile isspace) = digits
  by_cases hnone : digits.takeWhile isdigit = []
  swap
  · rw [if_neg hnone]
    exact head?_dropWhile_isdigit digits
  rw [if_pos hnone]
  obtain _ | ⟨c, l⟩ := s
  · rfl
  show isdigit c = false
  by_contra hc
  -- a digit in front would have been read
  have hdigit : isdigit c = true := by simpa using hc
  obtain ⟨hminus, hplus⟩ := ne_sign_of_isdigit hdigit
  rw [← hdigits] at hnone
  simp [not_isspace_of_isdigit hdigit, hminus, hplus, hdigit] at hnone

/-- The text starts with a numeral, or nothing is read. -/
theorem strtol_cases (s : List Char) :
    (∃ numeral rest v, s = numeral ++ rest ∧ IsNumeral numeral v ∧
      rest.head?.any isdigit = false) ∨ strtol s = (0, s) := by
  have hsplit : s.takeWhile isspace ++ s.dropWhile isspace = s := List.takeWhile_append_dropWhile
  have hws : ∀ c ∈ s.takeWhile isspace, isspace c = true := fun c hc => List.mem_takeWhile_imp hc
  unfold strtol
  generalize s.takeWhile isspace = ws at hsplit hws
  generalize s.dropWhile isspace = t at hsplit ⊢
  -- the sign and the text behind it
  obtain ⟨sign, u, rfl, hu, hsign⟩ : ∃ sign u, t = sign ++ u ∧
      (if t.head? = some '-' ∨ t.head? = some '+' then t.tail else t) = u ∧
        (sign = [] ∨ sign = ['+'] ∨ sign = ['-']) := by
    split_ifs with hhead
    · obtain _ | ⟨c, u⟩ := t
      · simp at hhead
      · refine ⟨[c], u, rfl, rfl, ?_⟩
        simp only [List.head?_cons, Option.some_inj] at hhead
        obtain rfl | rfl := hhead <;> simp
    · exact ⟨[], t, rfl, rfl, .inl rfl⟩
  dsimp only
  simp only [hu]
  by_cases hnone : u.takeWhile isdigit = []
  · exact .inr (if_pos hnone)
  have hdigits : ∀ c ∈ u.takeWhile isdigit, isdigit c = true := fun c hc =>
    List.mem_takeWhile_imp hc
  have hvalue : ∃ v : ℤ, (sign = [] ∨ sign = ['+']) ∧ v = decimal (u.takeWhile isdigit) ∨
      sign = ['-'] ∧ v = -(decimal (u.takeWhile isdigit) : ℤ) := by
    rcases hsign with h | h | h
    · exact ⟨_, .inl ⟨.inl h, rfl⟩⟩
    · exact ⟨_, .inl ⟨.inr h, rfl⟩⟩
    · exact ⟨_, .inr ⟨h, rfl⟩⟩
  obtain ⟨v, hv⟩ := hvalue
  refine .inl ⟨ws ++ (sign ++ u.takeWhile isdigit), u.dropWhile isdigit, v, ?_,
    ⟨ws, sign, _, rfl, hws, hnone, hdigits, hv⟩, head?_dropWhile_isdigit u⟩
  rw [← hsplit]
  simp [List.takeWhile_append_dropWhile]

theorem IsNumeral.append_digits (h : IsNumeral s v) (hdigits : ∀ c ∈ digits, isdigit c = true) :
    ∃ w, IsNumeral (s ++ digits) w := by
  obtain ⟨ws, sign, ds, rfl, hws, hne, hds, hsign⟩ := h
  have hall : ∀ c ∈ ds ++ digits, isdigit c = true := fun c hc =>
    (List.mem_append.mp hc).elim (hds c) (hdigits c)
  have hne' : ds ++ digits ≠ [] := List.append_ne_nil_of_left_ne_nil hne _
  rcases hsign with ⟨hsign, -⟩ | ⟨hsign, -⟩
  · exact ⟨_, ws, sign, ds ++ digits, by simp, hws, hne', hall, .inl ⟨hsign, rfl⟩⟩
  · exact ⟨_, ws, sign, ds ++ digits, by simp, hws, hne', hall, .inr ⟨hsign, rfl⟩⟩

theorem exists_readsAs (s : List Char) : ∃ v, ReadsAs s v := by
  by_cases h : ∃ numeral rest v, s = numeral ++ rest ∧ IsNumeral numeral v ∧
      rest.head?.any isdigit = false
  · obtain ⟨numeral, rest, v, h⟩ := h
    exact ⟨v, .inl ⟨numeral, rest, h⟩⟩
  · refine ⟨0, .inr ⟨rfl, fun numeral rest w hs hnum => h ?_⟩⟩
    obtain ⟨v, hv⟩ : ∃ v, IsNumeral (numeral ++ rest.takeWhile isdigit) v :=
      hnum.append_digits fun c hc => List.mem_takeWhile_imp hc
    refine ⟨_, rest.dropWhile isdigit, v, ?_, hv, head?_dropWhile_isdigit rest⟩
    rw [hs, List.append_assoc, List.takeWhile_append_dropWhile]

theorem strtol_of_readsAs (h : ReadsAs s v) : (strtol s).1 = saturate v := by
  rcases h with ⟨numeral, rest, rfl, hnum, hrest⟩ | ⟨rfl, hnone⟩
  · rw [strtol_append hnum hrest]
  · rcases strtol_cases s with ⟨numeral, rest, v, hs, hnum, -⟩ | hread
    · exact absurd hnum (hnone numeral rest v hs)
    · rw [hread]
      rfl

/-! ## `argtoi` -/

theorem argtoi_eq_some : (argtoi s min max).map Subtype.val = some v ↔
    v = (strtol s).1.bmod (2 ^ 32) ∧ min ≤ v ∧ v ≤ max := by
  have hrest := strtol_rest s
  unfold argtoi
  generalize strtol s = read at hrest ⊢
  obtain ⟨value, rest⟩ := read
  dsimp only at hrest ⊢
  simp only [hrest, Bool.false_eq_true, if_false]
  by_cases h : min ≤ value.bmod (2 ^ 32) ∧ value.bmod (2 ^ 32) ≤ max
  · rw [dif_pos h, Option.map_some, Option.some_inj]
    refine ⟨?_, fun hv => hv.1.symm⟩
    rintro rfl
    exact ⟨rfl, h⟩
  · rw [dif_neg h]
    refine iff_of_false (by simp) ?_
    rintro ⟨rfl, hbounds⟩
    exact h hbounds

theorem bmod_eq_self (hmin : -2 ^ 31 ≤ v) (hmax : v < 2 ^ 31) : v.bmod (2 ^ 32) = v :=
  Int.bmod_eq_of_le (by omega) (by omega)

theorem saturate_eq_self (hmin : -2 ^ 31 ≤ v) (hmax : v < 2 ^ 31) : saturate v = v := by
  unfold saturate
  omega

theorem bmod_eq_iff (hmin : -2 ^ 31 ≤ v) (hmax : v < 2 ^ 31) (w : ℤ) :
    v = w.bmod (2 ^ 32) ↔ v ≡ w [ZMOD 2 ^ 32] := by
  constructor
  · rintro rfl
    exact Int.bmod_emod
  · intro hmod
    have hemod : v % ((2 ^ 32 : ℕ) : ℤ) = w % ((2 ^ 32 : ℕ) : ℤ) := hmod
    rw [← Int.emod_bmod w, ← hemod, Int.emod_bmod, bmod_eq_self hmin hmax]

/-- **Strict parsing.** For bounds that are `int`s, `argtoi` accepts the numerals within the bounds
and nothing else exactly when the text is the numeral of an `int`, or no number within the bounds is
congruent, modulo the size of `int`, to the nearest `long` of the numeral it starts with. -/
theorem argtoi_strict_iff (hmin : -2 ^ 31 ≤ min) (hmax : max < 2 ^ 31) :
    ArgtoiStrict s min max ↔
      (∃ v, IsNumeral s v ∧ -2 ^ 31 ≤ v ∧ v < 2 ^ 31) ∨
        ∀ v n, ReadsAs s v → min ≤ n → n ≤ max → ¬ n ≡ saturate v [ZMOD 2 ^ 32] := by
  constructor
  · intro h
    refine or_iff_not_imp_right.mpr fun hread => ?_
    push Not at hread
    obtain ⟨v, n, hv, hle, hge, hmod⟩ := hread
    rw [← strtol_of_readsAs hv] at hmod
    have hn := (bmod_eq_iff (by omega) (by omega) _).mpr hmod
    exact ⟨n, ((h n).mp (argtoi_eq_some.mpr ⟨hn, hle, hge⟩)).1, by omega, by omega⟩
  · rintro (⟨w, hw, hle, hlt⟩ | hread) v
    · have hread := strtol_of_isNumeral hw
      rw [argtoi_eq_some, hread, saturate_eq_self hle hlt, bmod_eq_self hle hlt]
      refine and_congr_left fun hbounds => ⟨?_, fun hv => ?_⟩
      · rintro rfl
        exact hw
      · have hsame := hread.symm.trans (strtol_of_isNumeral hv)
        rw [Prod.mk.injEq, saturate_eq_self hle hlt,
          saturate_eq_self (by omega) (by omega)] at hsame
        exact hsame.1.symm
    · obtain ⟨u, hu⟩ := exists_readsAs s
      rw [argtoi_eq_some]
      refine and_congr_left fun hbounds => iff_of_false (fun hv => ?_) fun hv => ?_
      · refine hread u v hu hbounds.1 hbounds.2 ?_
        rw [← strtol_of_readsAs hu]
        exact (bmod_eq_iff (by omega) (by omega) _).mp hv
      · refine hread u v hu hbounds.1 hbounds.2 ?_
        rw [← strtol_of_readsAs hu, strtol_of_isNumeral hv, saturate_eq_self (by omega) (by omega)]

theorem argtoiStrict_ttl : ArgtoiStrict "64".toList 1 255 :=
  (argtoi_strict_iff (by decide) (by decide)).mpr
    (.inl ⟨64, ⟨[], [], ['6', '4'], rfl, by simp, by simp, by simp [isdigit],
      .inl ⟨.inl rfl, rfl⟩⟩, by norm_num, by norm_num⟩)

/-- Text behind the digits is not looked at. -/
theorem not_argtoiStrict : ¬ ∀ (s : List Char) (min max : ℤ), -2 ^ 31 ≤ min → min ≤ max →
    max < 2 ^ 31 → ArgtoiStrict s min max := by
  intro h
  obtain ⟨hnumeral, -⟩ := (h "10abc".toList 1 255 (by decide) (by decide) (by decide) 10).mp
    (argtoi_eq_some.mpr (by decide))
  have hread : (strtol "10abc".toList).2 = "abc".toList := rfl
  rw [strtol_of_isNumeral hnumeral] at hread
  cases hread

end Rdnstun
