import Rdnstun.Inet.Number

/-!
# Texts of numbers and addresses

Texts that the parsers read back. The program has no function that writes them.

* `argtoi_toDigits`: `argtoi` reads the digits of a number.
* `Addr.present`: four decimal octets, or eight groups of four hexadecimal digits.
* **`inetPton_present`**: `inet_pton` reads the address back.
-/

namespace Rdnstun

variable {af : Af} {c : Char}

/-! ## Numbers -/

theorem isdigit_of_mem_toDigits {n : ℕ} (h : c ∈ Nat.toDigits 10 n) : isdigit c = true := by
  have hdigit := Nat.isDigit_of_mem_toDigits (by decide) (by decide) h
  rw [Char.isDigit, Bool.and_eq_true, decide_eq_true_eq, decide_eq_true_eq, ge_iff_le,
    UInt32.le_iff_toNat_le, UInt32.le_iff_toNat_le] at hdigit
  rw [isdigit, Bool.and_eq_true, decide_eq_true_eq, decide_eq_true_eq]
  exact hdigit

theorem isNumeral_toDigits (n : ℕ) : IsNumeral (Nat.toDigits 10 n) n := by
  refine ⟨[], [], Nat.toDigits 10 n, rfl, nofun, Nat.toDigits_ne_nil,
    fun _ => isdigit_of_mem_toDigits, .inl ⟨.inl rfl, ?_⟩⟩
  have hdecimal : decimal (Nat.toDigits 10 n) = n := Nat.ofDigitChars_ten_toDigits
  rw [hdecimal]

/-- **The digits** of a number within the bounds are accepted. -/
theorem argtoi_toDigits {n : ℕ} {min max : ℤ} (hmin : min ≤ n) (hmax : n ≤ max)
    (hlt : max < 2 ^ 31) : argtoi (Nat.toDigits 10 n) min max = some ⟨n, hmin, hmax⟩ := by
  have hread := strtol_of_isNumeral (isNumeral_toDigits n)
  have hsome : (argtoi (Nat.toDigits 10 n) min max).map Subtype.val = some (n : ℤ) := by
    refine argtoi_eq_some.mpr ⟨?_, hmin, hmax⟩
    rw [hread, saturate_eq_self (by omega) (by omega), bmod_eq_self (by omega) (by omega)]
  obtain ⟨v, hv, hval⟩ := Option.map_eq_some_iff.mp hsome
  rw [hv]
  exact congrArg some (Subtype.ext hval)

/-! ## IPv4 -/

theorem pton4Loop_toDigits {n : ℕ} (hn : n < 256) {done : List UInt8} {octets : ℕ}
    (hoctets : octets < 4) (s : List Char) :
    pton4Loop (Nat.toDigits 10 n ++ s) done 0 false octets =
      pton4Loop s done n true (octets + 1) := by
  induction n using Nat.strongRecOn generalizing s with
  | ind n ih =>
    have hdigit (d : ℕ) (hd : d < 10) :
        isdigit d.digitChar = true ∧ d.digitChar.toNat - 48 = d := by
      interval_cases d <;> decide
    by_cases hlt : n < 10
    · obtain ⟨hisdigit, hvalue⟩ := hdigit n hlt
      rw [Nat.toDigits_of_lt_base hlt, List.singleton_append, pton4Loop, if_pos hisdigit, hvalue]
      have hle : ¬ octets + 1 > 4 := by omega
      have hsmall : ¬ n > 255 := by omega
      simp [hle, hsmall]
    · obtain ⟨hisdigit, hvalue⟩ := hdigit (n % 10) (by omega)
      rw [Nat.toDigits_of_base_le (by decide) (by omega), List.append_assoc,
        ih (n / 10) (by omega) (by omega), List.singleton_append, pton4Loop, if_pos hisdigit,
        hvalue]
      have hlead : ¬ n / 10 = 0 := by omega
      have hsum : n / 10 * 10 + n % 10 = n := by omega
      have hsmall : ¬ n > 255 := by omega
      simp [hlead, hsum, hsmall]

/-- The octets that are left are read. -/
theorem pton4Loop_octets (bytes done : List UInt8) (octets : ℕ) (hne : bytes ≠ [])
    (hlen : octets + bytes.length = 4) :
    pton4Loop (['.'].intercalate (bytes.map fun b => Nat.toDigits 10 b.toNat)) done 0 false octets =
      some (done ++ bytes) := by
  induction bytes generalizing done octets with
  | nil => exact absurd rfl hne
  | cons b bytes ih =>
    have hb := b.toNat_lt
    have hlen' : octets + (bytes.length + 1) = 4 := hlen
    cases bytes with
    | nil =>
      have hlast : octets = 3 := by simpa using hlen'
      have hread : pton4Loop (Nat.toDigits 10 b.toNat ++ []) done 0 false octets = _ :=
        pton4Loop_toDigits hb (by omega) []
      rw [List.append_nil] at hread
      rw [List.map_singleton, List.intercalate_singleton, hread, hlast, pton4Loop,
        if_neg (by decide), UInt8.ofNat_toNat]
    | cons b' bytes =>
      have hpos : 0 < (b' :: bytes).length := Nat.succ_pos _
      have hmore : ¬ octets + 1 = 4 := by omega
      have hrest := ih (done ++ [b]) (octets + 1) (List.cons_ne_nil b' bytes) (by omega)
      rw [List.map_cons] at hrest
      rw [List.map_cons, List.map_cons, List.intercalate_cons_cons, List.append_assoc,
        pton4Loop_toDigits hb (by omega), List.singleton_append, pton4Loop, if_neg (by decide),
        if_pos ⟨rfl, rfl⟩, if_neg hmore, UInt8.ofNat_toNat, hrest, List.append_assoc]
      rfl

/-! ## IPv6 -/

/-- Two bytes as four hexadecimal digits. -/
def hexGroup (hi lo : UInt8) : List Char :=
  [(hi.toNat / 16).digitChar, (hi.toNat % 16).digitChar, (lo.toNat / 16).digitChar,
    (lo.toNat % 16).digitChar]

/-- The groups of some bytes. -/
def hexGroups : List UInt8 → List (List Char)
  | hi :: lo :: bytes => hexGroup hi lo :: hexGroups bytes
  | _ => []

theorem hexDigitValue_digitChar {n : ℕ} (h : n < 16) : hexDigitValue n.digitChar = some n := by
  interval_cases n <;> decide

theorem pton6Loop_hexGroup (hi lo : UInt8) (s cur : List Char) (tp : List UInt8)
    (colonp : Option ℕ) :
    pton6Loop (hexGroup hi lo ++ s) ⟨cur, tp, colonp, 0, 0⟩ =
      pton6Loop s ⟨cur, tp, colonp, 4, hi.toNat * 256 + lo.toNat⟩ := by
  have hhi := hi.toNat_lt
  have hlo := lo.toNat_lt
  have h₁ := hexDigitValue_digitChar (n := hi.toNat / 16) (by omega)
  have h₂ := hexDigitValue_digitChar (n := hi.toNat % 16) (by omega)
  have h₃ := hexDigitValue_digitChar (n := lo.toNat / 16) (by omega)
  have h₄ := hexDigitValue_digitChar (n := lo.toNat % 16) (by omega)
  have hval : (((0 * 16 + hi.toNat / 16) * 16 + hi.toNat % 16) * 16 + lo.toNat / 16) * 16 +
      lo.toNat % 16 = hi.toNat * 256 + lo.toNat := by omega
  rw [← hval]
  simp [hexGroup, pton6Loop, h₁, h₂, h₃, h₄]

theorem push_hexGroup (hi lo : UInt8) (cur : List Char) (tp : List UInt8) (colonp : Option ℕ)
    (xdigitsSeen : ℕ) :
    Pton6.push ⟨cur, tp, colonp, xdigitsSeen, hi.toNat * 256 + lo.toNat⟩ = tp ++ [hi, lo] := by
  have hlo := lo.toNat_lt
  have hdiv : (hi.toNat * 256 + lo.toNat) / 256 = hi.toNat := by omega
  have hmod : UInt8.ofNat (hi.toNat * 256 + lo.toNat) = lo := by
    rw [← UInt8.toNat_inj, UInt8.toNat_ofNat']
    omega
  rw [Pton6.push, hdiv, hmod, UInt8.ofNat_toNat]

theorem intercalate_hexGroups (hi lo : UInt8) (bytes : List UInt8) :
    [':'].intercalate (hexGroups (hi :: lo :: bytes)) = (hi.toNat / 16).digitChar ::
      [':'].intercalate ([(hi.toNat % 16).digitChar, (lo.toNat / 16).digitChar,
        (lo.toNat % 16).digitChar] :: hexGroups bytes) := List.intercalate_cons_cons_left

theorem hexGroups_ne_nil {hi lo : UInt8} {bytes : List UInt8} :
    hexGroups (hi :: lo :: bytes) ≠ [] := List.cons_ne_nil _ _

/-- The groups that are left are read; the last one is still to be stored. -/
theorem pton6Loop_hexGroups (bytes tp : List UInt8) (cur : List Char) (n : ℕ)
    (hbytes : bytes.length = 2 * (n + 1)) (hlen : tp.length + bytes.length = 16) :
    ∃ p, pton6Loop ([':'].intercalate (hexGroups bytes)) ⟨cur, tp, none, 0, 0⟩ = some p ∧
      p.xdigitsSeen = 4 ∧ p.colonp = none ∧ p.tp.length + 2 = 16 ∧ p.push = tp ++ bytes := by
  induction n generalizing bytes tp cur with
  | zero =>
    obtain ⟨hi, lo, rfl⟩ := List.length_eq_two.mp hbytes
    refine ⟨⟨cur, tp, none, 4, hi.toNat * 256 + lo.toNat⟩, ?_, rfl, rfl, hlen,
      push_hexGroup hi lo cur tp none 4⟩
    have hread := pton6Loop_hexGroup hi lo [] cur tp none
    rw [List.append_nil] at hread
    rw [hexGroups, hexGroups, List.intercalate_singleton, hread, pton6Loop]
    exact nofun
  | succ n ih =>
    match bytes, hbytes with
    | hi :: lo :: bytes, hbytes =>
      have hrest : bytes.length = 2 * (n + 1) := by simp only [List.length_cons] at hbytes; omega
      have hlen' : (tp ++ [hi, lo]).length + bytes.length = 16 := by
        simp only [List.length_append, List.length_cons, List.length_nil] at hlen ⊢
        omega
      have hroom : ¬ tp.length + 2 > 16 := by
        simp only [List.length_append, List.length_cons, List.length_nil] at hlen'
        omega
      obtain ⟨hi', lo', bytes', rfl⟩ : ∃ hi' lo' bytes', bytes = hi' :: lo' :: bytes' := by
        match bytes, hrest with
        | hi' :: lo' :: bytes', _ => exact ⟨hi', lo', bytes', rfl⟩
      obtain ⟨p, hp, hseen, hcolonp, htp, hpush⟩ := ih (hi' :: lo' :: bytes') (tp ++ [hi, lo])
        ([':'].intercalate (hexGroups (hi' :: lo' :: bytes'))) hrest hlen'
      refine ⟨p, ?_, hseen, hcolonp, htp, by rw [hpush, List.append_assoc]; rfl⟩
      have hne : [':'].intercalate (hexGroups (hi' :: lo' :: bytes')) ≠ [] := by
        rw [intercalate_hexGroups]
        exact List.cons_ne_nil _ _
      rw [← hp, hexGroups, List.intercalate_cons_of_ne_nil hexGroups_ne_nil, List.append_assoc,
        pton6Loop_hexGroup, List.singleton_append, pton6Loop]
      simp [hexDigitValue, hne, hroom, push_hexGroup]

/-- A text of groups that are read, the last one but for being stored. -/
theorem pton6_of_pton6Loop {s : List Char} {p : Pton6} (hs : s.head?.all (· ≠ ':'))
    (hne : s ≠ []) (h : pton6Loop s ⟨s, [], none, 0, 0⟩ = some p) (hseen : p.xdigitsSeen = 4)
    (hcolonp : p.colonp = none) (htp : p.tp.length + 2 = 16) : pton6 s = some p.push := by
  have hroom : ¬ p.tp.length + 2 > 16 := by omega
  unfold pton6
  split
  · exact absurd rfl hne
  · cases hs
  · cases hs
  · simp [h, hseen, hcolonp, hroom]

theorem pton6_hexGroups {bytes : List UInt8} (hlen : bytes.length = 16) :
    pton6 ([':'].intercalate (hexGroups bytes)) = some bytes := by
  obtain ⟨p, hp, hseen, hcolonp, htp, hpush⟩ :=
    pton6Loop_hexGroups bytes [] ([':'].intercalate (hexGroups bytes)) 7 hlen (by simpa using hlen)
  obtain ⟨c, s, hs, hc⟩ : ∃ c s, [':'].intercalate (hexGroups bytes) = c :: s ∧ c ≠ ':' := by
    match bytes, hlen with
    | hi :: lo :: bytes, _ =>
      have hhi := hi.toNat_lt
      have hcolon (n : ℕ) (hn : n < 16) : n.digitChar ≠ ':' := by interval_cases n <;> decide
      exact ⟨_, _, intercalate_hexGroups hi lo bytes, hcolon (hi.toNat / 16) (by omega)⟩
  rw [hs] at hp ⊢
  rw [pton6_of_pton6Loop (by simpa using hc) (List.cons_ne_nil c s) hp hseen hcolonp htp, hpush,
    List.nil_append]

/-! ## Both families -/

/-- An address as text. -/
def Addr.present : {af : Af} → Addr af → List Char
  | .inet, addr => ['.'].intercalate (addr.bytes.map fun b => Nat.toDigits 10 b.toNat)
  | .inet6, addr => [':'].intercalate (hexGroups addr.bytes)

example : (Addr.v4 192 168 2 10).present = "192.168.2.10".toList := by decide

/-- **An address** is read back. -/
theorem inetPton_present (addr : Addr af) : inetPton af addr.present = some addr := by
  unfold inetPton
  cases af with
  | inet =>
    have hlen : addr.bytes.length = 4 := addr.size_eq
    have hne : addr.bytes ≠ [] := fun hnil => by
      rw [hnil] at hlen
      cases hlen
    have hread : pton4 addr.present = some addr.bytes :=
      pton4Loop_octets addr.bytes [] 0 hne (by omega)
    dsimp only
    rw [hread, Option.bind_some, dif_pos addr.size_eq]
  | inet6 =>
    have hread : pton6 addr.present = some addr.bytes := pton6_hexGroups addr.size_eq
    dsimp only
    rw [hread, Option.bind_some, dif_pos addr.size_eq]

/-! ## Characters -/

/-- A character of an address. -/
def inPresent (c : Char) : Bool := (hexDigitValue c).isSome || c == '.' || c == ':'

theorem inPresent_digitChar {n : ℕ} (h : n < 16) : inPresent n.digitChar = true := by
  rw [inPresent, hexDigitValue_digitChar h]
  rfl

theorem inPresent_of_mem_toDigits {n : ℕ} (h : c ∈ Nat.toDigits 10 n) : inPresent c = true := by
  have hdigit := isdigit_of_mem_toDigits h
  rw [isdigit, Bool.and_eq_true, decide_eq_true_eq, decide_eq_true_eq] at hdigit
  rw [inPresent, hexDigitValue, if_pos hdigit]
  rfl

theorem mem_intercalate_singleton {sep : Char} {l : List (List Char)}
    (h : c ∈ [sep].intercalate l) : c = sep ∨ ∃ s ∈ l, c ∈ s := by
  induction l with
  | nil => cases h
  | cons s l ih =>
    obtain _ | ⟨s', l⟩ := l
    · rw [List.intercalate_singleton] at h
      exact .inr ⟨s, List.mem_cons_self, h⟩
    · rw [List.intercalate_cons_cons, List.append_assoc, List.mem_append, List.mem_append,
        List.mem_singleton] at h
      rcases h with h | h | h
      · exact .inr ⟨s, List.mem_cons_self, h⟩
      · exact .inl h
      · exact (ih h).imp_right fun ⟨t, ht, hc⟩ => ⟨t, List.mem_cons_of_mem _ ht, hc⟩

theorem inPresent_of_mem_hexGroups {s : List Char} {bytes : List UInt8}
    (hs : s ∈ hexGroups bytes) (h : c ∈ s) : inPresent c = true := by
  induction bytes using hexGroups.induct with
  | case1 hi lo bytes ih =>
    have hhi := hi.toNat_lt
    have hlo := lo.toNat_lt
    rw [hexGroups] at hs
    rcases List.mem_cons.mp hs with rfl | hs
    · simp only [hexGroup, List.mem_cons, List.not_mem_nil, or_false] at h
      rcases h with rfl | rfl | rfl | rfl <;> exact inPresent_digitChar (by omega)
    · exact ih hs
  | case2 bytes hbytes =>
    rw [hexGroups] at hs
    · cases hs
    · exact hbytes

theorem inPresent_of_mem {addr : Addr af} (h : c ∈ addr.present) : inPresent c = true := by
  cases af with
  | inet =>
    rcases mem_intercalate_singleton h with rfl | ⟨s, hs, hc⟩
    · decide
    · obtain ⟨b, -, rfl⟩ := List.mem_map.mp hs
      exact inPresent_of_mem_toDigits hc
  | inet6 =>
    rcases mem_intercalate_singleton h with rfl | ⟨s, hs, hc⟩
    · decide
    · exact inPresent_of_mem_hexGroups hs hc

end Rdnstun
