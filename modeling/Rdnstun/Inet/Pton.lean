import Rdnstun.Inet.Model

/-!
# Numbers and addresses in text

The functions of the C library that the parsers call, on the text of a C string.

* `strtol`, in base ten with a 64-bit `long`, and `argtoi` of `utils.h` over it.
* `inetPton`: `inet_pton` for the two families.
-/

namespace Rdnstun

/-! ## Numbers -/

/-- `isspace` in the C locale. -/
def isspace (c : Char) : Bool := c.toNat = 32 || (9 ≤ c.toNat && c.toNat ≤ 13)

/-- `isdigit`. -/
def isdigit (c : Char) : Bool := 48 ≤ c.toNat && c.toNat ≤ 57

/-- The value of a string of decimal digits. -/
def decimal (l : List Char) : ℕ := l.foldl (fun n c => 10 * n + (c.toNat - 48)) 0

/-- `strtol(s, &end, 10)`: the value, saturated to a 64-bit `long`, and the text from `end` on. -/
def strtol (s : List Char) : ℤ × List Char :=
  let t := s.dropWhile isspace
  let neg := t.head? = some '-'
  let digits := if neg ∨ t.head? = some '+' then t.tail else t
  let n : ℤ := decimal (digits.takeWhile isdigit)
  if digits.takeWhile isdigit = [] then (0, s)
  else (max (-2 ^ 63) (min (2 ^ 63 - 1) (if neg then -n else n)), digits.dropWhile isdigit)

/-- `argtoi`: the number, converted from `long` to `int`, if it is accepted. -/
def argtoi (s : List Char) (min max : ℤ) : Option {n : ℤ // min ≤ n ∧ n ≤ max} :=
  let (value, rest) := strtol s
  let res := value.bmod (2 ^ 32)
  if h : min ≤ res ∧ res ≤ max then
    if rest.head?.any isdigit then none else some ⟨res, h⟩
  else none

/-! ## Addresses -/

/-- The loop of `inet_pton` for IPv4: the octets before the current one, the current one, whether
a digit of it was seen, the number of octets begun. -/
def pton4Loop : List Char → List UInt8 → ℕ → Bool → ℕ → Option (List UInt8)
  | [], done, tp, _, octets => if octets < 4 then none else some (done ++ [UInt8.ofNat tp])
  | c :: s, done, tp, sawDigit, octets =>
    if isdigit c then
      let new := tp * 10 + (c.toNat - 48)
      if sawDigit ∧ tp = 0 then none
      else if new > 255 then none
      else if sawDigit then pton4Loop s done new true octets
      else if octets + 1 > 4 then none
      else pton4Loop s done new true (octets + 1)
    else if c = '.' ∧ sawDigit then
      if octets = 4 then none else pton4Loop s (done ++ [UInt8.ofNat tp]) 0 false octets
    else none

/-- The octets of an IPv4 address in presentation format. -/
def pton4 (s : List Char) : Option (List UInt8) := pton4Loop s [] 0 false 0

/-- The value of a hexadecimal digit. -/
def hexDigitValue (c : Char) : Option ℕ :=
  let n := c.toNat
  if 48 ≤ n ∧ n ≤ 57 then some (n - 48)
  else if 97 ≤ n ∧ n ≤ 102 then some (n - 87)
  else if 65 ≤ n ∧ n ≤ 70 then some (n - 55)
  else none

/-- The state of the loop of `inet_pton` for IPv6: the text of the current component, the bytes
stored, the position of `::`, the digits seen of the current component, its value. -/
structure Pton6 where
  curtok : List Char
  tp : List UInt8
  colonp : Option ℕ
  xdigitsSeen : ℕ
  val : ℕ

/-- The two bytes of a component. -/
def Pton6.push (p : Pton6) : List UInt8 := p.tp ++ [UInt8.ofNat (p.val / 256), UInt8.ofNat p.val]

/-- The loop of `inet_pton` for IPv6. -/
def pton6Loop : List Char → Pton6 → Option Pton6
  | [], p => some p
  | c :: s, p =>
    match hexDigitValue c with
    | some digit =>
      if p.xdigitsSeen = 4 then none
      else pton6Loop s { p with xdigitsSeen := p.xdigitsSeen + 1, val := p.val * 16 + digit }
    | none =>
      if c = ':' then
        if p.xdigitsSeen = 0 then
          if p.colonp.isSome then none
          else pton6Loop s { p with curtok := s, colonp := some p.tp.length }
        else if s = [] then none
        else if p.tp.length + 2 > 16 then none
        else pton6Loop s { p with curtok := s, tp := p.push, xdigitsSeen := 0, val := 0 }
      else if c = '.' ∧ p.tp.length + 4 ≤ 16 then
        (pton4 p.curtok).map fun octets => { p with tp := p.tp ++ octets, xdigitsSeen := 0 }
      else none

/-- The bytes of an IPv6 address in presentation format. -/
def pton6 (s : List Char) : Option (List UInt8) := do
  -- a leading colon must be the first of two
  let src ← match s with
    | [] => none
    | ':' :: ':' :: t => some (':' :: t)
    | ':' :: _ => none
    | s => some s
  let p ← pton6Loop src ⟨src, [], none, 0, 0⟩
  let tp ← if p.xdigitsSeen = 0 then some p.tp
    else if p.tp.length + 2 > 16 then none
    else some p.push
  match p.colonp with
  | none => some tp
  | some n =>
    if tp.length = 16 then none
    else some (tp.take n ++ List.replicate (16 - tp.length) 0 ++ tp.drop n)

/-- `inet_pton`; `none` is every result but `1`. -/
def inetPton (af : Af) (s : List Char) : Option (Addr af) :=
  (match af with | .inet => pton4 s | .inet6 => pton6 s).bind fun bytes =>
    if h : bytes.length = af.size then some ⟨bytes, h⟩ else none

example : (inetPton .inet "192.168.2.10".toList).map Addr.bytes = some [192, 168, 2, 10] := by
  decide

example : (inetPton .inet6 "3000::f".toList).map Addr.toNat = some (0x3000 * 2 ^ 112 + 15) := by
  decide

example : inetPton .inet "1.2.3.04".toList = none := by decide

end Rdnstun
