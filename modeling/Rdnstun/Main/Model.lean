import Rdnstun.Chain.Parse

/-!
# The chain options of the command line

The model of `main` as far as it builds the two arrays of chains: the options `-4`, `-6` and `-E`.

* `Dup`, `parseDup`: the specification of a duplication.
* `dupAt`, `dupLoop`, `duplicate`: the loop of the case `'E'`. Its `int` computations fail when
  they overflow.
* `ArrayPlace`, `duplicateAt`: the same at the places of the array and of the buffers.
* `Main`, `Main.step`, `Main.run`.
-/

namespace Rdnstun

open Run

variable {af : Af}

/-- `INT_MAX`. -/
abbrev INT_MAX : ℕ := 2147483647

/-- `SHRT_MAX`. -/
abbrev SHRT_MAX : ℕ := 32767

/-- How a duplication fails: with an error number, or by an `int` that overflows. -/
inductive DupError where
  | errnum (n : ℕ)
  | overflow
  deriving DecidableEq

/-! ## Duplication specifications -/

/-- The numbers of `<step>/<prefix>,<n>`, with the ranges they are read in. -/
structure Dup (af : Af) where
  step : ℕ
  prefixLen : ℕ
  n : ℕ
  one_le_step : 1 ≤ step
  step_le : step ≤ SHRT_MAX
  one_le_prefixLen : 1 ≤ prefixLen
  prefixLen_le : prefixLen ≤ inetSize af
  n_le : n ≤ INT_MAX

/-- The specification of the numbers that `argtoi` accepted. -/
def Dup.ofInts (step : {n : ℤ // 1 ≤ n ∧ n ≤ SHRT_MAX})
    (prefixLen : {n : ℤ // 1 ≤ n ∧ n ≤ inetSize af}) (n : {n : ℤ // 0 ≤ n ∧ n ≤ INT_MAX}) :
    Dup af where
  step := step.1.toNat
  prefixLen := prefixLen.1.toNat
  n := n.1.toNat
  one_le_step := by have := step.2; omega
  step_le := by have := step.2; omega
  one_le_prefixLen := by have := prefixLen.2; omega
  prefixLen_le := by have := prefixLen.2; omega
  n_le := by have := n.2; omega

/-- The numbers of a specification, the first `/` and the first `,` having become terminators. -/
def parseDup (af : Af) (optarg : List Char) : Option (Dup af) :=
  match strchr optarg '/', strchr optarg ',' with
  | some (beforeSlash, afterSlash), some (beforeComma, afterComma) =>
    let stepText := beforeSlash.takeWhile (· != ',')
    let prefixText := if ',' ∈ beforeSlash then afterSlash else afterSlash.takeWhile (· != ',')
    let nText := if '/' ∈ beforeComma then afterComma else afterComma.takeWhile (· != '/')
    match argtoi stepText 1 SHRT_MAX, argtoi prefixText 1 (inetSize af),
      argtoi nText 0 INT_MAX with
    | some step, some prefixLen, some n => some (.ofInts step prefixLen n)
    | _, _, _ => none
  | _, _ => none

/-! ## The loop -/

/-- One round of the loop: a copy of the base chain, shifted by the `int` product `step * i`. The
result of the shift is not looked at. -/
def dupAt (base : HostChain af) (step prefixLen i : ℕ) : Except DupError (HostChain af) :=
  let self := base.copy
  if step * i ≤ INT_MAX then
    match self.shift (step * i : ℕ) prefixLen with
    | .error _ => .ok self
    | .ok self => .ok self
  else .error .overflow

/-- The loop, from `i` on, over the array of chains. -/
def dupLoop (base : HostChain af) (step prefixLen : ℕ) :
    ℕ → ℕ → List (HostChain af) → Except DupError (List (HostChain af))
  | 0, _, chains => .ok chains
  | count + 1, i, chains =>
    match dupAt base step prefixLen i with
    | .error e => .error e
    | .ok self => dupLoop base step prefixLen count (i + 1) (chains ++ [self])

/-- The case `'E'` wherever its accesses are in order. The counter of the loop is incremented once
more after the last round. -/
def duplicate (chains : List (HostChain af)) (optarg : List Char) :
    Except DupError (List (HostChain af)) :=
  match chains.getLast? with
  | none => .error (.errnum 1)
  | some base =>
    match parseDup af optarg with
    | none => .error (.errnum 2)
    | some d =>
      if base.prefixLen < d.prefixLen then .error (.errnum 3)
      else
        match dupLoop base d.step d.prefixLen d.n 1 chains with
        | .error e => .error e
        | .ok chains => if d.n = INT_MAX then .error .overflow else .ok chains

/-! ## Places -/

/-- The places of an array of chains and of their buffers. Allocated memory is aligned for every
type, to 16 bytes. -/
structure ArrayPlace where
  self : ℕ
  buf : ℕ → ℕ
  self_dvd : 16 ∣ self
  buf_dvd : ∀ k, 16 ∣ buf k

/-- `sizeof(struct HostChain)`. -/
abbrev sizeofHostChain : ℕ := 32

/-- The places of the `k`-th chain. -/
def ArrayPlace.chain (place : ArrayPlace) (k : ℕ) : ChainPlace where
  self := place.self + sizeofHostChain * k
  buf := place.buf k
  self_dvd := by
    have := place.self_dvd
    show 8 ∣ place.self + 32 * k
    omega
  buf_dvd := by have := place.buf_dvd k; omega

/-- One round of the loop, for a chain at its places. -/
def dupRoundAt (place : ChainPlace) (base : HostChain af) (step prefixLen i : ℕ) :
    Except Undefined (HostChain af) :=
  let self := base.copy
  if step * i ≤ INT_MAX then
    match self.shiftAt place (step * i : ℕ) prefixLen with
    | .error e => .error e
    | .ok (.error _) => .ok self
    | .ok (.ok self) => .ok self
  else .error .overflow

/-- The loop, from `i` on; the chain of a round is put behind the others. -/
def dupLoopAt (place : ArrayPlace) (base : HostChain af) (step prefixLen : ℕ) :
    ℕ → ℕ → List (HostChain af) → Except Undefined (List (HostChain af))
  | 0, _, chains => .ok chains
  | count + 1, i, chains =>
    match dupRoundAt (place.chain chains.length) base step prefixLen i with
    | .error e => .error e
    | .ok self => dupLoopAt place base step prefixLen count (i + 1) (chains ++ [self])

/-- The case `'E'` on an array at its places, with its error numbers. -/
def duplicateAt (place : ArrayPlace) (chains : List (HostChain af)) (optarg : List Char) :
    Except Undefined (Except ℕ (List (HostChain af))) :=
  match chains.getLast? with
  | none => .ok (.error 1)
  | some base =>
    match parseDup af optarg with
    | none => .ok (.error 2)
    | some d =>
      if base.prefixLen < d.prefixLen then .ok (.error 3)
      else
        match dupLoopAt place base d.step d.prefixLen d.n 1 chains with
        | .error e => .error e
        | .ok chains => if d.n = INT_MAX then .error .overflow else .ok (.ok chains)

/-! ## Options -/

/-- The options that build the arrays; `-4` and `-6` come with what `HostChain_init` finds. -/
inductive Opt where
  | chain (af : Af) (env : Env af) (s : List Char)
  | dup (optarg : List Char)

inductive MainError where
  | chain (e : InitError)
  | duplicate (e : DupError)
  deriving DecidableEq

/-- `v4_chains`, `v6_chains` and `last_chain_v6`. -/
structure Main where
  chains : (af : Af) → List (HostChain af)
  last : Af

def Main.start : Main := ⟨fun _ => [], .inet⟩

/-- One option. -/
def Main.step (m : Main) : Opt → Except MainError Main
  | .chain af env s =>
    match HostChain.init env s with
    | .error e => .error (.chain e)
    | .ok c => .ok ⟨Function.update m.chains af (m.chains af ++ [c]), af⟩
  | .dup optarg =>
    match duplicate (m.chains m.last) optarg with
    | .error e => .error (.duplicate e)
    | .ok chains => .ok { m with chains := Function.update m.chains m.last chains }

/-- All options. -/
def Main.run (opts : List Opt) : Except MainError Main := Run.run Main.step Main.start opts

end Rdnstun
