import Rdnstun.Chain.Model
import Rdnstun.Inet.Pton
import Rdnstun.Lib.Run

/-!
# Parsing a chain specification

The model of `HostChain_init`. The specification is cut into tokens; each token is one step on
the local variables of the function (`Parse`), and the chain is built from the last state.

* `Env`: what the C standard leaves open. A store beyond the `MAXTTL` slots is the failure
  `overrun`.
* `initOption`: the tokens with a value; `initAddress`: addresses and ranges, over `fill`.
* `step`, `parse`, `init`.
-/

namespace Rdnstun

open Run

variable {af : Af}

/-- `MAXTTL`: the number of slots that `HostChain_init` allocates. -/
abbrev MAXTTL : ℕ := 255

/-- `IP_MAXPACKET`. -/
abbrev IP_MAXPACKET : ℕ := 65535

/-- The least MTU of a host. -/
def minMtu : Af → ℕ
  | .inet => 576
  | .inet6 => 1280

/-- What `HostChain_init` finds: the result of a shift by the width of its operand, the network
in `*self`, the slots that `malloc` returns. -/
structure Env (af : Af) where
  overshift : UInt32
  network : Addr af
  slots : ℕ → FakeHost af

/-- Memory that happens to be zeroed. -/
def Env.zeroed (af : Af) : Env af := ⟨1, Addr.any af, fun _ => FakeHost.null af⟩

/-- How `HostChain_init` fails: with an error number, or by a store beyond the slots. -/
inductive InitError where
  | errnum (n : ℕ)
  | overrun (slot : ℕ)
  deriving DecidableEq

/-- The local variables of `HostChain_init` that outlive a token. -/
structure Parse (af : Af) where
  network : Addr af
  prefixLen : ℕ
  prefixLen_le : prefixLen ≤ inetSize af
  slots : ℕ → FakeHost af
  routeSet : Bool
  ttl : ℕ
  mtu : ℕ
  i : ℕ

/-- The variables before the first token. -/
def Parse.start (env : Env af) : Parse af where
  network := env.network
  prefixLen := 0
  prefixLen_le := zero_le_inetSize af
  slots := env.slots
  routeSet := false
  ttl := 0
  mtu := 0
  i := 0

/-- `strchr`, with the byte found replaced by a terminator: the text before it and the text
after it. -/
def strchr (s : List Char) (c : Char) : Option (List Char × List Char) :=
  match s.dropWhile (· != c) with
  | [] => none
  | _ :: rest => some (s.takeWhile (· != c), rest)

/-- The tokens that `strtok_r` finds between commas. -/
def tokens (s : List Char) : List (List Char) := (s.splitOn ',').filter (· ≠ [])

/-- The route of a `route=` token. -/
def initRoute (env : Env af) (value : List Char) : Option (Addr af × {n : ℕ // n ≤ inetSize af}) :=
  match strchr value '/' with
  | none => none
  | some (network, len) =>
    match inetPton af network with
    | none => none
    | some network =>
      match argtoi len 0 (inetSize af) with
      | none => none
      | some ⟨prefixLen, h⟩ =>
        if inetIsnetwork env.overshift network prefixLen.toNat then
          some (network, ⟨prefixLen.toNat, by omega⟩)
        else none

/-- The greatest MTU that an `mtu=` token may set. -/
def Parse.maxMtu (p : Parse af) : ℕ := if p.mtu = 0 then IP_MAXPACKET else p.mtu

/-- A token with a value. -/
def initOption (env : Env af) (p : Parse af) (token value : List Char) :
    Except InitError (Parse af) :=
  if value = [] ∨ value.head? = some ',' then .error (.errnum 6)
  else if token = "ttl".toList then
    match argtoi value (p.i + 1) MAXTTL with
    | none => .error (.errnum 7)
    | some newTtl => .ok { p with ttl := newTtl.1.toNat }
  else if token = "mtu".toList then
    match argtoi value (minMtu af) p.maxMtu with
    | none => .error (.errnum 8)
    | some newMtu => .ok { p with mtu := newMtu.1.toNat }
  else if token = "route".toList then
    if p.routeSet then .error (.errnum 9)
    else
      match initRoute env value with
      | none => .error (.errnum 10)
      | some (network, prefixLen) =>
        .ok { p with
          network, prefixLen := prefixLen.1, prefixLen_le := prefixLen.2, routeSet := true }
  else .error (.errnum 5)

/-- The default TTL and MTU, filled in at the first address. -/
def Parse.defaults (p : Parse af) : Parse af :=
  if p.i = 0 then
    { p with ttl := if p.ttl = 0 then 64 else p.ttl, mtu := if p.mtu = 0 then 1500 else p.mtu }
  else p

/-- A host with the current TTL and MTU. -/
def Parse.host (p : Parse af) (addr : Addr af) : FakeHost af :=
  ⟨UInt8.ofNat p.ttl, UInt16.ofNat p.mtu, addr⟩

/-- Store a host in a slot. -/
def store (slots : ℕ → FakeHost af) (k : ℕ) (host : FakeHost af) :
    Except InitError (ℕ → FakeHost af) :=
  if k < MAXTTL then .ok (Function.update slots k host) else .error (.overrun k)

/-! ## Ranges -/

/-- The last 32 bits of an address, as a number. -/
def tail32 : {af : Af} → Addr af → UInt32
  | .inet, addr => ntohl (load32 addr.bytes)
  | .inet6, addr => ntohl (load32 (addr.bytes.drop 12))

/-- The leading bytes of an address; an IPv4 address has none. -/
def head96 (addr : Addr af) : List UInt8 := addr.bytes.take (af.size - 4)

/-- `n_addr`, computed in `unsigned int`. -/
def nAddr (start stop : UInt32) : UInt32 :=
  let step : UInt32 := if stop > start then 1 else -1
  (stop - start) * step + 1

/-- The `j`-th address of a range. -/
def rangeAddr (first : Addr af) (start stop : UInt32) (j : ℕ) : Addr af :=
  let step : UInt32 := if stop > start then 1 else -1
  ⟨head96 first ++ store32 (htonl (start + UInt32.ofNat j * step)), by
    have := first.size_eq
    cases af <;> simp_all [head96, Af.size]⟩

/-- The loop of a range: `count` hosts from the `j`-th on. -/
def fill (host : ℕ → FakeHost af) (i : ℕ) : ℕ → ℕ → (ℕ → FakeHost af) →
    Except InitError (ℕ → FakeHost af)
  | 0, _, slots => .ok slots
  | count + 1, j, slots =>
    match store slots (i + j) (host j) with
    | .error e => .error e
    | .ok slots => fill host i count (j + 1) slots

/-- The guard of a range at slot `i`. -/
def rangeFits (i : ℕ) (start stop : UInt32) : Bool :=
  (i + (nAddr start stop).toNat) % 2 ^ 32 < MAXTTL

/-- The second component of a range, whose first address is in slot `i`. -/
def initRange (p : Parse af) (first last : Addr af) : Except InitError (Parse af) :=
  if first = last then .ok { p with i := p.i + 1 }
  else if head96 first ≠ head96 last then .error (.errnum 3)
  else
    let start := tail32 first
    let stop := tail32 last
    let n := nAddr start stop
    if rangeFits p.i start stop then
      match fill (fun j => p.host (rangeAddr first start stop j)) p.i (n.toNat - 1) 1 p.slots with
      | .error e => .error e
      | .ok slots => .ok { p with slots, i := (p.i + n.toNat) % 2 ^ 32 }
    else .error (.errnum 3)

/-- A token without a value, the defaults having been filled in. -/
def initHosts (p : Parse af) (token : List Char) : Except InitError (Parse af) :=
  let dash := strchr token '-'
  match inetPton af ((dash.map Prod.fst).getD token) with
  | none => .error (.errnum 2)
  | some first =>
    match store p.slots p.i (p.host first) with
    | .error e => .error e
    | .ok slots =>
      let p := { p with slots }
      match dash with
      | none => .ok { p with i := p.i + 1 }
      | some (_, second) =>
        match inetPton af second with
        | none => .error (.errnum 2)
        | some last => initRange p first last

/-- A token without a value. -/
def initAddress (p : Parse af) (token : List Char) : Except InitError (Parse af) :=
  if p.i ≠ 0 ∧ ¬ p.i < p.ttl then .error (.errnum 4)
  else initHosts p.defaults token

/-- One token. -/
def step (env : Env af) (p : Parse af) (token : List Char) : Except InitError (Parse af) :=
  match strchr token '=' with
  | some (key, value) => initOption env p key value
  | none => initAddress p token

/-- All tokens. -/
def parse (env : Env af) (s : List Char) : Except InitError (Parse af) :=
  run (step env) (Parse.start env) (tokens s)

/-- The chain of the last state: the hosts and a zeroed slot. -/
def Parse.finish (p : Parse af) : HostChain af :=
  HostChain.ofHosts ((List.range p.i).map p.slots) p.network p.prefixLen p.prefixLen_le

/-- `HostChain_init`, the allocations having succeeded. -/
def HostChain.init (env : Env af) (s : List Char) : Except InitError (HostChain af) :=
  match parse env s with
  | .error e => .error e
  | .ok p => if p.i = 0 then .error (.errnum 1) else .ok p.finish

end Rdnstun
