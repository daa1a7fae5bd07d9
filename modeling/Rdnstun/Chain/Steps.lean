import Rdnstun.Chain.Parse
import Rdnstun.Inet.Number

/-!
# What a token does

* `span`: the true size of a range; `toNat_nAddr`: `n_addr` is it modulo `2 ^ 32`.
* `fill_ok`, `le_of_fill_ok`: the loop of a range succeeds exactly within the slots.
* `Parse.hosts`: the hosts stored so far; `tokenAddrs`: the addresses a token contributes.
* `OptionSets`, `initOption_sets`: what an option that is accepted sets.
* **`step_ok`**: a token that is accepted sets an option or appends its addresses, each with the
  current TTL and MTU.
-/

namespace Rdnstun

open Radix Run

variable {af : Af}

/-! ## Ranges -/

/-- The number of addresses from `start` to `stop`, in either direction. -/
def span (start stop : UInt32) : ℕ :=
  max start.toNat stop.toNat - min start.toNat stop.toNat + 1

theorem span_le (start stop : UInt32) : span start stop ≤ 2 ^ 32 := by
  have h₁ := start.toNat_lt
  have h₂ := stop.toNat_lt
  unfold span
  omega

theorem toNat_nAddr (start stop : UInt32) :
    (nAddr start stop).toNat = span start stop % 2 ^ 32 := by
  have h₁ := start.toNat_lt
  have h₂ := stop.toNat_lt
  unfold nAddr span
  by_cases h : start < stop
  · have hlt : start.toNat < stop.toNat := UInt32.lt_iff_toNat_lt.mp h
    simp only [gt_iff_lt, h, if_true, UInt32.toNat_add, UInt32.toNat_mul, UInt32.toNat_sub,
      UInt32.toNat_one]
    omega
  · have hle : stop.toNat ≤ start.toNat := Nat.le_of_not_lt fun hlt =>
      h (UInt32.lt_iff_toNat_lt.mpr hlt)
    have hneg : (-1 : UInt32).toNat = 2 ^ 32 - 1 := rfl
    simp only [gt_iff_lt, h, if_false, UInt32.toNat_add, UInt32.toNat_mul, UInt32.toNat_sub, hneg,
      UInt32.toNat_one]
    omega

theorem store_ok {slots slots' : ℕ → FakeHost af} {k : ℕ} {host : FakeHost af} :
    store slots k host = .ok slots' ↔ k < MAXTTL ∧ slots' = Function.update slots k host := by
  unfold store
  split_ifs with h <;> simp [h, eq_comm]

theorem fill_ok {host : ℕ → FakeHost af} {i j count : ℕ} (h : i + j + count ≤ MAXTTL)
    (slots : ℕ → FakeHost af) :
    fill host i count j slots =
      .ok fun k => if i + j ≤ k ∧ k < i + j + count then host (k - i) else slots k := by
  induction count generalizing j slots with
  | zero =>
    rw [fill]
    congr 1
    funext k
    rw [if_neg (by omega)]
  | succ count ih =>
    rw [fill, store, if_pos (by omega)]
    show fill host i count (j + 1) _ = _
    rw [ih (by omega)]
    congr 1
    funext k
    by_cases hk : k = i + j
    · subst hk
      rw [if_neg (by omega), if_pos (by omega), Function.update_self, Nat.add_sub_cancel_left]
    · rw [Function.update_of_ne hk]
      exact if_congr (by omega) rfl rfl

theorem le_of_fill_ok {host : ℕ → FakeHost af} {i j count : ℕ} {slots slots' : ℕ → FakeHost af}
    (h : fill host i count j slots = .ok slots') : count = 0 ∨ i + j + count ≤ MAXTTL := by
  induction count generalizing j slots with
  | zero => exact .inl rfl
  | succ count ih =>
    rw [fill] at h
    cases hs : store slots (i + j) (host j) with
    | error e => rw [hs] at h; cases h
    | ok s =>
      rw [hs] at h
      have := (store_ok.mp hs).1
      rcases ih h with rfl | h
      · omega
      · omega

/-! ## Addresses -/

theorem bytes_eq_head96 (addr : Addr af) :
    addr.bytes = head96 addr ++ bytes 4 (tail32 addr).toNat := by
  have hsize := addr.size_eq
  cases af
  · have h := bytes_val addr.bytes
    rw [hsize] at h
    rw [tail32, toNat_ntohl_load32 hsize]
    simpa [head96, Af.size] using h.symm
  · have hlen : (addr.bytes.drop 12).length = 4 := by simp [hsize, Af.size]
    have h := bytes_val (addr.bytes.drop 12)
    rw [hlen] at h
    rw [tail32, toNat_ntohl_load32 hlen, h]
    exact (List.take_append_drop 12 addr.bytes).symm

theorem rangeAddr_zero (first : Addr af) (stop : UInt32) :
    rangeAddr first (tail32 first) stop 0 = first := by
  apply Addr.ext_bytes
  simp only [rangeAddr, store32_htonl]
  conv_rhs => rw [bytes_eq_head96 first]
  simp

/-- The addresses of a range, both ends included. A range over all 32-bit tails has none. -/
def rangeAddrs (first last : Addr af) : List (Addr af) :=
  if first = last then [first]
  else (List.range (nAddr (tail32 first) (tail32 last)).toNat).map
    (rangeAddr first (tail32 first) (tail32 last))

/-- The ends of a range token. -/
def rangeEnds (af : Af) (token : List Char) : Option (Addr af × Addr af) :=
  match strchr token '-' with
  | none => none
  | some (first, last) =>
    match inetPton af first, inetPton af last with
    | some first, some last => some (first, last)
    | _, _ => none

/-- The addresses that a token without a value contributes. -/
def tokenAddrs (af : Af) (token : List Char) : List (Addr af) :=
  match strchr token '-' with
  | none => (inetPton af token).toList
  | some _ => ((rangeEnds af token).map fun e => rangeAddrs e.1 e.2).getD []

theorem tokenAddrs_of_rangeEnds {token : List Char} {first last : Addr af}
    (h : rangeEnds af token = some (first, last)) :
    tokenAddrs af token = rangeAddrs first last := by
  unfold tokenAddrs
  cases hdash : strchr token '-' with
  | none => rw [rangeEnds, hdash] at h; cases h
  | some parts => rw [h]; rfl

/-- The hosts stored so far. -/
def Parse.hosts (p : Parse af) : List (FakeHost af) := (List.range p.i).map p.slots

@[simp] theorem Parse.length_hosts (p : Parse af) : p.hosts.length = p.i := by simp [Parse.hosts]

@[simp] theorem Parse.i_defaults (p : Parse af) : p.defaults.i = p.i := by
  unfold Parse.defaults
  split_ifs <;> rfl

@[simp] theorem Parse.hosts_defaults (p : Parse af) : p.defaults.hosts = p.hosts := by
  unfold Parse.defaults
  split_ifs <;> rfl

theorem Parse.ttl_defaults (p : Parse af) :
    p.defaults.ttl = if p.i = 0 ∧ p.ttl = 0 then 64 else p.ttl := by
  by_cases hi : p.i = 0
  · simp only [Parse.defaults, hi, if_true, true_and]
  · simp only [Parse.defaults, hi, if_false, false_and]

theorem Parse.mtu_defaults (p : Parse af) :
    p.defaults.mtu = if p.i = 0 ∧ p.mtu = 0 then 1500 else p.mtu := by
  by_cases hi : p.i = 0
  · simp only [Parse.defaults, hi, if_true, true_and]
  · simp only [Parse.defaults, hi, if_false, false_and]

/-- `p'` is `p` with the addresses appended as hosts, within the slots. -/
structure Appends (p p' : Parse af) (addrs : List (Addr af)) : Prop where
  eq : p' = { p with slots := p'.slots, i := p.i + addrs.length }
  hosts : p'.hosts = p.hosts ++ addrs.map p.host
  i_le : p'.i ≤ MAXTTL

theorem appends_single {p : Parse af} {slots : ℕ → FakeHost af} {first : Addr af}
    (hi : p.i < MAXTTL) (h : slots p.i = p.host first) (hkeep : ∀ k < p.i, slots k = p.slots k) :
    Appends p { p with slots, i := p.i + 1 } [first] := by
  refine ⟨rfl, ?_, hi⟩
  simp only [Parse.hosts, List.range_succ, List.map_append, List.map_cons, List.map_nil, h]
  congr 1
  exact List.map_congr_left fun k hk => hkeep k (List.mem_range.mp hk)

theorem initRange_ok {p p' : Parse af} {first last : Addr af} (hi : p.i < MAXTTL)
    (hfirst : p.slots p.i = p.host first) (h : initRange p first last = .ok p') :
    Appends p p' (rangeAddrs first last) := by
  unfold initRange at h
  unfold rangeAddrs
  split_ifs at h ⊢ with heq hhead
  · cases h
    exact appends_single hi hfirst fun _ _ => rfl
  dsimp only at h
  split_ifs at h with hfits
  set n := (nAddr (tail32 first) (tail32 last)).toNat
  cases hfill : fill (fun j => p.host (rangeAddr first (tail32 first) (tail32 last) j)) p.i
      (n - 1) 1 p.slots with
  | error e => rw [hfill] at h; cases h
  | ok slots =>
    rw [hfill] at h
    cases h
    have hn : n < 2 ^ 32 := UInt32.toNat_lt _
    have hmax : MAXTTL = 255 := rfl
    obtain hn0 | hn0 := Nat.eq_zero_or_pos n
    · -- the range over all tails: nothing is stored and the counter stays
      rw [hn0] at hfill ⊢
      cases hfill
      rw [Nat.add_zero, Nat.mod_eq_of_lt (by omega)]
      exact ⟨rfl, by simp [Parse.hosts], hi.le⟩
    have hle : p.i + n ≤ MAXTTL := by
      rcases le_of_fill_ok hfill with h0 | hle <;> omega
    rw [fill_ok (by omega)] at hfill
    cases hfill
    rw [Nat.mod_eq_of_lt (by omega)]
    refine ⟨by simp, ?_, hle⟩
    simp only [Parse.hosts, List.range_add, List.map_append, List.map_map]
    congr 1
    · exact List.map_congr_left fun k hk => if_neg (by have := List.mem_range.mp hk; omega)
    · refine List.map_congr_left fun j hj => ?_
      have hj := List.mem_range.mp hj
      simp only [Function.comp_apply, Parse.host]
      split_ifs with hc
      · rw [Nat.add_sub_cancel_left]
      · have hj0 : j = 0 := by omega
        rw [hj0, rangeAddr_zero, Nat.add_zero, hfirst]
        rfl

theorem initHosts_ok {p p' : Parse af} {token : List Char} (h : initHosts p token = .ok p') :
    p.i < MAXTTL ∧ Appends p p' (tokenAddrs af token) := by
  unfold initHosts at h
  unfold tokenAddrs rangeEnds
  cases hdash : strchr token '-' with
  | none =>
    rw [hdash] at h
    dsimp only [Option.map_none, Option.getD_none] at h
    cases hfirst : inetPton af token with
    | none => rw [hfirst] at h; cases h
    | some first =>
      rw [hfirst] at h
      dsimp only at h
      cases hstore : store p.slots p.i (p.host first) with
      | error e => rw [hstore] at h; cases h
      | ok slots =>
        rw [hstore] at h
        cases h
        obtain ⟨hi, rfl⟩ := store_ok.mp hstore
        exact ⟨hi, appends_single hi (Function.update_self ..)
          fun k hk => Function.update_of_ne (by omega) ..⟩
  | some parts =>
    obtain ⟨a, b⟩ := parts
    rw [hdash] at h
    dsimp only [Option.map_some, Option.getD_some] at h ⊢
    cases hfirst : inetPton af a with
    | none => rw [hfirst] at h; cases h
    | some first =>
      rw [hfirst] at h
      dsimp only at h
      cases hstore : store p.slots p.i (p.host first) with
      | error e => rw [hstore] at h; cases h
      | ok slots =>
        rw [hstore] at h
        dsimp only at h
        cases hlast : inetPton af b with
        | none => rw [hlast] at h; cases h
        | some last =>
          rw [hlast] at h
          obtain ⟨hi, rfl⟩ := store_ok.mp hstore
          have hr := initRange_ok
            (p := { p with slots := Function.update p.slots p.i (p.host first) }) hi
            (Function.update_self ..) h
          refine ⟨hi, ⟨hr.eq, ?_, hr.i_le⟩⟩
          rw [hr.hosts]
          congr 1
          exact List.map_congr_left fun k hk =>
            Function.update_of_ne (Nat.ne_of_lt (List.mem_range.mp hk)) ..

/-! ## Options -/

/-- The number in a value, as `argtoi` reads it. -/
def number (value : List Char) : ℕ := ((strtol value).1.bmod (2 ^ 32)).toNat

/-- The parser with a route. -/
def Parse.withRoute (p : Parse af) (r : Addr af × {n : ℕ // n ≤ inetSize af}) : Parse af :=
  { p with network := r.1, prefixLen := r.2.1, prefixLen_le := r.2.2, routeSet := true }

/-- What an option that is accepted sets. -/
inductive OptionSets (env : Env af) (p : Parse af) : List Char → List Char → Parse af → Prop
  | ttl {value : List Char} : p.i < number value → number value ≤ MAXTTL →
    OptionSets env p "ttl".toList value { p with ttl := number value }
  | mtu {value : List Char} : minMtu af ≤ number value → number value ≤ p.maxMtu →
    OptionSets env p "mtu".toList value { p with mtu := number value }
  | route {value : List Char} {r : Addr af × {n : ℕ // n ≤ inetSize af}} : p.routeSet = false →
    initRoute env value = some r → OptionSets env p "route".toList value (p.withRoute r)

theorem number_of_argtoi {value : List Char} {min max : ℤ} {n : {n : ℤ // min ≤ n ∧ n ≤ max}}
    (h : argtoi value min max = some n) : number value = n.1.toNat := by
  have hn : (argtoi value min max).map Subtype.val = some n.1 := by rw [h, Option.map_some]
  rw [number, ← (argtoi_eq_some.mp hn).1]

/-- A route that is accepted is the address before the first slash, with the number behind it. -/
theorem initRoute_ok {env : Env af} {value : List Char}
    {r : Addr af × {n : ℕ // n ≤ inetSize af}} (h : initRoute env value = some r) :
    ∃ network len, strchr value '/' = some (network, len) ∧ inetPton af network = some r.1 ∧
      r.2.1 = number len ∧ inetIsnetwork env.overshift r.1 r.2.1 = true := by
  unfold initRoute at h
  cases hslash : strchr value '/' with
  | none => rw [hslash] at h; cases h
  | some parts =>
    rw [hslash] at h
    dsimp only at h
    cases hpton : inetPton af parts.1 with
    | none => rw [hpton] at h; cases h
    | some network =>
      rw [hpton] at h
      dsimp only at h
      cases harg : argtoi parts.2 0 (inetSize af) with
      | none => rw [harg] at h; cases h
      | some n =>
        rw [harg] at h
        dsimp only at h
        split_ifs at h with hnet
        cases h
        exact ⟨parts.1, parts.2, rfl, hpton, (number_of_argtoi harg).symm, hnet⟩

theorem initOption_sets {env : Env af} {p p' : Parse af} {key value : List Char}
    (h : initOption env p key value = .ok p') : OptionSets env p key value p' := by
  unfold initOption at h
  split_ifs at h with hvalue httl hmtu hroute hset
  · cases harg : argtoi value (p.i + 1) MAXTTL with
    | none => rw [harg] at h; cases h
    | some n =>
      rw [harg] at h
      cases h
      have hn := n.2
      rw [httl, ← number_of_argtoi harg]
      exact .ttl (by rw [number_of_argtoi harg]; omega) (by rw [number_of_argtoi harg]; omega)
  · cases harg : argtoi value (minMtu af) p.maxMtu with
    | none => rw [harg] at h; cases h
    | some n =>
      rw [harg] at h
      cases h
      have hn := n.2
      rw [hmtu, ← number_of_argtoi harg]
      exact .mtu (by rw [number_of_argtoi harg]; omega) (by rw [number_of_argtoi harg]; omega)
  · cases harg : initRoute env value with
    | none => rw [harg] at h; cases h
    | some r =>
      rw [harg] at h
      cases h
      rw [hroute]
      exact .route (by simpa using hset) harg

/-- The fields an option token leaves as they are. -/
structure SetsOption (p p' : Parse af) : Prop where
  i : p'.i = p.i
  slots : p'.slots = p.slots
  ttl : p'.ttl = p.ttl ∨ p.i < p'.ttl ∧ p'.ttl ≤ MAXTTL
  mtu : p'.mtu = p.mtu ∨ minMtu af ≤ p'.mtu ∧ p'.mtu ≤ p.maxMtu

theorem initOption_ok {env : Env af} {p p' : Parse af} {token value : List Char}
    (h : initOption env p token value = .ok p') : SetsOption p p' := by
  cases initOption_sets h with
  | ttl hlt hle => exact ⟨rfl, rfl, .inr ⟨hlt, hle⟩, .inl rfl⟩
  | mtu hge hle => exact ⟨rfl, rfl, .inl rfl, .inr ⟨hge, hle⟩⟩
  | route => exact ⟨rfl, rfl, .inl rfl, .inl rfl⟩

/-! ## Steps -/

/-- An address token passes the check of the TTL. -/
def Parse.ttlOk (p : Parse af) : Prop := p.i = 0 ∨ p.i < p.ttl

/-- **A token** that is accepted sets an option, or appends its addresses to the hosts. -/
theorem step_ok {env : Env af} {p p' : Parse af} {token : List Char}
    (h : step env p token = .ok p') :
    ((strchr token '=').isSome ∧ SetsOption p p') ∨
      (strchr token '=' = none ∧ p.ttlOk ∧ p.i < MAXTTL ∧
        Appends p.defaults p' (tokenAddrs af token)) := by
  unfold step at h
  cases heq : strchr token '=' with
  | some kv =>
    rw [heq] at h
    exact .inl ⟨rfl, initOption_ok h⟩
  | none =>
    rw [heq] at h
    dsimp only at h
    unfold initAddress at h
    split_ifs at h with httl
    obtain ⟨hi, happ⟩ := initHosts_ok h
    rw [Parse.i_defaults] at hi
    exact .inr ⟨rfl, by unfold Parse.ttlOk; omega, hi, happ⟩

end Rdnstun
