import Rdnstun.Chain.Mtu

/-!
# The scope of options

* `lastSetting`: the number of the last option with a key among some tokens, or its default;
  `scopedHosts`: the hosts that a list of tokens asks for; `IsRoute`: the route that it asks for.
* `inScope_parse`: the parser keeps to the scopes.
* `commutes_route`: a `route=` token has the same effect before and after any other token.
* **`optionsScoped`**: the hosts of a specification have the TTL and the MTU set last before them;
  its route may stand anywhere, and empty tokens change nothing.
-/

namespace Rdnstun

open Run

variable {af : Af} {env : Env af} {p p' : Parse af} {key value token : List Char}
  {before : List (List Char)} {network : Addr af} {prefixLen : ℕ}

/-! ## What a specification asks for -/

/-- The value of a token that sets the option with the given key. -/
def optionValue (key : String) (token : List Char) : Option (List Char) :=
  match strchr token '=' with
  | some (k, value) => if k = key.toList then some value else none
  | none => none

/-- The values of the `route=` tokens. -/
def routes (before : List (List Char)) : List (List Char) :=
  before.filterMap (optionValue "route")

/-- The number that the last option with the given key sets, or its default. -/
def lastSetting (key : String) (default : ℕ) (before : List (List Char)) : ℕ :=
  ((before.filterMap (optionValue key)).getLast?.map number).getD default

/-- TTL, MTU and address of a host. -/
def FakeHost.fields (host : FakeHost af) : ℕ × ℕ × Addr af :=
  (host.ttl.toNat, host.mtu.toNat, host.addr)

/-- The hosts that a token asks for behind others. -/
def tokenHosts (af : Af) (before : List (List Char)) (token : List Char) :
    List (ℕ × ℕ × Addr af) :=
  if strchr token '=' = none then
    (tokenAddrs af token).map fun addr =>
      (lastSetting "ttl" 64 before, lastSetting "mtu" 1500 before, addr)
  else []

/-- The hosts that the tokens ask for behind others. -/
def scopedHosts (af : Af) : List (List Char) → List (List Char) → List (ℕ × ℕ × Addr af)
  | _, [] => []
  | before, token :: rest =>
    tokenHosts af before token ++ scopedHosts af (before ++ [token]) rest

/-- The route that the values of the `route=` tokens ask for, the address before the slash with the
number behind it: there is one such token at most, and without it the prefix has no bits. -/
def IsRoute (env : Env af) (network : Addr af) (prefixLen : ℕ) : List (List Char) → Prop
  | [] => network = env.network ∧ prefixLen = 0
  | [value] => ∃ text len, strchr value '/' = some (text, len) ∧ inetPton af text = some network ∧
      prefixLen = number len
  | _ => False

theorem lastSetting_concat (key : String) (default : ℕ) :
    lastSetting key default (before ++ [token]) =
      ((optionValue key token).map number).getD (lastSetting key default before) := by
  rw [lastSetting, List.filterMap_append]
  cases h : optionValue key token with
  | none => simp [h, lastSetting]
  | some value => simp [h]

theorem routes_concat :
    routes (before ++ [token]) = routes before ++ (optionValue "route" token).toList := by
  rw [routes, routes, List.filterMap_append]
  cases h : optionValue "route" token <;> simp [h]

theorem scopedHosts_concat (rest : List (List Char)) : scopedHosts af before (rest ++ [token]) =
    scopedHosts af before rest ++ tokenHosts af (before ++ rest) token := by
  induction rest generalizing before with
  | nil => simp [scopedHosts]
  | cons x rest ih =>
    rw [List.cons_append, scopedHosts, ih, scopedHosts, List.append_assoc, List.append_assoc]
    rfl

/-! ## One token -/

/-- What is known of the parser after some tokens. -/
structure InScope (env : Env af) (before : List (List Char)) (p : Parse af) : Prop where
  hosts : p.hosts.map FakeHost.fields = scopedHosts af [] before
  ttl : p.defaults.ttl = lastSetting "ttl" 64 before
  mtu : p.defaults.mtu = lastSetting "mtu" 1500 before
  ttl_le : p.ttl ≤ MAXTTL
  unset : p.ttl = 0 → p.i = 0
  inv : p.MtuInv
  routeSet : p.routeSet = true ↔ routes before ≠ []
  route : IsRoute env p.network p.prefixLen (routes before)

theorem optionValue_of_some (h : strchr token '=' = some (key, value)) (name : String) :
    optionValue name token = if key = name.toList then some value else none := by
  rw [optionValue, h]

theorem optionValue_of_none (h : strchr token '=' = none) (name : String) :
    optionValue name token = none := by
  rw [optionValue, h]

theorem lastSetting_of_none {name : String} {default : ℕ} (h : optionValue name token = none) :
    lastSetting name default (before ++ [token]) = lastSetting name default before := by
  rw [lastSetting_concat, h]
  rfl

theorem lastSetting_of_some {name : String} {default : ℕ}
    (h : optionValue name token = some value) :
    lastSetting name default (before ++ [token]) = number value := by
  rw [lastSetting_concat, h]
  rfl

theorem routes_of_none (h : optionValue "route" token = none) :
    routes (before ++ [token]) = routes before := by
  rw [routes_concat, h]
  exact List.append_nil _

theorem scopedHosts_of_some (h : strchr token '=' = some (key, value)) :
    scopedHosts af [] (before ++ [token]) = scopedHosts af [] before := by
  rw [scopedHosts_concat, tokenHosts, if_neg (by simp [h]), List.append_nil]

theorem fields_host (httl : p.ttl ≤ MAXTTL) (hmtu : p.mtu ≤ IP_MAXPACKET) (addr : Addr af) :
    (p.host addr).fields = (p.ttl, p.mtu, addr) := by
  rw [FakeHost.fields, toNat_ttl_host httl, toNat_mtu_host hmtu]
  rfl

theorem Parse.defaults_ttl_congr (hi : p'.i = p.i) (h : p'.ttl = p.ttl) :
    p'.defaults.ttl = p.defaults.ttl := by
  rw [Parse.ttl_defaults, Parse.ttl_defaults, hi, h]

theorem Parse.defaults_mtu_congr (hi : p'.i = p.i) (h : p'.mtu = p.mtu) :
    p'.defaults.mtu = p.defaults.mtu := by
  rw [Parse.mtu_defaults, Parse.mtu_defaults, hi, h]

theorem Parse.defaults_ttl_of_pos (h : 0 < p.ttl) : p.defaults.ttl = p.ttl := by
  rw [Parse.ttl_defaults, if_neg (by omega)]

theorem Parse.defaults_mtu_of_pos (h : 0 < p.mtu) : p.defaults.mtu = p.mtu := by
  rw [Parse.mtu_defaults, if_neg (by omega)]

/-- **An option** extends the scope. -/
theorem InScope.option (hp : InScope env before p) (htoken : strchr token '=' = some (key, value))
    (hstep : step env p token = .ok p') (h : OptionSets env p key value p') :
    InScope env (before ++ [token]) p' := by
  have hinv := mtuInv_step p token p' hp.inv hstep
  have hle := ttl_le_step p token p' hp.ttl_le hstep
  have hvalue := optionValue_of_some htoken
  have hhosts : p'.hosts.map FakeHost.fields = scopedHosts af [] (before ++ [token]) := by
    rw [scopedHosts_of_some htoken, ← hp.hosts]
    cases h <;> rfl
  cases h with
  | ttl hlo hhi =>
    have hpos : 0 < number value := by omega
    have hroutes : routes (before ++ [token]) = routes before :=
      routes_of_none ((hvalue "route").trans (if_neg (by decide)))
    refine ⟨hhosts, ?_, ?_, hle, fun h => absurd h hpos.ne', hinv, ?_, ?_⟩
    · rw [lastSetting_of_some ((hvalue "ttl").trans (if_pos rfl)),
        Parse.defaults_ttl_of_pos hpos]
    · rw [lastSetting_of_none ((hvalue "mtu").trans (if_neg (by decide))), ← hp.mtu]
      exact Parse.defaults_mtu_congr rfl rfl
    · rw [hroutes]
      exact hp.routeSet
    · rw [hroutes]
      exact hp.route
  | mtu hlo hhi =>
    have hpos : 0 < number value := (minMtu_pos af).trans_le hlo
    have hroutes : routes (before ++ [token]) = routes before :=
      routes_of_none ((hvalue "route").trans (if_neg (by decide)))
    refine ⟨hhosts, ?_, ?_, hle, hp.unset, hinv, ?_, ?_⟩
    · rw [lastSetting_of_none ((hvalue "ttl").trans (if_neg (by decide))), ← hp.ttl]
      exact Parse.defaults_ttl_congr rfl rfl
    · rw [lastSetting_of_some ((hvalue "mtu").trans (if_pos rfl)),
        Parse.defaults_mtu_of_pos hpos]
    · rw [hroutes]
      exact hp.routeSet
    · rw [hroutes]
      exact hp.route
  | @route _ r hset hroute =>
    have hnone : routes before = [] := by
      by_contra hne
      rw [hp.routeSet.mpr hne] at hset
      cases hset
    have hroutes : routes (before ++ [token]) = [value] := by
      rw [routes_concat, hnone, hvalue, if_pos rfl]
      rfl
    refine ⟨hhosts, ?_, ?_, hle, hp.unset, hinv, ?_, ?_⟩
    · rw [lastSetting_of_none ((hvalue "ttl").trans (if_neg (by decide))), ← hp.ttl]
      exact Parse.defaults_ttl_congr rfl rfl
    · rw [lastSetting_of_none ((hvalue "mtu").trans (if_neg (by decide))), ← hp.mtu]
      exact Parse.defaults_mtu_congr rfl rfl
    · rw [hroutes]
      exact iff_of_true rfl (List.cons_ne_nil _ _)
    · obtain ⟨text, len, hslash, hpton, hlen, -⟩ := initRoute_ok hroute
      rw [hroutes]
      exact ⟨text, len, hslash, hpton, hlen⟩

/-- **An address token** extends the scope. -/
theorem InScope.addresses (hp : InScope env before p) (htoken : strchr token '=' = none)
    (hstep : step env p token = .ok p') (h : Appends p.defaults p' (tokenAddrs af token)) :
    InScope env (before ++ [token]) p' := by
  have hvalue := optionValue_of_none htoken
  have hroutes : routes (before ++ [token]) = routes before := routes_of_none (hvalue "route")
  have hdef := hp.inv.defaults
  have hpos := minMtu_pos af
  have httl : p'.ttl = p.defaults.ttl := h.ttl
  have hmtu : p'.mtu = p.defaults.mtu := h.mtu
  have httlPos : 0 < p.defaults.ttl := by
    have hunset := hp.unset
    rw [Parse.ttl_defaults]
    split_ifs <;> omega
  have hset : p'.routeSet = p.routeSet ∧ p'.network = p.network ∧ p'.prefixLen = p.prefixLen := by
    rw [h.eq]
    unfold Parse.defaults
    split_ifs <;> exact ⟨rfl, rfl, rfl⟩
  refine ⟨?_, ?_, ?_, ttl_le_step p token p' hp.ttl_le hstep, fun h => by omega,
    mtuInv_step p token p' hp.inv hstep, ?_, ?_⟩
  · rw [h.hosts, Parse.hosts_defaults, List.map_append, hp.hosts, scopedHosts_concat, tokenHosts,
      if_pos htoken, List.map_map, List.nil_append, ← hp.ttl, ← hp.mtu]
    congr 1
    exact List.map_congr_left fun addr _ =>
      fields_host (Parse.ttl_defaults_le hp.ttl_le) hdef.2 addr
  · rw [lastSetting_of_none (hvalue "ttl"), ← hp.ttl, ← httl]
    exact Parse.defaults_ttl_of_pos (by omega)
  · rw [lastSetting_of_none (hvalue "mtu"), ← hp.mtu, ← hmtu]
    exact Parse.defaults_mtu_of_pos (by omega)
  · rw [hroutes, hset.1]
    exact hp.routeSet
  · rw [hroutes, hset.2.1, hset.2.2]
    exact hp.route

theorem inScope_step (before : List (List Char)) (p : Parse af) (token : List Char) (p' : Parse af)
    (hp : InScope env before p) (h : step env p token = .ok p') :
    InScope env (before ++ [token]) p' := by
  cases htoken : strchr token '=' with
  | some kv =>
    have hoption : initOption env p kv.1 kv.2 = .ok p' := by
      rw [step, htoken] at h
      exact h
    exact hp.option htoken h (initOption_sets hoption)
  | none =>
    rcases step_ok h with ⟨hsome, -⟩ | ⟨-, -, -, happ⟩
    · rw [htoken] at hsome
      cases hsome
    · exact hp.addresses htoken h happ

/-- **All tokens** are parsed within their scopes. -/
theorem inScope_parse {s : List Char} (h : parse env s = .ok p) : InScope env (tokens s) p := by
  refine run_invariant_history inScope_step ⟨rfl, rfl, rfl, Nat.zero_le _, fun _ => rfl,
    mtuInv_parse (s := []) rfl, ?_, ⟨rfl, rfl⟩⟩ h
  exact iff_of_false Bool.false_ne_true (not_not.mpr rfl)

/-! ## Moving the route -/

variable {r : Addr af × {n : ℕ // n ≤ inetSize af}}

theorem defaults_withRoute (p : Parse af) : (p.withRoute r).defaults = p.defaults.withRoute r := by
  have hi : (p.withRoute r).i = p.i := rfl
  unfold Parse.defaults
  rw [hi]
  by_cases h : p.i = 0
  · rw [if_pos h, if_pos h]
    rfl
  · rw [if_neg h, if_neg h]

theorem initRange_withRoute (p : Parse af) (first last : Addr af) :
    initRange (p.withRoute r) first last =
      (initRange p first last).map fun p => p.withRoute r := by
  have hfill (addrs : ℕ → Addr af) (n : ℕ) :
      fill (fun j => (p.withRoute r).host (addrs j)) (p.withRoute r).i n 1 (p.withRoute r).slots =
        fill (fun j => p.host (addrs j)) p.i n 1 p.slots := rfl
  have hfits (start stop : UInt32) :
      rangeFits (p.withRoute r).i start stop = rangeFits p.i start stop := rfl
  unfold initRange
  split_ifs
  · rfl
  · rfl
  dsimp only
  rw [hfits, hfill]
  split_ifs
  · cases fill (fun j => p.host (rangeAddr first _ _ j)) p.i _ 1 p.slots <;> rfl
  · rfl

theorem initHosts_withRoute (p : Parse af) (token : List Char) :
    initHosts (p.withRoute r) token = (initHosts p token).map fun p => p.withRoute r := by
  have hstore (addr : Addr af) : store (p.withRoute r).slots (p.withRoute r).i
      ((p.withRoute r).host addr) = store p.slots p.i (p.host addr) := rfl
  unfold initHosts
  dsimp only
  cases inetPton af (((strchr token '-').map Prod.fst).getD token) with
  | none => rfl
  | some first =>
    dsimp only
    rw [hstore]
    cases store p.slots p.i (p.host first) with
    | error e => rfl
    | ok slots =>
      dsimp only
      cases strchr token '-' with
      | none => rfl
      | some parts =>
        dsimp only
        cases inetPton af parts.2 with
        | none => rfl
        | some last => exact initRange_withRoute { p with slots } first last

theorem initOption_withRoute (p : Parse af) (hkey : key ≠ "route".toList) :
    initOption env (p.withRoute r) key value =
      (initOption env p key value).map fun p => p.withRoute r := by
  unfold initOption
  rw [if_neg hkey, if_neg hkey]
  dsimp only [Parse.withRoute, Parse.maxMtu]
  by_cases hvalue : value = [] ∨ value.head? = some ','
  · rw [if_pos hvalue, if_pos hvalue]
    rfl
  rw [if_neg hvalue, if_neg hvalue]
  by_cases httl : key = "ttl".toList
  · rw [if_pos httl, if_pos httl]
    cases argtoi value (p.i + 1) MAXTTL <;> rfl
  rw [if_neg httl, if_neg httl]
  by_cases hmtu : key = "mtu".toList
  · rw [if_pos hmtu, if_pos hmtu]
    cases argtoi value (minMtu af) ((if p.mtu = 0 then IP_MAXPACKET else p.mtu : ℕ) : ℤ) <;> rfl
  · rw [if_neg hmtu, if_neg hmtu]
    rfl

/-- Any other token does the same before and after the route is set. -/
theorem step_withRoute (p : Parse af) (h : optionValue "route" token = none) :
    step env (p.withRoute r) token = (step env p token).map fun p => p.withRoute r := by
  unfold step
  cases htoken : strchr token '=' with
  | some kv =>
    rw [optionValue_of_some htoken] at h
    exact initOption_withRoute p fun hkey => by simp [hkey] at h
  | none =>
    show initAddress (p.withRoute r) token = (initAddress p token).map _
    have hi : (p.withRoute r).i = p.i := rfl
    have httl : (p.withRoute r).ttl = p.ttl := rfl
    unfold initAddress
    rw [hi, httl, defaults_withRoute]
    split_ifs
    · rfl
    · exact initHosts_withRoute p.defaults token

theorem routeSet_of_step (h : optionValue "route" token = none)
    (hstep : step env p token = .ok p') : p'.routeSet = p.routeSet := by
  cases htoken : strchr token '=' with
  | some kv =>
    rw [step, htoken] at hstep
    rw [optionValue_of_some htoken] at h
    have hsets := initOption_sets hstep
    generalize kv.1 = key at hsets h
    cases hsets with
    | ttl => rfl
    | mtu => rfl
    | route => cases h
  | none =>
    rcases step_ok hstep with ⟨hsome, -⟩ | ⟨-, -, -, happ⟩
    · rw [htoken] at hsome
      cases hsome
    · rw [happ.eq]
      unfold Parse.defaults
      split_ifs <;> rfl

theorem step_route_ok (h : optionValue "route" token = some value) :
    step env p token = .ok p' ↔ (value ≠ [] ∧ value.head? ≠ some ',') ∧ p.routeSet = false ∧
      ∃ r, initRoute env value = some r ∧ p' = p.withRoute r := by
  cases htoken : strchr token '=' with
  | none =>
    rw [optionValue_of_none htoken] at h
    cases h
  | some kv =>
    obtain ⟨key, v⟩ := kv
    rw [optionValue_of_some htoken] at h
    split_ifs at h with hkey
    cases h
    rw [step, htoken]
    dsimp only
    unfold initOption
    have httl : key ≠ "ttl".toList := hkey ▸ by decide
    have hmtu : key ≠ "mtu".toList := hkey ▸ by decide
    rw [if_neg httl, if_neg hmtu, if_pos hkey]
    split_ifs with hvalue hset
    · refine iff_of_false (fun h => by cases h) fun h => ?_
      exact hvalue.elim h.1.1 h.1.2
    · refine iff_of_false (fun h => by cases h) fun h => ?_
      rw [h.2.1] at hset
      cases hset
    · have hset' : p.routeSet = false := by simpa using hset
      have hvalue' := not_or.mp hvalue
      cases hr : initRoute env value with
      | none => simp
      | some r =>
        simp only [hvalue', hset', Option.some_inj, true_and, ne_eq, not_false_eq_true, and_self,
          exists_eq_left', Except.ok.injEq]
        exact eq_comm

/-- **A `route=` token** may stand before or after any other. -/
theorem commutes_route (h : optionValue "route" token = some value) :
    Commutes (step env) token := by
  intro p y q
  simp only [run_cons_ok, run_nil, Except.ok.injEq, exists_eq_right]
  cases hy : optionValue "route" y with
  | some v =>
    -- a second route is an error in both orders
    refine iff_of_false ?_ ?_
    · rintro ⟨p₁, h₁, h₂⟩
      obtain ⟨-, -, r, -, rfl⟩ := (step_route_ok hy).mp h₁
      obtain ⟨-, hset, -⟩ := (step_route_ok h).mp h₂
      cases hset
    · rintro ⟨p₁, h₁, h₂⟩
      obtain ⟨-, -, r, -, rfl⟩ := (step_route_ok h).mp h₁
      obtain ⟨-, hset, -⟩ := (step_route_ok hy).mp h₂
      cases hset
  | none =>
    simp only [step_route_ok h]
    constructor
    · rintro ⟨p₁, h₁, hvalue, hset, r, hr, rfl⟩
      refine ⟨p.withRoute r, ⟨hvalue, routeSet_of_step hy h₁ ▸ hset, r, hr, rfl⟩, ?_⟩
      rw [step_withRoute p hy, h₁]
      rfl
    · rintro ⟨-, ⟨hvalue, hset, r, hr, rfl⟩, h₂⟩
      rw [step_withRoute p hy] at h₂
      cases h₁ : step env p y with
      | error e => rw [h₁] at h₂; cases h₂
      | ok p₁ =>
        rw [h₁] at h₂
        cases h₂
        exact ⟨p₁, rfl, hvalue, (routeSet_of_step hy h₁).trans hset, r, hr, rfl⟩

/-! ## Whole specifications -/

theorem tokens_append (a b : List Char) : tokens (a ++ ',' :: b) = tokens a ++ tokens b := by
  rw [tokens, List.splitOn_append_cons_self, List.filter_append]
  rfl

theorem tokens_nil : tokens [] = [] := rfl

theorem init_ok_iff {s : List Char} {c : HostChain af} : HostChain.init env s = .ok c ↔
    ∃ p, parse env s = .ok p ∧ p.i ≠ 0 ∧ c = p.finish := by
  rw [HostChain.init]
  cases parse env s with
  | error e => simp
  | ok p =>
    dsimp only
    split_ifs with hi
    · simp [hi]
    · simp [hi, eq_comm]

theorem init_congr {s s' : List Char} (h : tokens s = tokens s') :
    HostChain.init env s = HostChain.init env s' := by
  rw [HostChain.init, HostChain.init, parse, parse, h]

/-- The hosts of a specification are those that its tokens ask for, each within the scope of the
options before it, and so is its route. A `route=` token may be moved, and empty tokens may be
inserted before, behind and between others. -/
structure OptionsScoped (env : Env af) (s : List Char) : Prop where
  hosts : ∀ c, HostChain.init env s = .ok c →
    c.slots.map FakeHost.fields = scopedHosts af [] (tokens s)
  route : ∀ c, HostChain.init env s = .ok c →
    IsRoute env c.network c.prefixLen (routes (tokens s))
  move : ∀ s' a b a' b' token, (optionValue "route" token).isSome → tokens s = a ++ token :: b →
    tokens s' = a' ++ token :: b' → a ++ b = a' ++ b' →
      ∀ c, HostChain.init env s = .ok c ↔ HostChain.init env s' = .ok c
  empty : HostChain.init env (',' :: s) = HostChain.init env s ∧
    HostChain.init env (s ++ [',']) = HostChain.init env s ∧
      ∀ a b, s = a ++ ',' :: b → HostChain.init env (a ++ ',' :: ',' :: b) = HostChain.init env s

/-- **The scope of options** in every specification. -/
theorem optionsScoped (env : Env af) (s : List Char) : OptionsScoped env s where
  hosts c h := by
    obtain ⟨p, hparse, -, rfl⟩ := init_ok h
    rw [HostChain.slots_finish]
    exact (inScope_parse hparse).hosts
  route c h := by
    obtain ⟨p, hparse, -, rfl⟩ := init_ok h
    exact (inScope_parse hparse).route
  move s' a b a' b' token htoken hs hs' hmove c := by
    obtain ⟨value, hvalue⟩ := Option.isSome_iff_exists.mp htoken
    simp only [init_ok_iff, parse, hs, hs', (commutes_route hvalue).run_move hmove]
  empty := by
    refine ⟨init_congr (tokens_append [] s), init_congr ?_, ?_⟩
    · rw [tokens_append, tokens_nil, List.append_nil]
    · rintro a b rfl
      refine init_congr ?_
      rw [tokens_append, tokens_append a b]
      exact congrArg _ (tokens_append [] b)

/-- A route between the options of a host, and the same behind the host. -/
theorem optionsScoped_slash24 :
    ∃ c, HostChain.init (.zeroed .inet) "ttl=5,route=10.0.0.0/24,10.0.0.1".toList = .ok c ∧
      HostChain.init (.zeroed .inet) "ttl=5,10.0.0.1,route=10.0.0.0/24".toList = .ok c ∧
      c.slots.map FakeHost.fields = [(5, 1500, .v4 10 0 0 1)] ∧ c.network = .v4 10 0 0 0 ∧
      c.prefixLen = 24 := by
  obtain ⟨c, hc⟩ : ∃ c, HostChain.init (.zeroed .inet)
      "ttl=5,route=10.0.0.0/24,10.0.0.1".toList = .ok c := ⟨_, rfl⟩
  have hscoped := optionsScoped (.zeroed .inet) "ttl=5,route=10.0.0.0/24,10.0.0.1".toList
  have hmoved := (hscoped.move "ttl=5,10.0.0.1,route=10.0.0.0/24".toList ["ttl=5".toList]
    ["10.0.0.1".toList] ["ttl=5".toList, "10.0.0.1".toList] [] "route=10.0.0.0/24".toList
    (by decide) (by decide) (by decide) rfl c).mp hc
  have hhosts := hscoped.hosts c hc
  have hroute := hscoped.route c hc
  have hvalues : routes (tokens "ttl=5,route=10.0.0.0/24,10.0.0.1".toList) =
      ["10.0.0.0/24".toList] := by decide
  rw [hvalues] at hroute
  obtain ⟨text, len, hslash, hpton, hlen⟩ := hroute
  have hparts : strchr "10.0.0.0/24".toList '/' = some ("10.0.0.0".toList, "24".toList) := by decide
  rw [hparts, Option.some_inj, Prod.mk.injEq] at hslash
  obtain ⟨rfl, rfl⟩ := hslash
  have hnetwork : inetPton .inet "10.0.0.0".toList = some (.v4 10 0 0 0) := by decide
  have hscope : scopedHosts .inet [] (tokens "ttl=5,route=10.0.0.0/24,10.0.0.1".toList) =
      [(5, 1500, .v4 10 0 0 1)] := by decide
  exact ⟨c, hc, hmoved, hhosts.trans hscope, Option.some_inj.mp (hpton.symm.trans hnetwork),
    hlen.trans (by decide)⟩

end Rdnstun
