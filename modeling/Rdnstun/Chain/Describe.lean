import Mathlib.Tactic.TFAE
import Rdnstun.Chain.Route
import Rdnstun.Chain.Scope
import Rdnstun.Inet.Present

/-!
# A specification for every chain

* `FakeHost.tokens`, `HostChain.spec`: a specification with the TTL, the MTU and the address of
  every host on their own, and the route unless it is the one without an option.
* `Describable`: what a chain must meet so that a specification can ask for it.
* `init_spec`: `HostChain_init` reads the specification of such a chain back.
* **`describable_tfae`**: no other chain comes from a specification whose ranges end within the
  current TTL.
-/

namespace Rdnstun

open Run

variable {af : Af} {env : Env af} {p : Parse af} {c : HostChain af} {h : FakeHost af}
  {s : List Char}

/-! ## Texts -/

theorem strchr_append {sep : Char} (hs : sep ∉ s) (rest : List Char) :
    strchr (s ++ sep :: rest) sep = some (s, rest) := by
  have hne : ∀ c ∈ s, (c != sep) = true := fun c hc => bne_iff_ne.mpr fun heq => hs (heq ▸ hc)
  rw [strchr, List.dropWhile_append_of_pos hne, List.takeWhile_append_of_pos hne,
    List.dropWhile_cons_of_neg (by simp), List.takeWhile_cons_of_neg (by simp), List.append_nil]

theorem strchr_eq_none {sep : Char} (hs : sep ∉ s) : strchr s sep = none := by
  have hne : ∀ c ∈ s, (c != sep) = true := fun c hc => bne_iff_ne.mpr fun heq => hs (heq ▸ hc)
  rw [strchr, List.dropWhile_eq_nil_iff.mpr hne]

/-- A token that sets an option. -/
def optionToken (key : String) (value : List Char) : List Char := key.toList ++ '=' :: value

/-- The tokens of a host. -/
def FakeHost.tokens (h : FakeHost af) : List (List Char) :=
  [optionToken "ttl" (Nat.toDigits 10 h.ttl.toNat), optionToken "mtu" (Nat.toDigits 10 h.mtu.toNat),
    h.addr.present]

/-- The token of a route. -/
def routeToken (network : Addr af) (prefixLen : ℕ) : List Char :=
  optionToken "route" (network.present ++ '/' :: Nat.toDigits 10 prefixLen)

namespace HostChain

/-- The token of the route, unless it is the one without an option. -/
def routeTokens (env : Env af) (c : HostChain af) : List (List Char) :=
  if c.prefixLen = 0 ∧ c.network = env.network then [] else [routeToken c.network c.prefixLen]

/-- The tokens of a chain. -/
def specTokens (env : Env af) (c : HostChain af) : List (List Char) :=
  c.routeTokens env ++ c.slots.flatMap FakeHost.tokens

/-- A specification of a chain. -/
def spec (env : Env af) (c : HostChain af) : List Char := [','].intercalate (c.specTokens env)

end HostChain

theorem not_mem_toDigits {sep : Char} {n : ℕ} (h : inPresent sep = false) :
    sep ∉ Nat.toDigits 10 n := fun hmem => by
  rw [inPresent_of_mem_toDigits hmem] at h
  cases h

theorem not_mem_present {sep : Char} {addr : Addr af} (h : inPresent sep = false) :
    sep ∉ addr.present := fun hmem => by
  rw [inPresent_of_mem hmem] at h
  cases h

theorem present_ne_nil (addr : Addr af) : addr.present ≠ [] := fun hnil => by
  have hread := inetPton_present addr
  rw [hnil] at hread
  cases af <;> cases hread

theorem not_missing (value : List Char) (hne : value ≠ []) (hcomma : ',' ∉ value) :
    ¬ (value = [] ∨ value.head? = some ',') := by
  rintro (hnil | hhead)
  · exact hne hnil
  · exact hcomma (List.mem_of_head? hhead)

theorem not_missing_toDigits (n : ℕ) :
    ¬ (Nat.toDigits 10 n = [] ∨ (Nat.toDigits 10 n).head? = some ',') :=
  not_missing _ Nat.toDigits_ne_nil (not_mem_toDigits (by decide))

/-! ## One token -/

theorem step_optionToken {key : String} (hkey : '=' ∉ key.toList) (value : List Char) :
    step env p (optionToken key value) = initOption env p key.toList value := by
  rw [step, optionToken, strchr_append hkey]

theorem step_ttl {n : ℕ} (hlt : p.i < n) (hle : n ≤ MAXTTL) :
    step env p (optionToken "ttl" (Nat.toDigits 10 n)) = .ok { p with ttl := n } := by
  have hmax : MAXTTL = 255 := rfl
  have harg : argtoi (Nat.toDigits 10 n) (p.i + 1) MAXTTL = some ⟨n, by omega, by omega⟩ :=
    argtoi_toDigits (by omega) (by omega) (by omega)
  rw [step_optionToken (by decide), initOption, if_neg (not_missing_toDigits n), if_pos rfl, harg]
  rfl

theorem step_mtu {n : ℕ} (hmin : minMtu af ≤ n) (hle : n ≤ p.maxMtu)
    (hmax : p.maxMtu ≤ IP_MAXPACKET) :
    step env p (optionToken "mtu" (Nat.toDigits 10 n)) = .ok { p with mtu := n } := by
  have hpacket : IP_MAXPACKET = 65535 := rfl
  have harg : argtoi (Nat.toDigits 10 n) (minMtu af) p.maxMtu = some ⟨n, by omega, by omega⟩ :=
    argtoi_toDigits (by omega) (by omega) (by omega)
  rw [step_optionToken (by decide), initOption, if_neg (not_missing_toDigits n),
    if_neg (by decide), if_pos rfl, harg]
  rfl

theorem step_route {network : Addr af} {prefixLen : ℕ} (hset : p.routeSet = false)
    (hle : prefixLen ≤ inetSize af)
    (hnetwork : inetIsnetwork env.overshift network prefixLen = true) :
    step env p (routeToken network prefixLen) =
      .ok (p.withRoute (network, ⟨prefixLen, hle⟩)) := by
  have hsize : inetSize af ≤ 128 := by cases af <;> decide
  have harg : argtoi (Nat.toDigits 10 prefixLen) 0 (inetSize af) =
      some ⟨prefixLen, by omega, by omega⟩ := argtoi_toDigits (by omega) (by omega) (by omega)
  have hroute : initRoute env (network.present ++ '/' :: Nat.toDigits 10 prefixLen) =
      some (network, ⟨prefixLen, hle⟩) := by
    rw [initRoute, strchr_append (not_mem_present (by decide))]
    dsimp only
    rw [inetPton_present]
    dsimp only
    rw [harg]
    exact if_pos hnetwork
  have hmissing := not_missing (network.present ++ '/' :: Nat.toDigits 10 prefixLen)
    (by simp) (by simp [not_mem_present, not_mem_toDigits, inPresent, hexDigitValue])
  rw [routeToken, step_optionToken (by decide), initOption, if_neg hmissing, if_neg (by decide),
    if_neg (by decide), if_pos rfl, hset, hroute]
  rfl

theorem step_present (env : Env af) (addr : Addr af) (hi : p.i < MAXTTL) (httl : p.i < p.ttl)
    (hmtu : 0 < p.mtu) :
    step env p addr.present =
      .ok { p with slots := Function.update p.slots p.i (p.host addr), i := p.i + 1 } := by
  have hdefaults : p.defaults = p := by
    rw [Parse.defaults, if_neg (show ¬ p.ttl = 0 by omega), if_neg (show ¬ p.mtu = 0 by omega),
      ite_self]
  rw [step, strchr_eq_none (not_mem_present (by decide))]
  dsimp only
  rw [initAddress, if_neg (by omega), hdefaults, initHosts,
    strchr_eq_none (not_mem_present (by decide))]
  dsimp only [Option.map_none, Option.getD_none]
  rw [inetPton_present]
  dsimp only
  rw [store_ok.mpr ⟨hi, rfl⟩]

/-! ## The hosts -/

/-- The parser when the tokens of a host are read. -/
def Parse.stored (p : Parse af) (h : FakeHost af) : Parse af :=
  { p with
    slots := Function.update p.slots p.i h
    ttl := h.ttl.toNat
    mtu := h.mtu.toNat
    i := p.i + 1 }

theorem hosts_stored (p : Parse af) (h : FakeHost af) : (p.stored h).hosts = p.hosts ++ [h] := by
  simp only [Parse.stored, Parse.hosts, List.range_succ, List.map_append, List.map_cons,
    List.map_nil, Function.update_self]
  congr 1
  exact List.map_congr_left fun k hk => Function.update_of_ne (List.mem_range.mp hk).ne _ _

theorem maxMtu_stored (hmin : minMtu af ≤ h.mtu.toNat) : (p.stored h).maxMtu = h.mtu.toNat := by
  have hpos := minMtu_pos af
  exact if_neg (show ¬ h.mtu.toNat = 0 by omega)

/-- **The tokens of a host** store it. -/
theorem run_hostTokens (env : Env af) (hlt : p.i < h.ttl.toNat) (hmin : minMtu af ≤ h.mtu.toNat)
    (hle : h.mtu.toNat ≤ p.maxMtu) (hmax : p.maxMtu ≤ IP_MAXPACKET) :
    run (step env) p h.tokens = .ok (p.stored h) := by
  have httl := h.ttl.toNat_lt
  have hpos := minMtu_pos af
  have hslots : MAXTTL = 255 := rfl
  have hhost : FakeHost.mk (UInt8.ofNat h.ttl.toNat) (UInt16.ofNat h.mtu.toNat) h.addr = h := by
    rw [UInt8.ofNat_toNat, UInt16.ofNat_toNat]
  have hpresent := step_present (p := { p with ttl := h.ttl.toNat, mtu := h.mtu.toNat }) env h.addr
    (show p.i < MAXTTL by omega) hlt (show 0 < h.mtu.toNat by omega)
  rw [Parse.host, hhost] at hpresent
  refine run_cons_ok.mpr ⟨_, step_ttl hlt (by omega), run_cons_ok.mpr ⟨_, step_mtu hmin hle hmax,
    run_cons_ok.mpr ⟨_, hpresent, rfl⟩⟩⟩

/-- What the parser has read when the hosts are stored. -/
structure Reads (p : Parse af) (stored : List (FakeHost af)) (p' : Parse af) : Prop where
  hosts : p'.hosts = p.hosts ++ stored
  network : p'.network = p.network
  prefixLen : p'.prefixLen = p.prefixLen

/-- **The tokens of hosts** store them one after the other. -/
theorem run_hostsTokens (env : Env af) {hosts : List (FakeHost af)}
    (httl : ∀ k h, hosts[k]? = some h → p.i + k < h.ttl.toNat) (hmtu : MtuPath hosts)
    (hle : ∀ h ∈ hosts, h.mtu.toNat ≤ p.maxMtu) (hmax : p.maxMtu ≤ IP_MAXPACKET) :
    ∃ p', run (step env) p (hosts.flatMap FakeHost.tokens) = .ok p' ∧ Reads p hosts p' := by
  induction hosts generalizing p with
  | nil => exact ⟨p, rfl, (List.append_nil _).symm, rfl, rfl⟩
  | cons h hosts ih =>
    obtain ⟨hmin, hpacket⟩ := hmtu.bounds h List.mem_cons_self
    obtain ⟨hdesc, hpairwise⟩ := List.pairwise_cons.mp hmtu.pairwise
    have hfirst := run_hostTokens env (httl 0 h rfl) hmin (hle h List.mem_cons_self) hmax
    have httl' (k : ℕ) (g : FakeHost af) (hg : hosts[k]? = some g) :
        (p.stored h).i + k < g.ttl.toNat := by
      have hlt := httl (k + 1) g hg
      have hi : (p.stored h).i = p.i + 1 := rfl
      omega
    have hle' (g : FakeHost af) (hg : g ∈ hosts) : g.mtu.toNat ≤ (p.stored h).maxMtu := by
      rw [maxMtu_stored hmin]
      exact UInt16.le_iff_toNat_le.mp (hdesc g hg)
    obtain ⟨p', hrun, hreads⟩ := ih httl'
      ⟨hpairwise, fun g hg => hmtu.bounds g (List.mem_cons_of_mem _ hg)⟩ hle'
      ((maxMtu_stored hmin).trans_le hpacket)
    refine ⟨p', ?_, ?_, hreads.network, hreads.prefixLen⟩
    · rw [List.flatMap_cons]
      exact run_append_ok.mpr ⟨_, hfirst, hrun⟩
    · rw [hreads.hosts, hosts_stored, List.append_assoc]
      rfl

/-! ## Whole specifications -/

namespace HostChain

/-- What a chain must meet so that a specification can ask for it: a zeroed slot ends its hosts,
there is a host, every host has a TTL above its position, the MTUs do not increase, and the route is
that of no option, or one that passes the check. -/
structure Describable (env : Env af) (c : HostChain af) : Prop where
  buf : c.buf = c.slots ++ [FakeHost.null af]
  slots : c.slots ≠ []
  ttl : TtlAbove c.slots
  mtu : MtuPath c.slots
  route : c.prefixLen = 0 ∧ c.network = env.network ∨
    inetIsnetwork env.overshift c.network c.prefixLen = true

theorem eq_of_fields {c c' : HostChain af} (hbuf : c.buf = c'.buf)
    (hnetwork : c.network = c'.network) (hbefore : c.prefixLen = c'.prefixLen) : c = c' := by
  cases c
  cases c'
  cases hbuf
  cases hnetwork
  cases hbefore
  rfl

theorem not_mem_specTokens {sep : Char} (hsep : sep = ',' ∨ sep = '-') {token : List Char}
    (htoken : token ∈ c.specTokens env) : sep ∉ token := by
  have hpresent : inPresent sep = false := by
    rcases hsep with rfl | rfl <;> decide
  have hdigits (n : ℕ) : sep ∉ Nat.toDigits 10 n := not_mem_toDigits hpresent
  have haddr (addr : Addr af) : sep ∉ addr.present := not_mem_present hpresent
  have hoption (key : String) (hkey : ',' ∉ key.toList ∧ '-' ∉ key.toList) {value : List Char}
      (hvalue : sep ∉ value) : sep ∉ optionToken key value := by
    rw [optionToken, List.mem_append, List.mem_cons]
    rintro (hmem | heq | hmem)
    · rcases hsep with rfl | rfl
      · exact hkey.1 hmem
      · exact hkey.2 hmem
    · rcases hsep with rfl | rfl <;> cases heq
    · exact hvalue hmem
  rw [specTokens, List.mem_append, List.mem_flatMap] at htoken
  rcases htoken with hroute | ⟨h, -, hh⟩
  · rw [routeTokens] at hroute
    split_ifs at hroute
    · cases hroute
    · rw [List.mem_singleton.mp hroute, routeToken]
      refine hoption "route" (by decide) ?_
      rw [List.mem_append, List.mem_cons]
      rintro (hmem | heq | hmem)
      · exact haddr _ hmem
      · rcases hsep with rfl | rfl <;> cases heq
      · exact hdigits _ hmem
  · simp only [FakeHost.tokens, List.mem_cons, List.not_mem_nil, or_false] at hh
    rcases hh with rfl | rfl | rfl
    · exact hoption "ttl" (by decide) (hdigits _)
    · exact hoption "mtu" (by decide) (hdigits _)
    · exact haddr _

theorem specTokens_ne {token : List Char} (htoken : token ∈ c.specTokens env) : token ≠ [] := by
  have hoption (key : String) (value : List Char) : optionToken key value ≠ [] := by
    rw [optionToken]
    simp
  rw [specTokens, List.mem_append, List.mem_flatMap] at htoken
  rcases htoken with hroute | ⟨h, -, hh⟩
  · rw [routeTokens] at hroute
    split_ifs at hroute
    · cases hroute
    · rw [List.mem_singleton.mp hroute]
      exact hoption _ _
  · simp only [FakeHost.tokens, List.mem_cons, List.not_mem_nil, or_false] at hh
    rcases hh with rfl | rfl | rfl
    · exact hoption _ _
    · exact hoption _ _
    · exact present_ne_nil h.addr

theorem tokens_spec (env : Env af) (c : HostChain af) :
    tokens (c.spec env) = c.specTokens env := by
  by_cases hnil : c.specTokens env = []
  · rw [spec, hnil]
    rfl
  rw [tokens, spec, List.splitOn_intercalate ',' _ hnil]
  · exact List.filter_eq_self.mpr fun token htoken => decide_eq_true (specTokens_ne htoken)
  · exact fun token htoken => not_mem_specTokens (.inl rfl) htoken

theorem run_routeTokens (hc : c.Describable env) : ∃ p, p.network = c.network ∧
    p.prefixLen = c.prefixLen ∧ p.hosts = [] ∧ p.i = 0 ∧ p.mtu = 0 ∧
      run (step env) (Parse.start env) (c.routeTokens env) = .ok p := by
  rw [routeTokens]
  by_cases hdefault : c.prefixLen = 0 ∧ c.network = env.network
  · rw [if_pos hdefault]
    exact ⟨Parse.start env, hdefault.2.symm, hdefault.1.symm, rfl, rfl, rfl, rfl⟩
  · rw [if_neg hdefault]
    have hroute := step_route (p := Parse.start env) rfl c.prefixLen_le
      (hc.route.resolve_left hdefault)
    exact ⟨_, rfl, rfl, rfl, rfl, rfl, run_cons_ok.mpr ⟨_, hroute, rfl⟩⟩

/-- **The specification** of a chain is read back. -/
theorem init_spec (hc : c.Describable env) : init env (c.spec env) = .ok c := by
  obtain ⟨p, hnetwork, hbefore, hhosts, hi, hmtu, hrun⟩ := run_routeTokens hc
  have hmaxMtu : p.maxMtu = IP_MAXPACKET := by rw [Parse.maxMtu, if_pos hmtu]
  obtain ⟨p', hrun', hreads⟩ := run_hostsTokens (p := p) env
    (fun k h hk => by
      rw [hi, Nat.zero_add]
      exact hc.ttl k h hk)
    hc.mtu
    (fun h hh => (hc.mtu.bounds h hh).2.trans_eq hmaxMtu.symm) hmaxMtu.le
  have hstored : p'.hosts = c.slots := by rw [hreads.hosts, hhosts, List.nil_append]
  refine init_ok_iff.mpr ⟨p', ?_, ?_, eq_of_fields ?_ ?_ ?_⟩
  · rw [parse, tokens_spec]
    exact run_append_ok.mpr ⟨p, hrun, hrun'⟩
  · have hlen := congrArg List.length hstored
    rw [Parse.length_hosts] at hlen
    rw [hlen]
    exact fun hzero => hc.slots (List.length_eq_zero_iff.mp hzero)
  · rw [hc.buf, ← hstored]
    rfl
  · exact hnetwork.symm.trans hreads.network.symm
  · exact hbefore.symm.trans hreads.prefixLen.symm

theorem rangeEnds_spec {token : List Char} (h : token ∈ tokens (c.spec env)) :
    rangeEnds af token = none := by
  rw [tokens_spec] at h
  rw [rangeEnds, strchr_eq_none (not_mem_specTokens (.inr rfl) h)]

theorem rangesWithinTtl_spec (env : Env af) (c : HostChain af) :
    RangesWithinTtl env (c.spec env) := by
  intro p token first last hvisit _ hends
  rw [rangeEnds_spec hvisit.mem] at hends
  cases hends

theorem route_of_init (h : init env s = .ok c) : c.prefixLen = 0 ∧ c.network = env.network ∨
    inetIsnetwork env.overshift c.network c.prefixLen = true := by
  obtain ⟨p, hparse, -, rfl⟩ := init_ok h
  have hscope := inScope_parse hparse
  by_cases hnone : routes (tokens s) = []
  · have hroute := hscope.route
    rw [hnone] at hroute
    exact .inl ⟨hroute.2, hroute.1⟩
  · exact .inr (routeChecked_parse hparse (hscope.routeSet.mpr hnone))

theorem describable_of_init (hrange : RangesWithinTtl env s) (h : init env s = .ok c) :
    c.Describable env := by
  have hroute := route_of_init h
  have httl := (ttlAbove_slots_iff h).mpr hrange
  have hmtu := mtuPath_init h
  obtain ⟨p, hparse, hi, rfl⟩ := init_ok h
  have hslots := slots_finish p
  refine ⟨by rw [hslots]; rfl, fun hnil => ?_, httl, hmtu, hroute⟩
  have hlen := congrArg List.length (hslots.symm.trans hnil)
  rw [Parse.length_hosts, List.length_nil] at hlen
  omega

/-- **Specifications and chains.** The chains of the specifications whose ranges end within the
current TTL are the describable ones, and each of them is read back from its own specification. -/
theorem describable_tfae (env : Env af) (c : HostChain af) :
    [c.Describable env, init env (c.spec env) = .ok c,
      ∃ s, RangesWithinTtl env s ∧ init env s = .ok c].TFAE := by
  tfae_have 1 → 2 := init_spec
  tfae_have 2 → 3 := fun h => ⟨c.spec env, rangesWithinTtl_spec env c, h⟩
  tfae_have 3 → 1 := fun ⟨_, hrange, h⟩ => describable_of_init hrange h
  tfae_finish

end HostChain

end Rdnstun
