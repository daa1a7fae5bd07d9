import Rdnstun.Chain.Shift
import Rdnstun.Chain.Ttl

/-!
# No host is lost

The hosts of a chain end at the first null address, whether it is the end marker or not.

* `configured`: the addresses that a specification lists. A range over all 32-bit tails is counted
  as none by the parser (`rangeAddrs_of_full`).
* `HostChain.Whole`: the null slot at the end of the buffer is the first one, after a given number
  of hosts, and each of them can be found.
* `HostChain.round`: a copy and a shift, as `-E` performs them.
* **`whole_iff`**: the chain of a specification stays whole under rounds exactly when no address of
  it is null, none of its ranges is counted as none and no round makes a host null.
-/

namespace Rdnstun

open Run

variable {af : Af} {env : Env af} {s : List Char} {p p' : Parse af} {token : List Char}

/-! ## The addresses of a specification -/

/-- The addresses from `first` to `last`, both ends included. -/
def rangeOf (first last : Addr af) : List (Addr af) :=
  if first = last then [first]
  else (List.range (span (tail32 first) (tail32 last))).map
    (rangeAddr first (tail32 first) (tail32 last))

/-- The addresses that a token without a value lists. -/
def listed (af : Af) (token : List Char) : List (Addr af) :=
  match strchr token '-' with
  | none => (inetPton af token).toList
  | some _ => ((rangeEnds af token).map fun e => rangeOf e.1 e.2).getD []

/-- The addresses that the tokens of a specification list. -/
def configured (af : Af) (s : List Char) : List (Addr af) :=
  ((tokens s).filter fun token => strchr token '=' = none).flatMap (listed af)

/-- The token is not a range over all 32-bit tails. -/
def NotFull (af : Af) (token : List Char) : Prop :=
  ∀ first last, rangeEnds af token = some (first, last) → span (tail32 first) (tail32 last) < 2 ^ 32

theorem rangeAddrs_of_lt {first last : Addr af} (h : span (tail32 first) (tail32 last) < 2 ^ 32) :
    rangeAddrs first last = rangeOf first last := by
  rw [rangeAddrs, rangeOf, toNat_nAddr, Nat.mod_eq_of_lt h]

theorem rangeAddrs_of_full {first last : Addr af}
    (h : span (tail32 first) (tail32 last) = 2 ^ 32) :
    rangeAddrs first last = [] ∧ (rangeOf first last).length = 2 ^ 32 := by
  have hne : first ≠ last := by
    rintro rfl
    simp [span] at h
  rw [rangeAddrs, rangeOf, if_neg hne, if_neg hne, toNat_nAddr, h, List.length_map,
    List.length_range]
  exact ⟨rfl, rfl⟩

theorem listed_of_rangeEnds {first last : Addr af} (h : rangeEnds af token = some (first, last)) :
    listed af token = rangeOf first last := by
  unfold listed
  cases hdash : strchr token '-' with
  | none => rw [rangeEnds, hdash] at h; cases h
  | some parts => rw [h]; rfl

theorem listed_of_rangeEnds_none (h : rangeEnds af token = none) :
    tokenAddrs af token = listed af token := by
  unfold tokenAddrs listed
  cases hdash : strchr token '-' with
  | none => rfl
  | some parts => rw [h]; rfl

/-- A token contributes the addresses that it lists, or fewer if it is a range over all tails. -/
theorem tokenAddrs_spec (af : Af) (token : List Char) :
    NotFull af token ∧ tokenAddrs af token = listed af token ∨
      ¬ NotFull af token ∧ (tokenAddrs af token).length < (listed af token).length := by
  cases hends : rangeEnds af token with
  | none =>
    refine .inl ⟨fun first last h => ?_, listed_of_rangeEnds_none hends⟩
    rw [hends] at h
    cases h
  | some ends =>
    obtain ⟨first, last⟩ := ends
    rw [tokenAddrs_of_rangeEnds hends, listed_of_rangeEnds hends]
    obtain hlt | hfull := Nat.lt_or_eq_of_le (span_le (tail32 first) (tail32 last))
    · refine .inl ⟨fun f l h => ?_, rangeAddrs_of_lt hlt⟩
      rw [hends] at h
      cases h
      exact hlt
    · obtain ⟨hnil, hlen⟩ := rangeAddrs_of_full hfull
      refine .inr ⟨fun h => (h first last hends).ne hfull, ?_⟩
      rw [hnil, hlen, List.length_nil]
      exact Nat.two_pow_pos 32

/-- The tokens contribute as many addresses as they list exactly when no range is over all tails. -/
theorem length_flatMap_tokenAddrs (af : Af) (l : List (List Char)) :
    (l.flatMap (tokenAddrs af)).length ≤ (l.flatMap (listed af)).length ∧
      ((l.flatMap (tokenAddrs af)).length = (l.flatMap (listed af)).length ↔
        ∀ token ∈ l, NotFull af token) := by
  induction l with
  | nil => simp
  | cons token l ih =>
    obtain ⟨hle, heq⟩ := ih
    simp only [List.flatMap_cons, List.length_append, List.forall_mem_cons]
    rcases tokenAddrs_spec af token with ⟨hfull, htoken⟩ | ⟨hfull, hlt⟩
    · rw [htoken]
      exact ⟨by omega, by simpa [hfull] using heq⟩
    · exact ⟨by omega, iff_of_false (by omega) fun hall => hfull hall.1⟩

theorem flatMap_tokenAddrs {l : List (List Char)} (h : ∀ token ∈ l, NotFull af token) :
    l.flatMap (tokenAddrs af) = l.flatMap (listed af) := by
  refine List.flatMap_congr fun token htoken => ?_
  rcases tokenAddrs_spec af token with ⟨-, htoken'⟩ | ⟨hfull, -⟩
  · exact htoken'
  · exact absurd (h token htoken) hfull

/-! ## The parser -/

theorem addrs_run {l : List (List Char)} (h : run (step env) p l = .ok p') :
    p'.hosts.map FakeHost.addr = p.hosts.map FakeHost.addr ++
      (l.filter fun token => strchr token '=' = none).flatMap (tokenAddrs af) := by
  induction l generalizing p with
  | nil =>
    cases h
    simp
  | cons token l ih =>
    obtain ⟨q, hstep, hrun⟩ := run_cons_ok.mp h
    rw [ih hrun]
    rcases step_ok hstep with ⟨hsome, hset⟩ | ⟨hnone, -, -, happ⟩
    · rw [hset.hosts, List.filter_cons_of_neg]
      simpa [Option.isSome_iff_ne_none] using hsome
    · rw [List.filter_cons_of_pos (by simpa using hnone), List.flatMap_cons, happ.hosts,
        Parse.hosts_defaults, List.map_append, List.map_map, List.append_assoc]
      congr 2
      exact List.map_id _

theorem i_le_step (p : Parse af) (token : List Char) (p' : Parse af) (hp : p.i ≤ MAXTTL)
    (h : step env p token = .ok p') : p'.i ≤ MAXTTL := by
  rcases step_ok h with ⟨-, hset⟩ | ⟨-, -, -, happ⟩
  · rw [hset.i]
    exact hp
  · exact happ.i_le

theorem i_le_of_parse (h : parse env s = .ok p) : p.i ≤ MAXTTL :=
  run_invariant (P := fun q => q.i ≤ MAXTTL) i_le_step (Nat.zero_le _) h

namespace HostChain

/-- One round of `-E` on a chain: a copy, shifted by an offset at a prefix. -/
def round (c : HostChain af) (x : ℤ × ℕ) : Except ℕ (HostChain af) := c.copy.shift x.1 x.2

/-- The chain has `n` hosts and then the first null slot, the end of its buffer; the address of each
host is found, and each host is handed back for some address. -/
structure Whole (c : HostChain af) (n : ℕ) : Prop where
  nitem : c.nitem = n
  length : c.buf.length = n + 1
  found : ∀ k < n, ∃ ttl hit, c.find (c.hostAt k).addr ttl = some hit ∧ hit.found = true ∧
    (c.hostAt hit.slot).addr = (c.hostAt k).addr
  reached : ∀ k < n, ∃ addr ttl hit, c.find addr ttl = some hit ∧ hit.slot = k

variable {c c' : HostChain af} {x : ℤ × ℕ} {l : List (ℤ × ℕ)} {n : ℕ}

/-! ## Reaching every host -/

theorem pos_any (c : HostChain af) : c.pos (Addr.any af) = c.hosts.length := by
  rw [pos, List.findIdx_eq_length]
  intro h hh
  simpa [FakeHost.isnull] using not_isnull_of_mem_hosts hh

/-- Each of at most `MAXTTL` hosts is reached. -/
theorem whole_of_nitem (hn : c.nitem = n) (hlen : c.buf.length ≤ n + 1) (hmax : n ≤ MAXTTL) :
    Whole c n := by
  have hhosts : c.hosts.length = n := c.length_hosts.trans hn
  have hlt := c.nitem_lt
  have hmax' : MAXTTL = 255 := rfl
  refine ⟨hn, by omega, fun k hk => ?_, fun k hk => ?_⟩
  · have hpos : c.pos (c.hostAt k).addr < min (255 : UInt8).toNat c.hosts.length := by
      have hmem : c.pos (c.hostAt k).addr < c.hosts.length := by
        refine List.findIdx_lt_length_of_exists ⟨c.hostAt k, ?_, by simp⟩
        rw [hostAt_eq_getElem (by omega)]
        exact List.getElem_mem _
      show _ < min 255 _
      omega
    have hfind := c.find_eq (c.hostAt k).addr 255
    rw [if_pos hpos] at hfind
    exact ⟨255, _, hfind, rfl, (isHit hfind).addr_eq_iff.mpr rfl⟩
  · have httl : (UInt8.ofNat (k + 1)).toNat = k + 1 := by
      rw [UInt8.toNat_ofNat']
      omega
    have hmin : min (UInt8.ofNat (k + 1)).toNat c.hosts.length = k + 1 := by omega
    have hfind := c.find_eq (Addr.any af) (UInt8.ofNat (k + 1))
    rw [hmin, pos_any, if_neg (by omega), if_neg (by omega)] at hfind
    exact ⟨_, _, _, hfind, rfl⟩

/-! ## Rounds -/

theorem isnull_iff {h : FakeHost af} : h.isnull = true ↔ h.addr = Addr.any af := decide_eq_true_iff

theorem length_takeWhile_eq_iff {α : Type*} {f : α → Bool} {l : List α} :
    (l.takeWhile f).length = l.length ↔ ∀ a ∈ l, f a = true := by
  rw [← List.takeWhile_eq_self_iff]
  exact ⟨fun h => (List.takeWhile_prefix f).eq_of_length h, fun h => by rw [h]⟩

theorem le_of_shift (h : c.shift x.1 x.2 = .ok c') : x.2 ≤ inetSize af := by
  by_contra hlt
  rw [shift] at h
  rw [inetShift_eq_none.mpr (Nat.lt_of_not_le hlt)] at h
  cases h

/-- **A round** keeps the number of hosts exactly when it makes no host null. -/
theorem nitem_round (h : c.round x = .ok c') : c'.nitem ≤ c.nitem ∧ (c'.nitem = c.nitem ↔
    ∀ h ∈ c.hosts, inetShift h.addr x.1 x.2 ≠ some (Addr.any af)) := by
  have hq := le_of_shift h
  have hhosts := hosts_shift h hq
  rw [hosts_copy] at hhosts
  have hmap : (c.hosts.map fun h => h.shift x.1 x.2).length = c.nitem := by
    rw [List.length_map, length_hosts]
  rw [← c'.length_hosts, hhosts, ← hmap]
  refine ⟨(List.takeWhile_prefix _).length_le, length_takeWhile_eq_iff.trans ?_⟩
  rw [List.forall_mem_map]
  refine forall₂_congr fun g _ => ?_
  rw [inetShift_eq_shift _ _ hq, ne_eq, Option.some_inj, Bool.not_eq_true', ← Bool.not_eq_true,
    isnull_iff]
  rfl

theorem length_buf_round (h : c.round x = .ok c') : c'.buf.length ≤ c.buf.length := by
  obtain ⟨-, -, hbuf⟩ := of_shift h (le_of_shift h)
  obtain ⟨last, -, hcopy⟩ := c.copy_buf
  have hlt := c.nitem_lt
  have hcopied : c.copy.nitem = c.nitem := by
    rw [← length_hosts, hosts_copy, length_hosts]
  rw [hbuf, List.length_append, List.length_map, hosts_copy, hcopied, hcopy, ← length_hosts,
    List.drop_left, List.length_singleton, length_hosts]
  omega

/-! ## A specification -/

theorem nitem_finish (p : Parse af) : p.finish.nitem ≤ p.i ∧
    (p.finish.nitem = p.i ↔ Addr.any af ∉ p.hosts.map FakeHost.addr) := by
  have hhosts : p.finish.hosts = p.hosts.takeWhile fun h => !h.isnull :=
    takeWhile_hosts_append (FakeHost.isnull_null af)
  rw [← length_hosts, hhosts, ← p.length_hosts]
  refine ⟨(List.takeWhile_prefix _).length_le, length_takeWhile_eq_iff.trans ?_⟩
  simp [FakeHost.isnull, List.mem_map]

/-- **No host is lost**: the chain of a specification, after any rounds, has all the hosts that the
specification lists exactly when none of these is null, no range is over all 32-bit tails and no
round makes a host null. -/
theorem whole_iff (hinit : init env s = .ok c) (hrun : run round c l = .ok c') :
    (∀ p, parse env s = .ok p → p.i = (configured af s).length) ∧
        Whole c' (configured af s).length ↔
      (∀ token ∈ tokens s, strchr token '=' = none → NotFull af token) ∧
        Addr.any af ∉ configured af s ∧
        ∀ t x, Visits round c l t x →
          ∀ h ∈ t.hosts, inetShift h.addr x.1 x.2 ≠ some (Addr.any af) := by
  obtain ⟨p, hparse, -, rfl⟩ := init_ok hinit
  have haddrs : p.hosts.map FakeHost.addr = ((tokens s).filter fun token =>
    strchr token '=' = none).flatMap (tokenAddrs af) := addrs_run hparse
  have hi : p.i = (p.hosts.map FakeHost.addr).length := by simp
  have hmax := i_le_of_parse hparse
  obtain ⟨hcount, hfull⟩ := length_flatMap_tokenAddrs af
    ((tokens s).filter fun token => strchr token '=' = none)
  rw [← haddrs, ← hi] at hcount hfull
  obtain ⟨hle, hnull⟩ := nitem_finish p
  obtain ⟨hle', hkeep⟩ := run_potential (fun _ _ _ => nitem_round) hrun
  have hbuf : p.finish.buf.length = p.i + 1 := by simp [Parse.finish, ofHosts]
  have hbuf' : c'.buf.length ≤ p.i + 1 :=
    run_invariant (P := fun t => t.buf.length ≤ p.i + 1)
      (fun _ _ _ ht hround => (length_buf_round hround).trans ht) hbuf.le hrun
  have hfull' : (∀ token ∈ (tokens s).filter fun token => strchr token '=' = none,
      NotFull af token) ↔ ∀ token ∈ tokens s, strchr token '=' = none → NotFull af token := by
    simp [List.mem_filter]
  rw [hfull'] at hfull
  constructor
  · rintro ⟨hcounter, hwhole⟩
    have hlen := hcounter p hparse
    have hnitem := hwhole.nitem
    have hlisted := hfull.mp hlen
    rw [haddrs, flatMap_tokenAddrs (hfull'.mpr hlisted)] at hnull
    exact ⟨hlisted, hnull.mp (by omega), hkeep.mp (by omega)⟩
  · rintro ⟨hlisted, hany, hgood⟩
    have hlen : p.i = (configured af s).length := hfull.mpr hlisted
    rw [haddrs, flatMap_tokenAddrs (hfull'.mpr hlisted)] at hnull
    have hfirst := hnull.mpr hany
    have hrest := hkeep.mpr hgood
    refine ⟨fun q hq => ?_, whole_of_nitem (by omega) (by omega) (by omega)⟩
    rw [hparse, Except.ok.injEq] at hq
    rw [← hq, hlen]

/-- The chain of a range of three hosts. -/
def threeHosts : HostChain .inet :=
  .defaultRoute ((List.range 3).map fun k => ⟨64, 1500, .v4 10 0 0 (.ofNat (k + 1))⟩)

theorem whole_threeHosts : ∃ c', run round threeHosts [(1, 24)] = .ok c' ∧ Whole c' 3 := by
  have hinit : init (Env.zeroed .inet) "10.0.0.1-10.0.0.3".toList = .ok threeHosts := rfl
  have hrun : run round threeHosts [(1, 24)] = .ok _ := rfl
  refine ⟨_, hrun, ((whole_iff hinit hrun).mpr ⟨?_, by decide, ?_⟩).2⟩
  · intro token htoken _ first last hends
    obtain rfl := List.mem_singleton.mp
      (show token ∈ ["10.0.0.1-10.0.0.3".toList] from htoken)
    cases hends
    decide
  · intro t x hvisit
    rcases visits_cons.mp hvisit with ⟨rfl, rfl⟩ | ⟨_, -, hnil⟩
    · decide
    · exact absurd hnil not_visits_nil

/-- The unspecified address between two others ends the chain after the first host. -/
theorem not_whole : ¬ ∀ (af : Af) (env : Env af) (s : List Char) (c c' : HostChain af)
    (l : List (ℤ × ℕ)), init env s = .ok c → run round c l = .ok c' →
      Whole c' (configured af s).length := by
  intro h
  have hwhole := h .inet (Env.zeroed .inet) "1.1.1.1,0.0.0.0,2.2.2.2".toList _ _ [] rfl rfl
  exact absurd hwhole.nitem (by decide)

end HostChain

end Rdnstun
