import Rdnstun.Chain.Steps

/-!
# The slots that the parser writes

The guard of a range is computed in 32 bits. Among the slots that the parser reaches it lets a
range through when the range fits, and also when the sum wraps (`rangeFits_iff`); a sum that wraps
is let through always.

* `GuardAt`: the parser evaluates the guard of a range.
* `NoWrap`: the guard wraps at no range but one over all tails; `noWrap_of_init`: it does so in no
  specification that is accepted.
* `SlotsSafe`: no store is beyond the slots, and the guard lets a range through only if its true
  size fits.
* **`slotsSafe_iff`**: this is so exactly when no such sum wraps.
-/

namespace Rdnstun

open Run

variable {af : Af}

/-- **The guard of a range** at a slot below `MAXTTL`. -/
theorem rangeFits_iff {i : ℕ} {start stop : UInt32} (hi : i < MAXTTL) :
    rangeFits i start stop = true ↔
      i + span start stop < MAXTTL ∨ 2 ^ 32 ≤ i + span start stop := by
  have hspan := span_le start stop
  have hmax : MAXTTL = 255 := rfl
  rw [rangeFits, decide_eq_true_eq, toNat_nAddr]
  omega

/-- The parser evaluates the guard of a range with the given ends at slot `i`. -/
def GuardAt (env : Env af) (s : List Char) (i : ℕ) (first last : Addr af) : Prop :=
  ∃ p token, Visits (step env) (Parse.start env) (tokens s) p token ∧ strchr token '=' = none ∧
    p.ttlOk ∧ p.i = i ∧ rangeEnds af token = some (first, last) ∧ first ≠ last ∧
    head96 first = head96 last

/-- No range that the parser reaches makes its guard wrap. A range over all 32-bit tails does no
harm: nothing more than its first address is stored. -/
def NoWrap (env : Env af) (s : List Char) : Prop :=
  ∀ i first last, GuardAt env s i first last → span (tail32 first) (tail32 last) < 2 ^ 32 →
    i + span (tail32 first) (tail32 last) < 2 ^ 32

/-- Every slot the parser writes is below `MAXTTL`, and a range is let through only if its true
size fits. -/
def SlotsSafe (env : Env af) (s : List Char) : Prop :=
  (∀ k, HostChain.init env s ≠ .error (.overrun k)) ∧
    ∀ i first last, GuardAt env s i first last →
      rangeFits i (tail32 first) (tail32 last) = true →
        i + span (tail32 first) (tail32 last) < MAXTTL

/-! ## The TTL bounds the slots -/

theorem Parse.ttl_defaults_le {p : Parse af} (h : p.ttl ≤ MAXTTL) : p.defaults.ttl ≤ MAXTTL := by
  have hmax : MAXTTL = 255 := rfl
  rw [Parse.ttl_defaults]
  split_ifs <;> omega

theorem Appends.ttl {p p' : Parse af} {addrs : List (Addr af)} (h : Appends p p' addrs) :
    p'.ttl = p.ttl := by
  rw [h.eq]

theorem Appends.mtu {p p' : Parse af} {addrs : List (Addr af)} (h : Appends p p' addrs) :
    p'.mtu = p.mtu := by
  rw [h.eq]

theorem Appends.i {p p' : Parse af} {addrs : List (Addr af)} (h : Appends p p' addrs) :
    p'.i = p.i + addrs.length := by
  rw [h.eq]

theorem ttl_le_step {env : Env af} (p : Parse af) (token : List Char) (p' : Parse af)
    (hp : p.ttl ≤ MAXTTL) (h : step env p token = .ok p') : p'.ttl ≤ MAXTTL := by
  rcases step_ok h with ⟨-, hset⟩ | ⟨-, -, -, happ⟩
  · rcases hset.ttl with httl | httl
    · rw [httl]; exact hp
    · exact httl.2
  · rw [happ.ttl]
    exact Parse.ttl_defaults_le hp

theorem visits_ttl_le {env : Env af} {s : List Char} {p : Parse af} {token : List Char}
    (h : Visits (step env) (Parse.start env) (tokens s) p token) : p.ttl ≤ MAXTTL :=
  h.invariant (P := fun p => p.ttl ≤ MAXTTL) ttl_le_step (Nat.zero_le _)

theorem Parse.i_lt_of_ttlOk {p : Parse af} (httl : p.ttl ≤ MAXTTL) (h : p.ttlOk) :
    p.i < MAXTTL := by
  have hmax : MAXTTL = 255 := rfl
  rcases h with h | h <;> omega

/-! ## Stores beyond the slots -/

theorem fill_error {host : ℕ → FakeHost af} {i j count : ℕ} {slots : ℕ → FakeHost af}
    {e : InitError} (h : fill host i count j slots = .error e) : MAXTTL < i + j + count := by
  by_contra hle
  rw [fill_ok (by omega)] at h
  cases h

theorem initOption_ne_overrun {env : Env af} {p : Parse af} {token value : List Char} {k : ℕ} :
    initOption env p token value ≠ .error (.overrun k) := by
  unfold initOption
  intro h
  split_ifs at h
  · cases h
  · cases harg : argtoi value (p.i + 1) MAXTTL <;> rw [harg] at h <;> cases h
  · cases harg : argtoi value (minMtu af) p.maxMtu <;> rw [harg] at h <;> cases h
  · cases h
  · cases harg : initRoute env value <;> rw [harg] at h <;> cases h
  · cases h

theorem initRange_overrun {p : Parse af} {first last : Addr af} {k : ℕ}
    (h : initRange p first last = .error (.overrun k)) :
    first ≠ last ∧ head96 first = head96 last ∧
      rangeFits p.i (tail32 first) (tail32 last) = true ∧
        MAXTTL < p.i + 1 + ((nAddr (tail32 first) (tail32 last)).toNat - 1) := by
  unfold initRange at h
  split_ifs at h with heq hhead
  · cases h
  dsimp only at h
  split_ifs at h with hfits
  swap
  · cases h
  refine ⟨heq, not_not.mp hhead, hfits, ?_⟩
  cases hfill : fill (fun j => p.host (rangeAddr first (tail32 first) (tail32 last) j)) p.i
      ((nAddr (tail32 first) (tail32 last)).toNat - 1) 1 p.slots with
  | error e => exact fill_error hfill
  | ok slots => rw [hfill] at h; cases h

/-- **Only a range** whose guard was evaluated stores beyond the slots. -/
theorem initHosts_overrun {p : Parse af} {token : List Char} {k : ℕ} (hi : p.i < MAXTTL)
    (h : initHosts p token = .error (.overrun k)) :
    ∃ first last, rangeEnds af token = some (first, last) ∧ first ≠ last ∧
      head96 first = head96 last ∧ rangeFits p.i (tail32 first) (tail32 last) = true ∧
        MAXTTL < p.i + 1 + ((nAddr (tail32 first) (tail32 last)).toNat - 1) := by
  unfold initHosts at h
  have hstore (host : FakeHost af) :
      store p.slots p.i host = .ok (Function.update p.slots p.i host) := if_pos hi
  cases hdash : strchr token '-' with
  | none =>
    rw [hdash] at h
    dsimp only [Option.map_none, Option.getD_none] at h
    cases hfirst : inetPton af token with
    | none => rw [hfirst] at h; cases h
    | some first => rw [hfirst] at h; dsimp only at h; rw [hstore] at h; cases h
  | some parts =>
    obtain ⟨a, b⟩ := parts
    rw [hdash] at h
    dsimp only [Option.map_some, Option.getD_some] at h
    cases hfirst : inetPton af a with
    | none => rw [hfirst] at h; cases h
    | some first =>
      rw [hfirst] at h
      dsimp only at h
      rw [hstore] at h
      dsimp only at h
      cases hlast : inetPton af b with
      | none => rw [hlast] at h; cases h
      | some last =>
        rw [hlast] at h
        have hrange := initRange_overrun
          (p := { p with slots := Function.update p.slots p.i (p.host first) }) h
        refine ⟨first, last, ?_, hrange⟩
        rw [rangeEnds, hdash]
        dsimp only
        rw [hfirst, hlast]

theorem init_overrun {env : Env af} {s : List Char} {k : ℕ}
    (h : HostChain.init env s = .error (.overrun k)) :
    ∃ i first last, GuardAt env s i first last ∧ i < MAXTTL ∧
      rangeFits i (tail32 first) (tail32 last) = true ∧
        MAXTTL < i + 1 + ((nAddr (tail32 first) (tail32 last)).toNat - 1) := by
  have hparse : parse env s = .error (.overrun k) := by
    unfold HostChain.init at h
    cases hp : parse env s with
    | error e => rw [hp] at h; cases h; rfl
    | ok p =>
      rw [hp] at h
      dsimp only at h
      split_ifs at h
      cases h
  obtain ⟨p, token, hvisit, hstep⟩ := exists_visits_of_error hparse
  unfold step at hstep
  cases heq : strchr token '=' with
  | some kv => rw [heq] at hstep; exact absurd hstep initOption_ne_overrun
  | none =>
    rw [heq] at hstep
    dsimp only at hstep
    unfold initAddress at hstep
    split_ifs at hstep with httl
    · cases hstep
    have hok : p.ttlOk := by unfold Parse.ttlOk; omega
    have hi := Parse.i_lt_of_ttlOk (visits_ttl_le hvisit) hok
    obtain ⟨first, last, hends, hne, hhead, hfits, hbig⟩ :=
      initHosts_overrun (by rwa [Parse.i_defaults]) hstep
    rw [Parse.i_defaults] at hfits hbig
    exact ⟨p.i, first, last, ⟨p, token, hvisit, heq, hok, rfl, hends, hne, hhead⟩, hi, hfits, hbig⟩

theorem GuardAt.lt {env : Env af} {s : List Char} {i : ℕ} {first last : Addr af}
    (h : GuardAt env s i first last) : i < MAXTTL := by
  obtain ⟨p, token, hvisit, -, hok, rfl, -⟩ := h
  exact Parse.i_lt_of_ttlOk (visits_ttl_le hvisit) hok

theorem NoWrap.init_ne_overrun {env : Env af} {s : List Char} (h : NoWrap env s) (k : ℕ) :
    HostChain.init env s ≠ .error (.overrun k) := by
  intro hk
  have hmax : MAXTTL = 255 := rfl
  obtain ⟨i, first, last, hat, hi, hfits, hbig⟩ := init_overrun hk
  rw [toNat_nAddr] at hbig
  obtain hfull | hlt := (span_le (tail32 first) (tail32 last)).eq_or_lt
  · rw [hfull, Nat.mod_self] at hbig
    omega
  · have hwrap := h i first last hat hlt
    rw [Nat.mod_eq_of_lt hlt] at hbig
    rcases (rangeFits_iff hi).mp hfits with h | h <;> omega

theorem noWrap_of_init {env : Env af} {s : List Char} {c : HostChain af}
    (h : HostChain.init env s = .ok c) : NoWrap env s := by
  intro i first last hat hlt
  have hmax : MAXTTL = 255 := rfl
  obtain ⟨p, token, hvisit, hopt, -, rfl, hends, hne, -⟩ := hat
  obtain ⟨p', hparse⟩ : ∃ p', parse env s = .ok p' := by
    unfold HostChain.init at h
    cases hp : parse env s with
    | error e => rw [hp] at h; cases h
    | ok p' => exact ⟨p', rfl⟩
  obtain ⟨q, rest, hstep, -⟩ := hvisit.exists_run hparse
  rcases step_ok hstep with ⟨hsome, -⟩ | ⟨-, -, -, happ⟩
  · rw [hopt] at hsome
    cases hsome
  · have hi := happ.i
    rw [Parse.i_defaults, tokenAddrs_of_rangeEnds hends, rangeAddrs, if_neg hne, List.length_map,
      List.length_range, toNat_nAddr, Nat.mod_eq_of_lt hlt] at hi
    have hle := happ.i_le
    omega

/-- **The slots are safe** exactly when no range that the parser reaches makes the guard wrap. -/
theorem slotsSafe_iff (env : Env af) (s : List Char) :
    SlotsSafe env s ↔ ∀ i first last, GuardAt env s i first last →
      i + span (tail32 first) (tail32 last) < 2 ^ 32 := by
  have hmax : MAXTTL = 255 := rfl
  constructor
  · rintro ⟨-, hguard⟩ i first last hat
    by_contra hwrap
    have := hguard i first last hat ((rangeFits_iff hat.lt).mpr (.inr (by omega)))
    omega
  · intro hnowrap
    have hno : NoWrap env s := fun i first last hat _ => hnowrap i first last hat
    refine ⟨hno.init_ne_overrun, fun i first last hat hfits => ?_⟩
    have hlt := hnowrap i first last hat
    rcases (rangeFits_iff hat.lt).mp hfits with h | h <;> omega

/-- After one address, the range of all other non-zero IPv4 addresses runs past the slots. -/
theorem not_slotsSafe : ¬ ∀ (af : Af) (env : Env af) (s : List Char), SlotsSafe env s := by
  intro h
  exact (h .inet (Env.zeroed .inet) "1.1.1.1,0.0.0.1-255.255.255.255".toList).1 255 rfl

end Rdnstun
