import Rdnstun.Main.Duplicate
import Rdnstun.Main.Memory

/-!
# The chains that options build

What the options do to the arrays as lists of chains, allocations that fail included.

* `dupBuild`: the duplicates up to the first copy that fails.
* `Main.build`: one option; a failure comes with the chains built up to it.
* **`build_of_step`**: without allocations that fail, an option that is accepted builds its chains.
-/

namespace Rdnstun

variable {af : Af} {base : HostChain af} {chains chains' : List (HostChain af)}
  {malloc : ℕ → Bool} {step prefixLen count i : ℕ}

/-- The rounds of a duplication, up to the first one whose copy fails; whether there is none. -/
def dupBuild (base : HostChain af) (step prefixLen : ℕ) (malloc : ℕ → Bool) :
    ℕ → ℕ → List (HostChain af) → List (HostChain af) × Bool
  | 0, _, chains => (chains, true)
  | count + 1, i, chains =>
    if malloc i then
      match dupAt base step prefixLen i with
      | .error _ => (chains, false)
      | .ok self => dupBuild base step prefixLen malloc count (i + 1) (chains ++ [self])
    else (chains, false)

/-- One option, with the arrays that it ends or fails with. -/
def Main.build (m : Main) : AllocOpt → Except Main Main
  | .chain af env s ok =>
    match HostChain.init env s with
    | .error _ => .error m
    | .ok c =>
      if ok.irealloc && ok.malloc && ok.strdup then
        .ok ⟨Function.update m.chains af (m.chains af ++ [c]), af⟩
      else .error m
  | .dup optarg irealloc malloc =>
    match (m.chains m.last).getLast?, parseDup m.last optarg with
    | some base, some d =>
      if irealloc && d.prefixLen ≤ base.prefixLen then
        let (chains, done) :=
          dupBuild base d.step d.prefixLen malloc d.n 1 (m.chains m.last)
        let m := { m with chains := Function.update m.chains m.last chains }
        if done then .ok m else .error m
      else .error m
    | _, _ => .error m

/-- The option without its allocations. -/
def AllocOpt.opt : AllocOpt → Opt
  | .chain af env s _ => .chain af env s
  | .dup optarg _ _ => .dup optarg

/-- No allocation fails. -/
def AllocOpt.Succeeds : AllocOpt → Prop
  | .chain _ _ _ ok => ok.irealloc = true ∧ ok.malloc = true ∧ ok.strdup = true
  | .dup _ irealloc malloc => irealloc = true ∧ ∀ i, malloc i = true

theorem isPrefix_dupBuild :
    chains <+: (dupBuild base step prefixLen malloc count i chains).1 := by
  induction count generalizing i chains with
  | zero => exact List.prefix_refl _
  | succ count ih =>
    rw [dupBuild]
    split_ifs
    · cases dupAt base step prefixLen i with
      | error e => exact List.prefix_refl _
      | ok self => exact (List.prefix_append _ _).trans ih
    · exact List.prefix_refl _

theorem dupBuild_of_dupLoop (hmalloc : ∀ i, malloc i = true)
    (h : dupLoop base step prefixLen count i chains = .ok chains') :
    dupBuild base step prefixLen malloc count i chains = (chains', true) := by
  induction count generalizing i chains with
  | zero =>
    cases h
    rfl
  | succ count ih =>
    rw [dupLoop] at h
    rw [dupBuild, if_pos (hmalloc i)]
    cases hround : dupAt base step prefixLen i with
    | error e => rw [hround] at h; cases h
    | ok self =>
      rw [hround] at h
      exact ih h

theorem build_chain {m : Main} {env : Env af} {s : List Char} {ok : Allocs} {c : HostChain af}
    (hc : HostChain.init env s = .ok c) (hirealloc : ok.irealloc = true)
    (hmalloc : ok.malloc = true) (hstrdup : ok.strdup = true) : m.build (.chain af env s ok) =
      .ok ⟨Function.update m.chains af (m.chains af ++ [c]), af⟩ := by
  rw [Main.build, hc, hirealloc, hmalloc, hstrdup]
  rfl

theorem build_chain_fail {m : Main} {env : Env af} {s : List Char} {ok : Allocs}
    (h : ok.irealloc = true → ok.malloc = true → ok.strdup = true →
      ∀ c, HostChain.init env s ≠ .ok c) : m.build (.chain af env s ok) = .error m := by
  rw [Main.build]
  cases hc : HostChain.init env s with
  | error e => rfl
  | ok c =>
    refine if_neg fun hall => ?_
    rw [Bool.and_eq_true, Bool.and_eq_true] at hall
    exact h hall.1.1 hall.1.2 hall.2 c hc

theorem build_dup_nil {m : Main} {optarg : List Char} {irealloc : Bool}
    (h : m.chains m.last = []) : m.build (.dup optarg irealloc malloc) = .error m := by
  rw [Main.build, h]
  rfl

theorem build_dup_none {m : Main} {optarg : List Char} {irealloc : Bool}
    (hd : parseDup m.last optarg = none) :
    m.build (.dup optarg irealloc malloc) = .error m := by
  rw [Main.build, hd]
  cases (m.chains m.last).getLast? <;> rfl

theorem build_dup {m : Main} {optarg : List Char} {irealloc : Bool} {base : HostChain m.last}
    {d : Dup m.last} (hbase : (m.chains m.last).getLast? = some base)
    (hd : parseDup m.last optarg = some d) : m.build (.dup optarg irealloc malloc) =
      if irealloc && d.prefixLen ≤ base.prefixLen then
        let (chains, done) := dupBuild base d.step d.prefixLen malloc d.n 1 (m.chains m.last)
        let m := { m with chains := Function.update m.chains m.last chains }
        if done then .ok m else .error m
      else .error m := by
  rw [Main.build, hbase, hd]

/-- **An accepted option** builds its chains, if its allocations succeed. -/
theorem build_of_step {m m' : Main} {opt : AllocOpt} (hok : opt.Succeeds)
    (h : m.step opt.opt = .ok m') : m.build opt = .ok m' := by
  cases opt with
  | chain af env s ok =>
    obtain ⟨hirealloc, hmalloc, hstrdup⟩ := hok
    rw [AllocOpt.opt, Main.step] at h
    cases hinit : HostChain.init env s with
    | error e => rw [hinit] at h; cases h
    | ok c =>
      rw [hinit] at h
      cases h
      exact build_chain hinit hirealloc hmalloc hstrdup
  | dup optarg irealloc malloc =>
    obtain ⟨hirealloc, hmalloc⟩ := hok
    rw [AllocOpt.opt, Main.step] at h
    cases hdup : duplicate (m.chains m.last) optarg with
    | error e => rw [hdup] at h; cases h
    | ok chains =>
      rw [hdup] at h
      cases h
      obtain ⟨base, d, haccepts, hloop⟩ := duplicate_ok hdup
      have hbuild := dupBuild_of_dupLoop hmalloc hloop
      rw [build_dup haccepts.getLast? haccepts.parseDup]
      simp [hirealloc, haccepts.prefixLen_le, hbuild]

end Rdnstun
