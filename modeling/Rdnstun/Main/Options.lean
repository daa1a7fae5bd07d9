import Rdnstun.Chain.Mtu
import Rdnstun.Chain.Whole
import Rdnstun.Main.Duplicate

/-!
# What an option does

* `step_ok`: an accepted option appends chains to one array, the chain of a specification or the
  duplicates of the last chain.
* `chains_isPrefix`: the chains built so far stay.
* **`exists_rounds`**: every chain is that of a specification after some rounds.
* `mtuOk_of_mem`: its hosts have at least the least MTU.
* `exists_mem_of_opt`: every specification among the options has its chain in the end.
-/

namespace Rdnstun

open Run

variable {af : Af} {m m' : Main} {opt : Opt} {opts : List Opt}

/-- `new` are the rounds of the loop for an accepted duplication. -/
structure IsRounds (base : HostChain af) (d : Dup af) (new : List (HostChain af)) : Prop where
  length : new.length = d.n
  rounds : ∀ j < d.n, ∃ c, new[j]? = some c ∧
    dupAt base d.step d.prefixLen (1 + j) = .ok c

theorem IsRounds.exists_dupAt {base c : HostChain af} {d : Dup af} {new : List (HostChain af)}
    (h : IsRounds base d new) (hc : c ∈ new) :
    ∃ i, 1 ≤ i ∧ i ≤ d.n ∧ dupAt base d.step d.prefixLen i = .ok c := by
  obtain ⟨j, hj, rfl⟩ := List.getElem_of_mem hc
  have hn : j < d.n := h.length ▸ hj
  obtain ⟨c, hc, hround⟩ := h.rounds j hn
  rw [List.getElem?_eq_getElem hj, Option.some_inj] at hc
  exact ⟨1 + j, by omega, by omega, by rw [hc, hround]⟩

theorem IsRounds.mem {base c : HostChain af} {d : Dup af} {new : List (HostChain af)}
    (h : IsRounds base d new) {i : ℕ} (hi : 1 ≤ i) (hin : i ≤ d.n)
    (hc : dupAt base d.step d.prefixLen i = .ok c) : c ∈ new := by
  obtain ⟨c', hc', hround⟩ := h.rounds (i - 1) (by omega)
  rw [Nat.add_sub_cancel' hi, hc, Except.ok.injEq] at hround
  exact hround ▸ List.mem_of_getElem? hc'

/-- The chains that an option appends to the array of a family. -/
inductive Adds (m : Main) : Opt → (af : Af) → List (HostChain af) → Prop
  | chain {af : Af} {env : Env af} {s : List Char} {c : HostChain af} :
    HostChain.init env s = .ok c → Adds m (.chain af env s) af [c]
  | dup {optarg : List Char} {base : HostChain m.last} {d : Dup m.last}
    {new : List (HostChain m.last)} :
    Accepts (m.chains m.last) optarg base d → IsRounds base d new → Adds m (.dup optarg) m.last new

/-- **One option** appends chains to one array. -/
theorem Main.step_ok (h : m.step opt = .ok m') : ∃ (af : Af) (new : List (HostChain af)),
    Adds m opt af new ∧ m'.last = af ∧
      m'.chains = Function.update m.chains af (m.chains af ++ new) := by
  cases opt with
  | chain af env s =>
    rw [Main.step] at h
    cases hinit : HostChain.init env s with
    | error e => rw [hinit] at h; cases h
    | ok c =>
      rw [hinit] at h
      cases h
      exact ⟨af, [c], .chain hinit, rfl, rfl⟩
  | dup optarg =>
    rw [Main.step] at h
    cases hdup : duplicate (m.chains m.last) optarg with
    | error e => rw [hdup] at h; cases h
    | ok chains =>
      rw [hdup] at h
      cases h
      obtain ⟨base, d, haccepts, hloop⟩ := duplicate_ok hdup
      obtain ⟨new, rfl, hlen, hrounds⟩ := dupLoop_ok.mp hloop
      exact ⟨m.last, new, .dup haccepts ⟨hlen, hrounds⟩, rfl, rfl⟩

theorem chains_isPrefix_step (m : Main) (opt : Opt) (m' : Main) (h : m.step opt = .ok m')
    (af : Af) : m.chains af <+: m'.chains af := by
  obtain ⟨af', new, -, -, hchains⟩ := Main.step_ok h
  rw [hchains]
  by_cases haf : af = af'
  · subst haf
    rw [Function.update_self]
    exact List.prefix_append _ _
  · rw [Function.update_of_ne haf]

theorem chains_isPrefix (h : Run.run Main.step m opts = .ok m') (af : Af) :
    m.chains af <+: m'.chains af :=
  run_invariant (P := fun q => m.chains af <+: q.chains af)
    (fun q opt q' hq hstep => hq.trans (chains_isPrefix_step q opt q' hstep af))
    (List.prefix_refl _) h

theorem exists_mem_of_opt {env : Env af} {s : List Char} (hopt : .chain af env s ∈ opts)
    (h : Main.run opts = .ok m) : ∃ c ∈ m.chains af, HostChain.init env s = .ok c := by
  obtain ⟨q, hvisit⟩ := exists_visits_of_mem hopt h
  obtain ⟨q', rest, hstep, hrun⟩ := hvisit.exists_run h
  obtain ⟨af', new, hadds, -, hchains⟩ := Main.step_ok hstep
  cases hadds with
  | chain hinit =>
    refine ⟨_, (chains_isPrefix hrun af).subset ?_, hinit⟩
    rw [hchains, Function.update_self]
    simp

/-- What holds of every chain that an option adds to arrays where it holds. -/
theorem forall_chains {P : (af : Af) → HostChain af → Prop} (h : Main.run opts = .ok m)
    (hadds : ∀ m opt af new, Visits Main.step Main.start opts m opt → Adds m opt af new →
      (∀ af, ∀ c ∈ m.chains af, P af c) → ∀ c ∈ new, P af c) :
    ∀ af, ∀ c ∈ m.chains af, P af c := by
  refine run_invariant_visits (P := fun m => ∀ af, ∀ c ∈ m.chains af, P af c) ?_ ?_ h
  · intro q opt q' hvisit hq hstep af c hc
    obtain ⟨af', new, hnew, -, hchains⟩ := Main.step_ok hstep
    rw [hchains] at hc
    by_cases haf : af = af'
    · subst haf
      rw [Function.update_self] at hc
      rcases List.mem_append.mp hc with hc | hc
      · exact hq af c hc
      · exact hadds q opt af new hvisit hnew hq c hc
    · rw [Function.update_of_ne haf] at hc
      exact hq af c hc
  · intro af c hc
    cases hc

/-- **Every chain** of the arrays is that of a specification after rounds of copy and shift. -/
theorem exists_rounds (h : Main.run opts = .ok m) : ∀ c ∈ m.chains af, ∃ env s c₀ l,
    .chain af env s ∈ opts ∧ HostChain.init env s = .ok c₀ ∧
      Run.run HostChain.round c₀ l = .ok c := by
  refine forall_chains (P := fun af c => ∃ env s c₀ l, .chain af env s ∈ opts ∧
    HostChain.init env s = .ok c₀ ∧ Run.run HostChain.round c₀ l = .ok c) h ?_ af
  intro q opt af' new hvisit hadds hq c hc
  cases hadds with
  | @chain _ env s c₀ hinit =>
    obtain rfl := List.mem_singleton.mp hc
    exact ⟨env, s, c, [], hvisit.mem, hinit, rfl⟩
  | @dup optarg base d new haccepts hrounds =>
    obtain ⟨i, -, -, hround⟩ := hrounds.exists_dupAt hc
    have hle := haccepts.prefixLen_le.trans base.prefixLen_le
    obtain ⟨env, s, c₀, l, hopt, hinit, hrun⟩ :=
      hq _ base (List.mem_of_getLast? haccepts.getLast?)
    exact ⟨env, s, c₀, l ++ [(((d.step * i : ℕ) : ℤ), d.prefixLen)], hopt, hinit,
      run_append_ok.mpr ⟨base, hrun, run_cons_ok.mpr ⟨c, (dupAt_ok hle hround).2.1, rfl⟩⟩⟩

theorem mtuOk_round {c c' : HostChain af} {x : ℤ × ℕ} (hc : MtuOk c.hosts)
    (h : c.round x = .ok c') : MtuOk c'.hosts := by
  intro g hg
  rw [HostChain.hosts_shift h (HostChain.le_of_shift h), HostChain.hosts_copy] at hg
  obtain ⟨g', hg', rfl⟩ := List.mem_map.mp ((List.takeWhile_prefix _).subset hg)
  exact hc g' hg'

/-- **Every host** of the arrays has at least the least MTU of its family. -/
theorem mtuOk_of_mem (h : Main.run opts = .ok m) : ∀ c ∈ m.chains af, MtuOk c.hosts := by
  intro c hc
  obtain ⟨env, s, c₀, l, -, hinit, hrun⟩ := exists_rounds h c hc
  exact run_invariant (P := fun c => MtuOk c.hosts) (fun _ _ _ ht hround => mtuOk_round ht hround)
    (mtuOk_init hinit) hrun

end Rdnstun
