import Rdnstun.Chain.Describe
import Rdnstun.Main.Order
import Rdnstun.Main.PathMtu
import Rdnstun.Main.Ttl

/-!
# Command lines without duplications

* `HostChain.text`: a specification for a chain, and `HostChain.standard`: the chain that it builds,
  which has the same plan.
* `describable_standard`, `aligned_chains`: there is one for every chain that options build.
* `Main.expansion`: one option for each of the chains.
* `run_options`: the options are carried out, and build chains of the same plans.
* **`service_expands`**: for every command line there is one without `-E`, without ranges and with
  the TTL and the MTU of every host spelled out that makes the program answer alike.
-/

namespace Rdnstun

open Run

variable {af : Af} {c : HostChain af} {a : Main} {opts : List Opt}

/-! ## One chain -/

namespace HostChain

/-- The hosts that are spelled out. Where the first host is unspecified there is such a host. -/
def named (c : HostChain af) : List (FakeHost af) :=
  if c.hosts = [] then [⟨64, 1500, .any af⟩] else c.hosts

/-- A specification for the plan of a chain. A route without a prefix is not mentioned. -/
def text (c : HostChain af) : List Char :=
  [','].intercalate ((if c.prefixLen = 0 then [] else [routeToken c.network c.prefixLen]) ++
    c.named.flatMap FakeHost.tokens)

/-- The chain that it builds. The network is whatever memory holds where there is no prefix. -/
def standard (env : Env af) (c : HostChain af) : HostChain af :=
  ofHosts c.named (if c.prefixLen = 0 then env.network else c.network) c.prefixLen c.prefixLen_le

theorem slots_standard (env : Env af) (c : HostChain af) : (c.standard env).slots = c.named :=
  slots_of_buf_eq rfl

theorem spec_standard (env : Env af) (c : HostChain af) : (c.standard env).spec env = c.text := by
  rw [spec, specTokens, slots_standard, routeTokens, text]
  congr 2
  by_cases hzero : c.prefixLen = 0
  · rw [if_pos hzero]
    exact if_pos ⟨hzero, if_pos hzero⟩
  · rw [if_neg hzero]
    refine (if_neg fun hdefault => hzero hdefault.1).trans ?_
    exact congrArg (fun network => [routeToken network c.prefixLen]) (if_neg hzero)

theorem plan_standard (env : Env af) (c : HostChain af) : (c.standard env).plan = c.plan := by
  have hhosts : (c.standard env).hosts = c.hosts := by
    rw [hosts, standard, ofHosts, takeWhile_hosts_append (FakeHost.isnull_null af), named]
    split_ifs with hnil
    · rw [hnil]
      cases af <;> rfl
    · exact c.takeWhile_hosts
  have hblock : (c.standard env).network.block c.prefixLen = c.network.block c.prefixLen := by
    show (if c.prefixLen = 0 then env.network else c.network).block c.prefixLen = _
    split_ifs with hzero
    · rw [hzero, Addr.block_zero, Addr.block_zero]
    · rfl
  rw [plan, hhosts]
  exact congrArg (fun block => (⟨c.hosts, block, c.prefixLen⟩ : Plan af)) hblock

theorem ttlAbove_hosts (h : TtlAbove c.slots) : TtlAbove c.hosts := by
  intro k g hk
  obtain ⟨rest, hrest⟩ := c.hosts_isPrefix_slots
  refine h k g ?_
  rw [← hrest, List.getElem?_append_left (List.getElem?_eq_some_iff.mp hk).1, hk]

theorem describable_standard (env : Env af) (httl : TtlAbove c.slots) (hmtu : MtuPath c.slots)
    (halign : c.prefixLen = 0 ∨ c.Aligned) : (c.standard env).Describable env where
  buf := by
    rw [slots_standard]
    rfl
  slots := by
    rw [slots_standard, named]
    split_ifs with hnil
    · exact List.cons_ne_nil _ _
    · exact hnil
  ttl := by
    rw [slots_standard, named]
    split_ifs
    · intro k h hk
      obtain ⟨hlt, rfl⟩ := List.getElem?_eq_some_iff.mp hk
      obtain rfl : k = 0 := Nat.lt_one_iff.mp hlt
      exact Nat.succ_pos _
    · exact ttlAbove_hosts httl
  mtu := by
    rw [slots_standard, named]
    split_ifs
    · refine ⟨List.pairwise_singleton _ _, fun h hh => ?_⟩
      obtain rfl := List.mem_singleton.mp hh
      cases af <;> decide
    · exact hmtu.of_slots
  route := by
    by_cases hzero : c.prefixLen = 0
    · exact .inl ⟨hzero, if_pos hzero⟩
    · have hnetwork : (c.standard env).network = c.network := if_neg hzero
      refine .inr ?_
      rw [hnetwork]
      exact (inetIsnetwork_iff c.prefixLen_le (.inr (Nat.pos_of_ne_zero hzero))).mpr
        (halign.resolve_left hzero)

theorem not_mem_text (c : HostChain af) : '-' ∉ c.text := by
  rw [← spec_standard (.zeroed af)]
  intro hmem
  rcases mem_intercalate_singleton hmem with heq | ⟨token, htoken, hc⟩
  · cases heq
  · exact not_mem_specTokens (.inr rfl) htoken hc

end HostChain

theorem aligned_chains (h : Main.run opts = .ok a) :
    ∀ c ∈ a.chains af, c.prefixLen = 0 ∨ c.Aligned := by
  refine forall_chains (P := fun _ c => c.prefixLen = 0 ∨ c.Aligned) h ?_ af
  intro q opt af' new hvisit hadds hq c hc
  cases hadds with
  | chain hinit =>
    obtain rfl := List.mem_singleton.mp hc
    by_cases hzero : c.prefixLen = 0
    · exact .inl hzero
    · have hnetwork := (HostChain.route_of_init hinit).resolve_left fun hdefault =>
        hzero hdefault.1
      exact .inr ((inetIsnetwork_iff c.prefixLen_le (.inr (Nat.pos_of_ne_zero hzero))).mp hnetwork)
  | @dup optarg base d new haccepts hrounds =>
    obtain ⟨i, -, -, hround⟩ := hrounds.exists_dupAt hc
    have hle := haccepts.prefixLen_le.trans base.prefixLen_le
    obtain ⟨-, hshift, hdup⟩ := dupAt_ok hle hround
    rw [hdup.prefixLen]
    exact (hq _ base (List.mem_of_getLast? haccepts.getLast?)).imp_right
      (HostChain.aligned_shift hshift haccepts.prefixLen_le)

/-! ## The options -/

/-- One option for each chain: its family and its text. -/
def Main.expansion (a : Main) : List (Af × List Char) :=
  (a.chains .inet).map (fun c => (.inet, c.text)) ++
    (a.chains .inet6).map fun c => (.inet6, c.text)

theorem plain_expansion : ∀ x ∈ a.expansion, '-' ∉ x.2 := by
  intro x hx
  rcases List.mem_append.mp hx with hx | hx <;>
    · obtain ⟨c, -, rfl⟩ := List.mem_map.mp hx
      exact c.not_mem_text

/-- The option has this family and this text, and its allocations succeed; it finds whatever memory
holds. -/
def AllocOpt.Spells (opt : AllocOpt) (x : Af × List Char) : Prop :=
  ∃ env : Env x.1, opt = .chain x.1 env x.2 ⟨true, true, true, true⟩

namespace Machine

variable {m : Machine} {opts : List AllocOpt}

/-- **The options** for some chains are carried out, and build chains of the same plans. -/
theorem run_options (cs : List (HostChain af)) (hr : m.Represents a) (hocc : m.Occupied)
    (hopts : List.Forall₂ AllocOpt.Spells opts (cs.map fun c => (af, c.text)))
    (hlen : (a.chains af).length + cs.length + 1 < 2 ^ 32)
    (hcs : ∀ c ∈ cs, ∀ env, (c.standard env).Describable env) :
    ∃ m' a' new, run step m opts = .ok m' ∧ run Main.step a (opts.map AllocOpt.opt) = .ok a' ∧
      m'.Represents a' ∧ m'.Occupied ∧ new.map HostChain.plan = cs.map HostChain.plan ∧
        a'.chains = Function.update a.chains af (a.chains af ++ new) := by
  induction cs generalizing m a opts with
  | nil =>
    cases hopts
    refine ⟨m, a, [], rfl, rfl, hr, hocc, rfl, ?_⟩
    rw [List.append_nil, Function.update_eq_self]
  | cons c cs ih =>
    obtain _ | @⟨_, opt, _, opts, ⟨env, rfl⟩, hopts⟩ := hopts
    have hinit : HostChain.init env c.text = .ok (c.standard env) :=
      HostChain.spec_standard env c ▸ HostChain.init_spec (hcs c List.mem_cons_self env)
    have hguard : m.Guarded (.chain af env c.text ⟨true, true, true, true⟩) := by
      refine ⟨?_, fun _ _ _ => ⟨noWrap_of_init hinit, fun _ => rfl⟩⟩
      rw [hr.length]
      rw [List.length_cons] at hlen
      omega
    have hagree := hr.agrees hocc hguard
    have hbuild : a.build (.chain af env c.text ⟨true, true, true, true⟩) =
        .ok ⟨Function.update a.chains af (a.chains af ++ [c.standard env]), af⟩ :=
      build_chain hinit rfl rfl rfl
    have hadd := hr.step_of_build hguard hbuild
    rw [Agrees, hbuild] at hagree
    cases hstep : m.step (.chain af env c.text ⟨true, true, true, true⟩) with
    | error stop => rw [hstep] at hagree; exact hagree.elim
    | ok m₁ =>
      rw [hstep] at hagree
      obtain ⟨hr₁, hocc₁⟩ := hagree
      obtain ⟨m', a', new, hrun, hrun', hr', hocc', hnew, hchains⟩ := ih hr₁ hocc₁ hopts
        (by simp only [Function.update_self, List.length_append, List.length_cons,
              List.length_nil] at hlen ⊢
            omega)
        fun c hc => hcs c (List.mem_cons_of_mem _ hc)
      refine ⟨m', a', c.standard env :: new, run_cons_ok.mpr ⟨m₁, hstep, hrun⟩,
        run_cons_ok.mpr ⟨_, hadd, hrun'⟩, hr', hocc', ?_, ?_⟩
      · rw [List.map_cons, List.map_cons, HostChain.plan_standard, hnew]
      · rw [hchains]
        dsimp only
        rw [Function.update_self, Function.update_idem, List.append_assoc]
        rfl

/-- **The expansion** of the arrays is carried out, and builds arrays of the same plans. -/
theorem run_expansion (hlen : ∀ af, (a.chains af).length + 1 < 2 ^ 32)
    (hdesc : ∀ af, ∀ c ∈ a.chains af, ∀ env, (c.standard env).Describable env)
    (hopts : List.Forall₂ AllocOpt.Spells opts a.expansion) :
    ∃ m' a', run step start opts = .ok m' ∧ Main.run (opts.map AllocOpt.opt) = .ok a' ∧
      ∀ af, (a'.chains af).map HostChain.plan = (a.chains af).map HostChain.plan := by
  have hopts₁ := List.forall₂_take_append _ _ _ hopts
  have hopts₂ := List.forall₂_drop_append _ _ _ hopts
  obtain ⟨m₁, a₁, new₁, hrun₁, hrun₁', hr₁, hocc₁, hnew₁, hchains₁⟩ :=
    run_options (a.chains .inet) represents_start (fun _ hbase => absurd rfl hbase) hopts₁
      (by simpa [Main.start] using hlen .inet) (hdesc .inet)
  obtain ⟨m₂, a₂, new₂, hrun₂, hrun₂', -, -, hnew₂, hchains₂⟩ :=
    run_options (a.chains .inet6) hr₁ hocc₁ hopts₂
      (by simpa [hchains₁, Main.start] using hlen .inet6) (hdesc .inet6)
  refine ⟨m₂, a₂, ?_, ?_, fun af => ?_⟩
  · rw [← List.take_append_drop ((a.chains .inet).map _).length opts]
    exact run_append_ok.mpr ⟨m₁, hrun₁, hrun₂⟩
  · rw [← List.take_append_drop ((a.chains .inet).map _).length opts, List.map_append]
    exact run_append_ok.mpr ⟨a₁, hrun₁', hrun₂'⟩
  · rw [hchains₂, hchains₁]
    cases af
    · simpa [Main.start] using hnew₁
    · simpa [Main.start] using hnew₂

end Machine

/-! ## From the options on -/

/-- No range of the specifications runs past the current TTL. -/
def RangesFit (opts : List AllocOpt) : Prop :=
  ∀ af env s ok, AllocOpt.chain af env s ok ∈ opts → RangesWithinTtl env s

theorem describable_chains {opts : List AllocOpt} (hrange : RangesFit opts)
    (h : Main.run (opts.map AllocOpt.opt) = .ok a) :
    ∀ c ∈ a.chains af, ∀ env, (c.standard env).Describable env := by
  intro c hc env
  refine HostChain.describable_standard env (ttlAbove_chains h (fun env s hopt => ?_) c hc)
    (mtuPath_chains h c hc) (aligned_chains h c hc)
  obtain ⟨opt, hmem, heq⟩ := List.mem_map.mp hopt
  cases opt with
  | chain af' env' s' ok =>
    cases heq
    exact hrange _ _ _ _ hmem
  | dup => cases heq

/-- **Only sugar.** For options that are carried out and whose ranges end within the current TTL,
there is a command line without `-E` and without ranges that is carried out too, whatever memory
holds. If no two chains have the same route, threads of the two programs that read packets of the
same bytes write the same, whatever the kernels, the schedules and `qsort` do. The bytes are to hold
all that the replies are made of. -/
theorem service_expands {opts : List AllocOpt} {m : Machine}
    (hrun : run Machine.step .start opts = .ok m) (hrange : RangesFit opts) :
    ∃ a : Main, Main.run (opts.map AllocOpt.opt) = .ok a ∧ (∀ x ∈ a.expansion, '-' ∉ x.2) ∧
      ∀ opts', List.Forall₂ AllocOpt.Spells opts' a.expansion →
        ∃ m', run Machine.step .start opts' = .ok m' ∧
        ((∀ af, HostChainArray.DistinctRoutes (a.chains af)) →
          ∀ qsort qsort' s s', Sorts qsort → Sorts qsort' → ∃ (sorted : Main) (d₀ d₀' : Daemon),
            (∀ af, HostChainArray.SortedBy (a.chains af) (sorted.chains af)) ∧
            m.launch qsort s = .ok d₀ ∧ m'.launch qsort' s' = .ok d₀' ∧
            ∀ l d l' d' i i', run Daemon.step d₀ l = .ok d → run Daemon.step d₀' l' = .ok d' →
              (d.thread i).pending = none → (d'.thread i').pending = none →
              (∀ p ∈ Daemon.receivedBy i l, p.Held sorted.args) →
              List.Forall₂ Received.Same (Daemon.receivedBy i l) (Daemon.receivedBy i' l') →
                Daemon.sentBy i l = Daemon.sentBy i' l') := by
  obtain ⟨a, hbuild, -, -, hlen⟩ := Machine.exists_represents hrun
  refine ⟨a, hbuild, plain_expansion, fun opts' hopts => ?_⟩
  obtain ⟨m', a', hrun', hbuild', hplans⟩ :=
    Machine.run_expansion hlen (fun af => describable_chains hrange hbuild) hopts
  refine ⟨m', hrun', fun hdistinct qsort qsort' s s' hsort hsort' => ?_⟩
  obtain ⟨a₁, sorted, hbuild₁, hsorted, hlaunch⟩ := launch_ok hrun hsort
  obtain ⟨a₂, sorted', hbuild₂, hsorted', hlaunch'⟩ := launch_ok hrun' hsort'
  obtain rfl : a = a₁ := Except.ok.inj (hbuild.symm.trans hbuild₁)
  obtain rfl : a' = a₂ := Except.ok.inj (hbuild'.symm.trans hbuild₂)
  obtain ⟨m₁, fds, tunfds, hd₀, hinv, -⟩ := hlaunch s
  obtain ⟨m₁', fds', tunfds', hd₀', hinv', -⟩ := hlaunch' s'
  refine ⟨sorted, _, _, hsorted, hd₀, hd₀',
    fun l d l' d' i i' hl hl' hnone hnone' hheld hsame => ?_⟩
  refine Daemon.sentBy_congr hinv hinv' (thread_start m₁ fds tunfds s.daemon i)
    (thread_start m₁' fds' tunfds' s'.daemon i') hl hl' hnone hnone' ?_
  refine answers_args (Daemon.answers_congr hinv (minMtu_args hbuild hsorted) hl
    (fun p hp => Daemon.mem_received.mpr ⟨i, hp⟩) hheld hsame) fun q _ => answer_args fun af _ =>
      samePlans_of_sortedBy (hsorted af) (hsorted' af) ?_ (hdistinct af)
  rw [HostChainArray.plansFor, HostChainArray.plansFor, hplans af]

/-- Three hosts by a range, and two duplicates of them. -/
def sugared : List AllocOpt :=
  [.chain .inet (.zeroed .inet) "route=10.0.0.0/24,10.0.0.1-10.0.0.3".toList
      ⟨true, true, true, true⟩,
    .dup "1/24,2".toList true fun _ => true]

/-- The range of the specification. -/
theorem visits_sugared {p : Parse .inet} {token : List Char} {first last : Addr .inet}
    (h : Visits (step (.zeroed .inet)) (Parse.start (.zeroed .inet))
      (tokens "route=10.0.0.0/24,10.0.0.1-10.0.0.3".toList) p token)
    (hends : rangeEnds .inet token = some (first, last)) :
    p.i = 0 ∧ p.ttl = 0 ∧ first = .v4 10 0 0 1 ∧ last = .v4 10 0 0 3 := by
  have htokens : tokens "route=10.0.0.0/24,10.0.0.1-10.0.0.3".toList =
      ["route=10.0.0.0/24".toList, "10.0.0.1-10.0.0.3".toList] := by decide
  rw [htokens] at h
  rcases visits_cons.mp h with ⟨-, rfl⟩ | ⟨p', hp', h⟩
  · cases hends
  · rcases visits_cons.mp h with ⟨rfl, rfl⟩ | ⟨_, -, h⟩
    · cases hp'
      cases hends
      exact ⟨rfl, rfl, rfl, rfl⟩
    · exact absurd h not_visits_nil

theorem rangesFit_sugared : RangesFit sugared := by
  intro af env s ok hmem p token first last hvisit _ hends
  rcases List.mem_cons.mp hmem with heq | hmem
  · cases heq
    obtain ⟨hi, httl, rfl, rfl⟩ := visits_sugared hvisit hends
    rw [Parse.ttl_defaults, hi, httl]
    decide
  · cases List.mem_singleton.mp hmem

theorem service_expands_sugared : ∃ m, run Machine.step .start sugared = .ok m ∧
    ∃ a : Main, Main.run (sugared.map AllocOpt.opt) = .ok a ∧ (∀ x ∈ a.expansion, '-' ∉ x.2) ∧
      ∀ opts', List.Forall₂ AllocOpt.Spells opts' a.expansion →
        ∃ m', run Machine.step .start opts' = .ok m' ∧
        ((∀ af, HostChainArray.DistinctRoutes (a.chains af)) →
          ∀ qsort qsort' s s', Sorts qsort → Sorts qsort' → ∃ (sorted : Main) (d₀ d₀' : Daemon),
            (∀ af, HostChainArray.SortedBy (a.chains af) (sorted.chains af)) ∧
            m.launch qsort s = .ok d₀ ∧ m'.launch qsort' s' = .ok d₀' ∧
            ∀ l d l' d' i i', run Daemon.step d₀ l = .ok d → run Daemon.step d₀' l' = .ok d' →
              (d.thread i).pending = none → (d'.thread i').pending = none →
              (∀ p ∈ Daemon.receivedBy i l, p.Held sorted.args) →
              List.Forall₂ Received.Same (Daemon.receivedBy i l) (Daemon.receivedBy i' l') →
                Daemon.sentBy i l = Daemon.sentBy i' l') := by
  have hrun : ∃ m, run Machine.step .start sugared = .ok m := ⟨_, rfl⟩
  obtain ⟨m, hm⟩ := hrun
  exact ⟨m, hm, service_expands hm rangesFit_sugared⟩

end Rdnstun
