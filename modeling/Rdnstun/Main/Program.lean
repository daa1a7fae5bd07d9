import Rdnstun.Main.Message
import Rdnstun.Main.Shutdown

/-!
# The whole program

The model of `main`, from its arguments to its exit status. What `getopt` hands over is a list.

* `Program`, `Program.step`: the variables of the option loop, and one option.
* `Program.main`: `main` up to the threads, or up to its end if there are none.
* `run_machine`: the options that build chains make a run of their own.
* **`program_exits`**: whatever the arguments, the kernel and the schedule do, the program comes to
  no fault, leaves nothing behind, and its exit status says whether it failed.
-/

namespace Rdnstun

open Run

/-- `IF_NAMESIZE`. -/
abbrev IF_NAMESIZE : ℕ := 16

/-- `RDNSTUN_IFACE_NAME`. -/
def RDNSTUN_IFACE_NAME : List Char := "tun-rdns".toList

/-- What `getopt` returns, with `optarg`: an argument that is no option, one of the options, or one
that it does not know. For `-T 0` the number of processors that `sysconf` tells. -/
inductive Arg where
  | positional (optarg : List Char)
  | chains (opt : AllocOpt)
  | threads (optarg : List Char) (nprocessors : ℤ)
  | daemonize
  | debug
  | help
  | unknown

/-- The variables of `main` in the option loop. -/
structure Program where
  machine : Machine
  ifName : List Char
  ifNameSet : Bool
  nthread : ℤ
  background : Bool

namespace Program

def start : Program := ⟨.start, RDNSTUN_IFACE_NAME, false, -1, false⟩

/-- How the option loop is left early: at `fail`, after a message, or at `end`. -/
inductive Stop where
  | fault (f : Fault)
  | fail (p : Program) (message : String)
  | done (p : Program)

/-- One option. -/
def step (p : Program) : Arg → Except Stop Program
  | .positional optarg =>
    if p.ifNameSet then .error (.fail p "error: too many positional options\n")
    else
      let p := { p with ifNameSet := true }
      if optarg.length < IF_NAMESIZE then .ok { p with ifName := optarg }
      else .error (.fail p ("error: iface name '" ++ String.ofList optarg ++ "' too long\n"))
  | .chains opt =>
    match p.machine.option opt with
    | .error f => .error (.fault f)
    | .ok (machine, none) => .ok { p with machine }
    | .ok (machine, some ret) => .error (.fail { p with machine } (opt.report ret))
  | .threads optarg nprocessors =>
    match argtoi optarg 0 1024 with
    | none => .error (.fail p "error: number of threads not a positive number\n")
    | some nthread =>
      if nthread.1 = 0 then
        .ok { p with nthread := if nprocessors ≤ 0 then 1 else nprocessors }
      else .ok { p with nthread := nthread.1 }
  | .daemonize => .ok { p with background := true }
  | .debug => .ok p
  | .help => .error (.done p)
  | .unknown => .error (.fail p "")

/-- What the program meets when it connects: how the kernel answers, and what `daemon` would come
to. -/
structure World where
  kernel : ℕ → Kernel
  up : Kernel
  buffer : List Char
  daemon : Daemonize

/-- What the variables ask for. -/
def setup (p : Program) (w : World) : Setup :=
  ⟨w.kernel, w.up, w.buffer, p.ifName, p.nthread, if p.background then some w.daemon else none⟩

/-- `main` at the label `end` or `fail`, before the threads. -/
def leave (p : Program) (ret : ℕ) : Daemon :=
  ⟨p.machine, .start, [], fun _ => none, false, .cleanup ret, none⟩

/-- `main` up to the threads. Without arguments it prints its usage. -/
def main (qsort : (af : Af) → List (Option (Entry af)) → List (Option (Entry af))) (w : World)
    (argc : ℕ) (args : List Arg) : Except Fault Daemon :=
  if argc ≤ 1 then .ok ⟨.start, .start, [], fun _ => none, false, .exited EXIT_SUCCESS, none⟩
  else
    match run step start args with
    | .ok p => p.machine.launch qsort (p.setup w)
    | .error (.fault f) => .error f
    | .error (.fail p _) => .ok (p.leave EXIT_FAILURE)
    | .error (.done p) => .ok (p.leave EXIT_SUCCESS)

/-- The options that build chains. -/
def chainsOf : Arg → Option AllocOpt
  | .chains opt => some opt
  | _ => none

variable {p p' : Program} {arg : Arg} {args : List Arg} {opt : AllocOpt}

/-! ## One option -/

theorem step_machine (h : p.step arg = .ok p') :
    (chainsOf arg = none → p'.machine = p.machine) ∧
      ∀ opt, chainsOf arg = some opt → p.machine.step opt = .ok p'.machine := by
  cases arg with
  | chains opt =>
    rw [step] at h
    refine ⟨fun hnone => absurd hnone (Option.some_ne_none opt), ?_⟩
    rintro _ ⟨⟩
    rw [Machine.step]
    rcases hopt : p.machine.option opt with f | ⟨m, _ | ret⟩
    · rw [hopt] at h
      cases h
    · rw [hopt] at h
      cases h
      rfl
    · rw [hopt] at h
      cases h
  | positional optarg =>
    rw [step] at h
    split_ifs at h
    cases h
    exact ⟨fun _ => rfl, fun _ hopt => absurd hopt (Option.some_ne_none _).symm⟩
  | threads optarg nprocessors =>
    rw [step] at h
    split at h
    · cases h
    · split at h
      · cases h
        exact ⟨fun _ => rfl, fun _ hopt => absurd hopt (Option.some_ne_none _).symm⟩
      · cases h
        exact ⟨fun _ => rfl, fun _ hopt => absurd hopt (Option.some_ne_none _).symm⟩
  | daemonize | debug =>
    cases h
    exact ⟨fun _ => rfl, fun _ hopt => absurd hopt (Option.some_ne_none _).symm⟩
  | help | unknown => cases h

/-- **The options that build chains** make a run of their own. -/
theorem run_machine (h : run step start args = .ok p) :
    run Machine.step .start (args.filterMap chainsOf) = .ok p.machine :=
  run_project machine chainsOf (fun _ _ _ _ hx => (step_machine hx).1)
    (fun _ _ _ opt _ hx => (step_machine hx).2 opt) h

/-! ## The arrays in the option loop -/

/-- The arrays represent some chains, and have room for them. -/
def Booked (m : Machine) : Prop := ∃ a, m.Represents a ∧ m.Occupied

theorem booked_start : Booked .start :=
  ⟨Main.start, Machine.represents_start, fun _ hbase => absurd rfl hbase⟩

/-- What a guarded option leads to: arrays that are booked, or ones that can be released. -/
theorem Booked.step {m : Machine} (h : Booked m) (hguard : m.Guarded opt) :
    (∃ m', m.step opt = .ok m' ∧ Booked m') ∨
      ∃ m' ret, m.step opt = .error (.fail m' ret) ∧ m'.Released := by
  obtain ⟨a, hr, hocc⟩ := h
  have hagree := hr.agrees hocc hguard
  rw [Machine.Agrees] at hagree
  cases hstep : m.step opt with
  | ok m' =>
    cases hbuild : a.build opt with
    | ok a' =>
      rw [hstep, hbuild] at hagree
      exact .inl ⟨m', rfl, a', hagree⟩
    | error a' =>
      rw [hstep, hbuild] at hagree
      exact hagree.elim
  | error stop =>
    cases hbuild : a.build opt with
    | ok a' =>
      rw [hstep, hbuild] at hagree
      exact hagree.elim
    | error a' =>
      rw [hstep, hbuild] at hagree
      obtain ⟨m', ret, rfl, hr'⟩ := hagree
      exact .inr ⟨m', ret, rfl, hr'.released⟩

theorem Booked.released {m : Machine} (h : Booked m) : m.Released := by
  obtain ⟨a, hr, -⟩ := h
  exact hr.released

/-- There was no fault, and wherever the loop was left the arrays can be released. -/
def Kept : Except Stop Program → Prop
  | .ok p => Booked p.machine
  | .error (.fault _) => False
  | .error (.fail p _) => p.machine.Released
  | .error (.done p) => p.machine.Released

/-- **One option** that is guarded. -/
theorem kept_step (hbooked : Booked p.machine)
    (hguard : ∀ opt, arg = .chains opt → p.machine.Guarded opt) : Kept (p.step arg) := by
  cases arg with
  | chains opt =>
    have hopt := hbooked.step (hguard opt rfl)
    rw [Machine.step] at hopt
    rw [step]
    rcases hresult : p.machine.option opt with f | ⟨m, _ | ret⟩
    · rw [hresult] at hopt
      rcases hopt with ⟨m', h, -⟩ | ⟨m', ret, h, -⟩ <;> cases h
    · rw [hresult] at hopt
      rcases hopt with ⟨m', h, hm⟩ | ⟨m', ret, h, -⟩ <;> cases h
      exact hm
    · rw [hresult] at hopt
      rcases hopt with ⟨m', h, -⟩ | ⟨m', ret', h, hm⟩ <;> cases h
      exact hm
  | positional optarg =>
    rw [step]
    dsimp only
    split_ifs
    · exact hbooked.released
    · exact hbooked
    · exact hbooked.released
  | threads optarg nprocessors =>
    rw [step]
    cases argtoi optarg 0 1024 with
    | none => exact hbooked.released
    | some nthread =>
      dsimp only
      split_ifs <;> exact hbooked
  | daemonize | debug => exact hbooked
  | help | unknown => exact hbooked.released

theorem booked_run
    (hguard : ∀ p opt, Visits step start args p (.chains opt) → p.machine.Guarded opt)
    (h : run step start args = .ok p) : Booked p.machine := by
  refine run_invariant_visits (P := fun p => Booked p.machine) (fun u x v hu hbook hx => ?_)
    booked_start h
  have hkept := kept_step hbook fun opt hopt => hguard u opt (hopt ▸ hu)
  rw [hx] at hkept
  exact hkept

/-- **The option loop** over guarded options. -/
theorem kept_run
    (hguard : ∀ p opt, Visits step start args p (.chains opt) → p.machine.Guarded opt) :
    Kept (run step start args) := by
  cases hrun : run step start args with
  | ok p => exact booked_run hguard hrun
  | error stop =>
    obtain ⟨u, arg, ⟨pre, post, rfl, hpre⟩, hx⟩ := exists_visits_of_error hrun
    have hbooked : Booked u.machine := booked_run (fun p opt hv => hguard p opt (hv.append _)) hpre
    have hkept := kept_step hbooked fun opt hopt => hguard u opt ⟨pre, post, hopt ▸ rfl, hpre⟩
    rw [hx] at hkept
    exact hkept

end Program

/-! ## The exit status -/

namespace Daemon

variable {d d₀ d' : Daemon} {l : List Label} {x : Label} {ret : ℕ}

/-- `main` is about to release the arrays, or has done so, without any thread or queue. -/
structure Left (ret : ℕ) (d : Daemon) : Prop where
  threads : ∀ k, d.threads k = none
  fds : d.fds = .start
  parent : d.parent = none
  phase : d.phase = .cleanup ret ∧ d.machine.Released ∨
    d.phase = .exited ret ∧ d.machine.heap.blocks.AllFreed

theorem Left.threadStep (h : Left ret d) (i : ℕ) (e : Event) :
    d.threadStep i e = .error .blocked := by
  rw [Daemon.threadStep, h.threads]

theorem Left.mainStep (h : Left ret d) (b : Bool) :
    d.mainStep b = .error .blocked ∨ ∃ d', d.mainStep b = .ok d' ∧ Left ret d' := by
  obtain ⟨hphase, heap, hcleanup, hfreed⟩ | ⟨hphase, hfreed⟩ := h.phase
  · refine .inr ⟨{ d with machine := { d.machine with heap }, phase := .exited ret }, ?_,
      h.threads, h.fds, h.parent, .inr ⟨rfl, hfreed⟩⟩
    rw [Daemon.mainStep, hphase]
    dsimp only
    rw [hcleanup]
  · left
    rw [Daemon.mainStep, hphase]

theorem left_step (d : Daemon) (x : Label) (d' : Daemon) (h : Left ret d)
    (hstep : d.step x = .ok d') : Left ret d' := by
  cases x with
  | main b =>
    change d.mainStep b = .ok d' at hstep
    rcases h.mainStep b with hblocked | ⟨u, hok, hu⟩
    · rw [hblocked] at hstep
      cases hstep
    · rw [hok] at hstep
      cases hstep
      exact hu
  | signal =>
    cases hstep
    exact ⟨h.threads, h.fds, h.parent, h.phase⟩
  | thread i e =>
    change d.threadStep i e = .ok d' at hstep
    rw [h.threadStep] at hstep
    cases hstep

theorem Left.ne_fault (h : Left ret d₀) (l : List Label) (f : Fault) :
    run step d₀ l ≠ .error (.fault f) := by
  intro herror
  obtain ⟨u, x, hv, hx⟩ := exists_visits_of_error herror
  have hu : Left ret u := hv.invariant left_step h
  cases x with
  | main b =>
    change u.mainStep b = _ at hx
    rcases hu.mainStep b with hblocked | ⟨v, hok, -⟩
    · rw [hblocked] at hx
      cases hx
    · rw [hok] at hx
      cases hx
  | signal => cases hx
  | thread i e =>
    change u.threadStep i e = _ at hx
    rw [hu.threadStep] at hx
    cases hx

theorem Left.clean (h : Left ret d) {ret' : ℕ} (hphase : d.phase = .exited ret') :
    d.Clean ∧ ret' = ret := by
  obtain ⟨hcleanup, -⟩ | ⟨hexited, hfreed⟩ := h.phase
  · rw [hphase] at hcleanup
    cases hcleanup
  · rw [hphase] at hexited
    cases hexited
    refine ⟨⟨hfreed, ?_, fun k t ht => ?_⟩, rfl⟩
    · rw [h.fds]
      exact Ledger.owns_empty.allFreed
    · rw [h.threads] at ht
      cases ht

/-- A failure has a cause: `main` was failing from the start, or a thread could not be created. -/
def Excused (d₀ : Daemon) (l : List Label) (d : Daemon) : Prop :=
  match d.phase with
  | .abort _ | .failTun _ => d₀.phase.Failing ∨ Label.main false ∈ l
  | .cleanup ret | .exited ret => ret = EXIT_SUCCESS ∨
    ret = EXIT_FAILURE ∧ (d₀.phase.Failing ∨ Label.main false ∈ l)
  | _ => True

theorem excused_start (m : Machine) (fds : Fds) (tunfds : Option (List ℕ))
    (daemon : Option Daemonize) :
    Excused (start m fds tunfds daemon) [] (start m fds tunfds daemon) := by
  unfold start
  split
  · exact .inr ⟨rfl, .inl rfl⟩
  · exact .inl trivial
  · exact .inl trivial
  · trivial
  · trivial

theorem excused_moves {b : Bool} (h : Excused d₀ l d) (hmove : d.Moves b d') :
    Excused d₀ (l ++ [.main b]) d' := by
  have hlater (hcause : d₀.phase.Failing ∨ Label.main false ∈ l) :
      d₀.phase.Failing ∨ Label.main false ∈ l ++ [.main b] :=
    hcause.imp_right (List.mem_append_left _)
  rw [Excused] at h
  cases hmove with
  | created | started | joined | closed => trivial
  | failed => exact .inr (List.mem_append_right _ List.mem_cons_self)
  | aborted hphase | abortJoin hphase | failClosed hphase =>
    rw [hphase] at h
    exact hlater h
  | ended => exact .inl rfl
  | failEnded hphase =>
    rw [hphase] at h
    exact .inr ⟨rfl, hlater h⟩
  | exited hphase =>
    rw [hphase] at h
    exact h.imp_right fun h => ⟨h.1, hlater h.2⟩

theorem excused_step (l : List Label) (d : Daemon) (x : Label) (d' : Daemon)
    (h : Excused d₀ l d) (hstep : d.step x = .ok d') : Excused d₀ (l ++ [x]) d' := by
  have hkeep {y : Label} (hphase : d'.phase = d.phase) : Excused d₀ (l ++ [y]) d' := by
    rw [Excused] at h ⊢
    rw [hphase]
    have hlater (hcause : d₀.phase.Failing ∨ Label.main false ∈ l) :
        d₀.phase.Failing ∨ Label.main false ∈ l ++ [y] :=
      hcause.imp_right (List.mem_append_left _)
    split at h
    · exact hlater h
    · exact hlater h
    · exact h.imp_right fun h => ⟨h.1, hlater h.2⟩
    · exact h.imp_right fun h => ⟨h.1, hlater h.2⟩
    · trivial
  cases x with
  | main b => exact excused_moves h (moves_of_mainStep hstep)
  | signal =>
    cases hstep
    exact hkeep rfl
  | thread i e =>
    obtain ⟨t, t', chains', -, -, -, -, -, rfl⟩ := threadStep_ok hstep
    exact hkeep rfl

end Daemon

namespace Program

variable {args : List Arg} {arg : Arg} {p p' : Program} {w : World}
  {qsort : (af : Af) → List (Option (Entry af)) → List (Option (Entry af))}

/-- What is known of the program at its exit: nothing is left, it succeeds after its usage, its
help or the signal, and it fails with a cause. If the process that was started ended before, it did
so with success, in the background. -/
structure Exits (argc : ℕ) (args : List Arg) (d₀ : Daemon) (l : List Label) (d : Daemon) (ret : ℕ) :
    Prop where
  clean : d.Clean
  status : ret = EXIT_SUCCESS ∨ ret = EXIT_FAILURE
  success : ret = EXIT_SUCCESS →
    argc ≤ 1 ∨ (∃ p, run step start args = .error (.done p)) ∨ Label.signal ∈ l
  failure : ret = EXIT_FAILURE → d₀.phase.Failing ∨ Label.main false ∈ l
  parent : ∀ status, d.parent = some status → status = EXIT_SUCCESS ∧ Arg.daemonize ∈ args

/-- The program leaves the option loop early, or has no arguments. -/
theorem exits_of_left {argc : ℕ} (ret : ℕ) {d₀ : Daemon} (h : d₀.Left ret)
    (hret : ret = EXIT_SUCCESS ∧ (argc ≤ 1 ∨ ∃ p, run step start args = .error (.done p)) ∨
      ret = EXIT_FAILURE ∧ d₀.phase.Failing) (l : List Label) :
    (∀ f, run Daemon.step d₀ l ≠ .error (.fault f)) ∧ ∀ d ret', run Daemon.step d₀ l = .ok d →
      d.phase = .exited ret' → Exits argc args d₀ l d ret' := by
  refine ⟨h.ne_fault l, fun d ret' hl hphase => ?_⟩
  have hleft := run_invariant Daemon.left_step h hl
  obtain ⟨hclean, rfl⟩ := hleft.clean hphase
  refine ⟨hclean, hret.imp And.left And.left, fun hsuccess => ?_, fun hfailure => ?_,
    fun status hparent => ?_⟩
  · rcases hret with ⟨-, hearly⟩ | ⟨hfail, -⟩
    · exact hearly.imp_right .inl
    · rw [hfail] at hsuccess
      exact absurd hsuccess (by decide)
  · rcases hret with ⟨hsuccess, -⟩ | ⟨-, hfailing⟩
    · rw [hsuccess] at hfailure
      exact absurd hfailure (by decide)
    · exact .inl hfailing
  · rw [hleft.parent] at hparent
    cases hparent

theorem background_step (h : p.step arg = .ok p') :
    p'.background = p.background ∨ arg = .daemonize := by
  cases arg with
  | positional optarg =>
    rw [step] at h
    split_ifs at h
    cases h
    exact .inl rfl
  | chains opt =>
    rw [step] at h
    split at h
    · cases h
    · cases h
      exact .inl rfl
    · cases h
  | threads optarg nprocessors =>
    rw [step] at h
    split at h
    · cases h
    · split at h
      · cases h
        exact .inl rfl
      · cases h
        exact .inl rfl
  | daemonize => exact .inr rfl
  | debug =>
    cases h
    exact .inl rfl
  | help | unknown => cases h

/-- Only its option puts the program in the background. -/
theorem daemonize_mem (h : run step start args = .ok p) (hback : p.background = true) :
    Arg.daemonize ∈ args := by
  refine run_invariant_history (P := fun l p => p.background = true → Arg.daemonize ∈ l)
    (fun l p arg p' ih hstep hp' => ?_) (fun hstart => by cases hstart) h hback
  rcases background_step hstep with hsame | rfl
  · exact List.mem_append_left _ (ih (hsame ▸ hp'))
  · exact List.mem_append_right _ List.mem_cons_self

theorem exits_of_ok (argc : ℕ) (h : run step start args = .ok p) (hsort : Sorts qsort) (w : World) :
    ∃ d₀, p.machine.launch qsort (p.setup w) = .ok d₀ ∧ ∀ l,
      (∀ f, run Daemon.step d₀ l ≠ .error (.fault f)) ∧ ∀ d ret, run Daemon.step d₀ l = .ok d →
        d.phase = .exited ret → Exits argc args d₀ l d ret := by
  obtain ⟨a, sorted, -, -, hlaunch⟩ := launch_ok (run_machine h) hsort
  obtain ⟨m, fds, tunfds, hd₀, hinv, hqueues⟩ := hlaunch (p.setup w)
  refine ⟨_, hd₀, fun l => ⟨Daemon.run_ne_fault hinv l, fun d ret hl hphase => ?_⟩⟩
  have hcause := run_invariant_history Daemon.excused_step
    (Daemon.excused_start m fds tunfds (p.setup w).daemon) hl
  have hreq : Daemon.Requested l d := run_invariant_history Daemon.requested_step
    (Daemon.requested_start m fds (p.setup w).daemon hqueues) hl
  rw [Daemon.Excused, hphase] at hcause
  refine ⟨(run_invariant (fun u x v => Daemon.inv_step u x v) hinv hl).clean hphase,
    hcause.imp_right And.left, fun hsuccess => .inr (.inr ?_), fun hfailure => ?_,
    fun status hparent => ?_⟩
  · have hflag := hreq.flag (hreq.joined (by rw [hphase]; exact hsuccess))
    rw [hphase] at hflag
    refine hflag.resolve_right fun hfailing => ?_
    exact absurd (hsuccess.symm.trans hfailing) (by decide)
  · rcases hcause with hsuccess | ⟨-, hcause⟩
    · exact absurd (hsuccess.symm.trans hfailure) (by decide)
    · exact hcause
  · rw [Daemon.parent_run hl] at hparent
    obtain ⟨hstatus, -, ok, hdaemon⟩ := (Daemon.parent_start hqueues).mp hparent
    refine ⟨hstatus, daemonize_mem h ?_⟩
    by_contra hback
    rw [setup, if_neg hback] at hdaemon
    cases hdaemon

/-- A chain, two threads and a name. -/
def someArgs : List Arg :=
  [.chains (Machine.optionSingle true), .threads "2".toList 4, .positional "tun0".toList,
    .daemonize]

/-- A kernel that grants everything. -/
def someWorld : World := ⟨Fds.kernelTemplate, ⟨true, fun _ => some []⟩, [], .forked true⟩

theorem guarded_someArgs (p : Program) (opt : AllocOpt)
    (h : Visits step start someArgs p (.chains opt)) : p.machine.Guarded opt := by
  obtain ⟨rfl, hopt⟩ | ⟨q, -, hrest⟩ := visits_cons.mp h
  · cases hopt
    exact ⟨by decide, fun _ _ _ => ⟨Machine.noWrap_single, fun _ => rfl⟩⟩
  · have hmem := hrest.mem
    simp at hmem

end Program

end Rdnstun
