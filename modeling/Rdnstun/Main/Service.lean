import Rdnstun.Main.Daemon

/-!
# The service of the program

* `Machine.launch`: what `main` does between the option loop and the threads.
* `launch_ok`: it leads to a state that keeps the invariant of the threads.
* `thread_run`: in every interleaving each thread makes a run of its loop.
* **`service_safe`**: no interleaving comes to a fault, and what the program has in the end is
  closed and freed, each once.
* `sent_add_pending`: all threads together; how the packets are shared out does not matter.
* **`service_answers`**: each thread answers its packets from the chains of the options, in order.
-/

namespace Rdnstun

open Run

/-- What the program meets when it connects: how the kernel answers, the name and the number of
threads that are asked for, and what `daemon` comes to, if it is called. -/
structure Setup where
  kernel : ℕ → Kernel
  up : Kernel
  buffer : List Char
  ifName : List Char
  nthread : ℤ
  daemon : Option Daemonize

namespace Machine

/-- From the end of the option loop to the threads. Without a chain `main` goes to `fail`. -/
def launch (m : Machine) (qsort : (af : Af) → List (Option (Entry af)) → List (Option (Entry af)))
    (s : Setup) : Except Fault Daemon :=
  if (m.vec .inet).len ≠ 0 ∨ (m.vec .inet6).len ≠ 0 then do
    let m ← m.finish qsort
    let (fds, tunfds) ← Fds.start.connect s.kernel s.up s.buffer s.ifName s.nthread
    return .start m fds tunfds s.daemon
  else return .start m .start none s.daemon

end Machine

/-- The step of a thread, under its number. -/
def Label.tagged : Label → Option (ℕ × Event)
  | .thread i e => some (i, e)
  | _ => none

namespace Daemon

variable {chains : Chains} {d d₀ d' : Daemon} {l : List Label} {i : ℕ}

/-! ## One thread -/

/-- Where a thread is; before it is created it is about to begin. -/
def thread (d : Daemon) (i : ℕ) : Thread := (d.threads i).getD .poll

theorem thread_moves {b : Bool} (h : d.Inv chains) (hmove : d.Moves b d') :
    d'.thread i = d.thread i := by
  cases hmove with
  | @created j fd hphase hfd =>
    rw [thread, thread]
    dsimp only
    by_cases hij : i = j
    · subst hij
      rw [Function.update_self, h.fresh i hphase i (Nat.le_refl i)]
      rfl
    · rw [Function.update_of_ne hij]
  | failed => rfl
  | started => rfl
  | aborted => rfl
  | abortJoin => rfl
  | joined => rfl
  | closed => rfl
  | failClosed => rfl
  | ended => rfl
  | failEnded => rfl
  | exited => rfl

/-- **One step** for a thread: it is its own, or the thread stays where it is. -/
theorem thread_step {x : Label} (h : d.Inv chains) (hstep : d.step x = .ok d') :
    (seenBy Label.tagged i x = none → d'.thread i = d.thread i) ∧
      ∀ e, seenBy Label.tagged i x = some e → e.sees d.shutdown = true ∧
        (d.thread i).step chains e = .ok (d'.thread i) := by
  cases x with
  | main b => exact ⟨fun _ => thread_moves h (moves_of_mainStep hstep), nofun⟩
  | signal =>
    cases hstep
    exact ⟨fun _ => rfl, nofun⟩
  | thread k e =>
    obtain ⟨t, t', chains', ht, hdone, hargs, hsees, hthread, rfl⟩ := threadStep_ok hstep
    have hactive := h.running k t ht hdone
    have hargs' := (h.arrays.of_phase fun ret hphase => by rw [hphase] at hactive; exact hactive).1
    cases hargs.symm.trans hargs'
    by_cases hki : k = i
    · subst hki
      have hseen : seenBy Label.tagged k (.thread k e) = some e := if_pos rfl
      rw [hseen]
      refine ⟨nofun, ?_⟩
      rintro _ ⟨⟩
      refine ⟨hsees, ?_⟩
      rw [thread, thread, ht]
      dsimp only
      rw [Function.update_self]
      exact hthread
    · have hseen : seenBy Label.tagged i (.thread k e) = none := if_neg hki
      rw [hseen]
      refine ⟨fun _ => ?_, nofun⟩
      rw [thread, thread]
      dsimp only
      rw [Function.update_of_ne (Ne.symm hki)]

/-- **One thread** of an interleaving makes a run of its loop. -/
theorem thread_run (h : d₀.Inv chains) (hrun : run step d₀ l = .ok d) (i : ℕ) :
    run (Thread.step chains) (d₀.thread i) (l.filterMap (seenBy Label.tagged i)) =
      .ok (d.thread i) := by
  have hinv {u : Daemon} {x : Label} (hv : Visits step d₀ l u x) : u.Inv chains :=
    hv.invariant (fun u x v => inv_step u x v) h
  exact run_project (fun d => d.thread i) (seenBy Label.tagged i)
    (fun u x v hv hx => (thread_step (hinv hv) hx).1)
    (fun u x v e hv hx he => ((thread_step (hinv hv) hx).2 e he).2) hrun

/-! ## Packets -/

/-- The packets that a thread reads in an interleaving. -/
def receivedBy (i : ℕ) (l : List Label) : List Received :=
  (l.filterMap (seenBy Label.tagged i)).filterMap Event.received

/-- What a thread hands to `write`. -/
def sentBy (i : ℕ) (l : List Label) : List (List UInt8) :=
  (l.filterMap (seenBy Label.tagged i)).filterMap Event.sent

/-- The packets that are read by any thread. -/
def received (l : List Label) : List Received :=
  l.filterMap fun x => x.tagged.bind fun y => y.2.received

/-- What any thread hands to `write`. -/
def sent (l : List Label) : List (List UInt8) :=
  l.filterMap fun x => x.tagged.bind fun y => y.2.sent

/-- **Each thread** has written the answers to the packets it read, but for one that is pending. -/
theorem sentBy_eq (h : d₀.Inv chains) (hpoll : d₀.thread i = .poll)
    (hrun : run step d₀ l = .ok d) :
    sentBy i l ++ (d.thread i).pending.toList = (receivedBy i l).filterMap (answer chains) :=
  sent_eq (hpoll ▸ thread_run h hrun i)

theorem tunfds_step (d : Daemon) (x : Label) (d' : Daemon) (hstep : d.step x = .ok d') :
    d'.tunfds = d.tunfds := by
  cases x with
  | main b => cases moves_of_mainStep hstep <;> rfl
  | signal => cases hstep; rfl
  | thread i e =>
    obtain ⟨t, t', chains', -, -, -, -, -, rfl⟩ := threadStep_ok hstep
    rfl

theorem mem_received {p : Received} : p ∈ received l ↔ ∃ i, p ∈ receivedBy i l := by
  simp only [received, receivedBy, List.mem_filterMap, Option.bind_eq_some_iff]
  constructor
  · rintro ⟨x, hx, ⟨i, e⟩, hy, hp⟩
    exact ⟨i, e, ⟨x, hx, by rw [seenBy, hy]; exact if_pos rfl⟩, hp⟩
  · rintro ⟨i, e, ⟨x, hx, hseen⟩, hp⟩
    obtain ⟨y, hy, hseen⟩ := Option.bind_eq_some_iff.mp hseen
    split_ifs at hseen
    cases hseen
    exact ⟨x, hx, y, hy, hp⟩

/-- The threads that take steps have queues. -/
theorem lt_of_tagged (h : d₀.Inv chains) (hrun : run step d₀ l = .ok d) {x : Label} (hx : x ∈ l)
    {y : ℕ × Event} (hy : y ∈ x.tagged) : y.1 < d₀.tunfds.length := by
  obtain ⟨u, hv⟩ := exists_visits_of_mem hx hrun
  obtain ⟨u', rest, hstep, -⟩ := hv.exists_run hrun
  have hinv : u.Inv chains := hv.invariant (fun u x v => inv_step u x v) h
  have htunfds : u.tunfds = d₀.tunfds :=
    hv.invariant (P := fun d => d.tunfds = d₀.tunfds)
      (fun u x v hu hx => (tunfds_step u x v hx).trans hu) rfl
  cases x with
  | main b => cases hy
  | signal => cases hy
  | thread i e =>
    cases hy
    obtain ⟨t, t', chains', ht, hdone, -, -, -, -⟩ := threadStep_ok hstep
    exact htunfds ▸ (hinv.running i t ht hdone).lt

theorem sum_seen {β : Type*} (f : Event → Option β) (h : d₀.Inv chains)
    (hrun : run step d₀ l = .ok d) :
    ∑ i ∈ Finset.range d₀.tunfds.length,
        ((l.filterMap (seenBy Label.tagged i)).filterMap f : Multiset β) =
      (l.filterMap fun x => x.tagged.bind fun y => f y.2 : List β) := by
  have hsee (i : ℕ) : (fun x => (seenBy Label.tagged i x).bind f) =
      seenBy (fun x : Label => x.tagged.bind fun y => (f y.2).map fun b => (y.1, b)) i := by
    funext x
    rw [seenBy, seenBy]
    cases x.tagged with
    | none => rfl
    | some y =>
      simp only [Option.bind_some]
      cases hf : f y.2 <;> by_cases hi : y.1 = i <;> simp [hf, hi]
  have hall :
      (fun x : Label => (x.tagged.bind fun y => (f y.2).map fun b => (y.1, b)).map Prod.snd) =
      fun x => x.tagged.bind fun y => f y.2 := by
    funext x
    cases x.tagged with
    | none => rfl
    | some y => cases hf : f y.2 <;> simp [hf]
  simp only [List.filterMap_filterMap, hsee]
  rw [sum_filterMap_seenBy, hall]
  intro x hx y hy
  obtain ⟨z, hz, hy⟩ := Option.bind_eq_some_iff.mp hy
  obtain ⟨b, -, rfl⟩ := Option.map_eq_some_iff.mp hy
  exact Finset.mem_range.mpr (lt_of_tagged h hrun hx hz)

/-- **All threads** together have written the answers to the packets they read, but for those that
are pending: how the packets are shared out does not matter. -/
theorem sent_add_pending (h : d₀.Inv chains) (hpoll : ∀ i, d₀.thread i = .poll)
    (hrun : run step d₀ l = .ok d) :
    (sent l : Multiset (List UInt8)) +
        ∑ i ∈ Finset.range d₀.tunfds.length, ((d.thread i).pending.toList : Multiset (List UInt8)) =
      ((received l).filterMap (answer chains) : List (List UInt8)) := by
  have hbind : (fun x : Label => (x.tagged.bind fun y => y.2.received).bind (answer chains)) =
      fun x => x.tagged.bind fun y => y.2.received.bind (answer chains) :=
    funext fun x => Option.bind_assoc _ _ _
  rw [sent, ← sum_seen Event.sent h hrun, ← Finset.sum_add_distrib, received,
    List.filterMap_filterMap, hbind, ← sum_seen (fun e => e.received.bind (answer chains)) h hrun]
  refine Finset.sum_congr rfl fun i _ => ?_
  rw [Multiset.coe_add, ← List.filterMap_filterMap]
  exact congrArg _ (sentBy_eq h (hpoll i) hrun)

/-! ## The end -/

/-- Nothing is left: every block was freed and every descriptor closed, each once, and no thread is
in its loop. -/
structure Clean (d : Daemon) : Prop where
  blocks : d.machine.heap.blocks.AllFreed
  fds : d.fds.table.AllFreed
  threads : ∀ k t, d.threads k = some t → t.isDone = true

theorem Inv.clean (h : d.Inv chains) {ret : ℕ} (hphase : d.phase = .exited ret) : d.Clean := by
  have hfds := h.fds
  have harrays := h.arrays
  rw [hphase] at hfds
  rw [Arrays, hphase] at harrays
  refine ⟨harrays, ?_, fun k t ht => ?_⟩
  · rw [Phase.closed, List.drop_length] at hfds
    exact hfds.allFreed
  · by_contra hdone
    have hactive := h.running k t ht (by simpa using hdone)
    rw [hphase] at hactive
    exact hactive

theorem run_ne_fault (h : d₀.Inv chains) (l : List Label) (f : Fault) :
    run step d₀ l ≠ .error (.fault f) := by
  intro herror
  obtain ⟨u, x, hv, hx⟩ := exists_visits_of_error herror
  have hinv : u.Inv chains := hv.invariant (fun u x v => inv_step u x v) h
  exact hinv.step_ne_fault x f hx

end Daemon

/-! ## From the options on -/

section Launch

variable {opts : List AllocOpt} {m : Machine} {chains : Chains}
  {qsort : (af : Af) → List (Option (Entry af)) → List (Option (Entry af))}

theorem thread_start (m : Machine) (fds : Fds) (tunfds : Option (List ℕ))
    (daemon : Option Daemonize) (i : ℕ) : (Daemon.start m fds tunfds daemon).thread i = .poll := by
  unfold Daemon.start
  split
  · rfl
  · rfl
  · rfl
  · by_cases hi : i = 0
    · subst hi
      rfl
    · rw [Daemon.thread]
      dsimp only
      rw [Function.update_of_ne hi]
      rfl
  · rfl

theorem args_of_nil {a : Main} (hr : m.Represents a) (hocc : m.Occupied)
    (hnil : ∀ af, (m.vec af).len = 0) : m.args = .ok a.args := by
  obtain ⟨-, xs, hxs, h⟩ := hr
  have hbase (af : Af) : (m.vec af).base = none := by
    by_contra hne
    exact absurd (hnil af) (hocc af hne).ne'
  have hempty (af : Af) : xs af = [] :=
    List.length_eq_zero_iff.mp ((h.vec af).len.symm.trans (hnil af))
  have hargs := h.args_eq fun af => .inl ⟨hempty af, hbase af⟩
  have hchains : (fun af => (xs af).map Prod.snd) = a.chains := funext hxs
  rw [hchains] at hargs
  exact hargs

/-- **The launch** after options that are carried out: the threads find the chains of the options,
by descending prefix. -/
theorem launch_ok (hrun : run Machine.step .start opts = .ok m) (hsort : Sorts qsort) :
    ∃ a sorted : Main, Main.run (opts.map AllocOpt.opt) = .ok a ∧
      (∀ af, HostChainArray.SortedBy (a.chains af) (sorted.chains af)) ∧
      ∀ s, ∃ m' fds tunfds, m.launch qsort s = .ok (.start m' fds tunfds s.daemon) ∧
        (Daemon.start m' fds tunfds s.daemon).Inv sorted.args ∧ ∀ l ∈ tunfds, l ≠ [] := by
  obtain ⟨a, hbuild, hr, hocc, -⟩ := Machine.exists_represents hrun
  by_cases hlen : (m.vec .inet).len ≠ 0 ∨ (m.vec .inet6).len ≠ 0
  · obtain ⟨m', sorted, hfinish, hargs, hreleased, hsorted⟩ := hr.finish_args hocc hsort
    refine ⟨a, sorted, hbuild, hsorted, fun s => ?_⟩
    obtain ⟨fds, tunfds, hconnect, hown, hlength⟩ := Fds.connect_ok s.kernel s.up s.buffer s.ifName
      s.nthread (show Fds.start.table.Owns [] from Ledger.owns_empty)
    rw [List.append_nil] at hown
    refine ⟨m', fds, tunfds, ?_,
      Daemon.inv_start s.daemon hargs hreleased (hown.perm (List.reverse_perm _)), ?_⟩
    · rw [Machine.launch, if_pos hlen, hfinish]
      show (Fds.start.connect s.kernel s.up s.buffer s.ifName s.nthread >>= _) = _
      rw [hconnect]
      rfl
    · rintro l hl rfl
      have := hlength [] hl
      rw [List.length_nil, Nat.cast_zero] at this
      omega
  · have hnil : ∀ af, (m.vec af).len = 0 := by
      push Not at hlen
      rintro (_ | _)
      · exact hlen.1
      · exact hlen.2
    have hchains (af : Af) : a.chains af = [] := by
      obtain ⟨-, xs, hxs, h⟩ := hr
      rw [← hxs, List.length_eq_zero_iff.mp ((h.vec af).len.symm.trans (hnil af))]
      rfl
    refine ⟨a, a, hbuild, fun af => ⟨.refl _, ?_⟩, fun s => ⟨m, .start, none, if_neg hlen,
      Daemon.inv_start s.daemon (args_of_nil hr hocc hnil) hr.released Ledger.owns_empty,
      nofun⟩⟩
    rw [hchains]
    exact .nil

/-- The entries by descending prefix. -/
def byPrefix : (af : Af) → List (Option (Entry af)) → List (Option (Entry af)) := fun _ l =>
  l.mergeSort fun x y => (y.map Entry.prefixLen).getD 0 ≤ (x.map Entry.prefixLen).getD 0

theorem sorts_byPrefix : Sorts byPrefix := by
  intro af l
  refine ⟨List.mergeSort_perm l _, (List.pairwise_mergeSort ?_ ?_ l).imp ?_⟩
  · intro x y z hxy hyz
    rw [decide_eq_true_eq] at hxy hyz ⊢
    exact hyz.trans hxy
  · intro x y
    rw [Bool.or_eq_true, decide_eq_true_eq, decide_eq_true_eq]
    exact Nat.le_total _ _
  · rintro _ _ hle e ⟨⟩ e' ⟨⟩
    exact of_decide_eq_true hle

theorem run_single : ∃ m, run Machine.step .start [Machine.optionSingle true] = .ok m := ⟨_, rfl⟩

/-- Two threads at an interface that the kernel names. -/
def twoThreads : Setup :=
  ⟨Fds.kernelTemplate, ⟨true, fun _ => some []⟩, [], "tun%d".toList, 2, none⟩

/-- **Safety of the service.** After options that are carried out, however the steps of the threads,
of `main` and the signal are interleaved, there is no fault, and at its end the program has freed
every block and closed every descriptor, each once, with no thread in its loop. -/
theorem service_safe (hrun : run Machine.step .start opts = .ok m) (hsort : Sorts qsort)
    (s : Setup) :
    ∃ d₀, m.launch qsort s = .ok d₀ ∧ ∀ l, (∀ f, run Daemon.step d₀ l ≠ .error (.fault f)) ∧
      ∀ d ret, run Daemon.step d₀ l = .ok d → d.phase = .exited ret → d.Clean := by
  obtain ⟨a, sorted, -, -, hlaunch⟩ := launch_ok hrun hsort
  obtain ⟨m', fds, tunfds, hd₀, hinv, -⟩ := hlaunch s
  refine ⟨_, hd₀, fun l => ⟨Daemon.run_ne_fault hinv l, fun d ret hl hphase => ?_⟩⟩
  exact (run_invariant (fun u x v => Daemon.inv_step u x v) hinv hl).clean hphase

theorem service_safe_single : ∃ m, run Machine.step .start [Machine.optionSingle true] = .ok m ∧
    ∃ d₀, m.launch byPrefix twoThreads = .ok d₀ ∧ ∀ l,
      (∀ f, run Daemon.step d₀ l ≠ .error (.fault f)) ∧
        ∀ d ret, run Daemon.step d₀ l = .ok d → d.phase = .exited ret → d.Clean := by
  obtain ⟨m, hrun⟩ := run_single
  exact ⟨m, hrun, service_safe hrun sorts_byPrefix twoThreads⟩

/-- **The service.** After options that are carried out, in every interleaving each thread has
written the answers to the packets it read, in their order, but for one that is pending; it answers
from the chains of the options by descending prefix. -/
theorem service_answers (hrun : run Machine.step .start opts = .ok m) (hsort : Sorts qsort)
    (s : Setup) :
    ∃ (a sorted : Main) (d₀ : Daemon), Main.run (opts.map AllocOpt.opt) = .ok a ∧
      (∀ af, HostChainArray.SortedBy (a.chains af) (sorted.chains af)) ∧
      m.launch qsort s = .ok d₀ ∧ ∀ l d, run Daemon.step d₀ l = .ok d → ∀ i,
        Daemon.sentBy i l ++ (d.thread i).pending.toList =
          (Daemon.receivedBy i l).filterMap (answer sorted.args) := by
  obtain ⟨a, sorted, hbuild, hsorted, hlaunch⟩ := launch_ok hrun hsort
  obtain ⟨m', fds, tunfds, hd₀, hinv, -⟩ := hlaunch s
  exact ⟨a, sorted, _, hbuild, hsorted, hd₀, fun l d hl i =>
    Daemon.sentBy_eq hinv (thread_start m' fds tunfds s.daemon i) hl⟩

theorem service_answers_single : ∃ m, run Machine.step .start [Machine.optionSingle true] = .ok m ∧
    ∃ (a sorted : Main) (d₀ : Daemon),
      Main.run ([Machine.optionSingle true].map AllocOpt.opt) = .ok a ∧
      (∀ af, HostChainArray.SortedBy (a.chains af) (sorted.chains af)) ∧
      m.launch byPrefix twoThreads = .ok d₀ ∧ ∀ l d, run Daemon.step d₀ l = .ok d → ∀ i,
        Daemon.sentBy i l ++ (d.thread i).pending.toList =
          (Daemon.receivedBy i l).filterMap (answer sorted.args) := by
  obtain ⟨m, hrun⟩ := run_single
  exact ⟨m, hrun, service_answers hrun sorts_byPrefix twoThreads⟩

end Launch

end Rdnstun
