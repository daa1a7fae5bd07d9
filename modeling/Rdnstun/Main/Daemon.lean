import Rdnstun.Main.Arguments
import Rdnstun.Main.Device

/-!
# The threads of the program

The model of `main` after the interface is connected: threads are created, and joined when the flag
made them leave their loops; then the queues are closed and the arrays released. The steps of the
threads and of `main` and the signal come in any order.

* `Daemon`, `Daemon.step`: the program, and one step of a thread, of `main`, or the signal.
* `Phase.Active`: the threads that may be in their loops; `Phase.closed`: the queues that are
  closed.
* `Daemon.Inv`, **`inv_step`**: what holds in every interleaving.
* **`step_ne_fault`**: no step uses a queue that is closed or an array that is freed.
-/

namespace Rdnstun

open Run

/-- `EXIT_SUCCESS`. -/
abbrev EXIT_SUCCESS : ℕ := 0

/-- `EXIT_FAILURE`. -/
abbrev EXIT_FAILURE : ℕ := 1

/-- Where `main` is: before a call of `thrd_create`, with threads left to join after one failed,
before `thrd_join`, before the `close` behind it, at the label `fail_tun`, at the labels `end` and
`fail`, or at its end. -/
inductive Phase where
  | create (i : ℕ)
  | abort (j : ℕ)
  | join (i : ℕ)
  | close (i : ℕ)
  | failTun (i : ℕ)
  | cleanup (ret : ℕ)
  | exited (ret : ℕ)

/-- What a call `daemon(0, 0)` comes to: there is no second process and it fails, or the process
that called it ends, and in the other one it succeeds or fails. -/
inductive Daemonize where
  | unforked
  | forked (ok : Bool)

/-- The program after the option loop, with the threads that were created. The process that was
started may have ended inside `daemon`, with the status `parent`. -/
structure Daemon where
  machine : Machine
  fds : Fds
  tunfds : List ℕ
  threads : ℕ → Option Thread
  shutdown : Bool
  phase : Phase
  parent : Option ℕ

/-- A step of `main`, with the result of `thrd_create`, the signal, or a step of a thread. -/
inductive Label where
  | main (created : Bool)
  | signal
  | thread (i : ℕ) (e : Event)

def Thread.isDone : Thread → Bool
  | .done => true
  | _ => false

/-- A thread that looks at the flag sees its value. -/
def Event.sees (shutdown : Bool) : Event → Bool
  | .test seen => seen = shutdown
  | _ => true

namespace Daemon

/-- The state after `daemon`, if it was called. Without the queues `main` goes to `fail`; with one
queue it runs the loop itself, and goes on when it is done. -/
def start (machine : Machine) (fds : Fds) : Option (List ℕ) → Option Daemonize → Daemon
  | none, _ => ⟨machine, fds, [], fun _ => none, false, .cleanup EXIT_FAILURE, none⟩
  | some tunfds, some .unforked => ⟨machine, fds, tunfds, fun _ => none, false, .failTun 0, none⟩
  | some tunfds, some (.forked false) =>
    ⟨machine, fds, tunfds, fun _ => none, false, .failTun 0, some EXIT_SUCCESS⟩
  | some [tunfd], daemon =>
    ⟨machine, fds, [tunfd], Function.update (fun _ => none) 0 (some .poll), false, .join 0,
      daemon.map fun _ => EXIT_SUCCESS⟩
  | some tunfds, daemon =>
    ⟨machine, fds, tunfds, fun _ => none, false, .create 0, daemon.map fun _ => EXIT_SUCCESS⟩

/-- `close(tunfds[i])`. -/
def close (d : Daemon) (fd : ℕ) (phase : Phase) : Except Halt Daemon :=
  match d.fds.close fd with
  | .error f => .error (.fault f)
  | .ok fds => .ok { d with fds, phase }

/-- The thread was created and has left its loop. -/
def isDone (d : Daemon) (i : ℕ) : Bool := (d.threads i).any Thread.isDone

/-- A step of `main`. -/
def mainStep (d : Daemon) (created : Bool) : Except Halt Daemon :=
  match d.phase with
  | .create i =>
    match d.tunfds[i]? with
    | some _ =>
      if created then
        .ok { d with
          threads := Function.update d.threads i (some .poll)
          phase := .create (i + 1) }
      else .ok { d with shutdown := true, phase := .abort i }
    | none => .ok { d with phase := .join 0 }
  | .abort 0 => .ok { d with phase := .failTun 0 }
  | .abort (j + 1) => if d.isDone j then .ok { d with phase := .abort j } else .error .blocked
  | .join i =>
    match d.tunfds[i]? with
    | some _ => if d.isDone i then .ok { d with phase := .close i } else .error .blocked
    | none => .ok { d with phase := .cleanup EXIT_SUCCESS }
  | .close i =>
    match d.tunfds[i]? with
    | some fd => d.close fd (.join (i + 1))
    | none => .error (.fault .outOfBounds)
  | .failTun i =>
    match d.tunfds[i]? with
    | some fd => d.close fd (.failTun (i + 1))
    | none => .ok { d with phase := .cleanup EXIT_FAILURE }
  | .cleanup ret =>
    match d.machine.cleanup with
    | .error f => .error (.fault f)
    | .ok heap => .ok { d with machine := { d.machine with heap }, phase := .exited ret }
  | .exited _ => .error .blocked

/-- A step of a thread in its loop. Its queue and the arrays have to be there, whatever it does. -/
def threadStep (d : Daemon) (i : ℕ) (e : Event) : Except Halt Daemon :=
  match d.threads i with
  | none => .error .blocked
  | some t =>
    if t.isDone then .error .blocked
    else
      match d.tunfds[i]? with
      | none => .error (.fault .outOfBounds)
      | some fd =>
        if d.fds.table.Live fd then
          match d.machine.args with
          | .error f => .error (.fault f)
          | .ok chains =>
            if e.sees d.shutdown then do
              let t ← t.step chains e
              return { d with threads := Function.update d.threads i (some t) }
            else .error .blocked
        else .error (.fault .notLive)

/-- One step of the program; the signal sets the flag. -/
def step (d : Daemon) : Label → Except Halt Daemon
  | .main created => d.mainStep created
  | .signal => .ok { d with shutdown := true }
  | .thread i e => d.threadStep i e

end Daemon

/-! ## What holds in every interleaving -/

namespace Phase

/-- The threads that were created and not joined. -/
def Active (n : ℕ) : Phase → ℕ → Prop
  | create i, k | abort i, k => k < i ∧ k < n
  | join i, k => i ≤ k ∧ k < n
  | close i, k => i < k ∧ k < n
  | failTun _, _ | cleanup _, _ | exited _, _ => False

/-- The number of queues that are closed. -/
def closed (n : ℕ) : Phase → ℕ
  | create _ | abort _ => 0
  | join i | close i | failTun i => i
  | cleanup _ | exited _ => n

/-- The counters of `main` stay in the arrays. -/
def InRange (n : ℕ) : Phase → Prop
  | close i => i < n
  | abort j => j ≤ n
  | _ => True

theorem inRange_close {n i : ℕ} : (close i).InRange n ↔ i < n := Iff.rfl

theorem Active.lt {n k : ℕ} {phase : Phase} (h : phase.Active n k) : k < n := by
  cases phase <;> first | exact h.2 | exact h.elim

theorem Active.closed_le {n k : ℕ} {phase : Phase} (h : phase.Active n k) :
    phase.closed n ≤ k := by
  cases phase with
  | create i => exact Nat.zero_le k
  | abort i => exact Nat.zero_le k
  | join i => exact h.1
  | close i => exact h.1.le
  | failTun i => exact h.elim
  | cleanup ret => exact h.elim
  | exited ret => exact h.elim

end Phase

namespace Daemon

variable {chains : Chains} {d d' : Daemon} {l : Label} {i : ℕ} {e : Event}

/-! ## What a step can be -/

/-- The steps of `main`, one for each way through the code. -/
inductive Moves (d : Daemon) : Bool → Daemon → Prop
  | created {i fd : ℕ} : d.phase = .create i → d.tunfds[i]? = some fd →
    Moves d true { d with
      threads := Function.update d.threads i (some .poll)
      phase := .create (i + 1) }
  | failed {i fd : ℕ} : d.phase = .create i → d.tunfds[i]? = some fd →
    Moves d false { d with shutdown := true, phase := .abort i }
  | started {i : ℕ} {b : Bool} : d.phase = .create i → d.tunfds.length ≤ i →
    Moves d b { d with phase := .join 0 }
  | aborted {b : Bool} : d.phase = .abort 0 → Moves d b { d with phase := .failTun 0 }
  | abortJoin {j : ℕ} {b : Bool} : d.phase = .abort (j + 1) → d.isDone j = true →
    Moves d b { d with phase := .abort j }
  | joined {i : ℕ} {b : Bool} : d.phase = .join i → i < d.tunfds.length → d.isDone i = true →
    Moves d b { d with phase := .close i }
  | closed {i fd : ℕ} {fds : Fds} {b : Bool} : d.phase = .close i → d.tunfds[i]? = some fd →
    d.fds.close fd = .ok fds → Moves d b { d with fds, phase := .join (i + 1) }
  | failClosed {i fd : ℕ} {fds : Fds} {b : Bool} : d.phase = .failTun i →
    d.tunfds[i]? = some fd → d.fds.close fd = .ok fds →
    Moves d b { d with fds, phase := .failTun (i + 1) }
  | ended {i : ℕ} {b : Bool} : d.phase = .join i → d.tunfds.length ≤ i →
    Moves d b { d with phase := .cleanup EXIT_SUCCESS }
  | failEnded {i : ℕ} {b : Bool} : d.phase = .failTun i → d.tunfds.length ≤ i →
    Moves d b { d with phase := .cleanup EXIT_FAILURE }
  | exited {ret : ℕ} {heap : Heap} {b : Bool} : d.phase = .cleanup ret →
    d.machine.cleanup = .ok heap →
    Moves d b { d with machine := { d.machine with heap }, phase := .exited ret }

theorem close_ok {fd : ℕ} {phase : Phase} (h : d.close fd phase = .ok d') :
    ∃ fds, d.fds.close fd = .ok fds ∧ d' = { d with fds, phase } := by
  rw [close] at h
  cases hclose : d.fds.close fd with
  | error f => rw [hclose] at h; cases h
  | ok fds =>
    rw [hclose] at h
    exact ⟨fds, rfl, (Except.ok.inj h).symm⟩

theorem moves_of_mainStep {b : Bool} (h : d.mainStep b = .ok d') : d.Moves b d' := by
  rw [mainStep] at h
  split at h
  · next i hphase =>
    cases hfd : d.tunfds[i]? with
    | none =>
      rw [hfd] at h
      cases h
      exact .started hphase (List.getElem?_eq_none_iff.mp hfd)
    | some fd =>
      rw [hfd] at h
      dsimp only at h
      split_ifs at h with hb
      · cases h
        exact hb ▸ .created hphase hfd
      · cases h
        rw [Bool.not_eq_true] at hb
        exact hb ▸ .failed hphase hfd
  · next hphase =>
    cases h
    exact .aborted hphase
  · next j hphase =>
    split_ifs at h with hdone
    cases h
    exact .abortJoin hphase hdone
  · next i hphase =>
    cases hfd : d.tunfds[i]? with
    | none =>
      rw [hfd] at h
      cases h
      exact .ended hphase (List.getElem?_eq_none_iff.mp hfd)
    | some fd =>
      rw [hfd] at h
      dsimp only at h
      split_ifs at h with hdone
      cases h
      exact .joined hphase (List.getElem?_eq_some_iff.mp hfd).1 hdone
  · next i hphase =>
    cases hfd : d.tunfds[i]? with
    | none => rw [hfd] at h; cases h
    | some fd =>
      rw [hfd] at h
      obtain ⟨fds, hclose, rfl⟩ := close_ok h
      exact .closed hphase hfd hclose
  · next i hphase =>
    cases hfd : d.tunfds[i]? with
    | none =>
      rw [hfd] at h
      cases h
      exact .failEnded hphase (List.getElem?_eq_none_iff.mp hfd)
    | some fd =>
      rw [hfd] at h
      obtain ⟨fds, hclose, rfl⟩ := close_ok h
      exact .failClosed hphase hfd hclose
  · next ret hphase =>
    cases hcleanup : d.machine.cleanup with
    | error f => rw [hcleanup] at h; cases h
    | ok heap =>
      rw [hcleanup] at h
      cases h
      exact .exited hphase hcleanup
  · cases h

theorem threadStep_ok (h : d.threadStep i e = .ok d') : ∃ t t' chains,
    d.threads i = some t ∧ t.isDone = false ∧ d.machine.args = .ok chains ∧
      e.sees d.shutdown = true ∧ t.step chains e = .ok t' ∧
      d' = { d with threads := Function.update d.threads i (some t') } := by
  rw [threadStep] at h
  cases ht : d.threads i with
  | none => rw [ht] at h; cases h
  | some t =>
    rw [ht] at h
    dsimp only at h
    split at h
    · cases h
    next hdone =>
    split at h
    · cases h
    split at h
    swap
    · cases h
    cases hargs : d.machine.args with
    | error f => rw [hargs] at h; cases h
    | ok chains =>
      rw [hargs] at h
      dsimp only at h
      split at h
      swap
      · cases h
      next hsees =>
      cases hstep : t.step chains e with
      | error f => rw [hstep] at h; cases h
      | ok t' =>
        rw [hstep] at h
        exact ⟨t, t', chains, rfl, by simpa using hdone, rfl, hsees, hstep,
          (Except.ok.inj h).symm⟩

/-! ## The invariant -/

/-- The arrays are there until `main` ends, and can be released then. -/
def Arrays (chains : Chains) (d : Daemon) : Prop :=
  match d.phase with
  | .exited _ => d.machine.heap.blocks.AllFreed
  | _ => d.machine.args = .ok chains ∧ d.machine.Released

/-- What holds between any two steps. -/
structure Inv (chains : Chains) (d : Daemon) : Prop where
  arrays : d.Arrays chains
  fds : d.fds.table.Owns (d.tunfds.drop (d.phase.closed d.tunfds.length))
  running : ∀ k t, d.threads k = some t → t.isDone = false → d.phase.Active d.tunfds.length k
  created : ∀ k, d.phase.Active d.tunfds.length k → d.threads k ≠ none
  inRange : d.phase.InRange d.tunfds.length
  fresh : ∀ i, d.phase = .create i → ∀ k, i ≤ k → d.threads k = none

/-- The queue that is to be closed next. -/
theorem drop_eq_cons {fd : ℕ} (h : d.tunfds[i]? = some fd) :
    d.tunfds.drop i = fd :: d.tunfds.drop (i + 1) := by
  obtain ⟨hi, rfl⟩ := List.getElem?_eq_some_iff.mp h
  exact List.drop_eq_getElem_cons hi

theorem Arrays.of_phase (h : d.Arrays chains) (hphase : ∀ ret, d.phase ≠ .exited ret) :
    d.machine.args = .ok chains ∧ d.machine.Released := by
  rw [Arrays] at h
  split at h
  · exact absurd ‹_› (hphase _)
  · exact h

/-- A thread that is joined is done, so the others are in their loops. -/
theorem Inv.active_of_isDone (h : d.Inv chains) (hi : d.isDone i = true) {k : ℕ} {t : Thread}
    (ht : d.threads k = some t) (hdone : t.isDone = false) :
    d.phase.Active d.tunfds.length k ∧ k ≠ i := by
  refine ⟨h.running k t ht hdone, ?_⟩
  rintro rfl
  rw [isDone, ht, Option.any_some, hdone] at hi
  cases hi

theorem Inv.moves {b : Bool} (h : d.Inv chains) (hmove : d.Moves b d') : d'.Inv chains := by
  have hfds := h.fds
  have hrunning := h.running
  have hcreated := h.created
  cases hmove with
  | @created i fd hphase hfd =>
    have hi := (List.getElem?_eq_some_iff.mp hfd).1
    rw [hphase] at hfds hrunning hcreated
    refine ⟨h.arrays.of_phase (by simp [hphase]), hfds, fun k t ht hdone => ?_, fun k hk => ?_,
      trivial, ?_⟩
    · change Function.update d.threads i _ k = some t at ht
      by_cases hki : k = i
      · subst hki
        exact ⟨Nat.lt_succ_self k, hi⟩
      · rw [Function.update_of_ne hki] at ht
        exact (hrunning k t ht hdone).imp_left Nat.lt_succ_of_lt
    · change Function.update d.threads i _ k ≠ none
      by_cases hki : k = i
      · subst hki
        rw [Function.update_self]
        exact Option.some_ne_none _
      · rw [Function.update_of_ne hki]
        exact hcreated k (hk.imp_left fun hlt => by omega)
    · rintro _ ⟨⟩ k hk
      show Function.update d.threads i _ k = none
      rw [Function.update_of_ne (by omega)]
      exact h.fresh i hphase k (by omega)
  | @failed i fd hphase hfd =>
    rw [hphase] at hfds hrunning hcreated
    exact ⟨h.arrays.of_phase (by simp [hphase]), hfds, hrunning, hcreated,
      (List.getElem?_eq_some_iff.mp hfd).1.le, nofun⟩
  | @started i b hphase hlen =>
    rw [hphase] at hfds hrunning hcreated
    exact ⟨h.arrays.of_phase (by simp [hphase]), hfds,
      fun k t ht hdone => ⟨Nat.zero_le k, (hrunning k t ht hdone).2⟩,
      fun k hk => hcreated k ⟨hk.2.trans_le hlen, hk.2⟩, trivial,
      nofun⟩
  | aborted hphase =>
    rw [hphase] at hfds hrunning
    exact ⟨h.arrays.of_phase (by simp [hphase]), hfds,
      fun k t ht hdone => absurd (hrunning k t ht hdone).1 (Nat.not_lt_zero k), fun k hk => hk.elim,
      trivial,
      nofun⟩
  | @abortJoin j b hphase hdone =>
    have hactive {k : ℕ} {t : Thread} := h.active_of_isDone hdone (k := k) (t := t)
    rw [hphase] at hfds hcreated hactive
    refine ⟨h.arrays.of_phase (by simp [hphase]), hfds, fun k t ht hrun => ?_,
      fun k hk => hcreated k (hk.imp_left Nat.lt_succ_of_lt), ?_, nofun⟩
    · obtain ⟨⟨hlt, hn⟩, hne⟩ := hactive ht hrun
      exact ⟨by omega, hn⟩
    · have hrange := h.inRange
      rw [hphase] at hrange
      exact Nat.le_of_succ_le hrange
  | @joined i b hphase hlt hdone =>
    have hactive {k : ℕ} {t : Thread} := h.active_of_isDone hdone (k := k) (t := t)
    rw [hphase] at hfds hcreated hactive
    refine ⟨h.arrays.of_phase (by simp [hphase]), hfds, fun k t ht hrun => ?_,
      fun k hk => hcreated k (hk.imp_left Nat.le_of_lt), ?_, nofun⟩
    · obtain ⟨⟨hle, hn⟩, hne⟩ := hactive ht hrun
      exact ⟨by omega, hn⟩
    · exact hlt
  | @closed i fd fds b hphase hfd hclose =>
    rw [hphase] at hfds hrunning hcreated
    obtain ⟨fds', hclose', hown, -⟩ := d.fds.close_ok (drop_eq_cons hfd ▸ hfds)
    cases hclose.symm.trans hclose'
    exact ⟨h.arrays.of_phase (by simp [hphase]), hown, hrunning, hcreated, trivial,
      nofun⟩
  | @failClosed i fd fds b hphase hfd hclose =>
    rw [hphase] at hfds hrunning
    obtain ⟨fds', hclose', hown, -⟩ := d.fds.close_ok (drop_eq_cons hfd ▸ hfds)
    cases hclose.symm.trans hclose'
    exact ⟨h.arrays.of_phase (by simp [hphase]), hown, hrunning, fun k hk => hk.elim, trivial,
      nofun⟩
  | @ended i b hphase hlen =>
    rw [hphase] at hfds hrunning
    refine ⟨h.arrays.of_phase (by simp [hphase]), ?_, fun k t ht hdone => ?_, fun k hk => hk.elim,
      trivial,
      nofun⟩
    · show d.fds.table.Owns (d.tunfds.drop d.tunfds.length)
      rwa [List.drop_length, ← List.drop_of_length_le hlen]
    · exact absurd (hrunning k t ht hdone) fun hk => absurd (hk.1.trans_lt hk.2) (by omega)
  | @failEnded i b hphase hlen =>
    rw [hphase] at hfds hrunning
    refine ⟨h.arrays.of_phase (by simp [hphase]), ?_, hrunning, fun k hk => hk.elim, trivial,
      nofun⟩
    show d.fds.table.Owns (d.tunfds.drop d.tunfds.length)
    rwa [List.drop_length, ← List.drop_of_length_le hlen]
  | @exited ret heap b hphase hcleanup =>
    rw [hphase] at hfds hrunning
    refine ⟨?_, hfds, hrunning, fun k hk => hk.elim, trivial,
      nofun⟩
    obtain ⟨heap', hcleanup', hfreed⟩ := (h.arrays.of_phase (by simp [hphase])).2
    cases hcleanup.symm.trans hcleanup'
    exact hfreed

theorem Inv.threadStep (h : d.Inv chains) (hstep : d.threadStep i e = .ok d') : d'.Inv chains := by
  obtain ⟨t, t', chains', ht, hdone, -, -, -, rfl⟩ := threadStep_ok hstep
  have hactive := h.running i t ht hdone
  refine ⟨h.arrays, h.fds, fun k u hu hrun => ?_, fun k hk => ?_, h.inRange, fun j hj k hk => ?_⟩
  · change Function.update d.threads i _ k = some u at hu
    by_cases hki : k = i
    · exact hki ▸ hactive
    · rw [Function.update_of_ne hki] at hu
      exact h.running k u hu hrun
  · change Function.update d.threads i _ k ≠ none
    by_cases hki : k = i
    · subst hki
      rw [Function.update_self]
      exact Option.some_ne_none _
    · rw [Function.update_of_ne hki]
      exact h.created k hk
  · have hnone := h.fresh j hj k hk
    have hki : k ≠ i := by
      rintro rfl
      rw [ht] at hnone
      cases hnone
    exact (Function.update_of_ne hki _ _).trans hnone

/-- **One step** keeps the invariant. -/
theorem inv_step (d : Daemon) (l : Label) (d' : Daemon) (h : d.Inv chains)
    (hstep : d.step l = .ok d') : d'.Inv chains := by
  cases l with
  | main b => exact h.moves (moves_of_mainStep hstep)
  | signal =>
    cases hstep
    exact ⟨h.arrays, h.fds, h.running, h.created, h.inRange, h.fresh⟩
  | thread i e => exact h.threadStep hstep

/-- Before its first step the program has its queues open and its arrays allocated. -/
theorem inv_start {m : Machine} {fds : Fds} {tunfds : Option (List ℕ)} (daemon : Option Daemonize)
    (hargs : m.args = .ok chains) (hreleased : m.Released)
    (hown : fds.table.Owns (tunfds.getD [])) : (start m fds tunfds daemon).Inv chains := by
  have harrays : m.args = .ok chains ∧ m.Released := ⟨hargs, hreleased⟩
  unfold start
  split
  · exact ⟨harrays, hown, nofun, fun k hk => hk.elim, trivial, nofun⟩
  · exact ⟨harrays, hown, nofun, fun k hk => hk.elim, trivial, nofun⟩
  · exact ⟨harrays, hown, nofun, fun k hk => hk.elim, trivial, nofun⟩
  · refine ⟨harrays, hown, fun k t ht _ => ?_, fun k hk => ?_, trivial, nofun⟩
    · by_cases hk : k = 0
      · subst hk
        exact ⟨Nat.le_refl 0, Nat.one_pos⟩
      · exact absurd ht (by simp [Function.update_of_ne hk])
    · obtain rfl : k = 0 := Nat.lt_one_iff.mp hk.2
      exact Option.some_ne_none _
  · exact ⟨harrays, hown, nofun, fun k hk => absurd hk.1 (Nat.not_lt_zero k), trivial,
      fun _ _ _ _ => rfl⟩

/-! ## No faults -/

theorem thread_step_ne_fault {t : Thread} (f : Fault) : t.step chains e ≠ .error (.fault f) := by
  unfold Thread.step
  split
  · nofun
  · nofun
  · split <;> nofun
  · split <;> nofun
  · nofun

theorem exists_close {fd : ℕ} {ps : List ℕ} (hown : d.fds.table.Owns (fd :: ps)) (phase : Phase) :
    ∃ d', d.close fd phase = .ok d' := by
  obtain ⟨fds', hclose, -, -⟩ := d.fds.close_ok hown
  exact ⟨{ d with fds := fds', phase }, by rw [close, hclose]⟩

/-- `main` can go on unless it is at its end or waits for a thread. -/
theorem Inv.mainStep_cases (h : d.Inv chains) (b : Bool) :
    (∃ d', d.mainStep b = .ok d') ∨ d.mainStep b = .error .blocked ∧
      ((∃ ret, d.phase = .exited ret) ∨
        ∃ k, d.phase.Active d.tunfds.length k ∧ d.isDone k = false) := by
  have hfds := h.fds
  rw [mainStep]
  cases hphase : d.phase with
  | create i =>
    dsimp only
    cases d.tunfds[i]? with
    | none => exact .inl ⟨_, rfl⟩
    | some fd => cases b <;> exact .inl ⟨_, rfl⟩
  | abort j =>
    cases j with
    | zero => exact .inl ⟨_, rfl⟩
    | succ j =>
      have hrange := h.inRange
      rw [hphase] at hrange
      dsimp only
      split_ifs with hdone
      · exact .inl ⟨_, rfl⟩
      · exact .inr ⟨rfl, .inr ⟨j, ⟨Nat.lt_succ_self j, hrange⟩, by simpa using hdone⟩⟩
  | join i =>
    dsimp only
    cases hfd : d.tunfds[i]? with
    | none => exact .inl ⟨_, rfl⟩
    | some fd =>
      dsimp only
      split_ifs with hdone
      · exact .inl ⟨_, rfl⟩
      · exact .inr ⟨rfl, .inr ⟨i, ⟨Nat.le_refl i, (List.getElem?_eq_some_iff.mp hfd).1⟩,
          by simpa using hdone⟩⟩
  | close i =>
    have hi := List.getElem?_eq_getElem (Phase.inRange_close.mp (hphase ▸ h.inRange))
    rw [hphase] at hfds
    dsimp only
    rw [hi]
    exact .inl (exists_close (drop_eq_cons hi ▸ hfds) _)
  | failTun i =>
    rw [hphase] at hfds
    dsimp only
    cases hfd : d.tunfds[i]? with
    | none => exact .inl ⟨_, rfl⟩
    | some fd => exact .inl (exists_close (drop_eq_cons hfd ▸ hfds) _)
  | cleanup ret =>
    obtain ⟨heap, hcleanup, -⟩ := (h.arrays.of_phase (by simp [hphase])).2
    dsimp only
    rw [hcleanup]
    exact .inl ⟨_, rfl⟩
  | exited ret => exact .inr ⟨rfl, .inl ⟨ret, rfl⟩⟩

theorem Inv.threadStep_eq (h : d.Inv chains) {t : Thread} (ht : d.threads i = some t)
    (hdone : t.isDone = false) (e : Event) : d.threadStep i e =
      if e.sees d.shutdown then do
        let t ← t.step chains e
        return { d with threads := Function.update d.threads i (some t) }
      else .error .blocked := by
  have hactive := h.running i t ht hdone
  have hclosed := hactive.closed_le
  have hi := List.getElem?_eq_getElem hactive.lt
  have hlive := h.fds.live (List.mem_drop_iff_getElem.mpr
    ⟨i - d.phase.closed d.tunfds.length, by have := hactive.lt; omega, rfl⟩)
  have hargs := (h.arrays.of_phase fun ret hphase => by rw [hphase] at hactive; exact hactive).1
  simp only [Nat.add_sub_cancel' hclosed] at hlive
  rw [Daemon.threadStep, ht]
  dsimp only
  rw [if_neg (by simp [hdone]), hi]
  dsimp only
  rw [if_pos hlive, hargs]

theorem Inv.threadStep_ne_fault (h : d.Inv chains) (f : Fault) :
    d.threadStep i e ≠ .error (.fault f) := by
  cases ht : d.threads i with
  | none =>
    rw [Daemon.threadStep, ht]
    nofun
  | some t =>
    cases hdone : t.isDone with
    | true =>
      rw [Daemon.threadStep, ht]
      dsimp only
      rw [if_pos hdone]
      nofun
    | false =>
      rw [h.threadStep_eq ht hdone]
      split_ifs
      · cases hstep : t.step chains e with
        | ok t' => nofun
        | error e' =>
          rintro ⟨⟩
          exact thread_step_ne_fault f hstep
      · nofun

/-- **No faults**: no step uses a queue that is closed or an array that is freed. -/
theorem Inv.step_ne_fault (h : d.Inv chains) (l : Label) (f : Fault) :
    d.step l ≠ .error (.fault f) := by
  cases l with
  | main b =>
    rcases h.mainStep_cases b with ⟨d', hok⟩ | ⟨hblocked, -⟩
    · exact fun hfault => nomatch hok.symm.trans hfault
    · exact fun hfault => nomatch hblocked.symm.trans hfault
  | signal => nofun
  | thread i e => exact h.threadStep_ne_fault f

end Daemon

end Rdnstun
