import Rdnstun.Main.Service

/-!
# The end of the program

* `Inv.exists_step`: some step is always possible, until the program is at its end.
* `Daemon.rest`: the steps that are left once the flag is set; `rest_step`: every step but the
  signal is one of them.
* `reads_step`: a thread that has not passed the test of the flag reads nothing more.
* **`service_ends`**: after the signal the program comes to its end, under every schedule.
* **`exit_success`**: it does not end with success before the signal.
-/

namespace Rdnstun

open Run

/-- The steps that a thread has left once the flag is set. -/
def Thread.rest : Thread → ℕ
  | .done => 0
  | .polled _ => 1
  | .poll => 2
  | .write _ _ => 3
  | .read => 4

/-- The steps that `main` has left, with those of the threads that it has yet to create. -/
def Phase.rest (n : ℕ) : Phase → ℕ
  | create i => 3 * (n - i) + 2 * n + 3
  | abort j => j + n + 3
  | join i => 2 * (n - i) + 2
  | close i => 2 * (n - i) + 1
  | failTun i => n - i + 2
  | cleanup _ => 1
  | exited _ => 0

/-- The packet that a thread has yet to read before it looks at the flag again. -/
def Thread.unread : Thread → ℕ
  | .read => 1
  | _ => 0

/-- `main` is on its way to fail. -/
def Phase.Failing : Phase → Prop
  | abort _ | failTun _ => True
  | cleanup ret | exited ret => ret = EXIT_FAILURE
  | _ => False

/-- `main` has joined a thread on its way to succeed. -/
def Phase.Joined : Phase → Prop
  | join i => 0 < i
  | close _ => True
  | cleanup ret | exited ret => ret = EXIT_SUCCESS
  | _ => False

/-- Any step but the signal. -/
def Label.isStep : Label → Bool
  | .signal => false
  | _ => true

namespace Daemon

variable {chains : Chains} {d d₀ d' : Daemon} {l : List Label} {i : ℕ} {x : Label}

/-! ## No deadlock -/

theorem exists_event (chains : Chains) {t : Thread} (hdone : t.isDone = false) (shutdown : Bool) :
    ∃ e t', e.sees shutdown = true ∧ t.step chains e = .ok t' := by
  cases t with
  | poll => exact ⟨.poll 0, _, rfl, rfl⟩
  | polled pollres => exact ⟨.test shutdown, _, by simp [Event.sees], rfl⟩
  | read => exact ⟨.read 0 (fun _ => 0), .poll, rfl, by simp [Thread.step]⟩
  | write packet len => exact ⟨.write (Memory.read packet 0 len) 0, .poll, rfl, if_pos rfl⟩
  | done => cases hdone

theorem Inv.exists_threadStep (h : d.Inv chains) {t : Thread} (ht : d.threads i = some t)
    (hdone : t.isDone = false) : ∃ e d', d.threadStep i e = .ok d' := by
  obtain ⟨e, t', hsees, hstep⟩ := exists_event chains hdone d.shutdown
  refine ⟨e, { d with threads := Function.update d.threads i (some t') }, ?_⟩
  rw [h.threadStep_eq ht hdone, if_pos hsees, hstep]
  rfl

/-- **No deadlock**: some step is possible, until the program is at its end. -/
theorem Inv.exists_step (h : d.Inv chains) (hend : ∀ ret, d.phase ≠ .exited ret) :
    ∃ x d', x.isStep = true ∧ d.step x = .ok d' := by
  rcases h.mainStep_cases true with ⟨d', hok⟩ | ⟨-, ⟨ret, hphase⟩ | ⟨k, hactive, hdone⟩⟩
  · exact ⟨.main true, d', rfl, hok⟩
  · exact absurd hphase (hend ret)
  · obtain ⟨t, ht⟩ := Option.ne_none_iff_exists'.mp (h.created k hactive)
    have hrun : t.isDone = false := by
      rw [isDone, ht] at hdone
      exact hdone
    obtain ⟨e, d', hstep⟩ := h.exists_threadStep ht hrun
    exact ⟨.thread k e, d', rfl, hstep⟩

/-! ## The steps that are left -/

/-- The steps that are left once the flag is set. -/
def rest (d : Daemon) : ℕ :=
  d.phase.rest d.tunfds.length +
    ∑ k ∈ Finset.range d.tunfds.length, ((d.threads k).map Thread.rest).getD 0

/-- A thread that sees the flag set comes closer to its end. -/
theorem thread_rest {t t' : Thread} {e : Event} (hsees : e.sees true = true)
    (h : t.step chains e = .ok t') : t'.rest < t.rest := by
  rcases step_cases h with ⟨r, rfl, rfl, rfl⟩ | ⟨r, b, rfl, rfl, rfl⟩ |
    ⟨n, packet, rfl, rfl, -, rfl⟩ | ⟨packet, len, n, rfl, rfl, rfl⟩
  · exact Nat.lt_succ_self 1
  · obtain rfl : b = true := by simpa [Event.sees] using hsees
    exact Nat.one_pos
  · have hnext (n : ℕ) : (Thread.next chains packet n).rest < Thread.read.rest := by
      rw [Thread.next]
      split
      · split_ifs <;> simp [Thread.rest]
      · simp [Thread.rest]
    split_ifs
    · exact hnext n.toNat
    · simp [Thread.rest]
  · exact Nat.lt_succ_self 2

/-- The steps that the threads have left, when one of them takes a step. -/
theorem sum_rest_lt {threads : ℕ → Option Thread} {n : ℕ} {t t' : Thread} (hi : i < n)
    (ht : threads i = some t) (hlt : t'.rest < t.rest) :
    ∑ k ∈ Finset.range n, ((Function.update threads i (some t') k).map Thread.rest).getD 0 <
      ∑ k ∈ Finset.range n, ((threads k).map Thread.rest).getD 0 := by
  have hself : ((Function.update threads i (some t') i).map Thread.rest).getD 0 <
      ((threads i).map Thread.rest).getD 0 := by
    rw [Function.update_self, ht]
    exact hlt
  refine Finset.sum_lt_sum (fun k _ => ?_) ⟨i, Finset.mem_range.mpr hi, hself⟩
  by_cases hki : k = i
  · subst hki
    exact hself.le
  · rw [Function.update_of_ne hki]

/-- The steps that the threads have left, when one is created. -/
theorem sum_rest_created {threads : ℕ → Option Thread} (n : ℕ) (hnone : threads i = none) :
    ∑ k ∈ Finset.range n, ((Function.update threads i (some .poll) k).map Thread.rest).getD 0 ≤
      (∑ k ∈ Finset.range n, ((threads k).map Thread.rest).getD 0) + 2 := by
  have hle : ∀ k ∈ Finset.range n,
      ((Function.update threads i (some .poll) k).map Thread.rest).getD 0 ≤
        ((threads k).map Thread.rest).getD 0 + if k = i then 2 else 0 := by
    intro k _
    by_cases hki : k = i
    · subst hki
      rw [Function.update_self, hnone, if_pos rfl]
      exact Nat.le_refl 2
    · rw [Function.update_of_ne hki, if_neg hki]
      exact Nat.le_refl _
  refine (Finset.sum_le_sum hle).trans ?_
  rw [Finset.sum_add_distrib, Finset.sum_ite_eq']
  split_ifs <;> omega

theorem rest_moves {b : Bool} (h : d.Inv chains) (hmove : d.Moves b d') : d'.rest < d.rest := by
  cases hmove with
  | @created i fd hphase hfd =>
    have hi := (List.getElem?_eq_some_iff.mp hfd).1
    have hsum := sum_rest_created d.tunfds.length (h.fresh i hphase i (Nat.le_refl i))
    rw [rest, rest, hphase]
    simp only [Phase.rest]
    omega
  | @failed i fd hphase hfd =>
    have hi := (List.getElem?_eq_some_iff.mp hfd).1
    rw [rest, rest, hphase]
    simp only [Phase.rest]
    omega
  | @closed i fd fds b hphase hfd hclose =>
    have hi := (List.getElem?_eq_some_iff.mp hfd).1
    rw [rest, rest, hphase]
    simp only [Phase.rest]
    omega
  | @failClosed i fd fds b hphase hfd hclose =>
    have hi := (List.getElem?_eq_some_iff.mp hfd).1
    rw [rest, rest, hphase]
    simp only [Phase.rest]
    omega
  | started hphase | aborted hphase | abortJoin hphase | joined hphase | ended hphase
  | failEnded hphase | exited hphase =>
    rw [rest, rest, hphase]
    simp only [Phase.rest]
    omega

/-- **Once the flag is set**, every step but the signal is one of those that are left. -/
theorem rest_step (h : d.Inv chains) (hflag : d.shutdown = true) (hstep : d.step x = .ok d') :
    d'.rest + (if x.isStep then 1 else 0) ≤ d.rest := by
  cases x with
  | main b => exact rest_moves h (moves_of_mainStep hstep)
  | signal =>
    cases hstep
    exact Nat.le_refl _
  | thread i e =>
    obtain ⟨t, t', chains', ht, hdone, -, hsees, hthread, rfl⟩ := threadStep_ok hstep
    have hi := (h.running i t ht hdone).lt
    exact Nat.add_lt_add_left
      (sum_rest_lt hi ht (thread_rest (hflag ▸ hsees) hthread)) _

/-- The number of steps that can be left. -/
theorem rest_le (d : Daemon) (h : d.phase.InRange d.tunfds.length) :
    d.rest ≤ 9 * d.tunfds.length + 3 := by
  have hsum : ∑ k ∈ Finset.range d.tunfds.length, ((d.threads k).map Thread.rest).getD 0 ≤
      ∑ _k ∈ Finset.range d.tunfds.length, 4 := by
    refine Finset.sum_le_sum fun k _ => ?_
    cases d.threads k with
    | none => exact Nat.zero_le 4
    | some t => cases t <;> simp [Thread.rest]
  rw [Finset.sum_const, Finset.card_range, smul_eq_mul] at hsum
  rw [rest]
  cases hphase : d.phase with
  | abort j =>
    rw [hphase] at h
    change j ≤ _ at h
    simp only [Phase.rest]
    omega
  | _ =>
    simp only [Phase.rest]
    omega

theorem shutdown_step (d : Daemon) (x : Label) (d' : Daemon) (h : d.shutdown = true)
    (hstep : d.step x = .ok d') : d'.shutdown = true := by
  cases x with
  | main b => cases moves_of_mainStep hstep <;> first | exact h | rfl
  | signal =>
    cases hstep
    rfl
  | thread i e =>
    obtain ⟨t, t', chains', -, -, -, -, -, rfl⟩ := threadStep_ok hstep
    exact h

/-- The rest of a run: the invariant and the flag hold at its visits. -/
theorem Inv.of_visits (h : d.Inv chains) (hflag : d.shutdown = true) {u : Daemon}
    (hv : Visits step d l u x) : u.Inv chains ∧ u.shutdown = true :=
  ⟨hv.invariant (fun u x v => inv_step u x v) h,
    hv.invariant (P := fun d => d.shutdown = true) shutdown_step hflag⟩

theorem Inv.countP_le (h : d.Inv chains) (hflag : d.shutdown = true)
    (hrun : run step d l = .ok d') : l.countP Label.isStep ≤ 9 * d.tunfds.length + 3 := by
  have hcount := run_countdown (μ := rest) (q := Label.isStep) (fun u x v hv hx =>
    rest_step (h.of_visits hflag hv).1 (h.of_visits hflag hv).2 hx) hrun
  have hle := d.rest_le h.inRange
  omega

theorem Inv.exists_exited (h : d.Inv chains) (hflag : d.shutdown = true) :
    ∃ l d' ret, run step d l = .ok d' ∧ d'.phase = .exited ret := by
  have hstep (d : Daemon) (hd : d.Inv chains ∧ d.shutdown = true)
      (hend : ¬ ∃ ret, d.phase = .exited ret) :
      ∃ x d', step d x = .ok d' ∧ (d'.Inv chains ∧ d'.shutdown = true) ∧ d'.rest < d.rest := by
    obtain ⟨x, d', hx, hstep⟩ := hd.1.exists_step fun ret hphase => hend ⟨ret, hphase⟩
    have hrest := rest_step hd.1 hd.2 hstep
    rw [hx, if_pos rfl] at hrest
    exact ⟨x, d', hstep, ⟨inv_step d x d' hd.1 hstep, shutdown_step d x d' hd.2 hstep⟩, hrest⟩
  obtain ⟨l, d', hrun, -, ret, hphase⟩ := exists_run_final rest hstep ⟨h, hflag⟩
  exact ⟨l, d', ret, hrun, hphase⟩

/-! ## Packets after the flag is set -/

/-- A thread that sees the flag set reads at most the packet that it has passed the test for. -/
theorem thread_unread {t t' : Thread} {e : Event} (hsees : e.sees true = true)
    (h : t.step chains e = .ok t') :
    t'.unread + (if e.received.isSome then 1 else 0) ≤ t.unread := by
  rcases step_cases h with ⟨r, rfl, rfl, rfl⟩ | ⟨r, b, rfl, rfl, rfl⟩ |
    ⟨n, packet, rfl, rfl, -, rfl⟩ | ⟨packet, len, n, rfl, rfl, rfl⟩
  · exact Nat.le_refl 0
  · obtain rfl : b = true := by simpa [Event.sees] using hsees
    exact Nat.le_refl 0
  · have hnext (n : ℕ) : (Thread.next chains packet n).unread = 0 := by
      rw [Thread.next]
      split
      · split_ifs <;> rfl
      · rfl
    have hzero : (if 0 < n then Thread.next chains packet n.toNat else Thread.poll).unread = 0 := by
      split_ifs
      · exact hnext n.toNat
      · rfl
    rw [hzero, Nat.zero_add]
    split_ifs
    · exact Nat.le_refl 1
    · exact Nat.zero_le 1
  · exact Nat.le_refl 0

/-- **After the flag is set** a thread reads at most one packet. -/
theorem Inv.length_receivedBy_le (h : d.Inv chains) (hflag : d.shutdown = true)
    (hrun : run step d l = .ok d') (i : ℕ) : (receivedBy i l).length ≤ 1 := by
  have hcount := run_countdown (μ := fun d : Daemon => (d.thread i).unread)
    (q := fun x => ((seenBy Label.tagged i x).bind Event.received).isSome)
    (fun u x v hv hx => ?_) hrun
  · have hone : (d.thread i).unread ≤ 1 := by
      cases d.thread i <;> simp [Thread.unread]
    rw [receivedBy, List.filterMap_filterMap, List.length_filterMap_eq_countP]
    omega
  · obtain ⟨hinv, hset⟩ := h.of_visits hflag hv
    obtain ⟨hskip, hown⟩ := thread_step (i := i) hinv hx
    cases hseen : seenBy Label.tagged i x with
    | none =>
      rw [hskip hseen]
      exact Nat.le_refl _
    | some e =>
      obtain ⟨hsees, hthread⟩ := hown e hseen
      exact thread_unread (hset ▸ hsees) hthread

/-! ## Success -/

/-- What is known of the flag after a run: it was set by the signal, unless `main` failed; and a
thread that left its loop saw it, as did `main` if it joined one. -/
structure Requested (l : List Label) (d : Daemon) : Prop where
  flag : d.shutdown = true → Label.signal ∈ l ∨ d.phase.Failing
  done : ∀ k t, d.threads k = some t → t.isDone = true → d.shutdown = true
  joined : d.phase.Joined → d.shutdown = true
  queues : d.tunfds ≠ [] ∨ d.phase.Failing

theorem requested_start (m : Machine) (fds : Fds) {tunfds : Option (List ℕ)}
    (daemon : Option Daemonize) (hqueues : ∀ l ∈ tunfds, l ≠ []) :
    Requested [] (start m fds tunfds daemon) := by
  unfold start
  split
  · exact ⟨nofun, nofun, nofun, .inr rfl⟩
  · exact ⟨nofun, nofun, nofun, .inr trivial⟩
  · exact ⟨nofun, nofun, nofun, .inr trivial⟩
  · refine ⟨nofun, fun k t ht hdone => ?_, fun hjoined => absurd hjoined (Nat.lt_irrefl 0),
      .inl (List.cons_ne_nil _ _)⟩
    by_cases hk : k = 0
    · subst hk
      cases ht
      cases hdone
    · exact absurd ht (by simp [Function.update_of_ne hk])
  · exact ⟨nofun, nofun, nofun, .inl (hqueues _ rfl)⟩

theorem thread_done {t t' : Thread} {e : Event} {shutdown : Bool}
    (hsees : e.sees shutdown = true) (h : t.step chains e = .ok t') (hdone : t'.isDone = true) :
    shutdown = true := by
  have hnext (packet : Memory.Mem) (n : ℕ) : (Thread.next chains packet n).isDone = false := by
    rw [Thread.next]
    split
    · split_ifs <;> rfl
    · rfl
  rcases step_cases h with ⟨r, rfl, rfl, rfl⟩ | ⟨r, b, rfl, rfl, rfl⟩ |
    ⟨n, packet, rfl, rfl, -, rfl⟩ | ⟨packet, len, n, rfl, rfl, rfl⟩
  · cases hdone
  · obtain rfl : b = shutdown := by simpa [Event.sees] using hsees
    split_ifs at hdone with hb
    · exact hb
    · cases hdone
    · cases hdone
  · split_ifs at hdone
    · rw [hnext] at hdone
      cases hdone
    · cases hdone
  · cases hdone

theorem Requested.isDone (h : Requested l d) (hi : d.isDone i = true) : d.shutdown = true := by
  obtain ⟨t, ht, hdone⟩ := (Option.any_eq_true _ _).mp hi
  exact h.done i t ht hdone

theorem requested_moves {b : Bool} (h : Requested l d) (hmove : d.Moves b d') :
    Requested (l ++ [.main b]) d' := by
  have hflag (hset : d.shutdown = true) : Label.signal ∈ l ++ [.main b] ∨ d.phase.Failing :=
    (h.flag hset).imp_left (List.mem_append_left _)
  have hqueues := h.queues
  have hjoined := h.joined
  cases hmove with
  | @created i fd hphase hfd =>
    rw [hphase] at hflag hqueues
    refine ⟨fun hset => .inl ((hflag hset).resolve_right id), fun k t ht hdone => ?_, nofun,
      .inl (hqueues.resolve_right id)⟩
    change Function.update d.threads i _ k = some t at ht
    by_cases hki : k = i
    · subst hki
      rw [Function.update_self] at ht
      cases ht
      cases hdone
    · rw [Function.update_of_ne hki] at ht
      exact h.done k t ht hdone
  | failed hphase => exact ⟨fun _ => .inr trivial, fun _ _ _ _ => rfl, nofun, .inr trivial⟩
  | started hphase =>
    rw [hphase] at hflag hqueues
    exact ⟨fun hset => .inl ((hflag hset).resolve_right id), h.done,
      fun hpos => absurd hpos (Nat.lt_irrefl 0), .inl (hqueues.resolve_right id)⟩
  | aborted hphase => exact ⟨fun _ => .inr trivial, h.done, nofun, .inr trivial⟩
  | abortJoin hphase => exact ⟨fun _ => .inr trivial, h.done, nofun, .inr trivial⟩
  | joined hphase hlt hdone =>
    rw [hphase] at hflag hqueues
    exact ⟨fun hset => .inl ((hflag hset).resolve_right id), h.done, fun _ => h.isDone hdone,
      .inl (hqueues.resolve_right id)⟩
  | closed hphase =>
    rw [hphase] at hflag hqueues hjoined
    exact ⟨fun hset => .inl ((hflag hset).resolve_right id), h.done, fun _ => hjoined trivial,
      .inl (hqueues.resolve_right id)⟩
  | failClosed hphase => exact ⟨fun _ => .inr trivial, h.done, nofun, .inr trivial⟩
  | ended hphase hlen =>
    rw [hphase] at hflag hqueues hjoined
    have hne := hqueues.resolve_right id
    exact ⟨fun hset => .inl ((hflag hset).resolve_right id), h.done,
      fun _ => hjoined ((List.length_pos_iff.mpr hne).trans_le hlen), .inl hne⟩
  | failEnded hphase =>
    exact ⟨fun _ => .inr rfl, h.done,
      fun hret => absurd hret (show EXIT_FAILURE ≠ EXIT_SUCCESS by decide),
      .inr rfl⟩
  | exited hphase hcleanup =>
    rw [hphase] at hflag hqueues hjoined
    exact ⟨hflag, h.done, hjoined, hqueues⟩

theorem requested_step (l : List Label) (d : Daemon) (x : Label) (d' : Daemon)
    (h : Requested l d) (hstep : d.step x = .ok d') : Requested (l ++ [x]) d' := by
  cases x with
  | main b => exact requested_moves h (moves_of_mainStep hstep)
  | signal =>
    cases hstep
    exact ⟨fun _ => .inl (List.mem_append_right _ List.mem_cons_self), fun _ _ _ _ => rfl,
      fun _ => rfl, h.queues⟩
  | thread i e =>
    obtain ⟨t, t', chains', ht, -, -, hsees, hthread, rfl⟩ := threadStep_ok hstep
    refine ⟨fun hset => (h.flag hset).imp_left (List.mem_append_left _), fun k u hu hdone => ?_,
      h.joined, h.queues⟩
    change Function.update d.threads i _ k = some u at hu
    by_cases hki : k = i
    · subst hki
      rw [Function.update_self] at hu
      cases hu
      exact thread_done hsees hthread hdone
    · rw [Function.update_of_ne hki] at hu
      exact h.done k u hu hdone

/-- The process that was started ends inside `daemon`, or not at all. -/
theorem parent_start {m : Machine} {fds : Fds} {tunfds : Option (List ℕ)}
    {daemon : Option Daemonize} (hqueues : ∀ l ∈ tunfds, l ≠ []) {ret : ℕ} :
    (start m fds tunfds daemon).parent = some ret ↔ ret = EXIT_SUCCESS ∧
      (start m fds tunfds daemon).tunfds ≠ [] ∧ ∃ ok, daemon = some (.forked ok) := by
  cases tunfds with
  | none => exact iff_of_false nofun fun h => h.2.1 rfl
  | some tunfds =>
    have hne : tunfds ≠ [] := hqueues tunfds rfl
    rcases tunfds with _ | ⟨fd, _ | ⟨fd', l⟩⟩
    · exact absurd rfl hne
    · rcases daemon with _ | _ | _ | _ <;> simp [start, eq_comm]
    · rcases daemon with _ | _ | _ | _ <;> simp [start, eq_comm]

theorem parent_step (d : Daemon) (x : Label) (d' : Daemon) (hstep : d.step x = .ok d') :
    d'.parent = d.parent := by
  cases x with
  | main b => cases moves_of_mainStep hstep <;> rfl
  | signal => cases hstep; rfl
  | thread i e =>
    obtain ⟨t, t', chains', -, -, -, -, -, rfl⟩ := threadStep_ok hstep
    rfl

theorem parent_run {d₀ : Daemon} (h : run step d₀ l = .ok d) : d.parent = d₀.parent :=
  run_invariant (P := fun d => d.parent = d₀.parent)
    (fun u x v hu hx => (parent_step u x v hx).trans hu) rfl h

end Daemon

section Launch

variable {opts : List AllocOpt} {m : Machine}
  {qsort : (af : Af) → List (Option (Entry af)) → List (Option (Entry af))}

/-- **The end of the service.** In every interleaving some step is possible until the program is at
its end. Once the flag is set, only boundedly many steps are left, under every schedule, each thread
reads at most one more packet, and the program can reach its end. -/
theorem service_ends (hrun : run Machine.step .start opts = .ok m) (hsort : Sorts qsort)
    (s : Setup) :
    ∃ d₀, m.launch qsort s = .ok d₀ ∧ ∀ l d, run Daemon.step d₀ l = .ok d →
      ((∃ ret, d.phase = .exited ret) ∨ ∃ x d', x.isStep = true ∧ d.step x = .ok d') ∧
      (d.shutdown = true →
        (∀ l' d', run Daemon.step d l' = .ok d' →
          l'.countP Label.isStep ≤ 9 * d.tunfds.length + 3 ∧
            ∀ i, (Daemon.receivedBy i l').length ≤ 1) ∧
        ∃ l' d' ret, run Daemon.step d l' = .ok d' ∧ d'.phase = .exited ret) := by
  obtain ⟨a, sorted, -, -, hlaunch⟩ := launch_ok hrun hsort
  obtain ⟨m', fds, tunfds, hd₀, hinv, -⟩ := hlaunch s
  refine ⟨_, hd₀, fun l d hl => ?_⟩
  have hd : d.Inv sorted.args := run_invariant (fun u x v => Daemon.inv_step u x v) hinv hl
  refine ⟨?_, fun hflag => ⟨fun l' d' hl' => ?_, hd.exists_exited hflag⟩⟩
  · by_cases hend : ∃ ret, d.phase = .exited ret
    · exact .inl hend
    · exact .inr (hd.exists_step fun ret hphase => hend ⟨ret, hphase⟩)
  · exact ⟨hd.countP_le hflag hl', hd.length_receivedBy_le hflag hl'⟩

theorem service_ends_single : ∃ m, run Machine.step .start [Machine.optionSingle true] = .ok m ∧
    ∃ d₀, m.launch byPrefix twoThreads = .ok d₀ ∧ ∀ l d, run Daemon.step d₀ l = .ok d →
      ((∃ ret, d.phase = .exited ret) ∨ ∃ x d', x.isStep = true ∧ d.step x = .ok d') ∧
      (d.shutdown = true →
        (∀ l' d', run Daemon.step d l' = .ok d' →
          l'.countP Label.isStep ≤ 9 * d.tunfds.length + 3 ∧
            ∀ i, (Daemon.receivedBy i l').length ≤ 1) ∧
        ∃ l' d' ret, run Daemon.step d l' = .ok d' ∧ d'.phase = .exited ret) := by
  obtain ⟨m, hrun⟩ := run_single
  exact ⟨m, hrun, service_ends hrun sorts_byPrefix twoThreads⟩

/-- **Success** only on request: in every interleaving, a program that succeeds got the signal, and
a thread leaves its loop only after the signal or when `main` fails. The process that was started
succeeds before exactly where `daemon` is called, with the queues open, and there is a second
process to go on. -/
theorem exit_success (hrun : run Machine.step .start opts = .ok m) (hsort : Sorts qsort)
    (s : Setup) :
    ∃ d₀, m.launch qsort s = .ok d₀ ∧ ∀ l d, run Daemon.step d₀ l = .ok d →
      (d.phase = .exited EXIT_SUCCESS → Label.signal ∈ l) ∧
      (∀ ret, d.parent = some ret ↔
        ret = EXIT_SUCCESS ∧ d₀.tunfds ≠ [] ∧ ∃ ok, s.daemon = some (.forked ok)) ∧
      ∀ k t, d.threads k = some t → t.isDone = true → Label.signal ∈ l ∨ d.phase.Failing := by
  obtain ⟨a, sorted, -, -, hlaunch⟩ := launch_ok hrun hsort
  obtain ⟨m', fds, tunfds, hd₀, -, hqueues⟩ := hlaunch s
  refine ⟨_, hd₀, fun l d hl => ?_⟩
  have hreq : Daemon.Requested l d := run_invariant_history Daemon.requested_step
    (Daemon.requested_start m' fds s.daemon hqueues) hl
  refine ⟨fun hphase => ?_, fun ret => ?_, fun k t ht hdone => hreq.flag (hreq.done k t ht hdone)⟩
  · have hflag := hreq.flag (hreq.joined (by rw [hphase]; rfl))
    rw [hphase] at hflag
    exact hflag.resolve_right (show EXIT_SUCCESS ≠ EXIT_FAILURE by decide)
  · rw [Daemon.parent_run hl]
    exact Daemon.parent_start hqueues

theorem exit_success_single : ∃ m, run Machine.step .start [Machine.optionSingle true] = .ok m ∧
    ∃ d₀, m.launch byPrefix twoThreads = .ok d₀ ∧ ∀ l d, run Daemon.step d₀ l = .ok d →
      (d.phase = .exited EXIT_SUCCESS → Label.signal ∈ l) ∧
      (∀ ret, d.parent = some ret ↔
        ret = EXIT_SUCCESS ∧ d₀.tunfds ≠ [] ∧ ∃ ok, twoThreads.daemon = some (.forked ok)) ∧
      ∀ k t, d.threads k = some t → t.isDone = true → Label.signal ∈ l ∨ d.phase.Failing := by
  obtain ⟨m, hrun⟩ := run_single
  exact ⟨m, hrun, exit_success hrun sorts_byPrefix twoThreads⟩

end Launch

end Rdnstun
