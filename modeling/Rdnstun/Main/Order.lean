import Rdnstun.Array.Order
import Rdnstun.Main.Traffic

/-!
# Locality and order of the options

* `SamePlans`: two sorted arrays with the same plans for an address, no two with the same route.
* `answer_args`: programs with such arrays answer alike.
* **`service_local`**: where no two chains have the same route, a packet is answered from the chains
  in whose routes its destination lies; neither other chains matter, nor the order of the options,
  nor that in which `qsort` leaves the chains.
-/

namespace Rdnstun

open Memory Run HostChainArray

variable {af : Af} {self self' : List (HostChain af)} {sorted sorted' : Main} {p : Received}
  {addr : Addr af}

/-- Two sorted arrays with the same plans for an address, no two with the same route. -/
structure SamePlans (addr : Addr af) (cs cs' : List (HostChain af)) : Prop where
  perm : (plansFor cs addr).Perm (plansFor cs' addr)
  distinct : (plansFor cs addr).Pairwise fun p q => ¬ p.SameRoute q
  sorted : cs.Pairwise fun c c' => c'.prefixLen ≤ c.prefixLen
  sorted' : cs'.Pairwise fun c c' => c'.prefixLen ≤ c.prefixLen

theorem SamePlans.symm (h : SamePlans addr self self') : SamePlans addr self' self :=
  ⟨h.perm.symm, (h.perm.pairwise_iff fun hne hsame => hne hsame.symm).mp h.distinct, h.sorted',
    h.sorted⟩

theorem answer_nil (pkt : Mem) (n : ℕ) :
    (reply ([] : List (HostChain af)) pkt n).answer = none := by
  have hnone : ∀ k c hit, ¬ Responds ([] : List (HostChain af)) pkt k c hit :=
    fun k c hit h => by cases h.chain
  rw [reply_of_not_responds hnone, Reply.answer, if_neg]
  rintro ⟨hret, -⟩
  dsimp only at hret
  split_ifs at hret

theorem answer_args_of_some (h : ∀ af, ipV p.packet = af.ipver →
      SamePlans (Addr.load af p.packet af.wire.dst) (sorted.chains af) (sorted'.chains af))
    {bytes : List UInt8} (hanswer : answer sorted.args p = some bytes) :
    answer sorted'.args p = some bytes := by
  obtain ⟨af, self, hv, hself, hreply⟩ := answer_eq_some.mp hanswer
  obtain rfl := Main.args_eq_some hself
  have hplans := h af hv
  rw [reply_perm hplans.perm hplans.distinct hplans.sorted hplans.sorted'] at hreply
  have hself' : sorted'.args af = some (sorted'.chains af) := by
    rw [Main.args]
    cases hchains : sorted'.chains af with
    | nil =>
      rw [hchains, answer_nil] at hreply
      cases hreply
    | cons c cs => rfl
  exact answer_eq_some.mpr ⟨af, _, hv, hself', hreply⟩

/-- **The answers** of two programs with the same plans for the destination are the same. -/
theorem answer_args (h : ∀ af, ipV p.packet = af.ipver →
      SamePlans (Addr.load af p.packet af.wire.dst) (sorted.chains af) (sorted'.chains af)) :
    answer sorted.args p = answer sorted'.args p :=
  Option.ext fun _ =>
    ⟨answer_args_of_some h, answer_args_of_some fun af hv => (h af hv).symm⟩

theorem samePlans_of_sortedBy {cs cs' : List (HostChain af)} (hsort : SortedBy cs self)
    (hsort' : SortedBy cs' self') (hperm : (plansFor cs addr).Perm (plansFor cs' addr))
    (hdistinct : DistinctRoutes cs) : SamePlans addr self self' where
  perm := (((hsort.1.map _).filter _).trans hperm).trans ((hsort'.1.map _).filter _).symm
  distinct := (hdistinct.perm hsort.1).plansFor addr
  sorted := hsort.2
  sorted' := hsort'.2

/-- Two programs that answer the packets of the second one alike do so for packets of the same
bytes that the first one reads. -/
theorem answers_args {chains chains' : Chains} {ps qs : List Received}
    (h : List.Forall₂ (fun p q => answer chains q = answer chains p) ps qs)
    (hargs : ∀ q ∈ qs, answer chains q = answer chains' q) :
    List.Forall₂ (fun p q => answer chains' q = answer chains p) ps qs := by
  induction h with
  | nil => exact .nil
  | cons hcongr _ ih =>
    obtain ⟨hq, hqs⟩ := List.forall_mem_cons.mp hargs
    exact .cons (hq ▸ hcongr) (ih hqs)

/-! ## From the options on -/

/-- **Locality.** Two instances of the program with different options: if no two chains have the
same route, threads that read packets of the same bytes write the same, as long as the options build
the same plans, in any order, of the chains in whose routes the destinations of these packets lie.
The bytes are to hold all that the replies are made of. -/
theorem service_local {opts opts' : List AllocOpt} {m m' : Machine}
    {qsort qsort' : (af : Af) → List (Option (Entry af)) → List (Option (Entry af))}
    (hrun : run Machine.step .start opts = .ok m) (hrun' : run Machine.step .start opts' = .ok m')
    (hsort : Sorts qsort) (hsort' : Sorts qsort') (s s' : Setup) :
    ∃ (a a' sorted : Main) (d₀ d₀' : Daemon), Main.run (opts.map AllocOpt.opt) = .ok a ∧
      Main.run (opts'.map AllocOpt.opt) = .ok a' ∧
      (∀ af, SortedBy (a.chains af) (sorted.chains af)) ∧
      m.launch qsort s = .ok d₀ ∧ m'.launch qsort' s' = .ok d₀' ∧
      ((∀ af, DistinctRoutes (a.chains af)) →
        ∀ l d l' d' i i', run Daemon.step d₀ l = .ok d → run Daemon.step d₀' l' = .ok d' →
          (d.thread i).pending = none → (d'.thread i').pending = none →
          (∀ p ∈ Daemon.receivedBy i l, p.Held sorted.args) →
          List.Forall₂ Received.Same (Daemon.receivedBy i l) (Daemon.receivedBy i' l') →
          (∀ q ∈ Daemon.receivedBy i' l', ∀ af, ipV q.packet = af.ipver →
            (plansFor (a.chains af) (Addr.load af q.packet af.wire.dst)).Perm
              (plansFor (a'.chains af) (Addr.load af q.packet af.wire.dst))) →
            Daemon.sentBy i l = Daemon.sentBy i' l') := by
  obtain ⟨a, sorted, hbuild, hsorted, hlaunch⟩ := launch_ok hrun hsort
  obtain ⟨a', sorted', hbuild', hsorted', hlaunch'⟩ := launch_ok hrun' hsort'
  obtain ⟨m₁, fds, tunfds, hd₀, hinv, -⟩ := hlaunch s
  obtain ⟨m₁', fds', tunfds', hd₀', hinv', -⟩ := hlaunch' s'
  refine ⟨a, a', sorted, _, _, hbuild, hbuild', hsorted, hd₀, hd₀', ?_⟩
  intro hdistinct l d l' d' i i' hl hl' hnone hnone' hheld hsame hperm
  refine Daemon.sentBy_congr hinv hinv' (thread_start m₁ fds tunfds s.daemon i)
    (thread_start m₁' fds' tunfds' s'.daemon i') hl hl' hnone hnone' ?_
  refine answers_args ?_ fun q hq => answer_args fun af hv =>
    samePlans_of_sortedBy (hsorted af) (hsorted' af) (hperm q hq af hv) (hdistinct af)
  exact Daemon.answers_congr hinv (minMtu_args hbuild hsorted) hl
    (fun p hp => Daemon.mem_received.mpr ⟨i, hp⟩) hheld hsame

/-- Two instances that are started alike. -/
theorem service_local_single : ∃ m, run Machine.step .start [Machine.optionSingle true] = .ok m ∧
    ∃ (a a' sorted : Main) (d₀ d₀' : Daemon),
      Main.run ([Machine.optionSingle true].map AllocOpt.opt) = .ok a ∧
      Main.run ([Machine.optionSingle true].map AllocOpt.opt) = .ok a' ∧
      (∀ af, SortedBy (a.chains af) (sorted.chains af)) ∧
      m.launch byPrefix twoThreads = .ok d₀ ∧ m.launch byPrefix twoThreads = .ok d₀' ∧
      ((∀ af, DistinctRoutes (a.chains af)) →
        ∀ l d l' d' i i', run Daemon.step d₀ l = .ok d → run Daemon.step d₀' l' = .ok d' →
          (d.thread i).pending = none → (d'.thread i').pending = none →
          (∀ p ∈ Daemon.receivedBy i l, p.Held sorted.args) →
          List.Forall₂ Received.Same (Daemon.receivedBy i l) (Daemon.receivedBy i' l') →
          (∀ q ∈ Daemon.receivedBy i' l', ∀ af, ipV q.packet = af.ipver →
            (plansFor (a.chains af) (Addr.load af q.packet af.wire.dst)).Perm
              (plansFor (a'.chains af) (Addr.load af q.packet af.wire.dst))) →
            Daemon.sentBy i l = Daemon.sentBy i' l') := by
  obtain ⟨m, hrun⟩ := run_single
  exact ⟨m, hrun, service_local hrun hrun sorts_byPrefix sorts_byPrefix twoThreads twoThreads⟩

end Rdnstun
