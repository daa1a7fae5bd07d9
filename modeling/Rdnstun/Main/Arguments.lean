import Rdnstun.Array.Model
import Rdnstun.Main.Guard
import Rdnstun.Main.Options
import Rdnstun.Main.Worker

/-!
# What the threads are handed

The threads read the arrays of chains through the pointers that `main` hands them.

* `Heap.loadChains`, `Machine.args`: the chains that are found there; a block that was freed, an
  entry that was not written and a buffer without an end are faults.
* `Sorts`: what a `qsort` by `HostChain_compare` does.
* `Holds.terminate_sorted`: an array with its terminator.
* **`Represents.finish_args`**: after the option loop, the threads find the chains that were built,
  by descending prefix.
-/

namespace Rdnstun

open Run

variable {af : Af}

namespace Heap

/-- A chain as a thread finds it: its buffer with the end of its hosts, and a prefix that fits. -/
def loadChain (heap : Heap) (e : Entry af) : Except Fault (HostChain af) :=
  match e.buf with
  | none => .error .nullPointer
  | some p =>
    if heap.blocks.Live p then
      if h : (∃ host ∈ heap.hosts af p, host.isnull = true) ∧ e.prefixLen ≤ inetSize af then
        .ok ⟨heap.hosts af p, e.network, e.prefixLen, h.1, h.2⟩
      else .error .outOfBounds
    else .error .notLive

/-- The chains of an array, up to its terminator. -/
def loadChains (heap : Heap) : List (Option (Entry af)) → Except Fault (List (HostChain af))
  | [] => .error .outOfBounds
  | none :: _ => .error .uninitialized
  | some e :: cells =>
    if e.buf = none then .ok []
    else do
      let c ← heap.loadChain e
      let cs ← heap.loadChains cells
      return c :: cs

end Heap

namespace Machine

/-- The chains behind `v4_chains` or `v6_chains`. -/
def arg (m : Machine) (af : Af) : Except Fault (Option (List (HostChain af))) :=
  match (m.vec af).base with
  | none => .ok none
  | some p =>
    if m.heap.blocks.Live p then do
      let cs ← m.heap.loadChains (m.vec af).cells
      return some cs
    else .error .notLive

/-- `struct RDnsTunArg`, as far as it points to chains. -/
def args (m : Machine) : Except Fault Chains := do
  let v4Chains ← m.arg .inet
  let v6Chains ← m.arg .inet6
  return fun
    | .inet => v4Chains
    | .inet6 => v6Chains

end Machine

/-- The chains that the threads should find: an array without chains is not there. -/
def Main.args (a : Main) : Chains := fun af =>
  match a.chains af with
  | [] => none
  | cs => some cs

theorem Main.args_eq_some {a : Main} {cs : List (HostChain af)} (h : a.args af = some cs) :
    cs = a.chains af := by
  rw [Main.args] at h
  split at h
  · cases h
  · exact (Option.some_inj.mp h).symm

/-- A `qsort` by descending prefix. -/
def Sorts (qsort : (af : Af) → List (Option (Entry af)) → List (Option (Entry af))) : Prop :=
  ∀ af l, (qsort af l).Perm l ∧
    (qsort af l).Pairwise fun x y => ∀ e ∈ x, ∀ e' ∈ y, e'.prefixLen ≤ e.prefixLen

/-! ## Chains that are found -/

variable {heap : Heap} {v : Vec af} {xs ys : List (ℕ × HostChain af)}
  {rest : List (Option (Entry af))}

theorem loadChain_eq {x : ℕ × HostChain af} (hlive : heap.blocks.Live x.1)
    (hhosts : heap.hosts af x.1 = x.2.buf) : heap.loadChain (Entry.of x) = .ok x.2 := by
  obtain ⟨p, c⟩ := x
  show (if heap.blocks.Live p then _ else _) = _
  rw [if_pos hlive, dif_pos ⟨hhosts ▸ c.terminated, c.prefixLen_le⟩]
  dsimp only at hhosts ⊢
  congr

theorem loadChains_eq {e : Entry af} (he : e.buf = none)
    (hlive : ∀ x ∈ xs, heap.blocks.Live x.1) (hhosts : ∀ x ∈ xs, heap.hosts af x.1 = x.2.buf) :
    heap.loadChains (cellsOf xs ++ some e :: rest) = .ok (xs.map Prod.snd) := by
  induction xs with
  | nil => exact if_pos he
  | cons x xs ih =>
    have hrest := ih (fun y hy => hlive y (List.mem_cons_of_mem x hy))
      fun y hy => hhosts y (List.mem_cons_of_mem x hy)
    refine (if_neg (Option.some_ne_none x.1)).trans ?_
    rw [loadChain_eq (hlive x List.mem_cons_self) (hhosts x List.mem_cons_self), ok_bind]
    show (heap.loadChains (cellsOf xs ++ some e :: rest) >>= _) = _
    rw [hrest]
    rfl

/-! ## The terminator -/

/-- The array is absent without chains, and otherwise ends with a terminator. -/
def Vec.Ends (v : Vec af) (ys : List (ℕ × HostChain af)) : Prop :=
  (ys = [] ∧ v.base = none) ∨
    ys ≠ [] ∧ v.base ≠ none ∧ ∃ e rest, v.cells = cellsOf ys ++ some e :: rest ∧ e.buf = none

/-- **A terminator** is written behind the entries, which are then sorted. -/
theorem Vec.Holds.terminate_sorted
    {qsort : List (Option (Entry af)) → List (Option (Entry af))} (h : v.Holds heap xs)
    (hne : xs ≠ []) (hsort : ∀ l, (qsort l).Perm l) :
    ∃ v₁ v' ys, v.write v.len (some (.zero af)) = .ok v₁ ∧ v₁.sort qsort = .ok v' ∧
      v'.base = v.base ∧ v'.len = v.len ∧ ys.Perm xs ∧ v'.Holds heap ys ∧
      cellsOf ys = qsort (cellsOf xs) ∧ v'.Ends ys := by
  obtain ⟨v₁, v', ys, hwrite, hsorted, -, hbase, hperm, hholds⟩ := h.terminate hne hsort
  obtain ⟨rest, hfill, hrest⟩ := h.filled
  obtain ⟨cell, rest, rfl⟩ := List.exists_cons_of_ne_nil (hrest hne)
  have hwrite' := hwrite.symm.trans (Vec.write_eq hfill.cells hfill.len)
  cases hwrite'
  have hcells : v'.cells = qsort (cellsOf xs) ++ some (.zero af) :: rest := by
    rw [Vec.sort, Vec.nitem, Vec.nitemLoop_eq rfl, ok_bind, Nat.zero_add,
      List.take_left' length_cellsOf, List.drop_left' length_cellsOf] at hsorted
    cases hsorted
    rfl
  obtain ⟨rest', hfill', -⟩ := hholds.filled
  have hlen : (cellsOf ys).length = (qsort (cellsOf xs)).length := by
    rw [(hsort _).length_eq, length_cellsOf, length_cellsOf, hperm.length_eq]
  obtain ⟨hys, hrest'⟩ := List.append_inj (hfill'.cells.symm.trans hcells) hlen
  refine ⟨_, v', ys, hwrite, hsorted, hbase, ?_, hperm, hholds, hys, .inr ⟨?_, ?_, ?_⟩⟩
  · rw [hfill'.len, hfill.len, hperm.length_eq]
  · exact fun hnil => hne (List.perm_nil.mp (hnil ▸ hperm.symm))
  · rw [hbase]
    exact h.base_ne_none hne
  · exact ⟨.zero af, rest, hys ▸ hcells, rfl⟩

/-- The entries that a `qsort` by descending prefix leaves are those of chains in that order. -/
theorem pairwise_of_cells (h : (cellsOf ys).Pairwise fun x y => ∀ e ∈ x, ∀ e' ∈ y,
    e'.prefixLen ≤ e.prefixLen) :
    (ys.map Prod.snd).Pairwise fun c c' => c'.prefixLen ≤ c.prefixLen := by
  rw [cellsOf, List.pairwise_map] at h
  rw [List.pairwise_map]
  exact h.imp fun hxy => hxy _ rfl _ rfl

namespace Machine

variable {m : Machine} {a : Main} {zs : (af : Af) → List (ℕ × HostChain af)}
  {qsort : (af : Af) → List (Option (Entry af)) → List (Option (Entry af))}

theorem Holds.settle_sorted {cleared : Af} (h : m.Holds zs) (hsort : Sorts qsort)
    (hocc : (m.vec af).base ≠ none → 0 < (m.vec af).len) :
    ∃ v ys, m.settle qsort af cleared = .ok (m.set af m.heap v) ∧ ys.Perm (zs af) ∧
      ((ys.map Prod.snd).Pairwise fun c c' => c'.prefixLen ≤ c.prefixLen) ∧ v.Ends ys ∧
      (m.set af m.heap v).Holds (Function.update zs af ys) := by
  rw [Machine.settle]
  split_ifs with hbase hzero
  · have hnil : zs af = [] := by
      by_contra hne
      exact (h.vec af).base_ne_none hne hbase
    refine ⟨m.vec af, [], by rw [set_self], hnil ▸ .refl _, .nil, .inl ⟨rfl, hbase⟩, ?_⟩
    rw [set_self, ← hnil]
    rwa [Function.update_eq_self]
  · exact absurd hzero (hocc hbase).ne'
  · have hne : zs af ≠ [] := by
      rw [← List.length_pos_iff, ← (h.vec af).len]
      exact hocc hbase
    obtain ⟨v₁, v, ys, hwrite, hsorted, hbase', -, hperm, hholds, hcells, hends⟩ :=
      (h.vec af).terminate_sorted hne fun l => (hsort af l).1
    refine ⟨v, ys, ?_, hperm, pairwise_of_cells (hcells ▸ (hsort af _).2), hends,
      h.set hholds ?_ (.refl _)⟩
    · rw [hwrite, ok_bind, hsorted]
      rfl
    · refine (h.owns_of af).perm ?_
      show ((m.vec af).base.toList ++ _ ++ _).Perm (v.base.toList ++ _ ++ _)
      rw [hbase']
      exact ((hperm.map _).symm.append_left _).append_right _

theorem Holds.arg_eq (h : m.Holds zs) (hends : (m.vec af).Ends (zs af)) :
    m.arg af = .ok (Main.args ⟨fun af => (zs af).map Prod.snd, m.last⟩ af) := by
  rw [arg, Main.args]
  dsimp only
  rcases hends with ⟨hnil, hbase⟩ | ⟨hne, hbase, e, rest, hcells, he⟩
  · rw [hbase, hnil]
    rfl
  · obtain ⟨p, hp⟩ := Option.ne_none_iff_exists'.mp hbase
    have hblock : p ∈ (m.vec af).blocks (zs af) := by
      rw [Vec.blocks, hp]
      exact List.mem_cons_self
    have hlive : ∀ x ∈ zs af, m.heap.blocks.Live x.1 := fun x hx =>
      (h.owns_of af).live
        (List.mem_append_left _ (List.mem_append_right _ (List.mem_map_of_mem hx)))
    rw [hp]
    dsimp only
    rw [if_pos ((h.owns_of af).live (List.mem_append_left _ hblock)), hcells,
      loadChains_eq he hlive (h.vec af).hosts]
    obtain ⟨x, xs, hxs⟩ := List.exists_cons_of_ne_nil hne
    rw [hxs]
    rfl

theorem Holds.args_eq (h : m.Holds zs) (hends : ∀ af, (m.vec af).Ends (zs af)) :
    m.args = .ok (Main.args ⟨fun af => (zs af).map Prod.snd, m.last⟩) := by
  rw [args, h.arg_eq (hends .inet), ok_bind, h.arg_eq (hends .inet6), ok_bind]
  refine congrArg Except.ok (funext fun af => ?_)
  cases af <;> rfl

/-- **After the option loop** the threads find the chains that were built, by descending prefix, and
the end of `main` releases what is allocated. -/
theorem Represents.finish_args (hr : m.Represents a) (hocc : m.Occupied) (hsort : Sorts qsort) :
    ∃ (m' : Machine) (a' : Main), m.finish qsort = .ok m' ∧ m'.args = .ok a'.args ∧ m'.Released ∧
      ∀ af, HostChainArray.SortedBy (a.chains af) (a'.chains af) := by
  obtain ⟨hlast, xs, hxs, h⟩ := hr
  obtain ⟨v, ys, hsettle, hperm, hpair, hends, h₁⟩ := h.settle_sorted hsort (hocc .inet)
  obtain ⟨v₆, ys₆, hsettle₆, hperm₆, hpair₆, hends₆, h₂⟩ := h₁.settle_sorted hsort (hocc .inet6)
  refine ⟨(m.set .inet m.heap v).set .inet6 m.heap v₆,
    ⟨fun af => (Function.update (Function.update xs .inet ys) .inet6 ys₆ af).map Prod.snd, m.last⟩,
    ?_, h₂.args_eq ?_, h₂.released, ?_⟩
  · rw [Machine.finish, hsettle, ok_bind]
    exact hsettle₆
  · rintro (_ | _)
    · exact hends
    · exact hends₆
  · intro af
    rw [← hxs]
    cases af
    · exact ⟨hperm.map _, hpair⟩
    · exact ⟨hperm₆.map _, hpair₆⟩

end Machine

/-! ## Whole command lines -/

/-- The duplicates without a failed copy are those of the loop. -/
theorem dupLoop_of_dupBuild {base : HostChain af} {step prefixLen count i : ℕ} {malloc : ℕ → Bool}
    {chains chains' : List (HostChain af)}
    (h : dupBuild base step prefixLen malloc count i chains = (chains', true)) :
    dupLoop base step prefixLen count i chains = .ok chains' ∧
      ∀ j < count, malloc (i + j) = true := by
  induction count generalizing i chains with
  | zero =>
    cases h
    exact ⟨rfl, fun j hj => absurd hj (Nat.not_lt_zero j)⟩
  | succ count ih =>
    rw [dupBuild] at h
    split_ifs at h with hmalloc
    · cases hround : dupAt base step prefixLen i with
      | error e => rw [hround] at h; cases h
      | ok self =>
        rw [hround] at h
        obtain ⟨hloop, hrest⟩ := ih h
        refine ⟨?_, fun j hj => ?_⟩
        · rw [dupLoop, hround]
          exact hloop
        · obtain _ | j := j
          · exact hmalloc
          · have := hrest j (by omega)
            rwa [Nat.add_assoc, Nat.add_comm 1 j] at this
    · cases h

namespace Machine

variable {m : Machine} {a a' : Main} {opt : AllocOpt} {opts : List AllocOpt}
  {qsort : (af : Af) → List (Option (Entry af)) → List (Option (Entry af))}

/-- The counter of a duplication that is carried out stays an `int`. -/
theorem Guarded.n_ne {optarg : List Char} {irealloc : Bool} {malloc : ℕ → Bool}
    {xs : (af : Af) → List (ℕ × HostChain af)} {chains : (af : Af) → List (HostChain af)}
    {base : HostChain m.last} {d : Dup m.last} (hguard : m.Guarded (.dup optarg irealloc malloc))
    (h : m.Holds xs) (hxs : ∀ af, (xs af).map Prod.snd = chains af)
    (hbase : (chains m.last).getLast? = some base) (hd : parseDup m.last optarg = some d)
    (hirealloc : irealloc = true) (hle : d.prefixLen ≤ base.prefixLen)
    (hmalloc : ∀ j < d.n, malloc (1 + j) = true) : d.n ≠ INT_MAX := by
  intro hmax
  have hpos : 0 < (m.vec m.last).len := by
    rw [(h.vec m.last).len, ← List.length_map (f := Prod.snd), hxs]
    exact List.length_pos_of_mem (List.mem_of_getLast? hbase)
  obtain ⟨p, c, hx, hc⟩ := h.exists_last hxs hpos
  obtain rfl : base = c := Option.some_inj.mp (hbase.symm.trans hc)
  obtain ⟨rest, hfill, -⟩ := (h.vec m.last).filled
  have hfit := (hguard d hpos hd).2 (Entry.of (p, base)) hirealloc (Vec.read_eq hfill.cells hx) hle
  have hbound : 0 < INT_MAX := by decide
  have hround := hfit (d.n - 1) (by omega) fun k hk => hmalloc k (by omega)
  omega

/-- **An option** that is carried out in memory is accepted on the lists. -/
theorem Represents.step_of_build (hr : m.Represents a) (hguard : m.Guarded opt)
    (h : a.build opt = .ok a') : a.step opt.opt = .ok a' := by
  obtain ⟨hlast, xs, hxs, hholds⟩ := hr
  obtain ⟨chains, last⟩ := a
  obtain rfl : m.last = last := hlast
  cases opt with
  | chain af env s ok =>
    rw [Main.build] at h
    rw [AllocOpt.opt, Main.step]
    cases hinit : HostChain.init env s with
    | error e => rw [hinit] at h; cases h
    | ok c =>
      rw [hinit] at h
      dsimp only at h
      split_ifs at h
      cases h
      rfl
  | dup optarg irealloc malloc =>
    cases hbase : (chains m.last).getLast? with
    | none => rw [build_dup_nil (List.getLast?_eq_none_iff.mp hbase)] at h; cases h
    | some base =>
      cases hd : parseDup m.last optarg with
      | none => rw [build_dup_none hd] at h; cases h
      | some d =>
        rw [build_dup hbase hd] at h
        split_ifs at h with hbefore
        rw [Bool.and_eq_true, decide_eq_true_eq] at hbefore
        obtain ⟨hirealloc, hle⟩ := hbefore
        cases hbuild : dupBuild base d.step d.prefixLen malloc d.n 1 (chains m.last) with
        | mk chains' done =>
          rw [hbuild] at h
          cases done with
          | false => cases h
          | true =>
            cases h
            obtain ⟨hloop, hmalloc⟩ := dupLoop_of_dupBuild hbuild
            have hmax := hguard.n_ne hholds hxs hbase hd hirealloc hle hmalloc
            rw [AllocOpt.opt, Main.step, duplicate]
            dsimp only
            rw [hbase]
            dsimp only
            rw [hd]
            dsimp only
            rw [if_neg (Nat.not_lt.mpr hle), hloop]
            dsimp only
            rw [if_neg hmax]

/-- **An option** that is guarded. -/
theorem Represents.agrees {a : Main} {opt : AllocOpt} (hr : m.Represents a) (hocc : m.Occupied)
    (hguard : m.Guarded opt) : m.Agrees a opt := by
  cases opt with
  | chain af env s ok => exact chain_agrees hr hocc hguard
  | dup optarg irealloc malloc => exact dup_agrees hr hocc hguard

theorem Represents.length (h : m.Represents a) (af : Af) :
    (m.vec af).len = (a.chains af).length := by
  obtain ⟨-, xs, hxs, hholds⟩ := h
  rw [(hholds.vec af).len, ← hxs, List.length_map]

theorem Represents.length_lt (hr : m.Represents a) (hguard : m.Guarded opt)
    (hlen : ∀ af, (a.chains af).length + 1 < 2 ^ 32) (h : a.step opt.opt = .ok a') (af : Af) :
    (a'.chains af).length + 1 < 2 ^ 32 := by
  obtain ⟨af', new, hadds, -, hchains⟩ := Main.step_ok h
  have hnew : (a.chains af').length + new.length + 1 < 2 ^ 32 := by
    cases opt with
    | chain af env s ok =>
      have hroom := hguard.1
      cases hadds with
      | chain hinit =>
        rw [hr.length] at hroom
        exact hroom
    | dup optarg irealloc malloc =>
      obtain ⟨chains, last⟩ := a
      obtain rfl : m.last = last := hr.last
      cases hadds with
      | @dup _ base d new haccepts hrounds =>
        have hpos : 0 < (m.vec m.last).len := by
          rw [hr.length]
          exact List.length_pos_of_mem (List.mem_of_getLast? haccepts.getLast?)
        have hroom := (hguard d hpos haccepts.parseDup).1
        rw [hr.length, ← hrounds.length] at hroom
        exact hroom
  rw [hchains]
  by_cases haf : af = af'
  · subst haf
    rw [Function.update_self, List.length_append]
    exact hnew
  · rw [Function.update_of_ne haf]
    exact hlen af

/-- **A command line** that is carried out in memory is accepted on the lists, and the arrays hold
the chains that it gives. Their numbers leave room for a terminator. -/
theorem exists_represents (h : run step start opts = .ok m) :
    ∃ a, Main.run (opts.map AllocOpt.opt) = .ok a ∧ m.Represents a ∧ m.Occupied ∧
      ∀ af, (a.chains af).length + 1 < 2 ^ 32 := by
  refine run_forward (R := fun m a =>
    m.Represents a ∧ m.Occupied ∧ ∀ af, (a.chains af).length + 1 < 2 ^ 32)
    (fun m a opt m' _ hr hm => ?_)
    ⟨represents_start, fun af hbase => absurd rfl hbase, fun af => by simp [Main.start]⟩ h
  obtain ⟨hrep, hocc, hlen⟩ := hr
  have hopt := guarded_of_step hm
  have hagree := hrep.agrees hocc hopt
  rw [Agrees, hm] at hagree
  cases hbuild : a.build opt with
  | error a' => rw [hbuild] at hagree; exact hagree.elim
  | ok a' =>
    rw [hbuild] at hagree
    have hstep := hrep.step_of_build hopt hbuild
    exact ⟨a', hstep, hagree.1, hagree.2, hrep.length_lt hopt hlen hstep⟩

end Machine

end Rdnstun
