import Rdnstun.Chain.Bounds
import Rdnstun.Main.Build
import Rdnstun.Main.Vec

/-!
# The bookkeeping of the arrays

* `Machine.Represents`: the arrays in memory hold the chains that were built, each in a buffer of
  its own, and no other block is in use.
* `dupEntries_ok`: the loop of a duplication, by induction on the rounds that are left.
* `chain_agrees`, `dup_agrees`: an option does in memory what it does on the lists.
* `Represents.finish`, `Holds.released`: the end of the option loop, and of `main`.
* **`bookkeeps`**: every run whose options do not reach a computation that goes wrong.
* `not_bookkeeps`: an allocation that is not checked.
-/

namespace Rdnstun

open Run

variable {af : Af} {heap : Heap} {v : Vec af} {ps : List ℕ} {xs : List (ℕ × HostChain af)}
  {rest : List (Option (Entry af))}

/-! ## The loop of a duplication -/

/-- The rounds of the loop that are reached compute in `int`. -/
def RoundsFit (step : ℕ) (malloc : ℕ → Bool) (i count : ℕ) : Prop :=
  ∀ j < count, (∀ k ≤ j, malloc (i + k) = true) → step * (i + j) ≤ INT_MAX ∧ i + j < INT_MAX

theorem RoundsFit.next {step i count : ℕ} {malloc : ℕ → Bool} (hi : malloc i = true)
    (h : RoundsFit step malloc i (count + 1)) : RoundsFit step malloc (i + 1) count := by
  intro j hj hmalloc
  have hround := h (j + 1) (by omega) fun k hk => by
    obtain _ | k := k
    · exact hi
    · have hk' := hmalloc k (by omega)
      rwa [Nat.add_assoc, Nat.add_comm 1 k] at hk'
  rwa [Nat.add_assoc, Nat.add_comm 1 j]

theorem exists_dupAt {step i : ℕ} (c : HostChain af) (prefixLen : ℕ) (h : step * i ≤ INT_MAX) :
    ∃ self, dupAt c step prefixLen i = .ok self := by
  rw [dupAt, if_pos h]
  cases c.copy.shift (step * i : ℕ) prefixLen with
  | error e => exact ⟨_, rfl⟩
  | ok self => exact ⟨_, rfl⟩

/-- **The loop** fills the array with the duplicates, up to the first copy that fails. -/
theorem dupEntries_ok {b p i count step : ℕ} (prefixLen : ℕ) {c : HostChain af}
    {malloc : ℕ → Bool} (hfill : v.Filled xs rest) (hrest : count < rest.length)
    (hb : xs[b]? = some (p, c)) (hi : b + i = xs.length)
    (hhosts : ∀ x ∈ xs, heap.hosts af x.1 = x.2.buf) (hmax : xs.length + count < 2 ^ 32)
    (hown : heap.blocks.Owns (v.blocks xs ++ ps))
    (hfit : RoundsFit step malloc i count) :
    ∃ heap' v' zs, dupEntries b step prefixLen malloc count i heap v = .ok (heap', v',
        (dupBuild c step prefixLen malloc count i (xs.map Prod.snd)).2) ∧
      v'.Holds heap' zs ∧
      zs.map Prod.snd = (dupBuild c step prefixLen malloc count i (xs.map Prod.snd)).1 ∧
      heap'.blocks.Owns (v'.blocks zs ++ ps) ∧ heap.Extends heap' := by
  induction count generalizing i heap v xs rest with
  | zero =>
    refine ⟨heap, v, xs, rfl, ⟨⟨rest, hfill, fun _ => ?_⟩, hhosts⟩, rfl, hown, .refl heap⟩
    exact List.ne_nil_of_length_pos hrest
  | succ count ih =>
    obtain ⟨cell, rest, rfl⟩ := List.exists_cons_of_length_pos (Nat.zero_lt_of_lt hrest)
    have hmem : (p, c) ∈ xs := List.mem_of_getElem? hb
    have hp : p ∈ v.blocks xs ++ ps :=
      List.mem_append_left _ (List.mem_append_right _ (List.mem_map_of_mem (f := Prod.fst) hmem))
    rw [dupEntries, Vec.read_eq hfill.cells hb, ok_bind, dupBuild]
    cases hmalloc : malloc i with
    | false =>
      rw [Heap.copy_fail (hown.live hp) (hhosts _ hmem), ok_bind]
      dsimp only
      rw [Vec.write_eq hfill.cells hi, ok_bind, if_neg Bool.false_ne_true]
      refine ⟨heap, _, xs, rfl, ⟨⟨_, hfill.set_spare ?_, fun _ => List.cons_ne_nil _ _⟩, hhosts⟩,
        rfl, hown, .refl heap⟩
      rintro e ⟨⟩
      rfl
    | true =>
      obtain ⟨hint, hcounter⟩ : step * i ≤ INT_MAX ∧ i < INT_MAX :=
        hfit 0 (Nat.zero_lt_succ _) fun k hk => by rwa [Nat.le_zero.mp hk]
      obtain ⟨self, hself⟩ := exists_dupAt c prefixLen hint
      obtain ⟨heap₁, heap₂, q, hcopy, hshift, hown₂, hhosts₂, hext⟩ :=
        Heap.round_ok hself hown hp (hhosts _ hmem)
      rw [hcopy, ok_bind]
      dsimp only
      rw [Vec.write_eq hfill.cells hi, ok_bind, if_pos rfl, if_pos hint, hshift, ok_bind]
      dsimp only
      rw [Vec.write_eq rfl hi, ok_bind, if_pos hcounter, if_pos rfl, hself]
      have hkept : ∀ x ∈ xs, heap₂.hosts af x.1 = x.2.buf := by
        intro x hx
        have hxmem : x.1 ∈ v.blocks xs ++ ps :=
          List.mem_append_left _ (List.mem_append_right _ (List.mem_map_of_mem hx))
        rw [hext.hosts af x.1 (hown.live hxmem).1, hhosts x hx]
      have hhosts' : ∀ x ∈ xs ++ [(q, self)], heap₂.hosts af x.1 = x.2.buf :=
        List.forall_mem_append.mpr ⟨hkept, List.forall_mem_singleton.mpr hhosts₂⟩
      have hown' : heap₂.blocks.Owns (v.blocks (xs ++ [(q, self)]) ++ ps) :=
        hown₂.perm (Vec.blocks_push (q, self))
      have hlen : (xs ++ [(q, self)]).length = xs.length + 1 := by simp
      obtain ⟨heap₃, v₃, zs, hloop, hholds, hchains, hown₃, hext₃⟩ := ih
        (hfill.push (by omega)) (Nat.lt_of_succ_lt_succ hrest) (List.getElem?_append_left
          (List.getElem?_eq_some_iff.mp hb).1 ▸ hb) (by omega) hhosts' (by omega) hown'
        (hfit.next hmalloc)
      rw [List.map_append] at hloop hchains
      exact ⟨heap₃, v₃, zs, hloop, hholds, hchains, hown₃, hext.trans hext₃⟩

/-! ## The two arrays -/

/-- The other family. -/
def Af.other : Af → Af
  | .inet => .inet6
  | .inet6 => .inet

namespace Machine

variable {m m' : Machine} {a a' : Main} {xs : (af : Af) → List (ℕ × HostChain af)}

/-- The arrays hold the chains, and the blocks in use are theirs, each once. -/
structure Holds (m : Machine) (xs : (af : Af) → List (ℕ × HostChain af)) : Prop where
  vec : ∀ af, (m.vec af).Holds m.heap (xs af)
  owns : m.heap.blocks.Owns
    ((m.vec .inet).blocks (xs .inet) ++ (m.vec .inet6).blocks (xs .inet6))

/-- The first entries of each array are the chains that were built, in their order and each in a
buffer of its own, and no other block is in use. -/
structure Represents (m : Machine) (a : Main) : Prop where
  last : m.last = a.last
  holds : ∃ xs : (af : Af) → List (ℕ × HostChain af),
    (∀ af, (xs af).map Prod.snd = a.chains af) ∧ m.Holds xs

/-- An array that was allocated is not empty. -/
def Occupied (m : Machine) : Prop := ∀ af, (m.vec af).base ≠ none → 0 < (m.vec af).len

/-- The end of `main` frees every block that was allocated, each once. -/
def Released (m : Machine) : Prop := ∃ heap, m.cleanup = .ok heap ∧ heap.blocks.AllFreed

theorem Holds.owns_of (h : m.Holds xs) (af : Af) : m.heap.blocks.Owns
    ((m.vec af).blocks (xs af) ++ (m.vec af.other).blocks (xs af.other)) := by
  cases af
  · exact h.owns
  · exact Ledger.owns_append_comm.mp h.owns

theorem Holds.lt_next (h : m.Holds xs) {af : Af} : ∀ x ∈ xs af, x.1 < m.heap.blocks.next := by
  intro x hx
  refine ((h.owns_of af).live (List.mem_append_left _ (List.mem_append_right _ ?_))).1
  exact List.mem_map_of_mem hx

@[simp] theorem set_self : m.set af m.heap (m.vec af) = m := by
  rw [set, Function.update_eq_self]

theorem Holds.set {ys : List (ℕ × HostChain af)} (h : m.Holds xs) (hv : v.Holds heap ys)
    (hown : heap.blocks.Owns (v.blocks ys ++ (m.vec af.other).blocks (xs af.other)))
    (hext : m.heap.Extends heap) : (m.set af heap v).Holds (Function.update xs af ys) where
  vec af' := by
    show (Function.update m.vec af v af').Holds heap _
    by_cases haf : af' = af
    · subst haf
      rwa [Function.update_self, Function.update_self]
    · rw [Function.update_of_ne haf, Function.update_of_ne haf]
      exact (h.vec af').of_extends h.lt_next hext
  owns := by
    cases af
    · exact hown
    · exact Ledger.owns_append_comm.mp hown

theorem map_update {ys : List (ℕ × HostChain af)} {chains : (af : Af) → List (HostChain af)}
    {l : List (HostChain af)} (hxs : ∀ af, (xs af).map Prod.snd = chains af)
    (hys : ys.map Prod.snd = l) (af' : Af) :
    (Function.update xs af ys af').map Prod.snd = Function.update chains af l af' := by
  by_cases haf : af' = af
  · subst haf
    rw [Function.update_self, Function.update_self, hys]
  · rw [Function.update_of_ne haf, Function.update_of_ne haf, hxs]

/-- One array is at another place, with the same chains. -/
theorem Represents.move (hlast : m.last = a.last) (hxs : ∀ af, (xs af).map Prod.snd = a.chains af)
    (h : m.Holds xs) (hv : v.Holds heap (xs af))
    (hown : heap.blocks.Owns (v.blocks (xs af) ++ (m.vec af.other).blocks (xs af.other)))
    (hext : m.heap.Extends heap) : (m.set af heap v).Represents a where
  last := hlast
  holds := by
    refine ⟨xs, hxs, ?_⟩
    have hset := h.set hv hown hext
    rwa [Function.update_eq_self] at hset

/-- **Release.** What the arrays hold is released at the end. -/
theorem Holds.released (h : m.Holds xs) : m.Released := by
  obtain ⟨rest, hfill, hrest⟩ := (h.vec .inet).filled
  obtain ⟨rest₆, hfill₆, hrest₆⟩ := (h.vec .inet6).filled
  obtain ⟨heap₁, hrelease, hown₁⟩ := hfill.release hrest h.owns
  rw [← List.append_nil ((m.vec .inet6).blocks _)] at hown₁
  obtain ⟨heap₂, hrelease₆, hown₂⟩ := hfill₆.release hrest₆ hown₁
  refine ⟨heap₂, ?_, hown₂.allFreed⟩
  rw [cleanup, hrelease]
  exact hrelease₆

/-! ## The options -/

/-- The option does not reach a computation that goes wrong: of the size of the array, of the guard
of a range, of a round of a duplication, or the unchecked reallocation of a buffer. -/
def Guarded (m : Machine) : AllocOpt → Prop
  | .chain af env s ok =>
    (m.vec af).len + 2 < 2 ^ 32 ∧
      (ok.irealloc = true → ok.malloc = true → ok.strdup = true →
        NoWrap env s ∧ ((∃ c, HostChain.init env s = .ok c) → ok.realloc = true))
  | .dup optarg irealloc malloc =>
    ∀ d, 0 < (m.vec m.last).len → parseDup m.last optarg = some d →
      (m.vec m.last).len + d.n + 1 < 2 ^ 32 ∧
        ∀ base, irealloc = true → (m.vec m.last).read ((m.vec m.last).len - 1) = .ok base →
          d.prefixLen ≤ base.prefixLen → RoundsFit d.step malloc 1 d.n

/-- The results of an option in memory and on the lists. -/
def Agrees (m : Machine) (a : Main) (opt : AllocOpt) : Prop :=
  Related (fun stop a => ∃ m ret, stop = .fail m ret ∧ m.Represents a)
    (fun m a => m.Represents a ∧ m.Occupied) (m.step opt) (a.build opt)

theorem agrees_of_ok {opt : AllocOpt} (h : m.option opt = .ok (m', none))
    (ha : a.build opt = .ok a') (hr : m'.Represents a') (hocc : m'.Occupied) :
    m.Agrees a opt := by
  rw [Agrees, step, h, ha]
  exact ⟨hr, hocc⟩

theorem agrees_of_fail {opt : AllocOpt} {ret : ℤ} (h : m.option opt = .ok (m', some ret))
    (ha : a.build opt = .error a') (hr : m'.Represents a') : m.Agrees a opt := by
  rw [Agrees, step, h, ha]
  exact ⟨m', ret, rfl, hr⟩

theorem Occupied.set (h : m.Occupied) (heap : Heap) (hv : 0 < v.len) :
    (m.set af heap v).Occupied := by
  intro af' hbase
  show 0 < (Function.update m.vec af v af').len
  change (Function.update m.vec af v af').base ≠ none at hbase
  by_cases haf : af' = af
  · subst haf
    rwa [Function.update_self]
  · rw [Function.update_of_ne haf] at hbase ⊢
    exact h af' hbase

/-! ### `-4` and `-6` -/

/-- The array of a family was reallocated, with room for a chain and for a terminator. -/
structure Room (m : Machine) (xs : (af : Af) → List (ℕ × HostChain af)) (heap : Heap) (v : Vec af)
    (cell : Option (Entry af)) (rest : List (Option (Entry af))) : Prop where
  filled : v.Filled (xs af) (cell :: rest)
  rest : rest ≠ []
  owns : heap.blocks.Owns (v.blocks (xs af) ++ (m.vec af.other).blocks (xs af.other))
  kept : m.heap.Extends heap

section Chain

variable {env : Env af} {s : List Char} {ok : Allocs} {cell : Option (Entry af)}

theorem exists_room (h : m.Holds xs) (hsize : (m.vec af).len + 2 < 2 ^ 32) :
    ∃ heap v cell rest, m.heap.irealloc (m.vec af) ((m.vec af).len + 2) true =
      .ok (heap, v, true) ∧ m.Room xs heap v cell rest := by
  obtain ⟨rest, hfill, -⟩ := (h.vec af).filled
  have hlen := hfill.len
  obtain ⟨heap₁, v₁, rest₁, hrealloc, hfill₁, hroom, hown₁, hext₁⟩ :=
    hfill.irealloc (by omega) hsize (h.owns_of af)
  obtain ⟨cell, rest₁, rfl⟩ := List.exists_cons_of_length_pos (show 0 < rest₁.length by omega)
  rw [List.length_cons] at hroom
  exact ⟨heap₁, v₁, cell, rest₁, hrealloc, hfill₁, List.ne_nil_of_length_pos (by omega), hown₁,
    hext₁⟩

theorem chain_noroom (hirealloc : ok.irealloc = false) (hsize : (m.vec af).len + 2 < 2 ^ 32) :
    m.option (.chain af env s ok) = .ok (m, some (-1)) := by
  rw [option, chain, hirealloc, Heap.irealloc_fail (Nat.succ_pos _) hsize, ok_bind]
  dsimp only
  rw [if_neg Bool.false_ne_true, set_self]
  rfl

theorem chain_built {p : ℕ} {c : HostChain af} {heap₂ : Heap} (hirealloc : ok.irealloc = true)
    (hrealloc : m.heap.irealloc (m.vec af) ((m.vec af).len + 2) true = .ok (heap, v, true))
    (hroom : m.Room xs heap v cell rest)
    (hinit : heap.init env s ok = .ok (heap₂, .ok (Entry.of (p, c)))) :
    m.option (.chain af env s ok) = .ok ({ m.set af heap₂
      { v with cells := cellsOf (xs af) ++ some (Entry.of (p, c)) :: rest : Vec af }.grow
        with last := af }, none) := by
  rw [option, chain, hirealloc, hrealloc, ok_bind]
  dsimp only
  rw [if_pos rfl, hinit, ok_bind]
  dsimp only
  rw [Vec.write_eq hroom.filled.cells hroom.filled.len]
  rfl

theorem chain_failed {ret : ℤ} {heap₂ : Heap} (hirealloc : ok.irealloc = true)
    (hrealloc : m.heap.irealloc (m.vec af) ((m.vec af).len + 2) true = .ok (heap, v, true))
    (hroom : m.Room xs heap v cell rest)
    (hinit : heap.init env s ok = .ok (heap₂, .error ret)) :
    m.option (.chain af env s ok) =
      .ok (m.set af heap₂ { v with cells := cellsOf (xs af) ++ none :: rest }, some ret) := by
  rw [option, chain, hirealloc, hrealloc, ok_bind]
  dsimp only
  rw [if_pos rfl, hinit, ok_bind]
  dsimp only
  rw [Vec.write_eq hroom.filled.cells hroom.filled.len]
  rfl

/-- What a specification whose chain is not built leaves on the heap. -/
theorem init_fail (hfail : ok.malloc = true → ok.strdup = true → ∀ c, HostChain.init env s ≠ .ok c)
    (hwrap : ok.malloc = true → ok.strdup = true → NoWrap env s) (hown : heap.blocks.Owns ps) :
    ∃ heap' ret, heap.init env s ok = .ok (heap', .error ret) ∧ heap'.blocks.Owns ps ∧
      heap.Extends heap' := by
  by_cases hnull : ok.malloc = false ∨ ok.strdup = false
  · exact Heap.init_noalloc hnull hown
  · rw [not_or, Bool.not_eq_false, Bool.not_eq_false] at hnull
    cases hinit : HostChain.init env s with
    | ok c => exact absurd hinit (hfail hnull.1 hnull.2 c)
    | error e =>
      cases e with
      | errnum n => exact Heap.init_errnum hinit hown
      | overrun k =>
        exact absurd hinit ((hwrap hnull.1 hnull.2).init_ne_overrun k)

theorem Holds.push {p : ℕ} {c : HostChain af} {heap₂ : Heap} (h : m.Holds xs)
    (hroom : m.Room xs heap v cell rest) (hmax : (xs af).length + 1 < 2 ^ 32)
    (hext : heap.Extends heap₂) (hhosts : heap₂.hosts af p = c.buf) (hown : heap₂.blocks.Owns
      (p :: (v.blocks (xs af) ++ (m.vec af.other).blocks (xs af.other)))) :
    (m.set af heap₂ { v with
      cells := cellsOf (xs af) ++ some (Entry.of (p, c)) :: rest : Vec af }.grow).Holds
        (Function.update xs af (xs af ++ [(p, c)])) := by
  have hall := hroom.kept.trans hext
  refine h.set ⟨⟨rest, hroom.filled.push hmax, fun _ => hroom.rest⟩, ?_⟩
    (hown.perm (Vec.blocks_push (p, c))) hall
  exact List.forall_mem_append.mpr
    ⟨((h.vec af).of_extends h.lt_next hall).hosts, List.forall_mem_singleton.mpr hhosts⟩

/-- **The options `-4` and `-6`.** -/
theorem chain_agrees (hr : m.Represents a) (hocc : m.Occupied)
    (hguard : m.Guarded (.chain af env s ok)) : m.Agrees a (.chain af env s ok) := by
  obtain ⟨hsize, hinit⟩ := hguard
  have hrep := hr
  obtain ⟨hlast, xs, hxs, h⟩ := hr
  cases hirealloc : ok.irealloc with
  | false =>
    refine agrees_of_fail (chain_noroom hirealloc hsize) (build_chain_fail fun htrue => ?_) hrep
    rw [hirealloc] at htrue
    cases htrue
  | true =>
    obtain ⟨heap₁, v₁, cell, rest, hrealloc, hroom⟩ := exists_room h hsize
    by_cases hbuilt : ok.malloc = true ∧ ok.strdup = true ∧ ∃ c, HostChain.init env s = .ok c
    · obtain ⟨hmalloc, hstrdup, c, hc⟩ := hbuilt
      have hcut := (hinit hirealloc hmalloc hstrdup).2 ⟨c, hc⟩
      obtain ⟨heap₂, p, hchain, hown₂, hhosts₂, hext₂⟩ :=
        Heap.init_ok hc hmalloc hstrdup hcut hroom.owns
      have hlen := (h.vec af).len
      have hholds := h.push hroom (by omega) hext₂ hhosts₂ hown₂
      refine agrees_of_ok (chain_built hirealloc hrealloc hroom hchain)
        (build_chain hc hirealloc hmalloc hstrdup)
        ⟨rfl, _, map_update hxs ?_, hholds.vec, hholds.owns⟩ (hocc.set heap₂ ?_)
      · rw [List.map_append, hxs]
        rfl
      · rw [(hroom.filled.push (x := (p, c)) (by omega)).len]
        simp
    · have hnot (hmalloc : ok.malloc = true) (hstrdup : ok.strdup = true) (c : HostChain af)
          (hc : HostChain.init env s = .ok c) : False := hbuilt ⟨hmalloc, hstrdup, c, hc⟩
      obtain ⟨heap₂, ret, hchain, hown₂, hext₂⟩ := init_fail hnot
        (fun hmalloc hstrdup => (hinit hirealloc hmalloc hstrdup).1) hroom.owns
      have hall := hroom.kept.trans hext₂
      refine agrees_of_fail (chain_failed hirealloc hrealloc hroom hchain)
        (build_chain_fail fun _ => hnot) (.move hlast hxs h ⟨⟨_, hroom.filled.set_spare nofun,
          fun _ => List.cons_ne_nil _ _⟩, ?_⟩ hown₂ hall)
      exact ((h.vec af).of_extends h.lt_next hall).hosts

end Chain

/-! ### `-E` -/

section Dup

variable {optarg : List Char} {irealloc : Bool} {malloc : ℕ → Bool} {d : Dup m.last} {p : ℕ}
  {c : HostChain m.last} {chains : (af : Af) → List (HostChain af)}

theorem dup_eq (hpos : 0 < (m.vec m.last).len) (hd : parseDup m.last optarg = some d) :
    m.option (.dup optarg irealloc malloc) = (do
      let (heap, v, done) ←
        m.heap.irealloc (m.vec m.last) ((m.vec m.last).len + d.n + 1) irealloc
      if done then
        let base ← v.read (v.len - 1)
        if base.prefixLen < d.prefixLen then return (m.set m.last heap v, some 3)
        else
          let (heap, v, done) ← dupEntries (v.len - 1) d.step d.prefixLen malloc d.n 1 heap v
          return (m.set m.last heap v, if done then none else some (-1))
      else return (m.set m.last heap v, some (-1))) := by
  refine (if_neg hpos.ne').trans ?_
  rw [hd]

theorem Holds.exists_last (h : m.Holds xs) (hxs : ∀ af, (xs af).map Prod.snd = chains af)
    (hpos : 0 < (m.vec af).len) : ∃ p c, (xs af)[(m.vec af).len - 1]? = some (p, c) ∧
      (chains af).getLast? = some c := by
  have hlen := (h.vec af).len
  obtain ⟨⟨p, c⟩, hx⟩ : ∃ x, (xs af)[(m.vec af).len - 1]? = some x :=
    ⟨_, List.getElem?_eq_getElem (by omega)⟩
  refine ⟨p, c, hx, ?_⟩
  rw [← hxs, List.getLast?_map, List.getLast?_eq_getElem?, ← hlen, hx]
  rfl

theorem dup_agrees_of_realloc (h : m.Holds xs) (hxs : ∀ af, (xs af).map Prod.snd = chains af)
    (hocc : m.Occupied) (hguard : m.Guarded (.dup optarg true malloc))
    (hpos : 0 < (m.vec m.last).len) (hd : parseDup m.last optarg = some d)
    (hx : (xs m.last)[(m.vec m.last).len - 1]? = some (p, c))
    (hbase : (chains m.last).getLast? = some c) :
    m.Agrees ⟨chains, m.last⟩ (.dup optarg true malloc) := by
  obtain ⟨hsize, hfit⟩ := hguard d hpos hd
  obtain ⟨rest, hfill, -⟩ := (h.vec m.last).filled
  have hlen := hfill.len
  obtain ⟨heap₁, v₁, rest₁, hrealloc, hfill₁, hroom, hown₁, hext₁⟩ :=
    hfill.irealloc (by omega) hsize (h.owns_of m.last)
  have hlen₁ : v₁.len = (m.vec m.last).len := hfill₁.len.trans hlen.symm
  have hread : v₁.read (v₁.len - 1) = .ok (Entry.of (p, c)) :=
    Vec.read_eq hfill₁.cells (hlen₁ ▸ hx)
  have hkept := ((h.vec m.last).of_extends h.lt_next hext₁).hosts
  have hbuild : Main.build ⟨chains, m.last⟩ (.dup optarg true malloc) = _ := build_dup hbase hd
  have hopt : m.option (.dup optarg true malloc) = _ := dup_eq hpos hd
  rw [hrealloc, ok_bind] at hopt
  dsimp only at hopt
  rw [if_pos rfl, hread, ok_bind] at hopt
  rw [Bool.true_and] at hbuild
  by_cases hprefix : c.prefixLen < d.prefixLen
  · rw [if_neg (by simpa using hprefix)] at hbuild
    refine agrees_of_fail (hopt.trans (if_pos hprefix)) hbuild
      (.move rfl hxs h ⟨⟨rest₁, hfill₁, fun _ => ?_⟩, hkept⟩ hown₁ hext₁)
    exact List.ne_nil_of_length_pos (by omega)
  have hle : d.prefixLen ≤ c.prefixLen := Nat.le_of_not_lt hprefix
  have hrounds := hfit (Entry.of (p, c)) rfl (Vec.read_eq hfill.cells hx) hle
  obtain ⟨heap₂, v₂, zs, hloop, hholds, hchains, hown₂, hext₂⟩ := dupEntries_ok d.prefixLen
    hfill₁ (by omega) (hlen₁ ▸ hx) (by omega) hkept (by omega) hown₁ hrounds
  have hset := h.set hholds hown₂ (hext₁.trans hext₂)
  have hstay : chains m.last <+:
      (dupBuild c d.step d.prefixLen malloc d.n 1 (chains m.last)).1 := isPrefix_dupBuild
  replace hopt := hopt.trans (if_neg hprefix)
  rw [hloop, ok_bind, hxs] at hopt
  rw [if_pos (by simpa using hle)] at hbuild
  rw [hxs] at hchains
  dsimp only at hbuild
  generalize dupBuild c d.step d.prefixLen malloc d.n 1 (chains m.last) = built
    at hopt hbuild hchains hstay
  obtain ⟨chains', done⟩ := built
  dsimp only at hopt hbuild hchains hstay
  have hrep : (m.set m.last heap₂ v₂).Represents
      ⟨Function.update chains m.last chains', m.last⟩ := ⟨rfl, _, map_update hxs hchains, hset⟩
  cases done with
  | false => exact agrees_of_fail hopt hbuild hrep
  | true =>
    refine agrees_of_ok hopt hbuild hrep (hocc.set heap₂ ?_)
    have hlen₂ := hstay.length_le
    rw [← hxs, List.length_map, ← hchains, List.length_map, ← hlen] at hlen₂
    rw [hholds.len]
    exact hpos.trans_le hlen₂

/-- **The option `-E`.** -/
theorem dup_agrees (hr : m.Represents a) (hocc : m.Occupied)
    (hguard : m.Guarded (.dup optarg irealloc malloc)) :
    m.Agrees a (.dup optarg irealloc malloc) := by
  have hrep := hr
  obtain ⟨hlast, xs, hxs, h⟩ := hr
  obtain ⟨chains, last⟩ := a
  obtain rfl : m.last = last := hlast
  obtain hzero | hpos := Nat.eq_zero_or_pos (m.vec m.last).len
  · have hnil : chains m.last = [] := by
      have hlen := (h.vec m.last).len
      rw [hzero] at hlen
      exact (hxs m.last).symm.trans (List.map_eq_nil_iff.mpr (List.length_eq_zero_iff.mp hlen.symm))
    exact agrees_of_fail (if_pos hzero) (build_dup_nil hnil) hrep
  cases hd : parseDup m.last optarg with
  | none =>
    have hopt : m.option (.dup optarg irealloc malloc) = .ok (m, some 2) := by
      refine (if_neg hpos.ne').trans ?_
      rw [hd]
      rfl
    exact agrees_of_fail hopt (build_dup_none hd) hrep
  | some d =>
    obtain ⟨p, c, hx, hbase⟩ := h.exists_last hxs hpos
    cases irealloc with
    | false =>
      have hopt : m.option (.dup optarg false malloc) = _ := dup_eq hpos hd
      rw [Heap.irealloc_fail (Nat.succ_pos _) (hguard d hpos hd).1, ok_bind] at hopt
      dsimp only at hopt
      rw [if_neg Bool.false_ne_true, set_self] at hopt
      exact agrees_of_fail hopt (build_dup hbase hd) hrep
    | true => exact dup_agrees_of_realloc h hxs hocc hguard hpos hd hx hbase

end Dup

/-! ## The end of the option loop -/

/-- What `main` does with an array after the options: the branch for an empty one is not taken. -/
theorem Holds.settle {qsort : (af : Af) → List (Option (Entry af)) → List (Option (Entry af))}
    {cleared : Af} (h : m.Holds xs) (hsort : ∀ af l, (qsort af l).Perm l)
    (hocc : (m.vec af).base ≠ none → 0 < (m.vec af).len) :
    ∃ v ys, m.settle qsort af cleared = .ok (m.set af m.heap v) ∧
      (xs af ≠ [] → v.nitem = .ok (m.vec af).len) ∧ ys.Perm (xs af) ∧
        (m.set af m.heap v).Holds (Function.update xs af ys) := by
  rw [Machine.settle]
  split_ifs with hbase hzero
  · have hnil : xs af = [] := by
      by_contra hne
      exact (h.vec af).base_ne_none hne hbase
    refine ⟨m.vec af, xs af, ?_, fun hne => absurd hnil hne, .refl _, ?_⟩
    · rw [set_self]
    · rwa [set_self, Function.update_eq_self]
  · exact absurd hzero (hocc hbase).ne'
  · have hne : xs af ≠ [] := by
      rw [← List.length_pos_iff, ← (h.vec af).len]
      exact hocc hbase
    obtain ⟨v₁, v, ys, hwrite, hsorted, hnitem, hbase', hperm, hholds⟩ :=
      (h.vec af).terminate hne (hsort af)
    refine ⟨v, ys, ?_, fun _ => hnitem, hperm, h.set hholds ?_ (.refl _)⟩
    · rw [hwrite, ok_bind, hsorted]
      rfl
    · refine (h.owns_of af).perm ?_
      show ((m.vec af).base.toList ++ _ ++ _).Perm (v.base.toList ++ _ ++ _)
      rw [hbase']
      exact ((hperm.map _).symm.append_left _).append_right _

/-- **The end of the option loop**: both arrays are terminated, and hold the same chains. -/
theorem Represents.finish {qsort : (af : Af) → List (Option (Entry af)) → List (Option (Entry af))}
    (hr : m.Represents a) (hocc : m.Occupied) (hsort : ∀ af l, (qsort af l).Perm l) :
    ∃ m' a', m.finish qsort = .ok m' ∧
      (∀ af, a.chains af ≠ [] → (m'.vec af).nitem = .ok (m.vec af).len) ∧
        m'.Represents a' ∧ ∀ af, (a'.chains af).Perm (a.chains af) := by
  obtain ⟨hlast, xs, hxs, h⟩ := hr
  have hne (af : Af) (hchains : a.chains af ≠ []) : xs af ≠ [] := by
    rwa [← hxs, Ne, List.map_eq_nil_iff] at hchains
  obtain ⟨v, ys, hsettle, hnitem, hperm, h₁⟩ := h.settle hsort (hocc .inet)
  obtain ⟨v₆, ys₆, hsettle₆, hnitem₆, hperm₆, h₂⟩ := h₁.settle hsort (hocc .inet6)
  refine ⟨(m.set .inet m.heap v).set .inet6 m.heap v₆,
    ⟨fun af => (Function.update (Function.update xs .inet ys) .inet6 ys₆ af).map Prod.snd, m.last⟩,
    ?_, ?_, ⟨rfl, _, fun _ => rfl, h₂⟩, ?_⟩
  · rw [Machine.finish, hsettle, ok_bind]
    exact hsettle₆
  · intro af hchains
    cases af
    · exact hnitem (hne _ hchains)
    · exact hnitem₆ (hne _ hchains)
  · intro af
    rw [← hxs]
    cases af
    · exact hperm.map _
    · exact hperm₆.map _

/-! ## The whole run -/

/-- Every run keeps the books: no step comes to a fault, the arrays represent the chains built so
far, also when an option fails, the end of the loop finds as many chains as there are, and wherever
`main` ends, every block is freed once. -/
def Bookkeeps (opts : List AllocOpt) : Prop :=
  Related (fun stop a => ∃ m ret, stop = .fail m ret ∧ m.Represents a ∧ m.Released)
    (fun m a => m.Represents a ∧ m.Released ∧
      ∀ qsort : (af : Af) → List (Option (Entry af)) → List (Option (Entry af)),
        (∀ af l, (qsort af l).Perm l) → ∃ m', m.finish qsort = .ok m' ∧
          (∀ af, a.chains af ≠ [] → (m'.vec af).nitem = .ok (m.vec af).len) ∧ m'.Released)
    (run step start opts) (run Main.build Main.start opts)

theorem Represents.released (hr : m.Represents a) : m.Released := by
  obtain ⟨-, xs, -, h⟩ := hr
  exact h.released

theorem represents_start : start.Represents Main.start where
  last := rfl
  holds := by
    refine ⟨fun _ => [], fun _ => rfl, fun af => ⟨⟨[], ⟨rfl, rfl, fun _ => rfl, ?_⟩, ?_⟩, ?_⟩, ?_⟩
    · exact fun e he => absurd he List.not_mem_nil
    · exact fun hne => absurd rfl hne
    · exact fun x hx => absurd hx List.not_mem_nil
    · exact Ledger.owns_empty

/-- **Bookkeeping.** -/
theorem bookkeeps {opts : List AllocOpt}
    (h : ∀ m opt, Visits step start opts m opt → m.Guarded opt) : Bookkeeps opts := by
  have hrun : Related (fun stop a => ∃ m ret, stop = .fail m ret ∧ m.Represents a)
      (fun m a => m.Represents a ∧ m.Occupied)
      (run step start opts) (run Main.build Main.start opts) := by
    refine run_related (fun m a opt hvisit hr => ?_) ⟨represents_start, fun af hbase => ?_⟩
    · have hguard := h m opt hvisit
      cases opt with
      | chain af env s ok => exact chain_agrees hr.1 hr.2 hguard
      | dup optarg irealloc malloc => exact dup_agrees hr.1 hr.2 hguard
    · exact absurd rfl hbase
  refine hrun.imp ?_ ?_
  · rintro stop a ⟨m, ret, hstop, hr⟩
    exact ⟨m, ret, hstop, hr, hr.released⟩
  · rintro m a ⟨hr, hocc⟩
    refine ⟨hr, hr.released, fun qsort hsort => ?_⟩
    obtain ⟨m', a', hfinish, hnitem, hr', -⟩ := hr.finish hocc hsort
    exact ⟨m', hfinish, hnitem, hr'.released⟩

/-- The option `-4 10.0.0.1`, where all allocations but the last one succeed. -/
def optionSingle (realloc : Bool) : AllocOpt :=
  .chain .inet (.zeroed .inet) "10.0.0.1".toList ⟨true, true, true, realloc⟩

theorem noWrap_single : NoWrap (.zeroed .inet) "10.0.0.1".toList := by
  rintro i first last ⟨p, token, hvisit, -, -, -, hends, -⟩ -
  have htoken : token = "10.0.0.1".toList := List.mem_singleton.mp hvisit.mem
  rw [htoken] at hends
  cases hends

theorem bookkeeps_single : Bookkeeps [optionSingle true] :=
  bookkeeps fun m opt hvisit => by
    obtain ⟨rfl, rfl⟩ | ⟨m', -, hrest⟩ := visits_cons.mp hvisit
    · exact ⟨by decide, fun _ _ _ => ⟨noWrap_single, fun _ => rfl⟩⟩
    · exact absurd hrest not_visits_nil

/-- The numbers of chains after an option fit an `unsigned int`. -/
def Fits (m : Machine) : AllocOpt → Prop
  | .chain _ _ _ _ => (m.vec .inet).len + (m.vec .inet6).len + 1 < 2 ^ 32
  | .dup optarg _ _ => ∀ d, parseDup m.last optarg = some d →
    (m.vec .inet).len + (m.vec .inet6).len + d.n < 2 ^ 32

/-- A buffer that could not be reallocated is null when its end is written. -/
theorem not_bookkeeps : ¬ ∀ opts : List AllocOpt,
    (∀ m opt, Visits step start opts m opt → m.Fits opt) → Bookkeeps opts := by
  intro h
  have hbooks := h [optionSingle false] fun m opt hvisit => by
    obtain ⟨rfl, rfl⟩ | ⟨m', -, hrest⟩ := visits_cons.mp hvisit
    · exact show 0 + 0 + 1 < 2 ^ 32 by decide
    · exact absurd hrest not_visits_nil
  have hrun : run step start [optionSingle false] = .error (.fault .nullPointer) := rfl
  rw [Bookkeeps, hrun] at hbooks
  cases hbuild : run Main.build Main.start [optionSingle false] with
  | ok a => rw [hbuild] at hbooks; exact hbooks
  | error a =>
    rw [hbuild] at hbooks
    obtain ⟨m, ret, hstop, -⟩ := hbooks
    cases hstop

end Machine

end Rdnstun
