import Rdnstun.Main.Bookkeeping

/-!
# Options that are carried out

An option that is carried out has reached no computation that goes wrong: a step that wraps or
overflows, or that lacks a buffer, does not end well.

* `guarded_chain`, `guarded_dup`: the options `-4` and `-6`, and the option `-E`.
* **`guarded_of_step`**: every option.
-/

namespace Rdnstun

open Run

variable {af : Af} {heap heap' : Heap} {v v' : Vec af}

theorem Vec.lt_of_write {i : ℕ} {cell : Option (Entry af)} (h : v.write i cell = .ok v') :
    i < v.cells.length := by
  rw [write] at h
  split_ifs at h with hi
  exact hi

theorem Vec.lt_of_read {i : ℕ} {e : Entry af} (h : v.read i = .ok e) : i < v.cells.length := by
  by_contra hi
  rw [read, List.getElem?_eq_none (Nat.le_of_not_lt hi)] at h
  cases h

/-- A reallocated array has as many entries as its 32-bit size says. -/
theorem Heap.irealloc_cells {count : ℕ} {ok : Bool}
    (h : heap.irealloc v count ok = .ok (heap', v', true)) :
    v'.len = v.len ∧ v'.cells.length = count % 2 ^ 32 := by
  rw [irealloc] at h
  dsimp only at h
  split_ifs at h
  · obtain ⟨heap₁, -, h⟩ := bind_eq_ok h
    cases h
    refine ⟨rfl, ?_⟩
    rw [List.length_append, List.length_take, List.length_replicate]
    omega
  · cases h

/-- A chain is built from a specification that is accepted, and its buffer was cut. -/
theorem Heap.of_init {env : Env af} {s : List Char} {ok : Allocs} {self : Entry af}
    (h : heap.init env s ok = .ok (heap', .ok self)) :
    (∃ c, HostChain.init env s = .ok c) ∧ ok.realloc = true := by
  rw [init] at h
  dsimp only at h
  split at h
  · obtain ⟨heap₁, -, h⟩ := bind_eq_ok h
    obtain ⟨heap₂, -, h⟩ := bind_eq_ok h
    cases h
  split at h
  · cases h
  · obtain ⟨heap₁, -, h⟩ := bind_eq_ok h
    obtain ⟨heap₂, -, h⟩ := bind_eq_ok h
    cases h
  · next c hinit =>
    obtain ⟨heap₁, -, h⟩ := bind_eq_ok h
    split_ifs at h with hrealloc
    exact ⟨⟨c, hinit⟩, hrealloc⟩

namespace Machine

variable {m m' : Machine}

theorem roundsFit_of_dupEntries {b step prefixLen i count : ℕ} {malloc : ℕ → Bool}
    (h : dupEntries b step prefixLen malloc count i heap v = .ok (heap', v', true)) :
    RoundsFit step malloc i count := by
  induction count generalizing i heap v with
  | zero => exact fun j hj => absurd hj (Nat.not_lt_zero j)
  | succ count ih =>
    rw [dupEntries] at h
    obtain ⟨base, -, h⟩ := bind_eq_ok h
    obtain ⟨⟨heap₁, self, done⟩, -, h⟩ := bind_eq_ok h
    obtain ⟨v₁, -, h⟩ := bind_eq_ok h
    obtain rfl : done = true := by
      by_contra hdone
      rw [if_neg hdone] at h
      cases h
    have hint : step * i ≤ INT_MAX := by
      by_contra hint
      rw [if_pos rfl, if_neg hint] at h
      cases h
    rw [if_pos rfl, if_pos hint] at h
    obtain ⟨⟨heap₂, self₂⟩, -, h⟩ := bind_eq_ok h
    obtain ⟨v₂, -, h⟩ := bind_eq_ok h
    split_ifs at h with hcounter
    rintro (_ | j) hj hmalloc
    · exact ⟨hint, hcounter⟩
    · have hround := ih h j (Nat.lt_of_succ_lt_succ hj) fun k hk => by
        rw [Nat.add_assoc, Nat.add_comm 1 k]
        exact hmalloc (k + 1) (Nat.succ_le_succ hk)
      rwa [Nat.add_assoc, Nat.add_comm 1 j] at hround

theorem guarded_chain {env : Env af} {s : List Char} {ok : Allocs}
    (h : m.option (.chain af env s ok) = .ok (m', none)) : m.Guarded (.chain af env s ok) := by
  rw [option, chain] at h
  obtain ⟨⟨heap, v, done⟩, hrealloc, h⟩ := bind_eq_ok h
  dsimp only at h
  cases done with
  | false => cases h
  | true =>
    rw [if_pos rfl] at h
    obtain ⟨⟨heap₁, self⟩, hinit, h⟩ := bind_eq_ok h
    cases self with
    | error ret =>
      obtain ⟨v₁, -, h⟩ := bind_eq_ok h
      cases h
    | ok self =>
      obtain ⟨v₁, hwrite, -⟩ := bind_eq_ok h
      obtain ⟨hlen, hcells⟩ := Heap.irealloc_cells hrealloc
      have hlt := Vec.lt_of_write hwrite
      obtain ⟨⟨c, hc⟩, hcut⟩ := Heap.of_init hinit
      refine ⟨by omega, fun _ _ _ => ⟨noWrap_of_init hc, fun _ => hcut⟩⟩

theorem guarded_dup {optarg : List Char} {irealloc : Bool} {malloc : ℕ → Bool}
    (h : m.option (.dup optarg irealloc malloc) = .ok (m', none)) :
    m.Guarded (.dup optarg irealloc malloc) := by
  intro d hpos hd
  rw [dup_eq hpos hd] at h
  obtain ⟨⟨heap, v, done⟩, hrealloc, h⟩ := bind_eq_ok h
  dsimp only at h
  cases done with
  | false => cases h
  | true =>
    rw [if_pos rfl] at h
    obtain ⟨base, hread, h⟩ := bind_eq_ok h
    split_ifs at h with hprefix
    · cases h
    obtain ⟨⟨heap₁, v₁, done⟩, hloop, h⟩ := bind_eq_ok h
    cases done with
    | false => cases h
    | true =>
      obtain ⟨hlen, hcells⟩ := Heap.irealloc_cells hrealloc
      have hlt := Vec.lt_of_read hread
      have hn : d.n ≤ 2147483647 := d.n_le
      exact ⟨by omega, fun _ _ _ _ => roundsFit_of_dupEntries hloop⟩

/-- **An option that is carried out** reaches no computation that goes wrong. -/
theorem guarded_of_step {opt : AllocOpt} (h : m.step opt = .ok m') : m.Guarded opt := by
  rw [step] at h
  split at h
  · cases h
  · next hopt =>
    cases opt with
    | chain af env s ok => exact guarded_chain hopt
    | dup optarg irealloc malloc => exact guarded_dup hopt
  · cases h

end Machine

end Rdnstun
