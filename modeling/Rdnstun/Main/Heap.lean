import Rdnstun.Main.Duplicate
import Rdnstun.Main.Memory

/-!
# The heap under the operations on chains

* `Heap.Extends`: the hosts in the blocks that were there before are kept.
* `free_owned`, `irealloc_ok`: the blocks in use after an allocation function.
* `init_ok`, `init_noalloc`, `init_errnum`, `copy_fail`, `round_ok`: the functions of `chain.c`,
  where the heap holds chains.
-/

namespace Rdnstun

open Run

variable {af : Af} {heap heap' heap'' : Heap} {p q : ℕ} {ps : List ℕ} {c c' : HostChain af}

namespace Heap

/-- Blocks are added, and those that were there keep their hosts. -/
structure Extends (heap heap' : Heap) : Prop where
  next_le : heap.blocks.next ≤ heap'.blocks.next
  hosts : ∀ af, ∀ p < heap.blocks.next, heap'.hosts af p = heap.hosts af p

theorem Extends.refl (heap : Heap) : heap.Extends heap := ⟨Nat.le_refl _, fun _ _ _ => rfl⟩

theorem Extends.trans (h : heap.Extends heap') (h' : heap'.Extends heap'') :
    heap.Extends heap'' where
  next_le := h.next_le.trans h'.next_le
  hosts af p hp := (h'.hosts af p (hp.trans_le h.next_le)).trans (h.hosts af p hp)

theorem store_self (l : List (FakeHost af)) : (heap.store p l).hosts af p = l := by
  simp [store]

theorem Extends.alloc (h : heap.Extends heap') :
    heap.Extends { heap' with blocks := heap'.blocks.alloc } where
  next_le := h.next_le.trans (Nat.le_succ _)
  hosts := h.hosts

theorem Extends.store (h : heap.Extends heap') (hp : heap.blocks.next ≤ p)
    (l : List (FakeHost af)) : heap.Extends (heap'.store p l) where
  next_le := h.next_le
  hosts af' q hq := by
    rw [← h.hosts af' q hq, Heap.store]
    dsimp only
    by_cases haf : af' = af
    · subst haf
      rw [Function.update_self, Function.update_of_ne (by omega)]
    · rw [Function.update_of_ne haf]

/-! ## Allocation functions -/

theorem free_owned {p : Option ℕ} (hown : heap.blocks.Owns (p.toList ++ ps)) :
    ∃ heap', heap.free p = .ok heap' ∧ heap'.blocks.Owns ps ∧ heap.Extends heap' := by
  cases p with
  | none => exact ⟨heap, rfl, hown, .refl heap⟩
  | some p =>
    obtain ⟨blocks, hfree, hown', hnext⟩ := hown.free
    refine ⟨{ heap with blocks }, ?_, hown', ⟨hnext.ge, fun _ _ _ => rfl⟩⟩
    rw [free, hfree]

theorem malloc_owned (heap : Heap) (ok : Bool) (hown : heap.blocks.Owns ps) :
    (heap.malloc ok).1.blocks.Owns ((heap.malloc ok).2.toList ++ ps) ∧
      heap.Extends (heap.malloc ok).1 := by
  cases ok
  · exact ⟨hown, .refl heap⟩
  · exact ⟨hown.alloc, (Extends.refl heap).alloc⟩

theorem malloc_eq_none {ok : Bool} : (heap.malloc ok).2 = none ↔ ok = false := by
  cases ok <;> simp [malloc]

theorem initFail_owned {buf s : Option ℕ} {ret : ℤ}
    (hown : heap.blocks.Owns (s.toList ++ (buf.toList ++ ps))) :
    ∃ heap', heap.initFail buf s ret = .ok (heap', .error (α := Entry af) ret) ∧
      heap'.blocks.Owns ps ∧ heap.Extends heap' := by
  have hswap : heap.blocks.Owns (buf.toList ++ (s.toList ++ ps)) := by
    refine hown.perm ?_
    rw [← List.append_assoc, ← List.append_assoc]
    exact List.perm_append_comm.append_right ps
  obtain ⟨heap₁, hfree₁, hown₁, hext₁⟩ := free_owned hswap
  obtain ⟨heap₂, hfree₂, hown₂, hext₂⟩ := free_owned hown₁
  refine ⟨heap₂, ?_, hown₂, hext₁.trans hext₂⟩
  rw [initFail, hfree₁, ok_bind, hfree₂]
  rfl

theorem irealloc_fail {v : Vec af} {count : ℕ} (hcount : 0 < count) (hmax : count < 2 ^ 32) :
    heap.irealloc v count false = .ok (heap, v, false) := by
  rw [irealloc, Nat.mod_eq_of_lt hmax]
  exact if_neg hcount.ne'

theorem irealloc_ok {v : Vec af} {count : ℕ} (hcount : 0 < count) (hmax : count < 2 ^ 32)
    (hown : heap.blocks.Owns (v.base.toList ++ ps)) :
    ∃ heap' p, heap.irealloc v count true = .ok (heap', { v with
        base := some p
        cells := v.cells.take count ++ List.replicate (count - v.cells.length) none }, true) ∧
      heap'.blocks.Owns (p :: ps) ∧ heap.Extends heap' := by
  obtain ⟨heap₁, hfree, hown₁, hext⟩ := free_owned hown
  refine ⟨{ heap₁ with blocks := heap₁.blocks.alloc }, heap₁.blocks.next, ?_, hown₁.alloc, ?_⟩
  · rw [irealloc, Nat.mod_eq_of_lt hmax]
    dsimp only
    rw [if_neg hcount.ne', if_pos rfl, hfree]
    rfl
  · exact hext.alloc

/-! ## Chains -/

end Heap

/-- The entry of a chain whose hosts are in a block. -/
def Entry.of (x : ℕ × HostChain af) : Entry af := ⟨some x.1, x.2.network, x.2.prefixLen⟩

namespace Heap

variable {env : Env af} {s : List Char} {ok : Allocs}

theorem init_ok (hinit : HostChain.init env s = .ok c) (hmalloc : ok.malloc = true)
    (hstrdup : ok.strdup = true) (hrealloc : ok.realloc = true) (hown : heap.blocks.Owns ps) :
    ∃ heap' p, heap.init env s ok = .ok (heap', .ok (Entry.of (p, c))) ∧
      heap'.blocks.Owns (p :: ps) ∧ heap'.hosts af p = c.buf ∧ heap.Extends heap' := by
  obtain ⟨hown₁, hext₁⟩ := malloc_owned heap true hown
  obtain ⟨hown₂, hext₂⟩ := malloc_owned (heap.malloc true).1 true hown₁
  obtain ⟨heap₃, hfree₃, hown₃, hext₃⟩ := free_owned hown₂
  obtain ⟨heap₄, hfree₄, hown₄, hext₄⟩ := free_owned hown₃
  have hext := ((hext₁.trans hext₂).trans hext₃).trans hext₄
  refine ⟨{ heap₄ with blocks := heap₄.blocks.alloc }.store heap₄.blocks.next c.buf,
    heap₄.blocks.next, ?_, hown₄.alloc, store_self _, ?_⟩
  · rw [init, hmalloc, hstrdup, hinit, hrealloc]
    show (free ((heap.malloc true).1.malloc true).1 ((heap.malloc true).1.malloc true).2 >>= _) = _
    rw [hfree₃, ok_bind, if_pos rfl]
    show (heap₃.free (heap.malloc true).2 >>= _) = _
    rw [hfree₄]
    rfl
  · exact hext.alloc.store hext.next_le _

theorem init_noalloc (hfail : ok.malloc = false ∨ ok.strdup = false)
    (hown : heap.blocks.Owns ps) :
    ∃ heap' ret, heap.init env s ok = .ok (heap', .error ret) ∧ heap'.blocks.Owns ps ∧
      heap.Extends heap' := by
  obtain ⟨hown₁, hext₁⟩ := malloc_owned heap ok.malloc hown
  obtain ⟨hown₂, hext₂⟩ := malloc_owned (heap.malloc ok.malloc).1 ok.strdup hown₁
  obtain ⟨heap₃, hlabel, hown₃, hext₃⟩ := initFail_owned hown₂
  refine ⟨heap₃, -1, ?_, hown₃, (hext₁.trans hext₂).trans hext₃⟩
  rw [← malloc_eq_none, ← malloc_eq_none] at hfail
  exact (if_pos hfail).trans hlabel

theorem init_errnum {n : ℕ} (hinit : HostChain.init env s = .error (.errnum n))
    (hown : heap.blocks.Owns ps) :
    ∃ heap' ret, heap.init env s ok = .ok (heap', .error ret) ∧ heap'.blocks.Owns ps ∧
      heap.Extends heap' := by
  by_cases hnull : ok.malloc = false ∨ ok.strdup = false
  · exact init_noalloc hnull hown
  obtain ⟨hown₁, hext₁⟩ := malloc_owned heap ok.malloc hown
  obtain ⟨hown₂, hext₂⟩ := malloc_owned (heap.malloc ok.malloc).1 ok.strdup hown₁
  obtain ⟨heap₃, hlabel, hown₃, hext₃⟩ := initFail_owned hown₂
  refine ⟨heap₃, n, ?_, hown₃, (hext₁.trans hext₂).trans hext₃⟩
  rw [← malloc_eq_none, ← malloc_eq_none] at hnull
  refine (if_neg hnull).trans ?_
  rw [hinit]
  exact hlabel

theorem load_eq (hlive : heap.blocks.Live p) (hhosts : heap.hosts af p = c.buf) :
    heap.load af (some p) = .ok (p, c.buf) := by
  rw [load, if_pos hlive, hhosts, if_pos (List.any_eq_true.mpr c.terminated)]

theorem copy_fail (hlive : heap.blocks.Live p) (hhosts : heap.hosts af p = c.buf) :
    heap.copy (Entry.of (p, c)) false =
      .ok (heap, { Entry.of (p, c) with buf := none }, false) := by
  rw [copy, Entry.of, load_eq hlive hhosts]
  rfl

/-- **One round** of the loop of a duplication: a copy in a new block, shifted. -/
theorem round_ok {step prefixLen i : ℕ} (h : dupAt c step prefixLen i = .ok c')
    (hown : heap.blocks.Owns ps) (hp : p ∈ ps) (hhosts : heap.hosts af p = c.buf) :
    ∃ heap₁ heap₂ q, heap.copy (Entry.of (p, c)) true = .ok (heap₁, Entry.of (q, c.copy), true) ∧
      heap₁.shift (Entry.of (q, c.copy)) (step * i : ℕ) prefixLen =
        .ok (heap₂, Entry.of (q, c')) ∧
      heap₂.blocks.Owns (q :: ps) ∧ heap₂.hosts af q = c'.buf ∧ heap.Extends heap₂ := by
  have hext := ((Extends.refl heap).alloc.store (Nat.le_refl _) c.copy.buf)
  generalize hheap₁ : { heap with blocks := heap.blocks.alloc }.store heap.blocks.next c.copy.buf =
    heap₁ at hext
  have hhosts₁ : heap₁.hosts af heap.blocks.next = c.copy.buf := hheap₁ ▸ store_self _
  have hown₁ : heap₁.blocks.Owns (heap.blocks.next :: ps) := hheap₁ ▸ hown.alloc
  have hlive₁ := hown₁.live List.mem_cons_self
  have hcopy : heap.copy (Entry.of (p, c)) true =
      .ok (heap₁, Entry.of (heap.blocks.next, c.copy), true) := by
    rw [copy, Entry.of, load_eq (hown.live hp) hhosts, ← hheap₁]
    rfl
  unfold dupAt HostChain.shift at h
  dsimp only at h
  split_ifs at h
  cases hshift : inetShift c.copy.network (step * i : ℕ) prefixLen with
  | none =>
    rw [hshift] at h
    cases h
    refine ⟨heap₁, heap₁, _, hcopy, ?_, hown₁, hhosts₁, hext⟩
    rw [shift, Entry.of, hshift]
    rfl
  | some network =>
    rw [hshift] at h
    cases h
    refine ⟨heap₁, heap₁.store heap.blocks.next (HostChain.shiftLoop (step * i : ℕ) prefixLen
      c.copy.buf), _, hcopy, ?_, hown₁, store_self _, hext.store (Nat.le_refl _) _⟩
    rw [shift, Entry.of, hshift]
    dsimp only
    rw [load_eq hlive₁ hhosts₁]
    rfl

end Heap

end Rdnstun
