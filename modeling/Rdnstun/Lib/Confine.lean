import Rdnstun.Lib.Memory

/-!
# Confined transformers

A transformer of memory is confined to a buffer of `n` bytes if it changes no byte behind the buffer
and what it leaves in the buffer depends on no byte behind it.

* `ReadsBelow`: a value that depends on the buffer only.
* `Confined`: `confined_set`, `confined_write`, `confined_copy` for the stores, whose ranges are to
  lie in the buffer.
* `Confined.comp`, `Confined.bind`: one transformer after the other, and one that is chosen by a
  value of the buffer.
-/

namespace Memory

variable {α β : Type*} {n a b k : ℕ} {f f' : Mem → Mem} {g : Mem → α}

/-! ## Values -/

/-- A value that depends on the first `n` bytes only. -/
def ReadsBelow (n : ℕ) (g : Mem → α) : Prop := ∀ m m', Agree n m m' → g m = g m'

theorem readsBelow_byte (h : k < n) : ReadsBelow n fun m => m k := fun _ _ hm => hm k h

theorem ReadsBelow.map (hg : ReadsBelow n g) (i : α → β) : ReadsBelow n fun m => i (g m) :=
  fun m m' hm => congrArg i (hg m m' hm)

theorem ReadsBelow.bind {i : α → Mem → β} (hg : ReadsBelow n g) (hi : ∀ x, ReadsBelow n (i x)) :
    ReadsBelow n fun m => i (g m) m := by
  intro m m' hm
  dsimp only
  rw [hg m m' hm]
  exact hi _ m m' hm

/-! ## Transformers -/

/-- Nothing behind the first `n` bytes is changed, nor does it matter to them. -/
structure Confined (n : ℕ) (f : Mem → Mem) : Prop where
  frame : ∀ m k, n ≤ k → f m k = m k
  agree : ∀ m m', Agree n m m' → Agree n (f m) (f m')

theorem ReadsBelow.comp (hg : ReadsBelow n g) (hf : Confined n f) :
    ReadsBelow n fun m => g (f m) :=
  fun m m' hm => hg _ _ (hf.agree m m' hm)

theorem confined_id : Confined n fun m => m := ⟨fun _ _ _ => rfl, fun _ _ hm => hm⟩

theorem Confined.comp (hf' : Confined n f') (hf : Confined n f) :
    Confined n fun m => f' (f m) where
  frame m k hk := (hf'.frame (f m) k hk).trans (hf.frame m k hk)
  agree m m' hm := hf'.agree _ _ (hf.agree m m' hm)

theorem Confined.bind {i : α → Mem → Mem} (hg : ReadsBelow n g) (hi : ∀ x, Confined n (i x)) :
    Confined n fun m => i (g m) m where
  frame m k hk := (hi (g m)).frame m k hk
  agree m m' hm := by
    rw [hg m m' hm]
    exact (hi _).agree m m' hm

theorem confined_set (x : UInt8) (h : a < n) : Confined n fun m => set m a x where
  frame m k hk := set_of_ne x (by omega)
  agree m m' hm := hm.set a x

theorem confined_write {l : List UInt8} (h : a + l.length ≤ n) :
    Confined n fun m => write m a l where
  frame m k hk := write_of_ge (by omega)
  agree m m' hm := hm.write a l

theorem confined_copy (ha : a + k ≤ n) (hb : b + k ≤ n) : Confined n fun m => copy m a b k where
  frame m i hi := copy_of_ge b (by omega)
  agree m m' hm := hm.copy hb

end Memory
