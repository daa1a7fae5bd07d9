import Mathlib

/-!
# Byte-addressed memory

A memory maps every address to a byte. `set`, `write`, `copy` store a byte, a string, a block
(`copy` reads all its bytes before it stores, as a structure assignment does); `read` loads a
string. For each store there is one lemma inside its range and one outside, at a byte and at a
string.

`Agree n m m'`: the two memories hold the same first `n` bytes.
-/

namespace Memory

/-- The bytes from a base address on. -/
abbrev Mem := ℕ → UInt8

/-- Store one byte. -/
def set (m : Mem) (a : ℕ) (b : UInt8) : Mem := fun k => if k = a then b else m k

/-- Store a string. -/
def write (m : Mem) (a : ℕ) (l : List UInt8) : Mem :=
  fun k => if a ≤ k then l.getD (k - a) (m k) else m k

/-- Store at `dst` the `n` bytes that stand at `src`. -/
def copy (m : Mem) (dst src n : ℕ) : Mem :=
  fun k => if dst ≤ k ∧ k < dst + n then m (src + (k - dst)) else m k

/-- Load a string. -/
def read (m : Mem) (a n : ℕ) : List UInt8 := (List.range n).map fun k => m (a + k)

variable {m m' : Mem} {a b k n : ℕ} {l : List UInt8}

/-! ## Bytes -/

@[simp] theorem set_self (m : Mem) (a : ℕ) (b : UInt8) : set m a b a = b := if_pos rfl

theorem set_of_ne (b : UInt8) (h : k ≠ a) : set m a b k = m k := if_neg h

theorem write_at (m : Mem) (a : ℕ) (h : k < l.length) : write m a l (a + k) = l[k] := by
  rw [write, if_pos (by omega), Nat.add_sub_cancel_left, List.getD_eq_getElem _ _ h]

theorem write_of_lt (l : List UInt8) (h : k < a) : write m a l k = m k := if_neg (by omega)

theorem write_of_ge (h : a + l.length ≤ k) : write m a l k = m k := by
  rw [write, if_pos (by omega), List.getD_eq_default _ _ (by omega)]

theorem copy_at (m : Mem) (a b : ℕ) (h : k < n) : copy m a b n (a + k) = m (b + k) := by
  rw [copy, if_pos (by omega), Nat.add_sub_cancel_left]

theorem copy_of_lt (b n : ℕ) (h : k < a) : copy m a b n k = m k := if_neg (by omega)

theorem copy_of_ge (b : ℕ) (h : a + n ≤ k) : copy m a b n k = m k := if_neg (by omega)

/-! ## Strings -/

@[simp] theorem length_read (m : Mem) (a n : ℕ) : (read m a n).length = n := by simp [read]

@[simp] theorem getElem_read (m : Mem) (a n : ℕ) {k : ℕ} (h : k < (read m a n).length) :
    (read m a n)[k] = m (a + k) := by simp [read]

theorem read_congr {a a' : ℕ} (h : ∀ k < n, m (a + k) = m' (a' + k)) :
    read m a n = read m' a' n := by
  refine List.ext_getElem (by simp) fun k hk _ => ?_
  rw [getElem_read, getElem_read]
  exact h k (by simpa using hk)

theorem eq_of_read_eq {a' : ℕ} (h : read m a n = read m' a' n) (hk : k < n) :
    m (a + k) = m' (a' + k) := by
  have hbyte : (read m a n)[k]? = (read m' a' n)[k]? := by rw [h]
  rw [List.getElem?_eq_getElem (by simpa using hk), List.getElem?_eq_getElem (by simpa using hk),
    getElem_read, getElem_read] at hbyte
  exact Option.some_inj.mp hbyte

theorem read_add (m : Mem) (a i j : ℕ) : read m a (i + j) = read m a i ++ read m (a + i) j := by
  rw [read, read, read, List.range_add, List.map_append, List.map_map]
  refine congrArg _ (List.map_congr_left fun k _ => ?_)
  rw [Function.comp_apply, Nat.add_assoc]

theorem read_write (m : Mem) (a : ℕ) (h : l.length = n) : read (write m a l) a n = l := by
  refine List.ext_getElem (by simp [h]) fun k _ hk => ?_
  rw [getElem_read, write_at m a hk]

theorem read_write_of_disjoint (h : b + n ≤ a ∨ a + l.length ≤ b) :
    read (write m a l) b n = read m b n := by
  refine read_congr fun k hk => ?_
  rcases h with h | h
  · exact write_of_lt l (by omega)
  · exact write_of_ge (by omega)

theorem read_set_of_disjoint (x : UInt8) (h : a < b ∨ b + n ≤ a) :
    read (set m a x) b n = read m b n :=
  read_congr fun _ _ => set_of_ne x (by omega)

/-! ## Agreement -/

/-- The same first `n` bytes. -/
def Agree (n : ℕ) (m m' : Mem) : Prop := ∀ k < n, m k = m' k

theorem Agree.mono {i : ℕ} (h : Agree n m m') (hi : i ≤ n) : Agree i m m' :=
  fun k hk => h k (by omega)

theorem agree_set_of_le (m : Mem) (x : UInt8) (h : n ≤ a) : Agree n m (set m a x) :=
  fun _ hk => (set_of_ne x (by omega)).symm

theorem Agree.read_eq (h : Agree n m m') (hk : a + k ≤ n) : read m a k = read m' a k :=
  read_congr fun i hi => h (a + i) (by omega)

theorem Agree.set (h : Agree n m m') (a : ℕ) (x : UInt8) : Agree n (set m a x) (set m' a x) := by
  intro k hk
  by_cases hka : k = a
  · rw [hka, set_self, set_self]
  · rw [set_of_ne x hka, set_of_ne x hka, h k hk]

theorem Agree.write (h : Agree n m m') (a : ℕ) (l : List UInt8) :
    Agree n (write m a l) (write m' a l) := by
  intro k hk
  simp only [Memory.write, h k hk]

theorem Agree.copy (h : Agree n m m') {a b i : ℕ} (hb : b + i ≤ n) :
    Agree n (copy m a b i) (copy m' a b i) := by
  intro k hk
  simp only [Memory.copy]
  split_ifs with hc
  · exact h _ (by omega)
  · exact h k hk

/-- A block copied to the end of what agrees agrees too. -/
theorem Agree.copy_extend (h : Agree n m m') {a b i : ℕ} (ha : a ≤ n) (hb : b + i ≤ n) :
    Agree (a + i) (Memory.copy m a b i) (Memory.copy m' a b i) := by
  intro k hk
  simp only [Memory.copy]
  split_ifs with hc
  · exact h _ (by omega)
  · exact h k (by omega)

end Memory
