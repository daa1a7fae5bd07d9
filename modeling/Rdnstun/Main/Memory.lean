import Rdnstun.Lib.Ledger
import Rdnstun.Main.Model

/-!
# The arrays of chains in memory

The model of `main` as far as it allocates, fills and releases the two arrays of chains. Every
allocation may fail; a new block never is at the place of another one.

* `Heap`, `Entry`, `Vec`: the blocks, `struct HostChain`, and an array with its length.
* `Heap.init`, `Heap.copy`, `Heap.shift`: the functions of `chain.c` that the options call.
* `Machine.option`, `Machine.step`: an option, and whether it goes to `fail`.
* `Machine.finish`, `Machine.cleanup`: the end of the option loop and of `main`.
-/

namespace Rdnstun

variable {af : Af}

/-- What goes wrong in the arrays and the descriptors. Not told are misaligned accesses in a shift
(`duplicateAt`), shifts by the width of their operand, and the reading of bytes of addresses that
were not written. -/
inductive Fault where
  | outOfBounds | uninitialized | nullPointer | notLive | zeroSize | overflow | unreachable
  deriving DecidableEq

/-- The blocks, and the hosts in those that are buffers of hosts. -/
structure Heap where
  blocks : Ledger
  hosts : (af : Af) → ℕ → List (FakeHost af)

/-- `struct HostChain`; the flag `v6` is the index. -/
structure Entry (af : Af) where
  buf : Option ℕ
  network : Addr af
  prefixLen : ℕ

/-- An entry that is zeroed. -/
def Entry.zero (af : Af) : Entry af := ⟨none, .any af, 0⟩

/-- `v4_chains` and `v4_chains_len`, or the variables for IPv6, with the entries of the block; an
entry that is not initialised is `none`. -/
structure Vec (af : Af) where
  base : Option ℕ
  cells : List (Option (Entry af))
  len : ℕ

/-! ## The heap -/

namespace Heap

def start : Heap := ⟨.empty, fun _ _ => []⟩

/-- `malloc`. -/
def malloc (heap : Heap) (ok : Bool) : Heap × Option ℕ :=
  if ok then ({ heap with blocks := heap.blocks.alloc }, some heap.blocks.next) else (heap, none)

/-- `free`. -/
def free (heap : Heap) : Option ℕ → Except Fault Heap
  | none => .ok heap
  | some p =>
    match heap.blocks.free p with
    | none => .error .notLive
    | some blocks => .ok { heap with blocks }

/-- A buffer, and the hosts in it up to its end; `HostChain_nitem` finds a null host among them. -/
def load (heap : Heap) (af : Af) : Option ℕ → Except Fault (ℕ × List (FakeHost af))
  | none => .error .nullPointer
  | some p =>
    if heap.blocks.Live p then
      if (heap.hosts af p).any FakeHost.isnull then .ok (p, heap.hosts af p)
      else .error .outOfBounds
    else .error .notLive

/-- The hosts of a buffer are set. -/
def store (heap : Heap) (p : ℕ) (hosts : List (FakeHost af)) : Heap :=
  { heap with hosts := Function.update heap.hosts af (Function.update (heap.hosts af) p hosts) }

/-! ## Chains -/

/-- `HostChain_copy`; whether it succeeds, and the entry that it leaves. -/
def copy (heap : Heap) (other : Entry af) (ok : Bool) : Except Fault (Heap × Entry af × Bool) := do
  let (_, hosts) ← heap.load af other.buf
  let len := hosts.findIdx FakeHost.isnull + 1
  match heap.malloc ok with
  | (heap, none) => return (heap, { other with buf := none }, false)
  | (heap, some p) => return (heap.store p (hosts.take len), { other with buf := some p }, true)

/-- `HostChain_shift`; its result is not looked at. -/
def shift (heap : Heap) (self : Entry af) (offset : ℤ) (prefixLen : ℕ) :
    Except Fault (Heap × Entry af) :=
  match inetShift self.network offset prefixLen with
  | none => return (heap, self)
  | some network => do
    let (p, hosts) ← heap.load af self.buf
    return (heap.store p (HostChain.shiftLoop offset prefixLen hosts), { self with network })

/-- The label `fail` of `HostChain_init`. -/
def initFail (heap : Heap) (buf s : Option ℕ) (ret : ℤ) :
    Except Fault (Heap × Except ℤ (Entry af)) := do
  let heap ← heap.free buf
  let heap ← heap.free s
  return (heap, .error ret)

end Heap

/-- Which allocations succeed for an option `-4` or `-6`: that of the array, and those of
`HostChain_init`, the last of which cuts the buffer to its size. -/
structure Allocs where
  irealloc : Bool
  malloc : Bool
  strdup : Bool
  realloc : Bool

/-- `HostChain_init`. Its last allocation is not checked. -/
def Heap.init (heap : Heap) (env : Env af) (s : List Char) (ok : Allocs) :
    Except Fault (Heap × Except ℤ (Entry af)) :=
  let (heap, buf) := heap.malloc ok.malloc
  let (heap, s') := heap.malloc ok.strdup
  if buf = none ∨ s' = none then heap.initFail buf s' (-1)
  else
    match HostChain.init env s with
    | .error (.overrun _) => .error .outOfBounds
    | .error (.errnum n) => heap.initFail buf s' n
    | .ok c => do
      let heap ← heap.free s'
      if ok.realloc then
        let heap ← heap.free buf
        let p := heap.blocks.next
        let heap := { heap with blocks := heap.blocks.alloc }
        return (heap.store p c.buf, .ok ⟨some p, c.network, c.prefixLen⟩)
      else .error .nullPointer

/-! ## Arrays -/

namespace Vec

def start (af : Af) : Vec af := ⟨none, [], 0⟩

/-- The entry at a position is read. -/
def read (v : Vec af) (i : ℕ) : Except Fault (Entry af) :=
  match v.cells[i]? with
  | none => .error .outOfBounds
  | some none => .error .uninitialized
  | some (some e) => .ok e

/-- The entry at a position is written. -/
def write (v : Vec af) (i : ℕ) (cell : Option (Entry af)) : Except Fault (Vec af) :=
  if i < v.cells.length then .ok { v with cells := v.cells.set i cell } else .error .outOfBounds

/-- `v4_chains_len++`. -/
def grow (v : Vec af) : Vec af := { v with len := (v.len + 1) % 2 ^ 32 }

/-- The loop of `HostChainArray_nitem`. -/
def nitemLoop : List (Option (Entry af)) → ℕ → Except Fault ℕ
  | [], _ => .error .outOfBounds
  | none :: _, _ => .error .uninitialized
  | some e :: cells, i => if e.buf = none then .ok i else nitemLoop cells (i + 1)

/-- `HostChainArray_nitem`. -/
def nitem (v : Vec af) : Except Fault ℕ := nitemLoop v.cells 0

/-- `HostChainArray_sort`, by a `qsort`. -/
def sort (qsort : List (Option (Entry af)) → List (Option (Entry af))) (v : Vec af) :
    Except Fault (Vec af) := do
  let n ← v.nitem
  return { v with cells := qsort (v.cells.take n) ++ v.cells.drop n }

end Vec

namespace Heap

/-- `irealloc` to an array of `count` entries, a 32-bit number. -/
def irealloc (heap : Heap) (v : Vec af) (count : ℕ) (ok : Bool) :
    Except Fault (Heap × Vec af × Bool) :=
  let count := count % 2 ^ 32
  if count = 0 then .error .zeroSize
  else if ok then do
    let heap ← heap.free v.base
    let cells := v.cells.take count ++ List.replicate (count - v.cells.length) none
    return ({ heap with blocks := heap.blocks.alloc },
      { v with base := some heap.blocks.next, cells }, true)
  else return (heap, v, false)

/-- The promise of `HostChainArray_destroy_size` that two entries have different buffers, as far
as the second one is initialised. -/
def promised (self : Entry af) : Option (Entry af) → Bool
  | none => true
  | some next => self.buf ≠ next.buf

/-- `HostChainArray_destroy_size`. -/
def destroySize : List (Option (Entry af)) → ℕ → Heap → Except Fault Heap
  | _, 0, heap => .ok heap
  | some self :: next :: cells, n + 1, heap =>
    if promised self next then do
      let heap ← heap.free self.buf
      destroySize (next :: cells) n heap
    else .error .unreachable
  | none :: _, _ + 1, _ => .error .uninitialized
  | _, _ + 1, _ => .error .outOfBounds

/-- An array is released at the end of `main`. -/
def release (heap : Heap) (v : Vec af) : Except Fault Heap :=
  if v.base = none then .ok heap
  else do
    let heap ← destroySize v.cells v.len heap
    heap.free v.base

end Heap

/-! ## Options -/

/-- The options that build the arrays, with the allocations that succeed: for `-E` that of the
array, and those of `HostChain_copy` in the rounds of the loop. -/
inductive AllocOpt where
  | chain (af : Af) (env : Env af) (s : List Char) (ok : Allocs)
  | dup (optarg : List Char) (irealloc : Bool) (malloc : ℕ → Bool)

/-- The variables of `main`, and the heap. -/
structure Machine where
  heap : Heap
  vec : (af : Af) → Vec af
  last : Af

/-- The loop of the case `'E'`, with the base chain at position `b`; whether it ends. -/
def dupEntries (b step prefixLen : ℕ) (malloc : ℕ → Bool) :
    ℕ → ℕ → Heap → Vec af → Except Fault (Heap × Vec af × Bool)
  | 0, _, heap, v => .ok (heap, v, true)
  | count + 1, i, heap, v => do
    let base ← v.read b
    let (heap, self, done) ← heap.copy base (malloc i)
    let v ← v.write (b + i) (some self)
    if done then
      if step * i ≤ INT_MAX then
        let (heap, self) ← heap.shift self (step * i : ℕ) prefixLen
        let v ← v.write (b + i) (some self)
        -- the counter is incremented after the last round too
        if i < INT_MAX then dupEntries b step prefixLen malloc count (i + 1) heap v.grow
        else .error .overflow
      else .error .overflow
    else .ok (heap, v, false)

namespace Machine

def start : Machine := ⟨.start, .start, .inet⟩

/-- The machine with an array and a heap that changed. -/
def set (m : Machine) (af : Af) (heap : Heap) (v : Vec af) : Machine :=
  { m with heap, vec := Function.update m.vec af v }

/-- The cases `'4'` and `'6'`; the value of `ret` with which they go to `fail`. -/
def chain (m : Machine) (af : Af) (env : Env af) (s : List Char) (ok : Allocs) :
    Except Fault (Machine × Option ℤ) := do
  let (heap, v, done) ← m.heap.irealloc (m.vec af) ((m.vec af).len + 2) ok.irealloc
  if done then
    match ← heap.init env s ok with
    | (heap, .error ret) =>
      -- what `HostChain_init` leaves in the entry is not known
      let v ← v.write v.len none
      return (m.set af heap v, some ret)
    | (heap, .ok self) =>
      let v ← v.write v.len (some self)
      return ({ m.set af heap v.grow with last := af }, none)
  else return (m.set af heap v, some (-1))

/-- The case `'E'`. -/
def dup (m : Machine) (optarg : List Char) (irealloc : Bool) (malloc : ℕ → Bool) :
    Except Fault (Machine × Option ℤ) :=
  let v := m.vec m.last
  if v.len = 0 then return (m, some 1)
  else
    match parseDup m.last optarg with
    | none => return (m, some 2)
    | some d => do
      let (heap, v, done) ← m.heap.irealloc v (v.len + d.n + 1) irealloc
      if done then
        let base ← v.read (v.len - 1)
        if base.prefixLen < d.prefixLen then return (m.set m.last heap v, some 3)
        else
          let (heap, v, done) ← dupEntries (v.len - 1) d.step d.prefixLen malloc d.n 1 heap v
          return (m.set m.last heap v, if done then none else some (-1))
      else return (m.set m.last heap v, some (-1))

/-- One option. -/
def option (m : Machine) : AllocOpt → Except Fault (Machine × Option ℤ)
  | .chain af env s ok => m.chain af env s ok
  | .dup optarg irealloc malloc => m.dup optarg irealloc malloc

/-- How the option loop stops before its end. -/
inductive Stop where
  | fault (f : Fault)
  | fail (m : Machine) (ret : ℤ)

/-- One option of the loop. -/
def step (m : Machine) (opt : AllocOpt) : Except Stop Machine :=
  match m.option opt with
  | .error f => .error (.fault f)
  | .ok (m, none) => .ok m
  | .ok (m, some ret) => .error (.fail m ret)

/-! ## The end of `main` -/

/-- What happens to an array after the option loop: it gets its terminator and is sorted. An empty
one is released, and a pointer is cleared. -/
def settle (qsort : (af : Af) → List (Option (Entry af)) → List (Option (Entry af)))
    (m : Machine) (af cleared : Af) : Except Fault Machine :=
  if (m.vec af).base = none then .ok m
  else if (m.vec af).len = 0 then do
    let heap ← m.heap.free (m.vec af).base
    return m.set cleared heap { m.vec cleared with base := none }
  else do
    let v ← (m.vec af).write (m.vec af).len (some (.zero af))
    let v ← v.sort (qsort af)
    return m.set af m.heap v

/-- The arrays after the option loop. Also for an empty IPv6 array it is `v4_chains` that is
cleared. -/
def finish (qsort : (af : Af) → List (Option (Entry af)) → List (Option (Entry af)))
    (m : Machine) : Except Fault Machine := do
  let m ← m.settle qsort .inet .inet
  m.settle qsort .inet6 .inet

/-- The labels `end` and `fail`. -/
def cleanup (m : Machine) : Except Fault Heap := do
  let heap ← m.heap.release (m.vec .inet)
  heap.release (m.vec .inet6)

end Machine

end Rdnstun
