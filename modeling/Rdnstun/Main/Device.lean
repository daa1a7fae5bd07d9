import Rdnstun.Main.Memory

/-!
# The queues of the interface

The model of `iface.c`. A descriptor is known by the call that opened it, so the kernel's numbers
for closed ones are not used again.

* `Fds`: the descriptors, and the interfaces that their queues are attached to.
* `tunAlloc`, `tunsAlloc`, `ifup`; `connect`: how `main` calls them.
* `tunAlloc_ok`: one queue is attached, or nothing is open that was not before.
* **`tunsAlloc_ok`**: all queues are attached to one interface, or none is open.
* `connect_owns`: what `main` has then.
-/

namespace Rdnstun

open Run

/-- `IFF_TUN`. -/
abbrev IFF_TUN : ℕ := 0x0001

/-- `IFF_UP`. -/
abbrev IFF_UP : ℕ := 0x0001

/-- `IFF_MULTI_QUEUE`. -/
abbrev IFF_MULTI_QUEUE : ℕ := 0x0100

/-- `IFF_NO_PI`. -/
abbrev IFF_NO_PI : ℕ := 0x1000

/-- `struct ifreq`, as far as it is filled. -/
structure Ifreq where
  ifrName : List Char
  ifrFlags : ℕ

/-- How the kernel answers the calls of one allocation: whether `open` or `socket` succeeds, and the
name of the interface if the `ioctl` does. -/
structure Kernel where
  opens : Bool
  ioctl : Ifreq → Option (List Char)

/-- The descriptors of the process, and the interface to which each was attached. -/
structure Fds where
  table : Ledger
  iface : ℕ → Option (List Char)

namespace Fds

def start : Fds := ⟨.empty, fun _ => none⟩

/-- The descriptor `fds.table.next` is opened. -/
def opened (fds : Fds) : Fds := { fds with table := fds.table.alloc }

/-- A descriptor becomes a queue of an interface. -/
def attach (fds : Fds) (fd : ℕ) (ifname : List Char) : Fds :=
  { fds with iface := Function.update fds.iface fd (some ifname) }

/-- `close`. -/
def close (fds : Fds) (fd : ℕ) : Except Fault Fds :=
  match fds.table.free fd with
  | none => .error .notLive
  | some table => .ok { fds with table }

/-- Descriptors are closed one after the other. -/
def closeAll : List ℕ → Fds → Except Fault Fds
  | [], fds => .ok fds
  | fd :: rest, fds => do
    let fds ← fds.close fd
    closeAll rest fds

/-- `tun_alloc`; the descriptor is `none` where a negative number is returned. -/
def tunAlloc (fds : Fds) (kernel : Kernel) (ifname : Option (List Char)) (flags : ℕ) :
    Except Fault (Fds × Option (List Char) × Option ℕ) :=
  if kernel.opens then
    let fd := fds.table.next
    let fds := fds.opened
    match kernel.ioctl ⟨ifname.getD [], flags ||| IFF_NO_PI⟩ with
    | none => do
      let fds ← fds.close fd
      return (fds, ifname, none)
    | some name => return (fds.attach fd name, ifname.map fun _ => name, some fd)
  else return (fds, ifname, none)

/-- The loop of `tuns_alloc` from queue `i` on, with the descriptors so far and the number of
queues to come. -/
def tunsLoop (kernel : ℕ → Kernel) (flags : ℕ) :
    ℕ → ℕ → Fds → Option (List Char) → List ℕ →
      Except Fault (Fds × Option (List Char) × List ℕ × ℕ)
  | 0, _, fds, ifname, tunfds => .ok (fds, ifname, tunfds, 0)
  | count + 1, i, fds, ifname, tunfds => do
    match ← fds.tunAlloc (kernel i) ifname (flags ||| IFF_MULTI_QUEUE) with
    | (fds, ifname, some fd) => tunsLoop kernel flags count (i + 1) fds ifname (tunfds ++ [fd])
    | (fds, ifname, none) =>
      let fds ← closeAll tunfds.reverse fds
      return (fds, ifname, tunfds, 1)

/-- `tuns_alloc`; `buffer` is what stands on the stack where the name goes if the caller passes
none. -/
def tunsAlloc (fds : Fds) (kernel : ℕ → Kernel) (buffer : List Char)
    (ifname : Option (List Char)) (flags : ℕ) (count : ℤ) :
    Except Fault (Fds × Option (List Char) × List ℕ × ℕ) :=
  if 0 < count then do
    let (fds, name, tunfds, ret) ←
      tunsLoop kernel flags count.toNat 0 fds (some (ifname.getD buffer)) []
    return (fds, if ifname = none then none else name, tunfds, ret)
  else return (fds, ifname, [], 255)

/-- `ifup`; whether it succeeds. -/
def ifup (fds : Fds) (kernel : Kernel) (ifname : List Char) : Except Fault (Fds × Bool) :=
  if kernel.opens then do
    let fd := fds.table.next
    let err := kernel.ioctl ⟨ifname, IFF_UP⟩
    let fds ← fds.opened.close fd
    return (fds, err.isSome)
  else return (fds, false)

/-- How `main` connects to the interface; without descriptors it goes to `fail`. -/
def connect (fds : Fds) (kernel : ℕ → Kernel) (up : Kernel) (buffer ifName : List Char)
    (nthread : ℤ) : Except Fault (Fds × Option (List ℕ)) := do
  let (fds, name, tunfds) ←
    if 0 < nthread then do
      let (fds, name, tunfds, ret) ← fds.tunsAlloc kernel buffer (some ifName) IFF_TUN nthread
      pure (fds, name, if ret = 0 then some tunfds else none)
    else do
      let (fds, name, tunfd) ← fds.tunAlloc (kernel 0) (some ifName) IFF_TUN
      pure (fds, name, tunfd.map fun fd => [fd])
  match tunfds with
  | none => return (fds, none)
  | some tunfds =>
    let (fds, _) ← fds.ifup up (name.getD [])
    return (fds, some tunfds)

/-! ## Descriptors -/

variable {fds : Fds} {kernel : ℕ → Kernel} {ps tunfds : List ℕ} {name : List Char}
  {ifname : Option (List Char)}

theorem close_ok (fds : Fds) {fd : ℕ} (hown : fds.table.Owns (fd :: ps)) :
    ∃ fds', fds.close fd = .ok fds' ∧ fds'.table.Owns ps ∧ fds'.iface = fds.iface := by
  obtain ⟨table, hfree, hown', -⟩ := hown.free
  refine ⟨{ fds with table }, ?_, hown', rfl⟩
  rw [close, hfree]

theorem closeAll_ok {l : List ℕ} (hown : fds.table.Owns (l ++ ps)) :
    ∃ fds', closeAll l fds = .ok fds' ∧ fds'.table.Owns ps ∧ fds'.iface = fds.iface := by
  induction l generalizing fds with
  | nil => exact ⟨fds, rfl, hown, rfl⟩
  | cons fd l ih =>
    obtain ⟨fds₁, hclose, hown₁, hiface₁⟩ := fds.close_ok hown
    obtain ⟨fds₂, hrest, hown₂, hiface₂⟩ := ih hown₁
    refine ⟨fds₂, ?_, hown₂, hiface₂.trans hiface₁⟩
    rw [closeAll, hclose]
    exact hrest

/-! ## One queue -/

/-- The kernel does not give a queue of the interface that is asked for. -/
def Refuses (kernel : Kernel) (ifname : List Char) (flags : ℕ) : Prop :=
  kernel.opens = false ∨ kernel.ioctl ⟨ifname, flags ||| IFF_NO_PI⟩ = none

/-- **One queue** is attached, or nothing is open that was not before. -/
theorem tunAlloc_ok (kernel : Kernel) (ifname : Option (List Char)) (flags : ℕ)
    (hown : fds.table.Owns ps) :
    (Refuses kernel (ifname.getD []) flags ∧ ∃ fds',
      fds.tunAlloc kernel ifname flags = .ok (fds', ifname, none) ∧ fds'.table.Owns ps) ∨
    ∃ fds' name, kernel.ioctl ⟨ifname.getD [], flags ||| IFF_NO_PI⟩ = some name ∧
      fds.tunAlloc kernel ifname flags =
        .ok (fds', ifname.map fun _ => name, some fds.table.next) ∧
      fds'.table.Owns (fds.table.next :: ps) ∧
      fds'.iface = Function.update fds.iface fds.table.next (some name) := by
  have hopened : fds.opened.table.Owns (fds.table.next :: ps) := hown.alloc
  rw [tunAlloc]
  cases hopens : kernel.opens with
  | false => exact .inl ⟨.inl hopens, fds, rfl, hown⟩
  | true =>
    rw [if_pos rfl]
    cases hioctl : kernel.ioctl ⟨ifname.getD [], flags ||| IFF_NO_PI⟩ with
    | none =>
      obtain ⟨fds', hclose, hown', -⟩ := fds.opened.close_ok hopened
      refine .inl ⟨.inr hioctl, fds', ?_, hown'⟩
      dsimp only
      rw [hclose]
      rfl
    | some name =>
      exact .inr ⟨fds.opened.attach fds.table.next name, name, rfl, rfl, hopened, rfl⟩

/-! ## All queues -/

/-- An interface that the kernel named keeps its name when it is asked for again. -/
def KeepsNames (kernel : ℕ → Kernel) : Prop :=
  ∀ i j req flags name name', (kernel i).ioctl req = some name →
    (kernel j).ioctl ⟨name, flags⟩ = some name' → name' = name

/-- The queues so far are attached to one interface, which the kernel named. -/
structure Attached (fds : Fds) (kernel : ℕ → Kernel) (tunfds : List ℕ) (name : List Char) :
    Prop where
  iface : ∀ fd ∈ tunfds, fds.iface fd = some name
  named : tunfds ≠ [] → ∃ i req, (kernel i).ioctl req = some name

theorem Attached.push {fds' : Fds} {i : ℕ} {req : Ifreq} {flags : ℕ} {name' : List Char}
    (h : fds.Attached kernel tunfds name) (hkeep : KeepsNames kernel)
    (hown : fds.table.Owns (tunfds.reverse ++ ps)) (hreq : req = ⟨name, flags⟩)
    (hioctl : (kernel i).ioctl req = some name')
    (hiface : fds'.iface = Function.update fds.iface fds.table.next (some name')) :
    fds'.Attached kernel (tunfds ++ [fds.table.next]) name' := by
  refine ⟨fun fd hfd => ?_, fun _ => ⟨i, req, hioctl⟩⟩
  rw [hiface]
  rcases List.mem_append.mp hfd with hfd | hfd
  · have hlive := hown.live (List.mem_append_left ps (List.mem_reverse.mpr hfd))
    obtain ⟨j, req', hnamed⟩ := h.named (List.ne_nil_of_mem hfd)
    rw [Function.update_of_ne hlive.1.ne, h.iface fd hfd,
      hkeep j i req' flags name name' hnamed (hreq ▸ hioctl)]
  · rw [List.mem_singleton.mp hfd, Function.update_self]

theorem tunsLoop_ok (flags count i : ℕ) (hown : fds.table.Owns (tunfds.reverse ++ ps))
    (hatt : KeepsNames kernel → fds.Attached kernel tunfds name) :
    ∃ fds' name' tunfds' ret,
      tunsLoop kernel flags count i fds (some name) tunfds = .ok (fds', some name', tunfds', ret) ∧
      (ret = 0 ∧ tunfds'.length = tunfds.length + count ∧
          fds'.table.Owns (tunfds'.reverse ++ ps) ∧
          (KeepsNames kernel → fds'.Attached kernel tunfds' name') ∨
        ret = 1 ∧ fds'.table.Owns ps ∧
          ∃ j < count, ∃ name, Refuses (kernel (i + j)) name (flags ||| IFF_MULTI_QUEUE)) := by
  induction count generalizing i fds name tunfds with
  | zero => exact ⟨fds, name, tunfds, 0, rfl, .inl ⟨rfl, rfl, hown, hatt⟩⟩
  | succ count ih =>
    rcases tunAlloc_ok (kernel i) (some name) (flags ||| IFF_MULTI_QUEUE) hown with
      ⟨hrefuse, fds₁, halloc, hown₁⟩ | ⟨fds₁, name₁, hioctl, halloc, hown₁, hiface⟩
    · obtain ⟨fds₂, hclose, hown₂, -⟩ := closeAll_ok hown₁
      refine ⟨fds₂, name, tunfds, 1, ?_, .inr ⟨rfl, hown₂, 0, Nat.succ_pos _, name, hrefuse⟩⟩
      rw [tunsLoop, halloc, ok_bind]
      dsimp only
      rw [hclose]
      rfl
    · have hown₁' : fds₁.table.Owns ((tunfds ++ [fds.table.next]).reverse ++ ps) := by
        rwa [List.reverse_append]
      obtain ⟨fds₂, name₂, tunfds₂, ret, hloop, hret⟩ := ih (i + 1) hown₁' fun hkeep =>
        (hatt hkeep).push hkeep hown rfl hioctl hiface
      refine ⟨fds₂, name₂, tunfds₂, ret, ?_, ?_⟩
      · rw [tunsLoop, halloc, ok_bind]
        exact hloop
      · rw [List.length_append, List.length_singleton] at hret
        rcases hret with ⟨hzero, hlen, hrest⟩ | ⟨hone, hown₂, j, hj, hrefuse⟩
        · exact .inl ⟨hzero, by omega, hrest⟩
        · refine .inr ⟨hone, hown₂, j + 1, by omega, ?_⟩
          rwa [Nat.add_right_comm, Nat.add_assoc] at hrefuse

theorem attached_nil (fds : Fds) (name : List Char) : fds.Attached kernel [] name :=
  ⟨fun _ hfd => absurd hfd List.not_mem_nil, fun hne => absurd rfl hne⟩

theorem exists_tunsAlloc (kernel : ℕ → Kernel) (buffer : List Char)
    (ifname : Option (List Char)) (flags : ℕ) {count : ℤ} (hcount : 0 < count)
    (hown : fds.table.Owns ps) :
    ∃ fds' name' tunfds ret, fds.tunsAlloc kernel buffer ifname flags count =
        .ok (fds', ifname.map fun _ => name', tunfds, ret) ∧
      (ret = 0 ∧ tunfds.length = count.toNat ∧ fds'.table.Owns (tunfds.reverse ++ ps) ∧
          (KeepsNames kernel → ∀ fd ∈ tunfds, fds'.iface fd = some name') ∨
        ret = 1 ∧ fds'.table.Owns ps ∧
          ∃ i < count.toNat, ∃ name, Refuses (kernel i) name (flags ||| IFF_MULTI_QUEUE)) := by
  obtain ⟨fds', name', tunfds, ret, hloop, hret⟩ := tunsLoop_ok flags count.toNat 0
    (show fds.table.Owns (List.reverse [] ++ ps) from hown)
    fun _ : KeepsNames kernel => attached_nil fds (ifname.getD buffer)
  refine ⟨fds', name', tunfds, ret, ?_, ?_⟩
  · rw [tunsAlloc, if_pos hcount, hloop, ok_bind]
    cases ifname <;> rfl
  · simp only [List.length_nil, Nat.zero_add] at hret
    exact hret.imp (fun h => ⟨h.1, h.2.1, h.2.2.1, fun hkeep => (h.2.2.2 hkeep).iface⟩) id

/-- **All queues** are open, or none is; without a queue to allocate nothing is done. They are
attached to the interface whose name is left behind if the kernel keeps names. -/
theorem tunsAlloc_ok (kernel : ℕ → Kernel) (buffer : List Char) (ifname : Option (List Char))
    (flags : ℕ) (count : ℤ) (hown : fds.table.Owns ps) :
    ∃ fds' name' tunfds ret, fds.tunsAlloc kernel buffer ifname flags count =
        .ok (fds', ifname.map fun _ => name', tunfds, ret) ∧
      (ret = 0 ∧ (tunfds.length : ℤ) = count ∧ fds'.table.Owns (tunfds.reverse ++ ps) ∧
          (KeepsNames kernel → ∀ fd ∈ tunfds, fds'.iface fd = some name') ∨
        ret = 1 ∧ fds'.table.Owns ps ∧
          (∃ i : ℕ, (i : ℤ) < count ∧ ∃ name, Refuses (kernel i) name (flags ||| IFF_MULTI_QUEUE)) ∨
        ret = 255 ∧ count ≤ 0 ∧ fds' = fds) := by
  by_cases hcount : 0 < count
  · obtain ⟨fds', name', tunfds, ret, halloc, hret⟩ :=
      exists_tunsAlloc kernel buffer ifname flags hcount hown
    refine ⟨fds', name', tunfds, ret, halloc, ?_⟩
    rcases hret with ⟨hzero, hlen, hown', hiface⟩ | ⟨hone, hown', i, hi, hrefuse⟩
    · exact .inl ⟨hzero, by omega, hown', hiface⟩
    · exact .inr (.inl ⟨hone, hown', i, by omega, hrefuse⟩)
  · refine ⟨fds, ifname.getD [], [], 255, ?_, .inr (.inr ⟨rfl, by omega, rfl⟩)⟩
    rw [tunsAlloc, if_neg hcount]
    cases ifname <;> rfl

/-- A kernel that names the interface of a template, and the others as they are asked for. -/
def kernelTemplate : ℕ → Kernel := fun _ =>
  ⟨true, fun req => some (if req.ifrName = "tun%d".toList then "tun0".toList else req.ifrName)⟩

theorem keepsNames_template : KeepsNames kernelTemplate := by
  intro i j req flags name name' hname hname'
  have hne : name ≠ "tun%d".toList := by
    rintro rfl
    have := Option.some_inj.mp hname
    split_ifs at this with hreq
    · exact absurd this (by decide)
    · exact hreq this
  exact (Option.some_inj.mp hname').symm.trans (if_neg hne)

/-- Three queues of an interface that the kernel names. -/
theorem tunsAlloc_template : ∃ fds' name' tunfds ret,
    start.tunsAlloc kernelTemplate [] (some "tun%d".toList) IFF_TUN 3 =
        .ok (fds', some name', tunfds, ret) ∧
      (ret = 0 ∧ (tunfds.length : ℤ) = 3 ∧ fds'.table.Owns (tunfds.reverse ++ []) ∧
          (∀ fd ∈ tunfds, fds'.iface fd = some name') ∨
        ret = 1 ∧ fds'.table.Owns [] ∧ (∃ i : ℕ, (i : ℤ) < 3 ∧ ∃ name,
          Refuses (kernelTemplate i) name (IFF_TUN ||| IFF_MULTI_QUEUE)) ∨
        ret = 255 ∧ (3 : ℤ) ≤ 0 ∧ fds' = start) := by
  obtain ⟨fds', name', tunfds, ret, halloc, hret⟩ :=
    tunsAlloc_ok kernelTemplate [] (some "tun%d".toList) IFF_TUN 3
      (show start.table.Owns [] from Ledger.owns_empty)
  exact ⟨fds', name', tunfds, ret, halloc,
    hret.imp_left fun h => ⟨h.1, h.2.1, h.2.2.1, h.2.2.2 keepsNames_template⟩⟩

/-! ## The connection of `main` -/

theorem ifup_ok (up : Kernel) (name : List Char) (hown : fds.table.Owns ps) :
    ∃ fds' done, fds.ifup up name = .ok (fds', done) ∧ fds'.table.Owns ps ∧
      fds'.iface = fds.iface := by
  rw [ifup]
  split_ifs
  · obtain ⟨fds', hclose, hown', hiface⟩ := fds.opened.close_ok hown.alloc
    refine ⟨fds', (up.ioctl ⟨name, IFF_UP⟩).isSome, ?_, hown', hiface⟩
    dsimp only
    rw [hclose]
    rfl
  · exact ⟨fds, false, rfl, hown, rfl⟩

/-- **The connection**: `main` has a queue for every thread, or nothing that it would have to
close. -/
theorem connect_ok (kernel : ℕ → Kernel) (up : Kernel) (buffer ifName : List Char) (nthread : ℤ)
    (hown : fds.table.Owns ps) :
    ∃ fds' tunfds, fds.connect kernel up buffer ifName nthread = .ok (fds', tunfds) ∧
      fds'.table.Owns ((tunfds.getD []).reverse ++ ps) ∧
        ∀ l ∈ tunfds, (l.length : ℤ) = max nthread 1 := by
  rw [connect]
  split_ifs with hpos
  · obtain ⟨fds₁, name₁, tunfds, ret, halloc, hret⟩ :=
      exists_tunsAlloc kernel buffer (some ifName) IFF_TUN hpos hown
    rw [halloc]
    rcases hret with ⟨rfl, hlen, hown₁, -⟩ | ⟨rfl, hown₁, -⟩
    · obtain ⟨fds₂, done, hup, hown₂, -⟩ := ifup_ok up name₁ hown₁
      refine ⟨fds₂, some tunfds, ?_, hown₂, ?_⟩
      · show (do let (fds, _) ← fds₁.ifup up name₁; return (fds, some tunfds)) = _
        rw [hup]
        rfl
      · rintro l ⟨⟩
        omega
    · exact ⟨fds₁, none, rfl, hown₁, nofun⟩
  · rcases tunAlloc_ok (kernel 0) (some ifName) IFF_TUN hown with
      ⟨-, fds₁, halloc, hown₁⟩ | ⟨fds₁, name₁, -, halloc, hown₁, -⟩
    · rw [halloc]
      exact ⟨fds₁, none, rfl, hown₁, nofun⟩
    · rw [halloc]
      obtain ⟨fds₂, done, hup, hown₂, -⟩ := ifup_ok up name₁ hown₁
      refine ⟨fds₂, some [fds.table.next], ?_, hown₂, ?_⟩
      · show (do let (fds', _) ← fds₁.ifup up name₁; return (fds', some [fds.table.next])) = _
        rw [hup]
        rfl
      · rintro l ⟨⟩
        simp only [List.length_singleton]
        omega

end Fds

end Rdnstun
