import Rdnstun.Host.Model
import Rdnstun.Inet.Prefix
import Rdnstun.Inet.Shift

/-!
# Chains of hosts

The model of the operations of `chain.c` on one chain.

* `HostChain`: the slots of the buffer up to its end, the network, the prefix. A chain carries
  the proof that a null host ends its hosts within the buffer and that the prefix fits the
  family.
* `nitem`, `isIn`, `find`, `shift`, `copy`.
* `ChainPlace`, `shiftAt`: the shift of a chain at its place in memory.
* `hosts`: the hosts before the first null slot; `pos`: the position of an address among them.
-/

namespace Rdnstun

variable {af : Af}

/-- `struct HostChain`; the flag `v6` is the index `af`, `_buf` the list of its slots. -/
structure HostChain (af : Af) where
  buf : List (FakeHost af)
  network : Addr af
  prefixLen : ℕ
  terminated : ∃ h ∈ buf, h.isnull = true
  prefixLen_le : prefixLen ≤ inetSize af

namespace HostChain

/-- The chain whose buffer holds the given hosts and a zeroed slot. -/
def ofHosts (hosts : List (FakeHost af)) (network : Addr af) (prefixLen : ℕ)
    (h : prefixLen ≤ inetSize af) : HostChain af where
  buf := hosts ++ [FakeHost.null af]
  network := network
  prefixLen := prefixLen
  terminated := ⟨FakeHost.null af, by simp, FakeHost.isnull_null af⟩
  prefixLen_le := h

/-- The chain for all addresses with the given hosts. -/
def defaultRoute (hosts : List (FakeHost af)) : HostChain af :=
  ofHosts hosts (.any af) 0 (zero_le_inetSize af)

/-- A chain for `10.0.0.0/24` with one host. -/
def slash24 : HostChain .inet := ofHosts [⟨64, 1500, .v4 10 0 0 1⟩] (.v4 10 0 0 0) 24 (by decide)

/-- A chain for `3000::/64` with one host. -/
def slash64 : HostChain .inet6 :=
  ofHosts [⟨64, 1500, .ofNat .inet6 (0x3000 * 2 ^ 112 + 1)⟩] (.ofNat .inet6 (0x3000 * 2 ^ 112)) 64
    (by decide)

/-- `HostChain_AT`; a slot beyond the buffer reads as null. -/
def hostAt (self : HostChain af) (i : ℕ) : FakeHost af := self.buf.getD i (FakeHost.null af)

/-- `HostChain_nitem`: the number of slots before the first null one. -/
def nitem (self : HostChain af) : ℕ := self.buf.findIdx FakeHost.isnull

/-- `HostChain_in`. -/
def isIn (self : HostChain af) (addr : Addr af) : Bool :=
  self.prefixLen == 0 || membcmp self.network.bytes addr.bytes self.prefixLen == 0

/-- The loop of `HostChain_find`: whether it stopped at a host with the address, and the slot it
stopped at. -/
def findLoop (addr : Addr af) : List (FakeHost af) → ℕ → ℕ → Bool × ℕ
  | host :: hosts, ttl + 1, i =>
    if host.isnull then (false, i)
    else if host.addr = addr then (true, i)
    else findLoop addr hosts ttl (i + 1)
  | _, _, i => (false, i)

/-- What `HostChain_find` hands back: the slot its result points at, `*found`, `*index`. -/
structure Hit where
  slot : ℕ
  found : Bool
  index : UInt8
  deriving DecidableEq

/-- `HostChain_find`. -/
def find (self : HostChain af) (addr : Addr af) (ttl : UInt8) : Option Hit :=
  let (found, i) := findLoop addr self.buf ttl.toNat 0
  if found then some ⟨i, true, UInt8.ofNat i⟩
  else if i = 0 then none
  else some ⟨i - 1, false, UInt8.ofNat (i - 1)⟩

/-- The loop of `HostChain_shift`: the slots before the first null one are shifted. -/
def shiftLoop (offset : ℤ) (prefixLen : ℕ) : List (FakeHost af) → List (FakeHost af)
  | [] => []
  | host :: hosts =>
    if host.isnull then host :: hosts
    else { host with addr := (inetShift host.addr offset prefixLen).getD host.addr } ::
      shiftLoop offset prefixLen hosts

theorem shiftLoop_terminated (offset : ℤ) (prefixLen : ℕ) {buf : List (FakeHost af)}
    (h : ∃ h ∈ buf, h.isnull = true) :
    ∃ h ∈ shiftLoop offset prefixLen buf, h.isnull = true := by
  induction buf with
  | nil => simp at h
  | cons host hosts ih =>
    rw [shiftLoop]
    split_ifs with hnull
    · exact h
    · obtain ⟨h, hmem, hh⟩ := h
      obtain rfl | hmem := List.mem_cons.mp hmem
      · exact absurd hh hnull
      · obtain ⟨h', hmem', hh'⟩ := ih ⟨h, hmem, hh⟩
        exact ⟨h', List.mem_cons_of_mem _ hmem', hh'⟩

/-- `HostChain_shift` wherever its accesses are in order; the error `16` leaves the chain as it
is. -/
def shift (self : HostChain af) (offset : ℤ) (prefixLen : ℕ) : Except ℕ (HostChain af) :=
  match inetShift self.network offset prefixLen with
  | none => .error 16
  | some network => .ok
    { self with
      buf := shiftLoop offset prefixLen self.buf
      network
      terminated := shiftLoop_terminated offset prefixLen self.terminated }

end HostChain

/-! ## Places -/

/-- `struct_size`: `sizeof(struct FakeHost)` or `sizeof(struct FakeHost6)`. -/
def structSize : Af → ℕ
  | .inet => 8
  | .inet6 => 20

/-- The places of a `struct HostChain`, which starts with a pointer, and of its buffer, whose hosts
are aligned like their addresses. -/
structure ChainPlace where
  self : ℕ
  buf : ℕ
  self_dvd : 8 ∣ self
  buf_dvd : 4 ∣ buf

/-- The place of `network`, behind the pointer. -/
def ChainPlace.network (place : ChainPlace) : Place :=
  ⟨place.self + 8, by have := place.self_dvd; omega⟩

/-- The place of `addr` in the `i`-th host, behind its TTL and its MTU. -/
def ChainPlace.host (place : ChainPlace) (af : Af) (i : ℕ) : Place :=
  ⟨place.buf + structSize af * i + 4, by
    have := place.buf_dvd
    cases af <;> simp only [structSize] <;> omega⟩

namespace HostChain

/-- The loop of `HostChain_shift` at its places, from the `i`-th slot on. -/
def shiftLoopAt (place : ChainPlace) (offset : ℤ) (prefixLen : ℕ) :
    ℕ → List (FakeHost af) → Except Undefined (List (FakeHost af))
  | _, [] => .ok []
  | i, host :: hosts =>
    if host.isnull then .ok (host :: hosts)
    else
      match inetShiftAt (place.host af i) host.addr offset prefixLen with
      | .error e => .error e
      | .ok addr =>
        match shiftLoopAt place offset prefixLen (i + 1) hosts with
        | .error e => .error e
        | .ok hosts => .ok ({ host with addr := addr.getD host.addr } :: hosts)

theorem shiftLoopAt_cons_ok {place : ChainPlace} {offset : ℤ} {prefixLen i : ℕ}
    {host : FakeHost af} {buf buf' : List (FakeHost af)} (hnull : host.isnull = false)
    (h : shiftLoopAt place offset prefixLen i (host :: buf) = .ok buf') :
    ∃ addr hosts, inetShiftAt (place.host af i) host.addr offset prefixLen = .ok addr ∧
      shiftLoopAt place offset prefixLen (i + 1) buf = .ok hosts ∧
        buf' = { host with addr := addr.getD host.addr } :: hosts := by
  rw [shiftLoopAt, if_neg (by simp [hnull])] at h
  cases haddr : inetShiftAt (place.host af i) host.addr offset prefixLen with
  | error e => rw [haddr] at h; cases h
  | ok addr =>
    rw [haddr] at h
    dsimp only at h
    cases hrest : shiftLoopAt place offset prefixLen (i + 1) buf with
    | error e => rw [hrest] at h; cases h
    | ok hosts =>
      rw [hrest] at h
      exact ⟨addr, hosts, rfl, rfl, (Except.ok.inj h).symm⟩

theorem shiftLoop_of_shiftLoopAt {place : ChainPlace} {offset : ℤ} {prefixLen i : ℕ}
    {buf buf' : List (FakeHost af)} (h : shiftLoopAt place offset prefixLen i buf = .ok buf') :
    shiftLoop offset prefixLen buf = buf' := by
  induction buf generalizing i buf' with
  | nil => exact Except.ok.inj h
  | cons host hosts ih =>
    rw [shiftLoop]
    cases hnull : host.isnull with
    | true =>
      rw [shiftLoopAt, if_pos hnull] at h
      exact Except.ok.inj h
    | false =>
      obtain ⟨addr, hosts', haddr, hrest, rfl⟩ := shiftLoopAt_cons_ok hnull h
      rw [if_neg Bool.false_ne_true, inetShift_of_inetShiftAt haddr, ih hrest]

/-- `HostChain_shift` on a chain at its places. -/
def shiftAt (place : ChainPlace) (self : HostChain af) (offset : ℤ) (prefixLen : ℕ) :
    Except Undefined (Except ℕ (HostChain af)) :=
  match inetShiftAt place.network self.network offset prefixLen with
  | .error e => .error e
  | .ok none => .ok (.error 16)
  | .ok (some network) =>
    match h : shiftLoopAt place offset prefixLen 0 self.buf with
    | .error e => .error e
    | .ok buf => .ok (.ok
      { self with
        buf
        network
        terminated := shiftLoop_of_shiftLoopAt h ▸
          shiftLoop_terminated offset prefixLen self.terminated })

/-! ## Copies -/

theorem nitem_lt (self : HostChain af) : self.nitem < self.buf.length :=
  List.findIdx_lt_length_of_exists (by simpa using self.terminated)

/-- `HostChain_copy`, the allocation having succeeded: the slots up to the first null one. -/
def copy (other : HostChain af) : HostChain af :=
  { other with
    buf := other.buf.take (other.nitem + 1)
    terminated := ⟨other.buf.get ⟨other.nitem, other.nitem_lt⟩,
      List.mem_take_iff_getElem.mpr ⟨other.nitem, by have := other.nitem_lt; omega, rfl⟩,
      List.findIdx_getElem⟩ }

/-- The hosts before the first null slot. -/
def hosts (self : HostChain af) : List (FakeHost af) := self.buf.takeWhile fun h => !h.isnull

/-- The first position of an address among the hosts, or their number. -/
def pos (self : HostChain af) (addr : Addr af) : ℕ := self.hosts.findIdx fun h => h.addr = addr

end HostChain

end Rdnstun
