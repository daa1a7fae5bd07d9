import Rdnstun.Chain.Find

/-!
# Arrays of chains

The model of the operations of `chain.c` on an array of chains. The array is the list of its
chains before the terminator, whose `_buf` is `NULL`.

* `HostChainArray.find`: the loop over the chains; a host is pointed at by the position of its
  chain and its slot.
* `HostChainArray.SortedBy`: what `HostChainArray_sort` is assumed to do.
* `HostChain4Array.reply`, `HostChain6Array.reply`.
-/

namespace Rdnstun

open Memory

variable {af : Af}

/-- A pointer to a host in an array of chains. -/
structure HostPtr where
  chain : ℕ
  slot : ℕ
  deriving DecidableEq

/-- The host behind a pointer. -/
def HostPtr.deref (ptr : HostPtr) (chains : List (HostChain af)) : FakeHost af :=
  match chains[ptr.chain]? with
  | some c => c.hostAt ptr.slot
  | none => FakeHost.null af

namespace HostChainArray

/-- The loop of `HostChainArray_find` from chain `i` on; `ret` and `index` are overwritten by
each chain in whose route the address lies. -/
def findLoop (addr : Addr af) (ttl : UInt8) :
    List (HostChain af) → ℕ → Option HostPtr → UInt8 → Option HostPtr × UInt8
  | [], _, ret, index => (ret, index)
  | c :: cs, i, ret, index =>
    if c.isIn addr then
      match c.find addr ttl with
      | none => (ret, index)
      | some hit =>
        if hit.found then (some ⟨i, hit.slot⟩, hit.index)
        else findLoop addr ttl cs (i + 1) (some ⟨i, hit.slot⟩) hit.index
    else findLoop addr ttl cs (i + 1) ret index

/-- `HostChainArray_find`; `index` is what the caller's variable holds before. -/
def find (self : List (HostChain af)) (addr : Addr af) (ttl index : UInt8) :
    Option HostPtr × UInt8 :=
  findLoop addr ttl self 0 none index

/-- `HostChainArray_sort` as `qsort` with `HostChain_compare` is assumed to perform it: a
permutation by descending prefix. -/
def SortedBy (self sorted : List (HostChain af)) : Prop :=
  sorted.Perm self ∧ sorted.Pairwise fun c c' => c'.prefixLen ≤ c.prefixLen

end HostChainArray

/-- The common end of the two reply functions: the errors of the host are renumbered. -/
def Reply.raise (r : Reply) : Reply := { r with ret := if 0 < r.ret then r.ret + 18 else r.ret }

/-- `HostChain4Array_reply`. -/
def HostChain4Array.reply (self : List (HostChain .inet)) (packet : Mem) (len : ℕ) : Reply :=
  if packet Ip.ipTtl > 0 then
    match HostChainArray.find self (Addr.load .inet packet Ip.ipDst) (packet Ip.ipTtl) 0 with
    | (some host, index) => ((host.deref self).reply index packet len).raise
    | (none, _) => ⟨17, packet, len⟩
  else ⟨18, packet, len⟩

/-- `HostChain6Array_reply`. -/
def HostChain6Array.reply (self : List (HostChain .inet6)) (packet : Mem) (len : ℕ) : Reply :=
  if packet Ip6.ip6Hlim > 0 then
    match HostChainArray.find self (Addr.load .inet6 packet Ip6.ip6Dst) (packet Ip6.ip6Hlim) 0 with
    | (some host, index) => (FakeHost6.reply (host.deref self) index packet len).raise
    | (none, _) => ⟨17, packet, len⟩
  else ⟨18, packet, len⟩

end Rdnstun
