import Rdnstun.Lib.Radix
import Rdnstun.Lib.Memory

/-!
# Addresses, prefixes and checksums

The model of `inet.c`, on a little-endian machine.

* `Af`, `Addr`: an address is its 4 or 16 bytes in network order.
* `memcmp`, `membcmp`: byte and bit comparison.
* `load32`, `store32`, `ntohl`, `htonl`: words in memory and their byte swap.
* `inetIsnetwork`, `inetShift`.
* `Undefined`, `Place`, `inetShiftAt`: the same shift on an address at its place in memory.
* `inetCksumContinue`, `inetCksumFinish`, `inetCksum`, `inetCksumHeader`: the checksum of a block
  of memory, kept in the block.
-/

namespace Rdnstun

open Radix Memory

/-- `AF_INET` or `AF_INET6`. -/
inductive Af where
  | inet | inet6
  deriving DecidableEq

/-- `sizeof(struct in_addr)` or `sizeof(struct in6_addr)`. -/
def Af.size : Af → ℕ
  | .inet => 4
  | .inet6 => 16

/-- `inet_size`: the length of an address in bits. -/
def inetSize : Af → ℕ
  | .inet6 => 128
  | .inet => 32

theorem zero_le_inetSize (af : Af) : 0 ≤ inetSize af := Nat.zero_le _

theorem inetSize_eq (af : Af) : inetSize af = 8 * af.size := by cases af <;> rfl

/-- An address, in network byte order. -/
structure Addr (af : Af) where
  bytes : List UInt8
  size_eq : bytes.length = af.size
  deriving DecidableEq

variable {af : Af}

theorem Addr.ext_bytes {a b : Addr af} (h : a.bytes = b.bytes) : a = b := by
  cases a; cases b; cases h; rfl

/-- An IPv4 address from its four octets. -/
def Addr.v4 (a b c d : UInt8) : Addr .inet := ⟨[a, b, c, d], rfl⟩

/-- `INADDR_ANY` or the IPv6 unspecified address. -/
def Addr.any (af : Af) : Addr af := ⟨List.replicate af.size 0, by simp⟩

/-- The address in a block of memory. -/
def Addr.load (af : Af) (m : Mem) (a : ℕ) : Addr af := ⟨read m a af.size, by simp⟩

/-- The address as a big-endian number. -/
def Addr.toNat (a : Addr af) : ℕ := val a.bytes

/-- The address a number denotes, modulo the size of the address space. -/
def Addr.ofNat (af : Af) (v : ℕ) : Addr af := ⟨Radix.bytes af.size v, by simp⟩

theorem two_pow_inetSize (af : Af) : 2 ^ inetSize af = 256 ^ af.size := by
  rw [inetSize_eq, pow_mul]
  norm_num

theorem Addr.toNat_lt (a : Addr af) : a.toNat < 2 ^ inetSize af := by
  rw [two_pow_inetSize, ← a.size_eq]
  exact val_lt _

theorem Addr.toNat_ofNat (af : Af) (v : ℕ) : (Addr.ofNat af v).toNat = v % 2 ^ inetSize af := by
  rw [two_pow_inetSize]
  exact val_bytes _ _

theorem Addr.toNat_inj {a b : Addr af} : a.toNat = b.toNat ↔ a = b :=
  ⟨fun h => Addr.ext_bytes (val_inj (a.size_eq.trans b.size_eq.symm) h), fun h => by rw [h]⟩

/-! ## Comparison -/

/-- The macro `cmp`. -/
def cmp (a b : UInt8) : ℤ := if a = b then 0 else if a < b then -1 else 1

/-- `memcmp` on the first `n` bytes; only the sign of its result is specified. -/
def memcmp : List UInt8 → List UInt8 → ℕ → ℤ
  | a :: s₁, b :: s₂, n + 1 => if a = b then memcmp s₁ s₂ n else cmp a b
  | _, _, _ => 0

/-- `membcmp`: comparison of the first `n` bits, `bytes` being an `unsigned int`. -/
def membcmp (s₁ s₂ : List UInt8) (n : ℕ) : ℤ :=
  let bytes := n / 8 % 2 ^ 32
  let bits := n % 8
  let res := memcmp s₁ s₂ bytes
  if res ≠ 0 then res
  else if bits = 0 then 0
  else
    let mask : UInt8 := UInt8.ofNat (255 * 2 ^ (8 - bits))
    let c₁ := s₁.getD bytes 0 &&& mask
    let c₂ := s₂.getD bytes 0 &&& mask
    cmp c₁ c₂

/-! ## Words -/

/-- A `uint32_t` loaded from four bytes. -/
def load32 (l : List UInt8) : UInt32 := UInt32.ofNat (val l.reverse)

/-- The four bytes of a stored `uint32_t`. -/
def store32 (w : UInt32) : List UInt8 := (bytes 4 w.toNat).reverse

/-- `ntohl`: the bytes of the word in the opposite order. -/
def ntohl (w : UInt32) : UInt32 := UInt32.ofNat (val (bytes 4 w.toNat).reverse)

/-- `htonl`: the same function as `ntohl`. -/
def htonl (w : UInt32) : UInt32 := ntohl w

/-- `s6_addr32[i]` of a string of words. -/
def word32 (l : List UInt8) (i : ℕ) : UInt32 := load32 ((l.drop (4 * i)).take 4)

/-! ## Networks -/

/-- `_inet_tomask`. For `prefixLen = 0` the shift is as wide as its operand and its result is
`overshift`, whatever the machine makes of it. -/
def inetTomask (overshift : UInt32) (prefixLen : ℕ) : UInt32 :=
  let shifted : UInt32 := if 32 - prefixLen < 32 then 1 <<< UInt32.ofNat (32 - prefixLen)
    else overshift
  htonl (~~~(shifted - 1))

/-- `_inet_isnetwork4`. -/
def inetIsnetwork4 (overshift : UInt32) (network : UInt32) (prefixLen : ℕ) : Bool :=
  network &&& ~~~inetTomask overshift prefixLen == 0

/-- `_inet_isnetwork6`. -/
def inetIsnetwork6 (overshift : UInt32) (network : List UInt8) (prefixLen : ℕ) : Bool :=
  let prefix32 := prefixLen / 32
  let prefix32rem := prefixLen % 32
  let from32 := prefix32 + if prefix32rem ≠ 0 then 1 else 0
  if [3, 2, 1, 0].any fun i => from32 ≤ i && word32 network i != 0 then false
  else prefix32rem == 0 || inetIsnetwork4 overshift (word32 network prefix32) prefix32rem

/-- `inet_isnetwork`. -/
def inetIsnetwork (overshift : UInt32) : {af : Af} → Addr af → ℕ → Bool
  | .inet, network, prefixLen => inetIsnetwork4 overshift (load32 network.bytes) prefixLen
  | .inet6, network, prefixLen => inetIsnetwork6 overshift network.bytes prefixLen

/-! ## Shifts of an address -/

/-- The result of a signed computation, stored as a `uint32_t`. -/
def toUint32 (x : ℤ) : UInt32 := UInt32.ofNat (x % 2 ^ 32).toNat

/-- The IPv4 path of `inet_shift`, computed in `long long`. -/
def inetShift4 (addr : List UInt8) (offset : ℤ) (prefixLen : ℕ) : List UInt8 :=
  let shift := (offset * 2 ^ (32 - prefixLen)).bmod (2 ^ 64)
  store32 (htonl (toUint32 ((((ntohl (load32 addr)).toNat : ℤ) + shift).bmod (2 ^ 64))))

/-- What the IPv6 path of `inet_shift` computes in a wrapping `__int128`: `host.addr32[k]` is the
`k`-th word of `addr128`, least significant first. Whether the address may be accessed as the code
does is the matter of `inetShiftAt`. -/
def inetShift6 (addr : List UInt8) (offset : ℤ) (prefixLen : ℕ) : List UInt8 :=
  let shift := (offset * 2 ^ (128 - prefixLen)).bmod (2 ^ 128)
  let host (k : ℕ) : ℕ := (ntohl (word32 addr (3 - k))).toNat
  let addr128 : ℤ := ((host 0 + host 1 * 2 ^ 32 + host 2 * 2 ^ 64 + host 3 * 2 ^ 96 : ℕ) : ℤ)
  let sum := (addr128 + shift).bmod (2 ^ 128)
  let net (k : ℕ) : List UInt8 := store32 (htonl (toUint32 (sum / 2 ^ (32 * (3 - k)))))
  net 0 ++ net 1 ++ net 2 ++ net 3

@[simp] theorem length_store32 (w : UInt32) : (store32 w).length = 4 := by simp [store32]

/-- `inet_shift` wherever its accesses are in order; `none` is the result `-1`, which leaves the
address as it is. -/
def inetShift : {af : Af} → Addr af → ℤ → ℕ → Option (Addr af)
  | .inet, addr, offset, prefixLen =>
    if prefixLen ≤ inetSize .inet then
      some ⟨inetShift4 addr.bytes offset prefixLen, by simp [inetShift4, Af.size]⟩
    else none
  | .inet6, addr, offset, prefixLen =>
    if prefixLen ≤ inetSize .inet6 then
      some ⟨inetShift6 addr.bytes offset prefixLen, by simp [inetShift6, Af.size]⟩
    else none

/-- What makes an execution undefined: a pointer that is not aligned as its type asks, a shift by
the width of its operand, an `int` that overflows. -/
inductive Undefined where
  | misaligned | overshift | overflow
  deriving DecidableEq

/-- The place of a `struct in_addr` or `struct in6_addr`: both are aligned to 4 bytes. -/
structure Place where
  loc : ℕ
  dvd : 4 ∣ loc

/-- `inet_shift` on the address at a place. The IPv6 path accesses the address as a union with an
`__int128`, which is aligned to 16 bytes. -/
def inetShiftAt (place : Place) : {af : Af} → Addr af → ℤ → ℕ →
    Except Undefined (Option (Addr af))
  | .inet, addr, offset, prefixLen => .ok (inetShift addr offset prefixLen)
  | .inet6, addr, offset, prefixLen =>
    if inetSize .inet6 < prefixLen then .ok none
    else if prefixLen = 0 then .error .overshift
    else if 16 ∣ place.loc then .ok (inetShift addr offset prefixLen)
    else .error .misaligned

/-! ## Checksums -/

/-- A `uint16_t` loaded from memory. -/
def load16 (m : Mem) (a : ℕ) : ℕ := (m a).toNat + (m (a + 1)).toNat * 256

/-- Store a `uint16_t`. -/
def store16 (m : Mem) (a w : ℕ) : Mem := write m a [UInt8.ofNat w, UInt8.ofNat (w / 256)]

/-- `htons`, and `ntohs`. -/
def htons (w : ℕ) : ℕ := w % 256 * 256 + w / 256 % 256

/-- `inet_cksum_continue` over `count` bytes at `a`. -/
def inetCksumContinue (sum : ℕ) (m : Mem) (a : ℕ) : ℕ → ℕ
  | 0 => sum
  | 1 => (sum + (m a).toNat) % 2 ^ 32
  | count + 2 => inetCksumContinue ((sum + load16 m a) % 2 ^ 32) m (a + 2) count

/-- `inet_cksum_finish`. -/
def inetCksumFinish (sum : ℕ) : ℕ :=
  let sum := sum / 2 ^ 16 + sum % 2 ^ 16
  let sum := sum + sum / 2 ^ 16
  (2 ^ 32 - 1 - sum % 2 ^ 32) % 2 ^ 16

/-- `_inet_cksum`, the checksum field being at `cksum`: the field is cleared, the block summed,
the result stored. -/
def inetCksumAt (m : Mem) (cksum a count : ℕ) (append : Bool) : Mem :=
  let m := store16 m cksum 0
  let init := if append then 0xffff else 0
  store16 m cksum (inetCksumFinish ((init + inetCksumContinue 0 m a count) % 2 ^ 32))

/-- `inet_cksum_header`. -/
def inetCksumHeader (m : Mem) (cksum a count : ℕ) : Mem := inetCksumAt m cksum a count true

/-- `inet_cksum`. -/
def inetCksum (m : Mem) (cksum a count : ℕ) : Mem := inetCksumAt m cksum a count false

end Rdnstun
