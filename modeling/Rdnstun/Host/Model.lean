import Rdnstun.Inet.Model

/-!
# Fake hosts and their replies

The model of `host.c`. A packet is the memory from the start of its buffer on; a reply patches it
in place. The fields of `struct ipicmp` and `struct ipicmp6` are offsets into that memory.

* `Outcome`: the branches of the two reply functions.
* `FakeHost.outcome`, `FakeHost6.outcome`: the branch a packet takes.
* `FakeHost.reply`, `FakeHost6.reply`: the whole functions.
-/

namespace Rdnstun

open Memory

/-- `struct FakeHost` and `struct FakeHost6`. -/
structure FakeHost (af : Af) where
  ttl : UInt8
  mtu : UInt16
  addr : Addr af
  deriving DecidableEq

/-- A zeroed host: the end marker of a chain. -/
def FakeHost.null (af : Af) : FakeHost af := ⟨0, 0, Addr.any af⟩

/-- `BaseFakeHost_isnull`. -/
def FakeHost.isnull {af : Af} (self : FakeHost af) : Bool := self.addr = Addr.any af

@[simp] theorem FakeHost.isnull_null (af : Af) : (FakeHost.null af).isnull = true := by
  simp [FakeHost.isnull, FakeHost.null]

/-- What a reply function returns and leaves in its two in-out arguments. -/
structure Reply where
  ret : ℕ
  packet : Mem
  len : ℕ

/-- The branches of a reply function. -/
inductive Outcome where
  | timeExceeded | hostUnreachable | portUnreachable | ignored | echoReply
  deriving DecidableEq

/-! ## The fields of `struct ipicmp` -/

namespace Ip

abbrev ipLen : ℕ := 2
abbrev ipTtl : ℕ := 8
abbrev ipP : ℕ := 9
abbrev ipSum : ℕ := 10
abbrev ipSrc : ℕ := 12
abbrev ipDst : ℕ := 16
abbrev icmpType : ℕ := 20
abbrev icmpCode : ℕ := 21
abbrev icmpChecksum : ℕ := 22
abbrev icmpUn : ℕ := 24
abbrev origIp : ℕ := 28
abbrev origData : ℕ := 48
abbrev data : ℕ := 20

/-- `sizeof(struct ip)`. -/
abbrev sizeofIp : ℕ := 20

/-- `sizeof(struct ipicmp)`. -/
abbrev sizeofIpicmp : ℕ := 56

end Ip

/-- `IPPROTO_ICMP`. -/
abbrev IPPROTO_ICMP : UInt8 := 1

/-- `ICMP_ECHO`. -/
abbrev ICMP_ECHO : UInt8 := 8

/-- `ICMP_ECHOREPLY`. -/
abbrev ICMP_ECHOREPLY : UInt8 := 0

/-- The type and code of the ICMP header of an outcome: `ICMP_TIMXCEED`, `ICMP_UNREACH` with
`ICMP_UNREACH_HOST` or `ICMP_UNREACH_PORT`, `ICMP_ECHOREPLY`. -/
def Outcome.icmp : Outcome → UInt8 × UInt8
  | .timeExceeded => (11, 0)
  | .hostUnreachable => (3, 1)
  | .portUnreachable => (3, 3)
  | .ignored | .echoReply => (ICMP_ECHOREPLY, 0)

namespace FakeHost

/-- The branch that `FakeHost_reply` takes once the TTL is known to suffice. -/
def outcome (self : FakeHost .inet) (ttl : UInt8) (pkt : Mem) : Outcome :=
  let receiveTtl := pkt Ip.ipTtl - ttl
  let dstIsTarget := self.addr = Addr.load .inet pkt Ip.ipDst
  if receiveTtl = 1 ∧ ¬ dstIsTarget then .timeExceeded
  else if ¬ dstIsTarget then .hostUnreachable
  else if pkt Ip.ipP = IPPROTO_ICMP then
    if pkt Ip.icmpType ≠ ICMP_ECHO then .ignored else .echoReply
  else .portUnreachable

/-- The label `no_append`: the new IP header. -/
def noAppend (self : FakeHost .inet) (ttl : UInt8) (pkt : Mem) : Mem :=
  let pkt := set pkt Ip.ipTtl (self.ttl - ttl)
  let pkt := copy pkt Ip.ipDst Ip.ipSrc 4
  let pkt := write pkt Ip.ipSrc self.addr.bytes
  inetCksumHeader pkt Ip.ipSum 0 Ip.sizeofIp

/-- The new ICMP header, with the received header and eight bytes quoted behind it. -/
def append (o : Outcome) (pkt : Mem) : Mem :=
  let pkt := copy pkt Ip.origIp 0 Ip.sizeofIp
  let pkt := copy pkt Ip.origData Ip.data 8
  -- fix icmp header
  let pkt := set pkt Ip.icmpType o.icmp.1
  let pkt := set pkt Ip.icmpCode o.icmp.2
  let pkt := write pkt Ip.icmpUn [0, 0, 0, 0]
  let pkt := inetCksum pkt Ip.icmpChecksum Ip.icmpType (Ip.sizeofIpicmp - Ip.sizeofIp)
  -- fix ip header
  let pkt := set pkt Ip.ipP IPPROTO_ICMP
  store16 pkt Ip.ipLen (htons Ip.sizeofIpicmp)

/-- The ICMP header of an echo reply whose length does not change: the checksum is patched. -/
def patchEcho (pkt : Mem) : Mem :=
  let pkt := set pkt Ip.icmpType ICMP_ECHOREPLY
  let pkt := set pkt Ip.icmpCode 0
  let checksum := (load16 pkt Ip.icmpChecksum + (8 - 0)) % 2 ^ 32
  store16 pkt Ip.icmpChecksum ((checksum / 2 ^ 16 + checksum % 2 ^ 16) % 2 ^ 16)

/-- The headers of an echo reply cut to `len` bytes; `len - sizeof(struct ip)` is a `size_t`. -/
def truncateEcho (len : ℕ) (pkt : Mem) : Mem :=
  let pkt := set pkt Ip.icmpType ICMP_ECHOREPLY
  let pkt := set pkt Ip.icmpCode 0
  let pkt := store16 pkt Ip.ipLen (htons len)
  inetCksum pkt Ip.icmpChecksum Ip.icmpType ((len + 2 ^ 64 - Ip.sizeofIp) % 2 ^ 64)

/-- `FakeHost_reply`. -/
def reply (self : FakeHost .inet) (ttl : UInt8) (packet : Mem) (len : ℕ) : Reply :=
  if packet Ip.ipTtl > ttl then
    match self.outcome ttl packet with
    | .ignored => ⟨0, packet, 0⟩
    | .echoReply =>
      if len ≤ self.mtu.toNat then ⟨0, self.noAppend ttl (patchEcho packet), len⟩
      else ⟨0, self.noAppend ttl (truncateEcho self.mtu.toNat packet), self.mtu.toNat⟩
    | o => ⟨0, self.noAppend ttl (append o packet), Ip.sizeofIpicmp⟩
  else ⟨1, packet, len⟩

end FakeHost

/-! ## The fields of `struct ipicmp6` -/

namespace Ip6

abbrev ip6Plen : ℕ := 4
abbrev ip6Nxt : ℕ := 6
abbrev ip6Hlim : ℕ := 7
abbrev ip6Src : ℕ := 8
abbrev ip6Dst : ℕ := 24
abbrev icmp6Type : ℕ := 40
abbrev icmp6Code : ℕ := 41
abbrev icmp6Cksum : ℕ := 42
abbrev icmp6Dataun : ℕ := 44
abbrev origIp : ℕ := 48
abbrev origData : ℕ := 88
abbrev data : ℕ := 40

/-- `sizeof(struct ip6_hdr)`. -/
abbrev sizeofIp6Hdr : ℕ := 40

/-- `sizeof(struct ipicmp6)`. -/
abbrev sizeofIpicmp6 : ℕ := 96

end Ip6

/-- `IPPROTO_ICMPV6`. -/
abbrev IPPROTO_ICMPV6 : UInt8 := 58

/-- `ICMP6_ECHO_REQUEST`. -/
abbrev ICMP6_ECHO_REQUEST : UInt8 := 128

/-- `ICMP6_ECHO_REPLY`. -/
abbrev ICMP6_ECHO_REPLY : UInt8 := 129

/-- The type and code of the ICMPv6 header of an outcome: `ICMP6_TIME_EXCEEDED`,
`ICMP6_DST_UNREACH` with `ICMP6_DST_UNREACH_ADDR` or `ICMP6_DST_UNREACH_NOPORT`,
`ICMP6_ECHO_REPLY`. -/
def Outcome.icmp6 : Outcome → UInt8 × UInt8
  | .timeExceeded => (3, 0)
  | .hostUnreachable => (1, 3)
  | .portUnreachable => (1, 4)
  | .ignored | .echoReply => (ICMP6_ECHO_REPLY, 0)

namespace FakeHost6

/-- The branch that `FakeHost6_reply` takes once the hop limit is known to suffice. -/
def outcome (self : FakeHost .inet6) (ttl : UInt8) (pkt : Mem) : Outcome :=
  let receiveTtl := pkt Ip6.ip6Hlim - ttl
  let dstIsTarget := self.addr = Addr.load .inet6 pkt Ip6.ip6Dst
  if receiveTtl = 1 ∧ ¬ dstIsTarget then .timeExceeded
  else if ¬ dstIsTarget then .hostUnreachable
  else if pkt Ip6.ip6Nxt = IPPROTO_ICMPV6 then
    if pkt Ip6.icmp6Type ≠ ICMP6_ECHO_REQUEST then .ignored else .echoReply
  else .portUnreachable

/-- The label `no_append`: the new IP header and, unless `checksumOk`, the ICMPv6 checksum over
the pseudo-header and the `len - sizeof(struct ip6_hdr)` bytes of the message. -/
def noAppend (self : FakeHost .inet6) (ttl : UInt8) (pkt : Mem) (len : ℕ) (checksumOk : Bool) :
    Mem :=
  let pkt := set pkt Ip6.ip6Hlim (self.ttl - ttl)
  let pkt := copy pkt Ip6.ip6Dst Ip6.ip6Src 16
  let pkt := write pkt Ip6.ip6Src self.addr.bytes
  if checksumOk then pkt
  else
    let pkt := store16 pkt Ip6.icmp6Cksum 0
    let sum := inetCksumContinue 0 pkt Ip6.ip6Src 32
    let sum := (sum + load16 pkt Ip6.ip6Plen) % 2 ^ 32
    let sum := (sum + htons (pkt Ip6.ip6Nxt).toNat) % 2 ^ 32
    let count := (len + 2 ^ 64 - Ip6.sizeofIp6Hdr) % 2 ^ 64
    let sum := inetCksumContinue sum pkt Ip6.icmp6Type count
    store16 pkt Ip6.icmp6Cksum (inetCksumFinish sum)

/-- The new ICMPv6 header, with the received header and eight bytes quoted behind it. -/
def append (o : Outcome) (pkt : Mem) : Mem :=
  let pkt := copy pkt Ip6.origIp 0 Ip6.sizeofIp6Hdr
  let pkt := copy pkt Ip6.origData Ip6.data 8
  -- fix icmp header
  let pkt := set pkt Ip6.icmp6Type o.icmp6.1
  let pkt := set pkt Ip6.icmp6Code o.icmp6.2
  let pkt := write pkt Ip6.icmp6Dataun [0, 0, 0, 0]
  -- fix ip header
  let pkt := store16 pkt Ip6.ip6Plen (htons (Ip6.sizeofIpicmp6 - Ip6.sizeofIp6Hdr))
  set pkt Ip6.ip6Nxt IPPROTO_ICMPV6

/-- The ICMPv6 header of an echo reply whose length does not change: the checksum is patched, the
difference of the two types being `-1` as a `uint32_t`. -/
def patchEcho (pkt : Mem) : Mem :=
  let pkt := set pkt Ip6.icmp6Type ICMP6_ECHO_REPLY
  let pkt := set pkt Ip6.icmp6Code 0
  let checksum := (load16 pkt Ip6.icmp6Cksum + (128 + 2 ^ 32 - 129)) % 2 ^ 32
  store16 pkt Ip6.icmp6Cksum ((checksum / 2 ^ 16 + checksum % 2 ^ 16) % 2 ^ 16)

/-- The headers of an echo reply cut to `len` bytes. -/
def truncateEcho (len : ℕ) (pkt : Mem) : Mem :=
  let pkt := set pkt Ip6.icmp6Type ICMP6_ECHO_REPLY
  let pkt := set pkt Ip6.icmp6Code 0
  store16 pkt Ip6.ip6Plen (htons ((len + 2 ^ 64 - Ip6.sizeofIp6Hdr) % 2 ^ 16))

/-- `FakeHost6_reply`. -/
def reply (self : FakeHost .inet6) (ttl : UInt8) (packet : Mem) (len : ℕ) : Reply :=
  if packet Ip6.ip6Hlim > ttl then
    match outcome self ttl packet with
    | .ignored => ⟨0, packet, 0⟩
    | .echoReply =>
      if len ≤ self.mtu.toNat then ⟨0, noAppend self ttl (patchEcho packet) len true, len⟩
      else
        let len := self.mtu.toNat
        ⟨0, noAppend self ttl (truncateEcho len packet) len false, len⟩
    | o =>
      let len := Ip6.sizeofIpicmp6
      ⟨0, noAppend self ttl (append o packet) len false, len⟩
  else ⟨1, packet, len⟩

end FakeHost6

end Rdnstun
