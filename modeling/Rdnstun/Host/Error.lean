import Rdnstun.Host.Datagram
import Rdnstun.Host.Icmp

/-!
# Error messages

* `HeaderRewritten`: the bytes of the IP header that an error message has of its own.
* `ErrorMessage`: what an error message is made of, byte for byte.
* **`errorMessage_replyOf`**: the reply functions build it in the place of the packet.
-/

namespace Rdnstun

open Memory

variable {af : Af} {pkt m : Mem} {len k : ℕ}

/-- The length field of the header. -/
def Af.lengthField : Af → ℕ
  | .inet => Ip.ipLen
  | .inet6 => Ip6.ip6Plen

/-- The length that the header of an error message declares. -/
def Af.errorLength : Af → ℕ
  | .inet => Ip.sizeofIpicmp
  | .inet6 => Ip6.sizeofIpicmp6 - Ip6.sizeofIp6Hdr

/-- The header bytes of length, protocol, TTL, checksum and addresses. -/
def HeaderRewritten (af : Af) (k : ℕ) : Prop :=
  k = af.lengthField ∨ k = af.lengthField + 1 ∨ k = af.wire.proto ∨ k = af.wire.ttl ∨
    (af = .inet ∧ (k = Ip.ipSum ∨ k = Ip.ipSum + 1)) ∨ af.wire.src ≤ k

/-- The ICMP error message for a packet: header, ICMP header, and the start of the packet. -/
structure ErrorMessage (pkt : Mem) (af : Af) (r : Reply) : Prop where
  ret : r.ret = 0
  len : r.len = af.wire.errorLen
  size : af.wire.errorLen = af.wire.icmp + 8 + (af.wire.icmp + 8)
  quote : ∀ k < af.wire.icmp + 8, r.packet (af.wire.icmp + 8 + k) = pkt k
  unused : ∀ k < 4, r.packet (af.wire.icmp + 4 + k) = 0
  length : word16 r.packet af.lengthField = af.errorLength
  proto : r.packet af.wire.proto = af.wire.icmpProto
  icmp : IcmpVerifies af r.packet r.len
  header : af = .inet → SumsToOnes r.packet 0 10
  kept : ∀ k < af.wire.icmp, ¬ HeaderRewritten af k → r.packet k = pkt k

/-! ## IPv4 -/

theorem icmpVerifies_congr {m' : Mem} (h : ∀ k, Ip.sizeofIp ≤ k → m' k = m k)
    (hm : IcmpVerifies .inet m len) : IcmpVerifies .inet m' len := by
  have hsum : icmpSum .inet m' len = icmpSum .inet m len := by
    rw [icmpSum, icmpSum]
    exact congrArg _ (byteSum_congr fun k _ => h _ (Nat.le_add_right _ _))
  rw [icmpVerifies_iff] at hm ⊢
  rwa [hsum]

namespace FakeHost

variable {self : FakeHost .inet} {ttl : UInt8}

theorem icmpVerifies_append (o : Outcome) : IcmpVerifies .inet (append o pkt) Ip.sizeofIpicmp := by
  -- the message is complete when its checksum is stored
  refine icmpVerifies_congr (m := inetCksum (write (set (set (copy (copy pkt 28 0 20) 48 20 8) 20
    o.icmp.1) 21 o.icmp.2) 24 [0, 0, 0, 0]) Ip.icmpChecksum Ip.icmpType
      (Ip.sizeofIpicmp - Ip.sizeofIp)) (fun k hk => ?_) ?_
  · change 20 ≤ k at hk
    rw [append_def, store16_of_ne _ (by omega) (by omega), set_of_ne _ (by omega)]
    rfl
  · rw [inetCksum_eq (by decide)]
    exact icmpVerifies_icmpChecksum (by decide) (by decide)

theorem errorMessage_append (o : Outcome) (hhl : ipHl pkt = 5) :
    ErrorMessage pkt .inet ⟨0, self.noAppend ttl (append o pkt), Ip.sizeofIpicmp⟩ where
  ret := rfl
  len := rfl
  size := rfl
  quote k hk := by
    show self.noAppend ttl (append o pkt) (28 + k) = pkt k
    rw [noAppend_of_ne (by omega), append_quote o hk]
  unused k hk := by
    show self.noAppend ttl (append o pkt) (24 + k) = 0
    rw [noAppend_of_ne (by omega), append_unused o hk]
  length := by
    show word16 (self.noAppend ttl (append o pkt)) Ip.ipLen = 56
    rw [word16_congr (noAppend_of_ne (by decide)) (noAppend_of_ne (by decide)), append_len]
  proto := by
    show self.noAppend ttl (append o pkt) Ip.ipP = IPPROTO_ICMP
    rw [noAppend_of_ne (by decide), append_proto]
  icmp := icmpVerifies_congr (fun k hk => noAppend_of_ne (.inr (.inr hk))) (icmpVerifies_append o)
  header _ := by
    refine sumsToOnes_noAppend ?_
    rw [append_zero]
    unfold ipHl at hhl
    omega
  kept k hk hkeep := by
    show self.noAppend ttl (append o pkt) k = pkt k
    have hk' : k < 8 ∧ k ≠ 2 ∧ k ≠ 3 := by
      simp only [HeaderRewritten, Af.lengthField, Af.wire, Ip.ipLen, Ip.ipP, Ip.ipTtl, Ip.ipSum,
        Ip.ipSrc, true_and] at hkeep
      omega
    rw [noAppend_of_ne (by omega), append_of_lt o (by omega) (by omega) (by omega) (by omega)]

end FakeHost

/-! ## IPv6 -/

namespace FakeHost6

variable {self : FakeHost .inet6} {ttl : UInt8}

theorem append_plen (o : Outcome) : word16 (append o pkt) Ip6.ip6Plen = 56 := by
  have hstore := word16_store16_htons (write (set (set (copy (copy pkt 48 0 40) 88 40 8) 40
    o.icmp6.1) 41 o.icmp6.2) 44 [0, 0, 0, 0]) 4 (show 56 < 65536 by decide)
  refine Eq.trans (word16_congr ?_ ?_) hstore
  · rw [append_def, set_of_ne _ (by decide)]
  · rw [append_def, set_of_ne _ (by decide)]

theorem icmpVerifies_noAppend (hle : 44 ≤ len) (hmax : len < 65536)
    (hplen : word16 m Ip6.ip6Plen = len - Ip6.sizeofIp6Hdr)
    (hnxt : m Ip6.ip6Nxt = IPPROTO_ICMPV6) :
    IcmpVerifies .inet6 (noAppend self ttl m len false) len := by
  have hsize : Ip6.sizeofIp6Hdr = 40 := rfl
  rw [noAppend_eq hmax (by omega) hplen hnxt]
  exact icmpVerifies_icmpChecksum hle hmax

theorem errorMessage_append (o : Outcome) : ErrorMessage pkt .inet6
    ⟨0, noAppend self ttl (append o pkt) Ip6.sizeofIpicmp6 false, Ip6.sizeofIpicmp6⟩ where
  ret := rfl
  len := rfl
  size := rfl
  quote k hk := by
    show noAppend self ttl (append o pkt) Ip6.sizeofIpicmp6 false (48 + k) = pkt k
    rw [noAppend_of_ne (by omega) (by omega) (by omega), append_quote o hk]
  unused k hk := by
    show noAppend self ttl (append o pkt) Ip6.sizeofIpicmp6 false (44 + k) = 0
    rw [noAppend_of_ne (by omega) (by omega) (by omega), append_unused o hk]
  length := by
    show word16 (noAppend self ttl (append o pkt) Ip6.sizeofIpicmp6 false) Ip6.ip6Plen = 56
    rw [word16_congr (noAppend_of_ne (by decide) (by decide) (by decide))
      (noAppend_of_ne (by decide) (by decide) (by decide)), append_plen]
  proto := by
    show noAppend self ttl (append o pkt) Ip6.sizeofIpicmp6 false Ip6.ip6Nxt = IPPROTO_ICMPV6
    rw [noAppend_of_ne (by decide) (by decide) (by decide), append_proto]
  icmp := icmpVerifies_noAppend (by decide) (by decide) (append_plen o) (append_proto o)
  header h := by cases h
  kept k hk hkeep := by
    show noAppend self ttl (append o pkt) Ip6.sizeofIpicmp6 false k = pkt k
    have hk' : k < 4 := by
      simp only [HeaderRewritten, Af.lengthField, Af.wire, Ip6.ip6Plen, Ip6.ip6Nxt, Ip6.ip6Hlim,
        Ip6.ip6Src] at hkeep
      omega
    rw [noAppend_of_ne (by omega) (by omega) (by omega),
      append_of_lt o (by omega) (by omega) (by omega) (by omega)]

end FakeHost6

/-- **An error message** is built in the place of the packet that it quotes. -/
theorem errorMessage_replyOf {self : FakeHost af} {ttl : UInt8}
    (hhl : af = .inet → ipHl pkt = 5) (h : ttl < pkt af.wire.ttl)
    (ho : self.outcomeOf ttl pkt ≠ .ignored) (hecho : self.outcomeOf ttl pkt ≠ .echoReply) :
    ErrorMessage pkt af (self.replyOf ttl pkt len) := by
  cases af
  · rw [FakeHost.replyOf, FakeHost.reply_append h rfl ho hecho]
    exact FakeHost.errorMessage_append _ (hhl rfl)
  · rw [FakeHost.replyOf, FakeHost6.reply_append h rfl ho hecho]
    exact FakeHost6.errorMessage_append _

/-- A UDP datagram from `192.0.2.1` to `10.0.0.1` with TTL 1. -/
def datagram : Mem := fun k =>
  [0x45, 0, 0, 28, 0, 0, 0, 0, 1, 17, 0, 0, 192, 0, 2, 1, 10, 0, 0, 1, 130, 154].getD k 0

theorem errorMessage_datagram : ErrorMessage datagram .inet
    ((⟨64, 1500, .v4 10 0 0 1⟩ : FakeHost .inet).replyOf 0 datagram 28) :=
  errorMessage_replyOf (fun _ => by decide) (by decide) (by decide) (by decide)

end Rdnstun
