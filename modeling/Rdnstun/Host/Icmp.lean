import Rdnstun.Host.Wire
import Rdnstun.Inet.Verify

/-!
# The checksum of an ICMP message

* `icmpWords`, `IcmpVerifies`: the words that the checksum covers, and how a receiver verifies it.
* `icmpSum`: their sum in the machine's order, in two parts; `icmpVerifies_iff`.
* `icmpChecksum`: the checksum that the code computes from scratch.
* **`icmpVerifies_icmpChecksum`**: it verifies; `inetCksum_eq`, `noAppend_eq`: the code stores it.
-/

namespace Rdnstun

open Memory Carry

variable {af : Af} {m m' pkt : Mem} {len k w : ℕ}

/-- The words in front of the message: those of the pseudo-header in IPv6. -/
def pseudoWords : Af → Mem → ℕ → List ℕ
  | .inet, _, _ => []
  | .inet6, pkt, len =>
    let n := len - Ip6.sizeofIp6Hdr
    wordsAt pkt Ip6.ip6Src 32 ++ [n / 65536 % 65536] ++ [n % 65536] ++ [0] ++
      [IPPROTO_ICMPV6.toNat]

/-- The words that the ICMP checksum of a packet of `len` bytes covers. -/
def icmpWords (af : Af) (pkt : Mem) (len : ℕ) : List ℕ :=
  pseudoWords af pkt len ++ wordsAt pkt af.wire.icmp (len - af.wire.icmp)

/-- The ICMP checksum of a packet of `len` bytes verifies. -/
def IcmpVerifies (af : Af) (pkt : Mem) (len : ℕ) : Prop := Verifies (icmpWords af pkt len)

instance (af : Af) (pkt : Mem) (len : ℕ) : Decidable (IcmpVerifies af pkt len) :=
  inferInstanceAs (Decidable (Verifies _))

/-- The sum of the words in front of the message, in the machine's order. -/
def pseudoSum : Af → Mem → ℕ → ℕ
  | .inet, _, _ => 0
  | .inet6, pkt, len =>
    let n := len - Ip6.sizeofIp6Hdr
    byteSum pkt Ip6.ip6Src 32 + htons (n / 65536 % 65536) + htons (n % 65536) + htons 0 +
      htons IPPROTO_ICMPV6.toNat

/-- The sum of the words that the ICMP checksum covers, in the machine's order. -/
def icmpSum (af : Af) (pkt : Mem) (len : ℕ) : ℕ :=
  pseudoSum af pkt len + byteSum pkt af.wire.icmp (len - af.wire.icmp)

/-- The checksum field of an ICMP message. -/
def Af.icmpCksum (af : Af) : ℕ := af.wire.icmp + 2

/-- The checksum of a packet of `len` bytes, computed from scratch. -/
def icmpChecksum (af : Af) (pkt : Mem) (len : ℕ) : ℕ :=
  inetCksumFinish (icmpSum af (store16 pkt af.icmpCksum 0) len)

/-! ## Verification as a residue -/

theorem swapped_pseudoSum (af : Af) (pkt : Mem) (len : ℕ) :
    Swapped (pseudoSum af pkt len) (pseudoWords af pkt len) := by
  cases af
  · exact ⟨fun x hx => absurd hx List.not_mem_nil, rfl, Iff.rfl⟩
  · have hproto : IPPROTO_ICMPV6.toNat ≤ 65535 := by decide
    have haddrs := swapped_byteSum pkt Ip6.ip6Src 32
    exact (((haddrs.append (swapped_htons (by omega))).append (swapped_htons (by omega))).append
      (swapped_htons (by omega))).append (swapped_htons hproto)

theorem icmpVerifies_iff : IcmpVerifies af pkt len ↔ residue 65535 (icmpSum af pkt len) = 65535 :=
  verifies_iff ((swapped_pseudoSum af pkt len).append (swapped_byteSum pkt _ _))

/-! ## The checksum field -/

theorem pseudoSum_congr (h : ∀ k, Ip6.ip6Src ≤ k → k < Ip6.sizeofIp6Hdr → m k = m' k) :
    pseudoSum af m len = pseudoSum af m' len := by
  cases af
  · rfl
  · have haddrs : byteSum m Ip6.ip6Src 32 = byteSum m' Ip6.ip6Src 32 :=
      byteSum_congr fun k hk => h _ (Nat.le_add_right _ _) (Nat.add_lt_add_left hk 8)
    rw [pseudoSum, pseudoSum, haddrs]

theorem icmpSum_store16 (hlen : af.wire.icmp + 4 ≤ len) (hw : w ≤ 65535) :
    icmpSum af (store16 m af.icmpCksum w) len = icmpSum af (store16 m af.icmpCksum 0) len + w := by
  have hfield : af.icmpCksum = af.wire.icmp + 2 * 1 := rfl
  have hstore (v : ℕ) : pseudoSum af (store16 m af.icmpCksum v) len = pseudoSum af m len := by
    cases af
    · rfl
    · refine pseudoSum_congr fun k _ hk => store16_of_ne v ?_ ?_
      · exact Nat.ne_of_lt (hk.trans (by decide))
      · exact Nat.ne_of_lt (hk.trans (by decide))
  rw [icmpSum, icmpSum, hstore, hstore, hfield, byteSum_store16 m _ (by omega) hw, Nat.add_assoc]

theorem icmpSum_lt (af : Af) (m : Mem) {len : ℕ} (hlen : len < 65536) :
    icmpSum af m len < 2 ^ 32 := by
  have hbytes := byteSum_le m af.wire.icmp (len - af.wire.icmp)
  have hpseudo : pseudoSum af m len ≤ 65535 * 20 := by
    cases af
    · exact Nat.zero_le _
    · have haddrs := byteSum_le m Ip6.ip6Src 32
      have hswap (v : ℕ) : htons v ≤ 65535 := by
        unfold htons
        omega
      have h₁ := hswap ((len - Ip6.sizeofIp6Hdr) / 65536 % 65536)
      have h₂ := hswap ((len - Ip6.sizeofIp6Hdr) % 65536)
      have h₃ := hswap 0
      have h₄ := hswap IPPROTO_ICMPV6.toNat
      unfold pseudoSum
      dsimp only
      omega
  unfold icmpSum
  omega

/-- **A checksum computed from scratch** verifies. -/
theorem icmpVerifies_icmpChecksum (hlen : af.wire.icmp + 4 ≤ len) (hmax : len < 65536) :
    IcmpVerifies af (store16 m af.icmpCksum (icmpChecksum af m len)) len := by
  rw [icmpVerifies_iff, icmpChecksum, icmpSum_store16 hlen (inetCksumFinish_le _)]
  exact residue_add_finish (icmpSum_lt _ _ hmax)

/-- A checksum that verifies is the one computed from scratch, up to the two zeros. -/
theorem IcmpVerifies.modEq (h : IcmpVerifies af pkt len) (hlen : af.wire.icmp + 4 ≤ len)
    (hmax : len < 65536) :
    load16 pkt af.icmpCksum ≡ icmpChecksum af pkt len [MOD 65535] := by
  refine modEq_finish (icmpSum_lt _ _ hmax) ?_
  rw [← icmpSum_store16 hlen (load16_le _ _), store16_load16]
  exact icmpVerifies_iff.mp h

/-! ## The checksum in the code -/

theorem inetCksum_eq (hmax : len < 65536) :
    inetCksum m Ip.icmpChecksum Ip.icmpType (len - Ip.sizeofIp) =
      store16 m Ip.icmpChecksum (icmpChecksum .inet m len) := by
  have hlt := icmpSum_lt .inet (store16 m Ip.icmpChecksum 0) hmax
  have hsum : icmpSum .inet (store16 m Ip.icmpChecksum 0) len =
      byteSum (store16 m Ip.icmpChecksum 0) Ip.icmpType (len - Ip.sizeofIp) := Nat.zero_add _
  rw [hsum] at hlt
  rw [inetCksum, inetCksumAt, inetCksumContinue_eq_byteSum (by rwa [Nat.zero_add]),
    if_neg Bool.false_ne_true, Nat.zero_add, Nat.zero_add, Nat.mod_eq_of_lt hlt, store16_store16,
    icmpChecksum]
  exact congrArg _ (congrArg _ hsum.symm)

/-- The sums of the pseudo-header, where the header has the length and the protocol. -/
theorem pseudoSum_eq (hmax : len < 65536) (hplen : word16 m Ip6.ip6Plen = len - Ip6.sizeofIp6Hdr)
    (hnxt : m Ip6.ip6Nxt = IPPROTO_ICMPV6) : pseudoSum .inet6 m len =
      byteSum m Ip6.ip6Src 32 + load16 m Ip6.ip6Plen + htons (m Ip6.ip6Nxt).toNat := by
  have hhigh : (len - Ip6.sizeofIp6Hdr) / 65536 % 65536 = 0 := by omega
  have hlow : (len - Ip6.sizeofIp6Hdr) % 65536 = len - Ip6.sizeofIp6Hdr := by omega
  have hzero : htons 0 = 0 := rfl
  rw [load16_eq_htons, hplen, hnxt]
  simp only [pseudoSum, hhigh, hlow, hzero, Nat.add_zero]

theorem inetCksumContinue_eq_icmpSum (hmax : len < 65536)
    (hplen : word16 m Ip6.ip6Plen = len - Ip6.sizeofIp6Hdr)
    (hnxt : m Ip6.ip6Nxt = IPPROTO_ICMPV6) :
    inetCksumContinue (((inetCksumContinue 0 m Ip6.ip6Src 32 + load16 m Ip6.ip6Plen) % 2 ^ 32 +
      htons (m Ip6.ip6Nxt).toNat) % 2 ^ 32) m Ip6.icmp6Type (len - Ip6.sizeofIp6Hdr) =
        icmpSum .inet6 m len := by
  have hlt := icmpSum_lt .inet6 m hmax
  have hsum : icmpSum .inet6 m len = byteSum m Ip6.ip6Src 32 + load16 m Ip6.ip6Plen +
      htons (m Ip6.ip6Nxt).toNat + byteSum m Ip6.icmp6Type (len - Ip6.sizeofIp6Hdr) := by
    rw [icmpSum, pseudoSum_eq hmax hplen hnxt]
    rfl
  rw [hsum] at hlt ⊢
  have haddrs : inetCksumContinue 0 m Ip6.ip6Src 32 = byteSum m Ip6.ip6Src 32 := by
    rw [inetCksumContinue_eq_byteSum (by omega), Nat.zero_add]
  rw [haddrs, Nat.mod_eq_of_lt (show byteSum m Ip6.ip6Src 32 + load16 m Ip6.ip6Plen < _ by omega),
    Nat.mod_eq_of_lt (by omega), inetCksumContinue_eq_byteSum hlt]

/-- The checksum of an IPv6 packet is computed from scratch, if its header has the length and the
protocol. -/
theorem noAppend_eq {self : FakeHost .inet6} {ttl : UInt8} (hmax : len < 65536)
    (hle : Ip6.sizeofIp6Hdr ≤ len) (hplen : word16 m Ip6.ip6Plen = len - Ip6.sizeofIp6Hdr)
    (hnxt : m Ip6.ip6Nxt = IPPROTO_ICMPV6) :
    FakeHost6.noAppend self ttl m len false = store16 (FakeHost6.header self ttl m) Ip6.icmp6Cksum
      (icmpChecksum .inet6 (FakeHost6.header self ttl m) len) := by
  have hkeep (k : ℕ) (hk : k < 7) :
      store16 (FakeHost6.header self ttl m) Ip6.icmp6Cksum 0 k = m k := by
    have hcksum : Ip6.icmp6Cksum = 42 := rfl
    rw [store16_of_ne _ (by omega) (by omega), FakeHost6.header_of_ne (.inl hk)]
  have hplen' : word16 (store16 (FakeHost6.header self ttl m) Ip6.icmp6Cksum 0) Ip6.ip6Plen =
      len - Ip6.sizeofIp6Hdr := by
    rw [word16, hkeep _ (by decide), hkeep _ (by decide)]
    exact hplen
  have hnxt' : store16 (FakeHost6.header self ttl m) Ip6.icmp6Cksum 0 Ip6.ip6Nxt =
      IPPROTO_ICMPV6 := (hkeep _ (by decide)).trans hnxt
  have hcount : (len + 2 ^ 64 - 40) % 2 ^ 64 = len - Ip6.sizeofIp6Hdr := by
    have hsize : Ip6.sizeofIp6Hdr = 40 := rfl
    omega
  have hsum := inetCksumContinue_eq_icmpSum hmax hplen' hnxt'
  rw [FakeHost6.noAppend_def, if_neg Bool.false_ne_true, icmpChecksum]
  dsimp only
  rw [hcount, store16_store16]
  exact congrArg _ (congrArg _ hsum)

end Rdnstun
