import Rdnstun.Host.Error

/-!
# Echo replies

* `VerifiedEcho`: a request for a host, with a checksum that verifies.
* `EchoReplied`: the reply that it asks for.
* `icmpSum_split`: the checksum and the first word, taken out of the sum.
* **`echoReplied_iff`**: a host sends that reply if the code is zero or the request is cut.
* `not_echoExact`: it does not where it patches the checksum of a request with another code.
-/

namespace Rdnstun

open Memory Carry

variable {af : Af} {pkt m m' : Mem} {len : ℕ}

/-- An echo request for a host, which its TTL admits, in `len` bytes. -/
structure VerifiedEcho (host : FakeHost af) (ttl : UInt8) (pkt : Mem) (len : ℕ) : Prop where
  ttl : ttl < pkt af.wire.ttl
  addr : host.addr = Addr.load af pkt af.wire.dst
  proto : pkt af.wire.proto = af.wire.icmpProto
  type : pkt af.wire.icmp = af.wire.echo
  size : af.wire.icmp + 8 ≤ len
  max : len < 65536
  length : af = .inet6 → word16 pkt Ip6.ip6Plen = len - Ip6.sizeofIp6Hdr
  icmp : IcmpVerifies af pkt len
  mtu : af.wire.icmp + 8 ≤ host.mtu.toNat

/-- The reply to an echo request. Its checksum is the one computed from scratch, up to the two
zeros. -/
structure EchoReplied (host : FakeHost af) (pkt : Mem) (len : ℕ) (r : Reply) : Prop where
  ret : r.ret = 0
  len : r.len = min len host.mtu.toNat
  type : r.packet af.wire.icmp = (Outcome.echoReply.typeCode af).1
  code : r.packet (af.wire.icmp + 1) = 0
  payload : ∀ k < r.len, af.icmpCksum + 2 ≤ k → r.packet k = pkt k
  icmp : IcmpVerifies af r.packet r.len
  cksum : load16 r.packet af.icmpCksum ≡ icmpChecksum af r.packet r.len [MOD 65535]

/-- Every echo request gets its reply. -/
def EchoExact : Prop :=
  ∀ (af : Af) (self : FakeHost af) (ttl : UInt8) (pkt : Mem) (len : ℕ),
    VerifiedEcho self ttl pkt len → EchoReplied self pkt len (self.replyOf ttl pkt len)

theorem VerifiedEcho.outcome_eq {self : FakeHost af} {ttl : UInt8}
    (h : VerifiedEcho self ttl pkt len) : self.outcomeOf ttl pkt = .echoReply := by
  rw [FakeHost.outcomeOf_of_eq h.addr, if_pos h.proto, if_pos h.type]

/-- All but the checksum is right in every reply. -/
theorem VerifiedEcho.replied_iff {self : FakeHost af} {ttl : UInt8}
    (h : VerifiedEcho self ttl pkt len)
    (hpayload : ∀ k, af.icmpCksum + 2 ≤ k → (self.replyOf ttl pkt len).packet k = pkt k) :
    EchoReplied self pkt len (self.replyOf ttl pkt len) ↔
      IcmpVerifies af (self.replyOf ttl pkt len).packet (self.replyOf ttl pkt len).len := by
  have hans : FakeHost.Answered _ _ _ len _ _ :=
    FakeHost.replyOf_answered h.ttl (by rw [h.outcome_eq]; decide)
  rw [h.outcome_eq] at hans
  have hlen : (self.replyOf ttl pkt len).len = min len self.mtu.toNat := hans.len
  refine ⟨EchoReplied.icmp, fun hicmp => ?_⟩
  refine ⟨hans.ret, hlen, hans.type, ?_, fun k _ hk => hpayload k hk, hicmp, ?_⟩
  · rw [hans.code]
    cases af <;> rfl
  · have hsize := h.size
    have hmtu := h.mtu
    have hmax := h.max
    exact hicmp.modEq (by omega) (by omega)

/-! ## The patched checksum -/

/-- The sum of the words in front of the message and of those behind its checksum. -/
def restSum (af : Af) (m : Mem) (len : ℕ) : ℕ :=
  pseudoSum af m len + byteSum m (af.icmpCksum + 2) (len - (af.icmpCksum + 2))

/-- The first word and the checksum, taken out of the sum. -/
theorem icmpSum_split (h : af.icmpCksum + 2 ≤ len) : icmpSum af m len =
    restSum af m len + ((m af.wire.icmp).toNat + (m (af.wire.icmp + 1)).toNat * 256) +
      load16 m af.icmpCksum := by
  have hfield : af.icmpCksum = af.wire.icmp + 2 := rfl
  obtain ⟨n, rfl⟩ : ∃ n, len = af.icmpCksum + 2 + n := ⟨len - (af.icmpCksum + 2), by omega⟩
  rw [icmpSum, restSum, show af.icmpCksum + 2 + n - af.wire.icmp = n + 2 + 2 by omega, byteSum,
    byteSum, load16, Nat.add_sub_cancel_left, hfield]
  ring

theorem pseudoSum_swap (hsrc : Addr.load .inet6 m' Ip6.ip6Src = Addr.load .inet6 m Ip6.ip6Dst)
    (hdst : Addr.load .inet6 m' Ip6.ip6Dst = Addr.load .inet6 m Ip6.ip6Src) :
    pseudoSum .inet6 m' len = pseudoSum .inet6 m len := by
  have hbytes {a b : ℕ} (h : Addr.load .inet6 m' a = Addr.load .inet6 m b) :
      byteSum m' a 16 = byteSum m b 16 := by
    refine byteSum_congr fun k hk => ?_
    have hread : read m' a 16 = read m b 16 := congrArg Addr.bytes h
    have hget := congrArg (·[k]?) hread
    simpa [Memory.read, hk] using hget
  have hsplit (p : Mem) : byteSum p Ip6.ip6Src 32 =
      byteSum p Ip6.ip6Src 16 + byteSum p Ip6.ip6Dst 16 := byteSum_add p 8 8 16
  have hsum : byteSum m' Ip6.ip6Src 32 = byteSum m Ip6.ip6Src 32 := by
    rw [hsplit, hsplit, hbytes hsrc, hbytes hdst, Nat.add_comm]
  rw [pseudoSum, pseudoSum, hsum]

/-- The checksum that the code makes of `c`, by the difference of the two types. -/
def Af.patchedCksum (af : Af) (c : ℕ) : ℕ :=
  let checksum := (c + match af with | .inet => 8 | .inet6 => 2 ^ 32 - 1) % 2 ^ 32
  (checksum / 2 ^ 16 + checksum % 2 ^ 16) % 2 ^ 16

theorem patchedCksum_le (af : Af) (c : ℕ) : af.patchedCksum c ≤ 65535 :=
  Nat.le_of_lt_succ (Nat.mod_lt _ (by decide))

theorem patchedCksum_inet {c : ℕ} (hc : c ≤ 65535) :
    Af.inet.patchedCksum c = if c < 65528 then c + 8 else c + 8 - 65535 := by
  have hsum : (c + 8) % 2 ^ 32 = c + 8 := Nat.mod_eq_of_lt (by omega)
  rw [Af.patchedCksum, hsum]
  split_ifs <;> omega

theorem patchedCksum_inet6 {c : ℕ} (hc : c ≤ 65535) :
    Af.inet6.patchedCksum c = if c = 0 then 65534 else c - 1 := by
  split_ifs with hzero
  · rw [hzero]
    rfl
  · have hsum : (c + (2 ^ 32 - 1)) % 2 ^ 32 = c - 1 := by omega
    rw [Af.patchedCksum, hsum]
    omega

/-- **A patched checksum** verifies if the code that it leaves in the sum is zero. -/
theorem residue_patched_iff {n code c : ℕ} (hcode : code < 256) (hc : c ≤ 65535)
    (h : residue 65535 (n + (af.wire.echo.toNat + code * 256) + c) = 65535) :
    residue 65535 (n + (Outcome.echoReply.typeCode af).1.toNat + af.patchedCksum c) = 65535 ↔
      code = 0 := by
  rw [residue_eq_self_iff (by decide)] at h ⊢
  cases af
  · change 0 < n + (8 + code * 256) + c ∧ 65535 ∣ n + (8 + code * 256) + c at h
    rw [patchedCksum_inet hc]
    show 0 < n + 0 + _ ∧ 65535 ∣ n + 0 + _ ↔ _
    split_ifs <;> omega
  · change 0 < n + (128 + code * 256) + c ∧ 65535 ∣ n + (128 + code * 256) + c at h
    rw [patchedCksum_inet6 hc]
    show 0 < n + 129 + _ ∧ 65535 ∣ n + 129 + _ ↔ _
    split_ifs <;> omega

theorem VerifiedEcho.patched_iff {self : FakeHost af} {ttl : UInt8}
    (h : VerifiedEcho self ttl pkt len) (hrest : restSum af m len = restSum af pkt len)
    (htype : m af.wire.icmp = (Outcome.echoReply.typeCode af).1)
    (hcode : m (af.wire.icmp + 1) = 0)
    (hcksum : load16 m af.icmpCksum = af.patchedCksum (load16 pkt af.icmpCksum)) :
    IcmpVerifies af m len ↔ pkt (af.wire.icmp + 1) = 0 := by
  have hsize : af.icmpCksum + 2 ≤ len := by
    have hsize := h.size
    unfold Af.icmpCksum
    omega
  have hicmp := h.icmp
  rw [icmpVerifies_iff, icmpSum_split hsize, h.type] at hicmp
  rw [icmpVerifies_iff, icmpSum_split hsize, hrest, htype, hcode, hcksum, UInt8.toNat_zero,
    Nat.zero_mul, Nat.add_zero, residue_patched_iff (pkt _).toNat_lt (load16_le _ _) hicmp,
    ← UInt8.toNat_inj, UInt8.toNat_zero]

theorem restSum_congr (hpseudo : pseudoSum af m len = pseudoSum af pkt len)
    (hpayload : ∀ k, af.icmpCksum + 2 ≤ k → m k = pkt k) :
    restSum af m len = restSum af pkt len := by
  rw [restSum, restSum, hpseudo]
  exact congrArg _ (byteSum_congr fun k _ => hpayload _ (Nat.le_add_right _ _))

theorem load16_congr {a : ℕ} (h₀ : m a = m' a) (h₁ : m (a + 1) = m' (a + 1)) :
    load16 m a = load16 m' a := by
  rw [load16, load16, h₀, h₁]

/-! ## IPv4 -/

namespace FakeHost

variable {self : FakeHost .inet} {ttl : UInt8}

theorem load16_patchEcho : load16 (patchEcho pkt) Ip.icmpChecksum =
    Af.inet.patchedCksum (load16 pkt Ip.icmpChecksum) := by
  have hload : load16 (set (set pkt 20 ICMP_ECHOREPLY) 21 0) 22 = load16 pkt 22 :=
    load16_congr ((set_of_ne _ (by decide)).trans (set_of_ne _ (by decide)))
      ((set_of_ne _ (by decide)).trans (set_of_ne _ (by decide)))
  show load16 (store16 _ 22 (Af.inet.patchedCksum (load16 _ 22))) 22 = _
  rw [load16_store16 _ _ (patchedCksum_le _ _), hload]

theorem icmpVerifies_truncateEcho (hle : 24 ≤ len) (hmax : len < 65536) :
    IcmpVerifies .inet (truncateEcho len pkt) len := by
  have hcount : (len + 2 ^ 64 - 20) % 2 ^ 64 = len - Ip.sizeofIp := by
    have hsize : Ip.sizeofIp = 20 := rfl
    omega
  have hcksum := inetCksum_eq (m := store16 (set (set pkt 20 ICMP_ECHOREPLY) 21 0) 2 (htons len))
    hmax
  rw [← hcount] at hcksum
  refine Eq.mpr (congrArg (IcmpVerifies .inet · len) hcksum) ?_
  exact icmpVerifies_icmpChecksum hle hmax

theorem payload_reply {k : ℕ} (h : ttl < pkt Ip.ipTtl) (ho : self.outcome ttl pkt = .echoReply)
    (hk : 24 ≤ k) : (self.reply ttl pkt len).packet k = pkt k := by
  rw [reply_echoReply h ho]
  split_ifs
  · show self.noAppend ttl (patchEcho pkt) k = pkt k
    rw [noAppend_of_ne (by omega), patchEcho_of_ne (by omega)]
  · show self.noAppend ttl (truncateEcho _ pkt) k = pkt k
    rw [noAppend_of_ne (by omega), truncateEcho_of_ne (by omega) (by omega) (by omega)]

theorem icmpVerifies_reply_iff (h : VerifiedEcho self ttl pkt len) :
    IcmpVerifies .inet (self.reply ttl pkt len).packet (self.reply ttl pkt len).len ↔
      pkt Ip.icmpCode = 0 ∨ self.mtu.toNat < len := by
  have hpayload (k : ℕ) (hk : 24 ≤ k) : (self.reply ttl pkt len).packet k = pkt k :=
    payload_reply h.ttl h.outcome_eq hk
  rw [reply_echoReply h.ttl h.outcome_eq] at hpayload ⊢
  split_ifs at hpayload ⊢ with hmtu
  · show IcmpVerifies .inet (self.noAppend ttl (patchEcho pkt)) len ↔ _
    rw [or_iff_left (Nat.not_lt.mpr hmtu)]
    refine h.patched_iff (restSum_congr rfl hpayload) ?_ ?_ ?_
    · exact (noAppend_of_ne (by decide)).trans patchEcho_type
    · exact (noAppend_of_ne (by decide)).trans patchEcho_code
    · exact (load16_congr (noAppend_of_ne (by decide)) (noAppend_of_ne (by decide))).trans
        load16_patchEcho
  · show IcmpVerifies .inet (self.noAppend ttl (truncateEcho _ pkt)) _ ↔ _
    have hmtu' : 28 ≤ self.mtu.toNat := h.mtu
    refine iff_of_true ?_ (.inr (Nat.not_le.mp hmtu))
    exact icmpVerifies_congr (fun k hk => noAppend_of_ne (.inr (.inr hk)))
      (icmpVerifies_truncateEcho (by omega) self.mtu.toNat_lt)

end FakeHost

/-! ## IPv6 -/

namespace FakeHost6

variable {self : FakeHost .inet6} {ttl : UInt8}

theorem load16_patchEcho : load16 (patchEcho pkt) Ip6.icmp6Cksum =
    Af.inet6.patchedCksum (load16 pkt Ip6.icmp6Cksum) := by
  have hload : load16 (set (set pkt 40 ICMP6_ECHO_REPLY) 41 0) 42 = load16 pkt 42 :=
    load16_congr ((set_of_ne _ (by decide)).trans (set_of_ne _ (by decide)))
      ((set_of_ne _ (by decide)).trans (set_of_ne _ (by decide)))
  show load16 (store16 _ 42 (Af.inet6.patchedCksum (load16 _ 42))) 42 = _
  rw [load16_store16 _ _ (patchedCksum_le _ _), hload]

theorem truncateEcho_plen (hle : 40 ≤ len) (hmax : len < 65536) :
    word16 (truncateEcho len pkt) Ip6.ip6Plen = len - Ip6.sizeofIp6Hdr := by
  have hplen : (len + 2 ^ 64 - 40) % 2 ^ 16 = len - Ip6.sizeofIp6Hdr := by
    have hsize : Ip6.sizeofIp6Hdr = 40 := rfl
    omega
  rw [truncateEcho_def, hplen]
  exact word16_store16_htons _ _ (by omega)

theorem payload_reply {k : ℕ} (h : ttl < pkt Ip6.ip6Hlim) (ho : outcome self ttl pkt = .echoReply)
    (hk : 44 ≤ k) : (reply self ttl pkt len).packet k = pkt k := by
  rw [reply_echoReply h ho]
  split_ifs
  · show noAppend self ttl (patchEcho pkt) len true k = pkt k
    rw [noAppend_of_ne (by omega) (by omega) (by omega), patchEcho_of_ne (by omega)]
  · show noAppend self ttl (truncateEcho _ pkt) _ false k = pkt k
    rw [noAppend_of_ne (by omega) (by omega) (by omega),
      truncateEcho_of_ne (by omega) (by omega) (by omega)]

theorem pseudoSum_noAppend {checksumOk : Bool} {n : ℕ}
    (haddr : self.addr = Addr.load .inet6 pkt Ip6.ip6Dst) :
    pseudoSum .inet6 (noAppend self ttl (patchEcho pkt) n checksumOk) len =
      pseudoSum .inet6 pkt len := by
  refine pseudoSum_swap (noAppend_src.trans haddr) (noAppend_dst.trans ?_)
  refine Addr.ext_bytes (read_congr fun k hk => patchEcho_of_ne (.inl ?_))
  change k < 16 at hk
  show 8 + k < 40
  omega

theorem icmpVerifies_reply_iff (h : VerifiedEcho self ttl pkt len) :
    IcmpVerifies .inet6 (reply self ttl pkt len).packet (reply self ttl pkt len).len ↔
      pkt Ip6.icmp6Code = 0 ∨ self.mtu.toNat < len := by
  have hpayload (k : ℕ) (hk : 44 ≤ k) : (reply self ttl pkt len).packet k = pkt k :=
    payload_reply h.ttl h.outcome_eq hk
  rw [reply_echoReply h.ttl h.outcome_eq] at hpayload ⊢
  split_ifs at hpayload ⊢ with hmtu
  · show IcmpVerifies .inet6 (noAppend self ttl (patchEcho pkt) len true) len ↔ _
    rw [or_iff_left (Nat.not_lt.mpr hmtu)]
    refine h.patched_iff (restSum_congr (pseudoSum_noAppend h.addr) hpayload) ?_ ?_ ?_
    · exact (noAppend_of_ne (by decide) (by decide) (by decide)).trans patchEcho_type
    · exact (noAppend_of_ne (by decide) (by decide) (by decide)).trans patchEcho_code
    · refine Eq.trans (load16_congr ?_ ?_) load16_patchEcho
      · exact header_of_ne (k := 42) (.inr (by decide))
      · exact header_of_ne (k := 43) (.inr (by decide))
  · show IcmpVerifies .inet6 (noAppend self ttl (truncateEcho _ pkt) _ false) _ ↔ _
    have hmtu' : 48 ≤ self.mtu.toNat := h.mtu
    refine iff_of_true ?_ (.inr (Nat.not_le.mp hmtu))
    refine icmpVerifies_noAppend (by omega) self.mtu.toNat_lt
      (truncateEcho_plen (by omega) self.mtu.toNat_lt) ?_
    exact (truncateEcho_of_ne (by decide) (by decide) (by decide)).trans h.proto

end FakeHost6

/-- **An echo reply** is right exactly if the code of the request is zero or its length is cut. -/
theorem echoReplied_iff {self : FakeHost af} {ttl : UInt8} (h : VerifiedEcho self ttl pkt len) :
    EchoReplied self pkt len (self.replyOf ttl pkt len) ↔
      pkt (af.wire.icmp + 1) = 0 ∨ self.mtu.toNat < len := by
  cases af
  · exact (h.replied_iff fun k => FakeHost.payload_reply h.ttl h.outcome_eq).trans
      (FakeHost.icmpVerifies_reply_iff h)
  · exact (h.replied_iff fun k => FakeHost6.payload_reply h.ttl h.outcome_eq).trans
      (FakeHost6.icmpVerifies_reply_iff h)

/-- An echo request from `192.0.2.1` to `10.0.0.1` with a code and its checksum. -/
def pingOf (code c : UInt8) : Mem := fun k =>
  [0x45, 0, 0, 28, 0, 0, 0, 0, 1, 1, 0, 0, 192, 0, 2, 1, 10, 0, 0, 1, 8, code, 0xf7, c].getD k 0

theorem echoReplied_pingOf_zero :
    EchoReplied (⟨64, 1500, .v4 10 0 0 1⟩ : FakeHost .inet) (pingOf 0 0xff) 28
      ((⟨64, 1500, .v4 10 0 0 1⟩ : FakeHost .inet).replyOf 0 (pingOf 0 0xff) 28) :=
  (echoReplied_iff ⟨by decide, by decide, by decide, by decide, by decide, by decide, by decide,
    by decide, by decide⟩).mpr (.inl (by decide))

/-- The checksum of a request with code 1 is patched for the type only. -/
theorem not_echoExact : ¬ EchoExact := by
  intro h
  have hreplied := h .inet ⟨64, 1500, .v4 10 0 0 1⟩ 0 (pingOf 1 0xfe) 28
    ⟨by decide, by decide, by decide, by decide, by decide, by decide, by decide, by decide,
      by decide⟩
  exact absurd hreplied.icmp (by decide)

end Rdnstun
