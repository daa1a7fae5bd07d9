import Rdnstun.Host.Reply

/-!
# Well-formed datagrams

* `WellFormed`: an IPv4 datagram whose ICMP message, behind the header that it declares, is that of
  an outcome.
* `wellFormed_reply`: a host that does not ignore a packet without IP options sends such a datagram.
* `not_wellFormed_error`, `not_wellFormed_echo`: it does not where the packet has IP options.
-/

namespace Rdnstun

open Memory

variable {pkt m : Mem} {k len : ℕ}

/-- `ip_v`. -/
def ipV (pkt : Mem) : ℕ := (pkt 0).toNat / 16

/-- `ip_hl`. -/
def ipHl (pkt : Mem) : ℕ := (pkt 0).toNat % 16

/-- The fragment offset in `ip_off`. -/
def fragmentOffset (pkt : Mem) : ℕ := (pkt 6).toNat % 32 * 256 + (pkt 7).toNat

/-- The least length of the ICMP message of an outcome: an error quotes a header and eight
octets. -/
def Outcome.icmpLen : Outcome → ℕ
  | .echoReply | .ignored => 8
  | .timeExceeded | .hostUnreachable | .portUnreachable => 36

theorem Outcome.icmpLen_of_ne {o : Outcome} (h : o ≠ .ignored) (h' : o ≠ .echoReply) :
    o.icmpLen = 36 := by
  cases o
  · rfl
  · rfl
  · rfl
  · exact absurd rfl h
  · exact absurd rfl h'

/-- The `len` bytes are an IPv4 datagram that carries the ICMP message of an outcome. -/
structure WellFormed (o : Outcome) (pkt : Mem) (len : ℕ) : Prop where
  version : ipV pkt = 4
  header : 5 ≤ ipHl pkt
  length : word16 pkt Ip.ipLen = len
  checksum : SumsToOnes pkt 0 (2 * ipHl pkt)
  protocol : pkt Ip.ipP = IPPROTO_ICMP
  message : 4 * ipHl pkt + o.icmpLen ≤ len
  type : pkt (4 * ipHl pkt) = o.icmp.1

theorem word16_store16_htons (m : Mem) (a : ℕ) {w : ℕ} (h : w < 65536) :
    word16 (store16 m a (htons w)) a = w := by
  have hlo : (w % 256 * 256 + w / 256 % 256) % 256 = w / 256 := by omega
  have hhi : (w % 256 * 256 + w / 256 % 256) / 256 = w % 256 := by omega
  rw [word16, store16_lo, store16_hi, UInt8.toNat_ofNat', UInt8.toNat_ofNat', htons, hlo, hhi]
  omega

theorem word16_congr {m' : Mem} {a : ℕ} (h₀ : m a = m' a) (h₁ : m (a + 1) = m' (a + 1)) :
    word16 m a = word16 m' a := by
  rw [word16, word16, h₀, h₁]

namespace FakeHost

variable {self : FakeHost .inet} {ttl : UInt8} {o : Outcome}

/-! ## The new header -/

/-- The new header verifies if its first octet is not zero. -/
theorem sumsToOnes_noAppend (h : 0 < (m 0).toNat) : SumsToOnes (self.noAppend ttl m) 0 10 := by
  have hzero : self.noAppend ttl m 0 = m 0 := noAppend_of_ne (by omega)
  rw [noAppend_def, inetCksumAt_of_ne _ _ _ (by omega) (by omega)] at hzero
  rw [noAppend_def]
  refine sumsToOnes_inetCksumHeader (a := 0) (j := 5) (k := 10) (by omega) (by omega) ?_
  rw [blockSum_succ, load16, store16_of_ne _ (by omega) (by omega), hzero]
  omega

/-- What the reply functions leave in the buffer makes a datagram of it. -/
theorem wellFormed_noAppend (hzero : m 0 = pkt 0) (hv : ipV pkt = 4) (hhl : ipHl pkt = 5)
    (hlen : word16 m Ip.ipLen = len) (hp : m Ip.ipP = IPPROTO_ICMP) (hfit : 20 + o.icmpLen ≤ len)
    (htype : m Ip.icmpType = o.icmp.1) : WellFormed o (self.noAppend ttl m) len := by
  have hzero' : self.noAppend ttl m 0 = pkt 0 := (noAppend_of_ne (by omega)).trans hzero
  have hv' : ipV (self.noAppend ttl m) = 4 := by rw [ipV, hzero', ← ipV, hv]
  have hhl' : ipHl (self.noAppend ttl m) = 5 := by rw [ipHl, hzero', ← ipHl, hhl]
  refine ⟨hv', hhl'.ge, ?_, ?_, ?_, ?_, ?_⟩
  · rw [← hlen]
    exact word16_congr (noAppend_of_ne (by decide)) (noAppend_of_ne (by decide))
  · rw [hhl']
    refine sumsToOnes_noAppend ?_
    rw [hzero]
    unfold ipV at hv
    omega
  · exact (noAppend_of_ne (by decide)).trans hp
  · rwa [hhl']
  · rw [hhl']
    exact (noAppend_of_ne (by decide)).trans htype

theorem append_zero (o : Outcome) : append o pkt 0 = pkt 0 :=
  append_of_lt o (by omega) (by omega) (by omega) (by omega)

theorem append_len (o : Outcome) : word16 (append o pkt) Ip.ipLen = 56 :=
  word16_store16_htons _ 2 (by decide)

theorem truncateEcho_len {w : ℕ} (h : w < 65536) :
    word16 (truncateEcho w pkt) Ip.ipLen = w := by
  refine Eq.trans (word16_congr ?_ ?_)
    (word16_store16_htons (set (set pkt 20 ICMP_ECHOREPLY) 21 0) 2 h)
  · rw [truncateEcho_def, inetCksumAt_of_ne _ _ _ (by decide) (by decide)]
  · rw [truncateEcho_def, inetCksumAt_of_ne _ _ _ (by decide) (by decide)]

/-! ## The datagrams that are sent -/

theorem isEcho_of_outcome (h : self.outcome ttl pkt = .echoReply) :
    pkt Ip.ipP = IPPROTO_ICMP ∧ pkt Ip.icmpType = ICMP_ECHO := by
  unfold outcome at h
  dsimp only at h
  split_ifs at h with _ _ hp htype
  exact ⟨hp, not_not.mp htype⟩

/-- **Without IP options** what is sent is well formed. -/
theorem wellFormed_reply (hv : ipV pkt = 4) (hhl : ipHl pkt = 5) (hlen : word16 pkt Ip.ipLen = len)
    (hfit : 28 ≤ len) (hmtu : 28 ≤ self.mtu.toNat) (h : ttl < pkt Ip.ipTtl)
    (ho : self.outcome ttl pkt ≠ .ignored) :
    WellFormed (self.outcome ttl pkt) (self.reply ttl pkt len).packet
      (self.reply ttl pkt len).len := by
  by_cases hecho : self.outcome ttl pkt = .echoReply
  · have hmax := self.mtu.toNat_lt
    obtain ⟨hp, -⟩ := isEcho_of_outcome hecho
    rw [reply_echoReply h hecho, hecho]
    split_ifs with hle
    · exact wellFormed_noAppend (patchEcho_of_ne (by omega)) hv hhl
        ((word16_congr (patchEcho_of_ne (by decide)) (patchEcho_of_ne (by decide))).trans hlen)
        ((patchEcho_of_ne (by decide)).trans hp) hfit patchEcho_type
    · exact wellFormed_noAppend (truncateEcho_of_ne (by omega) (by omega) (by omega)) hv hhl
        (truncateEcho_len hmax)
        ((truncateEcho_of_ne (by decide) (by decide) (by decide)).trans hp) hmtu truncateEcho_type
  · rw [reply_append h rfl ho hecho]
    refine wellFormed_noAppend (append_zero _) hv hhl (append_len _) (append_proto _) ?_
      (append_type _)
    rw [Outcome.icmpLen_of_ne ho hecho]

/-- With IP options an error message does not fit behind them. -/
theorem not_wellFormed_error (hhl : 5 < ipHl pkt) (h : ttl < pkt Ip.ipTtl)
    (ho : self.outcome ttl pkt ≠ .ignored) (hecho : self.outcome ttl pkt ≠ .echoReply) :
    ¬ WellFormed (self.outcome ttl pkt) (self.reply ttl pkt len).packet
      (self.reply ttl pkt len).len := by
  intro hwf
  have hmessage := hwf.message
  rw [reply_append h rfl ho hecho] at hmessage
  have hzero : self.noAppend ttl (append (self.outcome ttl pkt) pkt) 0 = pkt 0 :=
    (noAppend_of_ne (by omega)).trans (append_zero _)
  dsimp only at hmessage
  rw [ipHl, hzero, ← ipHl, Outcome.icmpLen_of_ne ho hecho] at hmessage
  change _ ≤ 56 at hmessage
  omega

/-- With IP options the type of the message behind them is not replaced. -/
theorem not_wellFormed_echo (hhl : 5 < ipHl pkt) (h : ttl < pkt Ip.ipTtl)
    (hecho : self.outcome ttl pkt = .echoReply) (htype : pkt (4 * ipHl pkt) = ICMP_ECHO) :
    ¬ WellFormed .echoReply (self.reply ttl pkt len).packet (self.reply ttl pkt len).len := by
  intro hwf
  have hkeep : ∀ k, k = 0 ∨ 24 ≤ k → (self.reply ttl pkt len).packet k = pkt k := by
    intro k hk
    rw [reply_echoReply h hecho]
    split_ifs
    · exact (noAppend_of_ne (by omega)).trans (patchEcho_of_ne (by omega))
    · exact (noAppend_of_ne (by omega)).trans (truncateEcho_of_ne (by omega) (by omega) (by omega))
  have hreply := hwf.type
  rw [ipHl, hkeep 0 (.inl rfl), ← ipHl, hkeep _ (.inr (by omega)), htype] at hreply
  exact absurd hreply (by decide)

end FakeHost

end Rdnstun
