import Rdnstun.Host.Datagram

/-!
# Fragments

The reply function never looks at `ip_off`, and leaves it in the header that it patches.

* `ReadsIcmp`, `readsIcmp_iff`: where it takes the octet behind the header for an ICMP type.
* `FragmentsHandled`: a message is read at the start of a datagram only, and an error is whole.
* **`fragmentsHandled_iff`**: for whole datagrams and first fragments of messages to the host.
* `not_fragmentsHandled`: a first fragment that is not ICMP.
-/

namespace Rdnstun

open Memory

variable {pkt m m' : Mem} {len : ℕ}

/-- The flag `IP_MF` in `ip_off`. -/
def MoreFragments (pkt : Mem) : Prop := (pkt 6).toNat / 32 % 2 = 1

instance (pkt : Mem) : Decidable (MoreFragments pkt) := inferInstanceAs (Decidable (_ = _))

theorem fragmentOffset_congr (h₆ : m 6 = m' 6) (h₇ : m 7 = m' 7) :
    fragmentOffset m = fragmentOffset m' := by
  rw [fragmentOffset, fragmentOffset, h₆, h₇]

theorem moreFragments_congr (h₆ : m 6 = m' 6) : MoreFragments m ↔ MoreFragments m' := by
  rw [MoreFragments, MoreFragments, h₆]

namespace FakeHost

variable {self : FakeHost .inet} {ttl : UInt8}

/-- What the function does depends on the octet that is the ICMP type in a message. -/
def ReadsIcmp (host : FakeHost .inet) (ttl : UInt8) (pkt : Mem) : Prop :=
  ttl < pkt Ip.ipTtl ∧ ∃ type, host.outcome ttl (set pkt Ip.icmpType type) ≠ host.outcome ttl pkt

/-- What the function does with a packet that may be a fragment: it takes the octets behind the
header for an ICMP header, or rewrites them as one, only at the start of a datagram, and an error
is a whole datagram with a message of 36 octets. -/
structure FragmentsHandled (host : FakeHost .inet) (ttl : UInt8) (pkt : Mem) (len : ℕ) :
    Prop where
  reads : host.ReadsIcmp ttl pkt → fragmentOffset pkt = 0
  rewrites : ttl < pkt Ip.ipTtl → host.outcome ttl pkt = .echoReply → fragmentOffset pkt = 0
  errors : ttl < pkt Ip.ipTtl → host.outcome ttl pkt ≠ .ignored →
    host.outcome ttl pkt ≠ .echoReply →
      fragmentOffset (host.reply ttl pkt len).packet = 0 ∧
        ¬ MoreFragments (host.reply ttl pkt len).packet ∧
          word16 (host.reply ttl pkt len).packet Ip.ipLen =
            4 * ipHl (host.reply ttl pkt len).packet + 36

/-! ## The octet behind the header -/

theorem outcome_set_type (type : UInt8) : self.outcome ttl (set pkt Ip.icmpType type) =
    if self.addr = Addr.load .inet pkt Ip.ipDst ∧ pkt Ip.ipP = IPPROTO_ICMP then
      if type ≠ ICMP_ECHO then .ignored else .echoReply
    else self.outcome ttl pkt := by
  have hdst : Addr.load .inet (set pkt Ip.icmpType type) Ip.ipDst = Addr.load .inet pkt Ip.ipDst :=
    Addr.ext_bytes (read_set_of_disjoint type (.inr (Nat.le_refl 20)))
  have httl : set pkt Ip.icmpType type Ip.ipTtl = pkt Ip.ipTtl := set_of_ne type (by decide)
  have hp : set pkt Ip.icmpType type Ip.ipP = pkt Ip.ipP := set_of_ne type (by decide)
  unfold outcome
  dsimp only
  rw [hdst, httl, hp, set_self]
  split_ifs <;> simp_all

theorem readsIcmp_iff : self.ReadsIcmp ttl pkt ↔ ttl < pkt Ip.ipTtl ∧
    self.addr = Addr.load .inet pkt Ip.ipDst ∧ pkt Ip.ipP = IPPROTO_ICMP := by
  refine and_congr_right fun _ => ⟨?_, fun h => ?_⟩
  · rintro ⟨type, hne⟩
    rw [outcome_set_type] at hne
    by_contra hother
    exact hne (if_neg hother)
  · by_cases hecho : self.outcome ttl pkt = .ignored
    · refine ⟨ICMP_ECHO, ?_⟩
      rw [outcome_set_type, if_pos h, hecho]
      decide
    · refine ⟨ICMP_ECHOREPLY, ?_⟩
      rw [outcome_set_type, if_pos h]
      exact Ne.symm hecho

theorem outcome_error_iff : (self.outcome ttl pkt ≠ .ignored ∧ self.outcome ttl pkt ≠ .echoReply) ↔
    ¬ (self.addr = Addr.load .inet pkt Ip.ipDst ∧ pkt Ip.ipP = IPPROTO_ICMP) := by
  unfold outcome
  dsimp only
  split_ifs <;> simp_all

/-! ## Errors -/

/-- The header of an error keeps the fields of a fragment. -/
theorem reply_error (len : ℕ) (h : ttl < pkt Ip.ipTtl) (ho : self.outcome ttl pkt ≠ .ignored)
    (hecho : self.outcome ttl pkt ≠ .echoReply) :
    (∀ k, k = 0 ∨ k = 6 ∨ k = 7 → (self.reply ttl pkt len).packet k = pkt k) ∧
      word16 (self.reply ttl pkt len).packet Ip.ipLen = 56 := by
  rw [reply_append h rfl ho hecho]
  refine ⟨fun k hk => ?_, ?_⟩
  · show self.noAppend ttl (append _ pkt) k = pkt k
    rw [noAppend_of_ne (by omega), append_of_lt _ (by omega) (by omega) (by omega) (by omega)]
  · show word16 (self.noAppend ttl (append _ pkt)) Ip.ipLen = 56
    rw [word16_congr (noAppend_of_ne (by decide)) (noAppend_of_ne (by decide)), append_len]

/-- **Fragments** are handled right exactly if the packet is not answered, or is the start of a
datagram and either all of it or an ICMP packet for the host. -/
theorem fragmentsHandled_iff (hhl : ipHl pkt = 5) : self.FragmentsHandled ttl pkt len ↔
    (ttl < pkt Ip.ipTtl → fragmentOffset pkt = 0 ∧
      (MoreFragments pkt →
        self.addr = Addr.load .inet pkt Ip.ipDst ∧ pkt Ip.ipP = IPPROTO_ICMP)) := by
  constructor
  · intro h httl
    by_cases hicmp : self.addr = Addr.load .inet pkt Ip.ipDst ∧ pkt Ip.ipP = IPPROTO_ICMP
    · exact ⟨h.reads (readsIcmp_iff.mpr ⟨httl, hicmp⟩), fun _ => hicmp⟩
    · obtain ⟨ho, hecho⟩ := outcome_error_iff.mpr hicmp
      obtain ⟨hkeep, -⟩ := reply_error len httl ho hecho
      obtain ⟨hoffset, hmore, -⟩ := h.errors httl ho hecho
      rw [fragmentOffset_congr (hkeep 6 (by omega)) (hkeep 7 (by omega))] at hoffset
      rw [moreFragments_congr (hkeep 6 (by omega))] at hmore
      exact ⟨hoffset, fun hflag => absurd hflag hmore⟩
  · intro h
    refine ⟨fun hreads => (h (readsIcmp_iff.mp hreads).1).1, fun httl _ => (h httl).1, ?_⟩
    intro httl ho hecho
    obtain ⟨hkeep, hlen⟩ := reply_error len httl ho hecho
    obtain ⟨hoffset, hmore⟩ := h httl
    refine ⟨?_, ?_, ?_⟩
    · rwa [fragmentOffset_congr (hkeep 6 (by omega)) (hkeep 7 (by omega))]
    · rw [moreFragments_congr (hkeep 6 (by omega))]
      exact fun hflag => outcome_error_iff.mp ⟨ho, hecho⟩ (hmore hflag)
    · rw [hlen, ipHl, hkeep 0 (by omega), ← ipHl, hhl]

/-- The first 28 bytes of a UDP packet from `192.0.2.1` to `10.0.0.1` with TTL 1. -/
def udpOf (flags offset : UInt8) : Mem := fun k =>
  [0x45, 0, 0, 28, 0, 0, flags, offset, 1, 17, 0, 0, 192, 0, 2, 1, 10, 0, 0, 1].getD k 0

theorem fragmentsHandled_udpOf_zero :
    FragmentsHandled ⟨64, 1500, .v4 10 0 0 1⟩ 0 (udpOf 0 0) 28 :=
  (fragmentsHandled_iff (by decide)).mpr fun _ => ⟨by decide, fun h => absurd h (by decide)⟩

/-- The port unreachable message for a first fragment claims to be one too. -/
theorem not_fragmentsHandled : ¬ ∀ (self : FakeHost .inet) (ttl : UInt8) (pkt : Mem) (len : ℕ),
    ipHl pkt = 5 → self.FragmentsHandled ttl pkt len := by
  intro h
  have hhandled := h ⟨64, 1500, .v4 10 0 0 1⟩ 0 (udpOf 32 0) 28 (by decide)
  exact (hhandled.errors (by decide) (by decide) (by decide)).2.1 (by decide)

end FakeHost

end Rdnstun
