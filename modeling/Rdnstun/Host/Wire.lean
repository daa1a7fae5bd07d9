import Rdnstun.Host.Reply

/-!
# The two reply functions as one

`Af.wire` collects where the two headers keep what a reply function reads and sets. In its terms
the two families have one `outcome` (`outcomeOf_eq`) and one specification of the fields of an
answer (`Answered`).

* `replyOf_of_le`, `replyOf_ignored`: nothing is changed.
* **`replyOf_answered`**: every other outcome sets length, TTL, addresses, type and code.
* `replyOf_proto`: an answer is an ICMP message; `replyOf_ret`: no outcome is an error.
-/

namespace Rdnstun

open Memory

variable {af : Af}

/-- The offsets, sizes and constants of a header and of the ICMP message behind it. -/
structure Wire where
  ttl : ℕ
  src : ℕ
  dst : ℕ
  proto : ℕ
  icmp : ℕ
  errorLen : ℕ
  icmpProto : UInt8
  echo : UInt8

def Af.wire : Af → Wire
  | .inet => ⟨Ip.ipTtl, Ip.ipSrc, Ip.ipDst, Ip.ipP, Ip.icmpType, Ip.sizeofIpicmp, IPPROTO_ICMP,
      ICMP_ECHO⟩
  | .inet6 => ⟨Ip6.ip6Hlim, Ip6.ip6Src, Ip6.ip6Dst, Ip6.ip6Nxt, Ip6.icmp6Type, Ip6.sizeofIpicmp6,
      IPPROTO_ICMPV6, ICMP6_ECHO_REQUEST⟩

/-- The type and the code of an outcome, in the family. -/
def Outcome.typeCode (o : Outcome) : Af → UInt8 × UInt8
  | .inet => o.icmp
  | .inet6 => o.icmp6

namespace FakeHost

/-- The reply function of the family. -/
def replyOf : {af : Af} → FakeHost af → UInt8 → Mem → ℕ → Reply
  | .inet => FakeHost.reply
  | .inet6 => FakeHost6.reply

/-- The branches of the reply function of the family. -/
def outcomeOf : {af : Af} → FakeHost af → UInt8 → Mem → Outcome
  | .inet => FakeHost.outcome
  | .inet6 => FakeHost6.outcome

variable {self : FakeHost af} {ttl : UInt8} {pkt : Mem} {len : ℕ}

theorem outcomeOf_eq : self.outcomeOf ttl pkt =
    if pkt af.wire.ttl - ttl = 1 ∧ ¬ self.addr = Addr.load af pkt af.wire.dst then .timeExceeded
    else if ¬ self.addr = Addr.load af pkt af.wire.dst then .hostUnreachable
    else if pkt af.wire.proto = af.wire.icmpProto then
      if pkt af.wire.icmp ≠ af.wire.echo then .ignored else .echoReply
    else .portUnreachable := by
  cases af <;> rfl

theorem outcomeOf_of_ne (h : self.addr ≠ Addr.load af pkt af.wire.dst) :
    self.outcomeOf ttl pkt =
      if pkt af.wire.ttl - ttl = 1 then .timeExceeded else .hostUnreachable := by
  simp only [outcomeOf_eq, h, not_false_eq_true, and_true, if_true]

theorem outcomeOf_of_eq (h : self.addr = Addr.load af pkt af.wire.dst) :
    self.outcomeOf ttl pkt =
      if pkt af.wire.proto = af.wire.icmpProto then
        if pkt af.wire.icmp = af.wire.echo then .echoReply else .ignored
      else .portUnreachable := by
  simp only [outcomeOf_eq, h, not_true_eq_false, and_false, if_false, ite_not]

/-! ## The fields of an answer -/

/-- The fields of an answer with an outcome. -/
structure Answered (host : FakeHost af) (ttl : UInt8) (pkt : Mem) (len : ℕ) (o : Outcome)
    (r : Reply) : Prop where
  ret : r.ret = 0
  len : r.len = if o = .echoReply then min len host.mtu.toNat else af.wire.errorLen
  ttl : r.packet af.wire.ttl = host.ttl - ttl
  src : Addr.load af r.packet af.wire.src = host.addr
  dst : Addr.load af r.packet af.wire.dst = Addr.load af pkt af.wire.src
  type : r.packet af.wire.icmp = (o.typeCode af).1
  code : r.packet (af.wire.icmp + 1) = (o.typeCode af).2

theorem replyOf_of_le (h : pkt af.wire.ttl ≤ ttl) : self.replyOf ttl pkt len = ⟨1, pkt, len⟩ := by
  cases af <;> exact if_neg (UInt8.not_lt.mpr h)

theorem replyOf_ignored (h : ttl < pkt af.wire.ttl) (ho : self.outcomeOf ttl pkt = .ignored) :
    self.replyOf ttl pkt len = ⟨0, pkt, 0⟩ := by
  cases af
  · rw [outcomeOf] at ho
    rw [replyOf, FakeHost.reply, if_pos (show pkt Ip.ipTtl > ttl from h), ho]
  · rw [outcomeOf] at ho
    rw [replyOf, FakeHost6.reply, if_pos (show pkt Ip6.ip6Hlim > ttl from h), ho]

theorem answered_noAppend {self : FakeHost .inet} {o : Outcome} {m : Mem} {len' : ℕ}
    (hlen : len' = if o = .echoReply then min len self.mtu.toNat else Ip.sizeofIpicmp)
    (hsrc : ∀ k < 20, 12 ≤ k → m k = pkt k) (htype : m Ip.icmpType = o.icmp.1)
    (hcode : m Ip.icmpCode = o.icmp.2) :
    Answered self ttl pkt len o ⟨0, self.noAppend ttl m, len'⟩ where
  ret := rfl
  len := hlen
  ttl := (noAppend_ttl : self.noAppend ttl m Ip.ipTtl = _)
  src := noAppend_src
  dst := by
    refine noAppend_dst.trans (Addr.ext_bytes (read_congr fun i hi => ?_))
    simp only [Af.size] at hi
    exact hsrc (12 + i) (by omega) (by omega)
  type := (noAppend_of_ne (by decide)).trans htype
  code := (noAppend_of_ne (by decide)).trans hcode

theorem answered_noAppend6 {self : FakeHost .inet6} {o : Outcome} {m : Mem} {len' n : ℕ}
    {checksumOk : Bool}
    (hlen : len' = if o = .echoReply then min len self.mtu.toNat else Ip6.sizeofIpicmp6)
    (hsrc : ∀ k < 24, 8 ≤ k → m k = pkt k) (htype : m Ip6.icmp6Type = o.icmp6.1)
    (hcode : m Ip6.icmp6Code = o.icmp6.2) :
    Answered self ttl pkt len o ⟨0, FakeHost6.noAppend self ttl m n checksumOk, len'⟩ where
  ret := rfl
  len := hlen
  ttl := (FakeHost6.noAppend_hlim :
    FakeHost6.noAppend self ttl m n checksumOk Ip6.ip6Hlim = _)
  src := FakeHost6.noAppend_src
  dst := by
    refine FakeHost6.noAppend_dst.trans (Addr.ext_bytes (read_congr fun i hi => ?_))
    simp only [Af.size] at hi
    exact hsrc (8 + i) (by omega) (by omega)
  type := (FakeHost6.noAppend_of_ne (by decide) (by decide) (by decide)).trans htype
  code := (FakeHost6.noAppend_of_ne (by decide) (by decide) (by decide)).trans hcode

/-- **An answer**: every outcome but one sets the fields of the reply. -/
theorem replyOf_answered (h : ttl < pkt af.wire.ttl) (ho : self.outcomeOf ttl pkt ≠ .ignored) :
    Answered self ttl pkt len (self.outcomeOf ttl pkt) (self.replyOf ttl pkt len) := by
  cases af
  · rw [outcomeOf] at ho ⊢
    cases hcase : self.outcome ttl pkt with
    | ignored => exact absurd hcase ho
    | echoReply =>
      rw [replyOf, reply_echoReply h hcase]
      split_ifs with hmtu
      · exact answered_noAppend (Nat.min_eq_left hmtu).symm
          (fun k hk _ => patchEcho_of_ne (.inl hk)) patchEcho_type patchEcho_code
      · exact answered_noAppend (Nat.min_eq_right (by omega)).symm
          (fun k hk _ => truncateEcho_of_ne (.inl hk) (by omega) (by omega)) truncateEcho_type
          truncateEcho_code
    | timeExceeded | hostUnreachable | portUnreachable =>
      rw [replyOf, reply_append h hcase (by decide) (by decide)]
      exact answered_noAppend rfl
        (fun k hk _ => append_of_lt _ hk (by omega) (by omega) (by omega)) (append_type _)
        (append_code _)
  · rw [outcomeOf] at ho ⊢
    cases hcase : FakeHost6.outcome self ttl pkt with
    | ignored => exact absurd hcase ho
    | echoReply =>
      rw [replyOf, FakeHost6.reply_echoReply h hcase]
      split_ifs with hmtu
      · exact answered_noAppend6 (Nat.min_eq_left hmtu).symm
          (fun k hk _ => FakeHost6.patchEcho_of_ne (.inl (by omega))) FakeHost6.patchEcho_type
          FakeHost6.patchEcho_code
      · exact answered_noAppend6 (Nat.min_eq_right (by omega)).symm
          (fun k hk _ => FakeHost6.truncateEcho_of_ne (.inl (by omega)) (by omega) (by omega))
          FakeHost6.truncateEcho_type FakeHost6.truncateEcho_code
    | timeExceeded | hostUnreachable | portUnreachable =>
      rw [replyOf, FakeHost6.reply_append h hcase (by decide) (by decide)]
      exact answered_noAppend6 rfl
        (fun k hk _ => FakeHost6.append_of_lt _ (by omega) (by omega) (by omega) (by omega))
        (FakeHost6.append_type _) (FakeHost6.append_code _)

theorem proto_of_outcomeOf_echoReply (ho : self.outcomeOf ttl pkt = .echoReply) :
    pkt af.wire.proto = af.wire.icmpProto := by
  rw [outcomeOf_eq] at ho
  split_ifs at ho with hmiss htarget hproto
  exact hproto

/-- **An answer** is an ICMP message. -/
theorem replyOf_proto (h : ttl < pkt af.wire.ttl) (ho : self.outcomeOf ttl pkt ≠ .ignored) :
    (self.replyOf ttl pkt len).packet af.wire.proto = af.wire.icmpProto := by
  cases af
  · have hkeep (m : Mem) (n : ℕ) :
        (Reply.mk 0 (self.noAppend ttl m) n).packet Ip.ipP = m Ip.ipP := by
      show self.noAppend ttl m Ip.ipP = m Ip.ipP
      exact noAppend_of_ne (by decide)
    show _ = IPPROTO_ICMP
    rw [replyOf, show Af.inet.wire.proto = Ip.ipP from rfl]
    cases hcase : self.outcomeOf ttl pkt with
    | ignored => exact absurd hcase ho
    | echoReply =>
      have hproto : pkt Ip.ipP = IPPROTO_ICMP := proto_of_outcomeOf_echoReply hcase
      rw [reply_echoReply h hcase]
      split_ifs
      · rw [hkeep, patchEcho_of_ne (by decide), hproto]
      · rw [hkeep, truncateEcho_of_ne (by decide) (by decide) (by decide), hproto]
    | timeExceeded | hostUnreachable | portUnreachable =>
      rw [reply_append h hcase (by decide) (by decide), hkeep, append_proto]
  · have hkeep (m : Mem) (n n' : ℕ) (checksumOk : Bool) :
        (Reply.mk 0 (FakeHost6.noAppend self ttl m n checksumOk) n').packet Ip6.ip6Nxt =
          m Ip6.ip6Nxt := by
      show FakeHost6.noAppend self ttl m n checksumOk Ip6.ip6Nxt = m Ip6.ip6Nxt
      exact FakeHost6.noAppend_of_ne (by decide) (by decide) (by decide)
    show _ = IPPROTO_ICMPV6
    rw [replyOf, show Af.inet6.wire.proto = Ip6.ip6Nxt from rfl]
    cases hcase : self.outcomeOf ttl pkt with
    | ignored => exact absurd hcase ho
    | echoReply =>
      have hproto : pkt Ip6.ip6Nxt = IPPROTO_ICMPV6 := proto_of_outcomeOf_echoReply hcase
      rw [FakeHost6.reply_echoReply h hcase]
      split_ifs
      · rw [hkeep, FakeHost6.patchEcho_of_ne (by decide), hproto]
      · rw [hkeep, FakeHost6.truncateEcho_of_ne (by decide) (by decide) (by decide), hproto]
    | timeExceeded | hostUnreachable | portUnreachable =>
      rw [FakeHost6.reply_append h hcase (by decide) (by decide), hkeep, FakeHost6.append_proto]

theorem replyOf_ret (h : ttl < pkt af.wire.ttl) : (self.replyOf ttl pkt len).ret = 0 := by
  by_cases ho : self.outcomeOf ttl pkt = .ignored
  · rw [replyOf_ignored h ho]
  · exact (replyOf_answered h ho).ret

end FakeHost

end Rdnstun
