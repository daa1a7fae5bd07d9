import Rdnstun.Array.Reply
import Rdnstun.Chain.Parse
import Rdnstun.Host.Datagram

/-!
# IP options

The reply to an IPv4 packet is built behind a header of 20 bytes, whatever length the header
declares.

* `RepliesWellFormed`: what is sent is a well-formed datagram with the ICMP message of the
  responder, and only an echo request is taken for one.
* **`repliesWellFormed_iff`**: this holds exactly for packets without IP options and for packets
  that get no reply.
-/

namespace Rdnstun

open Memory

variable {self : List (HostChain .inet)} {pkt : Mem} {len k : ℕ} {c : HostChain .inet}
  {hit : HostChain.Hit}

/-- What is sent is a well-formed datagram with the ICMP message that the responder chose, and a
packet that is taken for an echo request has that type behind its header. -/
def RepliesWellFormed (self : List (HostChain .inet)) (pkt : Mem) (len : ℕ) : Prop :=
  ((HostChainArray.reply self pkt len).ret = 0 → 0 < (HostChainArray.reply self pkt len).len →
    ∃ k c hit, HostChainArray.Responds self pkt k c hit ∧
      WellFormed ((c.hostAt hit.slot).outcome hit.index pkt)
        (HostChainArray.reply self pkt len).packet (HostChainArray.reply self pkt len).len) ∧
  ∀ k c hit, HostChainArray.Responds self pkt k c hit →
    (c.hostAt hit.slot).outcome hit.index pkt = .echoReply → pkt (4 * ipHl pkt) = ICMP_ECHO

/-- The array does not answer the packet: it has no responder, or one that ignores it. -/
def Unanswered (self : List (HostChain .inet)) (pkt : Mem) : Prop :=
  ∀ k c hit, HostChainArray.Responds self pkt k c hit →
    c.Reaches (Addr.load .inet pkt Ip.ipDst) (pkt Ip.ipTtl) ∧ pkt Ip.ipP = IPPROTO_ICMP ∧
      pkt Ip.icmpType ≠ ICMP_ECHO

theorem reply_eq_reply (h : HostChainArray.Responds self pkt k c hit) :
    HostChainArray.reply self pkt len = (c.hostAt hit.slot).reply hit.index pkt len :=
  HostChainArray.reply_of_responds h

/-- The responder ignores a packet at its target only, if it is an ICMP packet of another type. -/
theorem outcome_eq_ignored_iff (h : HostChainArray.Responds self pkt k c hit) :
    (c.hostAt hit.slot).outcome hit.index pkt = .ignored ↔
      c.Reaches (Addr.load .inet pkt Ip.ipDst) (pkt Ip.ipTtl) ∧ pkt Ip.ipP = IPPROTO_ICMP ∧
        pkt Ip.icmpType ≠ ICMP_ECHO := by
  have hout := h.outcome_eq
  change (c.hostAt hit.slot).outcome hit.index pkt = _ at hout
  show _ ↔ c.Reaches (Addr.load .inet pkt Af.inet.wire.dst) (pkt Af.inet.wire.ttl) ∧
    pkt Af.inet.wire.proto = Af.inet.wire.icmpProto ∧ pkt Af.inet.wire.icmp ≠ Af.inet.wire.echo
  rw [hout]
  split_ifs <;> simp [*]

theorem unanswered_iff : Unanswered self pkt ↔ ∀ k c hit,
    HostChainArray.Responds self pkt k c hit →
      (c.hostAt hit.slot).outcome hit.index pkt = .ignored :=
  forall₃_congr fun _ _ _ => forall_congr' fun h => (outcome_eq_ignored_iff h).symm

/-- **IP options.** What is sent is well formed exactly when the packet has no IP options or nothing
is sent. -/
theorem repliesWellFormed_iff (hv : ipV pkt = 4) (hhl : 5 ≤ ipHl pkt)
    (hlen : word16 pkt Ip.ipLen = len) (hfit : 4 * ipHl pkt + 8 ≤ len)
    (hmtu : ∀ c ∈ self, ∀ h ∈ c.hosts, minMtu .inet ≤ h.mtu.toNat) :
    RepliesWellFormed self pkt len ↔ ipHl pkt = 5 ∨ Unanswered self pkt := by
  rw [unanswered_iff]
  constructor
  · rintro ⟨hsent, htype⟩
    by_contra hnot
    obtain ⟨hopt, hign⟩ := not_or.mp hnot
    have hopt' : 5 < ipHl pkt := by omega
    refine hign fun k c hit hresp => ?_
    by_contra ho
    have hmtu' : 576 ≤ (c.hostAt hit.slot).mtu.toNat := hresp.of_forall hmtu
    obtain ⟨hret, hpos⟩ := hresp.sent ho (by omega) (show 0 < len by omega)
    obtain ⟨k', c', hit', hresp', hwf⟩ := hsent hret hpos
    obtain ⟨rfl, rfl⟩ := hresp.unique hresp'
    rw [reply_eq_reply hresp] at hwf
    by_cases hecho : (c'.hostAt hit'.slot).outcome hit'.index pkt = .echoReply
    · rw [hecho] at hwf
      exact FakeHost.not_wellFormed_echo hopt' hresp.index_lt hecho
        (htype k c' hit' hresp hecho) hwf
    · exact FakeHost.not_wellFormed_error hopt' hresp.index_lt ho hecho hwf
  · rintro (hopt | hign)
    · refine ⟨fun hret hpos => ?_, fun k c hit hresp hecho => ?_⟩
      · obtain ⟨k, c, hit, hresp, ho⟩ := HostChainArray.exists_responds hret hpos
        refine ⟨k, c, hit, hresp, ?_⟩
        rw [reply_eq_reply hresp]
        have hmtu' : 576 ≤ (c.hostAt hit.slot).mtu.toNat := hresp.of_forall hmtu
        exact FakeHost.wellFormed_reply hv hopt hlen (by omega) (by omega) hresp.index_lt ho
      · rw [hopt]
        exact (FakeHost.isEcho_of_outcome hecho).2
    · refine ⟨fun hret hpos => ?_, fun k c hit hresp hecho => ?_⟩
      · obtain ⟨k, c, hit, hresp, ho⟩ := HostChainArray.exists_responds hret hpos
        exact absurd (hign k c hit hresp) ho
      · rw [hign k c hit hresp] at hecho
        cases hecho

theorem repliesWellFormed_ping : RepliesWellFormed [oneHop] ping 28 :=
  (repliesWellFormed_iff (by decide) (by decide) (by decide) (by decide) (by decide)).mpr
    (.inl (by decide))

/-- A UDP packet to `10.0.0.2` with TTL 1 and four octets of IP options. -/
def udpWithOptions : Mem := fun k =>
  [0x46, 0, 0, 32, 0, 0, 0, 0, 1, 17, 0, 0, 192, 0, 2, 1, 10, 0, 0, 2, 1, 1, 1, 1].getD k 0

/-- A time exceeded message is sent whose header claims four of its octets. -/
theorem not_repliesWellFormed : ¬ ∀ (self : List (HostChain .inet)) (pkt : Mem) (len : ℕ),
    ipV pkt = 4 → 5 ≤ ipHl pkt → word16 pkt Ip.ipLen = len → 4 * ipHl pkt + 8 ≤ len →
      (∀ c ∈ self, ∀ h ∈ c.hosts, minMtu .inet ≤ h.mtu.toNat) →
        RepliesWellFormed self pkt len := by
  intro h
  obtain ⟨hsent, -⟩ := h [oneHop] udpWithOptions 32 (by decide) (by decide) (by decide) (by decide)
    (by decide)
  obtain ⟨k, c, hit, hresp, hwf⟩ := hsent rfl (by decide)
  obtain rfl := List.mem_singleton.mp (List.mem_of_getElem? hresp.chain)
  have hout : (oneHop.hostAt hit.slot).outcome hit.index udpWithOptions = .timeExceeded :=
    hresp.outcome_eq.trans (by decide)
  rw [hout] at hwf
  exact absurd hwf.message (by decide)

end Rdnstun
