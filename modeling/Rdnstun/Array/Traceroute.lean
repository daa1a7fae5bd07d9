import Rdnstun.Array.Reply
import Rdnstun.Host.Datagram
import Rdnstun.Lib.Path

/-!
# Traceroute

The hosts of a chain are the hops of a path, a packet is a probe along it.

* `EchoRequest`: a packet that carries the start of an echo request, read off its header.
* `expected`: the responder and the outcome that the path asks for; `Observed`: the reply shows
  that outcome.
* **`observed_expected_iff`**: a packet for one chain gets the reply that its path asks for exactly
  when the octet that the code takes for the ICMP type tells whether it is an echo request.
-/

namespace Rdnstun

open Memory

variable {af : Af}

/-- The `len` bytes of the packet hold the type octet of an echo request: behind the header whose
length the header itself declares, in an unfragmented datagram or a first fragment. -/
def EchoRequest : Af → Mem → ℕ → Prop
  | .inet, pkt, len => pkt Ip.ipP = IPPROTO_ICMP ∧ 5 ≤ ipHl pkt ∧ 4 * ipHl pkt < len ∧
      fragmentOffset pkt = 0 ∧ pkt (4 * ipHl pkt) = ICMP_ECHO
  | .inet6, pkt, len => pkt Ip6.ip6Nxt = IPPROTO_ICMPV6 ∧ Ip6.sizeofIp6Hdr < len ∧
      pkt Ip6.sizeofIp6Hdr = ICMP6_ECHO_REQUEST

instance (af : Af) (pkt : Mem) (len : ℕ) : Decidable (EchoRequest af pkt len) := by
  cases af <;> exact inferInstanceAs (Decidable (_ ∧ _))

/-- The verdict on a probe as an outcome. -/
def verdictOutcome (af : Af) (pkt : Mem) (len : ℕ) : Path.Verdict → Outcome
  | .expired => .timeExceeded
  | .lost => .hostUnreachable
  | .reached =>
    if pkt af.wire.proto = af.wire.icmpProto then
      if EchoRequest af pkt len then .echoReply else .ignored
    else .portUnreachable

/-- The position of the responder and the outcome for a packet along the hosts of a chain. -/
def expected (c : HostChain af) (pkt : Mem) (len : ℕ) : ℕ × Outcome :=
  let (i, verdict) := Path.probe (c.hosts.map FakeHost.addr) (Addr.load af pkt af.wire.dst)
    (pkt af.wire.ttl).toNat
  (i, verdictOutcome af pkt len verdict)

/-- A reply shows an outcome at a responder: nothing is sent, or a message of its type and code
from the responder to the source of the packet. -/
def Observed (responder : FakeHost af) (o : Outcome) (pkt : Mem) (r : Reply) : Prop :=
  r.ret = 0 ∧
    if o = .ignored then r.len = 0
    else 0 < r.len ∧ (r.packet af.wire.icmp, r.packet (af.wire.icmp + 1)) = o.typeCode af ∧
      Addr.load af r.packet af.wire.src = responder.addr ∧
      Addr.load af r.packet af.wire.dst = Addr.load af pkt af.wire.src

/-- `c` is the only chain in whose route the destination lies. -/
def OnlyChain (self : List (HostChain af)) (pkt : Mem) (c : HostChain af) : Prop :=
  ∃ k, self[k]? = some c ∧ c.isIn (Addr.load af pkt af.wire.dst) = true ∧
    ∀ (j : ℕ) (d : HostChain af), self[j]? = some d →
      d.isIn (Addr.load af pkt af.wire.dst) = true → j = k

variable {self : List (HostChain af)} {pkt : Mem} {len k : ℕ} {c : HostChain af}
  {hit : HostChain.Hit}

/-! ## The path -/

theorem pos_eq_idxOf (c : HostChain af) (addr : Addr af) :
    c.pos addr = (c.hosts.map FakeHost.addr).idxOf addr := by
  rw [HostChain.pos, List.idxOf, List.findIdx_map]
  rfl

/-- The scan of a chain stops where a probe along its hosts does. -/
theorem probe_eq (h : HostChainArray.Responds self pkt k c hit) :
    Path.probe (c.hosts.map FakeHost.addr) (Addr.load af pkt af.wire.dst)
      (pkt af.wire.ttl).toNat = (hit.slot,
        if c.Reaches (Addr.load af pkt af.wire.dst) (pkt af.wire.ttl) then .reached
        else if (pkt af.wire.ttl).toNat ≤ c.hosts.length then .expired else .lost) := by
  have hfound := HostChain.found_iff h.find
  unfold Path.probe
  rw [← pos_eq_idxOf, List.length_map]
  show (if c.Reaches (Addr.load af pkt af.wire.dst) (pkt af.wire.ttl) then _ else _) = _
  by_cases hreach : c.Reaches (Addr.load af pkt af.wire.dst) (pkt af.wire.ttl)
  · rw [if_pos hreach, if_pos hreach, h.isHit.found (hfound.mpr hreach)]
  · have hmiss : hit.found = false := by simpa using mt hfound.mp hreach
    rw [if_neg hreach, if_neg hreach, (h.isHit.missed hmiss).1]

/-- **A packet** that is answered walks along the hosts of a chain to the responder. -/
theorem walk_eq (h : HostChainArray.Responds self pkt k c hit) :
    Path.walk (Addr.load af pkt af.wire.dst) (c.hosts.map FakeHost.addr)
      (pkt af.wire.ttl).toNat 0 = (hit.slot,
        if c.Reaches (Addr.load af pkt af.wire.dst) (pkt af.wire.ttl) then .reached
        else if (pkt af.wire.ttl).toNat ≤ c.hosts.length then .expired else .lost) := by
  have hslot := h.isHit.slot_lt
  have httl := h.isHit.slot_lt_ttl
  have hhosts : c.hosts.map FakeHost.addr ≠ [] := by
    rw [← List.length_pos_iff, List.length_map]
    omega
  rw [Path.walk_eq_probe hhosts (by omega), probe_eq h]

theorem expected_eq (h : HostChainArray.Responds self pkt k c hit) : expected c pkt len =
    (hit.slot,
      if c.Reaches (Addr.load af pkt af.wire.dst) (pkt af.wire.ttl) then
        if pkt af.wire.proto = af.wire.icmpProto then
          if EchoRequest af pkt len then .echoReply else .ignored
        else .portUnreachable
      else if (pkt af.wire.ttl).toNat ≤ c.hosts.length then .timeExceeded
      else .hostUnreachable) := by
  unfold expected
  rw [probe_eq h]
  dsimp only
  congr 1
  split_ifs <;> simp [verdictOutcome, *]

/-! ## The reply -/

theorem OnlyChain.exists_responds (honly : OnlyChain self pkt c) (hhosts : c.hosts ≠ [])
    (httl : 0 < pkt af.wire.ttl) :
    ∃ k hit, HostChainArray.Responds self pkt k c hit := by
  obtain ⟨k, hk, hin, huniq⟩ := honly
  have hsame : ∀ j d, self[j]? = some d →
      d.isIn (Addr.load af pkt af.wire.dst) = true → d = c := fun j d hd hdin => by
    rw [huniq j d hd hdin, hk, Option.some_inj] at hd
    exact hd.symm
  have hhosts' : ∀ d ∈ self, d.isIn (Addr.load af pkt af.wire.dst) = true → d.hosts ≠ [] := by
    intro d hd hdin
    obtain ⟨j, hj⟩ := List.mem_iff_getElem?.mp hd
    rw [hsame j d hj hdin]
    exact hhosts
  obtain ⟨j, d, hit, hresp⟩ := HostChainArray.exists_responds_of_isIn httl hhosts'
    ⟨c, List.mem_of_getElem? hk, hin⟩
  obtain rfl := hsame j d hresp.chain hresp.isIn
  exact ⟨j, hit, hresp⟩

theorem observed_outcome (h : HostChainArray.Responds self pkt k c hit)
    (hmtu : 0 < (c.hostAt hit.slot).mtu.toNat) (hlen : 0 < len) :
    Observed (c.hostAt hit.slot) ((c.hostAt hit.slot).outcomeOf hit.index pkt) pkt
      (HostChainArray.reply self pkt len) := by
  by_cases ho : (c.hostAt hit.slot).outcomeOf hit.index pkt = .ignored
  · rw [HostChainArray.reply_of_responds h, FakeHost.replyOf_ignored h.index_lt ho, ho]
    exact ⟨rfl, rfl⟩
  · have hsent := h.sent ho hmtu hlen
    have hans : FakeHost.Answered _ _ _ len _ _ := FakeHost.replyOf_answered h.index_lt ho
    refine ⟨hsent.1, ?_⟩
    rw [if_neg ho]
    refine ⟨hsent.2, ?_⟩
    rw [HostChainArray.reply_of_responds h, hans.type, hans.code]
    exact ⟨rfl, hans.src, hans.dst⟩

/-- A reply shows one of the two outcomes for an ICMP packet only. -/
theorem not_observed_both {responder responder' : FakeHost af} {r : Reply}
    (h : Observed responder .ignored pkt r) : ¬ Observed responder' .echoReply pkt r := by
  obtain ⟨-, hlen⟩ := h
  rintro ⟨-, hpos, -⟩
  rw [if_pos rfl] at hlen
  omega

/-- **The traceroute contract.** A packet for one chain gets the reply of its path exactly when, at
its target, the octet read as the ICMP type tells whether it is an echo request. -/
theorem observed_expected_iff (honly : OnlyChain self pkt c) (hhosts : c.hosts ≠ [])
    (hmtu : ∀ h ∈ c.hosts, 0 < h.mtu.toNat) (httl : 0 < pkt af.wire.ttl) (hlen : 0 < len) :
    Observed (c.hostAt (expected c pkt len).1) (expected c pkt len).2 pkt
        (HostChainArray.reply self pkt len) ↔
      (c.Reaches (Addr.load af pkt af.wire.dst) (pkt af.wire.ttl) →
        pkt af.wire.proto = af.wire.icmpProto →
          (pkt af.wire.icmp = af.wire.echo ↔ EchoRequest af pkt len)) := by
  obtain ⟨k, hit, hresp⟩ := honly.exists_responds hhosts httl
  have hobs := observed_outcome hresp (hmtu _ hresp.hostAt_mem) hlen
  rw [hresp.outcome_eq] at hobs
  rw [expected_eq hresp]
  dsimp only
  by_cases hreach : c.Reaches (Addr.load af pkt af.wire.dst) (pkt af.wire.ttl)
  swap
  · simp only [hreach, if_false, false_imp_iff, iff_true] at hobs ⊢
    exact hobs
  by_cases hicmp : pkt af.wire.proto = af.wire.icmpProto
  swap
  · simp only [hreach, hicmp, if_true, if_false, false_imp_iff, imp_true_iff, iff_true] at hobs ⊢
    exact hobs
  -- at the target of an ICMP packet the two readings of its type decide
  simp only [hreach, hicmp, if_true, true_imp_iff] at hobs ⊢
  by_cases htype : pkt af.wire.icmp = af.wire.echo <;> by_cases hecho : EchoRequest af pkt len
  · simp only [htype, hecho, if_true, iff_true] at hobs ⊢
    exact hobs
  · simp only [htype, hecho, if_true, if_false, iff_false, not_true_eq_false] at hobs ⊢
    exact fun h => not_observed_both h hobs
  · simp only [htype, hecho, if_true, if_false, false_iff, not_true_eq_false, iff_false] at hobs ⊢
    exact not_observed_both hobs
  · simp only [htype, hecho, if_false, iff_true] at hobs ⊢
    exact hobs

theorem onlyChain_oneHop {pkt : Mem} (h : oneHop.isIn (Addr.load .inet pkt Ip.ipDst) = true) :
    OnlyChain [oneHop] pkt oneHop := by
  refine ⟨0, rfl, h, fun j d hd _ => ?_⟩
  obtain _ | j := j
  · rfl
  · cases hd

theorem observed_expected_ping :
    Observed (oneHop.hostAt 0) .echoReply ping (HostChainArray.reply [oneHop] ping 28) :=
  (observed_expected_iff (onlyChain_oneHop (by decide)) (by decide) (by decide) (by decide)
    (by decide)).mpr (by decide)

/-- The same with four octets of IP options. -/
def pingWithOptions : Mem := fun k =>
  [0x46, 0, 0, 32, 0, 0, 0, 0, 1, 1, 0, 0, 192, 0, 2, 1, 10, 0, 0, 1, 1, 1, 1, 1, 8, 0, 0xf7,
    0xff].getD k 0

theorem not_observed_expected : ¬ ∀ (af : Af) (self : List (HostChain af)) (pkt : Mem) (len : ℕ)
    (c : HostChain af), OnlyChain self pkt c → c.hosts ≠ [] → (∀ h ∈ c.hosts, 0 < h.mtu.toNat) →
      0 < pkt af.wire.ttl → 0 < len →
        Observed (c.hostAt (expected c pkt len).1) (expected c pkt len).2 pkt
          (HostChainArray.reply self pkt len) := by
  intro h
  obtain ⟨-, hobs⟩ := h .inet [oneHop] pingWithOptions 32 oneHop (onlyChain_oneHop (by decide))
    (by decide) (by decide) (by decide) (by decide)
  have hecho : (expected oneHop pingWithOptions 32).2 = .echoReply := by decide
  have hsent : (HostChainArray.reply [oneHop] pingWithOptions 32).len = 0 := rfl
  rw [hecho, hsent] at hobs
  exact absurd hobs.1 (Nat.lt_irrefl 0)

end Rdnstun
