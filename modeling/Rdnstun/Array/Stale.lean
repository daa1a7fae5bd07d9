import Rdnstun.Array.Reply
import Rdnstun.Chain.Parse
import Rdnstun.Host.Agree

/-!
# Stale bytes

A reply is built in the buffer of the packet, of which only the first `n` bytes were received.

* `IgnoresRest`: what is sent does not depend on the bytes behind the received ones.
* `HoldsReply`: the received bytes hold all that the reply is made of.
* **`ignoresRest_iff`**: the two are equivalent.
-/

namespace Rdnstun

open Memory

variable {af : Af}

/-- Two buffers with the same first `n` bytes as `p` get the same result, the same length and the
same bytes to send. -/
def IgnoresRest (self : List (HostChain af)) (p : Mem) (n : ℕ) : Prop :=
  ∀ q, Agree n p q →
    (HostChainArray.reply self q n).ret = (HostChainArray.reply self p n).ret ∧
      (HostChainArray.reply self q n).len = (HostChainArray.reply self p n).len ∧
        Agree (HostChainArray.reply self p n).len (HostChainArray.reply self p n).packet
          (HostChainArray.reply self q n).packet

/-- The received bytes end between the two octets of the ICMP checksum, and patching the first
octet depends on the second. -/
def CutsChecksum : Af → Mem → ℕ → Prop
  | .inet, p, n => n = 23 ∧ 248 ≤ p 22
  | .inet6, p, n => n = 43 ∧ p 42 = 0

instance (af : Af) (p : Mem) (n : ℕ) : Decidable (CutsChecksum af p n) := by
  cases af <;> exact inferInstanceAs (Decidable (_ ∧ _))

/-- An ICMP packet whose destination is among the hosts that it reaches. -/
def IcmpAtTarget (c : HostChain af) (p : Mem) : Prop :=
  c.Reaches (Addr.load af p af.wire.dst) (p af.wire.ttl) ∧ p af.wire.proto = af.wire.icmpProto

instance (c : HostChain af) (p : Mem) : Decidable (IcmpAtTarget c p) :=
  inferInstanceAs (Decidable (_ ∧ _))

/-- The received bytes hold the octets that the responder looks at or quotes. -/
def HoldsReply (self : List (HostChain af)) (p : Mem) (n : ℕ) : Prop :=
  ∀ k c hit, HostChainArray.Responds self p k c hit →
    if IcmpAtTarget c p then
      af.wire.icmp < n ∧ (p af.wire.icmp = af.wire.echo → ¬ CutsChecksum af p n)
    else af.wire.icmp + 8 ≤ n

variable {self : List (HostChain af)} {p q : Mem} {n k : ℕ} {c : HostChain af}
  {hit : HostChain.Hit} {host : FakeHost af} {ttl : UInt8} {o : Outcome}

/-! ## The header -/

theorem ttl_congr (h : Agree n p q) (hn : af.wire.icmp ≤ n) : p af.wire.ttl = q af.wire.ttl :=
  h _ (lt_of_lt_of_le (by cases af <;> decide) hn)

theorem proto_congr (h : Agree n p q) (hn : af.wire.icmp ≤ n) :
    p af.wire.proto = q af.wire.proto :=
  h _ (lt_of_lt_of_le (by cases af <;> decide) hn)

theorem dst_congr (h : Agree n p q) (hn : af.wire.icmp ≤ n) :
    Addr.load af p af.wire.dst = Addr.load af q af.wire.dst :=
  Addr.ext_bytes (h.read_eq (le_trans (by cases af <;> decide) hn))

theorem responds_congr (h : Agree n p q) (hn : af.wire.icmp ≤ n)
    (hresp : HostChainArray.Responds self p k c hit) :
    HostChainArray.Responds self q k c hit := by
  obtain ⟨httl, hchain, hin, hfind, hresult⟩ := hresp
  rw [ttl_congr h hn] at httl hfind hresult
  rw [dst_congr h hn] at hin hfind hresult
  exact ⟨httl, hchain, hin, hfind, hresult⟩

theorem icmpAtTarget_congr (h : Agree n p q) (hn : af.wire.icmp ≤ n) (hc : IcmpAtTarget c p) :
    IcmpAtTarget c q := by
  rwa [IcmpAtTarget, ← ttl_congr h hn, ← dst_congr h hn, ← proto_congr h hn]

theorem agree_symm (h : Agree n p q) : Agree n q p := fun k hk => (h k hk).symm

/-- The outcome is the same unless it depends on an ICMP type that was not received. -/
theorem outcome_congr (h : Agree n p q) (hn : af.wire.icmp ≤ n)
    (hresp : HostChainArray.Responds self p k c hit)
    (htype : IcmpAtTarget c p → p af.wire.icmp = q af.wire.icmp) :
    (c.hostAt hit.slot).outcomeOf hit.index q = (c.hostAt hit.slot).outcomeOf hit.index p := by
  rw [hresp.outcome_eq, (responds_congr h hn hresp).outcome_eq, ← ttl_congr h hn,
    ← dst_congr h hn, ← proto_congr h hn]
  split_ifs with hreach hicmp <;> first | rfl | skip
  all_goals
    have := htype ⟨hreach, hicmp⟩
    simp_all

/-! ## Replies that agree -/

theorem agree_replyOf_append (h : Agree n p q) (hn : af.wire.icmp + 8 ≤ n)
    (hp : ttl < p af.wire.ttl) (hq : ttl < q af.wire.ttl) (hop : host.outcomeOf ttl p = o)
    (hoq : host.outcomeOf ttl q = o) (hne : o ≠ .ignored) (hne' : o ≠ .echoReply) :
    Agree af.wire.errorLen (host.replyOf ttl p n).packet (host.replyOf ttl q n).packet := by
  cases af
  · show Agree 56 (FakeHost.reply host ttl p n).packet (FakeHost.reply host ttl q n).packet
    rw [FakeHost.reply_append hp hop hne hne', FakeHost.reply_append hq hoq hne hne']
    exact FakeHost.agree_noAppend (FakeHost.agree_append h o hn) (by omega)
  · show Agree 96 (FakeHost6.reply host ttl p n).packet (FakeHost6.reply host ttl q n).packet
    rw [FakeHost6.reply_append hp hop hne hne', FakeHost6.reply_append hq hoq hne hne']
    exact FakeHost6.agree_noAppend (FakeHost6.agree_append h o hn) false (by decide) (by decide)
      (Nat.le_refl 96) (by decide)

theorem agree_replyOf_echoReply (h : Agree n p q) (hn : af.wire.icmp ≤ n)
    (hmtu : minMtu af ≤ host.mtu.toNat) (hcut : ¬ CutsChecksum af p n)
    (hp : ttl < p af.wire.ttl) (hq : ttl < q af.wire.ttl)
    (hop : host.outcomeOf ttl p = .echoReply) (hoq : host.outcomeOf ttl q = .echoReply) :
    Agree (min n host.mtu.toNat) (host.replyOf ttl p n).packet (host.replyOf ttl q n).packet := by
  have hmax := host.mtu.toNat_lt
  refine Agree.mono ?_ (Nat.min_le_left n host.mtu.toNat)
  cases af
  · simp only [minMtu] at hmtu
    change 20 ≤ n at hn
    show Agree n (FakeHost.reply host ttl p n).packet (FakeHost.reply host ttl q n).packet
    rw [FakeHost.reply_echoReply hp hop, FakeHost.reply_echoReply hq hoq]
    split_ifs
    · exact FakeHost.agree_noAppend (FakeHost.agree_patchEcho h hcut) hn
    · exact FakeHost.agree_noAppend
        (FakeHost.agree_truncateEcho h (by omega) (by omega) (by omega)) hn
  · simp only [minMtu] at hmtu
    change 40 ≤ n at hn
    show Agree n (FakeHost6.reply host ttl p n).packet (FakeHost6.reply host ttl q n).packet
    rw [FakeHost6.reply_echoReply hp hop, FakeHost6.reply_echoReply hq hoq]
    split_ifs
    · exact FakeHost6.agree_header (FakeHost6.agree_patchEcho h hcut) hn
    · have htrunc : Agree n (FakeHost6.truncateEcho host.mtu.toNat p)
          (FakeHost6.truncateEcho host.mtu.toNat q) := FakeHost6.agree_truncateEcho h
      exact FakeHost6.agree_noAppend htrunc false hn (by omega) (by omega) (by omega)

theorem ignoresRest_of_holdsReply (hn : af.wire.icmp ≤ n)
    (hmtu : ∀ c ∈ self, ∀ h ∈ c.hosts, minMtu af ≤ h.mtu.toNat) (hholds : HoldsReply self p n) :
    IgnoresRest self p n := by
  intro q h
  by_cases hsome : ∃ k c hit, HostChainArray.Responds self p k c hit
  swap
  · have hnone : ∀ k c hit, ¬ HostChainArray.Responds self q k c hit := fun k c hit hresp =>
      hsome ⟨k, c, hit, responds_congr (agree_symm h) hn hresp⟩
    rw [HostChainArray.reply_of_not_responds hnone,
      HostChainArray.reply_of_not_responds fun k c hit hresp => hsome ⟨k, c, hit, hresp⟩]
    rw [ttl_congr h hn]
    exact ⟨rfl, rfl, h⟩
  obtain ⟨k, c, hit, hresp⟩ := hsome
  have hresp' := responds_congr h hn hresp
  have hheld := hholds k c hit hresp
  have hout : (c.hostAt hit.slot).outcomeOf hit.index q =
      (c.hostAt hit.slot).outcomeOf hit.index p := by
    refine outcome_congr h hn hresp fun hc => ?_
    rw [if_pos hc] at hheld
    exact h _ hheld.1
  have hmtu' := hresp.of_forall hmtu
  rw [HostChainArray.reply_of_responds hresp, HostChainArray.reply_of_responds hresp']
  by_cases hign : (c.hostAt hit.slot).outcomeOf hit.index p = .ignored
  · rw [FakeHost.replyOf_ignored hresp.index_lt hign,
      FakeHost.replyOf_ignored hresp'.index_lt (hout.trans hign)]
    exact ⟨rfl, rfl, fun k hk => absurd hk (Nat.not_lt_zero k)⟩
  have hans : FakeHost.Answered _ _ _ n _ _ := FakeHost.replyOf_answered hresp.index_lt hign
  have hans' : FakeHost.Answered _ _ _ n _ _ :=
    FakeHost.replyOf_answered hresp'.index_lt (hout ▸ hign)
  refine ⟨hans'.ret.trans hans.ret.symm, by rw [hans'.len, hans.len, hout], ?_⟩
  rw [hans.len]
  by_cases hecho : (c.hostAt hit.slot).outcomeOf hit.index p = .echoReply
  · rw [if_pos hecho]
    have hecho' := hecho
    rw [hresp.outcome_eq] at hecho'
    split_ifs at hecho' with hreach hicmp htype
    rw [if_pos ⟨hreach, hicmp⟩] at hheld
    exact agree_replyOf_echoReply h hn hmtu' (hheld.2 htype) hresp.index_lt hresp'.index_lt hecho
      (hout.trans hecho)
  · rw [if_neg hecho]
    have hnot : ¬ IcmpAtTarget c p := by
      rintro ⟨hreach, hicmp⟩
      rw [hresp.outcome_eq, if_pos hreach, if_pos hicmp] at hign hecho
      split_ifs at hign hecho with htype
      · exact hecho rfl
      · exact hign rfl
    rw [if_neg hnot] at hheld
    exact agree_replyOf_append h hheld hresp.index_lt hresp'.index_lt rfl hout hign hecho

/-! ## Replies that differ -/

/-- The last octet of an error message is the last one that it quotes. -/
theorem replyOf_quote (hp : ttl < p af.wire.ttl) (hne : host.outcomeOf ttl p ≠ .ignored)
    (hne' : host.outcomeOf ttl p ≠ .echoReply) :
    (host.replyOf ttl p n).packet (af.wire.errorLen - 1) = p (af.wire.icmp + 7) := by
  cases af
  · show (FakeHost.reply host ttl p n).packet 55 = p 27
    rw [FakeHost.reply_append hp rfl hne hne']
    exact (FakeHost.noAppend_of_ne (k := 55) (by decide)).trans
      (FakeHost.append_quote (k := 27) _ (by decide))
  · show (FakeHost6.reply host ttl p n).packet 95 = p 47
    rw [FakeHost6.reply_append hp rfl hne hne']
    dsimp only
    exact (FakeHost6.noAppend_of_ne (k := 95) (by decide) (by decide) (by decide)).trans
      (FakeHost6.append_quote (k := 47) _ (by decide))

theorem len_reply_icmp (hresp : HostChainArray.Responds self p k c hit) (hc : IcmpAtTarget c p) :
    (HostChainArray.reply self p n).len =
      if p af.wire.icmp = af.wire.echo then min n (c.hostAt hit.slot).mtu.toNat else 0 := by
  have hout := hresp.outcome_eq
  rw [if_pos hc.1, if_pos hc.2] at hout
  rw [HostChainArray.reply_of_responds hresp]
  split_ifs at hout ⊢ with htype
  · have hans : FakeHost.Answered _ _ _ n _ _ :=
      FakeHost.replyOf_answered hresp.index_lt (by rw [hout]; decide)
    rw [hans.len, if_pos hout]
  · rw [FakeHost.replyOf_ignored hresp.index_lt hout]

/-- The first octet of the checksum depends on the second where the received bytes cut it. -/
theorem exists_patch_ne (host : FakeHost af) (hcut : CutsChecksum af p n)
    (hmtu : n ≤ host.mtu.toNat) :
    ∃ k < n, ∃ q, Agree n p q ∧ ∀ ttl, ttl < p af.wire.ttl → ttl < q af.wire.ttl →
      host.outcomeOf ttl p = .echoReply → host.outcomeOf ttl q = .echoReply →
        (host.replyOf ttl p n).packet k ≠ (host.replyOf ttl q n).packet k := by
  cases af
  · obtain ⟨rfl, hlo⟩ := hcut
    refine ⟨22, by decide, set p 23 (if p 23 = 255 then 0 else 255),
      agree_set_of_le p _ (Nat.le_refl 23), fun ttl hp hq hop hoq => ?_⟩
    show (FakeHost.reply host ttl p 23).packet 22 ≠ (FakeHost.reply host ttl _ 23).packet 22
    rw [FakeHost.reply_echoReply hp hop, FakeHost.reply_echoReply hq hoq, if_pos hmtu, if_pos hmtu]
    dsimp only
    rw [FakeHost.noAppend_of_ne (by decide), FakeHost.noAppend_of_ne (by decide),
      FakeHost.patchEcho_lo, FakeHost.patchEcho_lo, set_self, set_of_ne _ (by decide)]
    by_cases hhi : p 23 = 255 <;> simp [hlo, hhi]
  · obtain ⟨rfl, hlo⟩ := hcut
    refine ⟨42, by decide, set p 43 (if p 43 = 0 then 1 else 0),
      agree_set_of_le p _ (Nat.le_refl 43), fun ttl hp hq hop hoq => ?_⟩
    show (FakeHost6.reply host ttl p 43).packet 42 ≠ (FakeHost6.reply host ttl _ 43).packet 42
    rw [FakeHost6.reply_echoReply hp hop, FakeHost6.reply_echoReply hq hoq, if_pos hmtu,
      if_pos hmtu]
    show FakeHost6.header host ttl (FakeHost6.patchEcho p) 42 ≠
      FakeHost6.header host ttl (FakeHost6.patchEcho _) 42
    rw [FakeHost6.header_of_ne (by decide), FakeHost6.header_of_ne (by decide),
      FakeHost6.patchEcho_lo, FakeHost6.patchEcho_lo, set_self, set_of_ne _ (by decide)]
    by_cases hhi : p 43 = 0 <;> simp [hlo, hhi] <;> decide

/-- The type octet of an ICMP packet at its target was received: otherwise changing it would change
whether the packet is answered. -/
theorem type_lt_of_ignoresRest (hn : af.wire.icmp ≤ n) (h : IgnoresRest self p n)
    (hresp : HostChainArray.Responds self p k c hit)
    (hmtu : minMtu af ≤ (c.hostAt hit.slot).mtu.toNat)
    (hc : IcmpAtTarget c p) : af.wire.icmp < n := by
  by_contra hle
  have hmin : 0 < minMtu af ∧ 0 < af.wire.icmp := by cases af <;> decide
  have hecho : (0 : UInt8) ≠ af.wire.echo := by cases af <;> decide
  have hq : Agree n p (set p af.wire.icmp
    (if p af.wire.icmp = af.wire.echo then 0 else af.wire.echo)) := agree_set_of_le p _ (by omega)
  have hlen := (h _ hq).2.1
  rw [len_reply_icmp hresp hc,
    len_reply_icmp (responds_congr hq hn hresp) (icmpAtTarget_congr hq hn hc), set_self] at hlen
  split_ifs at hlen with htype
  · omega
  · omega
  · exact absurd rfl ‹_›

/-- The received bytes of an echo request do not cut the checksum. -/
theorem not_cutsChecksum_of_ignoresRest (hn : af.wire.icmp ≤ n) (h : IgnoresRest self p n)
    (hresp : HostChainArray.Responds self p k c hit)
    (hmtu : minMtu af ≤ (c.hostAt hit.slot).mtu.toNat)
    (hc : IcmpAtTarget c p) (htype : p af.wire.icmp = af.wire.echo) :
    ¬ CutsChecksum af p n := by
  intro hcut
  have hmin : 43 ≤ minMtu af := by cases af <;> decide
  have hlt : af.wire.icmp < n ∧ n ≤ (c.hostAt hit.slot).mtu.toNat := by
    cases af <;> (obtain ⟨rfl, -⟩ := hcut; exact ⟨by decide, by omega⟩)
  obtain ⟨j, hj, q, hq, hne⟩ := exists_patch_ne (c.hostAt hit.slot) hcut hlt.2
  have hresp' := responds_congr hq hn hresp
  have hout : (c.hostAt hit.slot).outcomeOf hit.index p = .echoReply := by
    rw [hresp.outcome_eq, if_pos hc.1, if_pos hc.2, if_pos htype]
  have hout' : (c.hostAt hit.slot).outcomeOf hit.index q = .echoReply :=
    (outcome_congr hq hn hresp fun _ => hq _ hlt.1).trans hout
  have hagree := (h q hq).2.2
  rw [len_reply_icmp hresp hc, if_pos htype, Nat.min_eq_left hlt.2,
    HostChainArray.reply_of_responds hresp, HostChainArray.reply_of_responds hresp'] at hagree
  exact hne hit.index hresp.index_lt hresp'.index_lt hout hout' (hagree j hj)

/-- The octets that an error message quotes were received: otherwise changing the last one would
change the message. -/
theorem quote_le_of_ignoresRest (hn : af.wire.icmp ≤ n) (h : IgnoresRest self p n)
    (hresp : HostChainArray.Responds self p k c hit) (hc : ¬ IcmpAtTarget c p) :
    af.wire.icmp + 8 ≤ n := by
  by_contra hle
  have hq : Agree n p (set p (af.wire.icmp + 7) (p (af.wire.icmp + 7) + 1)) :=
    agree_set_of_le p _ (by omega)
  have hresp' := responds_congr hq hn hresp
  have hout := outcome_congr hq hn hresp fun hc' => absurd hc' hc
  have hne : (c.hostAt hit.slot).outcomeOf hit.index p ≠ .ignored ∧
      (c.hostAt hit.slot).outcomeOf hit.index p ≠ .echoReply := by
    rw [hresp.outcome_eq]
    split_ifs with hreach hicmp
    · exact absurd ⟨hreach, hicmp⟩ hc
    · exact absurd ⟨hreach, hicmp⟩ hc
    all_goals decide
  have hans : FakeHost.Answered _ _ _ n _ _ := FakeHost.replyOf_answered hresp.index_lt hne.1
  have hagree := (h _ hq).2.2
  rw [HostChainArray.reply_of_responds hresp, HostChainArray.reply_of_responds hresp', hans.len,
    if_neg hne.2] at hagree
  have hlast := hagree (af.wire.errorLen - 1) (by cases af <;> decide)
  rw [replyOf_quote hresp.index_lt hne.1 hne.2,
    replyOf_quote hresp'.index_lt (hout ▸ hne.1) (hout ▸ hne.2), set_self] at hlast
  have := congrArg UInt8.toNat hlast
  rw [UInt8.toNat_add, UInt8.toNat_one] at this
  have hlt := (p (af.wire.icmp + 7)).toNat_lt
  omega

theorem holdsReply_of_ignoresRest (hn : af.wire.icmp ≤ n)
    (hmtu : ∀ c ∈ self, ∀ h ∈ c.hosts, minMtu af ≤ h.mtu.toNat) (h : IgnoresRest self p n) :
    HoldsReply self p n := by
  intro k c hit hresp
  have hmtu' := hresp.of_forall hmtu
  split_ifs with hc
  · exact ⟨type_lt_of_ignoresRest hn h hresp hmtu' hc,
      not_cutsChecksum_of_ignoresRest hn h hresp hmtu' hc⟩
  · exact quote_le_of_ignoresRest hn h hresp hc

/-- **What is sent** depends on the received bytes alone exactly when they hold all that the reply
is made of. -/
theorem ignoresRest_iff (hn : af.wire.icmp ≤ n)
    (hmtu : ∀ c ∈ self, ∀ h ∈ c.hosts, minMtu af ≤ h.mtu.toNat) :
    IgnoresRest self p n ↔ HoldsReply self p n :=
  ⟨holdsReply_of_ignoresRest hn hmtu, ignoresRest_of_holdsReply hn hmtu⟩

theorem ignoresRest_ping : IgnoresRest [oneHop] ping 28 := by
  refine (ignoresRest_iff (by decide) (by decide)).mpr fun k c hit hresp => ?_
  obtain rfl := List.mem_singleton.mp (List.mem_of_getElem? hresp.chain)
  decide

/-- A UDP packet to `10.0.0.1` with TTL 1. -/
def udp : Mem := set ping Ip.ipP 17

/-- The header of a UDP packet without its payload: the message quotes eight octets of the rest. -/
theorem not_ignoresRest : ¬ ∀ (af : Af) (self : List (HostChain af)) (p : Mem) (n : ℕ),
    af.wire.icmp ≤ n → (∀ c ∈ self, ∀ h ∈ c.hosts, minMtu af ≤ h.mtu.toNat) →
      IgnoresRest self p n := by
  intro h
  obtain ⟨-, -, hsent⟩ := h .inet [oneHop] udp 20 (by decide) (by decide) (set udp 27 1)
    (agree_set_of_le udp 1 (by decide))
  exact absurd (hsent 55 (by decide)) (by decide)

end Rdnstun
