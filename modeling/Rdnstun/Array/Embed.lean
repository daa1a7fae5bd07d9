import Rdnstun.Array.Traceroute

/-!
# IPv4 inside IPv6

An IPv4 address is embedded as the IPv6 address with 96 zero bits before it.

* `FakeHost.Embeds`, `HostChain.Embeds`, `PacketEmbeds`: an IPv6 host, chain or packet that
  corresponds to an IPv4 one. Nothing is said about what the decision does not depend on.
* `HostChain.find_embeds`, `HostChainArray.find_embeds`: lookup is the same.
* **`sameDecision_iff`**: so is the decision of the two reply functions, unless they read something
  else than the type of an ICMP packet.
* `embeds_embed`, `forall₂_embed`, `packetEmbeds_embed`: everything has an embedding.
-/

namespace Rdnstun

open Memory Radix

/-- The address with 96 zero bits before it. -/
def Addr.embed (a : Addr .inet) : Addr .inet6 :=
  ⟨List.replicate 12 0 ++ a.bytes, by simp [a.size_eq, Af.size]⟩

theorem embed_inj {a b : Addr .inet} : a.embed = b.embed ↔ a = b := by
  constructor
  · intro h
    exact Addr.ext_bytes (List.append_cancel_left (congrArg Addr.bytes h))
  · rintro rfl
    rfl

theorem embed_any : (Addr.any .inet).embed = Addr.any .inet6 := rfl

theorem toNat_embed (a : Addr .inet) : a.embed.toNat = a.toNat := by
  rw [Addr.toNat, Addr.embed, val_append, val_replicate_zero, Nat.zero_mul, Nat.zero_add]
  rfl

theorem block_embed (a : Addr .inet) (p : ℕ) : a.embed.block (p + 96) = a.block p := by
  rw [Addr.block, Addr.block, toNat_embed]
  congr 2
  show 128 - (p + 96) = 32 - p
  omega

/-! ## Hosts and chains -/

/-- The IPv6 host has the embedded address and the same TTL. -/
structure FakeHost.Embeds (h : FakeHost .inet) (h6 : FakeHost .inet6) : Prop where
  addr : h6.addr = h.addr.embed
  ttl : h6.ttl = h.ttl

theorem FakeHost.Embeds.isnull {h : FakeHost .inet} {h6 : FakeHost .inet6} (e : h.Embeds h6) :
    h6.isnull = h.isnull := by
  rw [FakeHost.isnull, FakeHost.isnull, e.addr, ← embed_any]
  exact decide_eq_decide.mpr embed_inj

theorem embeds_null : (FakeHost.null .inet).Embeds (FakeHost.null .inet6) := ⟨rfl, rfl⟩

namespace HostChain

/-- The IPv6 chain has embedded hosts and the embedded network, with a prefix longer by 96. -/
structure Embeds (c : HostChain .inet) (c6 : HostChain .inet6) : Prop where
  buf : List.Forall₂ FakeHost.Embeds c.buf c6.buf
  network : c6.network = c.network.embed
  prefixLen : c6.prefixLen = c.prefixLen + 96

variable {c : HostChain .inet} {c6 : HostChain .inet6}

theorem Embeds.isIn (h : Embeds c c6) (a : Addr .inet) : c6.isIn a.embed = c.isIn a := by
  rw [Bool.eq_iff_iff, isIn_iff, isIn_iff, h.network, h.prefixLen, block_embed, block_embed]

theorem getD_embeds {l : List (FakeHost .inet)} {l6 : List (FakeHost .inet6)}
    (h : List.Forall₂ FakeHost.Embeds l l6) (i : ℕ) :
    (l.getD i (.null .inet)).Embeds (l6.getD i (.null .inet6)) := by
  induction h generalizing i with
  | nil => exact embeds_null
  | cons hfirst hrest ih =>
    cases i with
    | zero => exact hfirst
    | succ i => exact ih i

theorem Embeds.hostAt (h : Embeds c c6) (i : ℕ) : (c.hostAt i).Embeds (c6.hostAt i) :=
  getD_embeds h.buf i

theorem findLoop_embeds (a : Addr .inet) {l : List (FakeHost .inet)} {l6 : List (FakeHost .inet6)}
    (h : List.Forall₂ FakeHost.Embeds l l6) (ttl i : ℕ) :
    findLoop a.embed l6 ttl i = findLoop a l ttl i := by
  induction h generalizing ttl i with
  | nil => rfl
  | cons hfirst hrest ih =>
    cases ttl with
    | zero => rfl
    | succ ttl =>
      rw [findLoop, findLoop, hfirst.isnull, hfirst.addr, ih]
      simp only [embed_inj]

/-- **Lookup in a chain** gives the same slot, flag and index. -/
theorem find_embeds (h : Embeds c c6) (a : Addr .inet) (ttl : UInt8) :
    c6.find a.embed ttl = c.find a ttl := by
  rw [find, find, findLoop_embeds a h.buf]

end HostChain

namespace HostChainArray

variable {cs : List (HostChain .inet)} {cs6 : List (HostChain .inet6)}

theorem findLoop_embeds (h : List.Forall₂ HostChain.Embeds cs cs6) (a : Addr .inet) (ttl : UInt8)
    (i : ℕ) (ret : Option HostPtr) (index : UInt8) :
    findLoop a.embed ttl cs6 i ret index = findLoop a ttl cs i ret index := by
  induction h generalizing i ret index with
  | nil => rfl
  | cons hfirst hrest ih =>
    rw [findLoop, findLoop, hfirst.isIn, HostChain.find_embeds hfirst]
    simp only [ih]

/-- **Lookup in an array** gives the same host and index. -/
theorem find_embeds (h : List.Forall₂ HostChain.Embeds cs cs6) (a : Addr .inet)
    (ttl index : UInt8) : find cs6 a.embed ttl index = find cs a ttl index :=
  findLoop_embeds h a ttl 0 none index

theorem deref_embeds (h : List.Forall₂ HostChain.Embeds cs cs6) (ptr : HostPtr) :
    (ptr.deref cs).Embeds (ptr.deref cs6) := by
  obtain ⟨k, slot⟩ := ptr
  induction h generalizing k with
  | nil => exact embeds_null
  | cons hfirst hrest ih =>
    cases k with
    | zero => exact hfirst.hostAt slot
    | succ k => exact ih k

end HostChainArray

/-! ## Packets -/

/-- The `len6` bytes of the IPv6 packet have the embedded addresses and the same TTL; they are an
ICMP packet, with its type, or an echo request like the `len` bytes of the IPv4 packet. -/
structure PacketEmbeds (pkt : Mem) (len : ℕ) (pkt6 : Mem) (len6 : ℕ) : Prop where
  src : Addr.load .inet6 pkt6 Ip6.ip6Src = (Addr.load .inet pkt Ip.ipSrc).embed
  dst : Addr.load .inet6 pkt6 Ip6.ip6Dst = (Addr.load .inet pkt Ip.ipDst).embed
  ttl : pkt6 Ip6.ip6Hlim = pkt Ip.ipTtl
  proto : pkt6 Ip6.ip6Nxt = IPPROTO_ICMPV6 ↔ pkt Ip.ipP = IPPROTO_ICMP
  received : pkt6 Ip6.ip6Nxt = IPPROTO_ICMPV6 → Ip6.icmp6Type < len6
  type : EchoRequest .inet6 pkt6 len6 ↔ EchoRequest .inet pkt len

/-- The headers of two replies correspond: the same result, TTL and embedded addresses. -/
structure ReplyEmbeds (r r6 : Reply) : Prop where
  ret : r6.ret = r.ret
  ttl : r6.packet Ip6.ip6Hlim = r.packet Ip.ipTtl
  src : Addr.load .inet6 r6.packet Ip6.ip6Src = (Addr.load .inet r.packet Ip.ipSrc).embed
  dst : Addr.load .inet6 r6.packet Ip6.ip6Dst = (Addr.load .inet r.packet Ip.ipDst).embed

variable {pkt pkt6 : Mem} {h : FakeHost .inet} {h6 : FakeHost .inet6} {len len6 : ℕ}

theorem PacketEmbeds.reply (hp : PacketEmbeds pkt len pkt6 len6) (ret : ℕ) :
    ReplyEmbeds ⟨ret, pkt, len⟩ ⟨ret, pkt6, len6⟩ :=
  ⟨rfl, hp.ttl, hp.src, hp.dst⟩

theorem PacketEmbeds.icmp6Type_iff (hp : PacketEmbeds pkt len pkt6 len6)
    (hicmp : pkt Ip.ipP = IPPROTO_ICMP) :
    pkt6 Ip6.icmp6Type = ICMP6_ECHO_REQUEST ↔ EchoRequest .inet pkt len := by
  have hproto := hp.proto.mpr hicmp
  rw [← hp.type]
  exact ⟨fun htype => ⟨hproto, hp.received hproto, htype⟩, fun hecho => hecho.2.2⟩

/-- **The branches** of the two reply functions correspond exactly when the octet that is read as
the type of an ICMP packet to the host tells whether the packet is an echo request. -/
theorem outcome_embeds_iff (e : h.Embeds h6) (hp : PacketEmbeds pkt len pkt6 len6)
    (index : UInt8) :
    FakeHost6.outcome h6 index pkt6 = h.outcome index pkt ↔
      (h.addr = Addr.load .inet pkt Ip.ipDst → pkt Ip.ipP = IPPROTO_ICMP →
        (pkt Ip.icmpType = ICMP_ECHO ↔ EchoRequest .inet pkt len)) := by
  have haddr6 : h6.addr = Addr.load .inet6 pkt6 Ip6.ip6Dst ↔
      h.addr = Addr.load .inet pkt Ip.ipDst := by rw [e.addr, hp.dst, embed_inj]
  unfold FakeHost6.outcome FakeHost.outcome
  simp only [haddr6, hp.ttl, hp.proto]
  by_cases haddr : h.addr = Addr.load .inet pkt Ip.ipDst
  swap
  · simp only [haddr, not_false_eq_true, if_true, false_imp_iff]
  by_cases hicmp : pkt Ip.ipP = IPPROTO_ICMP
  swap
  · simp only [haddr, hicmp, if_false, false_imp_iff, implies_true]
  simp only [haddr, hicmp, ne_eq, hp.icmp6Type_iff hicmp, not_true_eq_false, and_false, if_false,
    if_true, true_imp_iff]
  by_cases htype : pkt Ip.icmpType = ICMP_ECHO <;>
    by_cases hecho : EchoRequest .inet pkt len <;> simp [htype, hecho]

/-- **The replies** of two hosts correspond if their branches do. -/
theorem replyOf_embeds (e : h.Embeds h6) (hp : PacketEmbeds pkt len pkt6 len6) (index : UInt8)
    (hout : h6.outcomeOf index pkt6 = h.outcomeOf index pkt) :
    ReplyEmbeds (h.replyOf index pkt len) (h6.replyOf index pkt6 len6) := by
  by_cases hlt : index < pkt Ip.ipTtl
  swap
  · have hle : pkt Ip.ipTtl ≤ index := UInt8.not_lt.mp hlt
    rw [FakeHost.replyOf_of_le (show pkt Af.inet.wire.ttl ≤ index from hle),
      FakeHost.replyOf_of_le (show pkt6 Af.inet6.wire.ttl ≤ index from hp.ttl ▸ hle)]
    exact hp.reply 1
  have hlt6 : index < pkt6 Af.inet6.wire.ttl := hp.ttl ▸ hlt
  by_cases ho : h.outcomeOf index pkt = .ignored
  · rw [FakeHost.replyOf_ignored hlt ho, FakeHost.replyOf_ignored hlt6 (hout.trans ho)]
    exact ⟨rfl, hp.ttl, hp.src, hp.dst⟩
  · have hans : FakeHost.Answered h index pkt len _ _ := FakeHost.replyOf_answered hlt ho
    have hans6 : FakeHost.Answered h6 index pkt6 len6 _ _ :=
      FakeHost.replyOf_answered hlt6 (hout ▸ ho)
    refine ⟨hans6.ret.trans hans.ret.symm, ?_, ?_, ?_⟩
    · exact hans6.ttl.trans ((congrArg (· - index) e.ttl).trans hans.ttl.symm)
    · exact hans6.src.trans (e.addr.trans (congrArg Addr.embed hans.src).symm)
    · exact hans6.dst.trans (hp.src.trans (congrArg Addr.embed hans.dst).symm)

theorem ReplyEmbeds.raise {r r6 : Reply} (hr : ReplyEmbeds r r6) : ReplyEmbeds r.raise r6.raise :=
  ⟨by simp only [Reply.raise, hr.ret], hr.ttl, hr.src, hr.dst⟩

/-- The two reply functions decide alike: the same chain, host and index, the same branch at that
host, and replies that correspond. -/
structure SameDecision (cs : List (HostChain .inet)) (cs6 : List (HostChain .inet6))
    (pkt pkt6 : Mem) (len len6 : ℕ) : Prop where
  find : HostChainArray.find cs6 (Addr.load .inet6 pkt6 Ip6.ip6Dst) (pkt6 Ip6.ip6Hlim) 0 =
    HostChainArray.find cs (Addr.load .inet pkt Ip.ipDst) (pkt Ip.ipTtl) 0
  outcome : 0 < pkt Ip.ipTtl → ∀ (ptr : HostPtr) (index : UInt8),
    HostChainArray.find cs (Addr.load .inet pkt Ip.ipDst) (pkt Ip.ipTtl) 0 = (some ptr, index) →
      FakeHost6.outcome (ptr.deref cs6) index pkt6 = (ptr.deref cs).outcome index pkt
  reply : ReplyEmbeds (HostChain4Array.reply cs pkt len) (HostChain6Array.reply cs6 pkt6 len6)

variable {cs : List (HostChain .inet)} {cs6 : List (HostChain .inet6)}

/-- A packet that two arrays decide on alike was read alike by the host that it is for. -/
theorem SameDecision.reads (h : SameDecision cs cs6 pkt pkt6 len len6)
    (hcs : List.Forall₂ HostChain.Embeds cs cs6) (hp : PacketEmbeds pkt len pkt6 len6) {k : ℕ}
    {c : HostChain .inet} {hit : HostChain.Hit}
    (hresp : HostChainArray.Responds cs pkt k c hit)
    (hreach : c.Reaches (Addr.load .inet pkt Ip.ipDst) (pkt Ip.ipTtl))
    (hicmp : pkt Ip.ipP = IPPROTO_ICMP) :
    pkt Ip.icmpType = ICMP_ECHO ↔ EchoRequest .inet pkt len := by
  have hout := h.outcome hresp.ttl _ _ hresp.result
  rw [outcome_embeds_iff (HostChainArray.deref_embeds hcs _) hp, hresp.deref] at hout
  exact hout (hresp.addr_eq_iff.mpr hreach) hicmp

/-- **The two families** decide alike on embedded chains and packets exactly when, at its target,
the octet read as the type of an ICMP packet tells whether it is an echo request. -/
theorem sameDecision_iff (hcs : List.Forall₂ HostChain.Embeds cs cs6)
    (hp : PacketEmbeds pkt len pkt6 len6) :
    SameDecision cs cs6 pkt pkt6 len len6 ↔
      ∀ k c hit, HostChainArray.Responds cs pkt k c hit →
        c.Reaches (Addr.load .inet pkt Ip.ipDst) (pkt Ip.ipTtl) → pkt Ip.ipP = IPPROTO_ICMP →
          (pkt Ip.icmpType = ICMP_ECHO ↔ EchoRequest .inet pkt len) := by
  refine ⟨fun h k c hit => h.reads hcs hp, fun hreads => ?_⟩
  have hfind : HostChainArray.find cs6 (Addr.load .inet6 pkt6 Ip6.ip6Dst) (pkt6 Ip6.ip6Hlim) 0 =
      HostChainArray.find cs (Addr.load .inet pkt Ip.ipDst) (pkt Ip.ipTtl) 0 := by
    rw [hp.dst, hp.ttl, HostChainArray.find_embeds hcs]
  have hout : 0 < pkt Ip.ipTtl → ∀ (ptr : HostPtr) (index : UInt8),
      HostChainArray.find cs (Addr.load .inet pkt Ip.ipDst) (pkt Ip.ipTtl) 0 = (some ptr, index) →
        FakeHost6.outcome (ptr.deref cs6) index pkt6 = (ptr.deref cs).outcome index pkt := by
    intro httl ptr index hptr
    obtain ⟨c, hit, hresp, hslot, -⟩ := HostChainArray.responds_of_find httl hptr
    have hderef : ptr.deref cs = c.hostAt hit.slot := by
      rw [← hresp.deref, ← hslot]
    refine (outcome_embeds_iff (HostChainArray.deref_embeds hcs ptr) hp index).mpr ?_
    rw [hderef]
    exact fun haddr => hreads _ c hit hresp (hresp.addr_eq_iff.mp haddr)
  refine ⟨hfind, hout, ?_⟩
  rw [HostChain4Array.reply, HostChain6Array.reply, hfind, hp.ttl]
  split_ifs with httl
  · cases hptr : HostChainArray.find cs (Addr.load .inet pkt Ip.ipDst) (pkt Ip.ipTtl) 0 with
    | mk host index =>
      cases host with
      | none => exact hp.reply 17
      | some ptr =>
        exact (replyOf_embeds (HostChainArray.deref_embeds hcs ptr) hp index
          (hout httl ptr index hptr)).raise
  · exact hp.reply 18

/-! ## Embeddings exist -/

def FakeHost.embed (h : FakeHost .inet) : FakeHost .inet6 := ⟨h.ttl, h.mtu, h.addr.embed⟩

theorem FakeHost.embeds_embed (h : FakeHost .inet) : h.Embeds h.embed := ⟨rfl, rfl⟩

namespace HostChain

def embed (c : HostChain .inet) : HostChain .inet6 where
  buf := c.buf.map FakeHost.embed
  network := c.network.embed
  prefixLen := c.prefixLen + 96
  terminated := by
    obtain ⟨h, hmem, hnull⟩ := c.terminated
    exact ⟨h.embed, List.mem_map_of_mem hmem, h.embeds_embed.isnull.trans hnull⟩
  prefixLen_le := Nat.add_le_add_right c.prefixLen_le 96

theorem embeds_embed (c : HostChain .inet) : Embeds c c.embed where
  buf := by
    rw [embed, List.forall₂_map_right_iff, List.forall₂_same]
    exact fun h _ => h.embeds_embed
  network := rfl
  prefixLen := rfl

theorem forall₂_embed (cs : List (HostChain .inet)) : List.Forall₂ Embeds cs (cs.map embed) := by
  rw [List.forall₂_map_right_iff, List.forall₂_same]
  exact fun c _ => c.embeds_embed

end HostChain

/-- An IPv6 packet for the `len` bytes of an IPv4 packet, with nothing else in it. -/
def embedPacket (pkt : Mem) (len : ℕ) : Mem :=
  let pkt6 : Mem := set (fun _ => 0) Ip6.ip6Nxt
    (if pkt Ip.ipP = IPPROTO_ICMP then IPPROTO_ICMPV6 else 0)
  let pkt6 := set pkt6 Ip6.ip6Hlim (pkt Ip.ipTtl)
  let pkt6 := write pkt6 Ip6.ip6Src (Addr.load .inet pkt Ip.ipSrc).embed.bytes
  let pkt6 := write pkt6 Ip6.ip6Dst (Addr.load .inet pkt Ip.ipDst).embed.bytes
  set pkt6 Ip6.icmp6Type (if EchoRequest .inet pkt len then ICMP6_ECHO_REQUEST else 0)

theorem embedPacket_def (pkt : Mem) (len : ℕ) : embedPacket pkt len =
    set (write (write (set (set (fun _ => 0) 6 (if pkt 9 = 1 then 58 else 0)) 7 (pkt 8)) 8
      (Addr.load .inet pkt 12).embed.bytes) 24 (Addr.load .inet pkt 16).embed.bytes) 40
        (if EchoRequest .inet pkt len then 128 else 0) := rfl

theorem packetEmbeds_embed (pkt : Mem) (len : ℕ) :
    PacketEmbeds pkt len (embedPacket pkt len) 48 := by
  have hlen (a : Addr .inet) : a.embed.bytes.length = 16 := a.embed.size_eq
  have hproto : embedPacket pkt len 6 = 58 ↔ pkt 9 = 1 := by
    rw [embedPacket_def, set_of_ne _ (by omega), write_of_lt _ (by omega), write_of_lt _ (by omega),
      set_of_ne _ (by omega), set_self]
    split_ifs with hp <;> simp [hp]
  have htype : embedPacket pkt len 40 = 128 ↔ EchoRequest .inet pkt len := by
    rw [embedPacket_def, set_self]
    split_ifs with hecho <;> simp [hecho]
  refine ⟨?_, ?_, ?_, hproto, fun _ => by decide, ?_⟩
  · apply Addr.ext_bytes
    show read (embedPacket pkt len) 8 16 = _
    rw [embedPacket_def, read_set_of_disjoint _ (by omega),
      read_write_of_disjoint (by rw [hlen]; omega), read_write _ _ (hlen _)]
  · apply Addr.ext_bytes
    show read (embedPacket pkt len) 24 16 = _
    rw [embedPacket_def, read_set_of_disjoint _ (by omega), read_write _ _ (hlen _)]
  · show embedPacket pkt len 7 = _
    rw [embedPacket_def, set_of_ne _ (by omega), write_of_lt _ (by omega), write_of_lt _ (by omega),
      set_self]
  · show embedPacket pkt len 6 = 58 ∧ 40 < 48 ∧ embedPacket pkt len 40 = 128 ↔ _
    rw [hproto, htype]
    exact ⟨fun h => h.2.2, fun h => ⟨h.1, by decide, h⟩⟩

theorem sameDecision_ping :
    SameDecision [oneHop] [oneHop.embed] ping (embedPacket ping 28) 28 48 := by
  refine (sameDecision_iff (HostChain.forall₂_embed [oneHop]) (packetEmbeds_embed ping 28)).mpr ?_
  exact fun _ _ _ _ _ _ => by decide

/-- An echo request behind IP options is answered in IPv6 and ignored in IPv4. -/
theorem not_sameDecision : ¬ ∀ (cs : List (HostChain .inet)) (cs6 : List (HostChain .inet6))
    (pkt pkt6 : Mem) (len len6 : ℕ), List.Forall₂ HostChain.Embeds cs cs6 →
      PacketEmbeds pkt len pkt6 len6 → SameDecision cs cs6 pkt pkt6 len len6 := by
  intro h
  have hcs := HostChain.forall₂_embed [oneHop]
  have hp := packetEmbeds_embed pingWithOptions 32
  have hresp : HostChainArray.Responds [oneHop] pingWithOptions 0 oneHop ⟨0, true, 0⟩ :=
    ⟨by decide, rfl, by decide, rfl, rfl⟩
  have hreads := (h _ _ _ _ 32 48 hcs hp).reads hcs hp hresp (by decide) (by decide)
  exact absurd hreads (by decide)

end Rdnstun
