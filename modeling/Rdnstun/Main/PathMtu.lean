import Rdnstun.Array.Reply
import Rdnstun.Main.Options

/-!
# The MTU of a path

* `mtuPath_chains`: the MTUs do not increase along any chain that the options build.
* `RespectsMtu`: what is sent is no longer than the MTU of any host up to the responder.
* **`respectsMtu_sorted`**: the arrays of the options respect it.
-/

namespace Rdnstun

open Memory Run

variable {af : Af} {m : Main} {opts : List Opt} {self sorted : List (HostChain af)}
  {c : HostChain af} {hosts hosts' : List (FakeHost af)}

/-! ## Along a chain -/

theorem MtuPath.sublist (h : MtuPath hosts) (hsub : hosts'.Sublist hosts) : MtuPath hosts' :=
  ⟨h.pairwise.sublist hsub, fun g hg => h.bounds g (hsub.subset hg)⟩

theorem MtuPath.map (h : MtuPath hosts) {f : FakeHost af → FakeHost af}
    (hf : ∀ g, (f g).mtu = g.mtu) : MtuPath (hosts.map f) := by
  refine ⟨?_, fun g hg => ?_⟩
  · rw [List.pairwise_map]
    simp only [hf]
    exact h.pairwise
  · obtain ⟨g', hg', rfl⟩ := List.mem_map.mp hg
    rw [hf]
    exact h.bounds g' hg'

theorem mtuPath_of_isDuplicate {base : HostChain af} {amount : ℕ}
    (h : IsDuplicate base amount c) (hbase : MtuPath base.slots) : MtuPath c.slots := by
  obtain ⟨last, -, hbuf⟩ := h.hosts
  rw [HostChain.slots_of_buf_eq hbuf]
  exact (hbase.sublist base.hosts_isPrefix_slots.sublist).map fun _ => rfl

/-- **The MTUs** do not increase along the chains of the options. -/
theorem mtuPath_chains (h : Main.run opts = .ok m) : ∀ c ∈ m.chains af, MtuPath c.slots := by
  refine forall_chains (P := fun _ c => MtuPath c.slots) h ?_ af
  intro q opt af' new hvisit hadds hq c hc
  cases hadds with
  | chain hinit =>
    obtain rfl := List.mem_singleton.mp hc
    exact mtuPath_init hinit
  | @dup optarg base d new haccepts hrounds =>
    obtain ⟨i, -, -, hround⟩ := hrounds.exists_dupAt hc
    have hle := haccepts.prefixLen_le.trans base.prefixLen_le
    exact mtuPath_of_isDuplicate (dupAt_ok hle hround).2.2
      (hq _ base (List.mem_of_getLast? haccepts.getLast?))

/-! ## Replies -/

/-- The MTUs do not increase along any chain. What is sent comes from a host of a chain and is no
longer than the MTU of any host up to there; if its length is not the received one, it has room for
the IP header. -/
structure RespectsMtu (chains : List (HostChain af)) : Prop where
  path : ∀ c ∈ chains, MtuPath c.slots
  replies : ∀ pkt len, (HostChainArray.reply chains pkt len).ret = 0 →
    0 < (HostChainArray.reply chains pkt len).len →
      ∃ host index, HostChainArray.find chains (Addr.load af pkt af.wire.dst) (pkt af.wire.ttl) 0 =
        (some host, index) ∧
          (∀ j ≤ host.slot, (HostChainArray.reply chains pkt len).len ≤
            ((HostPtr.mk host.chain j).deref chains).mtu.toNat) ∧
          ((HostChainArray.reply chains pkt len).len = len ∨
            af.wire.icmp ≤ (HostChainArray.reply chains pkt len).len)

theorem MtuPath.of_slots (h : MtuPath c.slots) : MtuPath c.hosts :=
  h.sublist c.hosts_isPrefix_slots.sublist

theorem minMtu_le_sorted (h : Main.run opts = .ok m)
    (hsort : HostChainArray.SortedBy (m.chains af) sorted) :
    ∀ c ∈ sorted, ∀ host ∈ c.hosts, minMtu af ≤ host.mtu.toNat := fun c hc host hhost =>
  ((mtuPath_chains h c (hsort.1.mem_iff.mp hc)).of_slots.bounds host hhost).1

theorem MtuPath.mtu_le (h : MtuPath c.hosts) {j k : ℕ} (hjk : j ≤ k) (hk : k < c.hosts.length) :
    (c.hostAt k).mtu.toNat ≤ (c.hostAt j).mtu.toNat := by
  rw [HostChain.hostAt_eq_getElem hk, HostChain.hostAt_eq_getElem (hjk.trans_lt hk)]
  obtain rfl | hlt := Nat.eq_or_lt_of_le hjk
  · exact Nat.le_refl _
  · exact List.pairwise_iff_getElem.mp h.pairwise j k (hlt.trans hk) hk hlt

/-- An error and every header are shorter than the least MTU. -/
theorem wire_le_minMtu (af : Af) :
    af.wire.icmp ≤ af.wire.errorLen ∧ af.wire.errorLen ≤ minMtu af := by
  cases af <;> decide

/-- **The length** of what a host sends. -/
theorem len_le_mtu {host : FakeHost af} {ttl : UInt8} {pkt : Mem} {len : ℕ} {o : Outcome}
    {r : Reply} (h : FakeHost.Answered host ttl pkt len o r)
    (hmtu : minMtu af ≤ host.mtu.toNat) :
    r.len ≤ host.mtu.toNat ∧ (r.len = len ∨ af.wire.icmp ≤ r.len) := by
  have hwire := wire_le_minMtu af
  rw [h.len]
  split_ifs <;> omega

/-- **The MTU of the path.** The arrays that the options build send nothing longer than the least
MTU up to the responder. -/
theorem respectsMtu_sorted (h : Main.run opts = .ok m)
    (hsort : HostChainArray.SortedBy (m.chains af) sorted) : RespectsMtu sorted := by
  have hpath : ∀ c ∈ sorted, MtuPath c.slots := fun c hc =>
    mtuPath_chains h c (hsort.1.mem_iff.mp hc)
  refine ⟨hpath, fun pkt len hret hlen => ?_⟩
  obtain ⟨k, c, hit, hresp, ho⟩ := HostChainArray.exists_responds hret hlen
  have hhosts := (hpath c (List.mem_of_getElem? hresp.chain)).of_slots
  have hans : FakeHost.Answered _ _ _ len _ _ := FakeHost.replyOf_answered hresp.index_lt ho
  rw [HostChainArray.reply_of_responds hresp]
  obtain ⟨hle, hheader⟩ := len_le_mtu hans (hhosts.bounds _ hresp.hostAt_mem).1
  refine ⟨_, _, hresp.result, fun j hj => ?_, hheader⟩
  have hderef : (HostPtr.mk k j).deref sorted = c.hostAt j := by rw [HostPtr.deref, hresp.chain]
  rw [hderef]
  exact hle.trans (hhosts.mtu_le hj hresp.isHit.slot_lt)

/-- Two hosts, the second behind a narrower link. -/
theorem respectsMtu_two :
    ∃ m, Main.run [.chain .inet (Env.zeroed .inet) "10.0.0.1,mtu=600,10.0.0.2".toList] = .ok m ∧
      RespectsMtu (m.chains .inet) := by
  refine ⟨⟨_, .inet⟩, rfl, ?_⟩
  have hrun : Main.run [.chain .inet (Env.zeroed .inet) "10.0.0.1,mtu=600,10.0.0.2".toList] =
    .ok ⟨_, .inet⟩ := rfl
  exact respectsMtu_sorted hrun ⟨List.Perm.refl _, List.pairwise_singleton _ _⟩

end Rdnstun
