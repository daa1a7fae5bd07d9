import Rdnstun.Array.Reply
import Rdnstun.Chain.Ttl
import Rdnstun.Main.Options

/-!
# The TTL of a reply

* `TtlContract`: every host of an array has a TTL above its position, and every packet that is
  answered gets a TTL from 1 to the TTL of the responder, without an underflow.
* **`ttlContract_iff`**: the array that the options build meets it exactly when no range of a
  specification runs past the current TTL.
-/

namespace Rdnstun

open Memory Run

variable {af : Af} {m : Main} {opts : List Opt} {self sorted : List (HostChain af)}

/-- A packet that is answered gets a TTL from 1 to the TTL of its responder, which is at least the
index that is subtracted from it. -/
def RepliesTtl (self : List (HostChain af)) : Prop :=
  ∀ pkt len, (HostChainArray.reply self pkt len).ret = 0 →
    0 < (HostChainArray.reply self pkt len).len →
      ∃ host index, HostChainArray.find self (Addr.load af pkt af.wire.dst) (pkt af.wire.ttl) 0 =
        (some host, index) ∧ index ≤ (host.deref self).ttl ∧
          (HostChainArray.reply self pkt len).packet af.wire.ttl =
            (host.deref self).ttl - index ∧
          1 ≤ (HostChainArray.reply self pkt len).packet af.wire.ttl ∧
          (HostChainArray.reply self pkt len).packet af.wire.ttl ≤ (host.deref self).ttl

/-- Every host has a TTL above its position, and every reply a TTL from 1 to that of its host. -/
def TtlContract (self : List (HostChain af)) : Prop :=
  (∀ c ∈ self, TtlAbove c.slots) ∧ RepliesTtl self

/-! ## Replies -/

theorem toNat_ttl_hostAt {c : HostChain af} (h : TtlAbove c.slots) {k : ℕ}
    (hk : k < c.hosts.length) : k < (c.hostAt k).ttl.toNat := by
  refine h k _ ?_
  obtain ⟨rest, hrest⟩ := c.hosts_isPrefix_slots
  rw [← hrest, List.getElem?_append_left hk, List.getElem?_eq_getElem hk,
    HostChain.hostAt_eq_getElem hk]

theorem repliesTtl_of_ttlAbove (h : ∀ c ∈ self, TtlAbove c.slots) : RepliesTtl self := by
  intro pkt len hret hlen
  obtain ⟨k, c, hit, hresp, ho⟩ := HostChainArray.exists_responds hret hlen
  have hans : FakeHost.Answered _ _ _ len _ _ := FakeHost.replyOf_answered hresp.index_lt ho
  rw [HostChainArray.reply_of_responds hresp]
  refine ⟨_, _, hresp.result, ?_⟩
  rw [hresp.deref, hans.ttl]
  have hslot := toNat_ttl_hostAt (h c (List.mem_of_getElem? hresp.chain)) hresp.isHit.slot_lt
  have hlt : hit.index.toNat < (c.hostAt hit.slot).ttl.toNat := by
    rw [hresp.isHit.index]
    exact hslot
  have hle : hit.index ≤ (c.hostAt hit.slot).ttl := UInt8.le_iff_toNat_le.mpr hlt.le
  have hsub := UInt8.toNat_sub_of_le _ _ hle
  refine ⟨hle, rfl, UInt8.le_iff_toNat_le.mpr ?_, UInt8.le_iff_toNat_le.mpr ?_⟩
  · rw [hsub, UInt8.toNat_one]
    omega
  · rw [hsub]
    omega

/-! ## The arrays -/

theorem ttlAbove_of_isDuplicate {base c : HostChain af} {amount : ℕ}
    (h : IsDuplicate base amount c) (hbase : TtlAbove base.slots) : TtlAbove c.slots := by
  obtain ⟨last, -, hbuf⟩ := h.hosts
  rw [HostChain.slots_of_buf_eq hbuf]
  intro k host hk
  rw [List.getElem?_map, Option.map_eq_some_iff] at hk
  obtain ⟨g, hg, rfl⟩ := hk
  obtain ⟨rest, hrest⟩ := base.hosts_isPrefix_slots
  refine hbase k g ?_
  rw [← hrest, List.getElem?_append_left (List.getElem?_eq_some_iff.mp hg).1, hg]

theorem ttlAbove_chains (h : Main.run opts = .ok m)
    (hrange : ∀ env s, .chain af env s ∈ opts → RangesWithinTtl env s) :
    ∀ c ∈ m.chains af, TtlAbove c.slots := by
  intro c hc
  refine forall_chains (P := fun af' c => af' = af → TtlAbove c.slots) h ?_ af c hc rfl
  intro q opt af' new hvisit hadds hq c hc haf
  subst haf
  cases hadds with
  | chain hinit =>
    obtain rfl := List.mem_singleton.mp hc
    exact (HostChain.ttlAbove_slots_iff hinit).mpr (hrange _ _ hvisit.mem)
  | @dup optarg base d new haccepts hrounds =>
    obtain ⟨i, -, -, hround⟩ := hrounds.exists_dupAt hc
    have hle := haccepts.prefixLen_le.trans base.prefixLen_le
    exact ttlAbove_of_isDuplicate (dupAt_ok hle hround).2.2
      (hq _ base (List.mem_of_getLast? haccepts.getLast?) rfl)

/-- **The TTL contract** of an array holds exactly when every range of a specification for it ends
within the current TTL. -/
theorem ttlContract_iff (h : Main.run opts = .ok m)
    (hsort : HostChainArray.SortedBy (m.chains af) sorted) :
    TtlContract sorted ↔ ∀ env s, .chain af env s ∈ opts → RangesWithinTtl env s := by
  constructor
  · rintro ⟨habove, -⟩ env s hopt
    obtain ⟨c, hc, hinit⟩ := exists_mem_of_opt hopt h
    exact (HostChain.ttlAbove_slots_iff hinit).mp (habove c (hsort.1.mem_iff.mpr hc))
  · intro hrange
    have habove : ∀ c ∈ sorted, TtlAbove c.slots := fun c hc =>
      ttlAbove_chains h hrange c (hsort.1.mem_iff.mp hc)
    exact ⟨habove, repliesTtl_of_ttlAbove habove⟩

/-- A specification without a range. -/
def singleOpts : List Opt := [.chain .inet (Env.zeroed .inet) "ttl=3,10.0.0.1,10.0.0.2".toList]

theorem ttlContract_singleOpts :
    ∃ m, Main.run singleOpts = .ok m ∧ TtlContract (m.chains .inet) := by
  refine ⟨⟨_, .inet⟩, rfl, ?_⟩
  have hrun : Main.run singleOpts = .ok ⟨_, .inet⟩ := rfl
  refine (ttlContract_iff hrun ⟨List.Perm.refl _, List.pairwise_singleton _ _⟩).mpr ?_
  intro env s hopt p token first last hvisit heq hends
  cases List.mem_singleton.mp hopt
  have hnone : ∀ token ∈ tokens "ttl=3,10.0.0.1,10.0.0.2".toList, rangeEnds .inet token = none := by
    decide
  rw [hnone token hvisit.mem] at hends
  cases hends

/-- A range of ten hosts under a TTL of three. -/
theorem not_ttlContract : ¬ ∀ (opts : List Opt) (m : Main) (af : Af)
    (sorted : List (HostChain af)), Main.run opts = .ok m →
      HostChainArray.SortedBy (m.chains af) sorted → TtlContract sorted := by
  intro h
  obtain ⟨habove, -⟩ := h [.chain .inet (Env.zeroed .inet) "ttl=3,10.0.0.1-10.0.0.10".toList]
    ⟨_, .inet⟩ .inet
    [.defaultRoute ((List.range 10).map fun k => ⟨3, 1500, .v4 10 0 0 (.ofNat (k + 1))⟩)] rfl
    ⟨List.Perm.refl _, List.pairwise_singleton _ _⟩
  have := habove _ (List.mem_singleton_self _) 3 ⟨3, 1500, .v4 10 0 0 4⟩ rfl
  exact absurd this (by decide)

end Rdnstun
