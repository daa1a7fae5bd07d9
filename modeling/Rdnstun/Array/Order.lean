import Rdnstun.Array.Reply

/-!
# The order of chains

`qsort` is not stable: chains of one prefix length may end up in any order.

* `Plan`: what lookups read of a chain; `Plan.respond`: the lookup over plans.
* `plansFor`, `reply_eq_respond`: a reply depends on the plans of the chains for the destination.
* **`reply_perm`**: where no two chains have the same route, two sorted arrays with the same plans
  for the destination reply alike.
-/

namespace Rdnstun

open Memory

variable {af : Af}

/-- The hosts and the route of a chain: the bits of the network that are compared, as a number, and
how many they are. -/
structure Plan (af : Af) where
  hosts : List (FakeHost af)
  block : ℕ
  prefixLen : ℕ

/-- What is read of a chain; the slots behind the first null one are not, nor is the network behind
its prefix. -/
def HostChain.plan (c : HostChain af) : Plan af :=
  ⟨c.hosts, c.network.block c.prefixLen, c.prefixLen⟩

namespace Plan

/-- The address lies in the route. -/
def isIn (p : Plan af) (addr : Addr af) : Bool := p.block = addr.block p.prefixLen

/-- The host that a chain hands back, its index, and whether it has the address. -/
def answer (p : Plan af) (addr : Addr af) (ttl : UInt8) : Option (FakeHost af × UInt8 × Bool) :=
  let pos := p.hosts.findIdx fun h => h.addr = addr
  let reach := min ttl.toNat p.hosts.length
  if pos < reach then some (p.hosts.getD pos (.null af), .ofNat pos, true)
  else if reach = 0 then none
  else some (p.hosts.getD (reach - 1) (.null af), .ofNat (reach - 1), false)

/-- The lookup over the plans whose routes contain the address. -/
def respond (addr : Addr af) (ttl : UInt8) :
    List (Plan af) → Option (FakeHost af × UInt8) → Option (FakeHost af × UInt8)
  | [], best => best
  | p :: ps, best =>
    match p.answer addr ttl with
    | none => best
    | some (host, index, found) =>
      if found then some (host, index) else respond addr ttl ps (some (host, index))

/-- Two plans have the same prefix length and the same network. -/
def SameRoute (p q : Plan af) : Prop := p.prefixLen = q.prefixLen ∧ p.block = q.block

instance (p q : Plan af) : Decidable (p.SameRoute q) := inferInstanceAs (Decidable (_ ∧ _))

theorem SameRoute.symm {p q : Plan af} (h : p.SameRoute q) : q.SameRoute p :=
  ⟨h.1.symm, h.2.symm⟩

end Plan

/-! ## Lookups -/

namespace HostChain

variable {c : HostChain af} {addr : Addr af} {ttl : UInt8}

theorem isIn_plan (c : HostChain af) (addr : Addr af) : c.plan.isIn addr = c.isIn addr := by
  rw [Bool.eq_iff_iff, isIn_iff, Plan.isIn, decide_eq_true_eq]
  rfl

theorem find_plan (c : HostChain af) (addr : Addr af) (ttl : UInt8) :
    (c.find addr ttl).map (fun hit => (c.hostAt hit.slot, hit.index, hit.found)) =
      c.plan.answer addr ttl := by
  have hget {k : ℕ} (hk : k < c.hosts.length) : c.hostAt k = c.hosts.getD k (.null af) := by
    rw [hostAt_eq_getElem hk, List.getD_eq_getElem _ _ hk]
  rw [find_eq]
  show _ = if c.pos addr < min ttl.toNat c.hosts.length then
      some (c.hosts.getD (c.pos addr) (.null af), UInt8.ofNat (c.pos addr), true)
    else if min ttl.toNat c.hosts.length = 0 then none
    else some (c.hosts.getD (min ttl.toNat c.hosts.length - 1) (.null af),
      UInt8.ofNat (min ttl.toNat c.hosts.length - 1), false)
  split_ifs with hpos hzero
  · have hlt : c.pos addr < c.hosts.length := by omega
    rw [Option.map_some, hget hlt]
  · rfl
  · have hlt : min ttl.toNat c.hosts.length - 1 < c.hosts.length := by omega
    rw [Option.map_some, hget hlt]

end HostChain

namespace HostChainArray

variable {self self' : List (HostChain af)} {addr : Addr af} {ttl : UInt8} {pkt : Mem} {len : ℕ}

/-- The plans of the chains in whose routes the address lies. -/
def plansFor (self : List (HostChain af)) (addr : Addr af) : List (Plan af) :=
  (self.map HostChain.plan).filter (Plan.isIn · addr)

/-- The loop finds what the lookup over the plans finds, if it does so far. -/
theorem findLoop_plan (self : List (HostChain af)) (addr : Addr af) (ttl : UInt8)
    {cs : List (HostChain af)} {i : ℕ} (hcs : self.drop i = cs) (ret : Option HostPtr)
    (index : UInt8) :
    (findLoop addr ttl cs i ret index).1.map
        (fun host => (host.deref self, (findLoop addr ttl cs i ret index).2)) =
      Plan.respond addr ttl (plansFor cs addr)
        (ret.map fun host => (host.deref self, index)) := by
  induction cs generalizing i ret index with
  | nil => rfl
  | cons c cs ih =>
    have hi : self[i]? = some c := by
      rw [← List.head?_drop, hcs, List.head?_cons]
    have hrest : self.drop (i + 1) = cs := by
      rw [← List.tail_drop, hcs, List.tail_cons]
    have hderef (slot : ℕ) : (HostPtr.mk i slot).deref self = c.hostAt slot := by
      rw [HostPtr.deref, hi]
    have hplan := c.find_plan addr ttl
    rw [findLoop, plansFor, List.map_cons]
    by_cases hin : c.isIn addr = true
    · rw [if_pos hin, List.filter_cons_of_pos (by rwa [HostChain.isIn_plan]), Plan.respond, ← hplan]
      cases hfind : c.find addr ttl with
      | none => rfl
      | some hit =>
        rw [Option.map_some]
        dsimp only
        split_ifs with hfound
        · rw [Option.map_some, hderef]
        · rw [ih hrest, Option.map_some, hderef]
          rfl
    · rw [if_neg hin, List.filter_cons_of_neg (by rwa [HostChain.isIn_plan])]
      exact ih hrest ret index

/-- **A reply** depends on the plans of the chains in whose routes the destination lies. -/
theorem reply_eq_respond (self : List (HostChain af)) (pkt : Mem) (len : ℕ) :
    reply self pkt len =
      if 0 < pkt af.wire.ttl then
        match Plan.respond (Addr.load af pkt af.wire.dst) (pkt af.wire.ttl)
          (plansFor self (Addr.load af pkt af.wire.dst)) none with
        | some (host, index) => (host.replyOf index pkt len).raise
        | none => ⟨17, pkt, len⟩
      else ⟨18, pkt, len⟩ := by
  have hloop := findLoop_plan self (Addr.load af pkt af.wire.dst) (pkt af.wire.ttl)
    (List.drop_zero : self.drop 0 = self) none 0
  rw [Option.map_none] at hloop
  rw [reply_eq, ← hloop, find]
  cases findLoop (Addr.load af pkt af.wire.dst) (pkt af.wire.ttl) self 0 none 0 with
  | mk ret index =>
    cases ret with
    | none => rfl
    | some host => rfl

/-! ## Distinct routes -/

/-- No two chains have the same route. -/
def DistinctRoutes (self : List (HostChain af)) : Prop :=
  self.Pairwise fun c c' => ¬ c.plan.SameRoute c'.plan

instance (self : List (HostChain af)) : Decidable (DistinctRoutes self) :=
  inferInstanceAs (Decidable (List.Pairwise _ _))

theorem DistinctRoutes.plansFor (h : DistinctRoutes self) (addr : Addr af) :
    (plansFor self addr).Pairwise fun p q => ¬ p.SameRoute q := by
  have hplans : (self.map HostChain.plan).Pairwise fun p q => ¬ p.SameRoute q :=
    List.pairwise_map.mpr h
  exact hplans.filter _

theorem DistinctRoutes.perm (h : DistinctRoutes self) (hperm : self'.Perm self) :
    DistinctRoutes self' :=
  (hperm.pairwise_iff fun hne hsame => hne hsame.symm).mpr h

theorem pairwise_lt_plansFor (h : (plansFor self addr).Pairwise fun p q => ¬ p.SameRoute q)
    (hsort : self.Pairwise fun c c' => c'.prefixLen ≤ c.prefixLen) :
    (plansFor self addr).Pairwise fun p q => q.prefixLen < p.prefixLen := by
  have hplans : (self.map HostChain.plan).Pairwise fun p q => q.prefixLen ≤ p.prefixLen :=
    List.pairwise_map.mpr hsort
  refine (h.and (hplans.filter _)).imp_of_mem ?_
  rintro p q hp hq ⟨hne, hle⟩
  refine Nat.lt_of_le_of_ne hle fun heq => hne ⟨heq.symm, ?_⟩
  have hblock := decide_eq_true_eq.mp (List.mem_filter.mp hp).2
  have hblock' := decide_eq_true_eq.mp (List.mem_filter.mp hq).2
  rw [hblock, hblock', heq]

/-- **Any order.** Two sorted arrays with the same plans for the destination, no two with the same
route, reply alike. -/
theorem reply_perm (hperm : (plansFor self (Addr.load af pkt af.wire.dst)).Perm
      (plansFor self' (Addr.load af pkt af.wire.dst)))
    (hdistinct : (plansFor self (Addr.load af pkt af.wire.dst)).Pairwise
      fun p q => ¬ p.SameRoute q)
    (hsort : self.Pairwise fun c c' => c'.prefixLen ≤ c.prefixLen)
    (hsort' : self'.Pairwise fun c c' => c'.prefixLen ≤ c.prefixLen) :
    reply self pkt len = reply self' pkt len := by
  have hdistinct' := (hperm.pairwise_iff fun hne hsame => hne hsame.symm).mp hdistinct
  have hplans : plansFor self (Addr.load af pkt af.wire.dst) =
      plansFor self' (Addr.load af pkt af.wire.dst) := by
    refine List.Perm.eq_of_pairwise ?_ (pairwise_lt_plansFor hdistinct hsort)
      (pairwise_lt_plansFor hdistinct' hsort') hperm
    intro p q _ _ hpq hqp
    exact absurd hqp (Nat.lt_asymm hpq)
  rw [reply_eq_respond, reply_eq_respond, hplans]

/-- Two chains for all addresses: the later one answers what neither finds. -/
example : ∃ (c c' : HostChain .inet) (pkt : Mem),
    (reply [c, c'] pkt 28).packet Ip.ipSrc ≠ (reply [c', c] pkt 28).packet Ip.ipSrc :=
  ⟨.defaultRoute [⟨64, 1500, .v4 10 0 0 2⟩], .defaultRoute [⟨64, 1500, .v4 11 0 0 2⟩], ping,
    by decide⟩

end HostChainArray

end Rdnstun
