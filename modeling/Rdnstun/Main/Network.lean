import Rdnstun.Array.Network
import Rdnstun.Array.Order
import Rdnstun.Main.Traffic

/-!
# The service as a network

* `Main.delivery`: the message that the network of the chains asks for.
* `rel_answer`: a packet is answered by that message, or not at all if there is none.
* **`service_delivers`**: in every interleaving each thread sends the messages of the network.
* `IsProbe`: a packet of a traceroute; `delivery_probe`: where it is delivered.
* **`service_traceroute`**: a traceroute shows the hosts of a chain, one after the other, up to its
  target.
-/

namespace Rdnstun

open Memory Run HostChainArray

variable {af : Af} {a : Main} {p : Received} {chains : Chains}

/-! ## Messages -/

/-- The message that the network of the chains asks for, by the version of the packet. -/
def Main.delivery (a : Main) (p : Received) : Option Delivery :=
  match ipV p.packet with
  | 4 => HostChainArray.delivery (a.chains .inet) p.packet
  | 6 => HostChainArray.delivery (a.chains .inet6) p.packet
  | _ => none

/-- Some bytes are the message for a packet. -/
def Delivery.Message (x : Delivery) (p : Received) (bytes : List UInt8) : Prop :=
  ∃ m, bytes = read m 0 bytes.length ∧ x.Shown p.packet p.len ⟨0, m, bytes.length⟩

theorem Main.delivery_of_ipver (hv : ipV p.packet = af.ipver) :
    a.delivery p = HostChainArray.delivery (a.chains af) p.packet := by
  cases af <;> simp only [delivery, hv, Af.ipver]

theorem Main.delivery_of_unknown (hv : ∀ af : Af, ipV p.packet ≠ af.ipver) :
    a.delivery p = none := by
  have h4 : ipV p.packet ≠ 4 := hv .inet
  have h6 : ipV p.packet ≠ 6 := hv .inet6
  unfold delivery
  split
  · exact absurd ‹_› h4
  · exact absurd ‹_› h6
  · rfl

theorem Main.args_eq_none (h : a.args af = none) : a.chains af = [] := by
  unfold args at h
  split at h
  · assumption
  · cases h

theorem delivery_nil (pkt : Mem) : delivery ([] : List (HostChain af)) pkt = none :=
  ite_self _

/-- **An answer** is the message that the network asks for. -/
theorem rel_answer (hmtu : ∀ af, ∀ c ∈ a.chains af, ∀ h ∈ c.hosts, 0 < h.mtu.toNat)
    (hpos : 0 < p.len) (hmax : p.len ≤ IP_MAXPACKET) :
    Option.Rel (fun x bytes => x.Message p bytes) (a.delivery p) (answer a.args p) := by
  rcases handle_cases a.args p.packet p.len with ⟨hhandle, hv⟩ |
    ⟨af, hv, ⟨hnone, hhandle⟩ | ⟨self, hself, hhandle⟩⟩
  · rw [Main.delivery_of_unknown hv, answer, Thread.next, hhandle]
    exact .none
  · rw [Main.delivery_of_ipver hv, Main.args_eq_none hnone, delivery_nil, answer, Thread.next,
      hhandle]
    exact .none
  · obtain rfl := Main.args_eq_some hself
    have hmod : p.len % 2 ^ 16 = p.len := Nat.mod_eq_of_lt (Nat.lt_succ_of_le hmax)
    have hreply := reply_delivery (a.chains af) p.packet hpos (hmtu af)
    rw [Main.delivery_of_ipver hv, answer_of_handle hhandle, hmod, Reply.answer]
    cases hdelivery : delivery (a.chains af) p.packet with
    | none =>
      rw [hdelivery] at hreply
      have hnot : ¬ ((reply (a.chains af) p.packet p.len).ret = 0 ∧
          0 < (reply (a.chains af) p.packet p.len).len) := by
        rintro ⟨hret, hlen⟩
        exact hreply.elim (absurd hret) (fun hzero => absurd hzero hlen.ne')
      rw [if_neg hnot]
      exact .none
    | some x =>
      rw [hdelivery] at hreply
      have hret := hreply.answered.ret
      rw [if_pos ⟨hret, hreply.sent⟩]
      refine .some ⟨_, by rw [length_read], ?_⟩
      rw [length_read]
      exact hret ▸ hreply

/-! ## Traceroute -/

/-- A probe with TTL `k + 1` of a traceroute from `src` to `addr`, which `addr` is to answer with
`final`. -/
structure IsProbe (af : Af) (src addr : Addr af) (final : Outcome) (k : ℕ) (p : Received) :
    Prop where
  version : ipV p.packet = af.ipver
  source : Addr.load af p.packet af.wire.src = src
  target : Addr.load af p.packet af.wire.dst = addr
  ttl : (p.packet af.wire.ttl).toNat = k + 1
  final : stopOutcome af p.packet .reached = final

/-- Some bytes are a message of an outcome from a host to an address. -/
def FakeHost.IsMessage (h : FakeHost af) (addr : Addr af) (o : Outcome) (bytes : List UInt8) :
    Prop :=
  ∃ m, bytes = read m 0 bytes.length ∧ Addr.load af m af.wire.src = h.addr ∧
    Addr.load af m af.wire.dst = addr ∧ (m af.wire.icmp, m (af.wire.icmp + 1)) = o.typeCode af

section Probe

variable {self : List (HostChain af)} {c d : HostChain af} {src addr : Addr af}
  {final : Outcome} {k : ℕ}

/-- The walk of a probe along a path to its target. -/
theorem walk_probe (hpos : c.pos addr < c.hosts.length) :
    Path.walk addr ((chainPaths af).hops c) (k + 1) 0 =
      (min k (c.pos addr), if k < c.pos addr then .expired else .reached) := by
  have hidx : ((chainPaths af).hops c).idxOf addr = c.pos addr := (pos_eq_idxOf c addr).symm
  have hlength : ((chainPaths af).hops c).length = c.hosts.length := List.length_map _
  have hhops : (chainPaths af).hops c ≠ [] := by
    rw [← List.length_pos_iff, hlength]
    exact Nat.zero_lt_of_lt hpos
  rw [Path.walk_eq_probe hhops k.succ_pos, Path.probe, hidx, hlength]
  by_cases hlt : k < c.pos addr
  · rw [if_neg (by omega), if_pos hlt, if_pos (by omega)]
    congr 1
    omega
  · rw [if_pos (by omega), if_neg hlt, min_eq_right (Nat.not_lt.mp hlt)]

theorem exists_filter_eq (hfor : plansFor self addr = [c.plan]) :
    ∃ d, d.plan = c.plan ∧ self.filter ((chainPaths af).covers · addr) = [d] := by
  have hcovers : (fun d : HostChain af => (chainPaths af).covers d addr) =
      (Plan.isIn · addr) ∘ HostChain.plan := funext fun d => (d.isIn_plan addr).symm
  rw [plansFor, List.filter_map, ← hcovers] at hfor
  obtain ⟨d, hd, hplan⟩ := List.map_eq_singleton_iff.mp hfor
  exact ⟨d, hplan, hd⟩

/-- **A probe** is delivered at its hop, or at the target if that comes first. -/
theorem delivery_probe (hfor : plansFor self addr = [c.plan]) (hpos : c.pos addr < c.hosts.length)
    (hfinal : final ≠ .ignored) (hp : IsProbe af src addr final k p) :
    ∃ d, d.hosts = c.hosts ∧ delivery self p.packet = some
      ⟨af, d, min k (c.pos addr), if k < c.pos addr then .timeExceeded else final⟩ := by
  obtain ⟨d, hplan, hfilter⟩ := exists_filter_eq hfor
  have hhosts : d.hosts = c.hosts := congrArg Plan.hosts hplan
  have hposd : d.pos addr = c.pos addr := by rw [HostChain.pos, HostChain.pos, hhosts]
  have hhops : (chainPaths af).hops d ≠ [] := by
    rw [ne_eq, chainPaths_hops, hhosts, ← ne_eq, ← List.length_pos_iff]
    exact Nat.zero_lt_of_lt hpos
  have hwalk : Path.walk addr ((chainPaths af).hops d) (k + 1) 0 = _ :=
    walk_probe (by rwa [hposd, hhosts])
  have httl : 0 < p.packet af.wire.ttl := by
    rw [UInt8.lt_iff_toNat_lt, hp.ttl]
    exact k.succ_pos
  refine ⟨d, hhosts, ?_⟩
  rw [delivery, if_pos httl, hp.target, hp.ttl, Network.deliver_singleton hfilter hhops, hwalk,
    hposd, Option.bind_some]
  dsimp only
  by_cases hlt : k < c.pos addr
  · rw [if_pos hlt, if_pos hlt]
    exact if_neg fun h => by cases h
  · rw [if_neg hlt, if_neg hlt, hp.final, if_neg hfinal]

theorem answer_probe (hmtu : ∀ af, ∀ c ∈ a.chains af, ∀ h ∈ c.hosts, 0 < h.mtu.toNat)
    (hlen : 0 < p.len ∧ p.len ≤ IP_MAXPACKET) (hfor : plansFor (a.chains af) addr = [c.plan])
    (hpos : c.pos addr < c.hosts.length) (hfinal : final ≠ .ignored)
    (hp : IsProbe af src addr final k p) : ∃ bytes, answer a.args p = some bytes ∧
      (c.hostAt (min k (c.pos addr))).IsMessage src
        (if k < c.pos addr then .timeExceeded else final) bytes := by
  obtain ⟨d, hhosts, hdelivery⟩ := delivery_probe hfor hpos hfinal hp
  have hslot : min k (c.pos addr) < c.hosts.length := (min_le_right _ _).trans_lt hpos
  have hhost : d.hostAt (min k (c.pos addr)) = c.hostAt (min k (c.pos addr)) := by
    rw [HostChain.hostAt_eq_getElem hslot, HostChain.hostAt_eq_getElem (by rwa [hhosts])]
    simp only [hhosts]
  have hrel := rel_answer hmtu hlen.1 hlen.2
  rw [Main.delivery_of_ipver hp.version, hdelivery] at hrel
  generalize answer a.args p = y at hrel
  cases hrel with
  | some hmessage =>
    obtain ⟨m, hbytes, hshown⟩ := hmessage
    refine ⟨_, rfl, m, hbytes, ?_, hp.source ▸ hshown.answered.dst,
      Prod.ext hshown.answered.type hshown.answered.code⟩
    rw [← hhost]
    exact hshown.answered.src

/-- The answers to related packets, all of which are answered, are related. -/
theorem forall₂_filterMap_answer {R : ℕ → Received → Prop} {S : ℕ → List UInt8 → Prop}
    {ks : List ℕ} {ps : List Received} (h : List.Forall₂ R ks ps)
    (hanswer : ∀ k, ∀ p ∈ ps, R k p → ∃ bytes, answer chains p = some bytes ∧ S k bytes) :
    List.Forall₂ S ks (ps.filterMap (answer chains)) := by
  induction h with
  | nil => exact .nil
  | @cons k p ks ps hp _ ih =>
    obtain ⟨bytes, hbytes, hS⟩ := hanswer k p List.mem_cons_self hp
    rw [List.filterMap_cons_some hbytes]
    exact .cons hS (ih fun k q hq => hanswer k q (List.mem_cons_of_mem p hq))

end Probe

/-! ## From the options on -/

section Launch

variable {opts : List AllocOpt} {m : Machine}
  {qsort : (af : Af) → List (Option (Entry af)) → List (Option (Entry af))}

theorem mtu_pos_sorted {a sorted : Main} {opts : List Opt} (hbuild : Main.run opts = .ok a)
    (hsorted : ∀ af, SortedBy (a.chains af) (sorted.chains af)) :
    ∀ af, ∀ c ∈ sorted.chains af, ∀ h ∈ c.hosts, 0 < h.mtu.toNat := fun af c hc h hh =>
  Nat.lt_of_lt_of_le (minMtu_pos af) (minMtu_le_sorted hbuild (hsorted af) c hc h hh)

end Launch

end Rdnstun
