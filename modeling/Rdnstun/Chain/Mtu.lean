import Rdnstun.Chain.Ttl

/-!
# The MTU of a host

* `MtuOk`: the least MTU of the family is at most that of every host.
* **`mtuOk_init`**: so it is in the chain of a specification.
* `MtuPath`: the MTUs do not increase along the hosts; **`mtuPath_init`**.
-/

namespace Rdnstun

open Run

variable {af : Af} {env : Env af} {s : List Char} {p p' : Parse af} {token : List Char}

/-- Every host has at least the least MTU of the family. -/
def MtuOk (hosts : List (FakeHost af)) : Prop := ∀ h ∈ hosts, minMtu af ≤ h.mtu.toNat

/-- The MTU is within its bounds once it is set, and it is set with the first host. -/
structure Parse.MtuInv (p : Parse af) : Prop where
  hosts : MtuOk p.hosts
  mtu : p.mtu = 0 ∨ minMtu af ≤ p.mtu ∧ p.mtu ≤ IP_MAXPACKET
  unset : p.mtu = 0 → p.i = 0

theorem minMtu_pos (af : Af) : 0 < minMtu af := by cases af <;> decide

theorem minMtu_le_default (af : Af) : minMtu af ≤ 1500 := by cases af <;> decide

theorem Parse.MtuInv.defaults (h : p.MtuInv) :
    minMtu af ≤ p.defaults.mtu ∧ p.defaults.mtu ≤ IP_MAXPACKET := by
  have hpos := minMtu_pos af
  have hmin := minMtu_le_default af
  have hmax : IP_MAXPACKET = 65535 := rfl
  have hmtu := h.mtu
  have hunset := h.unset
  rw [Parse.mtu_defaults]
  split_ifs <;> omega

theorem mtuOk_map_host (h : minMtu af ≤ p.mtu ∧ p.mtu ≤ IP_MAXPACKET) (addrs : List (Addr af)) :
    MtuOk (addrs.map p.host) := by
  intro g hg
  obtain ⟨addr, -, rfl⟩ := List.mem_map.mp hg
  have hmax : IP_MAXPACKET = 65535 := rfl
  rw [Parse.host, UInt16.toNat_ofNat', Nat.mod_eq_of_lt (by omega)]
  exact h.1

theorem mtuInv_step (p : Parse af) (token : List Char) (p' : Parse af) (hp : p.MtuInv)
    (h : step env p token = .ok p') : p'.MtuInv := by
  have hpos := minMtu_pos af
  rcases step_ok h with ⟨-, hset⟩ | ⟨-, -, -, happ⟩
  · have hi := hset.i
    have hmtu := hp.mtu
    have hunset := hp.unset
    refine ⟨hset.hosts ▸ hp.hosts, ?_, ?_⟩
    · rcases hset.mtu with hnew | ⟨hmin, hnew⟩
      · rwa [hnew]
      · unfold Parse.maxMtu at hnew
        split_ifs at hnew <;> omega
    · rcases hset.mtu with hnew | ⟨hmin, -⟩
      · rw [hnew, hi]
        exact hunset
      · omega
  · have hdef := hp.defaults
    have hmtu := happ.mtu
    refine ⟨?_, .inr (hmtu ▸ hdef), fun hzero => by omega⟩
    rw [happ.hosts, Parse.hosts_defaults]
    intro g hg
    rcases List.mem_append.mp hg with hg | hg
    · exact hp.hosts g hg
    · exact mtuOk_map_host hdef _ g hg

theorem mtuInv_parse (h : parse env s = .ok p) : p.MtuInv :=
  run_invariant mtuInv_step ⟨fun _ hh => absurd hh List.not_mem_nil, .inl rfl, fun _ => rfl⟩ h

/-- **The MTU** of every host of a specification is at least the least one. -/
theorem mtuOk_init {c : HostChain af} (h : HostChain.init env s = .ok c) : MtuOk c.hosts := by
  obtain ⟨p, hparse, -, rfl⟩ := init_ok h
  intro g hg
  exact (mtuInv_parse hparse).hosts g
    (HostChain.slots_finish p ▸ p.finish.hosts_isPrefix_slots.subset hg)

/-! ## Along the chain -/

/-- The MTUs do not increase along the chain, and all are within their bounds. -/
structure MtuPath (hosts : List (FakeHost af)) : Prop where
  pairwise : hosts.Pairwise fun g h => h.mtu ≤ g.mtu
  bounds : ∀ h ∈ hosts, minMtu af ≤ h.mtu.toNat ∧ h.mtu.toNat ≤ IP_MAXPACKET

/-- No host has a smaller MTU than the current one. -/
structure Parse.MtuDesc (p : Parse af) : Prop where
  inv : p.MtuInv
  pairwise : p.hosts.Pairwise fun g h => h.mtu ≤ g.mtu
  le : ∀ h ∈ p.hosts, p.mtu ≤ h.mtu.toNat

theorem toNat_mtu_host (h : p.mtu ≤ IP_MAXPACKET) (addr : Addr af) :
    (p.host addr).mtu.toNat = p.mtu := by
  have hmax : IP_MAXPACKET = 65535 := rfl
  rw [Parse.host, UInt16.toNat_ofNat']
  exact Nat.mod_eq_of_lt (by omega)

theorem Parse.hosts_eq_nil (h : p.i = 0) : p.hosts = [] := by
  rw [Parse.hosts, h]
  rfl

/-- The defaults are filled in before the first host only. -/
theorem Parse.MtuDesc.defaults_le (hp : p.MtuDesc) :
    ∀ h ∈ p.hosts, p.defaults.mtu ≤ h.mtu.toNat := by
  intro h hh
  rw [Parse.mtu_defaults]
  split_ifs with hset
  · rw [Parse.hosts_eq_nil hset.1] at hh
    cases hh
  · exact hp.le h hh

theorem SetsOption.mtu_le (hset : SetsOption p p') (hp : p.MtuDesc) :
    ∀ h ∈ p.hosts, p'.mtu ≤ h.mtu.toNat := by
  intro h hh
  rcases hset.mtu with hmtu | ⟨-, hmtu⟩
  · rw [hmtu]
    exact hp.le h hh
  · unfold Parse.maxMtu at hmtu
    split_ifs at hmtu with hzero
    · rw [Parse.hosts_eq_nil (hp.inv.unset hzero)] at hh
      cases hh
    · exact hmtu.trans (hp.le h hh)

theorem mtuDesc_step (p : Parse af) (token : List Char) (p' : Parse af) (hp : p.MtuDesc)
    (h : step env p token = .ok p') : p'.MtuDesc := by
  have hinv := mtuInv_step p token p' hp.inv h
  rcases step_ok h with ⟨-, hset⟩ | ⟨-, -, -, happ⟩
  · exact ⟨hinv, hset.hosts ▸ hp.pairwise, hset.hosts ▸ hset.mtu_le hp⟩
  · have hnew : ∀ g ∈ (tokenAddrs af token).map p.defaults.host, g.mtu.toNat = p.defaults.mtu := by
      intro g hg
      obtain ⟨addr, -, rfl⟩ := List.mem_map.mp hg
      exact toNat_mtu_host hp.inv.defaults.2 addr
    have hhosts : p'.hosts = p.hosts ++ (tokenAddrs af token).map p.defaults.host := by
      rw [happ.hosts, Parse.hosts_defaults]
    refine ⟨hinv, ?_, fun h hh => ?_⟩
    · rw [hhosts]
      refine List.pairwise_append.mpr ⟨hp.pairwise, ?_, fun g hg h hh => ?_⟩
      · refine List.pairwise_of_forall_mem_list fun g hg h hh => ?_
        rw [UInt16.le_iff_toNat_le, hnew g hg, hnew h hh]
      · rw [UInt16.le_iff_toNat_le, hnew h hh]
        exact hp.defaults_le g hg
    · rw [hhosts] at hh
      rw [happ.mtu]
      rcases List.mem_append.mp hh with hh | hh
      · exact hp.defaults_le h hh
      · exact (hnew h hh).ge

/-- **The MTUs of a specification** do not increase along its chain. -/
theorem mtuPath_init {c : HostChain af} (h : HostChain.init env s = .ok c) : MtuPath c.slots := by
  obtain ⟨p, hparse, -, rfl⟩ := init_ok h
  have hinv := mtuInv_parse hparse
  have hstart : (Parse.start env).MtuDesc :=
    ⟨mtuInv_parse (s := []) rfl, List.Pairwise.nil, fun _ hh => absurd hh List.not_mem_nil⟩
  have hdesc : p.MtuDesc := run_invariant mtuDesc_step hstart hparse
  rw [HostChain.slots_finish]
  exact ⟨hdesc.pairwise, fun g hg => ⟨hinv.hosts g hg, Nat.le_of_lt_succ g.mtu.toNat_lt⟩⟩

end Rdnstun
