import Rdnstun.Chain.Bounds
import Rdnstun.Chain.Find

/-!
# The TTL of a host and its position

* `TtlAbove`: every host of a list has a TTL above its position.
* `hosts_isPrefix`: the hosts stored at a visit stay.
* **`ttlAbove_iff`**: the hosts of an accepted specification are so exactly when no range of it
  runs past the current TTL (`RangesWithinTtl`).
-/

namespace Rdnstun

open Run

variable {af : Af} {env : Env af} {s : List Char} {p p' : Parse af} {token : List Char}

/-- Every host has a TTL above its position. -/
def TtlAbove (hosts : List (FakeHost af)) : Prop :=
  ∀ (k : ℕ) (h : FakeHost af), hosts[k]? = some h → k < h.ttl.toNat

/-- Every range that the parser reaches ends within the current TTL. -/
def RangesWithinTtl (env : Env af) (s : List Char) : Prop :=
  ∀ p token first last, Visits (step env) (Parse.start env) (tokens s) p token →
    strchr token '=' = none → rangeEnds af token = some (first, last) →
      p.i + (rangeAddrs first last).length ≤ p.defaults.ttl

/-! ## One token -/

theorem Parse.lt_ttl_defaults (h : p.ttlOk) : p.i < p.defaults.ttl := by
  rw [Parse.ttl_defaults]
  rcases h with h | h <;> split_ifs <;> omega

theorem toNat_ttl_host (h : p.ttl ≤ MAXTTL) (addr : Addr af) : (p.host addr).ttl.toNat = p.ttl := by
  have hmax : MAXTTL = 255 := rfl
  rw [Parse.host, UInt8.toNat_ofNat']
  exact Nat.mod_eq_of_lt (by omega)

theorem Appends.getElem? {addrs : List (Addr af)} (h : Appends p p' addrs) {j : ℕ}
    (hj : j < addrs.length) : p'.hosts[p.i + j]? = some (p.host addrs[j]) := by
  rw [h.hosts, List.getElem?_append_right (by simp), Parse.length_hosts, Nat.add_sub_cancel_left,
    List.getElem?_map, List.getElem?_eq_getElem hj, Option.map_some]

/-- A token appends hosts with a TTL above their positions if they end within the TTL. -/
theorem Appends.ttlAbove {addrs : List (Addr af)} (h : Appends p p' addrs) (hp : TtlAbove p.hosts)
    (httl : p.ttl ≤ MAXTTL) (hend : p.i + addrs.length ≤ p.ttl) : TtlAbove p'.hosts := by
  intro k host hk
  rw [h.hosts] at hk
  by_cases hlt : k < p.hosts.length
  · exact hp k host (by rwa [List.getElem?_append_left hlt] at hk)
  · rw [List.getElem?_append_right (by omega)] at hk
    obtain ⟨hlen, rfl⟩ := List.getElem?_eq_some_iff.mp hk
    rw [List.getElem_map, toNat_ttl_host httl]
    rw [List.length_map, Parse.length_hosts] at hlen
    omega

theorem SetsOption.hosts (h : SetsOption p p') : p'.hosts = p.hosts := by
  rw [Parse.hosts, Parse.hosts, h.i, h.slots]

theorem length_tokenAddrs_le (h : rangeEnds af token = none) :
    (tokenAddrs af token).length ≤ 1 := by
  unfold tokenAddrs
  cases strchr token '-' with
  | none => cases inetPton af token <;> simp
  | some parts => rw [h]; exact Nat.zero_le 1

/-! ## A whole specification -/

theorem hosts_isPrefix_step (p : Parse af) (token : List Char) (p' : Parse af)
    (h : step env p token = .ok p') : p.hosts <+: p'.hosts := by
  rcases step_ok h with ⟨-, hset⟩ | ⟨-, -, -, happ⟩
  · rw [hset.hosts]
  · rw [happ.hosts, Parse.hosts_defaults]
    exact List.prefix_append _ _

theorem hosts_isPrefix {l : List (List Char)} (h : run (step env) p l = .ok p') :
    p.hosts <+: p'.hosts :=
  run_invariant (P := fun q => p.hosts <+: q.hosts)
    (fun q token q' hq hstep => hq.trans (hosts_isPrefix_step q token q' hstep))
    (List.prefix_refl _) h

theorem ttlAbove_of_rangesWithinTtl (hrange : RangesWithinTtl env s) (h : parse env s = .ok p) :
    TtlAbove p.hosts := by
  refine run_invariant_visits (P := fun q => TtlAbove q.hosts) ?_ ?_ h
  · intro q token q' hvisit hq hstep
    rcases step_ok hstep with ⟨-, hset⟩ | ⟨heq, hok, -, happ⟩
    · rw [hset.hosts]
      exact hq
    · refine happ.ttlAbove (by rwa [Parse.hosts_defaults])
        (Parse.ttl_defaults_le (visits_ttl_le hvisit)) ?_
      rw [Parse.i_defaults]
      cases hends : rangeEnds af token with
      | none =>
        have hone := length_tokenAddrs_le hends
        have hlt := Parse.lt_ttl_defaults hok
        omega
      | some ends =>
        rw [tokenAddrs_of_rangeEnds hends]
        exact hrange q token ends.1 ends.2 hvisit heq hends
  · intro k host hk
    cases hk

theorem rangesWithinTtl_of_ttlAbove (hp : TtlAbove p.hosts) (h : parse env s = .ok p) :
    RangesWithinTtl env s := by
  intro q token first last hvisit heq hends
  obtain ⟨q', rest, hstep, hrun⟩ := hvisit.exists_run h
  rcases step_ok hstep with ⟨hsome, -⟩ | ⟨-, hok, -, happ⟩
  · rw [heq] at hsome
    cases hsome
  · have hlt := Parse.lt_ttl_defaults hok
    rw [tokenAddrs_of_rangeEnds hends] at happ
    by_contra hlong
    -- the last host of the range is still there at the end
    have hpos : (rangeAddrs first last).length - 1 < (rangeAddrs first last).length := by omega
    have hlast := happ.getElem? hpos
    obtain ⟨tail, htail⟩ := hosts_isPrefix hrun
    rw [Parse.i_defaults] at hlast
    have hfinal : p.hosts[q.i + ((rangeAddrs first last).length - 1)]? =
        some (q.defaults.host (rangeAddrs first last)[(rangeAddrs first last).length - 1]) := by
      rw [← htail, List.getElem?_append_left, hlast]
      exact (List.getElem?_eq_some_iff.mp hlast).1
    have habove := hp _ _ hfinal
    rw [toNat_ttl_host (Parse.ttl_defaults_le (visits_ttl_le hvisit))] at habove
    omega

/-- **The hosts of a specification** have TTLs above their positions exactly when every range of
it ends within the current TTL. -/
theorem ttlAbove_iff (h : parse env s = .ok p) : TtlAbove p.hosts ↔ RangesWithinTtl env s :=
  ⟨fun hp => rangesWithinTtl_of_ttlAbove hp h, fun hrange => ttlAbove_of_rangesWithinTtl hrange h⟩

/-! ## The chain -/

theorem init_ok {c : HostChain af} (h : HostChain.init env s = .ok c) :
    ∃ p, parse env s = .ok p ∧ 0 < p.i ∧ c = p.finish := by
  unfold HostChain.init at h
  cases hparse : parse env s with
  | error e => rw [hparse] at h; cases h
  | ok p =>
    rw [hparse] at h
    dsimp only at h
    split_ifs at h with hi
    cases h
    exact ⟨p, rfl, Nat.pos_of_ne_zero hi, rfl⟩

namespace HostChain

/-- The slots before the terminating one. -/
def slots (c : HostChain af) : List (FakeHost af) := c.buf.dropLast

theorem slots_of_buf_eq {c : HostChain af} {hs : List (FakeHost af)} {last : FakeHost af}
    (h : c.buf = hs ++ [last]) : c.slots = hs := by
  rw [slots, h, List.dropLast_concat]

theorem slots_finish (p : Parse af) : p.finish.slots = p.hosts := slots_of_buf_eq rfl

theorem hosts_isPrefix_slots (c : HostChain af) : c.hosts <+: c.slots := by
  obtain ⟨h, rest, hbuf, -⟩ := c.buf_eq
  rw [slots, hbuf, List.dropLast_append_cons]
  exact List.prefix_append _ _

theorem ttlAbove_slots_iff {c : HostChain af} (h : init env s = .ok c) :
    TtlAbove c.slots ↔ RangesWithinTtl env s := by
  obtain ⟨p, hparse, -, rfl⟩ := init_ok h
  rw [slots_finish, ttlAbove_iff hparse]

end HostChain

end Rdnstun
