import Rdnstun.Chain.Bounds
import Rdnstun.Inet.Network

/-!
# The route of a chain

* `RouteChecked`: what the parser has checked once a route is set; `routeChecked_parse`.
* `IsnetworkExact`: the check of a network shifts within the width of its operand, accepts exactly
  the networks aligned to their prefix, and so aligns the routes of all specifications.
* **`isnetworkExact_iff`**: this is so except for an IPv4 prefix of no bits.
-/

namespace Rdnstun

open Run

variable {af : Af} {env : Env af} {p p' : Parse af} {token : List Char} {network : Addr af}
  {prefixLen : ℕ}

/-! ## The route of a specification -/

/-- The route that is set passed the check. -/
def Parse.RouteChecked (env : Env af) (p : Parse af) : Prop :=
  p.routeSet = true → inetIsnetwork env.overshift p.network p.prefixLen = true

theorem initOption_routeChecked {value : List Char} (hp : p.RouteChecked env)
    (h : initOption env p token value = .ok p') : p'.RouteChecked env := by
  cases initOption_sets h with
  | ttl => exact hp
  | mtu => exact hp
  | route _ hroute =>
    obtain ⟨-, -, -, -, -, hnet⟩ := initRoute_ok hroute
    exact fun _ => hnet

theorem Parse.RouteChecked.defaults (hp : p.RouteChecked env) : p.defaults.RouteChecked env := by
  unfold Parse.defaults
  split_ifs <;> exact hp

theorem routeChecked_step (p : Parse af) (token : List Char) (p' : Parse af)
    (hp : p.RouteChecked env) (h : step env p token = .ok p') : p'.RouteChecked env := by
  have hstep := h
  unfold step at h
  cases heq : strchr token '=' with
  | some kv =>
    rw [heq] at h
    exact initOption_routeChecked hp h
  | none =>
    rcases step_ok hstep with ⟨hsome, -⟩ | ⟨-, -, -, happ⟩
    · rw [heq] at hsome
      cases hsome
    · rw [happ.eq]
      exact hp.defaults

/-- **The route** of a specification passed the check. -/
theorem routeChecked_parse {s : List Char} (h : parse env s = .ok p) : p.RouteChecked env :=
  run_invariant routeChecked_step (fun hset => Bool.noConfusion hset) h

/-! ## Aligned networks -/

/-- `inet_isnetwork` shifts within the width of its operands and accepts the network exactly when
the bits behind the prefix are zero; so they are in the routes of all specifications. -/
structure IsnetworkExact (network : Addr af) (prefixLen : ℕ) : Prop where
  shifts : ∀ k ∈ isnetworkShifts network prefixLen, k < 32
  exact : ∀ overshift, inetIsnetwork overshift network prefixLen = true ↔
    network.toNat % 2 ^ (inetSize af - prefixLen) = 0
  route : ∀ env s p, parse env s = .ok p → p.routeSet = true → p.network = network →
    p.prefixLen = prefixLen → network.toNat % 2 ^ (inetSize af - prefixLen) = 0

/-- **The check of a network** is exact except for an IPv4 prefix of no bits. -/
theorem isnetworkExact_iff (h : prefixLen ≤ inetSize af) :
    IsnetworkExact network prefixLen ↔ af = .inet6 ∨ 0 < prefixLen := by
  refine ⟨fun hexact => isnetworkShifts_lt_iff.mp hexact.shifts, fun hshift => ?_⟩
  refine ⟨isnetworkShifts_lt_iff.mpr hshift, fun _ => inetIsnetwork_iff h hshift, ?_⟩
  rintro env s p hparse hset rfl rfl
  exact (inetIsnetwork_iff h hshift).mp (routeChecked_parse hparse hset)

/-- A network whose prefix ends within a word. -/
theorem isnetworkExact_slash60 : IsnetworkExact (Addr.ofNat .inet6 0) 60 :=
  (isnetworkExact_iff (by decide)).mpr (.inl rfl)

/-- On a machine that shifts by the width modulo 32, the check accepts `1.2.3.4/0`. -/
theorem not_isnetworkExact :
    ¬ ∀ (af : Af) (network : Addr af) (prefixLen : ℕ), prefixLen ≤ inetSize af →
      IsnetworkExact network prefixLen := by
  intro h
  have hexact := h .inet (.v4 1 2 3 4) 0 (Nat.zero_le _)
  have halign : (Addr.v4 1 2 3 4).toNat % 2 ^ (inetSize .inet - 0) = 0 := (hexact.exact 1).mp rfl
  exact absurd halign (by decide)

end Rdnstun
