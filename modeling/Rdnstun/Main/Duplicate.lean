import Rdnstun.Chain.Shift
import Rdnstun.Main.Model

/-!
# Duplicated chains

* `IsDuplicate`: a chain is a base chain with the same amount added to its network and its hosts.
* `dupAt_ok`, `dupLoop_ok`, `duplicate_ok`: what one round, the loop and the option do;
  `duplicate_of_duplicateAt`: and so where they are defined at their places.
* **`duplicates_iff`**: an accepted specification yields its duplicates exactly when the greatest
  product of the loop and its counter are `int`s and no address of IPv6 is shifted.
-/

namespace Rdnstun

open Translate

variable {af : Af} {base c : HostChain af} {chains chains' : List (HostChain af)}
  {optarg : List Char} {d : Dup af} {step q i n : ℕ}

theorem shift_natCast (a : Addr af) (n q : ℕ) :
    a.shift n q = Addr.ofNat af (a.toNat + n * 2 ^ (inetSize af - q)) := by
  have hcast : (n : ℤ) * 2 ^ (inetSize af - q) = ((n * 2 ^ (inetSize af - q) : ℕ) : ℤ) := by
    push_cast
    rfl
  rw [← Addr.toNat_inj, toNat_shift, hcast, translate_natCast (by positivity), Addr.toNat_ofNat]

/-- `c` is `base` with `amount` added to its network and to its hosts. -/
structure IsDuplicate (base : HostChain af) (amount : ℕ) (c : HostChain af) : Prop where
  prefixLen : c.prefixLen = base.prefixLen
  network : c.network = Addr.ofNat af (base.network.toNat + amount)
  hosts : ∃ last, last.isnull = true ∧ c.buf = (base.hosts.map fun h =>
    { h with addr := Addr.ofNat af (h.addr.toNat + amount) }) ++ [last]

/-! ## One round -/

theorem shift_copy (base : HostChain af) (i : ℕ) (hq : q ≤ inetSize af) :
    ∃ c, base.copy.shift i q = .ok c ∧ IsDuplicate base (i * 2 ^ (inetSize af - q)) c := by
  obtain ⟨c, hc, hnet, hlen, hbuf⟩ := base.copy.shift_ok i hq
  obtain ⟨last, hlast, hcopy⟩ := base.copy_buf
  refine ⟨c, hc, hlen, ?_, last, hlast, ?_⟩
  · rw [hnet, shift_natCast]
    rfl
  · rw [hbuf, base.hosts_copy, ← HostChain.length_hosts, base.hosts_copy, hcopy, List.drop_left]
    congr 1
    refine List.map_congr_left fun h _ => ?_
    rw [FakeHost.shift, shift_natCast]

theorem dupAt_of_le (base : HostChain af) (hq : q ≤ inetSize af) (hi : step * i ≤ INT_MAX) :
    ∃ c, dupAt base step q i = .ok c ∧ base.copy.shift (step * i : ℕ) q = .ok c ∧
      IsDuplicate base (step * i * 2 ^ (inetSize af - q)) c := by
  obtain ⟨c, hc, hdup⟩ := shift_copy base (step * i) hq
  refine ⟨c, ?_, hc, hdup⟩
  rw [dupAt, if_pos hi, hc]

theorem dupAt_of_lt (hi : INT_MAX < step * i) : dupAt base step q i = .error .overflow :=
  if_neg (Nat.not_le.mpr hi)

theorem dupAt_ok (hq : q ≤ inetSize af) (h : dupAt base step q i = .ok c) :
    step * i ≤ INT_MAX ∧ base.copy.shift (step * i : ℕ) q = .ok c ∧
      IsDuplicate base (step * i * 2 ^ (inetSize af - q)) c := by
  by_cases hi : step * i ≤ INT_MAX
  · obtain ⟨c', hc', hshift, hdup⟩ := dupAt_of_le base hq hi
    rw [h, Except.ok.injEq] at hc'
    subst hc'
    exact ⟨hi, hshift, hdup⟩
  · rw [dupAt_of_lt (by omega)] at h
    cases h

/-! ## The loop -/

theorem dupLoop_ok : dupLoop base step q n i chains = .ok chains' ↔
    ∃ dups, chains' = chains ++ dups ∧ dups.length = n ∧
      ∀ j < n, ∃ c, dups[j]? = some c ∧ dupAt base step q (i + j) = .ok c := by
  induction n generalizing i chains with
  | zero =>
    rw [dupLoop, Except.ok.injEq]
    constructor
    · rintro rfl
      exact ⟨[], by simp, rfl, fun j hj => absurd hj (Nat.not_lt_zero j)⟩
    · rintro ⟨dups, rfl, hlen, -⟩
      rw [List.length_eq_zero_iff.mp hlen, List.append_nil]
  | succ n ih =>
    rw [dupLoop]
    cases hfirst : dupAt base step q i with
    | error e =>
      refine iff_of_false (fun h => by cases h) ?_
      rintro ⟨dups, -, -, hdups⟩
      obtain ⟨c, -, hc⟩ := hdups 0 (Nat.succ_pos n)
      rw [Nat.add_zero, hfirst] at hc
      cases hc
    | ok self =>
      dsimp only
      rw [ih]
      constructor
      · rintro ⟨dups, rfl, hlen, hdups⟩
        refine ⟨self :: dups, by simp, by simp [hlen], ?_⟩
        intro j hj
        obtain _ | j := j
        · exact ⟨self, rfl, hfirst⟩
        · obtain ⟨c, hc, hcj⟩ := hdups j (by omega)
          exact ⟨c, hc, by rw [← hcj]; congr 1; omega⟩
      · rintro ⟨_ | ⟨self', dups⟩, rfl, hlen, hdups⟩
        · cases hlen
        · obtain ⟨c, hc, hself⟩ := hdups 0 (Nat.succ_pos n)
          cases hc
          rw [Nat.add_zero, hfirst, Except.ok.injEq] at hself
          subst hself
          refine ⟨dups, by simp, by simpa using hlen, ?_⟩
          intro j hj
          obtain ⟨c, hc, hcj⟩ := hdups (j + 1) (by omega)
          exact ⟨c, hc, by rw [← hcj]; congr 1; omega⟩

/-! ## The option -/

/-- The option is accepted: there is a base chain, and its prefix is long enough. -/
structure Accepts (chains : List (HostChain af)) (optarg : List Char) (base : HostChain af)
    (d : Dup af) : Prop where
  getLast? : chains.getLast? = some base
  parseDup : parseDup af optarg = some d
  prefixLen_le : d.prefixLen ≤ base.prefixLen

theorem duplicate_ok (h : duplicate chains optarg = .ok chains') :
    ∃ base d, Accepts chains optarg base d ∧
      dupLoop base d.step d.prefixLen d.n 1 chains = .ok chains' := by
  unfold duplicate at h
  cases hbase : chains.getLast? with
  | none => rw [hbase] at h; cases h
  | some base =>
    rw [hbase] at h
    dsimp only at h
    cases hd : parseDup af optarg with
    | none => rw [hd] at h; cases h
    | some d =>
      rw [hd] at h
      dsimp only at h
      cases hloop : dupLoop base d.step d.prefixLen d.n 1 chains with
      | error e => rw [hloop] at h; split_ifs at h
      | ok dups =>
        rw [hloop] at h
        split_ifs at h with hprefix
        cases h
        exact ⟨base, d, ⟨hbase, hd, Nat.le_of_not_lt hprefix⟩, hloop⟩

theorem dupLoop_of_le (h : Accepts chains optarg base d) (hmax : d.step * d.n ≤ INT_MAX) :
    ∃ dups, dupLoop base d.step d.prefixLen d.n 1 chains = .ok (chains ++ dups) ∧
      dups.length = d.n ∧ ∀ i, 1 ≤ i → i ≤ d.n → ∃ c, dups[i - 1]? = some c ∧
        IsDuplicate base (i * d.step * 2 ^ (inetSize af - d.prefixLen)) c := by
  have hq : d.prefixLen ≤ inetSize af := h.prefixLen_le.trans base.prefixLen_le
  have hround : ∀ i ≤ d.n, ∃ c, dupAt base d.step d.prefixLen i = .ok c := fun i hi => by
    obtain ⟨c, hc, -⟩ := dupAt_of_le base hq ((Nat.mul_le_mul_left d.step hi).trans hmax)
    exact ⟨c, hc⟩
  choose f hf using hround
  refine ⟨List.ofFn fun j : Fin d.n => f (1 + j) (by have := j.isLt; omega), ?_, by simp, ?_⟩
  · refine dupLoop_ok.mpr ⟨_, rfl, by simp, fun j hj => ?_⟩
    exact ⟨f (1 + j) (by omega), by simp [hj], hf (1 + j) (by omega)⟩
  · intro i hi hin
    refine ⟨f i hin, ?_, ?_⟩
    · have hlt : i - 1 < d.n := by omega
      have hsucc : 1 + (i - 1) = i := by omega
      simp [hlt, hsucc]
    · rw [Nat.mul_comm i]
      exact (dupAt_ok hq (hf i hin)).2.2

/-! ## Places -/

variable {place : ArrayPlace}

/-- A round that is defined at its place is the round, and its shift is defined there. -/
theorem dupRoundAt_ok {k : ChainPlace} (h : dupRoundAt k base step q i = .ok c) :
    dupAt base step q i = .ok c ∧ ∃ r, base.copy.shiftAt k (step * i : ℕ) q = .ok r := by
  rw [dupRoundAt] at h
  rw [dupAt]
  split_ifs at h ⊢ with hi
  cases hshift : base.copy.shiftAt k (step * i : ℕ) q with
  | error e => rw [hshift] at h; cases h
  | ok r =>
    rw [hshift] at h
    rw [HostChain.shift_of_shiftAt hshift]
    refine ⟨?_, r, rfl⟩
    cases r <;> exact congrArg _ (Except.ok.inj h)

theorem dupRoundAt_of_inet {k : ChainPlace} (haf : af = .inet) (hq : 1 ≤ q)
    (h : dupAt base step q i = .ok c) : dupRoundAt k base step q i = .ok c := by
  rw [dupAt] at h
  rw [dupRoundAt, HostChain.shiftAt_of_fits (.inl haf) _ hq]
  split_ifs at h ⊢ with hi
  cases hshift : base.copy.shift (step * i : ℕ) q with
  | error e => rw [hshift] at h; exact congrArg _ (Except.ok.inj h)
  | ok c' => rw [hshift] at h; exact congrArg _ (Except.ok.inj h)

theorem dupLoopAt_succ_ok (h : dupLoopAt place base step q (n + 1) i chains = .ok chains') :
    ∃ c, dupRoundAt (place.chain chains.length) base step q i = .ok c ∧
      dupLoopAt place base step q n (i + 1) (chains ++ [c]) = .ok chains' := by
  rw [dupLoopAt] at h
  cases hround : dupRoundAt (place.chain chains.length) base step q i with
  | error e => rw [hround] at h; cases h
  | ok c =>
    rw [hround] at h
    exact ⟨c, rfl, h⟩

theorem dupLoop_of_dupLoopAt (h : dupLoopAt place base step q n i chains = .ok chains') :
    dupLoop base step q n i chains = .ok chains' := by
  induction n generalizing i chains with
  | zero => exact congrArg _ (Except.ok.inj h)
  | succ n ih =>
    obtain ⟨c, hround, hrest⟩ := dupLoopAt_succ_ok h
    rw [dupLoop, (dupRoundAt_ok hround).1]
    exact ih hrest

theorem dupLoopAt_of_inet (haf : af = .inet) (hq : 1 ≤ q)
    (h : dupLoop base step q n i chains = .ok chains') :
    dupLoopAt place base step q n i chains = .ok chains' := by
  induction n generalizing i chains with
  | zero => exact congrArg _ (Except.ok.inj h)
  | succ n ih =>
    rw [dupLoop] at h
    cases hround : dupAt base step q i with
    | error e => rw [hround] at h; cases h
    | ok c =>
      rw [hround] at h
      rw [dupLoopAt, dupRoundAt_of_inet haf hq hround]
      exact ih h

theorem duplicateAt_of_accepts (h : Accepts chains optarg base d) :
    duplicateAt place chains optarg =
      match dupLoopAt place base d.step d.prefixLen d.n 1 chains with
      | .error e => .error e
      | .ok chains => if d.n = INT_MAX then .error .overflow else .ok (.ok chains) := by
  rw [duplicateAt, h.getLast?, h.parseDup]
  exact if_neg (Nat.not_lt.mpr h.prefixLen_le)

/-- **What is defined at the places** is what the option does. -/
theorem duplicate_of_duplicateAt (h : duplicateAt place chains optarg = .ok (.ok chains')) :
    duplicate chains optarg = .ok chains' := by
  unfold duplicateAt at h
  unfold duplicate
  cases hbase : chains.getLast? with
  | none => rw [hbase] at h; cases h
  | some base =>
    rw [hbase] at h
    dsimp only at h ⊢
    cases hd : parseDup af optarg with
    | none => rw [hd] at h; cases h
    | some d =>
      rw [hd] at h
      dsimp only at h ⊢
      by_cases hprefix : base.prefixLen < d.prefixLen
      · rw [if_pos hprefix] at h
        cases h
      rw [if_neg hprefix] at h ⊢
      cases hloop : dupLoopAt place base d.step d.prefixLen d.n 1 chains with
      | error e => rw [hloop] at h; cases h
      | ok dups =>
        rw [hloop] at h
        rw [dupLoop_of_dupLoopAt hloop]
        dsimp only at h ⊢
        split_ifs at h ⊢ with hn
        exact congrArg _ (Except.ok.inj (Except.ok.inj h))

/-- The option computes only `int` products and appends the duplicates that are asked for, the array
being at its place. -/
def Duplicates (place : ArrayPlace) (chains : List (HostChain af)) (optarg : List Char)
    (base : HostChain af) (d : Dup af) : Prop :=
  (∀ i, 1 ≤ i → i ≤ d.n → d.step * i ≤ INT_MAX) ∧
    ∃ dups, duplicateAt place chains optarg = .ok (.ok (chains ++ dups)) ∧ dups.length = d.n ∧
      ∀ i, 1 ≤ i → i ≤ d.n → ∃ c, dups[i - 1]? = some c ∧
        IsDuplicate base (i * d.step * 2 ^ (inetSize af - d.prefixLen)) c

/-- The first round shifts a chain of the array. -/
theorem inet_of_dupLoopAt (hq : 1 ≤ q) (hq' : q ≤ inetSize af) (hn : n ≠ 0)
    (h : dupLoopAt place base step q n i chains = .ok chains') : af = .inet := by
  obtain ⟨n, rfl⟩ := Nat.exists_eq_succ_of_ne_zero hn
  obtain ⟨c, hround, -⟩ := dupLoopAt_succ_ok h
  obtain ⟨-, r, hshift⟩ := dupRoundAt_ok hround
  obtain ⟨c', hc', -⟩ := base.copy.shift_ok (step * i : ℕ) hq'
  rw [← HostChain.shift_of_shiftAt hshift, hc'] at hshift
  have hfits := HostChain.fits_of_shiftAt hshift hq hq'
  cases af with
  | inet => rfl
  | inet6 =>
    refine absurd hfits (HostChain.not_fits_of_dvd _ ?_)
    have hself := place.self_dvd
    show 16 ∣ place.self + 32 * chains.length
    omega

/-- **The duplicates** of an accepted specification are made exactly when `step * n` is an `int`,
and so is `n + 1`, and no chain of IPv6 is shifted. -/
theorem duplicates_iff (place : ArrayPlace) (h : Accepts chains optarg base d) :
    Duplicates place chains optarg base d ↔
      (af = .inet ∨ d.n = 0) ∧ d.step * d.n ≤ INT_MAX ∧ d.n < INT_MAX := by
  have hq : d.prefixLen ≤ inetSize af := h.prefixLen_le.trans base.prefixLen_le
  have hle := d.n_le
  unfold Duplicates
  rw [duplicateAt_of_accepts h]
  constructor
  · rintro ⟨hprod, dups, hdups, -⟩
    cases hloop : dupLoopAt place base d.step d.prefixLen d.n 1 chains with
    | error e => rw [hloop] at hdups; cases hdups
    | ok chains' =>
      rw [hloop] at hdups
      dsimp only at hdups
      split_ifs at hdups with hmax
      by_cases hn : d.n = 0
      · rw [hn, Nat.mul_zero]
        exact ⟨.inr rfl, Nat.zero_le _, by decide⟩
      · exact ⟨.inl (inet_of_dupLoopAt d.one_le_prefixLen hq hn hloop),
          hprod d.n (Nat.pos_of_ne_zero hn) (Nat.le_refl _), by omega⟩
  · rintro ⟨haf, hmax, hn⟩
    obtain ⟨dups, hloop, hdups⟩ := dupLoop_of_le h hmax
    have hloopAt : dupLoopAt place base d.step d.prefixLen d.n 1 chains = .ok (chains ++ dups) := by
      obtain haf | hzero := haf
      · exact dupLoopAt_of_inet haf d.one_le_prefixLen hloop
      · rw [hzero] at hloop ⊢
        exact congrArg _ (Except.ok.inj hloop)
    refine ⟨fun i _ hi => (Nat.mul_le_mul_left d.step hi).trans hmax, dups, ?_, hdups⟩
    rw [hloopAt]
    exact if_neg (by omega)

/-- An array on a page of its own, with buffers of two pages each behind it. -/
def ArrayPlace.pages : ArrayPlace := ⟨4096, fun k => 8192 * (k + 1), by decide, fun k => by omega⟩

theorem duplicates_two :
    Duplicates .pages [HostChain.slash24] "1/24,2".toList .slash24 ⟨1, 24, 2, by decide, by decide,
      by decide, by decide, by decide⟩ := by
  have haccepts : Accepts [HostChain.slash24] "1/24,2".toList .slash24 _ := ⟨rfl, rfl, by decide⟩
  exact (duplicates_iff .pages haccepts).mpr (by decide)

/-- A chain of IPv6 is not duplicated at any place. -/
theorem not_duplicates : ¬ ∀ (af : Af) (place : ArrayPlace) (chains : List (HostChain af))
    (optarg : List Char) (base : HostChain af) (d : Dup af), Accepts chains optarg base d →
      Duplicates place chains optarg base d := by
  intro h
  have haccepts : Accepts [HostChain.slash64] "1/64,1".toList .slash64
      ⟨1, 64, 1, by decide, by decide, by decide, by decide, by decide⟩ := ⟨rfl, rfl, by decide⟩
  obtain ⟨-, dups, hdups, -⟩ := h .inet6 .pages _ _ _ _ haccepts
  rw [duplicateAt_of_accepts haccepts] at hdups
  cases hloop : dupLoopAt .pages HostChain.slash64 1 64 1 1 [HostChain.slash64] with
  | error e => rw [hloop] at hdups; cases hdups
  | ok chains =>
    cases inet_of_dupLoopAt (by decide) (by decide) Nat.one_ne_zero hloop

end Rdnstun
