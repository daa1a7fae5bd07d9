import Rdnstun.Chain.Find

/-!
# Copied and shifted chains

* `Addr.shift`, `FakeHost.shift`: the translation that `inetShift` performs.
* `hosts_copy`: a copy has the hosts before the first null slot; `shift_ok`: a shift translates
  them in place. A host that lands on the null address ends the chain.
* **`find_shift`**: lookup commutes with a shift that makes no host null.
* `lookup_shift`: alignment, membership and lookup are equivariant; `not_isIn_of_shifts`: the routes
  of two different shifts are disjoint.
* **`equivariant_iff`**: so the code does exactly where it may access the network and the hosts.
-/

namespace Rdnstun

open Translate

variable {af : Af}

/-- The address moved by `offset` routes of `q` bits. -/
def Addr.shift (a : Addr af) (offset : ℤ) (q : ℕ) : Addr af :=
  Addr.ofNat af (translate (2 ^ inetSize af) (offset * 2 ^ (inetSize af - q)) a.toNat)

def FakeHost.shift (h : FakeHost af) (offset : ℤ) (q : ℕ) : FakeHost af :=
  { h with addr := h.addr.shift offset q }

variable {a b : Addr af} {offset : ℤ} {p q : ℕ}

theorem toNat_shift (a : Addr af) (offset : ℤ) (q : ℕ) : (a.shift offset q).toNat =
    translate (2 ^ inetSize af) (offset * 2 ^ (inetSize af - q)) a.toNat :=
  Addr.toNat_ofNat_translate _ _

theorem inetShift_eq_shift (a : Addr af) (offset : ℤ) (hq : q ≤ inetSize af) :
    inetShift a offset q = some (a.shift offset q) := inetShift_eq a offset hq

theorem shift_inj : a.shift offset q = b.shift offset q ↔ a = b := by
  rw [← Addr.toNat_inj, toNat_shift, toNat_shift, translate_inj a.toNat_lt b.toNat_lt,
    Addr.toNat_inj]

/-! ## Routes -/

/-- A shift by routes of `q` bits, in routes of `p` bits. -/
theorem toNat_shift_of_le (a : Addr af) (offset : ℤ) (hqp : q ≤ p) (hp : p ≤ inetSize af) :
    (a.shift offset q).toNat =
      translate (2 ^ (inetSize af - p) * 2 ^ p)
        ((2 ^ (inetSize af - p) : ℕ) * (offset * 2 ^ (p - q))) a.toNat := by
  have hpow : (2 : ℤ) ^ (inetSize af - q) = 2 ^ (inetSize af - p) * 2 ^ (p - q) := by
    rw [← pow_add]
    congr 1
    omega
  rw [toNat_shift, ← pow_add, Nat.sub_add_cancel hp, hpow]
  congr 1
  push_cast
  ring

theorem block_shift_iff (hqp : q ≤ p) (hp : p ≤ inetSize af) :
    (a.shift offset q).block p = (b.shift offset q).block p ↔ a.block p = b.block p := by
  have hlt : ∀ x : Addr af, x.toNat < 2 ^ (inetSize af - p) * 2 ^ p := fun x => by
    rw [← pow_add, Nat.sub_add_cancel hp]
    exact x.toNat_lt
  rw [Addr.block, Addr.block, toNat_shift_of_le a offset hqp hp, toNat_shift_of_le b offset hqp hp]
  exact translate_div_eq_iff (by positivity) (by positivity) _ (hlt a) (hlt b)

theorem block_shift_ne (a : Addr af) {offset' : ℤ} (hqp : q ≤ p) (hp : p ≤ inetSize af)
    (h : ¬ offset ≡ offset' [ZMOD 2 ^ q]) :
    (a.shift offset q).block p ≠ (a.shift offset' q).block p := by
  rw [Addr.block, Addr.block, toNat_shift_of_le a offset hqp hp,
    toNat_shift_of_le a offset' hqp hp]
  refine translate_div_ne (by positivity) (by positivity) (fun hmod => h ?_) a.toNat
  have hpow : ((2 ^ p : ℕ) : ℤ) = 2 ^ (p - q) * 2 ^ q := by
    rw [← pow_add, Nat.sub_add_cancel hqp]
    push_cast
    rfl
  rw [hpow, Int.mul_comm offset, Int.mul_comm offset'] at hmod
  exact Int.ModEq.mul_left_cancel' (by positivity) hmod

namespace HostChain

variable {c c' : HostChain af}

/-! ## Buffers -/

theorem shiftLoop_eq (offset : ℤ) (hq : q ≤ inetSize af) (buf : List (FakeHost af)) :
    shiftLoop offset q buf = ((buf.takeWhile fun h => !h.isnull).map fun h => h.shift offset q) ++
      buf.dropWhile fun h => !h.isnull := by
  induction buf with
  | nil => rfl
  | cons h buf ih =>
    rw [shiftLoop]
    cases hnull : h.isnull with
    | true => simp [hnull]
    | false =>
      rw [if_neg Bool.false_ne_true, ih, inetShift_eq_shift _ _ hq]
      simp [hnull, FakeHost.shift]

theorem copy_buf (c : HostChain af) : ∃ h, h.isnull = true ∧ c.copy.buf = c.hosts ++ [h] := by
  obtain ⟨h, rest, hbuf, hnull⟩ := c.buf_eq
  refine ⟨h, hnull, ?_⟩
  show c.buf.take (c.nitem + 1) = _
  rw [hbuf, ← length_hosts, List.take_length_add_append]
  rfl

theorem takeWhile_hosts_append {hs : List (FakeHost af)} {h : FakeHost af}
    {rest : List (FakeHost af)} (hnull : h.isnull = true) :
    (hs ++ h :: rest).takeWhile (fun h => !h.isnull) = hs.takeWhile fun h => !h.isnull := by
  induction hs with
  | nil => simp [hnull]
  | cons g hs ih => simp only [List.cons_append, List.takeWhile_cons, ih]

theorem takeWhile_hosts (c : HostChain af) : (c.hosts.takeWhile fun h => !h.isnull) = c.hosts :=
  List.takeWhile_eq_self_iff.mpr fun h hh => by simp [not_isnull_of_mem_hosts hh]

theorem hosts_copy (c : HostChain af) : c.copy.hosts = c.hosts := by
  obtain ⟨h, hnull, hbuf⟩ := c.copy_buf
  rw [hosts, hbuf, takeWhile_hosts_append hnull, takeWhile_hosts]

/-- **A shift** translates the network and the hosts before the first null slot. -/
theorem shift_ok (c : HostChain af) (offset : ℤ) (hq : q ≤ inetSize af) :
    ∃ c', c.shift offset q = .ok c' ∧ c'.network = c.network.shift offset q ∧
      c'.prefixLen = c.prefixLen ∧
      c'.buf = (c.hosts.map fun h => h.shift offset q) ++ c.buf.drop c.nitem := by
  refine ⟨{ c with
    buf := shiftLoop offset q c.buf
    network := c.network.shift offset q
    terminated := shiftLoop_terminated offset q c.terminated }, ?_, rfl, rfl, ?_⟩
  · rw [shift, inetShift_eq_shift _ _ hq]
  · show shiftLoop offset q c.buf = _
    rw [shiftLoop_eq _ hq, hosts, List.dropWhile_eq_drop_findIdx_not]
    simp only [Bool.not_not]
    rfl

theorem of_shift (h : c.shift offset q = .ok c') (hq : q ≤ inetSize af) :
    c'.network = c.network.shift offset q ∧ c'.prefixLen = c.prefixLen ∧
      c'.buf = (c.hosts.map fun h => h.shift offset q) ++ c.buf.drop c.nitem := by
  obtain ⟨d, hd, hd'⟩ := c.shift_ok offset hq
  rw [hd, Except.ok.injEq] at h
  subst h
  exact hd'

theorem hosts_of_buf_eq {hs rest : List (FakeHost af)} (hbuf : c'.buf = hs ++ rest)
    (hrest : ∃ h rest', rest = h :: rest' ∧ h.isnull = true) :
    c'.hosts = hs.takeWhile fun h => !h.isnull := by
  obtain ⟨h, rest', rfl, hnull⟩ := hrest
  rw [hosts, hbuf, takeWhile_hosts_append hnull]

theorem drop_nitem (c : HostChain af) :
    ∃ h rest, c.buf.drop c.nitem = h :: rest ∧ h.isnull = true := by
  obtain ⟨h, rest, hbuf, hnull⟩ := c.buf_eq
  refine ⟨h, rest, ?_, hnull⟩
  rw [hbuf, ← length_hosts, List.drop_left]

/-- The hosts of a shifted chain: the shifted hosts before the first one that became null. -/
theorem hosts_shift (h : c.shift offset q = .ok c') (hq : q ≤ inetSize af) :
    c'.hosts = (c.hosts.map fun h => h.shift offset q).takeWhile fun h => !h.isnull := by
  obtain ⟨-, -, hbuf⟩ := of_shift h hq
  exact hosts_of_buf_eq hbuf c.drop_nitem

theorem hosts_shift_of_ne (h : c.shift offset q = .ok c') (hq : q ≤ inetSize af)
    (hnull : ∀ h ∈ c.hosts, h.addr.shift offset q ≠ Addr.any af) :
    c'.hosts = c.hosts.map fun h => h.shift offset q := by
  rw [hosts_shift h hq, List.takeWhile_eq_self_iff]
  intro g hg
  obtain ⟨g', hg', rfl⟩ := List.mem_map.mp hg
  simp [FakeHost.isnull, FakeHost.shift, hnull g' hg']

/-! ## Lookup -/

theorem pos_map_shift (hs : List (FakeHost af)) (a : Addr af) :
    ((hs.map fun h => h.shift offset q).findIdx fun h => h.addr = a.shift offset q) =
      hs.findIdx fun h => h.addr = a := by
  rw [List.findIdx_map]
  congr 1
  funext h
  exact decide_eq_decide.mpr shift_inj

/-- **Lookup** of a shifted address in a shifted chain. -/
theorem find_shift (h : c.shift offset q = .ok c') (hq : q ≤ inetSize af)
    (hnull : ∀ h ∈ c.hosts, h.addr.shift offset q ≠ Addr.any af) (a : Addr af) (ttl : UInt8) :
    c'.find (a.shift offset q) ttl = c.find a ttl := by
  have hhosts := hosts_shift_of_ne h hq hnull
  have hpos : c'.pos (a.shift offset q) = c.pos a := by
    rw [pos, hhosts]
    exact pos_map_shift c.hosts a
  rw [find_eq, find_eq, hpos, hhosts, List.length_map]

theorem isIn_shift (h : c.shift offset q = .ok c') (hq : q ≤ c.prefixLen) (a : Addr af) :
    c'.isIn (a.shift offset q) = c.isIn a := by
  have hp := c.prefixLen_le
  obtain ⟨hnet, hlen, -⟩ := of_shift h (hq.trans hp)
  rw [Bool.eq_iff_iff, isIn_iff, isIn_iff, hnet, hlen, block_shift_iff hq hp]

/-- The network has no bits beyond the prefix. -/
def Aligned (c : HostChain af) : Prop := c.network.toNat % 2 ^ (inetSize af - c.prefixLen) = 0

instance (c : HostChain af) : Decidable c.Aligned := inferInstanceAs (Decidable (_ = _))

theorem aligned_shift (h : c.shift offset q = .ok c') (hq : q ≤ c.prefixLen) (hc : c.Aligned) :
    c'.Aligned := by
  have hp := c.prefixLen_le
  obtain ⟨hnet, hlen, -⟩ := of_shift h (hq.trans hp)
  rw [Aligned, hnet, hlen, toNat_shift_of_le _ offset hq hp, translate_mod (by positivity)
    (by positivity)]
  exact hc

theorem not_isIn_of_shifts {c₁ c₂ : HostChain af} {offset' : ℤ} (hq : q ≤ c.prefixLen)
    (hne : ¬ offset ≡ offset' [ZMOD 2 ^ q]) (h₁ : c.shift offset q = .ok c₁)
    (h₂ : c.shift offset' q = .ok c₂) (a : Addr af) : ¬ (c₁.isIn a = true ∧ c₂.isIn a = true) := by
  have hp := c.prefixLen_le
  obtain ⟨hnet₁, hlen₁, -⟩ := of_shift h₁ (hq.trans hp)
  obtain ⟨hnet₂, hlen₂, -⟩ := of_shift h₂ (hq.trans hp)
  rw [isIn_iff, isIn_iff, hnet₁, hnet₂, hlen₁, hlen₂]
  rintro ⟨h₁, h₂⟩
  exact block_shift_ne c.network hq hp hne (h₁.trans h₂.symm)

/-- A shift by routes at most as long as the chain's own that makes no host null. -/
theorem lookup_shift (hq : q ≤ c.prefixLen) (hc : c.Aligned)
    (hnull : ∀ h ∈ c.hosts, inetShift h.addr offset q ≠ some (Addr.any af)) :
    ∃ c', c.shift offset q = .ok c' ∧ c'.prefixLen = c.prefixLen ∧ c'.Aligned ∧
      ∀ a, ∃ a', inetShift a offset q = some a' ∧ c'.isIn a' = c.isIn a ∧
        ∀ ttl, c'.find a' ttl = c.find a ttl := by
  have hq' : q ≤ inetSize af := hq.trans c.prefixLen_le
  obtain ⟨c', hc', -, hlen, -⟩ := c.shift_ok offset hq'
  have hnull' : ∀ h ∈ c.hosts, h.addr.shift offset q ≠ Addr.any af := fun h hh e =>
    hnull h hh (by rw [inetShift_eq_shift _ _ hq', e])
  exact ⟨c', hc', hlen, aligned_shift hc' hq hc, fun a => ⟨a.shift offset q,
    inetShift_eq_shift a offset hq', isIn_shift hc' hq a, find_shift hc' hq' hnull' a⟩⟩

end HostChain

/-! ## Places -/

variable {c c' : HostChain af} {place : ChainPlace}

/-- The code may shift the chain at its places: the network and the hosts before the first null
one. -/
def ChainPlace.Fits (place : ChainPlace) (c : HostChain af) : Prop :=
  af = .inet ∨ 16 ∣ place.network.loc ∧ ∀ i < c.nitem, 16 ∣ (place.host af i).loc

instance (place : ChainPlace) (c : HostChain af) : Decidable (place.Fits c) :=
  inferInstanceAs (Decidable (_ ∨ _ ∧ _))

namespace HostChain

theorem shiftLoopAt_of_fits (hq : 1 ≤ q) {buf : List (FakeHost af)} {i : ℕ}
    (h : ∀ j < buf.findIdx FakeHost.isnull, (place.host af (i + j)).Fits af) :
    shiftLoopAt place offset q i buf = .ok (shiftLoop offset q buf) := by
  induction buf generalizing i with
  | nil => rfl
  | cons host hosts ih =>
    rw [List.findIdx_cons] at h
    rw [shiftLoopAt, shiftLoop]
    cases hnull : host.isnull with
    | true => rfl
    | false =>
      rw [hnull, cond_false] at h
      have hrest : ∀ j < hosts.findIdx FakeHost.isnull, (place.host af (i + 1 + j)).Fits af := by
        intro j hj
        rw [Nat.add_right_comm i 1 j]
        exact h (j + 1) (Nat.succ_lt_succ hj)
      have hfirst : (place.host af i).Fits af := h 0 (Nat.succ_pos _)
      rw [if_neg Bool.false_ne_true, if_neg Bool.false_ne_true, inetShiftAt_of_fits hfirst _ _ hq,
        ih hrest]

theorem fits_of_shiftLoopAt (hq : 1 ≤ q) (hq' : q ≤ inetSize af) {buf buf' : List (FakeHost af)}
    {i : ℕ} (h : shiftLoopAt place offset q i buf = .ok buf') :
    ∀ j < buf.findIdx FakeHost.isnull, (place.host af (i + j)).Fits af := by
  induction buf generalizing i buf' with
  | nil => exact fun j hj => absurd hj (Nat.not_lt_zero j)
  | cons host hosts ih =>
    rw [List.findIdx_cons]
    cases hnull : host.isnull with
    | true => exact fun j hj => absurd hj (Nat.not_lt_zero j)
    | false =>
      obtain ⟨addr, hosts', haddr, hrest, -⟩ := shiftLoopAt_cons_ok hnull h
      have hfits : (place.host af i).Fits af := by
        by_contra hfits
        rw [inetShiftAt_misaligned hfits _ _ hq hq'] at haddr
        cases haddr
      intro j hj
      obtain _ | j := j
      · exact hfits
      · have hfits' := ih hrest j (Nat.lt_of_succ_lt_succ hj)
        rwa [Nat.add_right_comm i 1 j] at hfits'

theorem shift_of_shiftAt {r : Except ℕ (HostChain af)} (h : c.shiftAt place offset q = .ok r) :
    c.shift offset q = r := by
  unfold shiftAt at h
  cases hnet : inetShiftAt place.network c.network offset q with
  | error e => rw [hnet] at h; cases h
  | ok network =>
    rw [hnet] at h
    rw [shift, inetShift_of_inetShiftAt hnet]
    cases network with
    | none => exact Except.ok.inj h
    | some network =>
      dsimp only at h ⊢
      split at h
      · cases h
      · rename_i buf hbuf
        rw [← Except.ok.inj h, Except.ok.injEq, HostChain.mk.injEq]
        exact ⟨shiftLoop_of_shiftLoopAt hbuf, rfl, rfl⟩

theorem shiftAt_of_fits (h : place.Fits c) (offset : ℤ) (hq : 1 ≤ q) :
    c.shiftAt place offset q = .ok (c.shift offset q) := by
  have hnet : place.network.Fits af := h.imp_right And.left
  have hloop : shiftLoopAt place offset q 0 c.buf = .ok (shiftLoop offset q c.buf) :=
    shiftLoopAt_of_fits hq fun j hj => by
      rw [Nat.zero_add]
      exact h.imp_right fun h => h.2 j hj
  have hdef : ∃ r, c.shiftAt place offset q = .ok r := by
    unfold shiftAt
    rw [inetShiftAt_of_fits hnet _ _ hq]
    cases inetShift c.network offset q with
    | none => exact ⟨_, rfl⟩
    | some network =>
      dsimp only
      split
      · rename_i e he
        rw [hloop] at he
        cases he
      · exact ⟨_, rfl⟩
  obtain ⟨r, hr⟩ := hdef
  rw [hr, shift_of_shiftAt hr]

theorem fits_of_shiftAt (h : c.shiftAt place offset q = .ok (.ok c')) (hq : 1 ≤ q)
    (hq' : q ≤ inetSize af) : place.Fits c := by
  by_cases haf : af = .inet
  · exact .inl haf
  have hnet : place.network.Fits af := by
    by_contra hfits
    rw [shiftAt, inetShiftAt_misaligned hfits _ _ hq hq'] at h
    cases h
  rw [shiftAt, inetShiftAt_of_fits hnet _ _ hq] at h
  refine .inr ⟨hnet.resolve_left haf, fun i hi => ?_⟩
  cases hshift : inetShift c.network offset q with
  | none => rw [hshift] at h; cases h
  | some network =>
    rw [hshift] at h
    dsimp only at h
    split at h
    · cases h
    · rename_i buf hbuf
      have hi' := fits_of_shiftLoopAt hq hq' hbuf i hi
      rw [Nat.zero_add] at hi'
      exact hi'.resolve_left haf

/-- Lookup is equivariant under the shifts of a chain at its places by routes of `q` bits that make
no host null, and the routes of two shifts by offsets that are not congruent are disjoint. -/
structure Equivariant (place : ChainPlace) (c : HostChain af) (q : ℕ) : Prop where
  lookup : ∀ offset, (∀ h ∈ c.hosts, inetShift h.addr offset q ≠ some (Addr.any af)) →
    ∃ c', c.shiftAt place offset q = .ok (.ok c') ∧ c'.prefixLen = c.prefixLen ∧ c'.Aligned ∧
      ∀ a, ∃ a', inetShift a offset q = some a' ∧ c'.isIn a' = c.isIn a ∧
        ∀ ttl, c'.find a' ttl = c.find a ttl
  disjoint : ∀ place' offset offset' c₁ c₂, ¬ offset ≡ offset' [ZMOD 2 ^ q] →
    c.shiftAt place offset q = .ok (.ok c₁) → c.shiftAt place' offset' q = .ok (.ok c₂) →
      ∀ a, ¬ (c₁.isIn a = true ∧ c₂.isIn a = true)

theorem Equivariant.fits (h : Equivariant place c q) (hq : 1 ≤ q) (hq' : q ≤ inetSize af) :
    place.Fits c := by
  obtain ⟨c', hc', -⟩ := h.lookup 0 fun h hh => by
    rw [inetShift_zero h.addr hq', ne_eq, Option.some_inj]
    simpa [FakeHost.isnull] using not_isnull_of_mem_hosts hh
  exact fits_of_shiftAt hc' hq hq'

/-- **Lookup is equivariant** under the shifts by routes at most as long as the chain's own exactly
where the network and the hosts stand at multiples of 16, unless they are of IPv4. -/
theorem equivariant_iff (place : ChainPlace) (hq : 1 ≤ q) (hqp : q ≤ c.prefixLen)
    (hc : c.Aligned) : Equivariant place c q ↔ place.Fits c := by
  refine ⟨fun h => h.fits hq (hqp.trans c.prefixLen_le), fun hfits => ⟨fun offset hnull => ?_, ?_⟩⟩
  · obtain ⟨c', hc', hlookup⟩ := lookup_shift hqp hc hnull
    exact ⟨c', (shiftAt_of_fits hfits offset hq).trans (congrArg _ hc'), hlookup⟩
  · intro place' offset offset' c₁ c₂ hne h₁ h₂ a
    exact not_isIn_of_shifts hqp hne (shift_of_shiftAt h₁) (shift_of_shiftAt h₂) a

/-- A chain of IPv6 that starts at a multiple of 16, as those in an allocated array do, is never
shifted. -/
theorem not_fits_of_dvd (c : HostChain .inet6) (h : 16 ∣ place.self) : ¬ place.Fits c := by
  rintro (haf | ⟨hnet, -⟩)
  · cases haf
  · have hloc : 16 ∣ place.self + 8 := hnet
    omega

theorem equivariant_slash24 : Equivariant ⟨4096, 8192, by decide, by decide⟩ slash24 24 :=
  (equivariant_iff _ (by decide) (Nat.le_refl 24) (by decide)).mpr (.inl rfl)

theorem not_equivariant : ¬ ∀ (af : Af) (place : ChainPlace) (c : HostChain af) (q : ℕ), 1 ≤ q →
    q ≤ c.prefixLen → c.Aligned → Equivariant place c q := by
  intro h
  have hfits := (h .inet6 ⟨4096, 8192, by decide, by decide⟩ slash64 64 (by decide) (Nat.le_refl 64)
    (by decide)).fits (by decide) (by decide)
  exact not_fits_of_dvd slash64 (by decide) hfits

end HostChain

end Rdnstun
