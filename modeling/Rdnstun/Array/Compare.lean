import Rdnstun.Array.Model

/-!
# Comparison of chains in memory

* `Layout`, `elems`, `ChainArray`: an array of `struct HostChain` in memory.
* `HostChain.compare`: the comparison function, on the bytes it reads.
* **`sign_compare`**: chains of different routes have the order of `key`.
* `sortedBy_of_compare`: an array in the order of the function is sorted.
* `Comparator`: what sorting expects of the function.
* **`comparator_iff`**: it is met exactly if no two chains of the array have the same route.
* `not_comparator`: two chains for `10.0.0.0/24`.
-/

namespace Rdnstun

open Radix Memory

/-! ## The fields of `struct HostChain` -/

namespace Layout

abbrev network : ℕ := 8
abbrev prefixLen : ℕ := 24
abbrev v6 : ℕ := 25

/-- `sizeof(struct HostChain)`. -/
abbrev sizeofHostChain : ℕ := 32

end Layout

/-- The value of the flag `v6`. -/
def Af.v6 : Af → UInt8
  | .inet => 0
  | .inet6 => 1

/-- The bytes that `HostChain_compare` compares: the length of an address in bits over 4. -/
def Af.compared : Af → ℕ
  | .inet => 32 / 4
  | .inet6 => 128 / 4

/-- The addresses of the `n` elements of an array. -/
def elems (a n : ℕ) : List ℕ := (List.range n).map fun i => a + Layout.sizeofHostChain * i

/-- The elements are chains of one family. -/
def ChainArray (af : Af) (m : Mem) (a n : ℕ) : Prop :=
  ∀ x ∈ elems a n, m (x + Layout.v6) = af.v6

instance (af : Af) (m : Mem) (a n : ℕ) : Decidable (ChainArray af m a n) :=
  inferInstanceAs (Decidable (∀ _ ∈ _, _))

/-- `HostChain_compare` of the chains at two addresses. -/
def HostChain.compare (m : Mem) (self other : ℕ) : ℤ :=
  let res := cmp (m (other + Layout.prefixLen)) (m (self + Layout.prefixLen))
  if res ≠ 0 then res
  else
    let count := (if m (self + Layout.v6) ≠ 0 then 128 else 32) / 4
    memcmp (read m (self + Layout.network) count) (read m (other + Layout.network) count) count

/-- The prefix and the network of the chain at an address. -/
def routeAt (af : Af) (m : Mem) (x : ℕ) : UInt8 × Addr af :=
  (m (x + Layout.prefixLen), Addr.load af m (x + Layout.network))

/-- The position of a chain in the order of longer prefixes, then networks. -/
def key (af : Af) (m : Mem) (x : ℕ) : ℕ :=
  (255 - (routeAt af m x).1.toNat) * 2 ^ inetSize af + (routeAt af m x).2.toNat

/-- **Sorting** expects a comparison function to be zero for equal routes only, a total preorder in
its sign, with longer prefixes first and then smaller networks, and to depend on nothing else. -/
structure Comparator (af : Af) (m : Mem) (a n : ℕ) : Prop where
  zero : ∀ x ∈ elems a n, ∀ y ∈ elems a n,
    HostChain.compare m x y = 0 ↔ routeAt af m x = routeAt af m y
  antisymm : ∀ x ∈ elems a n, ∀ y ∈ elems a n,
    (HostChain.compare m y x).sign = -(HostChain.compare m x y).sign
  trans : ∀ x ∈ elems a n, ∀ y ∈ elems a n, ∀ z ∈ elems a n,
    HostChain.compare m x y ≤ 0 → HostChain.compare m y z ≤ 0 → HostChain.compare m x z ≤ 0
  longer : ∀ x ∈ elems a n, ∀ y ∈ elems a n,
    (routeAt af m y).1 < (routeAt af m x).1 → HostChain.compare m x y < 0
  lexicographic : ∀ x ∈ elems a n, ∀ y ∈ elems a n, (routeAt af m x).1 = (routeAt af m y).1 →
    (HostChain.compare m x y < 0 ↔ (routeAt af m x).2.bytes < (routeAt af m y).2.bytes)
  depends : ∀ m', ChainArray af m' a n → (∀ x ∈ elems a n, routeAt af m' x = routeAt af m x) →
    ∀ x ∈ elems a n, ∀ y ∈ elems a n,
      (HostChain.compare m' x y).sign = (HostChain.compare m x y).sign

variable {af : Af} {m m' : Mem} {a n x y : ℕ}

theorem elems_apart (hx : x ∈ elems a n) (hy : y ∈ elems a n) (hne : x ≠ y) :
    x + 32 ≤ y ∨ y + 32 ≤ x := by
  simp only [elems, Layout.sizeofHostChain, List.mem_map, List.mem_range] at hx hy
  obtain ⟨i, -, rfl⟩ := hx
  obtain ⟨j, -, rfl⟩ := hy
  omega

theorem routeAt_eq_iff : routeAt af m x = routeAt af m' y ↔
    m (x + Layout.prefixLen) = m' (y + Layout.prefixLen) ∧
      Addr.load af m (x + Layout.network) = Addr.load af m' (y + Layout.network) := Prod.mk_inj

/-! ## The order of the routes -/

theorem cmp_eq_zero {b c : UInt8} : cmp b c = 0 ↔ b = c := by
  rw [eq_zero_iff_of_sign (sign_cmp b c), UInt8.toNat_inj]

theorem key_eq_iff : key af m x = key af m' y ↔ routeAt af m x = routeAt af m' y := by
  have hx := (routeAt af m x).1.toNat_lt
  have hy := (routeAt af m' y).1.toNat_lt
  rw [← sign_sub_eq_zero, key, key, sign_sub_split (Addr.toNat_lt _) (Addr.toNat_lt _),
    Prod.ext_iff, ← UInt8.toNat_inj, ← Addr.toNat_inj]
  split_ifs with h
  · rw [sign_sub_eq_zero]
    omega
  · rw [sign_sub_eq_zero]
    omega

theorem compare_eq (hv6 : m (x + Layout.v6) = af.v6) : HostChain.compare m x y =
    if m (x + Layout.prefixLen) = m (y + Layout.prefixLen) then
      memcmp (read m (x + Layout.network) af.compared) (read m (y + Layout.network) af.compared)
        af.compared
    else cmp (m (y + Layout.prefixLen)) (m (x + Layout.prefixLen)) := by
  have hcount : (if m (x + Layout.v6) ≠ 0 then 128 else 32) / 4 = af.compared := by
    rw [hv6]
    cases af <;> rfl
  unfold HostChain.compare
  dsimp only
  rw [hcount]
  split_ifs with hres hp hp
  · exact absurd (cmp_eq_zero.mpr hp.symm) hres
  · rfl
  · rfl
  · exact absurd (cmp_eq_zero.mp (not_not.mp hres)).symm hp

theorem val_compared (af : Af) (m : Mem) (x : ℕ) :
    val (read m (x + Layout.network) af.compared) =
      (Addr.load af m (x + Layout.network)).toNat * 256 ^ af.size +
        val (read m (x + Layout.network + af.size) af.size) := by
  have hsize : af.compared = af.size + af.size := by cases af <;> rfl
  rw [hsize, read_add, val_append, length_read]
  rfl

theorem sign_memcmp_read (m : Mem) (x y n : ℕ) : (memcmp (read m x n) (read m y n) n).sign =
    ((val (read m x n) : ℤ) - val (read m y n)).sign := by
  have hsign := sign_memcmp (n := n) (length_read m x n).ge (length_read m y n).ge
  rwa [List.take_of_length_le (length_read m x n).le,
    List.take_of_length_le (length_read m y n).le] at hsign

/-- **Chains of different routes** have the order of their keys. -/
theorem sign_compare (hv6 : m (x + Layout.v6) = af.v6)
    (hne : routeAt af m x ≠ routeAt af m y) :
    (HostChain.compare m x y).sign = ((key af m x : ℤ) - key af m y).sign := by
  have hx := (routeAt af m x).1.toNat_lt
  have hy := (routeAt af m y).1.toNat_lt
  rw [compare_eq hv6, key, key, sign_sub_split (Addr.toNat_lt _) (Addr.toNat_lt _)]
  by_cases hp : m (x + Layout.prefixLen) = m (y + Layout.prefixLen)
  · -- the networks differ, so the bytes behind them do not count
    have hp' : (routeAt af m x).1 = (routeAt af m y).1 := hp
    have hnetwork : (Addr.load af m (x + Layout.network)).toNat ≠
        (Addr.load af m (y + Layout.network)).toNat :=
      mt Addr.toNat_inj.mp fun h => hne (routeAt_eq_iff.mpr ⟨hp, h⟩)
    have hrest (z : ℕ) : val (read m (z + Layout.network + af.size) af.size) < 256 ^ af.size := by
      have hlt := val_lt (read m (z + Layout.network + af.size) af.size)
      rwa [length_read] at hlt
    rw [if_pos hp, sign_memcmp_read, val_compared, val_compared, sign_sub_split (hrest x) (hrest y),
      if_neg hnetwork, if_pos (by rw [hp'])]
    rfl
  · have hp' : (routeAt af m x).1 ≠ (routeAt af m y).1 := hp
    have hne' : 255 - (routeAt af m x).1.toNat ≠ 255 - (routeAt af m y).1.toNat := by
      intro h
      exact hp' (UInt8.toNat_inj.mp (by omega))
    rw [if_neg hp, if_neg hne', sign_cmp]
    show (((routeAt af m y).1.toNat : ℤ) - (routeAt af m x).1.toNat).sign = _
    congr 1
    omega

theorem compare_self (m : Mem) (x : ℕ) : HostChain.compare m x x = 0 := by
  unfold HostChain.compare
  dsimp only
  rw [if_neg (not_not.mpr (cmp_eq_zero.mpr rfl)), eq_zero_iff_of_sign (sign_memcmp_read m _ _ _)]

/-! ## The model of the array -/

/-- The chain at an address is a chain of the model. -/
structure HoldsChain (m : Mem) (x : ℕ) (c : HostChain af) : Prop where
  v6 : m (x + Layout.v6) = af.v6
  route : routeAt af m x = (UInt8.ofNat c.prefixLen, c.network)

theorem HoldsChain.prefixLen {c : HostChain af} (h : HoldsChain m x c) :
    (m (x + Layout.prefixLen)).toNat = c.prefixLen := by
  have hbyte : m (x + Layout.prefixLen) = UInt8.ofNat c.prefixLen := congrArg Prod.fst h.route
  have hsize : inetSize af < 256 := by cases af <;> decide
  rw [hbyte, UInt8.toNat_ofNat', Nat.mod_eq_of_lt (c.prefixLen_le.trans_lt hsize)]

theorem prefixLen_le_of_compare (hv6 : m (x + Layout.v6) = af.v6)
    (hle : HostChain.compare m x y ≤ 0) :
    (m (y + Layout.prefixLen)).toNat ≤ (m (x + Layout.prefixLen)).toNat := by
  rw [compare_eq hv6] at hle
  split_ifs at hle with hp
  · rw [hp]
  · exact (nonpos_iff_of_sign (sign_cmp _ _)).mp hle

theorem sortedBy_of_compare {self sorted : List (HostChain af)} (hperm : sorted.Perm self)
    (hholds : List.Forall₂ (HoldsChain m) (elems a n) sorted)
    (horder : (elems a n).Pairwise fun x y => HostChain.compare m x y ≤ 0) :
    HostChainArray.SortedBy self sorted := by
  refine ⟨hperm, List.pairwise_iff_getElem.mpr fun i j hi hj hij => ?_⟩
  have hlen := hholds.length_eq
  have hx : HoldsChain m (elems a n)[i] sorted[i] := hholds.get (by omega) hi
  have hy : HoldsChain m (elems a n)[j] sorted[j] := hholds.get (by omega) hj
  have hle := List.pairwise_iff_getElem.mp horder i j (by omega) (by omega) hij
  have hprefix := prefixLen_le_of_compare hx.v6 hle
  rwa [hx.prefixLen, hy.prefixLen] at hprefix

/-! ## Equal routes -/

theorem compare_eq_zero_iff (hv6 : m (x + Layout.v6) = af.v6) : HostChain.compare m x y = 0 ↔
    m (x + Layout.prefixLen) = m (y + Layout.prefixLen) ∧
      read m (x + Layout.network) af.compared = read m (y + Layout.network) af.compared := by
  rw [compare_eq hv6]
  split_ifs with hp
  · rw [eq_zero_iff_of_sign (sign_memcmp_read m _ _ _), val_inj_iff (by simp)]
    exact (and_iff_right hp).symm
  · rw [cmp_eq_zero]
    exact iff_of_false (fun h => hp h.symm) fun h => hp h.1

/-- A byte that is compared but not part of the route: in the rest of the union of an IPv4 chain,
in the padding of an IPv6 chain. -/
def spare : Af → ℕ
  | .inet => Layout.network + 4
  | .inet6 => Layout.v6 + 1

/-- The memory with another value of that byte. -/
def stain (af : Af) (m : Mem) (y : ℕ) : Mem := set m (y + spare af) (m (y + spare af) + 1)

theorem stain_field (hxy : x = y ∨ x + 32 ≤ y ∨ y + 32 ≤ x) {k : ℕ} (hk : k < 32)
    (hne : k ≠ spare af) : stain af m y (x + k) = m (x + k) := by
  have hspare : spare af < 32 := by cases af <;> decide
  exact set_of_ne _ (by omega)

theorem routeAt_stain (hxy : x = y ∨ x + 32 ≤ y ∨ y + 32 ≤ x) :
    routeAt af (stain af m y) x = routeAt af m x := by
  have hnetwork : Layout.network + af.size ≤ spare af ∧ Layout.network + af.size ≤ 24 := by
    cases af <;> decide
  have hprefix : Layout.prefixLen ≠ spare af := by cases af <;> decide
  refine routeAt_eq_iff.mpr ⟨stain_field hxy (by decide) hprefix, Addr.ext_bytes ?_⟩
  refine read_congr fun k hk => ?_
  rw [Nat.add_assoc]
  exact stain_field hxy (by omega) (by omega)

theorem chainArray_stain (h : ChainArray af m a n) (hy : y ∈ elems a n) :
    ChainArray af (stain af m y) a n := by
  intro x hx
  have hxy : x = y ∨ x + 32 ≤ y ∨ y + 32 ≤ x := or_iff_not_imp_left.mpr (elems_apart hx hy)
  rw [stain_field hxy (by decide) (by cases af <;> decide)]
  exact h x hx

/-- The function sees the byte if the chains are equal without it. -/
theorem compare_stain (hv6 : m (x + Layout.v6) = af.v6) (hxy : x + 32 ≤ y ∨ y + 32 ≤ x)
    (hzero : HostChain.compare m x y = 0) : HostChain.compare (stain af m y) x y ≠ 0 := by
  have hv6' : stain af m y (x + Layout.v6) = af.v6 := by
    rw [stain_field (.inr hxy) (by decide) (by cases af <;> decide), hv6]
  intro hstain
  obtain ⟨-, hread⟩ := (compare_eq_zero_iff hv6).mp hzero
  obtain ⟨-, hread'⟩ := (compare_eq_zero_iff hv6').mp hstain
  obtain ⟨j, hj, hlt⟩ : ∃ j, spare af = Layout.network + j ∧ j < af.compared := by
    cases af
    · exact ⟨4, by decide⟩
    · exact ⟨18, by decide⟩
  have hbyte := eq_of_read_eq hread hlt
  have hbyte' := eq_of_read_eq hread' hlt
  rw [Nat.add_assoc, Nat.add_assoc, ← hj] at hbyte hbyte'
  have hspare : spare af < 32 := by cases af <;> decide
  rw [stain, set_self, set_of_ne _ (by omega), hbyte] at hbyte'
  simp at hbyte'

/-! ## Sorting -/

theorem key_lt_of_longer (h : (routeAt af m y).1 < (routeAt af m x).1) :
    key af m x < key af m y := by
  have hlt := UInt8.lt_iff_toNat_lt.mp h
  have hx := (routeAt af m x).1.toNat_lt
  rw [key, key, ← sign_sub_eq_neg_one, sign_sub_split (Addr.toNat_lt _) (Addr.toNat_lt _),
    if_neg (by omega), sign_sub_eq_neg_one]
  omega

theorem key_lt_iff_of_prefix (h : (routeAt af m x).1 = (routeAt af m y).1) :
    key af m x < key af m y ↔ (routeAt af m x).2.bytes < (routeAt af m y).2.bytes := by
  rw [lt_iff_val_lt ((routeAt af m x).2.size_eq.trans (routeAt af m y).2.size_eq.symm), key, key, h]
  exact Nat.add_lt_add_iff_left

section

variable (h : ChainArray af m a n)
  (hroutes : ∀ x ∈ elems a n, ∀ y ∈ elems a n, x ≠ y → routeAt af m x ≠ routeAt af m y)

include h hroutes

theorem sign_compare_elems (hx : x ∈ elems a n) (hy : y ∈ elems a n) :
    (HostChain.compare m x y).sign = ((key af m x : ℤ) - key af m y).sign := by
  by_cases hxy : x = y
  · rw [hxy, compare_self, sub_self]
  · exact sign_compare (h x hx) (hroutes x hx y hy hxy)

/-- Chains of different routes are compared by their keys, whatever else is in memory. -/
theorem comparator_of_ne : Comparator af m a n where
  zero x hx y hy := by
    rw [eq_zero_iff_of_sign (sign_compare_elems h hroutes hx hy), key_eq_iff]
  antisymm x hx y hy := by
    rw [sign_compare_elems h hroutes hy hx, sign_compare_elems h hroutes hx hy, ← Int.sign_neg,
      neg_sub]
  trans x hx y hy z hz hxy hyz := by
    rw [nonpos_iff_of_sign (sign_compare_elems h hroutes hx hy)] at hxy
    rw [nonpos_iff_of_sign (sign_compare_elems h hroutes hy hz)] at hyz
    rw [nonpos_iff_of_sign (sign_compare_elems h hroutes hx hz)]
    exact hxy.trans hyz
  longer x hx y hy hlonger := by
    rw [neg_iff_of_sign (sign_compare_elems h hroutes hx hy)]
    exact key_lt_of_longer hlonger
  lexicographic x hx y hy hp := by
    rw [neg_iff_of_sign (sign_compare_elems h hroutes hx hy), key_lt_iff_of_prefix hp]
  depends m' h' hsame x hx y hy := by
    have hroutes' : ∀ x ∈ elems a n, ∀ y ∈ elems a n, x ≠ y →
        routeAt af m' x ≠ routeAt af m' y := by
      intro x hx y hy hxy
      rw [hsame x hx, hsame y hy]
      exact hroutes x hx y hy hxy
    rw [sign_compare_elems h' hroutes' hx hy, sign_compare_elems h hroutes hx hy,
      key_eq_iff.mpr (hsame x hx), key_eq_iff.mpr (hsame y hy)]

end

/-- For chains of the same route the function depends on a byte behind the network. -/
theorem Comparator.route_ne (hcmp : Comparator af m a n) (h : ChainArray af m a n)
    (hx : x ∈ elems a n) (hy : y ∈ elems a n) (hxy : x ≠ y) : routeAt af m x ≠ routeAt af m y := by
  intro hroute
  have hzero := (hcmp.zero x hx y hy).mpr hroute
  have hsign := hcmp.depends (stain af m y) (chainArray_stain h hy)
    (fun z hz => routeAt_stain (or_iff_not_imp_left.mpr (elems_apart hz hy))) x hx y hy
  rw [hzero, Int.sign_zero, Int.sign_eq_zero_iff_zero] at hsign
  exact compare_stain (h x hx) (elems_apart hx hy hxy) hzero hsign

/-- **The comparison function** meets what sorting expects of it exactly if no two chains of the
array have the same route. -/
theorem comparator_iff (h : ChainArray af m a n) : Comparator af m a n ↔
    ∀ x ∈ elems a n, ∀ y ∈ elems a n, x ≠ y → routeAt af m x ≠ routeAt af m y :=
  ⟨fun hcmp _ hx _ hy hxy => hcmp.route_ne h hx hy hxy, comparator_of_ne h⟩

/-- The bytes of IPv4 chains from networks, bytes behind them and prefixes. -/
def chainsOf (chains : List (List UInt8 × UInt8 × UInt8)) : Mem := fun k =>
  match chains[k / Layout.sizeofHostChain]? with
  | none => 0
  | some (network, rest, prefixLen) =>
    (List.replicate 8 0 ++ network ++ List.replicate 12 rest ++ [prefixLen]).getD
      (k % Layout.sizeofHostChain) 0

/-- Chains for `10.0.0.0/24` and `10.0.1.0/24`. -/
theorem comparator_slash24 :
    Comparator .inet (chainsOf [([10, 0, 0, 0], 1, 24), ([10, 0, 1, 0], 0, 24)]) 0 2 :=
  (comparator_iff (by decide)).mpr (by decide)

/-- Two chains for `10.0.0.0/24` with different bytes behind their networks. -/
theorem not_comparator : ¬ ∀ (af : Af) (m : Mem) (a n : ℕ), ChainArray af m a n →
    Comparator af m a n := by
  intro h
  have hcmp := h .inet (chainsOf [([10, 0, 0, 0], 1, 24), ([10, 0, 0, 0], 0, 24)]) 0 2 (by decide)
  have hzero := (hcmp.zero 0 (by decide) 32 (by decide)).mpr (by decide)
  exact absurd hzero (by decide)

end Rdnstun
