import Rdnstun.Array.Find

/-!
# Longest-prefix lookup

* `Longest`: a chain of an array with the longest prefix among those in whose route an address
  lies.
* `AnswersAs`: the array answers as one of its chains does alone.
* **`answersAs_longest_iff`**: a sorted array answers as one of its longest chains exactly when
  one of these finds the address within the TTL or no other chain has the address in its route.
-/

namespace Rdnstun

variable {af : Af}

namespace HostChainArray

/-- `c` has the longest prefix among the chains in whose route `addr` lies. -/
def Longest (self : List (HostChain af)) (addr : Addr af) (c : HostChain af) : Prop :=
  c ∈ self ∧ c.isIn addr = true ∧ ∀ d ∈ self, d.isIn addr = true → d.prefixLen ≤ c.prefixLen

/-- The array hands back the host and the index that its chain `k` finds. -/
def AnswersAs (self : List (HostChain af)) (addr : Addr af) (ttl index : UInt8) (k : ℕ)
    (c : HostChain af) : Prop :=
  ∃ hit, self[k]? = some c ∧ c.find addr ttl = some hit ∧
    find self addr ttl index = (some ⟨k, hit.slot⟩, hit.index)

variable {self sorted : List (HostChain af)} {c d : HostChain af} {addr : Addr af}
  {ttl : UInt8} {k : ℕ} {hit : HostChain.Hit}

theorem Longest.perm (h : Longest self addr c) (hperm : sorted.Perm self) :
    Longest sorted addr c := by
  obtain ⟨hmem, hin, hmax⟩ := h
  exact ⟨hperm.mem_iff.mpr hmem, hin, fun d hd => hmax d (hperm.mem_iff.mp hd)⟩

theorem prefixLen_le_of_lt (hsort : self.Pairwise fun c c' => c'.prefixLen ≤ c.prefixLen)
    {i j : ℕ} (hij : i < j) (hc : self[i]? = some c) (hd : self[j]? = some d) :
    d.prefixLen ≤ c.prefixLen := by
  obtain ⟨hi, rfl⟩ := List.getElem?_eq_some_iff.mp hc
  obtain ⟨hj, rfl⟩ := List.getElem?_eq_some_iff.mp hd
  exact List.pairwise_iff_getElem.mp hsort i j hi hj hij

/-- The chain that answers for a sorted array is a longest one if it found the address or if
there is no other kind. -/
theorem IsAnswer.longest (hans : IsAnswer self addr ttl k hit)
    (hsort : self.Pairwise fun c c' => c'.prefixLen ≤ c.prefixLen) (hk : self[k]? = some c)
    (h : (∃ d, Longest self addr d ∧ d.Reaches addr ttl) ∨
      ∀ d ∈ self, ∀ e ∈ self, d.isIn addr = true → e.isIn addr = true →
        d.prefixLen = e.prefixLen)
    (hhosts : ∀ c ∈ self, c.hosts ≠ []) (httl : 0 < ttl) : Longest self addr c := by
  obtain ⟨c', hc', hin, hfind⟩ := hans.answers
  rw [hk, Option.some_inj] at hc'
  subst hc'
  refine ⟨List.mem_of_getElem? hk, hin, fun e he hein => ?_⟩
  rcases h with ⟨d, hd, hreach⟩ | hsame
  · -- the answering chain is not behind `d`, which would have stopped the loop
    obtain ⟨j, hj, rfl⟩ := List.getElem_of_mem hd.1
    have hj? : self[j]? = some self[j] := List.getElem?_eq_getElem hj
    have hle : k ≤ j := by
      by_contra hlt
      obtain ⟨hit', hit'_eq⟩ := HostChain.exists_find addr (hhosts _ hd.1) httl
      have hno := hans.before j (by omega) _ hj? hd.2.1 hit' hit'_eq
      rw [(HostChain.found_iff hit'_eq).mpr hreach] at hno
      cases hno
    have hdc : self[j].prefixLen ≤ c.prefixLen := by
      obtain hlt | rfl := Nat.lt_or_eq_of_le hle
      · exact prefixLen_le_of_lt hsort hlt hk hj?
      · rw [hj?, Option.some_inj] at hk
        rw [hk]
    exact (hd.2.2 e he hein).trans hdc
  · exact (hsame e he c (List.mem_of_getElem? hk) hein hin).le

/-- **Longest-prefix lookup.** A sorted array answers as one of the longest chains does exactly
when one of these reaches the address, or all chains in whose route it lies are longest. -/
theorem answersAs_longest_iff (hsort : SortedBy self sorted) (hhosts : ∀ c ∈ self, c.hosts ≠ [])
    (httl : 0 < ttl) (hin : ∃ c ∈ self, c.isIn addr = true) (index : UInt8) :
    (∃ k c, Longest self addr c ∧ AnswersAs sorted addr ttl index k c) ↔
      (∃ c, Longest self addr c ∧ c.Reaches addr ttl) ∨
        ∀ c ∈ self, ∀ d ∈ self, c.isIn addr = true → d.isIn addr = true →
          c.prefixLen = d.prefixLen := by
  obtain ⟨hperm, hdesc⟩ := hsort
  have hhosts' : ∀ c ∈ sorted, c.hosts ≠ [] := fun c hc => hhosts c (hperm.mem_iff.mp hc)
  obtain ⟨a, ha, hain⟩ := hin
  obtain ⟨k, hit, hans, hfind⟩ :=
    find_isAnswer (fun c hc _ => hhosts' c hc) httl ⟨a, hperm.mem_iff.mpr ha, hain⟩ index
  obtain ⟨c, hk, hcin, hcfind⟩ := hans.answers
  constructor
  · rintro ⟨k', c', hlong, hit', hk', hfind', heq⟩
    rw [hfind, Prod.mk.injEq, Option.some_inj, HostPtr.mk.injEq] at heq
    obtain ⟨⟨rfl, -⟩, -⟩ := heq
    rw [hk, Option.some_inj] at hk'
    subst hk'
    rw [hcfind, Option.some_inj] at hfind'
    subst hfind'
    by_cases hreach : c.Reaches addr ttl
    · exact .inl ⟨c, hlong, hreach⟩
    · -- nothing behind the answering chain has the address in its route
      have hfound : hit.found = false := by
        simpa using mt (HostChain.found_iff hcfind).mp hreach
      have hall : ∀ d ∈ self, d.isIn addr = true → c.prefixLen = d.prefixLen := by
        intro d hd hdin
        obtain ⟨j, hj, rfl⟩ := List.getElem_of_mem (hperm.mem_iff.mpr hd)
        have hj? : sorted[j]? = some sorted[j] := List.getElem?_eq_getElem hj
        have hle : j ≤ k := by
          by_contra hlt
          rw [hans.after hfound j (by omega) _ hj?] at hdin
          cases hdin
        refine Nat.le_antisymm ?_ (hlong.2.2 _ hd hdin)
        obtain hlt | rfl := Nat.lt_or_eq_of_le hle
        · exact prefixLen_le_of_lt hdesc hlt hj? hk
        · rw [hj?, Option.some_inj] at hk
          rw [hk]
      exact .inr fun d hd e he hdin hein => (hall d hd hdin).symm.trans (hall e he hein)
  · intro h
    have hlong : Longest sorted addr c := by
      refine hans.longest hdesc hk ?_ hhosts' httl
      rcases h with ⟨d, hd, hreach⟩ | hsame
      · exact .inl ⟨d, hd.perm hperm, hreach⟩
      · exact .inr fun d hd e he => hsame d (hperm.mem_iff.mp hd) e (hperm.mem_iff.mp he)
    exact ⟨k, c, hlong.perm hperm.symm, hit, hk, hcfind, hfind⟩

/-- A chain for `10.0.0.0/24` and one for every other address. -/
def nestedChains : List (HostChain .inet) :=
  [.slash24, .defaultRoute [⟨64, 1500, .v4 192 168 0 1⟩]]

theorem sortedBy_nestedChains : SortedBy nestedChains nestedChains :=
  ⟨List.Perm.refl _,
    by simp [nestedChains, HostChain.slash24, HostChain.defaultRoute, HostChain.ofHosts]⟩

theorem hosts_nestedChains : ∀ c ∈ nestedChains, c.hosts ≠ [] := by decide

theorem answersAs_longest_of_reaches :
    ∃ k c, Longest nestedChains (.v4 10 0 0 1) c ∧
      AnswersAs nestedChains (.v4 10 0 0 1) 1 0 k c := by
  refine (answersAs_longest_iff sortedBy_nestedChains hosts_nestedChains (by decide)
    ⟨nestedChains[0], List.getElem_mem _, by decide⟩ 0).mpr (.inl ⟨nestedChains[0], ?_, by decide⟩)
  exact ⟨List.getElem_mem _, by decide, by decide⟩

/-- A packet to `10.0.0.9` with TTL 1 is answered by the chain for every other address. -/
theorem not_answersAs_longest :
    ¬ ∀ (self sorted : List (HostChain .inet)) (addr : Addr .inet) (ttl index : UInt8),
      SortedBy self sorted → (∀ c ∈ self, c.hosts ≠ []) → 0 < ttl →
        (∃ c ∈ self, c.isIn addr = true) →
          ∃ k c, Longest self addr c ∧ AnswersAs sorted addr ttl index k c := by
  intro h
  obtain ⟨k, c, hlong, hit, hk, -, heq⟩ := h nestedChains nestedChains (.v4 10 0 0 9) 1 0
    sortedBy_nestedChains hosts_nestedChains (by decide)
    ⟨nestedChains[0], List.getElem_mem _, by decide⟩
  have hfind : find nestedChains (.v4 10 0 0 9) 1 0 = (some ⟨1, 0⟩, 0) := by decide
  rw [hfind, Prod.mk.injEq, Option.some_inj, HostPtr.mk.injEq] at heq
  obtain ⟨⟨rfl, -⟩, -⟩ := heq
  cases hk
  exact absurd (hlong.2.2 nestedChains[0] (List.getElem_mem _) (by decide)) (by decide)

end HostChainArray

end Rdnstun
