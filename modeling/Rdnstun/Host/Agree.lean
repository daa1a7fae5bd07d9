import Rdnstun.Host.Reply

/-!
# Two packets with the same first bytes

What the parts of a reply function make of two memories that agree on their first `n` bytes.

* `agree_inetCksumAt`, `agree_noAppend`, `agree_truncateEcho`: they still agree there.
* `agree_append`: they agree on the whole error message as soon as they agree on what it quotes.
* `agree_patchEcho`: they still agree there unless a checksum octet beyond the first `n` bytes
  carries into the other one.
-/

namespace Rdnstun

open Memory

variable {m m' : Mem} {n a : ℕ}

theorem agree_store16 (h : Agree n m m') (a w : ℕ) : Agree n (store16 m a w) (store16 m' a w) :=
  h.write a _

theorem agree_inetCksumAt (h : Agree n m m') (cksum : ℕ) {base count : ℕ} (append : Bool)
    (hn : base + count ≤ n) :
    Agree n (inetCksumAt m cksum base count append) (inetCksumAt m' cksum base count append) := by
  have hzero := agree_store16 h cksum 0
  rw [inetCksumAt, inetCksumAt, inetCksumContinue_congr 0 fun k hk => hzero (base + k) (by omega)]
  exact agree_store16 hzero cksum _

/-! ## IPv4 -/

namespace FakeHost

variable {self : FakeHost .inet} {ttl : UInt8} {pkt : Mem}

theorem agree_noAppend (h : Agree n m m') (hn : 20 ≤ n) :
    Agree n (self.noAppend ttl m) (self.noAppend ttl m') := by
  rw [noAppend_def, noAppend_def]
  exact agree_inetCksumAt (((h.set _ _).copy (by omega)).write _ _) _ _ (by omega)

theorem agree_append (h : Agree n m m') (o : Outcome) (hn : 28 ≤ n) :
    Agree 56 (append o m) (append o m') := by
  have hip := h.copy_extend (a := 28) (b := 0) (i := 20) hn (by omega)
  have hdata := hip.copy_extend (a := 48) (b := 20) (i := 8) (by omega) (by omega)
  rw [append_def, append_def]
  exact agree_store16 ((agree_inetCksumAt (((hdata.set _ _).set _ _).write _ _) _ _
    (by omega)).set _ _) _ _

theorem agree_truncateEcho {len : ℕ} (h : Agree n m m') (hlen : 20 ≤ len) (hn : len ≤ n)
    (hmax : len < 2 ^ 64) : Agree n (truncateEcho len m) (truncateEcho len m') := by
  rw [truncateEcho_def, truncateEcho_def]
  exact agree_inetCksumAt (agree_store16 ((h.set _ _).set _ _) _ _) _ _ (by omega)

theorem patchEcho_lo (pkt : Mem) : patchEcho pkt 22 =
    pkt 22 + 8 + if 248 ≤ pkt 22 ∧ pkt 23 = 255 then 1 else 0 := by
  have hlo := (pkt 22).toNat_lt
  have hhi := (pkt 23).toNat_lt
  have hload : load16 (set (set pkt 20 ICMP_ECHOREPLY) 21 0) 22 =
      (pkt 22).toNat + (pkt 23).toNat * 256 := rfl
  rw [patchEcho_def]
  dsimp only
  rw [store16_lo, hload, ← UInt8.toNat_inj, UInt8.toNat_ofNat']
  split_ifs with h
  · obtain ⟨h₁, h₂⟩ := h
    rw [UInt8.le_iff_toNat_le] at h₁
    simp only [UInt8.toNat_add, UInt8.toNat_ofNat, h₂] at h₁ ⊢
    omega
  · have hlt : (pkt 22).toNat + (pkt 23).toNat * 256 + 8 < 2 ^ 16 := by
      by_contra hge
      refine h ⟨UInt8.le_iff_toNat_le.mpr ?_, UInt8.toNat_inj.mp ?_⟩ <;>
        simp only [UInt8.toNat_ofNat] <;> omega
    simp only [UInt8.toNat_add, UInt8.toNat_ofNat]
    omega

theorem agree_patchEcho (h : Agree n m m') (hn : ¬ (n = 23 ∧ 248 ≤ m 22)) :
    Agree n (patchEcho m) (patchEcho m') := by
  have hset : Agree n (set (set m 20 ICMP_ECHOREPLY) 21 0)
      (set (set m' 20 ICMP_ECHOREPLY) 21 0) := (h.set _ _).set _ _
  by_cases hall : 24 ≤ n
  · have hload : load16 (set (set m 20 ICMP_ECHOREPLY) 21 0) 22 =
        load16 (set (set m' 20 ICMP_ECHOREPLY) 21 0) 22 := by
      rw [load16, load16, hset 22 (by omega), hset 23 (by omega)]
    rw [patchEcho_def, patchEcho_def]
    dsimp only
    rw [hload]
    exact agree_store16 hset _ _
  · intro k hk
    by_cases hk22 : k = 22
    · have hlo : ¬ 248 ≤ m 22 := fun hlo => hn ⟨by omega, hlo⟩
      rw [hk22, patchEcho_lo, patchEcho_lo, ← h 22 (by omega), if_neg fun hc => hlo hc.1,
        if_neg fun hc => hlo hc.1]
    · rw [patchEcho_def, patchEcho_def, store16_of_ne _ hk22 (by omega),
        store16_of_ne _ hk22 (by omega)]
      exact hset k hk

end FakeHost

/-! ## IPv6 -/

namespace FakeHost6

variable {self : FakeHost .inet6} {ttl : UInt8} {pkt : Mem} {len : ℕ}

theorem agree_header (h : Agree n m m') (hn : 40 ≤ n) :
    Agree n (header self ttl m) (header self ttl m') :=
  ((h.set _ _).copy (by omega)).write _ _

theorem agree_noAppend (h : Agree n m m') (checksumOk : Bool) (hn : 40 ≤ n) (hlen : 40 ≤ len)
    (hle : len ≤ n) (hmax : len < 2 ^ 64) :
    Agree n (noAppend self ttl m len checksumOk) (noAppend self ttl m' len checksumOk) := by
  have hheader : Agree n (header self ttl m) (header self ttl m') := agree_header h hn
  rw [noAppend_def, noAppend_def]
  split_ifs
  · exact hheader
  · have hzero := agree_store16 hheader 42 0
    have hplen : load16 (store16 (header self ttl m) 42 0) 4 =
        load16 (store16 (header self ttl m') 42 0) 4 := by
      rw [load16, load16, hzero 4 (by omega), hzero 5 (by omega)]
    dsimp only
    rw [hzero 6 (by omega), hplen, inetCksumContinue_congr 0 fun k hk => hzero (8 + k) (by omega),
      inetCksumContinue_congr _ fun k hk => hzero (40 + k) (by omega)]
    exact agree_store16 hzero 42 _

theorem agree_append (h : Agree n m m') (o : Outcome) (hn : 48 ≤ n) :
    Agree 96 (append o m) (append o m') := by
  have hip := h.copy_extend (a := 48) (b := 0) (i := 40) hn (by omega)
  have hdata := hip.copy_extend (a := 88) (b := 40) (i := 8) (by omega) (by omega)
  rw [append_def, append_def]
  exact (agree_store16 (((hdata.set _ _).set _ _).write _ _) _ _).set _ _

theorem agree_truncateEcho (h : Agree n m m') :
    Agree n (truncateEcho len m) (truncateEcho len m') :=
  agree_store16 ((h.set _ _).set _ _) _ _

theorem patchEcho_lo (pkt : Mem) : patchEcho pkt 42 =
    if pkt 42 = 0 ∧ pkt 43 = 0 then 254 else pkt 42 - 1 := by
  have hlo := (pkt 42).toNat_lt
  have hhi := (pkt 43).toNat_lt
  have hload : load16 (set (set pkt 40 ICMP6_ECHO_REPLY) 41 0) 42 =
      (pkt 42).toNat + (pkt 43).toNat * 256 := rfl
  rw [patchEcho_def]
  dsimp only
  rw [store16_lo, hload, ← UInt8.toNat_inj, UInt8.toNat_ofNat']
  split_ifs with h
  · rw [h.1, h.2]
    rfl
  · have hpos : 0 < (pkt 42).toNat + (pkt 43).toNat * 256 := by
      by_contra hz
      refine h ⟨UInt8.toNat_inj.mp ?_, UInt8.toNat_inj.mp ?_⟩ <;>
        simp only [UInt8.toNat_zero] <;> omega
    have hsub : ((pkt 42).toNat + (pkt 43).toNat * 256 + (2 ^ 32 - 1)) % 2 ^ 32 =
        (pkt 42).toNat + (pkt 43).toNat * 256 - 1 := by omega
    have hlt : (pkt 42).toNat + (pkt 43).toNat * 256 - 1 < 2 ^ 16 := by omega
    rw [hsub, Nat.div_eq_of_lt hlt, zero_add, Nat.mod_mod, Nat.mod_eq_of_lt hlt]
    simp only [UInt8.toNat_sub, UInt8.toNat_one]
    omega

theorem agree_patchEcho (h : Agree n m m') (hn : ¬ (n = 43 ∧ m 42 = 0)) :
    Agree n (patchEcho m) (patchEcho m') := by
  have hset : Agree n (set (set m 40 ICMP6_ECHO_REPLY) 41 0)
      (set (set m' 40 ICMP6_ECHO_REPLY) 41 0) := (h.set _ _).set _ _
  by_cases hall : 44 ≤ n
  · have hload : load16 (set (set m 40 ICMP6_ECHO_REPLY) 41 0) 42 =
        load16 (set (set m' 40 ICMP6_ECHO_REPLY) 41 0) 42 := by
      rw [load16, load16, hset 42 (by omega), hset 43 (by omega)]
    rw [patchEcho_def, patchEcho_def]
    dsimp only
    rw [hload]
    exact agree_store16 hset _ _
  · intro k hk
    by_cases hk42 : k = 42
    · have hlo : ¬ m 42 = 0 := fun hlo => hn ⟨by omega, hlo⟩
      rw [hk42, patchEcho_lo, patchEcho_lo, ← h 42 (by omega), if_neg fun hc => hlo hc.1,
        if_neg fun hc => hlo hc.1]
    · rw [patchEcho_def, patchEcho_def, store16_of_ne _ hk42 (by omega),
        store16_of_ne _ hk42 (by omega)]
      exact hset k hk

end FakeHost6

end Rdnstun
