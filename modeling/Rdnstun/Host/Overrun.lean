import Rdnstun.Host.Buffer
import Rdnstun.Inet.Cksum

/-!
# Replies beyond the buffer

A cut echo reply is summed over `mtu - sizeof(header)` bytes. With an MTU below the header that is
almost the whole address space.

* `inetCksumContinue_behind`: a sum that reaches behind the buffer sees what is there.
* `FakeHost.echoTo`: a request that a host answers.
* **`within_replyOf_iff`**: exactly when a reply function keeps to the buffer.
-/

namespace Rdnstun

open Memory Carry

variable {m : Mem} {n a j s count len : ℕ}

/-! ## Sums -/

theorem inetCksumContinue_of_zero (h : ∀ i < count, m (a + i) = 0) (hs : s < 2 ^ 32) :
    inetCksumContinue s m a count = s := by
  induction s, a, count using inetCksumContinue.induct m with
  | case1 => rfl
  | case2 sum a =>
    have h₀ : m a = 0 := h 0 Nat.zero_lt_one
    rw [inetCksumContinue, h₀]
    exact Nat.mod_eq_of_lt hs
  | case3 sum a count ih =>
    have h₀ : m a = 0 := h 0 (by omega)
    have h₁ : m (a + 1) = 0 := h 1 (by omega)
    have hword : (sum + load16 m a) % 2 ^ 32 = sum := by
      rw [load16, h₀, h₁]
      exact Nat.mod_eq_of_lt hs
    rw [inetCksumContinue, hword]
    rw [hword] at ih
    refine ih (fun k hk => ?_) hs
    rw [Nat.add_assoc, Nat.add_comm 2 k]
    exact h (k + 2) (by omega)

/-- A sum that reaches behind the buffer of a confined transformer sees a byte there. -/
theorem inetCksumContinue_behind {f : Mem → Mem} (hf : Confined (a + 2 * j) f)
    (hm : ∀ i, a + 2 * j ≤ i → m i = 0) (hs : s + 65535 * j + 1 < 2 ^ 32) (hj : 2 * j < count) :
    inetCksumContinue s (f m) a count + 1 < 2 ^ 32 ∧
      inetCksumContinue s (f (set m (a + 2 * j) 1)) a count =
        inetCksumContinue s (f m) a count + 1 := by
  obtain ⟨c, rfl⟩ : ∃ c, count = 2 * j + (c + 1) := ⟨count - 2 * j - 1, by omega⟩
  have hagree := hf.agree _ _ (agree_set_of_le m 1 (Nat.le_refl (a + 2 * j)))
  have hsum := blockSum_le (f m) a j
  have hzero (i : ℕ) (hi : a + 2 * j ≤ i) : f m i = 0 := (hf.frame m i hi).trans (hm i hi)
  have hone : f (set m (a + 2 * j) 1) (a + 2 * j) = 1 :=
    (hf.frame _ _ (Nat.le_refl _)).trans (set_self _ _ _)
  have hzero' (i : ℕ) (hi : a + 2 * j < i) : f (set m (a + 2 * j) 1) i = 0 := by
    rw [hf.frame _ i (by omega), set_of_ne _ (by omega), hm i (by omega)]
  rw [inetCksumContinue_append, inetCksumContinue_append,
    ← inetCksumContinue_congr s fun k hk => hagree (a + k) (by omega),
    inetCksumContinue_eq (by omega),
    inetCksumContinue_of_zero (fun i _ => hzero _ (by omega)) (by omega)]
  refine ⟨by omega, ?_⟩
  cases c with
  | zero =>
    rw [inetCksumContinue, hone, UInt8.toNat_one]
    exact Nat.mod_eq_of_lt (by omega)
  | succ c =>
    have hword : load16 (f (set m (a + 2 * j) 1)) (a + 2 * j) = 1 := by
      rw [load16, hone, hzero' _ (by omega)]
      rfl
    rw [inetCksumContinue, hword, Nat.mod_eq_of_lt (by omega)]
    exact inetCksumContinue_of_zero (fun i _ => hzero' _ (by omega)) (by omega)

theorem inetCksumFinish_succ_ne (h : n + 1 < 2 ^ 32) :
    inetCksumFinish (n + 1) ≠ inetCksumFinish n := by
  intro heq
  rw [inetCksumFinish_eq h, inetCksumFinish_eq (by omega)] at heq
  have hle := residue_le (M := 65535) (by decide) n
  have hle' := residue_le (M := 65535) (by decide) (n + 1)
  have hmod := residue_modEq 65535 n
  have hmod' := residue_modEq 65535 (n + 1)
  have hres : residue 65535 (n + 1) = residue 65535 n := by omega
  rw [hres] at hmod'
  have hstep : n ≡ n + 1 [MOD 65535] := hmod.symm.trans hmod'
  unfold Nat.ModEq at hstep
  omega

/-! ## A request -/

section Request

variable {af : Af}

/-- An echo request with the greatest TTL, from nowhere to a host. -/
def FakeHost.echoTo (host : FakeHost af) : Mem :=
  write (set (set (set (fun _ => 0) af.wire.ttl 255) af.wire.proto af.wire.icmpProto) af.wire.icmp
    af.wire.echo) af.wire.dst host.addr.bytes

variable {host : FakeHost af} {ttl : UInt8}

theorem echoTo_behind {k : ℕ} (hk : af.wire.errorLen ≤ k) : host.echoTo k = 0 := by
  have hlen := host.addr.size_eq
  have hwire : af.wire.dst + af.size ≤ k ∧ af.wire.icmp < k ∧ af.wire.proto < k ∧
      af.wire.ttl < k := by
    cases af <;> exact ⟨Nat.le_trans (by decide) hk, Nat.lt_of_lt_of_le (by decide) hk,
      Nat.lt_of_lt_of_le (by decide) hk, Nat.lt_of_lt_of_le (by decide) hk⟩
  rw [FakeHost.echoTo, write_of_ge (by omega), set_of_ne _ (by omega), set_of_ne _ (by omega),
    set_of_ne _ (by omega)]

theorem echoTo_ttl : host.echoTo af.wire.ttl = 255 := by
  rw [FakeHost.echoTo, write_of_lt _ (by cases af <;> decide), set_of_ne _ (by cases af <;> decide),
    set_of_ne _ (by cases af <;> decide), set_self]

theorem outcomeOf_echoTo : host.outcomeOf ttl host.echoTo = .echoReply := by
  have hlen := host.addr.size_eq
  have hproto : host.echoTo af.wire.proto = af.wire.icmpProto := by
    rw [FakeHost.echoTo, write_of_lt _ (by cases af <;> decide),
      set_of_ne _ (by cases af <;> decide), set_self]
  have hicmp : host.echoTo af.wire.icmp = af.wire.echo := by
    rw [FakeHost.echoTo, write_of_ge (by rw [hlen]; cases af <;> decide), set_self]
  have hdst : host.addr = Addr.load af host.echoTo af.wire.dst :=
    (Addr.ext_bytes (read_write _ _ hlen)).symm
  rw [FakeHost.outcomeOf_of_eq hdst, if_pos hproto, if_pos hicmp]

end Request

/-! ## Cut replies -/

theorem load16_inetCksumAt (m : Mem) (a base count : ℕ) :
    load16 (inetCksumAt m a base count false) a =
      inetCksumFinish (inetCksumContinue 0 (store16 m a 0) base count % 2 ^ 32) := by
  rw [inetCksumAt, load16_store16 _ _ (inetCksumFinish_le _)]
  simp

/-- The checksum of a cut reply depends on what is behind the buffer. -/
theorem FakeHost.cut_behind (host : FakeHost .inet) (ttl : UInt8)
    (hm : ∀ i, 20 + 2 * j ≤ i → m i = 0) (hj : 2 ≤ j) (hmax : j ≤ 32768) (hlen : len < 20) :
    load16 (host.noAppend ttl (truncateEcho len (set m (20 + 2 * j) 1))) 22 ≠
      load16 (host.noAppend ttl (truncateEcho len m)) 22 := by
  have hload (m : Mem) : load16 (host.noAppend ttl (truncateEcho len m)) 22 =
      load16 (truncateEcho len m) 22 := by
    rw [load16, load16, noAppend_of_ne (by omega), noAppend_of_ne (by omega)]
  have hf := (confined_store16 (a := 22) (n := 20 + 2 * j) 0 (by omega)).comp
    ((confined_store16 (a := 2) (htons len) (by omega)).comp
      ((confined_set (a := 21) 0 (by omega)).comp
        (confined_set (a := 20) ICMP_ECHOREPLY (by omega))))
  have hcount : 2 * j < (len + 2 ^ 64 - 20) % 2 ^ 64 := by omega
  rw [hload, hload, truncateEcho_def, truncateEcho_def, load16_inetCksumAt, load16_inetCksumAt]
  generalize (len + 2 ^ 64 - 20) % 2 ^ 64 = count at hcount ⊢
  obtain ⟨hlt, hsum⟩ := inetCksumContinue_behind (s := 0) hf hm (by omega) hcount
  rw [hsum, Nat.mod_eq_of_lt hlt, Nat.mod_eq_of_lt (by omega)]
  exact inetCksumFinish_succ_ne hlt

/-- The sum of a pseudo-header, as `FakeHost6_reply` starts it. -/
theorem pseudo_le (m : Mem) : ((inetCksumContinue 0 m 8 32 + load16 m 4) % 2 ^ 32 +
    htons (m 6).toNat) % 2 ^ 32 ≤ 65535 * 18 := by
  have hblock := blockSum_le m 8 16
  have hload := load16_le m 4
  have hnxt : htons (m 6).toNat ≤ 65535 := by
    have hbyte := (m 6).toNat_lt
    unfold htons
    omega
  have hsum : inetCksumContinue 0 m 8 32 = 0 + blockSum m 8 16 :=
    inetCksumContinue_eq (k := 16) (by omega)
  rw [hsum, Nat.mod_eq_of_lt (a := 0 + blockSum m 8 16 + load16 m 4) (by omega),
    Nat.mod_eq_of_lt (by omega)]
  omega

theorem FakeHost6.cut_behind (host : FakeHost .inet6) (ttl : UInt8)
    (hm : ∀ i, 40 + 2 * j ≤ i → m i = 0) (hj : 2 ≤ j) (hmax : j ≤ 32768) (hlen : len < 40) :
    load16 (noAppend host ttl (truncateEcho len (set m (40 + 2 * j) 1)) len false) 42 ≠
      load16 (noAppend host ttl (truncateEcho len m) len false) 42 := by
  have hf := ((confined_store16 (a := 42) (n := 40 + 2 * j) 0 (by omega)).comp
    (confined_header host ttl (by omega))).comp (confined_truncateEcho len (by omega))
  have hagree := hf.agree _ _ (agree_set_of_le m 1 (Nat.le_refl (40 + 2 * j)))
  have hpseudo := readsBelow_inetCksumContinue 0 (a := 8) (c := 32) (n := 40 + 2 * j)
    (by omega) _ _ hagree
  have hplen := readsBelow_load16 (a := 4) (n := 40 + 2 * j) (by omega) _ _ hagree
  have hnxt := readsBelow_byte (k := 6) (n := 40 + 2 * j) (by omega) _ _ hagree
  have hcount : 2 * j < (len + 2 ^ 64 - 40) % 2 ^ 64 := by omega
  dsimp only at hpseudo hplen hnxt
  rw [noAppend_def, noAppend_def, if_neg Bool.false_ne_true, if_neg Bool.false_ne_true]
  dsimp only
  rw [load16_store16 _ _ (inetCksumFinish_le _), load16_store16 _ _ (inetCksumFinish_le _),
    ← hpseudo, ← hplen, ← hnxt]
  generalize (len + 2 ^ 64 - 40) % 2 ^ 64 = count at hcount ⊢
  have hsmall := pseudo_le (store16 (header host ttl (truncateEcho len m)) 42 0)
  generalize ((inetCksumContinue 0 _ 8 32 + _) % 2 ^ 32 + _) % 2 ^ 32 = s at hsmall ⊢
  obtain ⟨hlt, hsum⟩ := inetCksumContinue_behind hf hm (s := s) (by omega) hcount
  rw [hsum]
  exact inetCksumFinish_succ_ne hlt

/-! ## Exactly when -/

variable {af : Af} {host : FakeHost af} {ttl : UInt8}

theorem cut_ne (httl : ttl < 255) (hn : af.wire.errorLen ≤ n) (hmax : n ≤ 65535)
    (hcut : host.mtu.toNat < len) (hmtu : host.mtu.toNat < af.wire.icmp) :
    ∃ a m m', a + 2 ≤ n ∧ Agree n m m' ∧
      load16 (host.replyOf ttl m' len).packet a ≠ load16 (host.replyOf ttl m len).packet a := by
  obtain ⟨j, hj, hle⟩ : ∃ j, n ≤ af.wire.icmp + 2 * j ∧ j ≤ 32768 :=
    ⟨(n + 1 - af.wire.icmp) / 2, by omega, by omega⟩
  have hagree := agree_set_of_le host.echoTo 1 hj
  have hdecide := Prod.mk.inj (readsBelow_outcomeOf host ttl hn _ _ hagree)
  have ho : host.outcomeOf ttl host.echoTo = .echoReply := outcomeOf_echoTo
  rw [ho, echoTo_ttl] at hdecide
  obtain ⟨httl', ho'⟩ := hdecide
  have hbehind (i : ℕ) (hi : af.wire.icmp + 2 * j ≤ i) : host.echoTo i = 0 :=
    echoTo_behind (by omega)
  have hlive : ttl < host.echoTo af.wire.ttl := by rwa [echoTo_ttl]
  have hlive' : ttl < set host.echoTo (af.wire.icmp + 2 * j) 1 af.wire.ttl := by rwa [← httl']
  cases af
  · change 56 ≤ n at hn
    change n ≤ 20 + 2 * j at hj
    refine ⟨22, _, _, by omega, hagree, ?_⟩
    rw [FakeHost.replyOf, FakeHost.reply_echoReply hlive ho,
      FakeHost.reply_echoReply hlive' ho'.symm, if_neg (by omega), if_neg (by omega)]
    exact FakeHost.cut_behind host ttl hbehind (by omega) hle hmtu
  · change 96 ≤ n at hn
    change n ≤ 40 + 2 * j at hj
    refine ⟨42, _, _, by omega, hagree, ?_⟩
    rw [FakeHost.replyOf, FakeHost6.reply_echoReply hlive ho,
      FakeHost6.reply_echoReply hlive' ho'.symm, if_neg (by omega), if_neg (by omega)]
    exact FakeHost6.cut_behind host ttl hbehind (by omega) hle hmtu

/-- **Exactly when** a reply function keeps to its buffer, for every packet in it: unless a reply is
cut to an MTU that does not hold a header. -/
theorem within_replyOf_iff (httl : ttl < 255) (hn : af.wire.errorLen ≤ n) (hmax : n ≤ 65535)
    (hlen : len ≤ n) : WithinBuffer n (fun m => host.replyOf ttl m len) ↔
      (host.mtu.toNat < len → af.wire.icmp ≤ host.mtu.toNat) := by
  constructor
  · intro h hcut
    by_contra hmtu
    obtain ⟨a, m, m', ha, hagree, hne⟩ := cut_ne httl hn hmax hcut (Nat.not_le.mp hmtu)
    exact hne (readsBelow_load16 ha _ _ (h.packet.agree m m' hagree)).symm
  · intro h
    refine within_replyOf hn hlen ?_
    by_cases hcut : host.mtu.toNat < len
    · exact .inr (h hcut)
    · exact .inl (Nat.not_lt.mp hcut)

theorem within_replyOf_iff_ping : WithinBuffer 65535
    (fun m => (⟨64, 1500, .v4 10 0 0 1⟩ : FakeHost .inet).replyOf 0 m 65535) ↔
      (1500 < 65535 → 20 ≤ 1500) :=
  within_replyOf_iff (by decide) (by decide) (by decide) (by decide)

end Rdnstun
