import Rdnstun.Host.Wire
import Rdnstun.Lib.Confine

/-!
# Replies in a buffer

A reply is built in the buffer that the packet was read into. The parts of a reply function are
transformers of memory that are confined to the buffer, if it holds an error message and the MTU
of the host holds a header; a cut echo reply is summed over `mtu - sizeof(header)` bytes, which is
a `size_t`.

* `confined_noAppend`, `confined_append`, `confined_patchEcho`, `confined_truncateEcho`: the parts.
* `WithinBuffer`: a reply function keeps to the buffer.
* **`within_replyOf`**: so does the reply function of each family.
-/

namespace Rdnstun

open Memory

variable {n a b c len : ℕ}

/-! ## Words and checksums -/

theorem confined_store16 (w : ℕ) (h : a + 2 ≤ n) : Confined n fun m => store16 m a w :=
  confined_write h

theorem readsBelow_load16 (h : a + 2 ≤ n) : ReadsBelow n fun m => load16 m a := by
  intro m m' hm
  dsimp only
  rw [load16, load16, hm a (by omega), hm (a + 1) (by omega)]

theorem readsBelow_inetCksumContinue (sum : ℕ) (h : a + c ≤ n) :
    ReadsBelow n fun m => inetCksumContinue sum m a c :=
  fun _ _ hm => inetCksumContinue_congr sum fun k hk => hm (a + k) (by omega)

theorem confined_inetCksumAt (append : Bool) (ha : a + 2 ≤ n) (h : b + c ≤ n) :
    Confined n fun m => inetCksumAt m a b c append := by
  have hsum := (readsBelow_inetCksumContinue 0 h).map fun sum =>
    inetCksumFinish (((if append then 0xffff else 0) + sum) % 2 ^ 32)
  exact (Confined.bind hsum fun w => confined_store16 w ha).comp (confined_store16 0 ha)

/-! ## IPv4 -/

namespace FakeHost

variable (self : FakeHost .inet) (ttl : UInt8)

theorem confined_noAppend (hn : 20 ≤ n) : Confined n (self.noAppend ttl) := by
  have hlen := self.addr.size_eq
  simp only [Af.size] at hlen
  have hheader := ((confined_write (l := self.addr.bytes) (a := 12) (by omega)).comp
    (confined_copy (a := 16) (b := 12) (k := 4) (by omega) (by omega))).comp
      (confined_set (a := 8) (self.ttl - ttl) (Nat.lt_of_lt_of_le (by decide) hn))
  exact (confined_inetCksumAt (a := 10) (b := 0) (c := 20) true (by omega) (by omega)).comp
    hheader

theorem confined_append (o : Outcome) (hn : 56 ≤ n) : Confined n (append o) := by
  have hquote := (confined_copy (a := 48) (b := 20) (k := 8) (by omega) (by omega)).comp
    (confined_copy (a := 28) (b := 0) (k := 20) (n := n) (by omega) (by omega))
  have hicmp := (confined_write (l := [0, 0, 0, 0]) (a := 24) (by simpa using by omega)).comp
    ((confined_set (a := 21) o.icmp.2 (by omega)).comp
      ((confined_set (a := 20) o.icmp.1 (by omega)).comp hquote))
  have hcksum := (confined_inetCksumAt (a := 22) (b := 20) (c := 36) false (by omega)
    (by omega)).comp hicmp
  exact (confined_store16 (a := 2) (htons 56) (by omega)).comp
    ((confined_set (a := 9) IPPROTO_ICMP (by omega)).comp hcksum)

theorem confined_patchEcho (hn : 24 ≤ n) : Confined n patchEcho := by
  have htype := (confined_set (a := 21) 0 (by omega)).comp
    (confined_set (a := 20) (n := n) ICMP_ECHOREPLY (by omega))
  have hcksum := (readsBelow_load16 (a := 22) (n := n) (by omega)).map fun w =>
    ((w + (8 - 0)) % 2 ^ 32 / 2 ^ 16 + (w + (8 - 0)) % 2 ^ 32 % 2 ^ 16) % 2 ^ 16
  exact (Confined.bind hcksum fun w => confined_store16 (a := 22) w (by omega)).comp htype

theorem confined_truncateEcho (hn : 24 ≤ n) (hlen : 20 ≤ len) (hle : len ≤ n)
    (hmax : len < 2 ^ 64) : Confined n (truncateEcho len) := by
  have htype := (confined_set (a := 21) 0 (by omega)).comp
    (confined_set (a := 20) (n := n) ICMP_ECHOREPLY (by omega))
  have hcount : 20 + (len + 2 ^ 64 - 20) % 2 ^ 64 ≤ n := by omega
  exact (confined_inetCksumAt (a := 22) false (by omega) hcount).comp
    ((confined_store16 (a := 2) (htons len) (by omega)).comp htype)

end FakeHost

/-! ## IPv6 -/

namespace FakeHost6

variable (self : FakeHost .inet6) (ttl : UInt8)

theorem confined_header (hn : 40 ≤ n) : Confined n (header self ttl) := by
  have hlen := self.addr.size_eq
  simp only [Af.size] at hlen
  exact ((confined_write (l := self.addr.bytes) (a := 8) (by omega)).comp
    (confined_copy (a := 24) (b := 8) (k := 16) (by omega) (by omega))).comp
      (confined_set (a := 7) (self.ttl - ttl) (by omega))

theorem confined_noAppend (hn : 44 ≤ n) (hlen : 40 ≤ len) (hle : len ≤ n) (hmax : len < 2 ^ 64) :
    Confined n fun m => noAppend self ttl m len false := by
  have hcount : 40 + (len + 2 ^ 64 - 40) % 2 ^ 64 ≤ n := by omega
  have hsum := (readsBelow_inetCksumContinue 0 (a := 8) (c := 32) (n := n) (by omega)).bind
    fun s => (readsBelow_load16 (a := 4) (n := n) (by omega)).bind
      fun w => (readsBelow_byte (k := 6) (n := n) (by omega)).bind
        fun p => (readsBelow_inetCksumContinue
          (((s + w) % 2 ^ 32 + htons p.toNat) % 2 ^ 32) hcount).map inetCksumFinish
  exact (Confined.bind hsum fun w => confined_store16 (a := 42) w (by omega)).comp
    ((confined_store16 (a := 42) 0 (by omega)).comp (confined_header self ttl (by omega)))

theorem confined_append (o : Outcome) (hn : 96 ≤ n) : Confined n (append o) := by
  have hquote := (confined_copy (a := 88) (b := 40) (k := 8) (by omega) (by omega)).comp
    (confined_copy (a := 48) (b := 0) (k := 40) (n := n) (by omega) (by omega))
  have hicmp := (confined_write (l := [0, 0, 0, 0]) (a := 44) (by simpa using by omega)).comp
    ((confined_set (a := 41) o.icmp6.2 (by omega)).comp
      ((confined_set (a := 40) o.icmp6.1 (by omega)).comp hquote))
  exact (confined_set (a := 6) IPPROTO_ICMPV6 (by omega)).comp
    ((confined_store16 (a := 4) (htons (96 - 40)) (by omega)).comp hicmp)

theorem confined_patchEcho (hn : 44 ≤ n) : Confined n patchEcho := by
  have htype := (confined_set (a := 41) 0 (by omega)).comp
    (confined_set (a := 40) (n := n) ICMP6_ECHO_REPLY (by omega))
  have hcksum := (readsBelow_load16 (a := 42) (n := n) (by omega)).map fun w =>
    ((w + (128 + 2 ^ 32 - 129)) % 2 ^ 32 / 2 ^ 16 + (w + (128 + 2 ^ 32 - 129)) % 2 ^ 32 % 2 ^ 16) %
      2 ^ 16
  exact (Confined.bind hcksum fun w => confined_store16 (a := 42) w (by omega)).comp htype

theorem confined_truncateEcho (len : ℕ) (hn : 42 ≤ n) : Confined n (truncateEcho len) := by
  have htype := (confined_set (a := 41) 0 (by omega)).comp
    (confined_set (a := 40) (n := n) ICMP6_ECHO_REPLY (by omega))
  exact (confined_store16 (a := 4) _ (by omega)).comp htype

end FakeHost6

/-! ## Reply functions -/

/-- A reply function keeps to a buffer of `n` bytes: so does what it makes of the packet, its
result and its length depend on the buffer only, and it says that no more is to be sent. -/
structure WithinBuffer (n : ℕ) (f : Mem → Reply) : Prop where
  packet : Confined n fun m => (f m).packet
  ret : ReadsBelow n fun m => (f m).ret
  len : ReadsBelow n fun m => (f m).len
  len_le : ∀ m, (f m).len ≤ n

theorem within_of_confined {f : Mem → Mem} (hf : Confined n f) (ret : ℕ) (hlen : len ≤ n) :
    WithinBuffer n fun m => ⟨ret, f m, len⟩ :=
  ⟨hf, fun _ _ _ => rfl, fun _ _ _ => rfl, fun _ => hlen⟩

/-- It is enough that the buffer decides which of such functions it is. -/
theorem WithinBuffer.of_local {f : Mem → Reply}
    (h : ∀ m, ∃ f', WithinBuffer n f' ∧ ∀ m', Agree n m m' → f m' = f' m') : WithinBuffer n f := by
  have hself (m : Mem) : Agree n m m := fun _ _ => rfl
  refine ⟨⟨fun m k hk => ?_, fun m m' hm => ?_⟩, fun m m' hm => ?_, fun m m' hm => ?_,
    fun m => ?_⟩ <;> obtain ⟨f', hf', heq⟩ := h m
  · rw [heq m (hself m)]
    exact hf'.packet.frame m k hk
  · rw [heq m (hself m), heq m' hm]
    exact hf'.packet.agree m m' hm
  · dsimp only
    rw [heq m (hself m), heq m' hm]
    exact hf'.ret m m' hm
  · dsimp only
    rw [heq m (hself m), heq m' hm]
    exact hf'.len m m' hm
  · rw [heq m (hself m)]
    exact hf'.len_le m

section Reply

variable {af : Af} {host : FakeHost af} {ttl : UInt8}

theorem readsBelow_outcomeOf (host : FakeHost af) (ttl : UInt8) (hn : af.wire.errorLen ≤ n) :
    ReadsBelow n fun m => (m af.wire.ttl, host.outcomeOf ttl m) := by
  intro m m' hm
  have httl := hm af.wire.ttl (Nat.lt_of_lt_of_le (by cases af <;> decide) hn)
  have hproto := hm af.wire.proto (Nat.lt_of_lt_of_le (by cases af <;> decide) hn)
  have hicmp := hm af.wire.icmp (Nat.lt_of_lt_of_le (by cases af <;> decide) hn)
  have hdst : Addr.load af m af.wire.dst = Addr.load af m' af.wire.dst :=
    Addr.ext_bytes (hm.read_eq (Nat.le_trans (by cases af <;> decide) hn))
  dsimp only
  rw [FakeHost.outcomeOf_eq, FakeHost.outcomeOf_eq, httl, hproto, hicmp, hdst]

theorem within_error (o : Outcome) (hn : af.wire.errorLen ≤ n) (hne : o ≠ .ignored)
    (hne' : o ≠ .echoReply) : ∃ f, WithinBuffer n f ∧ ∀ m, ttl < m af.wire.ttl →
      host.outcomeOf ttl m = o → host.replyOf ttl m len = f m := by
  cases af
  · change 56 ≤ n at hn
    exact ⟨_, within_of_confined ((FakeHost.confined_noAppend host ttl (by omega)).comp
      (FakeHost.confined_append o hn)) 0 hn,
      fun m httl ho => FakeHost.reply_append httl ho hne hne'⟩
  · change 96 ≤ n at hn
    exact ⟨_, within_of_confined ((FakeHost6.confined_noAppend host ttl (by omega) (by decide) hn
      (by decide)).comp (FakeHost6.confined_append o hn)) 0 hn,
      fun m httl ho => FakeHost6.reply_append httl ho hne hne'⟩

theorem within_echoReply (hn : af.wire.errorLen ≤ n) (hlen : len ≤ n)
    (hmtu : len ≤ host.mtu.toNat ∨ af.wire.icmp ≤ host.mtu.toNat) :
    ∃ f, WithinBuffer n f ∧ ∀ m, ttl < m af.wire.ttl →
      host.outcomeOf ttl m = .echoReply → host.replyOf ttl m len = f m := by
  have hmax := host.mtu.toNat_lt
  by_cases hcut : len ≤ host.mtu.toNat
  · cases af
    · change 56 ≤ n at hn
      exact ⟨_, within_of_confined ((FakeHost.confined_noAppend host ttl (by omega)).comp
        (FakeHost.confined_patchEcho (by omega))) 0 hlen,
        fun m httl ho => (FakeHost.reply_echoReply httl ho).trans (if_pos hcut)⟩
    · change 96 ≤ n at hn
      exact ⟨_, within_of_confined ((FakeHost6.confined_header host ttl (by omega)).comp
        (FakeHost6.confined_patchEcho (by omega))) 0 hlen,
        fun m httl ho => (FakeHost6.reply_echoReply httl ho).trans (if_pos hcut)⟩
  · replace hmtu := hmtu.resolve_left hcut
    cases af
    · change 56 ≤ n at hn
      change 20 ≤ host.mtu.toNat at hmtu
      exact ⟨_, within_of_confined ((FakeHost.confined_noAppend host ttl (by omega)).comp
        (FakeHost.confined_truncateEcho (by omega) hmtu (by omega) (by omega))) 0 (by omega),
        fun m httl ho => (FakeHost.reply_echoReply httl ho).trans (if_neg hcut)⟩
    · change 96 ≤ n at hn
      change 40 ≤ host.mtu.toNat at hmtu
      exact ⟨_, within_of_confined ((FakeHost6.confined_noAppend host ttl (by omega) hmtu
        (by omega) (by omega)).comp (FakeHost6.confined_truncateEcho _ (by omega))) 0 (by omega),
        fun m httl ho => (FakeHost6.reply_echoReply httl ho).trans (if_neg hcut)⟩

/-- **The reply function** of a host keeps to a buffer that holds an error message, whatever the
packet is, if no reply is cut or the MTU holds a header. -/
theorem within_replyOf (hn : af.wire.errorLen ≤ n) (hlen : len ≤ n)
    (hmtu : len ≤ host.mtu.toNat ∨ af.wire.icmp ≤ host.mtu.toNat) :
    WithinBuffer n fun m => host.replyOf ttl m len := by
  refine .of_local fun m => ?_
  have hdecide (m' : Mem) (hm : Agree n m m') :=
    Prod.mk.inj (readsBelow_outcomeOf host ttl hn m m' hm)
  by_cases httl : ttl < m af.wire.ttl
  · have hbranch (h : ∃ f, WithinBuffer n f ∧ ∀ m', ttl < m' af.wire.ttl →
        host.outcomeOf ttl m' = host.outcomeOf ttl m → host.replyOf ttl m' len = f m') :
        ∃ f, WithinBuffer n f ∧ ∀ m', Agree n m m' → host.replyOf ttl m' len = f m' := by
      obtain ⟨f, hf, heq⟩ := h
      refine ⟨f, hf, fun m' hm => heq m' ?_ (hdecide m' hm).2.symm⟩
      rwa [← (hdecide m' hm).1]
    refine hbranch ?_
    cases host.outcomeOf ttl m with
    | ignored => exact ⟨_, within_of_confined confined_id 0 (Nat.zero_le n),
        fun m' httl ho => FakeHost.replyOf_ignored httl ho⟩
    | echoReply => exact within_echoReply hn hlen hmtu
    | timeExceeded | hostUnreachable | portUnreachable =>
      exact within_error _ hn (by decide) (by decide)
  · refine ⟨_, within_of_confined confined_id 1 hlen, fun m' hm => FakeHost.replyOf_of_le ?_⟩
    rw [← (hdecide m' hm).1]
    exact UInt8.not_lt.mp httl

end Reply

end Rdnstun
