import Rdnstun.Host.Echo
import Rdnstun.Host.Fragment
import Rdnstun.Main.Traffic

/-!
# Valid datagrams

* `Valid`: a whole datagram without IP options whose length and checksums are right, and whose code
  is zero if it is an echo request.
* `valid_error`, `valid_echo`: an error message and an echo reply to a valid datagram are valid.
* **`valid_replyOf`**: so is every reply of a host.
* **`service_valid`**: in every interleaving what a thread writes for a valid datagram is valid.
-/

namespace Rdnstun

open Memory Run

variable {af : Af} {a : Main} {p : Received} {pkt : Mem} {len k : ℕ} {bytes : List UInt8}

/-- The bytes that the length field does not count. -/
def Af.uncounted : Af → ℕ
  | .inet => 0
  | .inet6 => Ip6.sizeofIp6Hdr

/-- The bytes of the header that every reply keeps: the version and, in IPv4, the fragment. -/
def HeaderKept (af : Af) (k : ℕ) : Prop := k = 0 ∨ af = .inet ∧ (k = 6 ∨ k = 7)

/-- The `len` bytes are a valid datagram. -/
structure Valid (af : Af) (pkt : Mem) (len : ℕ) : Prop where
  version : ipV pkt = af.ipver
  header : af = .inet → ipHl pkt = 5 ∧ SumsToOnes pkt 0 10
  whole : af = .inet → fragmentOffset pkt = 0 ∧ ¬ MoreFragments pkt
  length : word16 pkt af.lengthField + af.uncounted = len
  size : af.wire.icmp + 8 ≤ len
  icmp : pkt af.wire.proto = af.wire.icmpProto → IcmpVerifies af pkt len
  code : pkt af.wire.proto = af.wire.icmpProto → pkt af.wire.icmp = af.wire.echo →
    pkt (af.wire.icmp + 1) = 0

/-- An echo request from `192.0.2.1` to `10.0.0.1`. -/
example : Valid .inet (fun k =>
    [0x45, 0, 0, 28, 0, 0, 0, 0, 64, 1, 0xae, 0xdf, 192, 0, 2, 1, 10, 0, 0, 1, 8, 0, 0xf7,
      0xff].getD k 0) 28 where
  version := by decide
  header _ := by decide
  whole _ := by decide
  length := by decide
  size := by decide
  icmp _ := by decide
  code _ _ := by decide

/-! ## Hosts -/

section Hosts

variable {self : FakeHost af} {ttl : UInt8}

/-- **What every reply keeps** of the header. -/
theorem FakeHost.replyOf_kept (h : ttl < pkt af.wire.ttl) (ho : self.outcomeOf ttl pkt ≠ .ignored)
    (hk : HeaderKept af k) : (self.replyOf ttl pkt len).packet k = pkt k := by
  cases af with
  | inet =>
    have hk' : k < 8 ∧ k ≠ 2 ∧ k ≠ 3 := by
      rcases hk with rfl | ⟨-, rfl | rfl⟩ <;> omega
    obtain ⟨hlt, h₂, h₃⟩ := hk'
    by_cases hecho : self.outcomeOf ttl pkt = .echoReply
    · rw [replyOf, reply_echoReply h hecho]
      split_ifs
      · exact (noAppend_of_ne (.inl hlt)).trans (patchEcho_of_ne (by omega))
      · exact (noAppend_of_ne (.inl hlt)).trans (truncateEcho_of_ne (by omega) h₂ h₃)
    · rw [replyOf, reply_append h rfl ho hecho]
      exact (noAppend_of_ne (.inl hlt)).trans (append_of_lt _ (by omega) (by omega) h₂ h₃)
  | inet6 =>
    obtain rfl | ⟨h6, -⟩ := hk
    · by_cases hecho : self.outcomeOf ttl pkt = .echoReply
      · rw [replyOf, FakeHost6.reply_echoReply h hecho]
        split_ifs
        · show FakeHost6.noAppend self ttl (FakeHost6.patchEcho pkt) len true 0 = pkt 0
          rw [FakeHost6.noAppend_of_ne (by decide) (by decide) (by decide),
            FakeHost6.patchEcho_of_ne (by decide)]
        · show FakeHost6.noAppend self ttl (FakeHost6.truncateEcho self.mtu.toNat pkt)
            self.mtu.toNat false 0 = pkt 0
          rw [FakeHost6.noAppend_of_ne (by decide) (by decide) (by decide),
            FakeHost6.truncateEcho_of_ne (by decide) (by decide) (by decide)]
      · rw [replyOf, FakeHost6.reply_append h rfl ho hecho]
        show FakeHost6.noAppend self ttl (FakeHost6.append (FakeHost6.outcome self ttl pkt) pkt)
          Ip6.sizeofIpicmp6 false 0 = pkt 0
        rw [FakeHost6.noAppend_of_ne (by decide) (by decide) (by decide),
          FakeHost6.append_of_lt _ (by decide) (by decide) (by decide) (by decide)]
    · cases h6

/-- A reply to a valid datagram is one if its length and its checksums are right. -/
theorem Valid.replyOf (hv : Valid af pkt len) (h : ttl < pkt af.wire.ttl)
    (ho : self.outcomeOf ttl pkt ≠ .ignored)
    (hsum : af = .inet → SumsToOnes (self.replyOf ttl pkt len).packet 0 10)
    (hlength : word16 (self.replyOf ttl pkt len).packet af.lengthField + af.uncounted =
      (self.replyOf ttl pkt len).len)
    (hsize : af.wire.icmp + 8 ≤ (self.replyOf ttl pkt len).len)
    (hicmp : IcmpVerifies af (self.replyOf ttl pkt len).packet (self.replyOf ttl pkt len).len) :
    Valid af (self.replyOf ttl pkt len).packet (self.replyOf ttl pkt len).len where
  version := by
    rw [ipV, FakeHost.replyOf_kept h ho (.inl rfl)]
    exact hv.version
  header haf := by
    rw [ipHl, FakeHost.replyOf_kept h ho (.inl rfl)]
    exact ⟨(hv.header haf).1, hsum haf⟩
  whole haf := by
    have h₆ : (self.replyOf ttl pkt len).packet 6 = pkt 6 :=
      FakeHost.replyOf_kept h ho (.inr ⟨haf, .inl rfl⟩)
    have h₇ : (self.replyOf ttl pkt len).packet 7 = pkt 7 :=
      FakeHost.replyOf_kept h ho (.inr ⟨haf, .inr rfl⟩)
    rw [fragmentOffset_congr h₆ h₇, moreFragments_congr h₆]
    exact hv.whole haf
  length := hlength
  size := hsize
  icmp _ := hicmp
  code _ htype := by
    have hans : FakeHost.Answered self ttl pkt len _ _ := FakeHost.replyOf_answered h ho
    exact absurd (hans.type.symm.trans htype) (typeCode_ne_echo _ af)

/-- **An error message** for a valid datagram is valid. -/
theorem valid_error (hv : Valid af pkt len) (h : ttl < pkt af.wire.ttl)
    (ho : self.outcomeOf ttl pkt ≠ .ignored) (hecho : self.outcomeOf ttl pkt ≠ .echoReply) :
    Valid af (self.replyOf ttl pkt len).packet (self.replyOf ttl pkt len).len := by
  have hmessage : ErrorMessage pkt af (self.replyOf ttl pkt len) := by
    cases af
    · rw [FakeHost.replyOf, FakeHost.reply_append h rfl ho hecho]
      exact FakeHost.errorMessage_append _ (hv.header rfl).1
    · rw [FakeHost.replyOf, FakeHost6.reply_append h rfl ho hecho]
      exact FakeHost6.errorMessage_append _
  have hsize := hmessage.size
  have hlen := hmessage.len
  refine hv.replyOf h ho hmessage.header ?_ (by omega) hmessage.icmp
  rw [hmessage.length, hlen]
  cases af <;> rfl

theorem Valid.verifiedEcho (hv : Valid af pkt len) (hmax : len < 65536)
    (hmtu : af.wire.icmp + 8 ≤ self.mtu.toNat) (h : ttl < pkt af.wire.ttl)
    (ho : self.outcomeOf ttl pkt = .echoReply) : VerifiedEcho self ttl pkt len := by
  rw [FakeHost.outcomeOf_eq] at ho
  split_ifs at ho with _ haddr hproto htype
  refine ⟨h, haddr, hproto, not_not.mp htype, hv.size, hmax, ?_, hv.icmp hproto, hmtu⟩
  rintro rfl
  exact Nat.eq_sub_of_add_eq hv.length

theorem FakeHost6.reply_plen {self : FakeHost .inet6} (hv : Valid .inet6 pkt len)
    (hmtu : 48 ≤ self.mtu.toNat) (h : ttl < pkt Ip6.ip6Hlim)
    (ho : outcome self ttl pkt = .echoReply) :
    word16 (reply self ttl pkt len).packet Ip6.ip6Plen + Ip6.sizeofIp6Hdr =
      (reply self ttl pkt len).len := by
  rw [reply_echoReply h ho]
  split_ifs
  · show word16 (noAppend self ttl (patchEcho pkt) len true) 4 + _ = len
    rw [word16_congr (noAppend_of_ne (by decide) (by decide) (by decide))
      (noAppend_of_ne (by decide) (by decide) (by decide)),
      word16_congr (patchEcho_of_ne (by decide)) (patchEcho_of_ne (by decide))]
    exact hv.length
  · show word16 (noAppend self ttl (truncateEcho self.mtu.toNat pkt) self.mtu.toNat false) 4 + _ =
      self.mtu.toNat
    have hsize : Ip6.sizeofIp6Hdr = 40 := rfl
    have hplen : word16 (truncateEcho self.mtu.toNat pkt) 4 = self.mtu.toNat - Ip6.sizeofIp6Hdr :=
      truncateEcho_plen (by omega) self.mtu.toNat_lt
    rw [word16_congr (noAppend_of_ne (by decide) (by decide) (by decide))
      (noAppend_of_ne (by decide) (by decide) (by decide)), hplen]
    omega

/-- **An echo reply** to a valid request is valid. -/
theorem valid_echo (hv : Valid af pkt len) (hmax : len < 65536)
    (hmtu : af.wire.icmp + 8 ≤ self.mtu.toNat) (h : ttl < pkt af.wire.ttl)
    (ho : self.outcomeOf ttl pkt = .echoReply) :
    Valid af (self.replyOf ttl pkt len).packet (self.replyOf ttl pkt len).len := by
  have hecho := hv.verifiedEcho hmax hmtu h ho
  have hcode := hv.code hecho.proto hecho.type
  have hne : self.outcomeOf ttl pkt ≠ .ignored := by
    rw [ho]
    decide
  have hans : FakeHost.Answered self ttl pkt len _ _ := FakeHost.replyOf_answered h hne
  have hsize : af.wire.icmp + 8 ≤ (self.replyOf ttl pkt len).len := by
    rw [hans.len, if_pos ho]
    exact le_min hv.size hmtu
  cases af with
  | inet =>
    obtain ⟨hhl, -⟩ := hv.header rfl
    have hlength : word16 pkt Ip.ipLen = len := (Nat.add_zero _).symm.trans hv.length
    have hwell := FakeHost.wellFormed_reply hv.version hhl hlength hv.size hmtu h hne
    have hkept : (self.replyOf ttl pkt len).packet 0 = pkt 0 :=
      FakeHost.replyOf_kept h hne (.inl rfl)
    have hhl' : ipHl (self.replyOf ttl pkt len).packet = 5 := by rw [ipHl, hkept, ← ipHl, hhl]
    have hsum := hwell.checksum
    change SumsToOnes _ 0 (2 * ipHl (self.replyOf ttl pkt len).packet) at hsum
    rw [hhl'] at hsum
    exact hv.replyOf h hne (fun _ => hsum) ((Nat.add_zero _).trans hwell.length) hsize
      ((FakeHost.icmpVerifies_reply_iff hecho).mpr (.inl hcode))
  | inet6 =>
    exact hv.replyOf h hne (fun haf => by cases haf) (FakeHost6.reply_plen hv hmtu h ho) hsize
      ((FakeHost6.icmpVerifies_reply_iff hecho).mpr (.inl hcode))

/-- **A reply** of a host to a valid datagram is valid. -/
theorem valid_replyOf (hv : Valid af pkt len) (hmax : len < 65536)
    (hmtu : af.wire.icmp + 8 ≤ self.mtu.toNat) (h : ttl < pkt af.wire.ttl)
    (ho : self.outcomeOf ttl pkt ≠ .ignored) :
    Valid af (self.replyOf ttl pkt len).packet (self.replyOf ttl pkt len).len := by
  by_cases hecho : self.outcomeOf ttl pkt = .echoReply
  · exact valid_echo hv hmax hmtu h hecho
  · exact valid_error hv h ho hecho

end Hosts

/-! ## The service -/

/-- What was read is a valid datagram. -/
def Received.Valid (p : Received) : Prop := ∃ af, Rdnstun.Valid af p.packet p.len

theorem ipver_injective {af af' : Af} (h : af.ipver = af'.ipver) : af = af' := by
  cases af <;> cases af' <;> first | rfl | cases h

/-- **An answer** to a valid datagram is valid. -/
theorem valid_answer (hmtu : ∀ af, ∀ c ∈ a.chains af, ∀ h ∈ c.hosts, minMtu af ≤ h.mtu.toNat)
    (hmax : p.len ≤ IP_MAXPACKET) (hp : p.Valid) (h : answer a.args p = some bytes) :
    ∃ q : Received, q.Valid ∧ bytes = read q.packet 0 q.len := by
  obtain ⟨af, self, hver, hself, hreply⟩ := answer_eq_some.mp h
  obtain rfl := Main.args_eq_some hself
  obtain ⟨af', hvalid⟩ := hp
  obtain rfl := ipver_injective (hver.symm.trans hvalid.version)
  have hlt : p.len < 2 ^ 16 := Nat.lt_succ_of_le hmax
  have hmin : af.wire.icmp + 8 ≤ minMtu af := by cases af <;> decide
  rw [Nat.mod_eq_of_lt hlt] at hreply
  obtain ⟨k, c, hit, hresp, ho, rfl⟩ := exists_replyOf hreply
  have hmtu' := hmin.trans (hresp.of_forall (hmtu af))
  exact ⟨⟨_, _⟩, ⟨af, valid_replyOf hvalid hlt hmtu' hresp.index_lt ho⟩, rfl⟩

section Launch

variable {opts : List AllocOpt} {m : Machine}
  {qsort : (af : Af) → List (Option (Entry af)) → List (Option (Entry af))}

/-- **Validity.** After options that are carried out, in every interleaving what a thread writes is
a valid datagram if that which it read last is one. -/
theorem service_valid (hrun : run Machine.step .start opts = .ok m) (hsort : Sorts qsort)
    (s : Setup) :
    ∃ d₀ : Daemon, m.launch qsort s = .ok d₀ ∧ ∀ l i bytes n d,
      run Daemon.step d₀ (l ++ [.thread i (.write bytes n)]) = .ok d →
        (∀ p, (Daemon.receivedBy i l).getLast? = some p → p.Valid) →
          ∃ q : Received, q.Valid ∧ bytes = read q.packet 0 q.len := by
  obtain ⟨a, sorted, hbuild, hsorted, hlaunch⟩ := launch_ok hrun hsort
  obtain ⟨m', fds, tunfds, hd₀, hinv, -⟩ := hlaunch s
  refine ⟨_, hd₀, fun l i bytes n d hl hvalid => ?_⟩
  have hpoll := thread_start m' fds tunfds s.daemon i
  obtain ⟨p, hlast, hanswer⟩ := Daemon.last_received hinv hpoll hl
  obtain ⟨u, hl', -⟩ := run_append_ok.mp hl
  have hlen := received_len (hpoll ▸ Daemon.thread_run hinv hl' i) p (List.mem_of_getLast? hlast)
  exact valid_answer (fun af => minMtu_le_sorted hbuild (hsorted af)) hlen.2 (hvalid p hlast)
    hanswer

theorem service_valid_single : ∃ m, run Machine.step .start [Machine.optionSingle true] = .ok m ∧
    ∃ d₀ : Daemon, m.launch byPrefix twoThreads = .ok d₀ ∧ ∀ l i bytes n d,
      run Daemon.step d₀ (l ++ [.thread i (.write bytes n)]) = .ok d →
        (∀ p, (Daemon.receivedBy i l).getLast? = some p → p.Valid) →
          ∃ q : Received, q.Valid ∧ bytes = read q.packet 0 q.len := by
  obtain ⟨m, hrun⟩ := run_single
  exact ⟨m, hrun, service_valid hrun sorts_byPrefix twoThreads⟩

end Launch

end Rdnstun
