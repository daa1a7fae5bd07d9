import Rdnstun.Host.Model
import Rdnstun.Inet.Checksum

/-!
# The fields of a reply

Which bytes the parts of a reply function change, and what the fields of a reply hold.

* `noAppend`, `append`, `patchEcho`, `truncateEcho`: the bytes they keep and the fields they set,
  for each family.
* `reply_append`, `reply_echoReply`: the parts a reply is made of.
-/

namespace Rdnstun

open Memory

variable {pkt : Mem} {k : ℕ}

/-! ## IPv4 -/

namespace FakeHost

variable {self : FakeHost .inet} {ttl : UInt8}

theorem noAppend_def : self.noAppend ttl pkt =
    inetCksumAt (write (copy (set pkt 8 (self.ttl - ttl)) 16 12 4) 12 self.addr.bytes)
      10 0 20 true := rfl

theorem append_def (o : Outcome) : append o pkt =
    store16 (set (inetCksumAt (write (set (set (copy (copy pkt 28 0 20) 48 20 8) 20 o.icmp.1)
      21 o.icmp.2) 24 [0, 0, 0, 0]) 22 20 36 false) 9 IPPROTO_ICMP) 2 (htons 56) := rfl

theorem patchEcho_def : patchEcho pkt =
    (let m := set (set pkt 20 ICMP_ECHOREPLY) 21 0
     let checksum := (load16 m 22 + 8) % 2 ^ 32
     store16 m 22 ((checksum / 2 ^ 16 + checksum % 2 ^ 16) % 2 ^ 16)) := rfl

theorem truncateEcho_def {len : ℕ} : truncateEcho len pkt =
    inetCksumAt (store16 (set (set pkt 20 ICMP_ECHOREPLY) 21 0) 2 (htons len))
      22 20 ((len + 2 ^ 64 - 20) % 2 ^ 64) false := rfl

theorem noAppend_of_ne (hk : k < 8 ∨ k = 9 ∨ 20 ≤ k) : self.noAppend ttl pkt k = pkt k := by
  have hlen := self.addr.size_eq
  simp only [Af.size] at hlen
  rw [noAppend_def, inetCksumAt_of_ne _ _ _ (by omega) (by omega)]
  rcases hk with hk | rfl | hk
  · rw [write_of_lt _ (by omega), copy_of_lt _ _ (by omega), set_of_ne _ (by omega)]
  · rw [write_of_lt _ (by omega), copy_of_lt _ _ (by omega), set_of_ne _ (by omega)]
  · rw [write_of_ge (by omega), copy_of_ge _ (by omega), set_of_ne _ (by omega)]

theorem noAppend_ttl : self.noAppend ttl pkt Ip.ipTtl = self.ttl - ttl := by
  show self.noAppend ttl pkt 8 = _
  rw [noAppend_def, inetCksumAt_of_ne _ _ _ (by omega) (by omega),
    write_of_lt _ (by omega), copy_of_lt _ _ (by omega), set_self]

theorem noAppend_src : Addr.load .inet (self.noAppend ttl pkt) Ip.ipSrc = self.addr := by
  apply Addr.ext_bytes
  show read (self.noAppend ttl pkt) 12 4 = _
  rw [noAppend_def, read_congr fun i hi => inetCksumAt_of_ne _ _ _ (by omega) (by omega)]
  exact read_write _ _ self.addr.size_eq

theorem noAppend_dst :
    Addr.load .inet (self.noAppend ttl pkt) Ip.ipDst = Addr.load .inet pkt Ip.ipSrc := by
  have hlen := self.addr.size_eq
  apply Addr.ext_bytes
  simp only [Af.size] at hlen
  show read (self.noAppend ttl pkt) 16 4 = read pkt 12 4
  refine read_congr fun i hi => ?_
  rw [noAppend_def, inetCksumAt_of_ne _ _ _ (by omega) (by omega),
    write_of_ge (by omega), copy_at _ _ _ hi, set_of_ne _ (by omega)]

theorem append_of_lt (o : Outcome) (hk : k < 20) (hp : k ≠ 9) (h₂ : k ≠ 2) (h₃ : k ≠ 3) :
    append o pkt k = pkt k := by
  rw [append_def, store16_of_ne _ h₂ h₃, set_of_ne _ hp, inetCksumAt_of_ne _ _ _ (by omega)
    (by omega), write_of_lt _ (by omega), set_of_ne _ (by omega), set_of_ne _ (by omega),
    copy_of_lt _ _ (by omega), copy_of_lt _ _ (by omega)]

theorem append_type (o : Outcome) : append o pkt Ip.icmpType = o.icmp.1 := by
  show append o pkt 20 = _
  rw [append_def, store16_of_ne _ (by omega) (by omega), set_of_ne _ (by omega),
    inetCksumAt_of_ne _ _ _ (by omega) (by omega), write_of_lt _ (by omega),
    set_of_ne _ (by omega), set_self]

theorem append_code (o : Outcome) : append o pkt Ip.icmpCode = o.icmp.2 := by
  show append o pkt 21 = _
  rw [append_def, store16_of_ne _ (by omega) (by omega), set_of_ne _ (by omega),
    inetCksumAt_of_ne _ _ _ (by omega) (by omega), write_of_lt _ (by omega), set_self]

theorem append_proto (o : Outcome) : append o pkt Ip.ipP = IPPROTO_ICMP := by
  show append o pkt 9 = _
  rw [append_def, store16_of_ne _ (by omega) (by omega), set_self]

theorem append_quote (o : Outcome) (hk : k < 28) : append o pkt (28 + k) = pkt k := by
  rw [append_def, store16_of_ne _ (by omega) (by omega), set_of_ne _ (by omega),
    inetCksumAt_of_ne _ _ _ (by omega) (by omega),
    write_of_ge (by simp only [List.length_cons, List.length_nil]; omega), set_of_ne _ (by omega),
    set_of_ne _ (by omega)]
  by_cases hdata : k < 20
  · rw [copy_of_lt _ _ (by omega), copy_at _ _ _ hdata, Nat.zero_add]
  · obtain ⟨j, rfl⟩ : ∃ j, k = 20 + j := ⟨k - 20, by omega⟩
    rw [show 28 + (20 + j) = 48 + j by omega, copy_at _ _ _ (by omega), copy_of_lt _ _ (by omega)]

theorem append_unused (o : Outcome) (hk : k < 4) : append o pkt (24 + k) = 0 := by
  rw [append_def, store16_of_ne _ (by omega) (by omega), set_of_ne _ (by omega),
    inetCksumAt_of_ne _ _ _ (by omega) (by omega), write_at _ _ hk]
  exact (List.mem_replicate (n := 4)).mp (List.getElem_mem hk) |>.2

theorem patchEcho_of_ne (hk : k < 20 ∨ 24 ≤ k) : patchEcho pkt k = pkt k := by
  rw [patchEcho_def, store16_of_ne _ (by omega) (by omega), set_of_ne _ (by omega),
    set_of_ne _ (by omega)]

theorem patchEcho_type : patchEcho pkt Ip.icmpType = ICMP_ECHOREPLY := by
  show patchEcho pkt 20 = _
  rw [patchEcho_def, store16_of_ne _ (by omega) (by omega), set_of_ne _ (by omega), set_self]

theorem patchEcho_code : patchEcho pkt Ip.icmpCode = 0 := by
  show patchEcho pkt 21 = _
  rw [patchEcho_def, store16_of_ne _ (by omega) (by omega), set_self]

theorem truncateEcho_of_ne {len : ℕ} (hk : k < 20 ∨ 24 ≤ k) (h₂ : k ≠ 2) (h₃ : k ≠ 3) :
    truncateEcho len pkt k = pkt k := by
  rw [truncateEcho_def, inetCksumAt_of_ne _ _ _ (by omega) (by omega),
    store16_of_ne _ h₂ h₃, set_of_ne _ (by omega), set_of_ne _ (by omega)]

theorem truncateEcho_type {len : ℕ} : truncateEcho len pkt Ip.icmpType = ICMP_ECHOREPLY := by
  show truncateEcho len pkt 20 = _
  rw [truncateEcho_def, inetCksumAt_of_ne _ _ _ (by omega) (by omega),
    store16_of_ne _ (by omega) (by omega), set_of_ne _ (by omega), set_self]

theorem truncateEcho_code {len : ℕ} : truncateEcho len pkt Ip.icmpCode = 0 := by
  show truncateEcho len pkt 21 = _
  rw [truncateEcho_def, inetCksumAt_of_ne _ _ _ (by omega) (by omega),
    store16_of_ne _ (by omega) (by omega), set_self]

theorem reply_append {o : Outcome} {len : ℕ} (h : ttl < pkt Ip.ipTtl)
    (ho : self.outcome ttl pkt = o) (hne : o ≠ .ignored) (hne' : o ≠ .echoReply) :
    self.reply ttl pkt len = ⟨0, self.noAppend ttl (append o pkt), Ip.sizeofIpicmp⟩ := by
  rw [reply, if_pos h, ho]
  cases o
  · rfl
  · rfl
  · rfl
  · exact absurd rfl hne
  · exact absurd rfl hne'

theorem reply_echoReply {len : ℕ} (h : ttl < pkt Ip.ipTtl)
    (ho : self.outcome ttl pkt = .echoReply) : self.reply ttl pkt len =
      if len ≤ self.mtu.toNat then ⟨0, self.noAppend ttl (patchEcho pkt), len⟩
      else ⟨0, self.noAppend ttl (truncateEcho self.mtu.toNat pkt), self.mtu.toNat⟩ := by
  rw [reply, if_pos h, ho]

end FakeHost

/-! ## IPv6 -/

namespace FakeHost6

variable {self : FakeHost .inet6} {ttl : UInt8} {len : ℕ} {checksumOk : Bool}

/-- The packet with the fields of the new IP header, before the checksum. -/
def header (self : FakeHost .inet6) (ttl : UInt8) (pkt : Mem) : Mem :=
  write (copy (set pkt 7 (self.ttl - ttl)) 24 8 16) 8 self.addr.bytes

theorem noAppend_def : noAppend self ttl pkt len checksumOk =
    (if checksumOk then header self ttl pkt
     else
      let m := store16 (header self ttl pkt) 42 0
      let sum := inetCksumContinue 0 m 8 32
      let sum := (sum + load16 m 4) % 2 ^ 32
      let sum := (sum + htons (m 6).toNat) % 2 ^ 32
      let sum := inetCksumContinue sum m 40 ((len + 2 ^ 64 - 40) % 2 ^ 64)
      store16 m 42 (inetCksumFinish sum)) := rfl

theorem append_def (o : Outcome) : append o pkt =
    set (store16 (write (set (set (copy (copy pkt 48 0 40) 88 40 8) 40 o.icmp6.1) 41 o.icmp6.2)
      44 [0, 0, 0, 0]) 4 (htons 56)) 6 IPPROTO_ICMPV6 := rfl

theorem patchEcho_def : patchEcho pkt =
    (let m := set (set pkt 40 ICMP6_ECHO_REPLY) 41 0
     let checksum := (load16 m 42 + (2 ^ 32 - 1)) % 2 ^ 32
     store16 m 42 ((checksum / 2 ^ 16 + checksum % 2 ^ 16) % 2 ^ 16)) := rfl

theorem truncateEcho_def : truncateEcho len pkt =
    store16 (set (set pkt 40 ICMP6_ECHO_REPLY) 41 0) 4
      (htons ((len + 2 ^ 64 - 40) % 2 ^ 16)) := rfl

theorem noAppend_eq_header (h₀ : k ≠ 42) (h₁ : k ≠ 43) :
    noAppend self ttl pkt len checksumOk k = header self ttl pkt k := by
  cases checksumOk
  · rw [noAppend_def, if_neg Bool.false_ne_true, store16_of_ne _ h₀ h₁, store16_of_ne _ h₀ h₁]
  · rfl

theorem header_of_ne (hk : k < 7 ∨ 40 ≤ k) : header self ttl pkt k = pkt k := by
  have hlen := self.addr.size_eq
  simp only [Af.size] at hlen
  rw [header]
  rcases hk with hk | hk
  · rw [write_of_lt _ (by omega), copy_of_lt _ _ (by omega), set_of_ne _ (by omega)]
  · rw [write_of_ge (by omega), copy_of_ge _ (by omega), set_of_ne _ (by omega)]

theorem noAppend_of_ne (hk : k < 7 ∨ 40 ≤ k) (h₀ : k ≠ 42) (h₁ : k ≠ 43) :
    noAppend self ttl pkt len checksumOk k = pkt k := by
  rw [noAppend_eq_header h₀ h₁, header_of_ne hk]

theorem noAppend_hlim :
    noAppend self ttl pkt len checksumOk Ip6.ip6Hlim = self.ttl - ttl := by
  show noAppend self ttl pkt len checksumOk 7 = _
  rw [noAppend_eq_header (by omega) (by omega), header, write_of_lt _ (by omega),
    copy_of_lt _ _ (by omega), set_self]

theorem noAppend_src :
    Addr.load .inet6 (noAppend self ttl pkt len checksumOk) Ip6.ip6Src = self.addr := by
  apply Addr.ext_bytes
  show read (noAppend self ttl pkt len checksumOk) 8 16 = _
  rw [read_congr fun i hi => noAppend_eq_header (by omega) (by omega)]
  exact read_write _ _ self.addr.size_eq

theorem noAppend_dst :
    Addr.load .inet6 (noAppend self ttl pkt len checksumOk) Ip6.ip6Dst =
      Addr.load .inet6 pkt Ip6.ip6Src := by
  have hlen := self.addr.size_eq
  apply Addr.ext_bytes
  simp only [Af.size] at hlen
  show read (noAppend self ttl pkt len checksumOk) 24 16 = read pkt 8 16
  refine read_congr fun i hi => ?_
  rw [noAppend_eq_header (by omega) (by omega), header, write_of_ge (by omega), copy_at _ _ _ hi,
    set_of_ne _ (by omega)]

theorem append_of_lt (o : Outcome) (hk : k < 40) (h₄ : k ≠ 4) (h₅ : k ≠ 5) (h₆ : k ≠ 6) :
    append o pkt k = pkt k := by
  rw [append_def, set_of_ne _ h₆, store16_of_ne _ h₄ h₅, write_of_lt _ (by omega),
    set_of_ne _ (by omega), set_of_ne _ (by omega), copy_of_lt _ _ (by omega),
    copy_of_lt _ _ (by omega)]

theorem append_type (o : Outcome) : append o pkt Ip6.icmp6Type = o.icmp6.1 := by
  show append o pkt 40 = _
  rw [append_def, set_of_ne _ (by omega), store16_of_ne _ (by omega) (by omega),
    write_of_lt _ (by omega), set_of_ne _ (by omega), set_self]

theorem append_code (o : Outcome) : append o pkt Ip6.icmp6Code = o.icmp6.2 := by
  show append o pkt 41 = _
  rw [append_def, set_of_ne _ (by omega), store16_of_ne _ (by omega) (by omega),
    write_of_lt _ (by omega), set_self]

theorem append_proto (o : Outcome) : append o pkt Ip6.ip6Nxt = IPPROTO_ICMPV6 := by
  show append o pkt 6 = _
  rw [append_def, set_self]

theorem append_quote (o : Outcome) (hk : k < 48) : append o pkt (48 + k) = pkt k := by
  rw [append_def, set_of_ne _ (by omega), store16_of_ne _ (by omega) (by omega),
    write_of_ge (by simp only [List.length_cons, List.length_nil]; omega), set_of_ne _ (by omega),
    set_of_ne _ (by omega)]
  by_cases hdata : k < 40
  · rw [copy_of_lt _ _ (by omega), copy_at _ _ _ hdata, Nat.zero_add]
  · obtain ⟨j, rfl⟩ : ∃ j, k = 40 + j := ⟨k - 40, by omega⟩
    rw [show 48 + (40 + j) = 88 + j by omega, copy_at _ _ _ (by omega), copy_of_lt _ _ (by omega)]

theorem append_unused (o : Outcome) (hk : k < 4) : append o pkt (44 + k) = 0 := by
  rw [append_def, set_of_ne _ (by omega), store16_of_ne _ (by omega) (by omega), write_at _ _ hk]
  exact (List.mem_replicate (n := 4)).mp (List.getElem_mem hk) |>.2

theorem patchEcho_of_ne (hk : k < 40 ∨ 44 ≤ k) : patchEcho pkt k = pkt k := by
  rw [patchEcho_def, store16_of_ne _ (by omega) (by omega), set_of_ne _ (by omega),
    set_of_ne _ (by omega)]

theorem patchEcho_type : patchEcho pkt Ip6.icmp6Type = ICMP6_ECHO_REPLY := by
  show patchEcho pkt 40 = _
  rw [patchEcho_def, store16_of_ne _ (by omega) (by omega), set_of_ne _ (by omega), set_self]

theorem patchEcho_code : patchEcho pkt Ip6.icmp6Code = 0 := by
  show patchEcho pkt 41 = _
  rw [patchEcho_def, store16_of_ne _ (by omega) (by omega), set_self]

theorem truncateEcho_of_ne (hk : k < 40 ∨ 42 ≤ k) (h₄ : k ≠ 4) (h₅ : k ≠ 5) :
    truncateEcho len pkt k = pkt k := by
  rw [truncateEcho_def, store16_of_ne _ h₄ h₅, set_of_ne _ (by omega), set_of_ne _ (by omega)]

theorem truncateEcho_type : truncateEcho len pkt Ip6.icmp6Type = ICMP6_ECHO_REPLY := by
  show truncateEcho len pkt 40 = _
  rw [truncateEcho_def, store16_of_ne _ (by omega) (by omega), set_of_ne _ (by omega), set_self]

theorem truncateEcho_code : truncateEcho len pkt Ip6.icmp6Code = 0 := by
  show truncateEcho len pkt 41 = _
  rw [truncateEcho_def, store16_of_ne _ (by omega) (by omega), set_self]

theorem reply_append {o : Outcome} (h : ttl < pkt Ip6.ip6Hlim)
    (ho : outcome self ttl pkt = o) (hne : o ≠ .ignored) (hne' : o ≠ .echoReply) :
    reply self ttl pkt len =
      ⟨0, noAppend self ttl (append o pkt) Ip6.sizeofIpicmp6 false, Ip6.sizeofIpicmp6⟩ := by
  rw [reply, if_pos h, ho]
  cases o
  · rfl
  · rfl
  · rfl
  · exact absurd rfl hne
  · exact absurd rfl hne'

theorem reply_echoReply (h : ttl < pkt Ip6.ip6Hlim) (ho : outcome self ttl pkt = .echoReply) :
    reply self ttl pkt len =
      if len ≤ self.mtu.toNat then ⟨0, noAppend self ttl (patchEcho pkt) len true, len⟩
      else ⟨0, noAppend self ttl (truncateEcho self.mtu.toNat pkt) self.mtu.toNat false,
        self.mtu.toNat⟩ := by
  rw [reply, if_pos h, ho]

end FakeHost6

end Rdnstun
