import Rdnstun.Array.Storm
import Rdnstun.Host.Datagram
import Rdnstun.Lib.Project
import Rdnstun.Main.Memory

/-!
# The loop of a thread

The model of `rdnstun`: a thread waits for a packet, looks at the flag, reads, builds the reply in
the buffer of the packet and writes it. What the kernel and the flag say comes with the events.

* `handle`: the `switch` over the IP version, with the labels that it jumps to.
* `Thread`, `Event`, `Thread.step`: where a thread is, and what happens there.
* `answer`: what is written for a packet, if anything.
* `handle_ret`: the errors that a reply can end with.
* **`sent_eq`**: a thread writes the answers to the packets it read, in their order.
-/

namespace Rdnstun

open Memory Run

/-- `v4_chains` and `v6_chains`; `none` is `NULL`. -/
abbrev Chains := (af : Af) → Option (List (HostChain af))

/-- How the `switch` over the IP version ends: before `write`, or at a label. -/
inductive Handled where
  | reply (packet : Mem) (len : ℕ)
  | undefinedIpver
  | failReply (ret : ℕ)
  | unknownIpver

/-- A reply function has returned. -/
def Handled.of (r : Reply) : Handled :=
  if r.ret ≠ 0 then .failReply r.ret else .reply r.packet r.len

/-- The `switch` over the IP version of a packet of `n` bytes. -/
def handle (chains : Chains) (packet : Mem) (n : ℕ) : Handled :=
  let pktSendLen := n % 2 ^ 16
  match ipV packet with
  | 4 =>
    match chains .inet with
    | none => .undefinedIpver
    | some v4Chains => .of (HostChain4Array.reply v4Chains packet pktSendLen)
  | 6 =>
    match chains .inet6 with
    | none => .undefinedIpver
    | some v6Chains => .of (HostChain6Array.reply v6Chains packet pktSendLen)
  | _ => .unknownIpver

/-- Where a thread is in the loop of `rdnstun`. -/
inductive Thread where
  | poll
  | polled (pollres : ℤ)
  | read
  | write (packet : Mem) (len : ℕ)
  | done

/-- What happens there: `poll` returns, the flag is looked at, `read` returns, with what the buffer
holds then, or some bytes are written. -/
inductive Event where
  | poll (pollres : ℤ)
  | test (shutdown : Bool)
  | read (pktReceiveLen : ℤ) (packet : Mem)
  | write (bytes : List UInt8) (nWrite : ℤ)

/-- Why a step is not taken: nothing of the kind happens there, or something undefined would. -/
inductive Halt where
  | blocked
  | fault (f : Fault)

namespace Thread

/-- A packet was read; only a reply that is not empty is written. -/
def next (chains : Chains) (packet : Mem) (n : ℕ) : Thread :=
  match handle chains packet n with
  | .reply packet len => if 0 < len then .write packet len else .poll
  | _ => .poll

/-- One step of a thread. -/
def step (chains : Chains) : Thread → Event → Except Halt Thread
  | .poll, .poll pollres => .ok (.polled pollres)
  | .polled pollres, .test shutdown =>
    .ok (if shutdown then .done else if 0 < pollres then .read else .poll)
  | .read, .read pktReceiveLen packet =>
    if pktReceiveLen ≤ IP_MAXPACKET then
      .ok (if 0 < pktReceiveLen then next chains packet pktReceiveLen.toNat else .poll)
    else .error .blocked
  | .write packet len, .write bytes _ =>
    if bytes = Memory.read packet 0 len then .ok .poll else .error .blocked
  | _, _ => .error .blocked

/-- The bytes that a thread is about to write. -/
def pending : Thread → Option (List UInt8)
  | .write packet len => some (Memory.read packet 0 len)
  | _ => none

end Thread

/-- The packet that is read. -/
def Event.received : Event → Option Received
  | .read pktReceiveLen packet =>
    if 0 < pktReceiveLen then some ⟨packet, pktReceiveLen.toNat⟩ else none
  | _ => none

/-- The bytes that are handed to `write`, whatever it returns. -/
def Event.sent : Event → Option (List UInt8)
  | .write bytes _ => some bytes
  | _ => none

/-- What is written for a packet. -/
def answer (chains : Chains) (p : Received) : Option (List UInt8) :=
  (Thread.next chains p.packet p.len).pending

variable {chains : Chains} {t t' : Thread} {e : Event} {es : List Event}

/-! ## Answers -/

/-- The IP version of a family. -/
def Af.ipver : Af → ℕ
  | .inet => 4
  | .inet6 => 6

variable {af : Af} {self : List (HostChain af)} {packet : Mem} {n : ℕ}

theorem handle_some (hv : ipV packet = af.ipver) (hself : chains af = some self) :
    handle chains packet n = .of (HostChainArray.reply self packet (n % 2 ^ 16)) := by
  cases af <;> simp only [handle, hv, Af.ipver, hself] <;> rfl

theorem handle_none (hv : ipV packet = af.ipver) (hself : chains af = none) :
    handle chains packet n = .undefinedIpver := by
  cases af <;> simp only [handle, hv, Af.ipver, hself]

theorem handle_unknown (hv : ∀ af : Af, ipV packet ≠ af.ipver) :
    handle chains packet n = .unknownIpver := by
  have h4 : ipV packet ≠ 4 := hv .inet
  have h6 : ipV packet ≠ 6 := hv .inet6
  unfold handle
  split
  · exact absurd ‹_› h4
  · exact absurd ‹_› h6
  · rfl

/-- How the `switch` ends, by the version of the packet. -/
theorem handle_cases (chains : Chains) (packet : Mem) (n : ℕ) :
    (handle chains packet n = .unknownIpver ∧ ∀ af : Af, ipV packet ≠ af.ipver) ∨
    ∃ af, ipV packet = af.ipver ∧
      ((chains af = none ∧ handle chains packet n = .undefinedIpver) ∨
        ∃ self, chains af = some self ∧
          handle chains packet n = .of (HostChainArray.reply self packet (n % 2 ^ 16))) := by
  by_cases hv : ∃ af : Af, ipV packet = af.ipver
  · obtain ⟨af, hv⟩ := hv
    refine .inr ⟨af, hv, ?_⟩
    cases hself : chains af with
    | none => exact .inl ⟨rfl, handle_none hv hself⟩
    | some self => exact .inr ⟨self, rfl, handle_some hv hself⟩
  · push Not at hv
    exact .inl ⟨handle_unknown hv, hv⟩

/-- The answer that a reply gives. -/
def Reply.answer (r : Reply) : Option (List UInt8) :=
  if r.ret = 0 ∧ 0 < r.len then some (read r.packet 0 r.len) else none

theorem answer_of_handle {p : Received} {r : Reply}
    (h : handle chains p.packet p.len = .of r) : answer chains p = r.answer := by
  rw [answer, Thread.next, h, Handled.of, Reply.answer]
  by_cases hret : r.ret = 0
  · by_cases hlen : 0 < r.len
    · simp [hret, hlen, Thread.pending]
    · simp [hret, hlen, Thread.pending]
  · simp [hret, Thread.pending]

/-- **What is written** is the reply of the array for the version of the packet. -/
theorem answer_eq_some {p : Received} {bytes : List UInt8} :
    answer chains p = some bytes ↔ ∃ af self, ipV p.packet = af.ipver ∧ chains af = some self ∧
      (HostChainArray.reply self p.packet (p.len % 2 ^ 16)).answer = some bytes := by
  constructor
  · intro h
    rcases handle_cases chains p.packet p.len with ⟨hhandle, -⟩ |
      ⟨af, hv, ⟨-, hhandle⟩ | ⟨self, hself, hhandle⟩⟩
    · rw [answer, Thread.next, hhandle] at h
      cases h
    · rw [answer, Thread.next, hhandle] at h
      cases h
    · exact ⟨af, self, hv, hself, (answer_of_handle hhandle).symm.trans h⟩
  · rintro ⟨af, self, hv, hself, hanswer⟩
    exact (answer_of_handle (handle_some hv hself)).trans hanswer

/-- Packets of one version whose replies say the same are answered alike. -/
theorem answer_congr_of {p q : Received} (hv : ipV q.packet = ipV p.packet)
    (h : ∀ af self, ipV p.packet = af.ipver → chains af = some self →
      (HostChainArray.reply self q.packet (q.len % 2 ^ 16)).answer =
        (HostChainArray.reply self p.packet (p.len % 2 ^ 16)).answer) :
    answer chains q = answer chains p := by
  have hq (bytes : List UInt8) : answer chains q = some bytes ↔ answer chains p = some bytes := by
    rw [answer_eq_some, answer_eq_some, hv]
    refine exists_congr fun af => exists_congr fun self => and_congr_right fun hver =>
      and_congr_right fun hself => ?_
    rw [h af self hver hself]
  exact Option.ext hq

theorem handle_ret {ret : ℕ} (h : handle chains packet n = .failReply ret) :
    ret = 17 ∨ ret = 18 := by
  rcases handle_cases chains packet n with ⟨hhandle, -⟩ |
    ⟨af, hv, ⟨-, hhandle⟩ | ⟨self, hself, hhandle⟩⟩
  · rw [hhandle] at h
    cases h
  · rw [hhandle] at h
    cases h
  · rw [hhandle, Handled.of] at h
    split_ifs at h with hret
    cases h
    by_cases hresp : ∃ k c hit, HostChainArray.Responds self packet k c hit
    · obtain ⟨k, c, hit, hresp⟩ := hresp
      rw [HostChainArray.reply_of_responds hresp, FakeHost.replyOf_ret hresp.index_lt] at hret
      exact absurd rfl hret
    · push Not at hresp
      rw [HostChainArray.reply_of_not_responds hresp]
      dsimp only
      split_ifs
      · exact .inl rfl
      · exact .inr rfl

/-! ## Steps -/

/-- What a step can be. -/
theorem step_cases (h : t.step chains e = .ok t') :
    (∃ pollres, t = .poll ∧ e = .poll pollres ∧ t' = .polled pollres) ∨
    (∃ pollres shutdown, t = .polled pollres ∧ e = .test shutdown ∧
      t' = if shutdown then .done else if 0 < pollres then .read else .poll) ∨
    (∃ n packet, t = .read ∧ e = .read n packet ∧ n ≤ IP_MAXPACKET ∧
      t' = if 0 < n then .next chains packet n.toNat else .poll) ∨
    ∃ packet len n, t = .write packet len ∧ e = .write (Memory.read packet 0 len) n ∧
      t' = .poll := by
  unfold Thread.step at h
  split at h
  · cases h
    exact .inl ⟨_, rfl, rfl, rfl⟩
  · cases h
    exact .inr (.inl ⟨_, _, rfl, rfl, rfl⟩)
  · split at h
    · cases h
      exact .inr (.inr (.inl ⟨_, _, rfl, rfl, ‹_›, rfl⟩))
    · cases h
  · split at h
    · next hbytes =>
      cases h
      exact .inr (.inr (.inr ⟨_, _, _, rfl, by rw [hbytes], rfl⟩))
    · cases h
  · cases h

theorem received_read {n : ℤ} (packet : Mem) (h : 0 < n) :
    (Event.read n packet).received = some ⟨packet, n.toNat⟩ := if_pos h

theorem received_read_none {n : ℤ} (packet : Mem) (h : ¬ 0 < n) :
    (Event.read n packet).received = none := if_neg h

/-- **One step**: the packet that is read is answered by what is pending then, and what was pending
is written. -/
theorem step_sent (h : t.step chains e = .ok t') :
    [e].filterMap Event.sent ++ t'.pending.toList =
      t.pending.toList ++ ([e].filterMap Event.received).filterMap (answer chains) := by
  rcases step_cases h with ⟨r, rfl, rfl, rfl⟩ | ⟨r, b, rfl, rfl, rfl⟩ |
    ⟨n, packet, rfl, rfl, -, rfl⟩ | ⟨packet, len, n, rfl, rfl, rfl⟩
  · rfl
  · split_ifs <;> rfl
  · by_cases hpos : 0 < n
    · rw [List.filterMap_cons_some (received_read packet hpos), if_pos hpos]
      show (answer chains ⟨packet, n.toNat⟩).toList = [Received.mk packet n.toNat].filterMap _
      rw [List.filterMap_cons]
      cases answer chains ⟨packet, n.toNat⟩ <;> rfl
    · rw [List.filterMap_cons_none (received_read_none packet hpos), if_neg hpos]
      rfl
  · rfl

/-- **A thread** has written the answers to the packets it read, in their order, but for one that
is pending. -/
theorem sent_eq (h : run (Thread.step chains) .poll es = .ok t) :
    es.filterMap Event.sent ++ t.pending.toList =
      (es.filterMap Event.received).filterMap (answer chains) := by
  refine run_invariant_history (P := fun es t => es.filterMap Event.sent ++ t.pending.toList =
    (es.filterMap Event.received).filterMap (answer chains)) (fun es t e t' ih hstep => ?_) rfl h
  rw [List.filterMap_append, List.filterMap_append, List.filterMap_append, ← ih, List.append_assoc,
    List.append_assoc, step_sent hstep]

end Rdnstun
