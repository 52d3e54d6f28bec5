import EupuServer.Common.Transfer
import EupuServer.Network.NetCommon
/-!
# The account of the socket loops

`send_msg` and `recv_msg` call by call: the pointer and the count of each
`send` and `recv`, the bytes these take from the buffer or bring into it, and
the length that is reported. Whatever the calls answer, as long as none
answers with more than it was asked for, the reported length is exactly that
of the bytes that went, which are the front of the buffer, and the result
says how the loop ended (`socket_loops_account`). The loops on byte strings
in `NetCommon` compute the same (`sendMsg_refines`, `recvMsg_refines`).
-/

namespace EupuServer

namespace Network

namespace SocketLoop

open Bytes Transfer

/-! ## The loops -/

/-- What `send_msg` makes of the result of a `send`. -/
def sendReact : SendResult → Reaction
  | .eintr => .retry
  | .eagain => .stop 0
  | .error => .stop (-1)
  | .sent nsend => .moved nsend

/-- What `recv_msg` makes of the result of a `recv`. -/
def recvReact : RecvResult → Reaction
  | .eintr => .retry
  | .eagain => .stop 1
  | .error => .stop (-1)
  | .data [] => .stop 0
  | .data (b :: bs) => .moved (b :: bs).length

/-- `send_msg` with the length `nlen`, and the answers of the calls. -/
def sendMsg (answers : List SendResult) (nlen : ℤ) : Option (Outcome SendResult) :=
  loop sendReact 1 answers 0 nlen

/-- `recv_msg` with the length `nlen`, and the answers of the calls. -/
def recvMsg (answers : List RecvResult) (nlen : ℤ) : Option (Outcome RecvResult) :=
  loop recvReact 2 answers 0 nlen

/-- What is in `nlen` once the loop is left. -/
def nlenAfter {ρ : Type} (nlen : ℤ) (o : Outcome ρ) : ℤ := nlen - o.room

/-- The bytes a `recv` stores. -/
def recvBytes : RecvResult → List UInt8
  | .data bs => bs
  | _ => []

/-- The bytes the calls of `recv` stored, in order. -/
def received (o : Outcome RecvResult) : List UInt8 := o.calls.flatMap fun c => recvBytes c.answer

/-! ## The account -/

variable {mem : ℕ → UInt8} {nlen : ℤ}

/-- **What `send_msg` says is what it did**: what the kernel took is the
front of the buffer, of the length that is reported, and the result says why
it is not longer. -/
structure SendAccounted (mem : ℕ → UInt8) (nlen : ℤ) (o : Outcome SendResult) : Prop where
  handed : taken sendReact mem o.calls = bytesAt mem 0 (nlenAfter nlen o).toNat
  nonneg : 0 ≤ nlenAfter nlen o
  le : nlenAfter nlen o ≤ nlen
  full : o.result = 1 ↔ nlenAfter nlen o = nlen
  again : o.result = 0 ↔ o.StoppedBy .eagain
  failed : o.result = -1 ↔ o.StoppedBy .error

/-- **What `recv_msg` says is what it did**: the bytes received are the front
of the buffer, of the length that is reported, behind them nothing is
written, and the result says why they are not more. -/
structure RecvAccounted (mem : ℕ → UInt8) (nlen : ℤ) (o : Outcome RecvResult) : Prop where
  bytes : bytesAt (stored recvBytes mem o.calls) 0 (nlenAfter nlen o).toNat = received o
  kept : ∀ i : ℕ, nlenAfter nlen o ≤ i → stored recvBytes mem o.calls i = mem i
  nonneg : 0 ≤ nlenAfter nlen o
  le : nlenAfter nlen o ≤ nlen
  full : o.result = 2 ↔ nlenAfter nlen o = nlen
  again : o.result = 1 ↔ o.StoppedBy .eagain
  closed : o.result = 0 ↔ o.StoppedBy (.data [])
  failed : o.result = -1 ↔ o.StoppedBy .error

theorem nlenAfter_eq {ρ : Type} {react : ρ → Reaction} {full : ℤ} {o : Outcome ρ}
    (h : Runs react full 0 nlen o) : nlenAfter nlen o = total react o.calls := by
  rw [nlenAfter, h.room_eq]
  omega

theorem nlenAfter_eq_iff {ρ : Type} {o : Outcome ρ} : nlenAfter nlen o = nlen ↔ o.room = 0 := by
  rw [nlenAfter]
  omega

theorem nlenAfter_le {ρ : Type} {react : ρ → Reaction} {full : ℤ} {o : Outcome ρ}
    (h : Ends react full o) : nlenAfter nlen o ≤ nlen := by
  rw [nlenAfter]
  cases h with
  | full hroom => omega
  | stop hroom => omega

/-- Only its own answer makes `send_msg` return a result. -/
theorem sendReact_eq_stop {a : SendResult} {result : ℤ} :
    sendReact a = .stop result ↔ a = .eagain ∧ result = 0 ∨ a = .error ∧ result = -1 := by
  cases a <;> simp [sendReact, eq_comm]

theorem recvReact_eq_stop {a : RecvResult} {result : ℤ} :
    recvReact a = .stop result ↔
      a = .eagain ∧ result = 1 ∨ a = .error ∧ result = -1 ∨ a = .data [] ∧ result = 0 := by
  cases a with
  | data bs => cases bs <;> simp [recvReact, eq_comm]
  | _ => simp [recvReact, eq_comm]

/-- A `recv` stores as many bytes as the loop counts. -/
theorem length_recvBytes (a : RecvResult) : (recvBytes a).length = (recvReact a).size := by
  cases a with
  | data bs => cases bs <;> rfl
  | _ => rfl

/-- **`send_msg` accounts for every byte.** -/
theorem sendAccounted {o : Outcome SendResult} (hlen : 0 ≤ nlen) (h : Runs sendReact 1 0 nlen o)
    (hfits : ∀ c ∈ o.calls, Fits sendReact c) (mem : ℕ → UInt8) : SendAccounted mem nlen o := by
  have hends := h.ends hlen hfits
  have htotal := nlenAfter_eq h
  refine ⟨?_, ?_, nlenAfter_le hends, ?_, ?_, ?_⟩
  · rw [h.contiguous.taken_eq, htotal, Int.toNat_natCast]
  · rw [htotal]
    omega
  · rw [nlenAfter_eq_iff]
    exact hends.result_eq_full_iff (by simp [sendReact_eq_stop])
  · exact hends.result_eq_iff (by simp [sendReact_eq_stop]) (by decide)
  · exact hends.result_eq_iff (by simp [sendReact_eq_stop]) (by decide)

/-- **`recv_msg` accounts for every byte.** -/
theorem recvAccounted {o : Outcome RecvResult} (hlen : 0 ≤ nlen) (h : Runs recvReact 2 0 nlen o)
    (hfits : ∀ c ∈ o.calls, Fits recvReact c) (mem : ℕ → UInt8) : RecvAccounted mem nlen o := by
  have hends := h.ends hlen hfits
  have htotal := nlenAfter_eq h
  have hdata : ∀ c ∈ o.calls, (recvBytes c.answer).length = (recvReact c.answer).size :=
    fun c _ => length_recvBytes c.answer
  have hlength : (received o).length = total recvReact o.calls := length_data hdata
  have hstored : stored recvBytes mem o.calls = writeAt mem 0 (received o) :=
    h.contiguous.stored_eq hdata mem
  refine ⟨?_, ?_, ?_, nlenAfter_le hends, ?_, ?_, ?_, ?_⟩
  · rw [hstored, htotal, Int.toNat_natCast]
    exact bytesAt_writeAt mem 0 hlength
  · intro i hi
    rw [hstored]
    exact writeAt_of_ge (by omega)
  · rw [htotal]
    omega
  · rw [nlenAfter_eq_iff]
    exact hends.result_eq_full_iff (by simp [recvReact_eq_stop])
  · exact hends.result_eq_iff (by simp [recvReact_eq_stop]) (by decide)
  · exact hends.result_eq_iff (by simp [recvReact_eq_stop]) (by decide)
  · exact hends.result_eq_iff (by simp [recvReact_eq_stop]) (by decide)

/-- **The socket loops account for every byte**, for every buffer, every
length and whatever the calls answer, as long as the loop ends and no call
answers with more than it was asked for. -/
theorem socket_loops_account (mem : ℕ → UInt8) {nlen : ℤ} (hlen : 0 ≤ nlen) :
    (∀ answers o, sendMsg answers nlen = some o → (∀ c ∈ o.calls, Fits sendReact c) →
      SendAccounted mem nlen o) ∧
    (∀ answers o, recvMsg answers nlen = some o → (∀ c ∈ o.calls, Fits recvReact c) →
      RecvAccounted mem nlen o) :=
  ⟨fun _ _ h hfits => sendAccounted hlen (runs_of_loop h) hfits mem,
    fun _ _ h hfits => recvAccounted hlen (runs_of_loop h) hfits mem⟩

/-- Two bytes are sent, a call is interrupted and the next finds no room; six
bytes are asked for and come in two pieces. -/
theorem socket_loops_account_run :
    SendAccounted (fun _ => 0) 3 ⟨[⟨0, 3, .sent 2⟩, ⟨2, 1, .eintr⟩, ⟨2, 1, .eagain⟩], 1, 0, []⟩ ∧
    RecvAccounted (fun _ => 0) 6 ⟨[⟨0, 6, .data [1, 2]⟩, ⟨2, 4, .data [3, 4, 5, 6]⟩], 0, 2, []⟩ :=
  ⟨(socket_loops_account (fun _ => 0) (by decide)).1 [.sent 2, .eintr, .eagain] _ rfl (by decide),
    (socket_loops_account (fun _ => 0) (by decide)).2 [.data [1, 2], .data [3, 4, 5, 6]] _ rfl
      (by decide)⟩

/-! ## The loops on byte strings -/

/-- A result that ends the loop lets it finish. -/
theorem exists_sendMsg {answers : List SendResult} (h : .eagain ∈ answers ∨ .error ∈ answers)
    (nlen : ℤ) : ∃ o, sendMsg answers nlen = some o := by
  refine exists_loop ?_ 0 nlen
  rcases h with h | h
  · exact ⟨_, h, 0, rfl⟩
  · exact ⟨_, h, -1, rfl⟩

theorem exists_recvMsg {answers : List RecvResult}
    (h : .eagain ∈ answers ∨ .error ∈ answers ∨ .data [] ∈ answers) (nlen : ℤ) :
    ∃ o, recvMsg answers nlen = some o := by
  refine exists_loop ?_ 0 nlen
  rcases h with h | h | h
  · exact ⟨_, h, 1, rfl⟩
  · exact ⟨_, h, -1, rfl⟩
  · exact ⟨_, h, 0, rfl⟩

/-- **`sendMsg` of a byte string is the loop**, where the results do not run
out. -/
theorem sendMsg_refines {answers : List SendResult} {pos n : ℕ} {o : Outcome SendResult}
    (h : loop sendReact 1 answers pos n = some o) (hfits : ∀ c ∈ o.calls, Fits sendReact c) :
    Network.sendMsg answers (bytesAt mem pos n) =
      ⟨taken sendReact mem o.calls, o.result, o.rest⟩ := by
  induction answers generalizing pos n o with
  | nil =>
    cases n with
    | zero =>
      injection h with h
      exact h ▸ rfl
    | succ n =>
      rw [loop, if_pos (by omega)] at h
      cases h
  | cons a answers ih =>
    cases n with
    | zero =>
      injection h with h
      exact h ▸ rfl
    | succ n =>
      rw [loop, if_pos (by omega)] at h
      rw [bytesAt_succ]
      cases a with
      | eagain | error =>
        injection h with h
        exact h ▸ rfl
      | eintr =>
        obtain ⟨o', ho', rfl⟩ := Option.map_eq_some_iff.mp h
        obtain ⟨-, hfits⟩ := List.forall_mem_cons.mp hfits
        rw [Network.sendMsg, ← bytesAt_succ, ih ho' hfits]
        rfl
      | sent k =>
        obtain ⟨o', ho', rfl⟩ := Option.map_eq_some_iff.mp h
        obtain ⟨hk, hfits⟩ := List.forall_mem_cons.mp hfits
        have hk : k ≤ n + 1 := by
          have hk : (k : ℤ) ≤ (n + 1 : ℕ) := hk
          omega
        rw [show ((n + 1 : ℕ) : ℤ) - k = ((n + 1 - k : ℕ) : ℤ) by omega] at ho'
        rw [Network.sendMsg, ← bytesAt_succ, take_bytesAt hk, drop_bytesAt hk, ih ho' hfits]
        rfl

/-- **`recvMsg` is the loop**, where the results do not run out and no piece
is larger than the room. -/
theorem recvMsg_refines {answers : List RecvResult} {pos n : ℕ} {o : Outcome RecvResult}
    (h : loop recvReact 2 answers pos n = some o) (hfits : ∀ c ∈ o.calls, Fits recvReact c) :
    Network.recvMsg answers n = ⟨received o, o.result, o.rest⟩ := by
  induction answers generalizing pos n o with
  | nil =>
    cases n with
    | zero =>
      injection h with h
      exact h ▸ rfl
    | succ n =>
      rw [loop, if_pos (by omega)] at h
      cases h
  | cons a answers ih =>
    cases n with
    | zero =>
      injection h with h
      rw [Network.recvMsg, ← h]
      rfl
    | succ n =>
      rw [loop, if_pos (by omega)] at h
      rcases a with (_ | ⟨b, bs⟩) | _ | _ | _
      · injection h with h
        exact h ▸ rfl
      · obtain ⟨o', ho', rfl⟩ := Option.map_eq_some_iff.mp h
        obtain ⟨hk, hfits⟩ := List.forall_mem_cons.mp hfits
        have hk : (b :: bs).length ≤ n + 1 := by
          have hk : ((b :: bs).length : ℤ) ≤ (n + 1 : ℕ) := hk
          omega
        rw [show ((n + 1 : ℕ) : ℤ) - ((b :: bs).length : ℕ) =
          ((n + 1 - (b :: bs).length : ℕ) : ℤ) by omega] at ho'
        rw [Network.recvMsg, if_pos hk, ih ho' hfits]
        rfl
      · obtain ⟨o', ho', rfl⟩ := Option.map_eq_some_iff.mp h
        obtain ⟨-, hfits⟩ := List.forall_mem_cons.mp hfits
        rw [Network.recvMsg, ih ho' hfits]
        rfl
      · injection h with h
        exact h ▸ rfl
      · injection h with h
        exact h ▸ rfl

end SocketLoop

end Network

end EupuServer
