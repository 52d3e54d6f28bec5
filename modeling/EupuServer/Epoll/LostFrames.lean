import EupuServer.Epoll.RecvBounds
import EupuServer.Network.LastBuffer
/-!
# Frames that a failing `recv` takes along

Where the peer closes a connection, `doRecvMessage` parses what it has read
before it closes its side; where `recv` fails, it leaves before the parser
is called, and the bytes of that round are gone. The two leave the same
messages exactly where these bytes complete no frame.
-/

namespace EupuServer

namespace Epoll

open Network Protocol

variable (cfg : Config) (s : Sys) (key : SocketKey) (ds : List RecvResult) (io : Io)

/-! ## The two endings -/

/-- **Whether the ending makes no difference**: `m_recvtmplst` is the same
where the peer closes behind `ds` and where `recv` fails there. -/
def SameFrames : Prop :=
  (doRecvMessage cfg s key { io with recvs := ds ++ [.data []] }).recvtmplst =
    (doRecvMessage cfg s key { io with recvs := ds ++ [.error] }).recvtmplst

instance : Decidable (SameFrames cfg s key ds io) := inferInstanceAs (Decidable (_ = _))

/-- The complete frames in the buffer with which the end is found, where the
connection is read at all. -/
def lastFrames : List (List UInt8) :=
  match s.socketmap.lookup key.fdkey with
  | some (some sock) =>
    if sock.key = key then
      (netFraming.split (lastBuffer cfg.recvbuflen (sock.partBuf.take sock.partLen)
        (arrives ds))).frames
    else []
  | _ => []

variable {cfg s key ds}

/-- What a connection leaves that was read and closed: its messages, and the
one that says so. -/
theorem closeReceived_recvtmplst {fd conntime : ℤ} {sock : SocketSet} {o : RecvOutcome}
    (hlookup : s.socketmap.lookup fd = some (some sock)) (hsame : SameConn sock o.sock) :
    (closeClient cfg (received s fd sock o) fd conntime).recvtmplst =
      s.recvtmplst ++ o.msgs ++ closeMsgs s fd := by
  have hclosing : closeMsgs (received s fd sock o) fd = closeMsgs s fd := by
    have hleft : (received s fd sock o).socketmap.lookup fd = some (some o.sock) := by
      simp only [received, IntMap.lookup_insert_eq, if_true]
    unfold closeMsgs closing
    rw [hleft, hlookup]
    split
    · rfl
    · simp only [Option.join_some, Option.toList_some, List.map_cons, List.map_nil, closeBytes,
        hsame.ofSocket, hsame.type]
  rw [closeClient_eq]
  dsimp only
  rw [hclosing]
  rfl

/-- **Frames that were read are delivered whatever the ending exactly where
the last buffer holds none**: in every reachable state and for all results
that bring bytes, an orderly close and an error leave the same messages if
and only if the buffer with which the end is found has no complete frame. -/
theorem doRecvMessage_sameFrames_iff {now : ℤ} (hs : (server cfg now).Reachable s) (key : SocketKey)
    (io : Io) (hds : Brings ds) : SameFrames cfg s key ds io ↔ lastFrames cfg s key ds = [] := by
  have hcap : maxSendSize ≤ cfg.recvbuflen := by
    have := le_recvBufLen cfg.sendbufsize cfg.readbufsize
    unfold Config.recvbuflen
    omega
  unfold SameFrames lastFrames doRecvMessage
  rcases hlookup : s.socketmap.lookup key.fdkey with _ | _ | sock
  · simp
  · simp
  · simp only
    by_cases hkey : sock.key = key
    · have hfits := (PartsFit.reachable hs).entry _ sock hlookup
      have hweight : scriptWeight (ds ++ [.data []]) = scriptWeight (ds ++ [.error]) := by
        induction ds with
        | nil => rfl
        | cons r ds ih => cases r <;> simp only [List.cons_append, scriptWeight, ih hds.tail]
      obtain ⟨hlost, hclosed, herror⟩ := recvLoop_lost cfg.host io.now hcap
        (Nat.lt_succ_self _) (Nat.lt_succ_self _) hds hfits.pending hfits.holds
      rw [if_neg (not_not.mpr hkey), if_neg (not_not.mpr hkey), if_pos hkey]
      rw [recvMessage, recvMessage, hweight, if_neg hclosed, if_neg herror,
        closeReceived_recvtmplst hlookup (recvLoop_same _ _ _ _ _),
        closeReceived_recvtmplst hlookup (recvLoop_same _ _ _ _ _), hlost,
        List.append_cancel_right_eq, List.append_cancel_left_eq, List.append_right_eq_self,
        List.map_eq_nil_iff]
      rfl
    · rw [if_pos hkey, if_pos hkey, if_neg hkey]
      simp

/-- Half a header is lost either way. -/
theorem doRecvMessage_sameFrames_iff_header :
    ∃ s, (server smallConfig 0).Reachable s ∧ (s.socketmap.lookup 7).isSome = true ∧
      SameFrames smallConfig s ⟨7, 2, 2⟩ [.data [0, 8, 0, 1]] {} := by
  have hrun : ∃ s, (server smallConfig 0).Reachable s ∧ ((s.socketmap.lookup 7).isSome = true ∧
      lastFrames smallConfig s ⟨7, 2, 2⟩ [.data [0, 8, 0, 1]] = []) :=
    Machine.exists_reach_of_exec (acceptRound 7) (by decide)
  obtain ⟨s, hs, hlive, hnone⟩ := hrun
  refine ⟨s, hs, hlive, (doRecvMessage_sameFrames_iff hs ⟨7, 2, 2⟩ {} ?_).mpr hnone⟩
  intro r hr
  rw [List.mem_singleton] at hr
  exact .inr ⟨0, [8, 0, 1], hr⟩

/-- **A frame that was received is lost**: a client sends one and resets the
connection, and the worker is told of the end only. -/
theorem sameFrames_fails : ¬ ∀ s, (server smallConfig 0).Reachable s → ∀ key ds io, Brings ds →
    SameFrames smallConfig s key ds io := by
  intro hall
  have hrun : ∃ s, (server smallConfig 0).Reachable s ∧
      ¬ SameFrames smallConfig s ⟨7, 2, 2⟩ [.data [0, 8, 0, 1, 0, 0, 0, 0]] {} :=
    Machine.exists_reach_of_exec (acceptRound 7) (by decide)
  obtain ⟨s, hs, hnot⟩ := hrun
  refine hnot (hall s hs _ _ _ ?_)
  intro r hr
  rw [List.mem_singleton] at hr
  exact .inr ⟨0, [8, 0, 1, 0, 0, 0, 0], hr⟩

end Epoll

end EupuServer
