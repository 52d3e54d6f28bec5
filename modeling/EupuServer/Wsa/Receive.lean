import EupuServer.Network.RecvEnding
import EupuServer.Wsa.Handlers
import EupuServer.Epoll.System
/-!
# The two receive paths

The loop and the parser of `wsathread.cpp` are copies of those of
`epollthread.cpp`, and compute the same (`recvMessage_eq`). What is done when
the loop is left is not a copy: on a failed `recv` one thread closes the
connection and the other keeps it (`recvPaths_agree_iff`).
-/

namespace EupuServer

namespace Wsa

open Network Protocol Epoll

variable {host : Host} {cfg : Config} {s : Sys} {key : SocketKey} {sock : SocketSet} {io : Io}

/-- The parsers differ on an empty buffer alone. -/
theorem parsePacketToRecvQueue_eq {buf : List UInt8} (x : SocketSet) (hne : buf ≠ []) :
    parsePacketToRecvQueue host x buf = Network.parsePacketToRecvQueue host x buf := by
  rw [parsePacketToRecvQueue, Network.parsePacketToRecvQueue, if_neg hne, if_neg hne]

/-- **The loops compute the same.** -/
theorem recvLoop_eq (cap : ℕ) (now : ℤ) (fuel : ℕ) (x : SocketSet) (script : List RecvResult) :
    recvLoop host cap now fuel x script = Network.recvLoop host cap now fuel x script := by
  induction fuel generalizing x script with
  | zero => rfl
  | succ fuel ih =>
    -- a round parses only a buffer that is not empty
    have hround : (if (recvMsg script (cap - x.partLen)).bytes.length > 0 then
          parsePacketToRecvQueue host { x with refreshTime := now, partLen := 0 }
            (x.partBuf.take x.partLen ++ (recvMsg script (cap - x.partLen)).bytes)
        else ⟨true, { x with refreshTime := now }, []⟩) =
        recvRound host now x (recvMsg script (cap - x.partLen)).bytes := by
      unfold recvRound
      split
      · rename_i hlen
        refine parsePacketToRecvQueue_eq _ fun hnil => ?_
        rw [(List.append_eq_nil_iff.mp hnil).2] at hlen
        exact Nat.lt_irrefl 0 hlen
      · rfl
    rw [recvLoop_succ, recvLoop]
    simp only [hround, ih]
    split
    · rfl
    · exact if_congr or_comm rfl rfl

theorem recvMessage_eq (cap : ℕ) (now : ℤ) (x : SocketSet) (script : List RecvResult) :
    recvMessage host cap now x script = Network.recvMessage host cap now x script :=
  recvLoop_eq cap now _ x script

/-- **Two states agree on what was received**: the messages appended, the
connections, and what each keeps of an unfinished frame. -/
structure RecvAgree (s s' : Sys) : Prop where
  msgs : s'.recvtmplst = s.recvtmplst
  conns : ∀ fd, (s'.socketmap.lookup fd).isSome = (s.socketmap.lookup fd).isSome
  parts : ∀ fd x x', s.socketmap.lookup fd = some (some x) →
    s'.socketmap.lookup fd = some (some x') → x'.partBuf = x.partBuf ∧ x'.partLen = x.partLen

theorem RecvAgree.of_eq {s' : Sys} (htmp : s'.recvtmplst = s.recvtmplst)
    (hmap : s'.socketmap = s.socketmap) : RecvAgree s s' := by
  refine ⟨htmp, fun fd => by rw [hmap], fun fd x x' hx hx' => ?_⟩
  rw [hmap, hx, Option.some.injEq, Option.some.injEq] at hx'
  exact hx' ▸ ⟨rfl, rfl⟩

/-- Closing does the same to what was received. -/
theorem closeClient_agree (fd conntime : ℤ) :
    RecvAgree (Epoll.closeClient cfg s fd conntime) (closeClient cfg s fd conntime) := by
  refine .of_eq ?_ ?_ <;> rw [closeClient_eq, Epoll.closeClient_eq]

/-- **The two receive paths agree unless a `recv` fails** before anything
else ends the loop. -/
theorem recvPaths_agree_iff (hsock : s.socketmap.lookup key.fdkey = some (some sock))
    (hkey : sock.key = key) :
    (∃ s', doRecvMessage cfg s key io = some s' ∧
        RecvAgree (Epoll.doRecvMessage cfg s key io) s') ↔
      key.fdkey < 0 ∨ ¬ RecvEnds cfg.host cfg.recvbuflen io.now .error sock io.recvs := by
  have hmatch : ¬ sock.key ≠ key := not_not.mpr hkey
  rw [← recvMessage_ending_iff (by decide)]
  unfold doRecvMessage Epoll.doRecvMessage
  rw [hsock]
  simp only [if_neg hmatch, recvMessage_eq]
  generalize Network.recvMessage cfg.host cfg.recvbuflen io.now sock io.recvs = o
  rcases hend : o.ending with _ | _ | _ | _
  · simpa using RecvAgree.of_eq rfl rfl
  · simpa using closeClient_agree _ _
  · simpa using closeClient_agree _ _
  · -- a failed `recv`: the epoll thread closes, and the other does not
    simp only [Option.some.injEq, exists_eq_left', not_true_eq_false, or_false, reduceCtorEq,
      if_false]
    constructor
    · intro hagree
      by_contra hfd
      have hgone : ((Epoll.closeClient cfg (received s key.fdkey sock o) key.fdkey
          key.connectTime).socketmap.lookup key.fdkey) = none := by
        rw [Epoll.closeClient_eq]
        simp only [if_neg hfd, AList.lookup_erase]
      have hkept : (received s key.fdkey sock o).socketmap.lookup key.fdkey = some (some o.sock) :=
        AList.lookup_insert _
      have hconns := hagree.conns key.fdkey
      rw [hgone, hkept] at hconns
      cases hconns
    · intro hfd
      rw [Epoll.closeClient, closeClientCalls, if_pos hfd]
      exact .of_eq rfl rfl

/-- A thread with one connection, on descriptor `7`. -/
def oneConnection : Sys := { Sys.init smallConfig 0 with
  openfds := {3, 7}
  socketmap := AList.singleton 7 (some (initSocketset ⟨7, 2, 2⟩ "" 0 clientType 0)) }

/-- A frame of eight bytes and a part of the next. -/
theorem recvPaths_agree_iff_frame :
    ∃ s', doRecvMessage smallConfig oneConnection ⟨7, 2, 2⟩
        { recvs := [.data [0, 8, 0, 20, 0, 0, 0, 0, 0], .eagain] } = some s' ∧
      RecvAgree (Epoll.doRecvMessage smallConfig oneConnection ⟨7, 2, 2⟩
        { recvs := [.data [0, 8, 0, 20, 0, 0, 0, 0, 0], .eagain] }) s' := by
  have hsock : oneConnection.socketmap.lookup (SocketKey.mk 7 2 2).fdkey =
      some (some (initSocketset ⟨7, 2, 2⟩ "" 0 clientType 0)) := rfl
  refine (recvPaths_agree_iff hsock rfl).mpr (.inr fun hfail => ?_)
  exact absurd ((recvMessage_ending_iff (by decide)).mpr hfail) (by decide)

/-- **A `recv` that fails** leaves the connection with one of the threads. -/
theorem recvPaths_differ :
    ¬ ∀ (cfg : Config) (s : Sys) (key : SocketKey) (sock : SocketSet) (io : Io),
      s.socketmap.lookup key.fdkey = some (some sock) → sock.key = key →
      ∃ s', doRecvMessage cfg s key io = some s' ∧
        RecvAgree (Epoll.doRecvMessage cfg s key io) s' := by
  intro hall
  obtain ⟨s', hs', hagree⟩ := hall smallConfig oneConnection ⟨7, 2, 2⟩
    (initSocketset ⟨7, 2, 2⟩ "" 0 clientType 0) { recvs := [.error] } rfl rfl
  have hgone : ((Epoll.doRecvMessage smallConfig oneConnection ⟨7, 2, 2⟩
      { recvs := [.error] }).socketmap.lookup 7).isSome = false := by decide
  have hkept : (doRecvMessage smallConfig oneConnection ⟨7, 2, 2⟩ { recvs := [.error] }).map
      (fun s' => (s'.socketmap.lookup 7).isSome) = some true := by decide
  have hconns := hagree.conns 7
  rw [hs', Option.map_some, Option.some.injEq] at hkept
  rw [hgone, hkept] at hconns
  cases hconns

end Wsa

end EupuServer
