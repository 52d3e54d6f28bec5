import EupuServer.Epoll.Effect
/-!
# The handlers of the Windows thread

The functions of `wsathread.cpp`, on the same state as those of
`epollthread.cpp`: of it the thread has neither the epoll set nor a place in
an epoll loop. Most of them are the other file's functions once more, and
are written as such; where the text differs they have their own bodies. A
use of a map entry that was erased is `none`.
-/

namespace EupuServer

namespace Wsa

open Network Protocol Epoll

variable (cfg : Config) (s : Sys)

/-- `::closesocket`. -/
def closesocket (fd : ℤ) : Sys := { s with openfds := s.openfds.erase fd }

/-- `createClientCloseMsg`. -/
def createClientCloseMsg (sock : SocketSet) : Sys := Epoll.createClientCloseMsg cfg s sock

/-- `createConnectServerMsg`: `none` where it returns false. -/
def createConnectServerMsg (sock : SocketSet) : Option Sys :=
  Epoll.createConnectServerMsg cfg s sock

/-- `closeClient`. -/
def closeClient (fd _connTime : ℤ) : Sys :=
  if fd < 0 then s
  else
    let s₁ := closesocket s fd
    match s.socketmap.lookup fd with
    | none => s₁
    | some none => { s₁ with socketmap := s.socketmap.erase fd }
    | some (some sock) =>
      let s₂ := if sock.type > clientType then s₁.setServerSocket (-1) 0 "" 0 sock.type 0 false
        else s₁
      { createClientCloseMsg cfg s₂ sock with socketmap := s.socketmap.erase fd }

/-- `getIndex` for a connection on `fd`; the new index is `m_index`. -/
def getIndex (fd : ℤ) (attempt : ℕ) : Sys :=
  let i := s.index + 1
  let i := if i = 0xFFFFFFFF then 1 else i
  { s with
    index := i
    calls := s.calls + 1
    hist := s.hist ++ [.index (s.calls + 1) fd i attempt] }

/-- `addSocketToMap`: `none` where it returns false. The map has no bound
here. -/
def addSocketToMap (sock : SocketSet) : Option Sys :=
  if sock.key.fdkey < 0 then none
  else some { s with socketmap := s.socketmap.insert sock.key.fdkey (some sock) }

/-- `addClientToWSA`, and where it returns false the `closesocket` that both
callers answer it with. -/
def addClientToWSA (sock : SocketSet) : Sys :=
  match addSocketToMap s sock with
  | none => closesocket s sock.key.fdkey
  | some s' => s'

/-! ## Receiving -/

/-- `parsePacketToRecvQueue`: an empty buffer is taken here. -/
def parsePacketToRecvQueue (host : Host) (x : SocketSet) (buf : List UInt8) : ParseOut :=
  if buf = [] then ⟨true, x, []⟩ else parseLoop host x buf buf.length 0

/-- The loop of `doRecvMessage`. -/
def recvLoop (host : Host) (recvbuflen : ℕ) (now : ℤ) :
    ℕ → SocketSet → List RecvResult → RecvOutcome
  | 0, x, script => ⟨x, [], .again, script⟩
  | fuel + 1, x, script =>
    let r := recvMsg script (recvbuflen - x.partLen)
    if r.nret < 0 then ⟨x, [], .error, r.rest⟩
    else
      let x := { x with refreshTime := now }
      let p :=
        if r.bytes.length > 0 then
          parsePacketToRecvQueue host { x with partLen := 0 }
            (x.partBuf.take x.partLen ++ r.bytes)
        else ⟨true, x, []⟩
      if p.ok = false ∨ r.nret = 0 then
        ⟨p.sock, p.msgs, if p.ok then .closed else .rejected, r.rest⟩
      else if r.nret = 1 then ⟨p.sock, p.msgs, .again, r.rest⟩
      else
        let o := recvLoop host recvbuflen now fuel p.sock r.rest
        { o with msgs := p.msgs ++ o.msgs }

/-- The loop on a connection that was found. -/
def recvMessage (host : Host) (recvbuflen : ℕ) (now : ℤ) (x : SocketSet)
    (script : List RecvResult) : RecvOutcome :=
  recvLoop host recvbuflen now (scriptWeight script + 1) x script

/-- `doRecvMessage`. -/
def doRecvMessage (key : SocketKey) (io : Io) : Option Sys :=
  match s.socketmap.lookup key.fdkey with
  | some (some sock) =>
    -- the connection is closed, and its erased entry read on
    if sock.key ≠ key then none
    else
      let o := recvMessage cfg.host cfg.recvbuflen io.now sock io.recvs
      let s' := received s key.fdkey sock o
      match o.ending with
      | .again => some s'
      -- a failed `recv` closes nothing here
      | .error => some s'
      | .closed => some (closeClient cfg s' key.fdkey key.connectTime)
      | .rejected => some (closeClient cfg s' key.fdkey key.connectTime)
  | _ => none

/-! ## Sending -/

/-- `deleteSendMsgFromSendMap`. -/
def deleteSendMsgFromSendMap (fd : ℤ) : Sys := Epoll.deleteSendMsgFromSendMap s fd

/-- `doSendMessage`: whether it returns a negative number, and the state. The
key may be a null pointer. -/
def doSendMessage (pkey : Option SocketKey) (sends : List SendResult) : Bool × Sys :=
  match pkey with
  | none => (false, s)
  | some key => Epoll.doSendMessage s key sends

/-! ## Accepting -/

/-- One round of `doAccept` on the new descriptor `fd`. -/
def acceptConn (fd : ℤ) (ip : String) (port : UInt16) (nonBlock sndBuf rcvBuf noDelay : Bool)
    (now : ℤ) : Sys :=
  let s := s.opened fd
  if ¬ nonBlock then closesocket s fd
  else if ¬ sndBuf then closesocket s fd
  else if ¬ rcvBuf then closesocket s fd
  else if ¬ noDelay then closesocket s fd
  else
    let s := getIndex s fd 0
    let sock := initSocketset ⟨fd, s.index, s.calls⟩ ip port clientType now
    match createConnectServerMsg cfg s sock with
    | none => closesocket s fd
    | some s => addClientToWSA s sock

/-- `doAccept`, for what `accept` returns: `none` where it returns a
descriptor that is open. -/
def doAccept : Sys → List AcceptResult → Option Sys
  | s, [] => some s
  | s, .fail :: _ => some s
  | s, .conn fd ip port nonBlock sndBuf rcvBuf noDelay now _ :: rest =>
    if 0 ≤ fd ∧ fd ∉ s.openfds then
      doAccept (acceptConn cfg s fd ip port nonBlock sndBuf rcvBuf noDelay now) rest
    else none

/-! ## `doSystemEvent` -/

/-- The `ADD_CLIENT` branch. -/
def addClientEvent (sock : SocketSet) : Sys :=
  let s := getIndex s sock.key.fdkey sock.attempt
  let sock := indexed s sock
  let s := s.setServerSocket sock.key.fdkey sock.key.connectTime sock.peerIp sock.peerPort sock.type
    sock.attempt true
  match createConnectServerMsg cfg s sock with
  | none => closesocket s sock.key.fdkey
  | some s => addClientToWSA s sock

/-- One round of the loop of `doSystemEvent`. -/
def doSystemEvent : Sys :=
  match s.eventlist with
  | [] => s.goto .switch
  | .closeClient fd conntime :: es => closeClient cfg (s.withEvents es) fd conntime
  | .addClient sock :: es => addClientEvent cfg (s.withEvents es) sock

/-- One round of the scan of the backup map, at descriptor `fd`: the state,
and whether `fd` is put on `m_delsendfdlist`. -/
def scanFd (fd : ℤ) : Sys × Bool :=
  match s.socketmap.lookup fd with
  -- the log line reads `second` of the end iterator
  | none => (s.record (.endDeref fd), true)
  | some none => (s, true)
  | some (some _) => (s, false)

/-! ## Closing, as one update -/

theorem closeClient_eq (fd connTime : ℤ) :
    closeClient cfg s fd connTime = { s with
      openfds := if fd < 0 then s.openfds else s.openfds.erase fd
      socketmap := if fd < 0 then s.socketmap else s.socketmap.erase fd
      keys := closeKeys s fd
      recvtmplst := s.recvtmplst ++ closeMsgs s fd
      hist := s.hist ++ closeNotes s fd } := by
  unfold closeClient closeKeys closeMsgs closeNotes closing
  by_cases hfd : fd < 0
  · simp [hfd]
  · simp only [hfd, if_false]
    rcases hl : s.socketmap.lookup fd with _ | _ | sock
    · have hnot : fd ∉ s.socketmap := AList.lookup_eq_none.mp hl
      have herase : s.socketmap.erase fd = s.socketmap :=
        AList.ext (List.kerase_of_notMem_keys hnot)
      simp [closesocket, herase]
    · simp [closesocket]
    · simp only [createClientCloseMsg, createClientCloseMsg_eq, Option.join_some]
      split <;> simp [closesocket, Sys.push, Sys.setServerSocket]

end Wsa

end EupuServer
