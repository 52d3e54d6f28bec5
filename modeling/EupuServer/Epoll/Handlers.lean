import EupuServer.Epoll.State
/-!
# The handlers of the epoll thread

The functions of `epollthread.cpp`, each a function on the state that takes
what the kernel answers as an argument. A key that is followed after its
object was freed reads as it did when it was registered.
-/

namespace EupuServer

namespace Epoll

open Network Protocol

variable (cfg : Config) (s : Sys)

/-! ## Notifications -/

/-- `createClientCloseMsg`. -/
def createClientCloseMsg (sock : SocketSet) : Sys :=
  match (mpServerDisConnected sock.type).out cfg.host maxSendSize with
  | none => s
  | some buf => s.push sock.key.id .disconnected (NetData.ofSocket sock buf)

/-- `createConnectServerMsg`: `none` where it returns false. -/
def createConnectServerMsg (sock : SocketSet) : Option Sys :=
  match (mpServerConnected sock.type).out cfg.host maxSendSize with
  | none => none
  | some buf => some (s.push sock.key.id .connected (NetData.ofSocket sock buf))

/-! ## Closing -/

/-- A call of `close`: the state behind it, and the call. -/
def Sys.closeCall (fd : ℤ) : Sys × List ℤ := (s.close fd, [fd])

/-- `closeClient`, and its calls of `close`. `EPOLL_CTL_DEL` takes out of
epoll what `close` takes out as well. -/
def closeClientCalls (fd _conntime : ℤ) : Sys × List ℤ :=
  if fd < 0 then (s, [])
  else
    let r := s.closeCall fd
    -- the descriptor alone decides: `conntime` is never compared
    match s.socketmap.lookup fd with
    | none => r
    | some none => ({ r.1 with socketmap := s.socketmap.erase fd }, r.2)
    | some (some sock) =>
      let s₂ := if sock.type > clientType then r.1.setServerSocket (-1) 0 "" 0 sock.type 0 false
        else r.1
      ({ createClientCloseMsg cfg s₂ sock with socketmap := s.socketmap.erase fd }, r.2)

/-- `closeClient`. -/
def closeClient (fd conntime : ℤ) : Sys := (closeClientCalls cfg s fd conntime).1

/-! ## Adding a connection -/

/-- `getIndex` for a connection on `fd`; the new index is `m_index`. -/
def getIndex (fd : ℤ) (attempt : ℕ) : Sys :=
  let i := s.index + 1
  -- the last value of the counter is skipped
  let i := if Bytes.uint32 i = 0xFFFFFFFF then 1 else i
  { s with
    index := i
    calls := s.calls + 1
    hist := s.hist ++ [.index (s.calls + 1) fd i attempt] }

/-- `addSocketToMap`: `none` where it returns false. -/
def addSocketToMap (sock : SocketSet) : Option Sys :=
  if sock.key.fdkey < 0 then none
  else if cfg.maxepollsize ≤ s.socketmap.keys.length then none
  -- an entry under the same descriptor is deleted and replaced
  else some { s with socketmap := s.socketmap.insert sock.key.fdkey (some sock) }

/-- `epoll_ctl` with `EPOLL_CTL_ADD` takes an open descriptor that is not
registered, where the kernel has the room (`ctlOk`). -/
def epollAdd (sock : SocketSet) (ctlOk : Bool) : Option Sys :=
  if ctlOk ∧ sock.key.fdkey ∈ s.openfds ∧ sock.key.fdkey ∉ s.epollset then
    some { s with epollset := s.epollset.insert sock.key.fdkey ⟨sock.key, false⟩ }
  else none

/-- `epoll_ctl` with `EPOLL_CTL_MOD` takes a descriptor that is registered. -/
def epollMod (fd : ℤ) (reg : Registration) (ctlOk : Bool) : Option Sys :=
  if ctlOk ∧ fd ∈ s.epollset then some { s with epollset := s.epollset.insert fd reg } else none

/-- `addClientToEpoll`, and where it returns false the `close` that both
callers answer it with. -/
def addClientToEpollCalls (sock : SocketSet) (ctlOk : Bool) : Sys × List ℤ :=
  match epollAdd s sock ctlOk with
  | none => s.closeCall sock.key.fdkey
  | some s' =>
    match addSocketToMap cfg s' sock with
    -- the descriptor is in epoll already, and `close` takes it out
    | none => s'.closeCall sock.key.fdkey
    | some s'' => (s'', [])

/-- `addClientToEpoll`. -/
def addClientToEpoll (sock : SocketSet) (ctlOk : Bool) : Sys :=
  (addClientToEpollCalls cfg s sock ctlOk).1

/-! ## Receiving -/

/-- The state once the receive loop of the connection `sock` is left. -/
def received (fd : ℤ) (sock : SocketSet) (o : RecvOutcome) : Sys :=
  { s with
    socketmap := s.socketmap.insert fd (some o.sock)
    recvtmplst := s.recvtmplst ++ o.msgs
    hist := s.hist ++ o.msgs.map fun d => .note sock.key.id (.frame d.bytes) }

/-- `doRecvMessage`. -/
def doRecvMessage (key : SocketKey) (io : Io) : Sys :=
  match s.socketmap.lookup key.fdkey with
  | some (some sock) =>
    if sock.key ≠ key then closeClient cfg s key.fdkey key.connectTime
    else
      let o := recvMessage cfg.host cfg.recvbuflen io.now sock io.recvs
      let s' := received s key.fdkey sock o
      if o.ending = .again then s' else closeClient cfg s' key.fdkey key.connectTime
  | _ => closeClient cfg s key.fdkey key.connectTime

/-! ## Sending -/

/-- `deleteSendMsgFromSendMap`. -/
def deleteSendMsgFromSendMap (fd : ℤ) : Sys :=
  if fd < 0 then s
  else
    match s.bak.lookup fd with
    | none => s
    | some none => { s with bak := s.bak.erase fd }
    | some (some lst) =>
      { s with bak := s.bak.erase fd, hist := s.hist ++ lst.map (.deleted .dropped) }

/-- What the loop of `doSendMessage` leaves: the list, what it did, and
whether a `send` failed. -/
structure SendLoopOut where
  left : List NetDataPtr
  recs : List Record
  failed : Bool
  deriving DecidableEq, Repr

/-- The loop of `doSendMessage` for the connection with key `key`. Of a
message sent in part the bytes that were sent are taken off the front; what
stands behind `data_len` is not read again. -/
def sendLoop (key : SocketKey) : List SendResult → List NetDataPtr → SendLoopOut
  | _, [] => ⟨[], [], false⟩
  | script, p :: ps =>
    if ¬ (key.fdkey = p.obj.fddat ∧ key.connectTime = p.obj.connectTime) then
      -- a message of another connection on this descriptor is thrown away
      let o := sendLoop key script ps
      { o with recs := .deleted .mismatch p :: o.recs }
    else
      let r := sendMsg script p.obj.bytes
      if r.nret < 0 then ⟨p :: ps, [.sent key p r.sent], true⟩
      else if r.nret = 0 then
        let num := p.obj.dataLen - r.sent.length
        if num > 0 then
          -- the rest stays at the head, under the same address
          ⟨{ p with obj := { p.obj with pdata := p.obj.pdata.drop r.sent.length, dataLen := num } }
            :: ps, [.sent key p r.sent], false⟩
        else ⟨ps, [.sent key p r.sent, .deleted .sent p], false⟩
      else
        let o := sendLoop key r.rest ps
        { o with recs := .sent key p r.sent :: .deleted .sent p :: o.recs }

/-- The state once the loop of `doSendMessage` is left. -/
def sentFrom (fd : ℤ) (o : SendLoopOut) : Sys :=
  { s with bak := s.bak.insert fd (some o.left), hist := s.hist ++ o.recs }

/-- `doSendMessage`: whether it returns a negative number, and the state. -/
def doSendMessage (key : SocketKey) (sends : List SendResult) : Bool × Sys :=
  match s.socketmap.lookup key.fdkey with
  | some (some sock) =>
    match s.bak.lookup key.fdkey with
    | none => (false, s)
    -- the entry's list is NULL
    | some none => (false, { s with bak := s.bak.erase key.fdkey })
    | some (some lst) =>
      let o := sendLoop sock.key sends lst
      let s' := sentFrom s key.fdkey o
      if o.failed then (true, deleteSendMsgFromSendMap s' key.fdkey)
      else if o.left = [] then (false, { s' with bak := s'.bak.erase key.fdkey })
      else (false, s')
  | _ => (false, deleteSendMsgFromSendMap s key.fdkey)

/-! ## One event of the batch -/

/-- The body of the loop over the events, for all but the listening
descriptor. -/
def handleEvent (e : EpollEvent) (io : Io) : Sys :=
  match e.kind with
  | .epollin => doRecvMessage cfg s e.key io
  | .epollout =>
    let r := doSendMessage s e.key io.sends
    if r.1 then closeClient cfg r.2 e.key.fdkey e.key.connectTime
    else
      match epollMod r.2 e.key.fdkey ⟨e.key, false⟩ io.ctlOk with
      | some s' => s'
      | none => closeClient cfg r.2 e.key.fdkey e.key.connectTime
  | .other => closeClient cfg s e.key.fdkey e.key.connectTime

/-- What `accept` returns, and what becomes of the calls on the new
descriptor. -/
inductive AcceptResult
  | fail
  | conn (fd : ℤ) (ip : String) (port : UInt16) (nonBlock sndBuf rcvBuf noDelay : Bool) (now : ℤ)
      (ctlOk : Bool)
  deriving DecidableEq, Repr

/-- One round of `doAccept` on the new descriptor `fd`, and its calls of
`close`. -/
def acceptConnCalls (fd : ℤ) (ip : String) (port : UInt16)
    (nonBlock sndBuf rcvBuf noDelay : Bool) (now : ℤ) (ctlOk : Bool) : Sys × List ℤ :=
  let s := s.opened fd
  if ¬ nonBlock then s.closeCall fd
  else if ¬ sndBuf then s.closeCall fd
  else if ¬ rcvBuf then s.closeCall fd
  else if ¬ noDelay then s.closeCall fd
  else
    let s := getIndex s fd 0
    let sock := initSocketset ⟨fd, s.index, s.calls⟩ ip port clientType now
    match createConnectServerMsg cfg s sock with
    | none => s.closeCall fd
    | some s => addClientToEpollCalls cfg s sock ctlOk

/-- One round of `doAccept`. -/
def acceptConn (fd : ℤ) (ip : String) (port : UInt16) (nonBlock sndBuf rcvBuf noDelay : Bool)
    (now : ℤ) (ctlOk : Bool) : Sys :=
  (acceptConnCalls cfg s fd ip port nonBlock sndBuf rcvBuf noDelay now ctlOk).1

/-! ## `doSystemEvent` -/

/-- The socket of an `ADD_CLIENT` event with its index, which `getIndex` has
just given. -/
def indexed (sock : SocketSet) : SocketSet :=
  { sock with key := ⟨sock.key.fdkey, s.index, s.calls⟩ }

/-- The `ADD_CLIENT` branch as far as `addClientToEpoll`. -/
def addClientEvent (sock : SocketSet) : Sys :=
  let s := getIndex s sock.key.fdkey sock.attempt
  let sock := indexed s sock
  -- the key is published a second time, now with the index
  let s := s.setServerSocket sock.key.fdkey sock.key.connectTime sock.peerIp sock.peerPort sock.type
    sock.attempt true
  match createConnectServerMsg cfg s sock with
  | none => (s.close sock.key.fdkey).goto .sysEvent
  | some s => s.goto (.adding sock)

/-- One round of the loop of `doSystemEvent`. -/
def doSystemEvent : Sys :=
  match s.eventlist with
  | [] => s.goto .switch
  | .closeClient fd conntime :: es => closeClient cfg (s.withEvents es) fd conntime
  | .addClient sock :: es => addClientEvent cfg (s.withEvents es) sock

/-! ## The end of a round -/

/-- The messages of `m_recvtmplst` are moved to the receive queue, as far as
it has room. -/
def flush (recvlist : List NetData) : List NetData → List NetData
  | [] => recvlist
  | d :: ds =>
    if recvlist.length ≥ Bytes.uint32 cfg.recvQueueSize then flush recvlist ds
    else flush (recvlist ++ [d]) ds

/-- `switchSendMap`, and the backup map's descriptors in the order of the
scan. -/
def switchSendMap : Sys :=
  let r := Network.switchSendMap cfg.maxSendList s.cur s.bak
  { s with cur := r.1, bak := r.2, pc := .scan r.2.ascendingKeys [] }

/-- One round of the scan, at descriptor `fd`: the state, and whether `fd`
is put on `m_delsendfdlist`. -/
def scanFd (fd : ℤ) (ctlOk : Bool) : Sys × Bool :=
  match s.socketmap.lookup fd with
  -- the log line reads `second` of the end iterator
  | none => (s.record (.endDeref fd), true)
  | some none => (s, true)
  | some (some sock) =>
    match epollMod s fd ⟨sock.key, true⟩ ctlOk with
    | some s' => (s', false)
    | none => (closeClient cfg s sock.key.fdkey sock.key.connectTime, true)

/-- The connections `doKeepaliveTimeout` closes at `curtime`. -/
def timedOut (curtime : ℤ) : List ℤ :=
  (s.socketmap.entries.filter fun e =>
    match e.2 with
    | some sock => sock.refreshTime + cfg.keepalivetimeout < curtime
    | none => true).map Sigma.fst

/-- One round of the second loop of `doKeepaliveTimeout`, and its calls of
`close`. -/
def sweepFdCalls (fd : ℤ) : Sys × List ℤ :=
  match s.socketmap.lookup fd with
  | none => (s, [])
  | some none =>
    let r := s.closeCall fd
    ({ r.1 with socketmap := s.socketmap.erase fd }, r.2)
  | some (some sock) => closeClientCalls cfg s fd sock.key.connectTime

/-- One round of it. -/
def sweepFd (fd : ℤ) : Sys := (sweepFdCalls cfg s fd).1

/-! ## What the manager does for any thread -/

/-- `addMsgToSendList` for a message that was just allocated: its result,
and the state. -/
def addMsg (d : NetData) : Bool × Sys :=
  let p : NetDataPtr := ⟨s.allocs + 1, d⟩
  let r := addMsgToSendList cfg.maxSendList s.cur d.fddat p
  (r.1, { s with
    cur := r.2
    allocs := s.allocs + 1
    hist := if r.1 then s.hist ++ [.accepted p] else s.hist })

/-- The arguments of `sendMsgToServer` that make up the message. -/
structure ServerMsg where
  mainid : UInt16
  assistantid : UInt16
  code : UInt8
  reserve : UInt8
  pstream : Option BodyStream
  nlen : ℕ

/-- The message `sendMsgToServer` asks for, addressed by the key. -/
def ServerMsg.request (m : ServerMsg) (k : ServerKey) (ntype : ℤ) : SendRequest :=
  ⟨k.data.fddat, k.data.connectTime, k.data.peerIp, k.data.peerPort, ntype, m.mainid,
    m.assistantid, m.code, m.reserve, m.pstream, m.nlen⟩

/-- `sendMsgToServer`. -/
def sendMsgToServer (ntype : ℤ) (m : ServerMsg) : Sys :=
  match s.keys.ofType ntype with
  | none => s
  | some k =>
    if k.data.fddat ≥ 0 then
      match createFrame cfg.host (m.request k ntype) with
      | none => s
      | some d =>
        let r := addMsg cfg s d
        if r.1 then r.2.record (.toServer k.attempt (s.allocs + 1)) else r.2
    else s

/-- The message of `sendKeepaliveMsgToAllServer`. -/
def keepaliveMsg : ServerMsg := ⟨keepAlivePing, 0, 0, 0, none, 0⟩

/-- The servers it is sent to, in order. -/
def keepaliveTypes : List ℤ := [mainsvrType, dissvrType, logsvrType, usercentersvrType]

/-- `createCloseConnectEvent`. -/
def createCloseConnectEvent (fd conntime : ℤ) : Sys :=
  if s.eventlist.length ≥ eventQueueSize then s
  else s.withEvents (s.eventlist ++ [.closeClient fd conntime])

/-! ## `createServerConnect` -/

/-- What happens next in a call of `createServerConnect`. -/
inductive ConnectAction
  | start (ntype : ℤ)
  | socket (fd : ℤ)
  | socketFail
  | connectFail
  | connectOk (conntime now : ℤ)
  | publish
  | enqueue
  deriving DecidableEq, Repr

/-- The connecting thread `th` moves to `c`. -/
def Sys.atConnect (th : ℕ) (c : ConnectPc) : Sys :=
  { s with connecting := Function.update s.connecting th c }

/-- One step of `createServerConnect` by the thread `th`. -/
def connectStep (th : ℕ) : ConnectPc → ConnectAction → Option Sys
  | .idle, .start ntype =>
    -- the key is read under the lock, which is released before the connect
    if s.keysLocked then none
    else
      match s.keys.ofType ntype, cfg.server ntype with
      | some k, some _ =>
        if k.data.fddat ≥ 0 then some s else some (s.atConnect th (.checked ntype))
      | _, _ => some s
  | .checked ntype, .socket fd =>
    if 0 ≤ fd ∧ fd ∉ s.openfds then
      some ((s.opened fd).atConnect th (.connecting ntype fd))
    else none
  | .checked _, .socketFail => some (s.atConnect th .idle)
  | .connecting _ fd, .connectFail => some ((s.close fd).atConnect th .idle)
  | .connecting ntype fd, .connectOk conntime now =>
    let addr := (cfg.server ntype).getD ("", 0)
    -- the time of this key is the wall clock
    let sock := { initSocketset ⟨fd, conntime, 0⟩ addr.1 addr.2 ntype now with
      attempt := s.attempts + 1 }
    some ({ s with attempts := s.attempts + 1 }.atConnect th (.connected sock))
  | .connected sock, .publish =>
    if s.keysLocked then none
    else
      some ((s.setServerSocket sock.key.fdkey sock.key.connectTime sock.peerIp sock.peerPort
        sock.type sock.attempt false).atConnect th (.published sock))
  | .published sock, .enqueue =>
    if s.eventsLocked then none
    else if s.eventlist.length ≥ eventQueueSize then
      if s.keysLocked then none
      -- type 1 is the client's, so no key of a server is reset here
      else some (
        ((s.setServerSocket (-1) 0 "" 0 1 0 false).close sock.key.fdkey).atConnect th .idle)
    else
      some ((s.withEvents (s.eventlist ++ [.addClient sock])).atConnect th .idle)
  | _, _ => none

end Epoll

end EupuServer
