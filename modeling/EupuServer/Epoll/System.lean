import EupuServer.Common.Machine
import EupuServer.Epoll.Handlers
/-!
# The server as a machine

The steps of the epoll thread, of the workers and of the connecting
threads, interleaved. A label names the step and carries what the kernel
answers. Of the kernel it is assumed that `epoll_wait` reports a registered
descriptor at most once and with the pointer it was registered with, and
that `accept` and `socket` return a descriptor that is not open.
-/

namespace EupuServer

namespace Epoll

open Network Protocol

/-- **The labels.** The first group are the steps of the epoll thread. -/
inductive Action
  | epollWait (evs : List EpollEvent)
  | event (io : Io)
  | accept (r : AcceptResult)
  | flush
  | sysEvent
  | register (ctlOk : Bool)
  | switchSendMap
  | scan (ctlOk : Bool)
  | scanEnd
  | keepalive (now : ℤ)
  | sweep
  | sweepEnd (now : ℤ)
  | keepaliveSend (now : ℤ)
  | ping
  | pingEnd (now : ℤ)
  | addMsg (d : NetData)
  | sendMsgToServer (ntype : ℤ) (m : ServerMsg)
  | createCloseConnectEvent (fd conntime : ℤ)
  | outQueue
  | connect (th : ℕ) (a : ConnectAction)

/-- The descriptor of a connection that is accepted and goes on to be added,
and what the kernel then says. -/
def Action.accepted : Action → Option (ℤ × Bool)
  | .accept (.conn fd _ _ true true true true _ ctlOk) => some (fd, ctlOk)
  | _ => none

variable (cfg : Config) (s : Sys)

/-- Whether `epoll_wait` can report `e`. -/
def reported (e : EpollEvent) : Bool :=
  match s.epollset.lookup e.key.fdkey with
  | none => false
  | some reg =>
    reg.key = e.key ∧ (e.kind = .epollin → reg.out = false) ∧ (e.kind = .epollout → reg.out = true)

/-- What `epoll_wait` can return. -/
def Reported (evs : List EpollEvent) : Prop :=
  evs.length ≤ cfg.maxepollsize ∧ (evs.map fun e => e.key.fdkey).Nodup ∧
    ∀ e ∈ evs, reported s e = true

instance (evs : List EpollEvent) : Decidable (Reported cfg s evs) :=
  inferInstanceAs (Decidable (_ ∧ _ ∧ _))

/-- **A step of the server.** -/
def next : Action → Option Sys
  | .epollWait evs =>
    match s.pc with
    | .wait => if Reported cfg s evs then some (s.goto (.batch evs)) else none
    | _ => none
  | .event io =>
    match s.pc with
    | .batch (e :: evs) =>
      -- only `EPOLLIN` on the listening descriptor is a client that connects
      if e.kind = .epollin ∧ e.key.fdkey = cfg.listenfd then some (s.goto (.accept evs))
      else some ((handleEvent cfg s e io).goto (.batch evs))
    | _ => none
  | .accept r =>
    match s.pc, r with
    -- `doAccept` takes connections until `accept` has none
    | .accept evs, .fail => some (s.goto (.batch evs))
    | .accept _, .conn fd ip port nonBlock sndBuf rcvBuf noDelay now ctlOk =>
      if 0 ≤ fd ∧ fd ∉ s.openfds then
        some (acceptConn cfg s fd ip port nonBlock sndBuf rcvBuf noDelay now ctlOk)
      else none
    | _, _ => none
  | .flush =>
    match s.pc with
    | .batch [] =>
      some { s with
        pc := .sysEvent, recvtmplst := [], recvlist := flush cfg s.recvlist s.recvtmplst }
    | _ => none
  | .sysEvent =>
    match s.pc with
    | .sysEvent => some (doSystemEvent cfg s)
    | _ => none
  | .register ctlOk =>
    match s.pc with
    | .adding sock => some ((addClientToEpoll cfg s sock ctlOk).goto .sysEvent)
    | _ => none
  | .switchSendMap =>
    match s.pc with
    | .switch => some (switchSendMap cfg s)
    | _ => none
  | .scan ctlOk =>
    match s.pc with
    | .scan (fd :: fds) del =>
      -- `m_delsendfdlist` is gone through once the scan is over
      let r := scanFd cfg s fd ctlOk
      some (r.1.goto (.scan fds (if r.2 then del ++ [fd] else del)))
    | _ => none
  | .scanEnd =>
    match s.pc with
    | .scan [] del => some ((del.foldl deleteSendMsgFromSendMap s).goto .keepalive)
    | _ => none
  | .keepalive now =>
    match s.pc with
    | .keepalive =>
      if now - s.checkkeepalivetime < cfg.keepaliveinterval then some (s.goto .keepaliveSend)
      else some (s.goto (.sweep (timedOut cfg s now)))
    | _ => none
  | .sweep =>
    match s.pc with
    | .sweep (fd :: fds) => some ((sweepFd cfg s fd).goto (.sweep fds))
    | _ => none
  | .sweepEnd now =>
    match s.pc with
    | .sweep [] => some { s with pc := .keepaliveSend, checkkeepalivetime := now }
    | _ => none
  | .keepaliveSend now =>
    match s.pc with
    | .keepaliveSend =>
      if now - s.lastkeepalivetime < cfg.keepaliveinterval then some (s.goto .wait)
      else some (s.goto (.ping keepaliveTypes))
    | _ => none
  | .ping =>
    match s.pc with
    | .ping (ntype :: types) =>
      some ((sendMsgToServer cfg s ntype keepaliveMsg).goto (.ping types))
    | _ => none
  | .pingEnd now =>
    match s.pc with
    | .ping [] => some { s with pc := .wait, lastkeepalivetime := now }
    | _ => none
  | .addMsg d => some (addMsg cfg s d).2
  | .sendMsgToServer ntype m => if s.keysLocked then none else some (sendMsgToServer cfg s ntype m)
  | .createCloseConnectEvent fd conntime =>
    if s.eventsLocked then none else some (createCloseConnectEvent s fd conntime)
  | .outQueue =>
    match s.recvlist with
    | [] => none
    | _ :: ds => some { s with recvlist := ds }
  | .connect th a => connectStep cfg s th (s.connecting th) a

/-- **The server**, from the state that `startup` leaves at time `now`. -/
def server (now : ℤ) : Machine Sys Action where
  init := Sys.init cfg now
  next := next cfg

/-! ## A small server -/

/-- A server that connects to no other. -/
def smallConfig : Config where
  host := .little
  listenfd := 3
  otherfds := ∅
  maxepollsize := 10
  keepalivetimeout := 120
  sendbufsize := 0
  readbufsize := 0
  maxSendList := 10
  recvQueueSize := 100
  server _ := none

/-- The same server, with an address for each server it may connect to. -/
def peerConfig : Config := { smallConfig with server := fun _ => some ("", 0) }

/-- One round of the loop in which one client is accepted on `fd`. -/
def acceptRound (fd : ℤ) : List Action :=
  [.epollWait [⟨smallConfig.listenkey, .epollin⟩], .event {},
    .accept (.conn fd "" 0 true true true true 0 true), .accept .fail]

/-- The call of `createServerConnect` by the thread `0` that gets the
descriptor `fd`. -/
def startConnect (fd : ℤ) : List Action :=
  [.connect 0 (.start mainsvrType), .connect 0 (.socket fd)]

/-- The end of a round in which nothing is to be sent. -/
def quietEnd : List Action :=
  [.sysEvent, .switchSendMap, .scanEnd, .keepalive 0, .keepaliveSend 0]

/-- The end of a round in which one connection has messages. -/
def sendEnd : List Action :=
  [.sysEvent, .switchSendMap, .scan true, .scanEnd, .keepalive 0, .keepaliveSend 0]

/-- A message for the connection `(fd, t)`. -/
def reply (fd t : ℤ) (bs : List UInt8) : NetData where
  fddat := fd
  connectTime := t
  pdata := bs
  dataLen := bs.length

end Epoll

end EupuServer
