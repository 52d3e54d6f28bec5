import EupuServer.Network.GlobalMgr
import Mathlib.Data.Finset.Basic
/-!
# The state of the server

What the epoll thread, the workers and the connecting threads share, and
what each keeps to itself. A step of the system is one access to what is
shared: the epoll thread's place in its loop (`Pc`) says what it does next
and holds its local variables. The history records what the steps did, in
order; no step reads it.
-/

namespace EupuServer

namespace Epoll

open Network Protocol

/-! ## What is configured -/

/-- The configuration, and what `startup` left: the listening descriptor and
the descriptors that were open before it. -/
structure Config where
  host : Host
  listenfd : ℤ
  otherfds : Finset ℤ
  maxepollsize : ℕ
  keepalivetimeout : ℤ
  sendbufsize : ℤ
  readbufsize : ℤ
  maxSendList : ℤ
  recvQueueSize : ℤ
  server : ℤ → Option (String × UInt16)

/-- `m_keepaliveinterval`. -/
def Config.keepaliveinterval (cfg : Config) : ℤ := cfg.keepalivetimeout.tdiv 2

/-- `m_recvbuflen`. -/
def Config.recvbuflen (cfg : Config) : ℕ := recvBufLen cfg.sendbufsize cfg.readbufsize

/-- `m_listenkey`: the first index is its own. -/
def Config.listenkey (cfg : Config) : SocketKey := ⟨cfg.listenfd, 1, 1⟩

/-- `m_maxSize` of the event queue, which nobody sets. -/
def eventQueueSize : ℕ := 15000

/-! ## Descriptors and events -/

/-- What a descriptor is registered in epoll with: the pointer, and whether
it waits to be written (`EPOLLOUT`) in place of being read (`EPOLLIN`). -/
structure Registration where
  key : SocketKey
  out : Bool
  deriving DecidableEq, Repr

/-- The bit of an event `doEpollEvent` acts on. -/
inductive EventKind
  | epollin
  | epollout
  | other
  deriving DecidableEq, Repr

/-- An event of `epoll_wait`. -/
structure EpollEvent where
  key : SocketKey
  kind : EventKind
  deriving DecidableEq, Repr

/-- What the kernel answers to the calls one handler makes. -/
structure Io where
  recvs : List RecvResult := []
  sends : List SendResult := []
  now : ℤ := 0
  ctlOk : Bool := true
  deriving DecidableEq, Repr

/-! ## Where the threads are -/

/-- **The place of the epoll thread in its loop.** -/
inductive Pc
  /-- before `epoll_wait` -/
  | wait
  /-- in the batch, with the events not yet handled -/
  | batch (evs : List EpollEvent)
  /-- in `doAccept`, with the events behind it -/
  | accept (evs : List EpollEvent)
  /-- in `doSystemEvent`, before the next event -/
  | sysEvent
  /-- in `doSystemEvent`, before `addClientToEpoll` -/
  | adding (sock : SocketSet)
  /-- before `switchSendMap` -/
  | switch
  /-- in the scan of the backup map, with `m_delsendfdlist` -/
  | scan (fds del : List ℤ)
  /-- before `doKeepaliveTimeout` -/
  | keepalive
  /-- in `doKeepaliveTimeout`, with what is left of `timelist` -/
  | sweep (timelist : List ℤ)
  /-- before `doSendKeepaliveToServer` -/
  | keepaliveSend
  /-- in `sendKeepaliveMsgToAllServer`, with the types left -/
  | ping (types : List ℤ)
  deriving DecidableEq, Repr

/-- **The place of a thread in `createServerConnect`.** -/
inductive ConnectPc
  /-- not in a call -/
  | idle
  /-- the key was found negative -/
  | checked (ntype : ℤ)
  /-- in `doNonblockConnect`, with its socket -/
  | connecting (ntype fd : ℤ)
  /-- connected, and the key not yet set -/
  | connected (sock : SocketSet)
  /-- the key is set, and the event not yet queued -/
  | published (sock : SocketSet)
  deriving DecidableEq, Repr

/-! ## What happened -/

/-- A notification about a connection, or a frame of it. -/
inductive Notice
  | connected
  | frame (bs : List UInt8)
  | disconnected
  deriving DecidableEq, Repr

/-- Why a queued message was deleted: it was sent, it did not match the
connection under its descriptor, or its list was dropped. -/
inductive Discard
  | sent
  | mismatch
  | dropped
  deriving DecidableEq, Repr

/-- What is recorded of a run. -/
inductive Record
  /-- `getIndex` was called for a connection and gave `t` -/
  | index (id : ℕ) (fd t : ℤ) (attempt : ℕ)
  /-- a message about a connection was appended to `m_recvtmplst` -/
  | note (id : ℕ) (n : Notice)
  /-- `addMsgToSendList` returned true -/
  | accepted (p : NetDataPtr)
  /-- `sendMsgToServer` returned true -/
  | toServer (attempt addr : ℕ)
  /-- `send_msg` handed bytes of a message to the kernel -/
  | sent (via : SocketKey) (p : NetDataPtr) (bytes : List UInt8)
  /-- a queued message was deleted -/
  | deleted (why : Discard) (p : NetDataPtr)
  /-- a log call read through `m_socketmap.end()` -/
  | endDeref (fd : ℤ)
  deriving DecidableEq, Repr

/-- A read through `m_socketmap.end()`, which a build that logs does not
survive. -/
def Record.isEndDeref : Record → Bool
  | .endDeref _ => true
  | _ => false

/-! ## The state -/

/-- **The state of the server.** `calls` counts the calls of `getIndex`,
`allocs` the messages allocated for sending, and `attempts` the connects of
`createServerConnect`. -/
structure Sys where
  pc : Pc
  index : ℤ
  calls : ℕ
  socketmap : IntMap (Option SocketSet)
  recvtmplst : List NetData
  checkkeepalivetime : ℤ
  lastkeepalivetime : ℤ
  keys : ServerKeys
  cur : SendMap NetDataPtr
  bak : SendMap NetDataPtr
  recvlist : List NetData
  eventlist : List NetEvent
  openfds : Finset ℤ
  epollset : IntMap Registration
  connecting : ℕ → ConnectPc
  allocs : ℕ
  attempts : ℕ
  hist : List Record

/-- The state `startup` leaves at time `now`. -/
def Sys.init (cfg : Config) (now : ℤ) : Sys where
  pc := .wait
  index := 1
  calls := 1
  socketmap := ∅
  recvtmplst := []
  checkkeepalivetime := now
  lastkeepalivetime := now
  keys := {}
  cur := ∅
  bak := ∅
  recvlist := []
  eventlist := []
  openfds := insert cfg.listenfd cfg.otherfds
  epollset := AList.singleton cfg.listenfd ⟨cfg.listenkey, false⟩
  connecting := fun _ => .idle
  allocs := 0
  attempts := 0
  hist := []

namespace Sys

variable (s : Sys)

/-- The epoll thread goes on at `pc`. -/
def goto (pc : Pc) : Sys := { s with pc := pc }

@[simp] theorem goto_pc (pc : Pc) : (s.goto pc).pc = pc := rfl

/-- A descriptor is opened. -/
def opened (fd : ℤ) : Sys := { s with openfds := insert fd s.openfds }

/-- The event queue is left with `es`. -/
def withEvents (es : List NetEvent) : Sys := { s with eventlist := es }

/-- `close`, which also takes the descriptor out of epoll. -/
def close (fd : ℤ) : Sys :=
  { s with openfds := s.openfds.erase fd, epollset := s.epollset.erase fd }

/-- A record is added to the history. -/
def record (r : Record) : Sys := { s with hist := s.hist ++ [r] }

/-- A message is appended to `m_recvtmplst`. -/
def push (id : ℕ) (n : Notice) (d : NetData) : Sys :=
  { s with recvtmplst := s.recvtmplst ++ [d], hist := s.hist ++ [.note id n] }

/-- Whether the epoll thread holds the lock of the event queue. -/
def eventsLocked : Bool :=
  match s.pc with
  | .sysEvent => true
  | .adding _ => true
  | _ => false

/-- Whether the epoll thread holds `m_serverlock`. -/
def keysLocked : Bool :=
  match s.pc with
  | .ping (_ :: _) => true
  | _ => false

/-- `setServerSocket`. -/
def setServerSocket (fd conntime : ℤ) (ip : String) (port : UInt16) (ntype : ℤ) (attempt : ℕ)
    (indexed : Bool) : Sys :=
  { s with keys := s.keys.setServerSocket fd conntime ip port ntype attempt indexed }

end Sys

end Epoll

end EupuServer
