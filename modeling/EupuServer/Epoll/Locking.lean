import EupuServer.Common.Locks
import EupuServer.Network.SysQueue
import EupuServer.Epoll.Effect
import Mathlib.Data.Fintype.Order
/-!
# The locks of the manager

The functions that lock, as programs of one thread over the four mutexes:
each takes and gives back its locks where the source does, on every path.
Run alone, a program does what the function of the model does. The locks are
taken in one order (`Mutex.rank`), so no threads wait for each other.
-/

namespace EupuServer

namespace Epoll

open Network Protocol Bytes LockProg

/-- The four mutexes: of the event queue, `m_serverlock`, `m_sendmaplock`,
and of the receive queue. -/
inductive Mutex
  | eventQueue
  | server
  | sendMap
  | recvQueue
  deriving DecidableEq, Repr

/-- The order in which the mutexes are taken. -/
def Mutex.rank : Mutex → Fin 4
  | .eventQueue => 0
  | .server => 1
  | .sendMap => 2
  | .recvQueue => 3

/-- A function of the manager. -/
abbrev Locked := LockProg Mutex Sys

namespace Locked

/-! ## The queues -/

/-- A queue of the manager: its mutex, and its place in the state. -/
structure Queue (α : Type) where
  mutex : Mutex
  get : Sys → SysQueue α
  set : Sys → SysQueue α → Sys

/-- `m_eventlist`. -/
def eventQueue : Queue NetEvent where
  mutex := .eventQueue
  get s := ⟨s.eventlist, eventQueueSize⟩
  set s q := s.withEvents q.datalst

variable (cfg : Config)

/-- `m_recvlist`. -/
def recvQueue : Queue NetData where
  mutex := .recvQueue
  get s := ⟨s.recvlist, cfg.recvQueueSize⟩
  set s q := { s with recvlist := q.datalst }

section Queue

variable {α : Type} (q : Queue α)

def inQueueWithoutLock (arg : Option α) (bhead : Bool) : Locked Bool :=
  modifyGet fun s =>
    let r := (q.get s).inQueueWithoutLock arg bhead
    (r.1, q.set s r.2)

def outQueueWithoutLock (bhead : Bool) : Locked (Option α) :=
  modifyGet fun s =>
    let r := (q.get s).outQueueWithoutLock bhead
    (r.1, q.set s r.2)

/-- `inQueue`. -/
def inQueue (arg : Option α) (bhead : Bool) : Locked Bool := do
  lock q.mutex
  let bret ← inQueueWithoutLock q arg bhead
  unlock q.mutex
  return bret

/-- `outQueue`. -/
def outQueue (bhead : Bool) : Locked (Option α) := do
  lock q.mutex
  let arg ← outQueueWithoutLock q bhead
  unlock q.mutex
  return arg

end Queue

/-! ## The send maps -/

/-- `addMsgToSendList`. The argument may be a null pointer. -/
def addMsgToSendList : Option NetDataPtr → Locked Bool
  | none => return false
  | some pmsg => do
    lock .sendMap
    let cur ← modifyGet fun s => (s.cur, s)
    let fd := pmsg.obj.fddat
    match cur.lookup fd with
    | none =>
      modify fun s => { s with cur := s.cur.insert fd (some [pmsg]) }
      unlock .sendMap
      return true
    | some (some plst) =>
      if plst.length < uint32 cfg.maxSendList then
        modify fun s => { s with cur := s.cur.insert fd (some (plst ++ [pmsg])) }
        unlock .sendMap
        return true
      else
        unlock .sendMap
        return false
    | some none =>
      modify fun s => { s with cur := s.cur.erase fd }
      unlock .sendMap
      return false

/-- `createMsgToSendList`: the address of the message, where it returns
true. -/
def createMsgToSendList (r : SendRequest) : Locked (Option ℕ) :=
  match createFrame cfg.host r with
  | none => return none
  | some d => do
    let addr ← modifyGet fun s => (s.allocs + 1, { s with allocs := s.allocs + 1 })
    let bret ← addMsgToSendList cfg (some ⟨addr, d⟩)
    if bret then do
      modify (·.record (.accepted ⟨addr, d⟩))
      return some addr
    else return none

/-- `switchSendMap`: the merge, and the swap of the two maps. -/
def switchSendMap : Locked Unit := do
  lock .sendMap
  let cur ← modifyGet fun s => (s.cur, s)
  if cur.keys.length = 0 then unlock .sendMap
  else
    modify fun s => { s with cur := s.bak.ascending.foldl (mergeStep cfg.maxSendList) s.cur }
    modify fun s => { s with cur := ∅, bak := s.cur }
    unlock .sendMap

/-! ## The server keys -/

/-- `setServerSocket`. -/
def setServerSocket (fd conntime : ℤ) (ip : String) (port : UInt16) (ntype : ℤ) (attempt : ℕ)
    (indexed : Bool) : Locked Unit := do
  lock .server
  modify (·.setServerSocket fd conntime ip port ntype attempt indexed)
  unlock .server

/-- `if (blocked) m_serverlock.Lock()`. -/
def lockIf (blocked : Bool) : Locked Unit := if blocked then lock .server else return

/-- `if (blocked) m_serverlock.UnLock()`. -/
def unlockIf (blocked : Bool) : Locked Unit := if blocked then unlock .server else return

/-- `sendMsgToServer`. -/
def sendMsgToServer (ntype : ℤ) (m : ServerMsg) (blocked : Bool) : Locked Bool := do
  lockIf blocked
  let keys ← modifyGet fun s => (s.keys, s)
  match keys.ofType ntype with
  | none =>
    unlockIf blocked
    return false
  | some k =>
    if k.data.fddat ≥ 0 then do
      let bret ← createMsgToSendList cfg (m.request k ntype)
      match bret with
      | none => do
        unlockIf blocked
        return false
      | some addr => do
        modify (·.record (.toServer k.attempt addr))
        unlockIf blocked
        return true
    else do
      unlockIf blocked
      return false

/-- `sendKeepaliveMsgToAllServer`. -/
def sendKeepaliveMsgToAllServer : Locked Unit := do
  lock .server
  keepaliveTypes.forM fun ntype => discard (sendMsgToServer cfg ntype keepaliveMsg false)
  unlock .server

/-- What the calls in `createServerConnect` come to: the descriptor of
`doNonblockConnect`, where it connects, and the two times. -/
structure ConnectIo where
  fd : Option ℤ
  conntime : ℤ
  now : ℤ

/-- `createServerConnect`. -/
def createServerConnect (ntype : ℤ) (io : ConnectIo) : Locked Unit := do
  lock .server
  let keys ← modifyGet fun s => (s.keys, s)
  match keys.ofType ntype, cfg.server ntype with
  | some pdata, some pserver =>
    if pdata.data.fddat ≥ 0 then unlock .server
    else do
      unlock .server
      match io.fd with
      | none => return
      | some fd =>
        let attempt ← modifyGet fun s => (s.attempts + 1, { s with attempts := s.attempts + 1 })
        let sock := { initSocketset ⟨fd, io.conntime, 0⟩ pserver.1 pserver.2 ntype io.now with
          attempt := attempt }
        setServerSocket fd io.conntime pserver.1 pserver.2 ntype attempt false
        let bret ← inQueue eventQueue (some (.addClient sock)) false
        if bret then return
        else do
          setServerSocket (-1) 0 "" 0 1 0 false
          modify (·.close fd)
  | _, _ => unlock .server

/-- `createCloseConnectEvent`. -/
def createCloseConnectEvent (fd conntime : ℤ) : Locked Bool :=
  inQueue eventQueue (some (.closeClient fd conntime)) false

/-! ## The epoll thread -/

/-- `closeClient`. -/
def closeClient (fd _conntime : ℤ) : Locked Unit :=
  if fd < 0 then return
  else do
    let entry ← modifyGet fun s => (s.socketmap.lookup fd, s.close fd)
    match entry with
    | none => return
    | some none => modify fun s => { s with socketmap := s.socketmap.erase fd }
    | some (some sock) => do
      if sock.type > clientType then setServerSocket (-1) 0 "" 0 sock.type 0 false
      modify fun s => createClientCloseMsg cfg s sock
      modify fun s => { s with socketmap := s.socketmap.erase fd }

/-- What `doSystemEvent` does for an event. -/
def handleSysEvent (ctlOk : Bool) : NetEvent → Locked Unit
  | .closeClient fd conntime => closeClient cfg fd conntime
  | .addClient sock => do
    let sock ← modifyGet fun s =>
      let s := getIndex s sock.key.fdkey sock.attempt
      (indexed s sock, s)
    setServerSocket sock.key.fdkey sock.key.connectTime sock.peerIp sock.peerPort sock.type
      sock.attempt true
    modify fun s =>
      match createConnectServerMsg cfg s sock with
      | none => s.close sock.key.fdkey
      | some s => addClientToEpoll cfg s sock ctlOk

/-- The loop of `doSystemEvent`, with what `epoll_ctl` answers in each round.
The queue is locked, so it has no more rounds than the queue has events. -/
def sysEventLoop (ctlOk : ℕ → Bool) : ℕ → Locked Unit
  | 0 => return
  | n + 1 => do
    let pdata ← outQueueWithoutLock eventQueue true
    match pdata with
    | none => return
    | some e => do
      handleSysEvent cfg (ctlOk n) e
      sysEventLoop ctlOk n

/-- `doSystemEvent`. -/
def doSystemEvent (ctlOk : ℕ → Bool) : Locked Unit := do
  let empty ← modifyGet fun s => (s.eventlist.isEmpty, s)
  if empty then return
  else do
    lock .eventQueue
    let size ← modifyGet fun s => (s.eventlist.length, s)
    sysEventLoop cfg ctlOk (size + 1)
    unlock .eventQueue

/-- The flush of `m_recvtmplst`. -/
def flush : Locked Unit := do
  let recvtmplst ← modifyGet fun s => (s.recvtmplst, s)
  if recvtmplst.length > 0 then do
    lock .recvQueue
    recvtmplst.forM fun pdata =>
      discard (inQueueWithoutLock (recvQueue cfg) (some pdata) false)
    unlock .recvQueue
    modify fun s => { s with recvtmplst := [] }
  else return

/-! ## Run alone -/

variable {cfg} {s : Sys}

theorem run_addMsgToSendList (p : NetDataPtr) :
    (addMsgToSendList cfg (some p)).run s =
      ((Network.addMsgToSendList cfg.maxSendList s.cur p.obj.fddat p).1, { s with
        cur := (Network.addMsgToSendList cfg.maxSendList s.cur p.obj.fddat p).2 }) := by
  unfold addMsgToSendList Network.addMsgToSendList
  simp only [run_bind, run_lock, run_modifyGet]
  rcases s.cur.lookup p.obj.fddat with _ | _ | plst
  · rfl
  · rfl
  · simp only
    split <;> rfl

theorem run_createMsgToSendList (r : SendRequest) :
    (createMsgToSendList cfg r).run s =
      match createFrame cfg.host r with
      | none => (none, s)
      | some d =>
        (if (addMsg cfg s d).1 then some (s.allocs + 1) else none, (addMsg cfg s d).2) := by
  unfold createMsgToSendList
  rcases createFrame cfg.host r with _ | d
  · rfl
  · change (addMsgToSendList cfg (some ⟨s.allocs + 1, d⟩) >>= _).run
      { s with allocs := s.allocs + 1 } = _
    rw [run_bind_of (run_addMsgToSendList _)]
    rcases hadd : Network.addMsgToSendList cfg.maxSendList s.cur d.fddat ⟨s.allocs + 1, d⟩ with
      ⟨_ | _, cur⟩
    · simp only [addMsg, hadd]
      rfl
    · simp only [addMsg, hadd]
      rfl

theorem run_switchSendMap :
    ((switchSendMap cfg).run s).2 = { s with
      cur := (Network.switchSendMap cfg.maxSendList s.cur s.bak).1
      bak := (Network.switchSendMap cfg.maxSendList s.cur s.bak).2 } := by
  unfold switchSendMap Network.switchSendMap
  change (run (if s.cur.keys.length = 0 then _ else _) s).2 = _
  by_cases hempty : s.cur.keys.length = 0
  · simp only [if_pos hempty]
    rfl
  · simp only [if_neg hempty]
    rfl

@[simp] theorem run_lockIf (blocked : Bool) : (lockIf blocked).run s = ((), s) := by
  cases blocked <;> rfl

@[simp] theorem run_unlockIf (blocked : Bool) : (unlockIf blocked).run s = ((), s) := by
  cases blocked <;> rfl

theorem run_sendMsgToServer (ntype : ℤ) (m : ServerMsg) (blocked : Bool) :
    ((sendMsgToServer cfg ntype m blocked).run s).2 = Epoll.sendMsgToServer cfg s ntype m := by
  unfold sendMsgToServer Epoll.sendMsgToServer
  simp only [run_bind, run_lockIf, run_modifyGet]
  rcases s.keys.ofType ntype with _ | k
  · simp
  · by_cases hfd : k.data.fddat ≥ 0
    · simp only [if_pos hfd, run_bind, run_createMsgToSendList]
      rcases createFrame cfg.host (m.request k ntype) with _ | d
      · simp
      · by_cases hadd : (addMsg cfg s d).1 = true
        · simp [hadd]
        · simp [hadd]
    · simp [if_neg hfd]

theorem run_closeClient (fd conntime : ℤ) :
    ((closeClient cfg fd conntime).run s).2 = Epoll.closeClient cfg s fd conntime := by
  unfold closeClient Epoll.closeClient closeClientCalls
  by_cases hfd : fd < 0
  · rw [if_pos hfd, if_pos hfd]
    rfl
  · rw [if_neg hfd, if_neg hfd]
    simp only [run_bind, run_modifyGet]
    rcases s.socketmap.lookup fd with _ | _ | sock
    · rfl
    · rfl
    · change (run (if sock.type > clientType then _ else _) _).2 = _
      by_cases htype : sock.type > clientType
      · simp only [if_pos htype]
        unfold createClientCloseMsg
        split <;> rfl
      · simp only [if_neg htype]
        unfold createClientCloseMsg
        split <;> rfl

/-- The loop of the flush. -/
theorem run_flushLoop (ds : List NetData) :
    (ds.forM fun pdata => discard (inQueueWithoutLock (recvQueue cfg) (some pdata) false)).run s =
      ((), { s with recvlist := Epoll.flush cfg s.recvlist ds }) := by
  induction ds generalizing s with
  | nil => rfl
  | cons d ds ih =>
    change (discard (inQueueWithoutLock (recvQueue cfg) (some d) false) >>= fun _ =>
      ds.forM fun pdata =>
        discard (inQueueWithoutLock (recvQueue cfg) (some pdata) false)).run s = _
    have hround :
        (discard (inQueueWithoutLock (recvQueue cfg) (some d) false)).run s = ((), { s with
        recvlist := if s.recvlist.length ≥ uint32 cfg.recvQueueSize then s.recvlist
          else s.recvlist ++ [d] }) := by
      change ((), (recvQueue cfg).set s
        (SysQueue.inQueueWithoutLock ⟨s.recvlist, cfg.recvQueueSize⟩ (some d) false).2) = _
      rw [SysQueue.inQueueWithoutLock_tail]
      by_cases hfull : s.recvlist.length ≥ uint32 cfg.recvQueueSize
      · simp only [recvQueue, if_pos hfull]
      · simp only [recvQueue, if_neg hfull]
    rw [run_bind_of hround, ih, Epoll.flush]
    by_cases hfull : s.recvlist.length ≥ uint32 cfg.recvQueueSize
    · simp only [if_pos hfull]
    · simp only [if_neg hfull]

theorem run_flush :
    ((flush cfg).run s).2 =
      { s with recvtmplst := [], recvlist := Epoll.flush cfg s.recvlist s.recvtmplst } := by
  change (run (if s.recvtmplst.length > 0 then _ else _) s).2 = _
  by_cases hlen : s.recvtmplst.length > 0
  · rw [if_pos hlen]
    change (LockProg.run (List.forM s.recvtmplst _ >>= _) s).2 = _
    rw [run_bind_of (run_flushLoop _)]
    rfl
  · rw [if_neg hlen]
    have hnil : s.recvtmplst = [] := List.length_eq_zero_iff.mp (by omega)
    have hsame : s = { s with recvtmplst := [] } := by rw [← hnil]
    rw [hnil]
    exact hsame

theorem run_createCloseConnectEvent (fd conntime : ℤ) :
    ((createCloseConnectEvent fd conntime).run s).2 =
      Epoll.createCloseConnectEvent s fd conntime := by
  change eventQueue.set s (SysQueue.inQueueWithoutLock ⟨s.eventlist, eventQueueSize⟩
    (some (.closeClient fd conntime)) false).2 = _
  rw [SysQueue.inQueueWithoutLock_tail]
  have hsize : uint32 (eventQueueSize : ℤ) = eventQueueSize := rfl
  by_cases hfull : s.eventlist.length ≥ eventQueueSize
  · simp only [eventQueue, Epoll.createCloseConnectEvent, hsize, if_pos hfull]
    rfl
  · simp only [eventQueue, Epoll.createCloseConnectEvent, hsize, if_neg hfull]

/-- A round of `doSystemEvent`, with what follows it where a connection is
added. -/
theorem run_handleSysEvent (ctlOk : Bool) {e : NetEvent} {es : List NetEvent}
    (hpc : s.pc = .sysEvent)
    (hlst : s.eventlist = e :: es) :
    ((handleSysEvent cfg ctlOk e).run (s.withEvents es)).2 =
      match (Epoll.doSystemEvent cfg s).pc with
      | .adding sock =>
        (addClientToEpoll cfg (Epoll.doSystemEvent cfg s) sock ctlOk).goto .sysEvent
      | _ => Epoll.doSystemEvent cfg s := by
  cases e with
  | closeClient fd conntime =>
    have hdo : Epoll.doSystemEvent cfg s =
        Epoll.closeClient cfg (s.withEvents es) fd conntime := by
      rw [Epoll.doSystemEvent, hlst]
    have hstay : (Epoll.doSystemEvent cfg s).pc = .sysEvent := by
      rw [hdo, closeClient_eq]
      exact hpc
    rw [hstay, hdo]
    exact run_closeClient fd conntime
  | addClient sock =>
    let c := newConn (s.withEvents es) sock
    let x : Sys := { announce (getIndex (s.withEvents es) sock.key.fdkey sock.attempt) c with
      keys := addedKeys (s.withEvents es) sock }
    have hdo : Epoll.doSystemEvent cfg s = x.goto (.adding c) := by
      rw [Epoll.doSystemEvent, hlst]
      exact addClientEvent_eq cfg (s.withEvents es) sock
    have hrun : ((handleSysEvent cfg ctlOk (.addClient sock)).run (s.withEvents es)).2 =
        addClientToEpoll cfg x c ctlOk := by
      change (match createConnectServerMsg cfg { getIndex (s.withEvents es) sock.key.fdkey
        sock.attempt with keys := addedKeys (s.withEvents es) sock } c with
        | none => _
        | some s => addClientToEpoll cfg s c ctlOk) = _
      rw [createConnectServerMsg_eq]
      rfl
    have hstay : x.goto .sysEvent = x := by
      have hx : x.pc = .sysEvent := hpc
      rw [Sys.goto, ← hx]
    rw [hrun, hdo]
    change _ = (addClientToEpoll cfg (x.goto (.adding c)) c ctlOk).goto .sysEvent
    rw [addClientToEpoll_goto]
    change _ = (addClientToEpoll cfg x c ctlOk).goto .sysEvent
    rw [← addClientToEpoll_goto, hstay]

/-! ## In order -/

variable {held : List Mutex} {α : Type}

/-- All the locks a thread holds stand below `r`. -/
def Below (r : Fin 4) (held : List Mutex) : Prop := ∀ m ∈ held, m.rank < r

theorem Below.nil (r : Fin 4) : Below r [] := fun _ h => by cases h

theorem Below.mono {r r' : Fin 4} (h : Below r held) (hr : r ≤ r') : Below r' held :=
  fun m hm => lt_of_lt_of_le (h m hm) hr

/-- The rank of the lock that is taken stands above the others. -/
theorem Below.cons {r : Fin 4} {m : Mutex} (h : Below m.rank held) (hr : m.rank < r) :
    Below r (m :: held) :=
  List.forall_mem_cons.mpr ⟨hr, h.mono hr.le⟩

theorem inQueue_orderly (q : Queue α) (arg : Option α) (bhead : Bool)
    (h : Below q.mutex.rank held) : (inQueue q arg bhead).Orderly Mutex.rank held held :=
  .bind (.lock h) fun _ => .bind (.modifyGet _ _) fun _ => .bind .unlock fun _ => .pure _ _

theorem outQueue_orderly (q : Queue α) (bhead : Bool) (h : Below q.mutex.rank held) :
    (outQueue q bhead).Orderly Mutex.rank held held :=
  .bind (.lock h) fun _ => .bind (.modifyGet _ _) fun _ => .bind .unlock fun _ => .pure _ _

theorem addMsgToSendList_orderly (pmsg : Option NetDataPtr) (h : Below 2 held) :
    (addMsgToSendList cfg pmsg).Orderly Mutex.rank held held := by
  rcases pmsg with _ | pmsg
  · exact .pure _ _
  · refine .bind (.lock h) fun _ => .bind (.modifyGet _ _) fun cur => ?_
    simp only
    split
    · exact .bind (.modify _ _) fun _ => .bind .unlock fun _ => .pure _ _
    · split
      · exact .bind (.modify _ _) fun _ => .bind .unlock fun _ => .pure _ _
      · exact .bind .unlock fun _ => .pure _ _
    · exact .bind (.modify _ _) fun _ => .bind .unlock fun _ => .pure _ _

theorem createMsgToSendList_orderly (r : SendRequest) (h : Below 2 held) :
    (createMsgToSendList cfg r).Orderly Mutex.rank held held := by
  unfold createMsgToSendList
  split
  · exact .pure _ _
  · refine .bind (.modifyGet _ _) fun addr => .bind (addMsgToSendList_orderly _ h) fun bret => ?_
    split
    · exact .bind (.modify _ _) fun _ => .pure _ _
    · exact .pure _ _

theorem switchSendMap_orderly (h : Below 2 held) :
    (switchSendMap cfg).Orderly Mutex.rank held held := by
  refine .bind (.lock h) fun _ => .bind (.modifyGet _ _) fun cur => ?_
  split
  · exact .unlock
  · exact .bind (.modify _ _) fun _ => .bind (.modify _ _) fun _ => .unlock

theorem setServerSocket_orderly (fd conntime : ℤ) (ip : String) (port : UInt16) (ntype : ℤ)
    (attempt : ℕ) (indexed : Bool) (h : Below 1 held) :
    (setServerSocket fd conntime ip port ntype attempt indexed).Orderly Mutex.rank held held :=
  .bind (.lock h) fun _ => .bind (.modify _ _) fun _ => .unlock

/-- The call that locks, and the one whose caller holds the lock. -/
theorem sendMsgToServer_orderly (ntype : ℤ) (m : ServerMsg) (blocked : Bool)
    (h : Below (if blocked then 1 else 2) held) :
    (sendMsgToServer cfg ntype m blocked).Orderly Mutex.rank held held := by
  let inside := if blocked then Mutex.server :: held else held
  have hin : Below 2 inside := by
    cases blocked
    · exact h
    · exact Below.cons h (by decide)
  have hlock : (lockIf blocked).Orderly Mutex.rank held inside := by
    cases blocked
    · exact .pure _ _
    · exact .lock h
  have hunlock : (unlockIf blocked).Orderly Mutex.rank inside held := by
    cases blocked
    · exact .pure _ _
    · exact .unlock
  refine .bind hlock fun _ => .bind (.modifyGet _ _) fun keys => ?_
  split
  · exact .bind hunlock fun _ => .pure _ _
  · split
    · refine .bind (createMsgToSendList_orderly _ hin) fun bret => ?_
      split
      · exact .bind hunlock fun _ => .pure _ _
      · exact .bind (.modify _ _) fun _ => .bind hunlock fun _ => .pure _ _
    · exact .bind hunlock fun _ => .pure _ _

theorem sendKeepaliveMsgToAllServer_orderly (h : Below 1 held) :
    (sendKeepaliveMsgToAllServer cfg).Orderly Mutex.rank held held := by
  have hin : Below 2 (Mutex.server :: held) := Below.cons h (by decide)
  refine .bind (.lock h) fun _ => .bind (.forM (fun ntype => ?_) _) fun _ => .unlock
  exact .bind (sendMsgToServer_orderly ntype keepaliveMsg false hin) fun _ => .pure _ _

theorem createServerConnect_orderly (ntype : ℤ) (io : ConnectIo) (h : Below 0 held) :
    (createServerConnect cfg ntype io).Orderly Mutex.rank held held := by
  have hserver : Below 1 held := h.mono (by decide)
  refine .bind (.lock hserver) fun _ => .bind (.modifyGet _ _) fun keys => ?_
  split
  · split
    · exact .unlock
    · refine .bind .unlock fun _ => ?_
      split
      · exact .pure _ _
      · refine .bind (.modifyGet _ _) fun attempt => ?_
        refine .bind (setServerSocket_orderly _ _ _ _ _ _ _ hserver) fun _ => ?_
        refine .bind (inQueue_orderly _ _ _ h) fun bret => ?_
        split
        · exact .pure _ _
        · exact .bind (setServerSocket_orderly _ _ _ _ _ _ _ hserver) fun _ => .modify _ _
  · exact .unlock

theorem closeClient_orderly (fd conntime : ℤ) (h : Below 1 held) :
    (closeClient cfg fd conntime).Orderly Mutex.rank held held := by
  unfold closeClient
  split
  · exact .pure _ _
  · refine .bind (.modifyGet _ _) fun entry => ?_
    split
    · exact .pure _ _
    · exact .modify _ _
    · split
      · exact .bind (setServerSocket_orderly _ _ _ _ _ _ _ h) fun _ =>
          .bind (.modify _ _) fun _ => .modify _ _
      · exact .bind (.modify _ _) fun _ => .modify _ _

theorem handleSysEvent_orderly (ctlOk : Bool) (e : NetEvent) (h : Below 1 held) :
    (handleSysEvent cfg ctlOk e).Orderly Mutex.rank held held := by
  cases e with
  | closeClient fd conntime => exact closeClient_orderly fd conntime h
  | addClient sock =>
    exact .bind (.modifyGet _ _) fun _ =>
      .bind (setServerSocket_orderly _ _ _ _ _ _ _ h) fun _ => .modify _ _

theorem sysEventLoop_orderly (ctlOk : ℕ → Bool) (n : ℕ) (h : Below 1 held) :
    (sysEventLoop cfg ctlOk n).Orderly Mutex.rank held held := by
  induction n with
  | zero => exact .pure _ _
  | succ n ih =>
    refine .bind (.modifyGet _ _) fun pdata => ?_
    split
    · exact .pure _ _
    · exact .bind (handleSysEvent_orderly _ _ h) fun _ => ih

theorem doSystemEvent_orderly (ctlOk : ℕ → Bool) (h : Below 0 held) :
    (doSystemEvent cfg ctlOk).Orderly Mutex.rank held held := by
  have hin : Below 1 (Mutex.eventQueue :: held) := Below.cons h (by decide)
  refine .bind (.modifyGet _ _) fun empty => ?_
  split
  · exact .pure _ _
  · refine .bind (.lock h) fun _ => .bind (.modifyGet _ _) fun size => ?_
    exact .bind (sysEventLoop_orderly _ _ hin) fun _ => .unlock

theorem flush_orderly (h : Below 3 held) : (flush cfg).Orderly Mutex.rank held held := by
  refine .bind (.modifyGet _ _) fun recvtmplst => ?_
  split
  · refine .bind (.lock h) fun _ => .bind (.forM (fun pdata => ?_) _) fun _ =>
      .bind .unlock fun _ => .modify _ _
    exact .bind (.modifyGet _ _) fun _ => .pure _ _
  · exact .pure _ _

/-! ## Any threads, any operations -/

/-- **The operations** a thread may run, with their arguments and what the
kernel answers. -/
inductive Operation
  | addMsgToSendList (pmsg : Option NetDataPtr)
  | createMsgToSendList (r : SendRequest)
  | switchSendMap
  | setServerSocket (fd conntime : ℤ) (ip : String) (port : UInt16) (ntype : ℤ)
  | sendMsgToServer (ntype : ℤ) (m : ServerMsg) (blocked : Bool)
  | sendKeepaliveMsgToAllServer
  | createServerConnect (ntype : ℤ) (io : ConnectIo)
  | createCloseConnectEvent (fd conntime : ℤ)
  | inEvent (arg : Option NetEvent) (bhead : Bool)
  | outEvent (bhead : Bool)
  | inRecv (arg : Option NetData) (bhead : Bool)
  | outRecv (bhead : Bool)
  | closeClient (fd conntime : ℤ)
  | doSystemEvent (ctlOk : ℕ → Bool)
  | flush

/-- What a thread runs for an operation. -/
def Operation.body (cfg : Config) : Operation → Locked Unit
  | .addMsgToSendList pmsg => discard (Locked.addMsgToSendList cfg pmsg)
  | .createMsgToSendList r => discard (Locked.createMsgToSendList cfg r)
  | .switchSendMap => Locked.switchSendMap cfg
  | .setServerSocket fd conntime ip port ntype =>
    Locked.setServerSocket fd conntime ip port ntype 0 false
  | .sendMsgToServer ntype m blocked => discard (Locked.sendMsgToServer cfg ntype m blocked)
  | .sendKeepaliveMsgToAllServer => Locked.sendKeepaliveMsgToAllServer cfg
  | .createServerConnect ntype io => Locked.createServerConnect cfg ntype io
  | .createCloseConnectEvent fd conntime => discard (Locked.createCloseConnectEvent fd conntime)
  | .inEvent arg bhead => discard (inQueue eventQueue arg bhead)
  | .outEvent bhead => discard (outQueue eventQueue bhead)
  | .inRecv arg bhead => discard (inQueue (recvQueue cfg) arg bhead)
  | .outRecv bhead => discard (outQueue (recvQueue cfg) bhead)
  | .closeClient fd conntime => Locked.closeClient cfg fd conntime
  | .doSystemEvent ctlOk => Locked.doSystemEvent cfg ctlOk
  | .flush => Locked.flush cfg

/-- A result nobody reads. -/
theorem discard_orderly {p : Locked α} (h : p.Orderly Mutex.rank held held) :
    (discard p).Orderly Mutex.rank held held := .bind h fun _ => .pure _ _

/-- **Every operation is in order**, and ends with the locks it started
with. -/
theorem body_orderly (cfg : Config) (op : Operation) :
    (op.body cfg).Orderly Mutex.rank [] [] := by
  cases op with
  | addMsgToSendList pmsg => exact discard_orderly (addMsgToSendList_orderly pmsg (.nil 2))
  | createMsgToSendList r => exact discard_orderly (createMsgToSendList_orderly r (.nil 2))
  | switchSendMap => exact switchSendMap_orderly (.nil 2)
  | setServerSocket fd conntime ip port ntype =>
    exact setServerSocket_orderly fd conntime ip port ntype 0 false (.nil 1)
  | sendMsgToServer ntype m blocked =>
    exact discard_orderly (sendMsgToServer_orderly ntype m blocked (.nil _))
  | sendKeepaliveMsgToAllServer => exact sendKeepaliveMsgToAllServer_orderly (.nil 1)
  | createServerConnect ntype io => exact createServerConnect_orderly ntype io (.nil 0)
  | createCloseConnectEvent fd conntime =>
    exact discard_orderly (inQueue_orderly eventQueue _ false (.nil 0))
  | inEvent arg bhead => exact discard_orderly (inQueue_orderly eventQueue arg bhead (.nil 0))
  | outEvent bhead => exact discard_orderly (outQueue_orderly eventQueue bhead (.nil 0))
  | inRecv arg bhead => exact discard_orderly (inQueue_orderly (recvQueue cfg) arg bhead (.nil 3))
  | outRecv bhead => exact discard_orderly (outQueue_orderly (recvQueue cfg) bhead (.nil 3))
  | closeClient fd conntime => exact closeClient_orderly fd conntime (.nil 1)
  | doSystemEvent ctlOk => exact doSystemEvent_orderly ctlOk (.nil 0)
  | flush => exact flush_orderly (.nil 3)

/-- **The manager under any threads.** A thread gives back only locks that
it holds, holds none when its operation returns, and no threads wait for
each other's locks. -/
theorem manager_locks {ι : Type} [DecidableEq ι] (cfg : Config) (s : Sys)
    {t : Threads ι Mutex Sys}
    (ht : (Threads.machine ι (Operation.body cfg) s).Reachable t) :
    (∀ i l k, t.running i = some (.give l k) → t.owner l = some i) ∧
      (∀ i, t.running i = none ∨ t.running i = some (.ret ()) → ∀ l, t.owner l ≠ some i) ∧
      ∀ S : Set ι, ¬ t.Deadlocked S :=
  ⟨fun _ _ _ hrun => Threads.owner_of_give (body_orderly cfg) ht hrun,
    fun _ hrun => Threads.owner_of_ret (body_orderly cfg) ht hrun,
    fun S => Threads.no_deadlock (body_orderly cfg) ht S⟩

/-- A thread that waits for a lock that the keepalive holds. -/
theorem manager_locks_waiting :
    ∃ t : Threads ℕ Mutex Sys,
      (Threads.machine ℕ (Operation.body smallConfig) (Sys.init smallConfig 0)).Reachable t ∧
      t.Waits 1 .server ∧ t.owner .server = some 0 ∧ ∀ S : Set ℕ, ¬ t.Deadlocked S := by
  have hrun :
      (Threads.machine ℕ (Operation.body smallConfig) (Sys.init smallConfig 0)).Reachable _ :=
    .step (.step (.step .start trivial rfl (a := .start 0 .sendKeepaliveMsgToAllServer))
      trivial rfl (a := .step 0)) trivial rfl
      (a := .start 1 (.setServerSocket 5 0 "" 0 mainsvrType))
  exact ⟨_, hrun, ⟨_, rfl, fun h => by cases h⟩, rfl, (manager_locks smallConfig _ hrun).2.2⟩

end Locked

end Epoll

end EupuServer
