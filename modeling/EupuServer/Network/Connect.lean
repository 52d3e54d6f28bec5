import EupuServer.Common.Handles
import EupuServer.Protocol.Stream
/-!
# Connecting to a server

`setNonBlock` and `doNonblockConnect`, with the calls they make in order.
Whatever the system answers, `doNonblockConnect` comes out in one of four
ways (`doNonblockConnect_outcome`): it makes no call, it gets no socket, it
closes the socket and returns -1, or it returns the socket. What lies
between is on the socket alone. While a connect is under way it is put into
an `fd_set`, which has a bit for each descriptor below `FD_SETSIZE` and is
overrun by the others (`overruns_iff`).
-/

namespace EupuServer

namespace Network

open Protocol

/-! ## Calls -/

/-- `sockaddr_in`, with `sin_port` and `s_addr` as they are stored. -/
structure SockAddr where
  port : ℕ
  addr : ℕ
  deriving DecidableEq, Repr

/-- The options that are set, with their values. -/
inductive SockOpt
  | sndbuf (n : UInt32)
  | rcvbuf (n : UInt32)
  | nodelay
  | reuseaddr
  deriving DecidableEq, Repr

/-- **A call on a descriptor.** `socket` and `epollCreate` carry what they
returned. `FD_SET` is not a call of the system: it writes into `wset`. -/
inductive Call
  | socket (fd : ℤ)
  | bind (fd : ℤ) (addr : SockAddr)
  | getFlags (fd : ℤ)
  | setFlags (fd : ℤ) (opts : BitVec 32)
  | setsockopt (fd : ℤ) (opt : SockOpt)
  | connect (fd : ℤ) (addr : SockAddr)
  | fdSet (fd : ℤ)
  | select (nfds fd timeout : ℤ)
  | sockError (fd : ℤ)
  | listen (fd backlog : ℤ)
  | epollCreate (fd size : ℤ)
  | epollAdd (epfd fd : ℤ)
  | close (fd : ℤ)
  deriving DecidableEq, Repr

/-- What a call does with descriptors. -/
def Call.handles : Call → List (HandleOp ℤ)
  | .socket fd => if 0 ≤ fd then [.acquire fd] else []
  | .epollCreate fd _ => if 0 ≤ fd then [.acquire fd] else []
  | .epollAdd epfd fd => [.use epfd, .use fd]
  | .fdSet _ => []
  | .close fd => [.release fd]
  | .bind fd _ => [.use fd]
  | .getFlags fd => [.use fd]
  | .setFlags fd _ => [.use fd]
  | .setsockopt fd _ => [.use fd]
  | .connect fd _ => [.use fd]
  | .select _ fd _ => [.use fd]
  | .sockError fd => [.use fd]
  | .listen fd _ => [.use fd]

/-- The call is on `fd` alone, and leaves it open. -/
def Call.Uses (fd : ℤ) (c : Call) : Prop := ∀ op ∈ c.handles, op = .use fd

/-! ## The functions -/

/-- `O_NONBLOCK`. -/
def oNonblock : BitVec 32 := 0x800

/-- `setNonBlock`, where the two calls of `fcntl` return `getfl` and
`setfl`. -/
def setNonBlock (fd : ℤ) (getfl : BitVec 32) (setfl : ℤ) : Bool × List Call :=
  if -1 = getfl then (false, [.getFlags fd])
  else
    let calls := [.getFlags fd, .setFlags fd (getfl ||| oNonblock)]
    if setfl < 0 then (false, calls) else (true, calls)

/-- `CONNECT_SERVER`, but for its name. -/
structure ConnectServer where
  host : String
  port : UInt16
  sendBuffer : UInt32
  recvBuffer : UInt32
  deriving DecidableEq, Repr

/-- What the calls of `doNonblockConnect` return, `errno` after `connect`
and what `SO_ERROR` is read as. -/
structure ConnectReplies where
  socket : ℤ
  bind : ℤ
  getfl : BitVec 32
  setfl : ℤ
  sndbuf : ℤ
  rcvbuf : ℤ
  nodelay : ℤ
  connect : ℤ
  errno : ℤ
  select : ℤ
  getsockopt : ℤ
  sockErr : ℤ
  deriving DecidableEq, Repr

/-- `EINPROGRESS`. -/
def einprogress : ℤ := 115

/-- `EWOULDBLOCK`. -/
def ewouldblock : ℤ := 11

/-- What every failure of `doNonblockConnect` comes to once there is a
socket: it is closed, and -1 is returned. -/
def closeAndFail (fd : ℤ) (calls : List Call) : ℤ × List Call := (-1, calls ++ [.close fd])

section

variable (host : Host) (fgAtoN : String → ℕ) (pserver : Option ConnectServer) (timeout : ℤ)
  (localip : String) (io : ConnectReplies)

/-- The calls on the socket in front of `connect`, and whether each
succeeds. -/
def prepareSteps (pserver : ConnectServer) : List (List Call × Bool) :=
  let nonBlock := setNonBlock io.socket io.getfl io.setfl
  [([.bind io.socket ⟨0, fgAtoN localip⟩], ¬ io.bind < 0),
    (nonBlock.2, nonBlock.1),
    ([.setsockopt io.socket (.sndbuf pserver.sendBuffer)], ¬ io.sndbuf < 0),
    ([.setsockopt io.socket (.rcvbuf pserver.recvBuffer)], ¬ io.rcvbuf < 0),
    ([.setsockopt io.socket .nodelay], ¬ io.nodelay < 0)]

/-- The calls that wait for a connect under way. -/
def awaitSteps : List (List Call × Bool) :=
  [([.fdSet io.socket, .select (io.socket + 1) io.socket timeout],
      ¬ (io.select = 0 ∨ io.select < 0)),
    ([.sockError io.socket], ¬ (io.getsockopt < 0 ∨ io.sockErr ≠ 0))]

/-- `doNonblockConnect`: what it returns, and the calls it makes. -/
def doNonblockConnect : ℤ × List Call :=
  match pserver with
  | none => (-1, [])
  | some pserver =>
    if localip = "" then (-1, [])
    else
      let fd := io.socket
      if fd < 0 then (-1, [.socket fd])
      else
        let addr : SockAddr := ⟨host.hton 2 pserver.port.toNat, fgAtoN pserver.host⟩
        let prepared := tryAll (prepareSteps fgAtoN localip io pserver)
        let calls := [.socket fd] ++ prepared.2
        if ¬ prepared.1 then closeAndFail fd calls
        else
          let calls := calls ++ [.connect fd addr]
          if io.connect = 0 then (fd, calls)
          else if io.connect < 0 ∧ ¬ (io.errno = einprogress ∨ io.errno = ewouldblock) then
            closeAndFail fd calls
          else
            let awaited := tryAll (awaitSteps timeout io)
            let calls := calls ++ awaited.2
            if ¬ awaited.1 then closeAndFail fd calls else (fd, calls)

/-- **The connect is under way**: a server is given, every call succeeds up
to `connect`, and `connect` has not come to an end. -/
structure UnderWay : Prop where
  server : pserver.isSome = true
  localip : localip ≠ ""
  socket : 0 ≤ io.socket
  bind : 0 ≤ io.bind
  getfl : io.getfl ≠ -1
  setfl : 0 ≤ io.setfl
  sndbuf : 0 ≤ io.sndbuf
  rcvbuf : 0 ≤ io.rcvbuf
  nodelay : 0 ≤ io.nodelay
  connect : io.connect ≠ 0
  errno : io.connect < 0 → io.errno = einprogress ∨ io.errno = ewouldblock

end

/-! ## How it comes out -/

/-- The calls open `fd`, and are on it and leave it open from there. -/
def Opened (fd : ℤ) (calls : List Call) : Prop :=
  ∃ rest, calls = .socket fd :: rest ∧ ∀ c ∈ rest, c.Uses fd

/-- **How a call of `doNonblockConnect` comes out**, where `socket` returns
`fd`. -/
inductive ConnectOutcome (fd : ℤ) : ℤ × List Call → Prop
  | refused : ConnectOutcome fd (-1, [])
  | noSocket (hneg : fd < 0) : ConnectOutcome fd (-1, [.socket fd])
  | closed (hfd : 0 ≤ fd) {calls : List Call} (h : Opened fd calls) :
    ConnectOutcome fd (-1, calls ++ [.close fd])
  | connected (hfd : 0 ≤ fd) {calls : List Call} (h : Opened fd calls) :
    ConnectOutcome fd (fd, calls)

variable {host : Host} {fgAtoN : String → ℕ} {pserver : Option ConnectServer} {timeout : ℤ}
  {localip : String} {io : ConnectReplies} {fd : ℤ} {calls calls' : List Call}

theorem Opened.socket : Opened fd [.socket fd] := ⟨[], rfl, by simp⟩

/-- More calls on the descriptor leave it open. -/
theorem Opened.append (h : Opened fd calls) (huse : ∀ c ∈ calls', c.Uses fd) :
    Opened fd (calls ++ calls') := by
  obtain ⟨rest, rfl, hrest⟩ := h
  refine ⟨rest ++ calls', List.cons_append, fun c hc => ?_⟩
  rcases List.mem_append.mp hc with hc | hc
  · exact hrest c hc
  · exact huse c hc

/-- The calls of `setNonBlock`. -/
theorem mem_setNonBlock {getfl : BitVec 32} {setfl : ℤ} {c : Call}
    (hc : c ∈ (setNonBlock fd getfl setfl).2) :
    c = .getFlags fd ∨ ∃ opts, c = .setFlags fd opts := by
  unfold setNonBlock at hc
  split at hc
  · exact .inl (List.mem_singleton.mp hc)
  · have hpair : c ∈ [Call.getFlags fd, .setFlags fd (getfl ||| oNonblock)] := by
      simpa [apply_ite Prod.snd] using hc
    rcases List.mem_pair.mp hpair with rfl | rfl
    · exact .inl rfl
    · exact .inr ⟨_, rfl⟩

/-- They are on its descriptor alone. -/
theorem setNonBlock_uses {getfl : BitVec 32} {setfl : ℤ} :
    ∀ c ∈ (setNonBlock fd getfl setfl).2, c.Uses fd := by
  intro c hc
  rcases mem_setNonBlock hc with rfl | ⟨opts, rfl⟩ <;> simp [Call.Uses, Call.handles]

/-- It succeeds where both calls do. -/
theorem setNonBlock_fst {getfl : BitVec 32} {setfl : ℤ} :
    (setNonBlock fd getfl setfl).1 = true ↔ getfl ≠ -1 ∧ 0 ≤ setfl := by
  unfold setNonBlock
  by_cases hgetfl : -1 = getfl
  · rw [if_pos hgetfl]
    simp only [Bool.false_eq_true, false_iff, not_and]
    exact fun hne => absurd hgetfl.symm hne
  · rw [if_neg hgetfl]
    by_cases hsetfl : setfl < 0
    · rw [if_pos hsetfl]
      simp only [Bool.false_eq_true, false_iff, not_and]
      omega
    · rw [if_neg hsetfl]
      simp only [true_iff]
      exact ⟨fun heq => hgetfl heq.symm, by omega⟩

theorem prepareSteps_uses (pserver : ConnectServer) :
    ∀ step ∈ prepareSteps fgAtoN localip io pserver, ∀ c ∈ step.1, c.Uses io.socket := by
  simp only [prepareSteps, List.forall_mem_cons]
  refine ⟨?_, setNonBlock_uses, ?_⟩ <;> simp [Call.Uses, Call.handles]

theorem awaitSteps_uses : ∀ step ∈ awaitSteps timeout io, ∀ c ∈ step.1, c.Uses io.socket := by
  simp [awaitSteps, Call.Uses, Call.handles]

/-- **Every call comes out in one of the four ways.** -/
theorem doNonblockConnect_outcome :
    ConnectOutcome io.socket (doNonblockConnect host fgAtoN pserver timeout localip io) := by
  rcases pserver with _ | pserver
  · exact .refused
  unfold doNonblockConnect
  simp only
  by_cases hip : localip = ""
  · rw [if_pos hip]
    exact .refused
  rw [if_neg hip]
  by_cases hsock : io.socket < 0
  · rw [if_pos hsock]
    exact .noSocket hsock
  rw [if_neg hsock]
  have hfd : 0 ≤ io.socket := by omega
  have hprep : Opened io.socket ([.socket io.socket] ++
      (tryAll (prepareSteps fgAtoN localip io pserver)).2) :=
    Opened.socket.append (forall_mem_tryAll (prepareSteps_uses pserver))
  have hconn : Opened io.socket (_ ++
      [.connect io.socket ⟨host.hton 2 pserver.port.toNat, fgAtoN pserver.host⟩]) :=
    hprep.append (by simp [Call.Uses, Call.handles])
  have hwait := hconn.append (forall_mem_tryAll (@awaitSteps_uses timeout io))
  split_ifs
  · exact .connected hfd hconn
  · exact .closed hfd hconn
  · exact .connected hfd hwait
  · exact .closed hfd hwait
  · exact .closed hfd hprep

/-! ## What it leaves open -/

/-- The descriptors that are open after the calls, in a process that has
`fds` open: none where a call is on a descriptor that is not. -/
def openAfter (fds : Finset ℤ) (calls : List Call) : Option (Finset ℤ) :=
  Handles.run fds (calls.flatMap Call.handles)

variable {fds fds' fds'' : Finset ℤ}

theorem openAfter_append (h : openAfter fds calls = some fds')
    (h' : openAfter fds' calls' = some fds'') : openAfter fds (calls ++ calls') = some fds'' := by
  rw [openAfter, List.flatMap_append]
  exact Handles.run_trans h h'

theorem openAfter_closed (hfd : fd ∈ fds) : openAfter fds [.close fd] = some (fds.erase fd) :=
  Handles.run_release hfd

/-- What calls on a descriptor do is to use it. -/
theorem uses_of_mem {rest : List Call} (hrest : ∀ c ∈ rest, c.Uses fd) :
    ∀ op ∈ rest.flatMap Call.handles, op = .use fd := by
  intro op hop
  obtain ⟨c, hc, hop⟩ := List.mem_flatMap.mp hop
  exact hrest c hc op hop

theorem Opened.openAfter (h : Opened fd calls) (hfd : 0 ≤ fd) (hnew : fd ∉ fds) :
    openAfter fds calls = some (insert fd fds) := by
  obtain ⟨rest, rfl, hrest⟩ := h
  rw [Network.openAfter, List.flatMap_cons, Call.handles, if_pos hfd]
  exact Handles.run_kept hnew (uses_of_mem hrest)

/-- Closing the descriptor leaves the others. -/
theorem Opened.openAfter_close (h : Opened fd calls) (hfd : 0 ≤ fd) (hnew : fd ∉ fds) :
    Network.openAfter fds (calls ++ [.close fd]) = some fds := by
  obtain ⟨rest, rfl, hrest⟩ := h
  rw [Network.openAfter, List.flatMap_append, List.flatMap_cons, Call.handles, if_pos hfd]
  exact Handles.run_scoped hnew (uses_of_mem hrest)

/-! ## The descriptor set -/

/-- `FD_SETSIZE`, the number of bits of an `fd_set`. -/
def fdSetSize : ℤ := 1024

/-- One of the calls is an `FD_SET` that writes behind its set. -/
def Overruns (calls : List Call) : Prop := ∃ k, Call.fdSet k ∈ calls ∧ fdSetSize ≤ k

/-- Nothing is put into the set before `connect`. -/
theorem prepareSteps_fdSet {pserver : ConnectServer} {k : ℤ} :
    Call.fdSet k ∉ (tryAll (prepareSteps fgAtoN localip io pserver)).2 := by
  have hne : ∀ step ∈ prepareSteps fgAtoN localip io pserver, ∀ c ∈ step.1, c ≠ .fdSet k := by
    simp only [prepareSteps, List.forall_mem_cons]
    refine ⟨by simp, fun c hc => ?_, by simp⟩
    rcases mem_setNonBlock hc with rfl | ⟨opts, rfl⟩ <;> simp
  exact fun hmem => forall_mem_tryAll hne _ hmem rfl

/-- Waiting puts the socket into the set, and nothing else. -/
theorem awaitSteps_fdSet {k : ℤ} :
    Call.fdSet k ∈ (tryAll (awaitSteps timeout io)).2 ↔ k = io.socket := by
  unfold awaitSteps tryAll
  split
  · unfold tryAll
    split <;> simp [tryAll]
  · simp

theorem prepareSteps_fst {pserver : ConnectServer} :
    (tryAll (prepareSteps fgAtoN localip io pserver)).1 = true ↔
      0 ≤ io.bind ∧ (io.getfl ≠ -1 ∧ 0 ≤ io.setfl) ∧ 0 ≤ io.sndbuf ∧ 0 ≤ io.rcvbuf ∧
        0 ≤ io.nodelay := by
  rw [tryAll_fst, ← @setNonBlock_fst io.socket]
  simp [prepareSteps]

/-- **The socket is put into the set where the connect is under way.** -/
theorem fdSet_mem_iff {k : ℤ} :
    Call.fdSet k ∈ (doNonblockConnect host fgAtoN pserver timeout localip io).2 ↔
      UnderWay pserver localip io ∧ k = io.socket := by
  rcases pserver with _ | pserver
  · refine ⟨fun h => absurd h List.not_mem_nil, fun h => ?_⟩
    simpa using h.1.server
  unfold doNonblockConnect closeAndFail
  simp only
  by_cases hip : localip = ""
  · rw [if_pos hip]
    exact ⟨fun h => absurd h List.not_mem_nil, fun h => absurd hip h.1.localip⟩
  rw [if_neg hip]
  by_cases hsock : io.socket < 0
  · rw [if_pos hsock]
    refine ⟨fun h => by simp at h, fun h => ?_⟩
    have hge := h.1.socket
    omega
  rw [if_neg hsock]
  by_cases hprep : (tryAll (prepareSteps fgAtoN localip io pserver)).1 = true
  · rw [if_neg (not_not.mpr hprep)]
    by_cases hconn : io.connect = 0
    · rw [if_pos hconn]
      refine ⟨fun h => ?_, fun h => absurd hconn h.1.connect⟩
      simp [prepareSteps_fdSet] at h
    rw [if_neg hconn]
    by_cases herr : io.connect < 0 ∧ ¬ (io.errno = einprogress ∨ io.errno = ewouldblock)
    · rw [if_pos herr]
      refine ⟨fun h => ?_, fun h => absurd (h.1.errno herr.1) herr.2⟩
      simp [prepareSteps_fdSet] at h
    rw [if_neg herr]
    have hway : UnderWay (some pserver) localip io := by
      obtain ⟨hbind, ⟨hgetfl, hsetfl⟩, hsnd, hrcv, hdelay⟩ := prepareSteps_fst.mp hprep
      exact ⟨rfl, hip, by omega, hbind, hgetfl, hsetfl, hsnd, hrcv, hdelay, hconn,
        fun hneg => not_not.mp fun herrno => herr ⟨hneg, herrno⟩⟩
    split
    · simp [prepareSteps_fdSet, awaitSteps_fdSet, hway]
    · simp [prepareSteps_fdSet, awaitSteps_fdSet, hway]
  · rw [if_pos hprep]
    refine ⟨fun h => ?_, fun h => absurd (prepareSteps_fst.mpr ?_) hprep⟩
    · simp [prepareSteps_fdSet] at h
    · have hw := h.1
      exact ⟨hw.bind, ⟨hw.getfl, hw.setfl⟩, hw.sndbuf, hw.rcvbuf, hw.nodelay⟩

/-- **The set is overrun** where the connect is under way and the socket is
too large for it. -/
theorem overruns_iff :
    Overruns (doNonblockConnect host fgAtoN pserver timeout localip io).2 ↔
      UnderWay pserver localip io ∧ fdSetSize ≤ io.socket := by
  unfold Overruns
  simp only [fdSet_mem_iff]
  constructor
  · rintro ⟨k, ⟨hway, rfl⟩, hk⟩
    exact ⟨hway, hk⟩
  · rintro ⟨hway, hk⟩
    exact ⟨io.socket, ⟨hway, rfl⟩, hk⟩

end Network

end EupuServer
