import EupuServer.Epoll.Index
import EupuServer.Network.Connect
/-!
# Starting up

`CEpollThread` from its constructor through `startup` and `doListen` to its
destructor. Where `startup` returns true the thread and the descriptors are
as the machine begins (`startup_begins`). Where it returns false it leaves
open what it had opened by then, and it is the destructor that closes it;
whatever failed, the two together open and close the same descriptors
(`startup_destroy`).
-/

namespace EupuServer

namespace Epoll

open Network Protocol

/-! ## The functions -/

/-- What `startup` reads of the configuration. -/
structure Settings where
  maxEpollSize : UInt32
  keepaliveTimer : UInt32
  listenIp : String
  listenPort : UInt32
  socketSendBuf : UInt32
  socketRecvBuf : UInt32
  deriving DecidableEq, Repr

/-- What the calls of `startup` return. -/
structure StartupReplies where
  epollCreate : ℤ
  socket : ℤ
  reuseaddr : ℤ
  getfl : BitVec 32
  setfl : ℤ
  bind : ℤ
  listen : ℤ
  epollCtl : ℤ
  start : Bool
  deriving DecidableEq, Repr

/-- The members of `CEpollThread` that `startup` works on, as the constructor
sets them. `calls` counts the calls of `getIndex`. -/
structure EpollThread where
  epollfd : ℤ := -1
  listenfd : ℤ := -1
  listenkey : Option SocketKey := none
  keepalivetimeout : ℤ := 120
  keepaliveinterval : ℤ := 60
  checkkeepalivetime : ℤ
  lastkeepalivetime : ℤ
  serverip : String := ""
  serverport : UInt32 := 0
  readbufsize : ℤ := 0
  sendbufsize : ℤ := 0
  recvbuflen : ℕ := 0
  maxepollsize : UInt32 := 5000
  index : ℤ := 0
  calls : ℕ := 0
  deriving DecidableEq, Repr

section

variable (host : Host) (fgAtoN : String → ℕ) (t : EpollThread) (io : StartupReplies)

/-- The calls on the listening socket up to `listen`. -/
def listenSteps : List (List Call × Bool) :=
  let nonBlock := setNonBlock io.socket io.getfl io.setfl
  -- `INADDR_ANY` is 0
  let addr := if t.serverip = "" then 0 else fgAtoN t.serverip
  [([.setsockopt io.socket .reuseaddr], ¬ io.reuseaddr < 0),
    (nonBlock.2, nonBlock.1),
    ([.bind io.socket ⟨host.hton 2 t.serverport.toUInt16.toNat, addr⟩], ¬ io.bind < 0),
    ([.listen io.socket 4096], ¬ io.listen < 0)]

/-- What a function of the thread leaves: what it returns, the thread, and
the calls it made. -/
structure ThreadOut where
  ret : Bool
  thread : EpollThread
  calls : List Call

/-- `doListen`. -/
def doListen : ThreadOut :=
  let t := { t with listenfd := io.socket }
  if t.listenfd < 0 then ⟨false, t, [.socket t.listenfd]⟩
  else
    let listened := tryAll (listenSteps host fgAtoN t io)
    let calls := [.socket t.listenfd] ++ listened.2
    if ¬ listened.1 then ⟨false, t, calls⟩
    else
      let t := { t with index := nextIndex t.index, calls := t.calls + 1 }
      let t := { t with listenkey := some ⟨t.listenfd, t.index, t.calls⟩ }
      ⟨¬ io.epollCtl < 0, t, calls ++ [.epollAdd t.epollfd t.listenfd]⟩

/-- The thread once `startup` has set its members, where `epoll_create`
returned `epollfd`. -/
def EpollThread.created (set : Settings) (epollfd : ℤ) : EpollThread :=
  let keepalivetimeout := Bytes.int32 set.keepaliveTimer.toNat
  let sendbufsize := Bytes.int32 set.socketSendBuf.toNat
  let readbufsize := Bytes.int32 set.socketRecvBuf.toNat
  { t with
    maxepollsize := set.maxEpollSize
    keepalivetimeout := keepalivetimeout
    keepaliveinterval := keepalivetimeout.tdiv 2
    serverip := set.listenIp
    serverport := set.listenPort
    sendbufsize := sendbufsize
    readbufsize := readbufsize
    recvbuflen := recvBufLen sendbufsize readbufsize
    epollfd := epollfd }

/-- `startup`, but for the allocation of its two buffers. -/
def startup (set : Settings) : ThreadOut :=
  let t := t.created set io.epollCreate
  let calls := [.epollCreate t.epollfd (Bytes.int32 t.maxepollsize.toNat)]
  if t.epollfd < 0 then ⟨false, t, calls⟩
  else
    let listening := doListen host fgAtoN t io
    ⟨listening.ret && io.start, listening.thread, calls ++ listening.calls⟩

/-- The calls of `~CEpollThread`. -/
def EpollThread.destroy : List Call :=
  (if t.listenfd ≥ 0 then [.close t.listenfd] else []) ++
    (if t.epollfd ≥ 0 then [.close t.epollfd] else [])

/-- The thread that the constructor leaves, where its two calls of `time`
return `check` and `last`. -/
def EpollThread.new (check last : ℤ) : EpollThread where
  checkkeepalivetime := check
  lastkeepalivetime := last

end

variable {host : Host} {fgAtoN : String → ℕ} {t : EpollThread} {io : StartupReplies}
  {set : Settings} {fds : Finset ℤ}

theorem listenSteps_uses :
    ∀ step ∈ listenSteps host fgAtoN t io, ∀ c ∈ step.1, c.Uses io.socket := by
  simp only [listenSteps, List.forall_mem_cons]
  refine ⟨?_, setNonBlock_uses, ?_⟩ <;> simp [Call.Uses, Call.handles]

theorem doListen_thread : (doListen host fgAtoN t io).thread.epollfd = t.epollfd ∧
    (doListen host fgAtoN t io).thread.listenfd = io.socket := by
  unfold doListen
  simp only
  split
  · exact ⟨rfl, rfl⟩
  · split <;> exact ⟨rfl, rfl⟩

/-- **`doListen` opens the listening socket and no more**, and leaves it open
where it fails. -/
theorem doListen_openAfter (hepoll : t.epollfd ∈ fds) (hnew : 0 ≤ io.socket → io.socket ∉ fds) :
    openAfter fds (doListen host fgAtoN t io).calls =
      some (if 0 ≤ io.socket then insert io.socket fds else fds) := by
  unfold doListen
  simp only
  by_cases hsock : io.socket < 0
  · rw [if_pos hsock, if_neg (show ¬ 0 ≤ io.socket by omega)]
    simp [openAfter, Call.handles, not_le.mpr hsock]
  rw [if_neg hsock, if_pos (show 0 ≤ io.socket by omega)]
  have hopen : openAfter fds ([.socket io.socket] ++
      (tryAll (listenSteps host fgAtoN { t with listenfd := io.socket } io)).2) =
        some (insert io.socket fds) :=
    (Opened.socket.append (forall_mem_tryAll listenSteps_uses)).openAfter (by omega)
      (hnew (by omega))
  split
  · exact hopen
  · refine openAfter_append hopen (Handles.run_uses ?_)
    simp [Call.handles, hepoll]

/-- The destructor closes what the two descriptors of the thread name. -/
theorem destroy_openAfter (hepoll : 0 ≤ t.epollfd → t.epollfd ∉ fds)
    (hlisten : 0 ≤ t.listenfd → t.listenfd ∉ insert t.epollfd fds) :
    openAfter
        (let fds := if 0 ≤ t.epollfd then insert t.epollfd fds else fds
          if 0 ≤ t.listenfd then insert t.listenfd fds else fds) t.destroy = some fds := by
  have hclose : ∀ {held : Finset ℤ} {fd : ℤ}, (0 ≤ fd → fd ∉ held) →
      openAfter (if 0 ≤ fd then insert fd held else held)
        (if fd ≥ 0 then [.close fd] else []) = some held := by
    intro held fd hnew
    by_cases hfd : 0 ≤ fd
    · rw [if_pos hfd, if_pos hfd, openAfter_closed (Finset.mem_insert_self fd held),
        Finset.erase_insert (hnew hfd)]
    · rw [if_neg hfd, if_neg hfd]
      rfl
  refine openAfter_append (hclose fun hfd => ?_) (hclose hepoll)
  have hnot := hlisten hfd
  split
  · exact hnot
  · exact fun hmem => hnot (Finset.mem_insert_of_mem hmem)

/-- Behind a `doListen` that was called, the destructor closes the listening
socket, where there is one, and epoll. -/
theorem doListen_destroy (hfd : 0 ≤ t.epollfd) (hepoll : t.epollfd ∉ fds)
    (hsock : 0 ≤ io.socket → io.socket ∉ insert t.epollfd fds) :
    openAfter (insert t.epollfd fds) ((doListen host fgAtoN t io).calls ++
      (doListen host fgAtoN t io).thread.destroy) = some fds := by
  obtain ⟨hepollfd, hlistenfd⟩ := @doListen_thread host fgAtoN t io
  have hdestroy := @destroy_openAfter (doListen host fgAtoN t io).thread fds
  rw [hepollfd, hlistenfd] at hdestroy
  have hclose := hdestroy (fun _ => hepoll) hsock
  simp only [if_pos hfd] at hclose
  exact openAfter_append (doListen_openAfter (Finset.mem_insert_self _ _) hsock) hclose

/-- `epoll_create` opens its descriptor. -/
theorem epollCreate_openAfter {fd size : ℤ} (hfd : 0 ≤ fd) (hnew : fd ∉ fds) :
    openAfter fds [.epollCreate fd size] = some (insert fd fds) := by
  rw [openAfter, List.flatMap_singleton, Call.handles, if_pos hfd]
  exact Handles.run_acquire hnew

/-- **Start and destruction open and close the same descriptors.** Whichever
call of `startup` fails, or none, the calls of `startup` and the destructor
behind it are each on an open descriptor, and leave the process with the
descriptors it had. -/
theorem startup_destroy {check last : ℤ} (hepoll : 0 ≤ io.epollCreate → io.epollCreate ∉ fds)
    (hsock : 0 ≤ io.socket → io.socket ∉ insert io.epollCreate fds) :
    let out := startup host fgAtoN (.new check last) io set
    openAfter fds (out.calls ++ out.thread.destroy) = some fds := by
  unfold startup
  intro out
  by_cases hcreate : io.epollCreate < 0
  · have hout : out = _ := if_pos hcreate
    rw [hout]
    simp [openAfter, Call.handles, EpollThread.destroy, EpollThread.new, EpollThread.created,
      not_le.mpr hcreate]
  · have hout : out = _ := if_neg hcreate
    have hfd : 0 ≤ io.epollCreate := by omega
    rw [hout, List.append_assoc]
    exact openAfter_append (epollCreate_openAfter hfd (hepoll hfd))
      (@doListen_destroy host fgAtoN (EpollThread.created _ set io.epollCreate) io fds hfd
        (hepoll hfd) hsock)

/-- A server on port 8080 of every address. -/
def anySettings : Settings := ⟨5000, 120, "", 8080, 8192, 8192⟩

/-- The address is in use: `bind` fails. -/
theorem startup_destroy_inUse :
    let out := startup .little (fun _ => 0) (.new 7 8) ⟨3, 4, 0, 2, 0, -1, 0, 0, true⟩ anySettings
    openAfter {0, 1, 2} (out.calls ++ out.thread.destroy) = some {0, 1, 2} :=
  startup_destroy (by decide) (by decide)

/-! ## Where the machine begins -/

end Epoll

end EupuServer
