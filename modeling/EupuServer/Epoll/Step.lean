import EupuServer.Epoll.System
/-!
# The steps, one by one

`Step` lists what a step can do, with the guard it passed: the inversion of
`next`, made once. Beside it stand the normal forms of the handlers that
other handlers are made of.
-/

namespace EupuServer

namespace Epoll

open Network Protocol

variable (cfg : Config)

/-- **What a step does.** -/
inductive Step (s : Sys) : Action → Sys → Prop
  | epollWait {evs} (hpc : s.pc = .wait) (hrep : Reported cfg s evs) :
    Step s (.epollWait evs) (s.goto (.batch evs))
  | event {e evs io} (hpc : s.pc = .batch (e :: evs))
      (hlisten : ¬ (e.kind = .epollin ∧ e.key.fdkey = cfg.listenfd)) :
    Step s (.event io) ((handleEvent cfg s e io).goto (.batch evs))
  | listen {e evs io} (hpc : s.pc = .batch (e :: evs)) :
    Step s (.event io) (s.goto (.accept evs))
  | acceptFail {evs} (hpc : s.pc = .accept evs) :
    Step s (.accept .fail) (s.goto (.batch evs))
  | acceptConn {evs fd ip port nonBlock sndBuf rcvBuf noDelay now ctlOk} (hpc : s.pc = .accept evs)
      (hfd : 0 ≤ fd) (hopen : fd ∉ s.openfds) :
    Step s (.accept (.conn fd ip port nonBlock sndBuf rcvBuf noDelay now ctlOk))
      (acceptConn cfg s fd ip port nonBlock sndBuf rcvBuf noDelay now ctlOk)
  | flush (hpc : s.pc = .batch []) :
    Step s .flush { s with
      pc := .sysEvent, recvtmplst := [], recvlist := flush cfg s.recvlist s.recvtmplst }
  | sysEnd (hpc : s.pc = .sysEvent) (hlst : s.eventlist = []) :
    Step s .sysEvent (s.goto .switch)
  | sysClose {fd conntime es} (hpc : s.pc = .sysEvent)
      (hlst : s.eventlist = .closeClient fd conntime :: es) :
    Step s .sysEvent (closeClient cfg (s.withEvents es) fd conntime)
  | sysAdd {sock es} (hpc : s.pc = .sysEvent) (hlst : s.eventlist = .addClient sock :: es) :
    Step s .sysEvent (addClientEvent cfg (s.withEvents es) sock)
  | register {sock ctlOk} (hpc : s.pc = .adding sock) :
    Step s (.register ctlOk) ((addClientToEpoll cfg s sock ctlOk).goto .sysEvent)
  | switchSendMap (hpc : s.pc = .switch) : Step s .switchSendMap (switchSendMap cfg s)
  | scan {fd fds del ctlOk} (hpc : s.pc = .scan (fd :: fds) del) :
    Step s (.scan ctlOk) ((scanFd cfg s fd ctlOk).1.goto
      (.scan fds (if (scanFd cfg s fd ctlOk).2 then del ++ [fd] else del)))
  | scanEnd {del} (hpc : s.pc = .scan [] del) :
    Step s .scanEnd ((del.foldl deleteSendMsgFromSendMap s).goto .keepalive)
  | keepalive {now} (hpc : s.pc = .keepalive) (fds : List ℤ) (pc : Pc)
      (hto : pc = .keepaliveSend ∨ pc = .sweep fds) :
    Step s (.keepalive now) (s.goto pc)
  | sweep {fd fds} (hpc : s.pc = .sweep (fd :: fds)) :
    Step s .sweep ((sweepFd cfg s fd).goto (.sweep fds))
  | sweepEnd {now} (hpc : s.pc = .sweep []) :
    Step s (.sweepEnd now) { s with pc := .keepaliveSend, checkkeepalivetime := now }
  | keepaliveSend {now} (hpc : s.pc = .keepaliveSend) (pc : Pc)
      (hto : pc = .wait ∨ pc = .ping keepaliveTypes) :
    Step s (.keepaliveSend now) (s.goto pc)
  | ping {ntype types} (hpc : s.pc = .ping (ntype :: types)) :
    Step s .ping ((sendMsgToServer cfg s ntype keepaliveMsg).goto (.ping types))
  | pingEnd {now} (hpc : s.pc = .ping []) :
    Step s (.pingEnd now) { s with pc := .wait, lastkeepalivetime := now }
  | addMsg {d} : Step s (.addMsg d) (addMsg cfg s d).2
  | sendMsgToServer {ntype m} (hlock : s.keysLocked = false) :
    Step s (.sendMsgToServer ntype m) (sendMsgToServer cfg s ntype m)
  | createCloseConnectEvent {fd conntime} (hlock : s.eventsLocked = false) :
    Step s (.createCloseConnectEvent fd conntime) (createCloseConnectEvent s fd conntime)
  | outQueue {d ds} (hlst : s.recvlist = d :: ds) : Step s .outQueue { s with recvlist := ds }
  | start {th ntype} (hpc : s.connecting th = .idle) {k : ServerKey}
      (hkey : s.keys.ofType ntype = some k) (hneg : k.data.fddat < 0) :
    Step s (.connect th (.start ntype)) (s.atConnect th (.checked ntype))
  | startNot {th ntype} (hpc : s.connecting th = .idle) : Step s (.connect th (.start ntype)) s
  | socket {th ntype fd} (hpc : s.connecting th = .checked ntype) (hfd : 0 ≤ fd)
      (hopen : fd ∉ s.openfds) :
    Step s (.connect th (.socket fd))
      ((s.opened fd).atConnect th (.connecting ntype fd))
  | socketFail {th ntype} (hpc : s.connecting th = .checked ntype) :
    Step s (.connect th .socketFail) (s.atConnect th .idle)
  | connectFail {th ntype fd} (hpc : s.connecting th = .connecting ntype fd) :
    Step s (.connect th .connectFail) ((s.close fd).atConnect th .idle)
  | connectOk {th ntype fd conntime now} (hpc : s.connecting th = .connecting ntype fd)
      (ip : String) (port : UInt16) :
    Step s (.connect th (.connectOk conntime now))
      ({ s with attempts := s.attempts + 1 }.atConnect th (.connected
        { initSocketset ⟨fd, conntime, 0⟩ ip port ntype now with attempt := s.attempts + 1 }))
  | publish {th sock} (hpc : s.connecting th = .connected sock) (hlock : s.keysLocked = false) :
    Step s (.connect th .publish)
      ((s.setServerSocket sock.key.fdkey sock.key.connectTime sock.peerIp sock.peerPort sock.type
        sock.attempt false).atConnect th (.published sock))
  | enqueue {th sock} (hpc : s.connecting th = .published sock) (hlock : s.eventsLocked = false)
      (hroom : s.eventlist.length < eventQueueSize) :
    Step s (.connect th .enqueue)
      ((s.withEvents (s.eventlist ++ [.addClient sock])).atConnect th .idle)
  | enqueueFail {th sock} (hpc : s.connecting th = .published sock)
      (hlock : s.eventsLocked = false) (hfull : eventQueueSize ≤ s.eventlist.length) :
    Step s (.connect th .enqueue)
      (((s.setServerSocket (-1) 0 "" 0 1 0 false).close sock.key.fdkey).atConnect th .idle)

variable {cfg} {s s' : Sys} {a : Action}

/-- A step of `createServerConnect` is one of the steps listed. -/
theorem step_of_connectStep {th : ℕ} {a : ConnectAction}
    (h : connectStep cfg s th (s.connecting th) a = some s') : Step cfg s (.connect th a) s' := by
  rcases hpc : s.connecting th with _ | ntype | ⟨ntype, fd⟩ | sock | sock
  · cases a with
    | start ntype =>
      rw [hpc] at h
      simp only [connectStep] at h
      split at h
      · cases h
      · split at h
        · rename_i k _ hkey _
          split at h
          · injection h with h
            exact h ▸ .startNot hpc
          · rename_i hneg
            injection h with h
            exact h ▸ .start hpc hkey (by omega)
        · injection h with h
          exact h ▸ .startNot hpc
    | _ => simp [hpc, connectStep] at h
  · cases a with
    | socket fd =>
      rw [hpc] at h
      simp only [connectStep] at h
      split at h
      · rename_i hfd
        injection h with h
        exact h ▸ .socket hpc hfd.1 hfd.2
      · cases h
    | socketFail =>
      rw [hpc] at h
      injection h with h
      exact h ▸ .socketFail hpc
    | _ => simp [hpc, connectStep] at h
  · cases a with
    | connectFail =>
      rw [hpc] at h
      injection h with h
      exact h ▸ .connectFail hpc
    | connectOk conntime now =>
      rw [hpc] at h
      injection h with h
      exact h ▸ .connectOk hpc _ _
    | _ => simp [hpc, connectStep] at h
  · cases a with
    | publish =>
      rw [hpc] at h
      simp only [connectStep] at h
      split at h
      · cases h
      · rename_i hlock
        injection h with h
        exact h ▸ .publish hpc (by simpa using hlock)
    | _ => simp [hpc, connectStep] at h
  · cases a with
    | enqueue =>
      rw [hpc] at h
      simp only [connectStep] at h
      split at h
      · cases h
      · rename_i hlock
        rw [Bool.not_eq_true] at hlock
        split at h
        · -- the queue is full: the key is reset under its own lock
          rename_i hfull
          split at h
          · cases h
          · injection h with h
            exact h ▸ .enqueueFail hpc hlock hfull
        · rename_i hroom
          injection h with h
          exact h ▸ .enqueue hpc hlock (by omega)
    | _ => simp [hpc, connectStep] at h

/-- **A step is one of the steps listed.** -/
theorem step_of_next (h : next cfg s a = some s') : Step cfg s a s' := by
  cases a with
  | epollWait =>
    simp only [next] at h
    split at h
    · split at h
      · injection h with h
        exact h ▸ .epollWait ‹_› ‹_›
      · cases h
    · cases h
  | event =>
    simp only [next] at h
    split at h
    · split at h
      · injection h with h
        exact h ▸ .listen ‹_›
      · injection h with h
        exact h ▸ .event ‹_› ‹_›
    · cases h
  | accept =>
    simp only [next] at h
    split at h
    · injection h with h
      exact h ▸ .acceptFail ‹_›
    · split at h
      · rename_i hfd
        injection h with h
        exact h ▸ .acceptConn ‹_› hfd.1 hfd.2
      · cases h
    · cases h
  | flush =>
    simp only [next] at h
    split at h
    · injection h with h
      exact h ▸ .flush ‹_›
    · cases h
  | sysEvent =>
    simp only [next] at h
    split at h
    · rename_i hpc
      injection h with h
      unfold doSystemEvent at h
      split at h
      · exact h ▸ .sysEnd hpc ‹_›
      · exact h ▸ .sysClose hpc ‹_›
      · exact h ▸ .sysAdd hpc ‹_›
    · cases h
  | register =>
    simp only [next] at h
    split at h
    · injection h with h
      exact h ▸ .register ‹_›
    · cases h
  | switchSendMap =>
    simp only [next] at h
    split at h
    · injection h with h
      exact h ▸ .switchSendMap ‹_›
    · cases h
  | scan =>
    simp only [next] at h
    split at h
    · injection h with h
      exact h ▸ .scan ‹_›
    · cases h
  | scanEnd =>
    simp only [next] at h
    split at h
    · injection h with h
      exact h ▸ .scanEnd ‹_›
    · cases h
  | keepalive =>
    simp only [next] at h
    split at h
    · split at h
      · injection h with h
        exact h ▸ .keepalive ‹_› [] _ (.inl rfl)
      · injection h with h
        exact h ▸ .keepalive ‹_› _ _ (.inr rfl)
    · cases h
  | sweep =>
    simp only [next] at h
    split at h
    · injection h with h
      exact h ▸ .sweep ‹_›
    · cases h
  | sweepEnd =>
    simp only [next] at h
    split at h
    · injection h with h
      exact h ▸ .sweepEnd ‹_›
    · cases h
  | keepaliveSend =>
    simp only [next] at h
    split at h
    · split at h
      · injection h with h
        exact h ▸ .keepaliveSend ‹_› _ (.inl rfl)
      · injection h with h
        exact h ▸ .keepaliveSend ‹_› _ (.inr rfl)
    · cases h
  | ping =>
    simp only [next] at h
    split at h
    · injection h with h
      exact h ▸ .ping ‹_›
    · cases h
  | pingEnd =>
    simp only [next] at h
    split at h
    · injection h with h
      exact h ▸ .pingEnd ‹_›
    · cases h
  | addMsg =>
    simp only [next] at h
    injection h with h
    exact h ▸ .addMsg
  | sendMsgToServer =>
    simp only [next] at h
    split at h
    · cases h
    · rename_i hlock
      injection h with h
      exact h ▸ .sendMsgToServer (by simpa using hlock)
  | createCloseConnectEvent =>
    simp only [next] at h
    split at h
    · cases h
    · rename_i hlock
      injection h with h
      exact h ▸ .createCloseConnectEvent (by simpa using hlock)
  | outQueue =>
    simp only [next] at h
    split at h
    · cases h
    · injection h with h
      exact h ▸ .outQueue ‹_›
  | connect th a => exact step_of_connectStep h

end Epoll

end EupuServer
