import EupuServer.Epoll.Rounds
import EupuServer.Worker.Stop
/-!
# Starting and stopping the epoll thread

The server together with the thread that starts it and stops it.
`CEpollThread::run` waits for its signal, clears `m_bIsExit`, goes through
its rounds while `m_bOperate` is set, which it tests in front of each
`epoll_wait`, and sets `m_bIsExit` when it is done. `stop` clears
`m_bOperate` and, other than the worker's, waits for `m_bIsExit`. So once it
has returned the thread takes no step of the server any more
(`stop_quiet`), and it does return, unless clients keep the thread in
`doAccept` or one keeps it in `doRecvMessage` (`stop_returns`).
-/

namespace EupuServer

namespace Epoll

open Network
open Worker (OwnerPlace)

/-- Where `CEpollThread::run` is. -/
inductive RunPlace
  | unborn
  | pause
  | clearExit
  | whileOperate
  | round
  | setExit
  | exited
  deriving DecidableEq, Repr

/-- The server, the two flags and the signal, and where the two threads
are. -/
structure StopSys where
  sys : RoundSys
  bOperate : Bool := false
  bIsExit : Bool := true
  sig : Bool := false
  owner : OwnerPlace := .create
  run : RunPlace := .unborn

/-- A step. `server` is one of the server: of the epoll thread within a
round, or of another thread. -/
inductive StopAction
  | pthreadCreate (ok : Bool)
  | pthreadDetach (ok : Bool)
  | pthreadKill
  | clearOperate
  | readExit
  | wake
  | run
  | server (a : RoundAction)

variable (cfg : Config) (log : Bool)

namespace StopSys

variable (s : StopSys)

/-- The steps of `run` outside a round. -/
def runStep : Option StopSys :=
  match s.run with
  | .pause => if s.sig then some { s with sig := false, run := .clearExit } else none
  | .clearExit => some { s with bIsExit := false, run := .whileOperate }
  | .whileOperate => some { s with run := if s.bOperate then .round else .setExit }
  | .setExit => some { s with bIsExit := true, run := .exited }
  | .unborn | .round | .exited => none

/-- The state after a step of the epoll thread that leaves the server in
`sys`: a round ends where `epoll_wait` comes next. -/
def afterEpoll (sys : RoundSys) : StopSys :=
  { s with sys := sys, run := if sys.pc = .wait then .whileOperate else .round }

/-- The steps of all threads. -/
def next : StopAction → Option StopSys
  -- `CEupuThread::start`, and `continues` behind it in `startup`
  | .pthreadCreate ok =>
    if s.owner = .create then
      some (if ok then { s with owner := .detach, run := .pause } else s)
    else none
  | .pthreadDetach ok =>
    if s.owner = .detach then
      some (if ok then { s with bOperate := true, bIsExit := false, owner := .continues }
        else { s with owner := .continues })
    else none
  | .pthreadKill =>
    if s.owner = .continues then some { s with sig := true, owner := .started } else none
  -- `CEpollThread::stop`
  | .clearOperate =>
    if s.owner = .started then some { s with bOperate := false, owner := .testExit } else none
  | .readExit =>
    if s.owner = .testExit then
      some { s with owner := if s.bIsExit then .stopped else .usleep }
    else none
  | .wake => if s.owner = .usleep then some { s with owner := .testExit } else none
  -- `CEpollThread::run`
  | .run => s.runStep
  | .server a =>
    if a.ofEpoll then
      if s.run = .round then (s.sys.next cfg log a).map s.afterEpoll else none
    else (s.sys.next cfg log a).map fun sys => { s with sys := sys }

end StopSys

/-- A server that is started and stopped once, from the state that
`doListen` leaves at time `now`. -/
def stoppable (now : ℤ) : Machine StopSys StopAction where
  init := { sys := { toSys := Sys.init cfg now } }
  next := StopSys.next cfg log

/-- The steps of the epoll thread. -/
def StopAction.ofThread : StopAction → Bool
  | .run => true
  | .server a => a.ofEpoll
  | _ => false

/-- The steps of the thread that starts and stops. -/
def StopAction.ofOwner : StopAction → Bool
  | .run | .server _ => false
  | _ => true

variable {cfg log} {s s' : StopSys} {a : StopAction}

/-! ## The steps, one by one -/

/-- **What a step does**, with the test it passed. -/
inductive StopStep (cfg : Config) (s : StopSys) : StopAction → StopSys → Prop
  | create (howner : s.owner = .create) :
    StopStep cfg s (.pthreadCreate true) { s with owner := .detach, run := .pause }
  | createFail (howner : s.owner = .create) : StopStep cfg s (.pthreadCreate false) s
  | detach (howner : s.owner = .detach) :
    StopStep cfg s (.pthreadDetach true)
      { s with bOperate := true, bIsExit := false, owner := .continues }
  | detachFail (howner : s.owner = .detach) :
    StopStep cfg s (.pthreadDetach false) { s with owner := .continues }
  | kill (howner : s.owner = .continues) :
    StopStep cfg s .pthreadKill { s with sig := true, owner := .started }
  | clear (howner : s.owner = .started) :
    StopStep cfg s .clearOperate { s with bOperate := false, owner := .testExit }
  | exited (howner : s.owner = .testExit) (hexit : s.bIsExit = true) :
    StopStep cfg s .readExit { s with owner := .stopped }
  | notExited (howner : s.owner = .testExit) (hexit : s.bIsExit = false) :
    StopStep cfg s .readExit { s with owner := .usleep }
  | wake (howner : s.owner = .usleep) : StopStep cfg s .wake { s with owner := .testExit }
  | signalled (hrun : s.run = .pause) (hsig : s.sig = true) :
    StopStep cfg s .run { s with sig := false, run := .clearExit }
  | clearExit (hrun : s.run = .clearExit) :
    StopStep cfg s .run { s with bIsExit := false, run := .whileOperate }
  | again (hrun : s.run = .whileOperate) (hoperate : s.bOperate = true) :
    StopStep cfg s .run { s with run := .round }
  | leave (hrun : s.run = .whileOperate) (hoperate : s.bOperate = false) :
    StopStep cfg s .run { s with run := .setExit }
  | setExit (hrun : s.run = .setExit) :
    StopStep cfg s .run { s with bIsExit := true, run := .exited }
  | epoll {a : RoundAction} {sys : RoundSys} (ha : a.ofEpoll = true) (hrun : s.run = .round)
      (hstep : RoundStep cfg s.sys a sys) : StopStep cfg s (.server a) (s.afterEpoll sys)
  | other {a : RoundAction} {sys : RoundSys} (ha : a.ofEpoll = false)
      (hstep : RoundStep cfg s.sys a sys) :
    StopStep cfg s (.server a) { s with sys := sys }

/-- Every step of `run` outside a round is one of these. -/
theorem stopStep_of_runStep (h : s.runStep = some s') : StopStep cfg s .run s' := by
  unfold StopSys.runStep at h
  cases hrun : s.run <;> rw [hrun] at h <;> dsimp only at h
  case pause =>
    split at h
    · cases h
      exact .signalled hrun ‹_›
    · cases h
  case clearExit =>
    cases h
    exact .clearExit hrun
  case whileOperate =>
    cases h
    split
    · exact .again hrun ‹_›
    · exact .leave hrun (Bool.eq_false_iff.mpr ‹_›)
  case setExit =>
    cases h
    exact .setExit hrun
  all_goals cases h

/-- **Every step is one of these.** -/
theorem stopStep_of_next (h : s.next cfg log a = some s') : StopStep cfg s a s' := by
  cases a with
  | run => exact stopStep_of_runStep h
  | server a =>
    simp only [StopSys.next] at h
    split at h
    · rename_i ha
      split at h
      · obtain ⟨sys, hsys, rfl⟩ := Option.map_eq_some_iff.mp h
        exact .epoll ha ‹_› (roundStep_of_next hsys)
      · cases h
    · rename_i ha
      obtain ⟨sys, hsys, rfl⟩ := Option.map_eq_some_iff.mp h
      exact .other (Bool.eq_false_iff.mpr ha) (roundStep_of_next hsys)
  | pthreadCreate ok =>
    simp only [StopSys.next] at h
    split at h
    · cases ok <;> cases h
      · exact .createFail ‹_›
      · exact .create ‹_›
    · cases h
  | pthreadDetach ok =>
    simp only [StopSys.next] at h
    split at h
    · cases ok <;> cases h
      · exact .detachFail ‹_›
      · exact .detach ‹_›
    · cases h
  | pthreadKill =>
    simp only [StopSys.next] at h
    split at h <;> cases h
    exact .kill ‹_›
  | clearOperate =>
    simp only [StopSys.next] at h
    split at h <;> cases h
    exact .clear ‹_›
  | readExit =>
    simp only [StopSys.next] at h
    split at h <;> cases h
    split
    · exact .exited ‹_› ‹_›
    · exact .notExited ‹_› (Bool.eq_false_iff.mpr ‹_›)
  | wake =>
    simp only [StopSys.next] at h
    split at h <;> cases h
    exact .wake ‹_›

/-! ## The order of the two threads -/

/-- `run` is between clearing `m_bIsExit` and setting it again. -/
def RunPlace.Busy : RunPlace → Prop
  | .whileOperate | .round | .setExit => True
  | _ => False

/-- **What the calls of `start` and `stop` and the thread have done by
then.** -/
structure StopInv (s : StopSys) : Prop where
  waiting : ¬ s.owner.Started →
    s.sig = false ∧ s.run = if s.owner = .create then .unborn else .pause
  awake : s.owner.Started → s.run ≠ .unborn ∧ (s.run = .pause → s.sig = true)
  cleared : s.owner.Stopping → s.bOperate = false
  busy : s.run.Busy → s.bIsExit = false
  exited : s.run = .exited → s.bIsExit = true
  stopped : s.owner = .stopped → s.run ≠ .round

/-- Before `start` has returned, `run` waits for its signal. -/
theorem StopInv.pause (hinv : StopInv s) (howner : s.owner = .detach ∨ s.owner = .continues) :
    s.sig = false ∧ s.run = .pause := by
  rcases howner with howner | howner
  · have hwait := hinv.waiting (by rw [howner]; exact id)
    rwa [howner, if_neg (by simp)] at hwait
  · have hwait := hinv.waiting (by rw [howner]; exact id)
    rwa [howner, if_neg (by simp)] at hwait

/-- A `run` that has had its signal, or can take it, was started. -/
theorem StopInv.started (hinv : StopInv s) (hborn : s.run ≠ .unborn)
    (hrun : s.run = .pause → s.sig = true) : s.owner.Started := by
  by_contra hnot
  obtain ⟨hsig, hplace⟩ := hinv.waiting hnot
  by_cases hcreate : s.owner = .create
  · exact hborn (hplace.trans (if_pos hcreate))
  · have htrue := hrun (hplace.trans (if_neg hcreate))
    rw [hsig] at htrue
    cases htrue

/-- Before the signal only the owner's place matters. -/
theorem StopInv.of_pause (hrun : s.run = .pause) (hcreate : s.owner ≠ .create)
    (hwaiting : ¬ s.owner.Started → s.sig = false) (hawake : s.owner.Started → s.sig = true)
    (hstop : ¬ s.owner.Stopping) : StopInv s where
  waiting hnot := ⟨hwaiting hnot, hrun.trans (if_neg hcreate).symm⟩
  awake hstart := ⟨by rw [hrun]; simp, fun _ => hawake hstart⟩
  cleared hstopping := absurd hstopping hstop
  busy hbusy := by
    rw [hrun] at hbusy
    exact hbusy.elim
  exited hexited := by
    rw [hrun] at hexited
    cases hexited
  stopped _ := by
    rw [hrun]
    simp

/-- In `stop` the owner goes on and `run` stays where it is. -/
theorem StopInv.goOn (hinv : StopInv s) (hstart : s.owner.Started) {owner : OwnerPlace}
    {bOperate : Bool} (hstart' : owner.Started) (hcleared : bOperate = false)
    (hstopped : owner = .stopped → s.run ≠ .round) :
    StopInv { s with owner := owner, bOperate := bOperate } where
  waiting hnot := absurd hstart' hnot
  awake _ := hinv.awake hstart
  cleared _ := hcleared
  busy := hinv.busy
  exited := hinv.exited
  stopped := hstopped

/-- `run` goes on, and the owner stays where it is. -/
theorem StopInv.ranOn (hinv : StopInv s) (hstart : s.owner.Started)
    {sys : RoundSys} {run : RunPlace}
    {sig bIsExit : Bool} (hborn : run ≠ .unborn) (hpause : run ≠ .pause)
    (hbusy : run.Busy → bIsExit = false) (hexited : run = .exited → bIsExit = true)
    (hstopped : s.owner = .stopped → run ≠ .round) :
    StopInv { s with sys := sys, run := run, sig := sig, bIsExit := bIsExit } where
  waiting hnot := absurd hstart hnot
  awake _ := ⟨hborn, fun heq => absurd heq hpause⟩
  cleared := hinv.cleared
  busy := hbusy
  exited := hexited
  stopped := hstopped

/-- **A step keeps the order.** -/
theorem stopInv_step (h : StopStep cfg s a s') (hinv : StopInv s) : StopInv s' := by
  cases h with
  | create howner =>
    have hwait := hinv.waiting (by rw [howner]; exact id)
    exact .of_pause rfl (by simp) (fun _ => hwait.1) False.elim id
  | createFail => exact hinv
  | detach howner | detachFail howner =>
    obtain ⟨hsig, hrun⟩ := hinv.pause (.inl howner)
    exact .of_pause hrun (by simp) (fun _ => hsig) False.elim id
  | kill howner =>
    have hrun := (hinv.pause (.inr howner)).2
    exact .of_pause hrun (by simp) (fun hnot => absurd trivial hnot) (fun _ => rfl) id
  | clear howner =>
    exact hinv.goOn (by rw [howner]; trivial) trivial rfl (by simp)
  | notExited howner | wake howner =>
    have hclear := hinv.cleared (by rw [howner]; trivial)
    exact hinv.goOn (by rw [howner]; trivial) trivial hclear (by simp)
  | exited howner hexit =>
    have hclear := hinv.cleared (by rw [howner]; trivial)
    refine hinv.goOn (by rw [howner]; trivial) trivial hclear fun _ hround => ?_
    -- in a round `m_bIsExit` is not set
    have hbusy := hinv.busy (by rw [hround]; trivial)
    rw [hexit] at hbusy
    cases hbusy
  | signalled hrun hsig =>
    have hstart := hinv.started (by rw [hrun]; simp) fun _ => hsig
    exact hinv.ranOn hstart (by simp) (by simp) False.elim (by simp) fun _ => by simp
  | clearExit hrun =>
    have hstart := hinv.started (by rw [hrun]; simp) (by rw [hrun]; simp)
    exact hinv.ranOn hstart (by simp) (by simp) (fun _ => rfl) (by simp) fun _ => by simp
  | again hrun hoperate =>
    have hstart := hinv.started (by rw [hrun]; simp) (by rw [hrun]; simp)
    have hbusy := hinv.busy (by rw [hrun]; trivial)
    refine hinv.ranOn hstart (by simp) (by simp) (fun _ => hbusy) (by simp) fun hstop => ?_
    -- `m_bOperate` is cleared by then
    have hclear := hinv.cleared (by rw [hstop]; trivial)
    rw [hoperate] at hclear
    cases hclear
  | leave hrun =>
    have hstart := hinv.started (by rw [hrun]; simp) (by rw [hrun]; simp)
    have hbusy := hinv.busy (by rw [hrun]; trivial)
    exact hinv.ranOn hstart (by simp) (by simp) (fun _ => hbusy) (by simp) fun _ => by simp
  | setExit hrun =>
    have hstart := hinv.started (by rw [hrun]; simp) (by rw [hrun]; simp)
    exact hinv.ranOn hstart (by simp) (by simp) False.elim (fun _ => rfl) fun _ => by simp
  | @epoll a sys ha hrun hstep =>
    have hstart := hinv.started (by rw [hrun]; simp) (by rw [hrun]; simp)
    have hbusy := hinv.busy (by rw [hrun]; trivial)
    unfold StopSys.afterEpoll
    split
    · exact hinv.ranOn hstart (by simp) (by simp) (fun _ => hbusy) (by simp) fun _ => by simp
    · exact hinv.ranOn hstart (by simp) (by simp) (fun _ => hbusy) (by simp)
        fun hstop => absurd hrun (hinv.stopped hstop)
  | other => exact ⟨hinv.waiting, hinv.awake, hinv.cleared, hinv.busy, hinv.exited, hinv.stopped⟩

theorem StopInv.reachable {now : ℤ} (hs : (stoppable cfg log now).Reachable s) : StopInv s := by
  have hinit : StopInv (stoppable cfg log now).init :=
    ⟨fun _ => ⟨rfl, rfl⟩, False.elim, False.elim, False.elim, fun _ => rfl,
      fun _ => by simp [stoppable]⟩
  exact hs.invariant hinit fun _ _ _ _ _ hnext hinv => stopInv_step (stopStep_of_next hnext) hinv

/-! ## What `stop` leaves -/

/-- **Where `pthread_detach` succeeded**, `m_bIsExit` is set once `run` has
ended and not before, and `stop` returns behind that. -/
structure Joined (s : StopSys) : Prop where
  ended : s.owner ≠ .create → s.owner ≠ .detach → (s.bIsExit = true ↔ s.run = .exited)
  stopped : s.owner = .stopped → s.run = .exited

/-- No `pthread_detach` fails. -/
def Detaches (_ : StopSys) : StopAction → Prop
  | .pthreadDetach ok => ok = true
  | _ => True

instance (s : StopSys) : DecidablePred (Detaches s) := fun a => by
  cases a <;> unfold Detaches <;> infer_instance

/-- Where `run` has not ended and `m_bIsExit` is not set. -/
theorem Joined.of_busy (hexit : s.bIsExit = false) (hrun : s.run ≠ .exited)
    (hstop : s.owner ≠ .stopped) : Joined s where
  ended _ _ := ⟨fun htrue => absurd htrue (by rw [hexit]; simp), fun heq => absurd heq hrun⟩
  stopped heq := absurd heq hstop

/-- A `run` that goes on was not stopped. -/
theorem Joined.not_stopped (hjoin : Joined s) (hrun : s.run ≠ .exited) : s.owner ≠ .stopped :=
  fun hstop => hrun (hjoin.stopped hstop)

theorem joined_step (h : StopStep cfg s a s') (hinv : StopInv s) (hdetach : Detaches s a)
    (hjoin : Joined s) : Joined s' := by
  cases h with
  | create => exact ⟨fun _ hne => absurd rfl hne, fun hstop => by cases hstop⟩
  | createFail => exact hjoin
  | other => exact ⟨hjoin.ended, hjoin.stopped⟩
  | detach howner => exact .of_busy rfl (by rw [(hinv.pause (.inl howner)).2]; simp) (by simp)
  | detachFail => cases hdetach
  | kill howner | clear howner | notExited howner | wake howner =>
    exact ⟨fun _ _ => hjoin.ended (by rw [howner]; simp) (by rw [howner]; simp),
      fun hstop => by cases hstop⟩
  | exited howner hexit =>
    have hended := hjoin.ended (by rw [howner]; simp) (by rw [howner]; simp)
    exact ⟨fun _ _ => hended, fun _ => hended.mp hexit⟩
  | signalled hrun hsig =>
    have hstop := hjoin.not_stopped (by rw [hrun]; simp)
    refine ⟨fun hcreate howner => ?_, fun heq => absurd heq hstop⟩
    have hended := hjoin.ended hcreate howner
    rw [hrun] at hended
    simpa using hended
  | clearExit hrun =>
    have hstop := hjoin.not_stopped (by rw [hrun]; simp)
    exact .of_busy rfl (by simp) hstop
  | again hrun | leave hrun =>
    have hstop := hjoin.not_stopped (by rw [hrun]; simp)
    exact .of_busy (hinv.busy (by rw [hrun]; trivial)) (by simp) hstop
  | setExit => exact ⟨fun _ _ => ⟨fun _ => rfl, fun _ => rfl⟩, fun _ => rfl⟩
  | @epoll a sys ha hrun hstep =>
    have hstop := hjoin.not_stopped (by rw [hrun]; simp)
    refine .of_busy (hinv.busy (by rw [hrun]; trivial)) ?_ hstop
    unfold StopSys.afterEpoll
    dsimp only
    split <;> simp

theorem Joined.of_reach {now : ℤ} (hs : (stoppable cfg log now).Reach Detaches s) : Joined s :=
  have hinit : Joined (stoppable cfg log now).init :=
    ⟨fun hcreate => absurd rfl hcreate, fun hstop => by cases hstop⟩
  hs.invariant hinit fun _ _ _ hs hok hnext hjoin =>
    joined_step (stopStep_of_next hnext) (.reachable hs.reachable) hok hjoin

/-- **Once `stop` has returned the epoll thread is quiet.** It takes no step
of the server from there on; and where `pthread_detach` succeeded, `run` has
ended. -/
theorem stop_quiet {now : ℤ} (hs : (stoppable cfg log now).Reachable s)
    (hstop : s.owner = .stopped) :
    (∀ a : RoundAction, a.ofEpoll = true → s.next cfg log (.server a) = none) ∧
      ((stoppable cfg log now).Reach Detaches s → s.run = .exited) := by
  refine ⟨fun a ha => ?_, fun hreach => (Joined.of_reach hreach).stopped hstop⟩
  have hround := (StopInv.reachable hs).stopped hstop
  simp only [StopSys.next, ha, if_pos, if_neg hround]

/-- A server that is started and stopped in its first round. -/
def startAndStop : List StopAction :=
  [.pthreadCreate true, .pthreadDetach true, .pthreadKill, .run, .run, .run,
    .server (.step (.epollWait [])), .clearOperate, .readExit, .wake] ++
  (Action.flush :: quietEnd).map (fun a => .server (.step a)) ++ [.run, .run, .readExit]

theorem stop_quiet_first : ∃ s, (stoppable smallConfig true 0).Reachable s ∧
    s.owner = .stopped ∧
    (∀ a : RoundAction, a.ofEpoll = true → s.next smallConfig true (.server a) = none) ∧
      s.run = .exited := by
  have hrun : ∃ s, (stoppable smallConfig true 0).Reach Detaches s ∧ s.owner = .stopped :=
    Machine.exists_reach_of_exec startAndStop (by decide)
  obtain ⟨s, hs, hstop⟩ := hrun
  obtain ⟨hquiet, hexited⟩ := stop_quiet hs.reachable hstop
  exact ⟨s, hs.reachable, hstop, hquiet, hexited hs⟩

/-! ## That `stop` returns -/

/-- How far `run` is from its end once `m_bOperate` is cleared. -/
def StopSys.place (s : StopSys) : ℕ :=
  match s.run with
  | .unborn => 7
  | .pause => 6
  | .clearExit => 5
  | .round => if s.sys.pc = .wait then 4 else 3
  | .whileOperate => 2
  | .setExit => 1
  | .exited => 0

/-- **What is left of `run`**: its place, and in a round what is left of
that. -/
def StopSys.rank (s : StopSys) : ℕ ×ₗ ℕ ×ₗ ℕ := toLex (s.place, Epoll.rank s.sys.toSys)

/-- Where the thread can go on without getting on: a client is accepted, or
`recv` answers. -/
def Lingers (pc : Pc) (a : StopAction) : Prop :=
  (∃ evs, pc = .accept evs) ∨
    ∃ e evs r, pc = .batch (e :: evs) ∧ e.kind = .epollin ∧ a = .server (.recv r)

/-- **What a step does to it** once `stop` has been called: it leaves it
alone, where it is another thread's, a client is accepted or `recv` answers,
or lowers it. -/
inductive Ends (s : StopSys) (a : StopAction) (s' : StopSys) : Prop
  | other (ha : a.ofThread = false) (hrun : s'.run = s.run) (hpc : s'.sys.pc = s.sys.pc)
      (hrank : s'.rank = s.rank)
  | lingers (hpc : Lingers s.sys.pc a) (hrun' : s'.run = s.run) (hpc' : s'.sys.pc = s.sys.pc)
      (hrank : s'.rank = s.rank)
  | lower (ha : a.ofThread = true) (hlt : s'.rank < s.rank)

theorem rank_lt_of_place_lt (h : s'.place < s.place) : s'.rank < s.rank :=
  Prod.Lex.toLex_lt_toLex.mpr (.inl h)

/-- The epoll thread stands still, and the same is left. -/
theorem rank_congr_sys {sys : RoundSys} (hpc : sys.pc = s.sys.pc)
    (hrank : Epoll.rank sys.toSys = Epoll.rank s.sys.toSys) :
    StopSys.rank { s with sys := sys } = s.rank := by
  unfold StopSys.rank StopSys.place
  rw [hpc, hrank]

/-- A step within a round leaves less of `run`. -/
theorem afterEpoll_rank_lt {sys : RoundSys} (hrun : s.run = .round)
    (hlt : Epoll.rank sys.toSys < Epoll.rank s.sys.toSys) :
    (s.afterEpoll sys).rank < s.rank := by
  have hpc : s.sys.pc ≠ .wait := by
    -- nothing is left of a round that has ended
    intro hwait
    have hzero : Epoll.rank s.sys.toSys = toLex (0, 0) := by
      rw [Epoll.rank, hwait]
      rfl
    rw [hzero] at hlt
    rcases Prod.Lex.lt_iff.mp hlt with h | ⟨-, h⟩
    · exact Nat.not_lt_zero _ h
    · exact Nat.not_lt_zero _ h
  have hplace : s.place = 3 := by
    simp only [StopSys.place, hrun, if_neg hpc]
  by_cases hwait : sys.pc = .wait
  · refine rank_lt_of_place_lt ?_
    rw [hplace]
    simp [StopSys.place, StopSys.afterEpoll, hwait]
  · have hplace' : (s.afterEpoll sys).place = 3 := by
      simp [StopSys.place, StopSys.afterEpoll, hwait]
    unfold StopSys.rank
    rw [hplace, hplace', Prod.Lex.toLex_lt_toLex]
    exact .inr ⟨rfl, hlt⟩

/-- A step within a round that does not end it leaves `run` where it is. -/
theorem afterEpoll_still {sys : RoundSys} (hrun : s.run = .round) (hwait : s.sys.pc ≠ .wait)
    (hpc : sys.pc = s.sys.pc) (hrank : Epoll.rank sys.toSys = Epoll.rank s.sys.toSys) :
    (s.afterEpoll sys).run = s.run ∧ (s.afterEpoll sys).rank = s.rank := by
  have hrun' : (s.afterEpoll sys).run = s.run := by
    rw [hrun, StopSys.afterEpoll, if_neg (hpc ▸ hwait)]
  refine ⟨hrun', ?_⟩
  have hplace : (s.afterEpoll sys).place = s.place := by
    rw [StopSys.place, StopSys.place, hrun', StopSys.afterEpoll, hpc]
  unfold StopSys.rank
  rw [hplace]
  exact congrArg (fun x => toLex (s.place, x)) hrank

/-- **A step of the epoll thread leaves less of `run`** once `m_bOperate` is
cleared, but for a client that is accepted and an answer of `recv`. -/
theorem StopStep.ends (h : StopStep cfg s a s') (hoff : s.bOperate = false)
    (hstop : s.owner.Stopping) : Ends s a s' := by
  cases h with
  | create howner | createFail howner | detach howner | detachFail howner | kill howner
  | clear howner =>
    rw [howner] at hstop
    exact hstop.elim
  | exited | notExited | wake => exact .other rfl rfl rfl rfl
  | signalled hrun | clearExit hrun | leave hrun | setExit hrun =>
    exact .lower rfl (rank_lt_of_place_lt (by simp [StopSys.place, hrun]))
  | again hrun hoperate =>
    rw [hoff] at hoperate
    cases hoperate
  | @other a sys ha hstep =>
    have hwait : ¬ a.IsWait := by
      intro hwait
      cases hstep with
      | recv | event => exact hwait
      | other _ hstep =>
        cases hstep with
        | epollWait => cases ha
        | _ => exact hwait
    cases hstep.lowers hwait with
    | answered ha' =>
      rw [ha'] at ha
      cases ha
    | step ha' hlowers =>
      cases hlowers with
      | other _ hpc hrank => exact .other ha rfl hpc (rank_congr_sys hpc hrank)
      | accepted ha'' | lower ha'' =>
        rw [ha'] at ha
        exact absurd (ha''.symm.trans ha) (by simp)
  | @epoll a sys ha hrun hstep =>
    by_cases hwait : a.IsWait
    · have hplace : (s.afterEpoll sys).place < s.place := by
        cases hstep with
        | recv | event => exact hwait.elim
        | other _ hstep =>
          cases hstep with
          | epollWait hpc => simp [StopSys.place, StopSys.afterEpoll, Sys.goto, hrun, hpc]
          | _ => exact hwait.elim
      exact .lower ha (rank_lt_of_place_lt hplace)
    · cases hstep.lowers hwait with
      | @answered e evs r ha' hpc hin hsys =>
        have hpc' : sys.pc = s.sys.pc := congrArg Sys.pc hsys
        obtain ⟨hrun', hrank⟩ := afterEpoll_still hrun (by rw [hpc]; simp) hpc' (by rw [hsys])
        exact .lingers (.inr ⟨e, evs, r, hpc, hin, by rw [ha']⟩) hrun' hpc' hrank
      | step ha' hlowers =>
        cases hlowers with
        | other ha'' =>
          rw [ha'] at ha
          exact absurd (ha.symm.trans ha'') (by simp)
        | @accepted evs _ hpc hpc' =>
          have hsame : sys.pc = s.sys.pc := hpc'.trans hpc.symm
          have hrank : Epoll.rank sys.toSys = Epoll.rank s.sys.toSys := by
            rw [Epoll.rank, Epoll.rank, hpc, hpc']
            rfl
          obtain ⟨hrun', hrank'⟩ := afterEpoll_still hrun (by rw [hpc]; simp) hsame hrank
          exact .lingers (.inl ⟨evs, hpc⟩) hrun' hsame hrank'
        | lower _ hlt => exact .lower ha (afterEpoll_rank_lt hrun hlt)

theorem Ends.rank_le (h : Ends s a s') : s'.rank ≤ s.rank := by
  cases h with
  | other _ _ _ hrank | lingers _ _ _ hrank => exact hrank.le
  | lower _ hlt => exact hlt.le

/-- What calls `stop` stays in it. -/
theorem StopStep.stopping (h : StopStep cfg s a s') (hstop : s.owner.Stopping) :
    s'.owner.Stopping := by
  cases h with
  | create howner | createFail howner | detach howner | detachFail howner | kill howner
  | clear howner =>
    rw [howner] at hstop
    exact hstop.elim
  | exited | notExited | wake => trivial
  | signalled | clearExit | again | leave | setExit | epoll | other => exact hstop

/-- How far the owner is from testing `m_bIsExit`. -/
def StopSys.asleep (s : StopSys) : ℕ := if s.owner = .usleep then 1 else 0

/-- **Once `run` has ended the owner comes out of `stop`** with its next
steps. -/
theorem StopStep.asleep (h : StopStep cfg s a s') (hstop : s.owner.Stopping)
    (hexit : s.bIsExit = true) :
    (s'.owner = .stopped ∨ a.ofOwner = true ∧ s'.asleep < s.asleep) ∨
      a.ofOwner = false ∧ s'.asleep = s.asleep := by
  cases h with
  | create howner | createFail howner | detach howner | detachFail howner | kill howner
  | clear howner =>
    rw [howner] at hstop
    exact hstop.elim
  | exited => exact .inl (.inl rfl)
  | notExited howner hnot =>
    rw [hexit] at hnot
    cases hnot
  | wake howner => exact .inl (.inr ⟨rfl, by simp [StopSys.asleep, howner]⟩)
  | signalled | clearExit | again | leave | setExit | epoll | other => exact .inr ⟨rfl, rfl⟩

section

variable {now : ℤ} {r : (stoppable cfg log now).Run} {m : ℕ}

theorem stopping_of_le (hstop : (r.state m).owner.Stopping) :
    ∀ n, m ≤ n → (r.state n).owner.Stopping := by
  intro n hn
  induction n, hn using Nat.le_induction with
  | base => exact hstop
  | succ n hn ih => exact (stopStep_of_next (r.step n)).stopping ih

/-- Where `run` has ended for good, the owner comes out of `stop`. -/
theorem stop_returns_of_exited (howner : r.Often fun s a => a.ofOwner = true ∨ s.owner = .stopped)
    (hstop : (r.state m).owner.Stopping) (hexited : ∀ n, m ≤ n → (r.state n).run = .exited) :
    ∃ n, m ≤ n ∧ (r.state n).owner = .stopped := by
  by_contra hnone
  push Not at hnone
  have hstep : ∀ n, m ≤ n → (r.label n).ofOwner = true ∧
      (r.state (n + 1)).asleep < (r.state n).asleep ∨
        (r.label n).ofOwner = false ∧ (r.state (n + 1)).asleep = (r.state n).asleep := by
    intro n hn
    have hexit := (StopInv.reachable (r.reachable n)).exited (hexited n hn)
    rcases (stopStep_of_next (r.step n)).asleep (stopping_of_le hstop n hn) hexit with
      (hstopped | hlt) | hsame
    · exact absurd hstopped (hnone (n + 1) (by omega))
    · exact .inl hlt
    · exact .inr hsame
  obtain ⟨k, hmk, hk⟩ := r.settles_from StopSys.asleep (m := m) fun n hn => by
    rcases hstep n hn with ⟨-, hlt⟩ | ⟨-, heq⟩
    · exact hlt.le
    · exact heq.le
  obtain ⟨n, hkn, hn⟩ := howner k
  rcases hn with hn | hn
  · rcases hstep n (by omega) with ⟨-, hlt⟩ | ⟨hother, -⟩
    · rw [hk (n + 1) (by omega), hk n hkn] at hlt
      exact lt_irrefl _ hlt
    · rw [hn] at hother
      cases hother
  · exact hnone n (by omega) hn

/-- What `recv` answers in the step. -/
def StopAction.answer : StopAction → Option RecvResult
  | .server a => a.answer
  | _ => none

/-- An answer is given where it is asked for. -/
theorem StopStep.asks (h : StopStep cfg s a s') :
    ∀ x ∈ a.answer, s.sys.asks cfg = true := by
  cases h with
  | epoll _ _ hstep | other _ hstep => exact hstep.asks
  | _ => exact nofun

/-- And it is kept until the event is handled. -/
theorem StopStep.answers (h : StopStep cfg s a s') (hpc : s'.sys.pc = s.sys.pc) :
    s'.sys.answers = s.sys.answers ++ a.answer.toList := by
  cases h with
  | epoll _ _ hstep | other _ hstep => exact hstep.answers hpc
  | _ => exact (List.append_nil _).symm

/-- **`stop` returns.** In a run in which the epoll thread goes on until
`run` has ended, and the thread that called `stop` until that has returned,
it does return; or the epoll thread never leaves one call of `doAccept`
again, which goes on as long as there are clients to accept; or it never
leaves one call of `doRecvMessage` again, which goes on as long as `recv`
gives bytes or is interrupted, and never finds the socket empty. -/
theorem stop_returns (hthread : r.Often fun s a => a.ofThread = true ∨ s.run = .exited)
    (howner : r.Often fun s a => a.ofOwner = true ∨ s.owner = .stopped)
    (hstop : (r.state m).owner.Stopping) :
    (∃ n, m ≤ n ∧ (r.state n).owner = .stopped) ∨
      (∃ k evs, ∀ n, k ≤ n → (r.state n).sys.pc = .accept evs) ∨
      ∃ k e evs, e.kind = .epollin ∧ (∀ n, k ≤ n → (r.state n).sys.pc = .batch (e :: evs)) ∧
        (r.Often fun _ a => a.answer.isSome = true) ∧
        ∀ n, k ≤ n → ∀ x ∈ (r.label n).answer, x.goesOn = true := by
  have hends : ∀ n, m ≤ n → Ends (r.state n) (r.label n) (r.state (n + 1)) := fun n hn =>
    (stopStep_of_next (r.step n)).ends
      ((StopInv.reachable (r.reachable n)).cleared (stopping_of_le hstop n hn))
      (stopping_of_le hstop n hn)
  obtain ⟨k, hmk, hk⟩ := r.settles_from StopSys.rank (m := m) fun n hn => (hends n hn).rank_le
  have hsame : ∀ n, k ≤ n → (r.state (n + 1)).rank = (r.state n).rank := fun n hn =>
    (hk (n + 1) (by omega)).trans (hk n hn).symm
  -- the rank has settled: no step moves the thread any more
  have hstill : ∀ n, k ≤ n →
      (r.state n).run = (r.state k).run ∧ (r.state n).sys.pc = (r.state k).sys.pc := by
    intro n hn
    induction n, hn using Nat.le_induction with
    | base => exact ⟨rfl, rfl⟩
    | succ n hn ih =>
      cases hends n (by omega) with
      | other _ hrun hpc | lingers _ hrun hpc => exact ⟨hrun.trans ih.1, hpc.trans ih.2⟩
      | lower _ hlt => exact absurd (hsame n hn) hlt.ne
  by_cases hexited : (r.state k).run = .exited
  · obtain ⟨j, hj, hstopped⟩ := stop_returns_of_exited howner (stopping_of_le hstop k hmk)
      fun n hn => (hstill n hn).1.trans hexited
    exact .inl ⟨j, by omega, hstopped⟩
  · -- and each step it takes is one that lingers
    have hlingers : ∀ n, k ≤ n → ∃ j, n ≤ j ∧ Lingers (r.state k).sys.pc (r.label j) := by
      intro n hn
      obtain ⟨j, hj, hthread⟩ := hthread n
      refine ⟨j, hj, ?_⟩
      have hgoes : (r.label j).ofThread = true :=
        hthread.resolve_right fun hexit => hexited ((hstill j (by omega)).1.symm.trans hexit)
      cases hends j (by omega) with
      | other hother =>
        rw [hgoes] at hother
        cases hother
      | lingers hpc =>
        rw [(hstill j (by omega)).2] at hpc
        exact hpc
      | lower _ hlt => exact absurd (hsame j (by omega)) hlt.ne
    obtain ⟨n, -, ⟨evs, haccept⟩ | ⟨e, evs, -, hbatch, hin, -⟩⟩ := hlingers k le_rfl
    · exact .inr (.inl ⟨k, evs, fun n hn => (hstill n hn).2.trans haccept⟩)
    · have hoften : r.Often fun _ a => a.answer.isSome = true := by
        intro n
        obtain ⟨j, hj, ⟨evs', haccept⟩ | ⟨-, -, x, -, -, hlabel⟩⟩ := hlingers (max k n) (by omega)
        · rw [hbatch] at haccept
          cases haccept
        · exact ⟨j, by omega, by rw [hlabel]; rfl⟩
      have hpc : ∀ n, k ≤ n → (r.state n).sys.pc = .batch (e :: evs) := fun n hn =>
        (hstill n hn).2.trans hbatch
      refine .inr (.inr ⟨k, e, evs, hin, hpc, hoften, ?_⟩)
      exact goesOn_of_often (fun n => (r.state n).sys) (fun n => (r.label n).answer)
        (fun n => (stopStep_of_next (r.step n)).asks)
        (fun n hn => (stopStep_of_next (r.step n)).answers
          ((hpc (n + 1) (by omega)).trans (hpc n hn).symm)) hoften

end

/-- The owner waits for the first round to end. -/
theorem stop_returns_idle : ∃ r : (stoppable smallConfig true 0).Run,
    (r.state 8).owner = .testExit ∧
      ((∃ n, 8 ≤ n ∧ (r.state n).owner = .stopped) ∨
        (∃ k evs, ∀ n, k ≤ n → (r.state n).sys.pc = .accept evs) ∨
        ∃ k e evs, e.kind = .epollin ∧ (∀ n, k ≤ n → (r.state n).sys.pc = .batch (e :: evs)) ∧
          (r.Often fun _ a => a.answer.isSome = true) ∧
          ∀ n, k ≤ n → ∀ x ∈ (r.label n).answer, x.goesOn = true) := by
  let s : StopSys :=
    { sys := { toSys := Sys.init smallConfig 0 }, bIsExit := true, owner := .stopped,
      run := .exited }
  have hexec : (stoppable smallConfig true 0).exec (fun _ _ => True)
      (stoppable smallConfig true 0).init startAndStop = some s := rfl
  -- no server is configured, so a connect leaves the state as it is
  have hrest : (stoppable smallConfig true 0).next s
      (.server (.step (.connect 0 (.start mainsvrType)))) = some s := rfl
  have hend : ∀ n, startAndStop.length ≤ n →
      (Machine.Run.rest _ startAndStop hexec hrest).state n = s :=
    fun n hn => Machine.Run.rest_state hn
  refine ⟨.rest _ startAndStop hexec hrest, rfl, stop_returns (fun m => ?_) (fun m => ?_) trivial⟩
  · refine ⟨m + startAndStop.length, by omega, .inr ?_⟩
    rw [hend _ (by omega)]
  · refine ⟨m + startAndStop.length, by omega, .inr ?_⟩
    rw [hend _ (by omega)]

end Epoll

end EupuServer
