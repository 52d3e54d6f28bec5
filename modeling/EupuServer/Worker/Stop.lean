import EupuServer.Common.Machine
import EupuServer.Network.NetCommon
import EupuServer.Network.SysQueue
/-!
# Starting and stopping a worker

One thread starts the worker and stops it, the worker runs its two nested
loops, and others put messages into the receive queue. `stop` clears
`m_bOperate`, which the outer loop tests and the inner one does not, and
then looks at `m_bIsExit` once. The worker has stopped for good if `stop`
returns while `run` is at a place from which it does not come back to
`CGlobalMgr` (`Settled`), and else it still comes back (`stop_final`).
-/

namespace EupuServer

namespace Worker

open Network

/-- Where `CWorkBaseThread::run` is. -/
inductive RunPlace
  | unborn
  | pause
  | clearExit
  | getQueues
  | whileOperate
  | isEmpty
  | usleep
  | outQueue
  | processMessage (pdata : NetData)
  | createCloseConnectEvent (pdata : NetData)
  | delete (pdata : NetData)
  | loop
  | setExit
  | exited
  deriving DecidableEq, Repr

/-- Where the thread is that calls `start` and then `stop`. -/
inductive OwnerPlace
  | create
  | detach
  | continues
  | started
  | testExit
  | usleep
  | stopped
  deriving DecidableEq, Repr

/-- The two threads and what they share. `sig` is a `SIGUSR1` not yet taken. -/
structure StopSys where
  bOperate : Bool := false
  bIsExit : Bool := true
  sig : Bool := false
  recvqueue : SysQueue NetData := .new
  owner : OwnerPlace := .create
  run : RunPlace := .unborn

/-- A step. `pthreadCreate` and `pthreadDetach` carry the result of the
call; `useManager` is a call into `CGlobalMgr` that `processMessage`
makes, and `processed` its return. -/
inductive StopAction
  | pthreadCreate (ok : Bool)
  | pthreadDetach (ok : Bool)
  | pthreadKill
  | clearOperate
  | readExit
  | wake
  | run
  | useManager
  | processed (nret : ℤ)
  | inQueue (pdata : NetData)
  deriving DecidableEq, Repr

namespace StopSys

variable (s : StopSys)

/-- The steps of `CWorkBaseThread::run`, `processMessage` apart. The queues
are members of `CGlobalMgr`, so neither pointer is `NULL`, and `inQueue`
lets no `NULL` in. -/
def runStep : Option StopSys :=
  match s.run with
  | .unborn => none
  | .pause => if s.sig then some { s with sig := false, run := .clearExit } else none
  | .clearExit => some { s with bIsExit := false, run := .getQueues }
  | .getQueues => some { s with run := .whileOperate }
  | .whileOperate => some { s with run := if s.bOperate then .isEmpty else .setExit }
  | .isEmpty =>
    some { s with run := if s.recvqueue.datalst.isEmpty then .usleep else .outQueue }
  | .usleep => some { s with run := .whileOperate }
  | .outQueue =>
    match s.recvqueue.outQueueWithoutLock true with
    | (some pdata, q) => some { s with recvqueue := q, run := .processMessage pdata }
    | (none, _) => some { s with run := .loop }
  | .processMessage _ => none
  | .createCloseConnectEvent pdata => some { s with run := .delete pdata }
  | .delete _ => some { s with run := .outQueue }
  | .loop => some { s with run := .whileOperate }
  | .setExit => some { s with bIsExit := true, run := .exited }
  | .exited => none

/-- The steps of all threads. -/
def next : StopAction → Option StopSys
  -- CWorkBaseThread::start
  | .pthreadCreate ok =>
    if s.owner = .create then
      some (if ok then { s with owner := .detach, run := .pause } else s)
    else none
  | .pthreadDetach ok =>
    if s.owner = .detach then
      some (if ok then { s with bOperate := true, bIsExit := false, owner := .continues }
        else { s with owner := .continues })
    else none
  | .pthreadKill =>
    if s.owner = .continues then some { s with sig := true, owner := .started } else none
  -- CWorkBaseThread::stop
  | .clearOperate =>
    if s.owner = .started then some { s with bOperate := false, owner := .testExit } else none
  | .readExit =>
    if s.owner = .testExit then
      some { s with owner := if s.bIsExit then .stopped else .usleep }
    else none
  | .wake => if s.owner = .usleep then some { s with owner := .stopped } else none
  -- CWorkBaseThread::run
  | .run => s.runStep
  | .useManager =>
    match s.run with
    | .processMessage _ => some s
    | _ => none
  | .processed nret =>
    match s.run with
    | .processMessage pdata =>
      some { s with run := if nret < 0 then .createCloseConnectEvent pdata else .delete pdata }
    | _ => none
  -- the epoll thread
  | .inQueue pdata =>
    some { s with recvqueue := (s.recvqueue.inQueueWithoutLock (some pdata) false).2 }

end StopSys

/-- A worker that is started and stopped once. -/
def stopMachine : Machine StopSys StopAction where
  init := {}
  next := StopSys.next

/-- **The steps of `run` that touch `CGlobalMgr` or its queues.** -/
def Touches (s : StopSys) : StopAction → Prop
  | .run =>
    match s.run with
    | .getQueues | .isEmpty | .outQueue | .createCloseConnectEvent _ => True
    | _ => False
  | .useManager => True
  | _ => False

/-- **The places of `run` that lead back to no queue** once `m_bOperate` is
cleared. -/
def RunPlace.Settled : RunPlace → Prop
  | .whileOperate | .usleep | .loop | .setExit | .exited => True
  | _ => False

instance : DecidablePred RunPlace.Settled := fun p => by
  cases p <;> unfold RunPlace.Settled <;> infer_instance

/-- The step with which `stop` returns. -/
def Returns (s : StopSys) : StopAction → Prop
  | .readExit => s.bIsExit = true
  | .wake => True
  | _ => False

instance (s : StopSys) : DecidablePred (Returns s) := fun a => by
  cases a <;> unfold Returns <;> infer_instance

/-- `stop` returns only where `run` has settled. -/
def ReturnsSettled (s : StopSys) (a : StopAction) : Prop := Returns s a → s.run.Settled

instance (s : StopSys) : DecidablePred (ReturnsSettled s) := fun _ =>
  inferInstanceAs (Decidable (_ → _))

variable {s s' : StopSys} {a : StopAction}

/-! ## The steps, one by one -/

/-- **What a step does**, with the test it passed: the inversion of `next`,
made once. -/
inductive StopStep (s : StopSys) : StopAction → StopSys → Prop
  | create (howner : s.owner = .create) :
    StopStep s (.pthreadCreate true) { s with owner := .detach, run := .pause }
  | createFail : StopStep s (.pthreadCreate false) s
  | detach (howner : s.owner = .detach) :
    StopStep s (.pthreadDetach true)
      { s with bOperate := true, bIsExit := false, owner := .continues }
  | detachFail (howner : s.owner = .detach) :
    StopStep s (.pthreadDetach false) { s with owner := .continues }
  | kill (howner : s.owner = .continues) :
    StopStep s .pthreadKill { s with sig := true, owner := .started }
  | clear (howner : s.owner = .started) :
    StopStep s .clearOperate { s with bOperate := false, owner := .testExit }
  | exited (howner : s.owner = .testExit) (hexit : s.bIsExit = true) :
    StopStep s .readExit { s with owner := .stopped }
  | notExited (howner : s.owner = .testExit) (hexit : ¬ s.bIsExit = true) :
    StopStep s .readExit { s with owner := .usleep }
  | wake (howner : s.owner = .usleep) : StopStep s .wake { s with owner := .stopped }
  | run {t : StopSys} (hstep : s.runStep = some t) : StopStep s .run t
  | useManager {pdata} (hrun : s.run = .processMessage pdata) : StopStep s .useManager s
  | processed {pdata nret} (hrun : s.run = .processMessage pdata) (place : RunPlace)
      (hplace : place = .createCloseConnectEvent pdata ∨ place = .delete pdata) :
    StopStep s (.processed nret) { s with run := place }
  | inQueue (pdata : NetData) (q : SysQueue NetData) :
    StopStep s (.inQueue pdata) { s with recvqueue := q }

/-- Every step is one of these. -/
theorem stopStep_of_next (h : s.next a = some s') : StopStep s a s' := by
  cases a with
  | run => exact .run h
  | inQueue pdata =>
    cases h
    exact .inQueue pdata _
  | useManager =>
    simp only [StopSys.next] at h
    split at h <;> cases h
    exact .useManager ‹_›
  | processed nret =>
    simp only [StopSys.next] at h
    split at h <;> cases h
    refine .processed ‹_› _ ?_
    split
    · exact .inl rfl
    · exact .inr rfl
  | pthreadCreate ok =>
    simp only [StopSys.next] at h
    split at h
    · cases ok <;> cases h
      · exact .createFail
      · exact .create ‹_›
    · cases h
  | pthreadDetach ok =>
    simp only [StopSys.next] at h
    split at h
    · cases ok <;> cases h
      · exact .detachFail ‹_›
      · exact .detach ‹_›
    · cases h
  | pthreadKill =>
    simp only [StopSys.next] at h
    split at h <;> cases h
    exact .kill ‹_›
  | clearOperate =>
    simp only [StopSys.next] at h
    split at h <;> cases h
    exact .clear ‹_›
  | readExit =>
    simp only [StopSys.next] at h
    split at h <;> cases h
    split
    · exact .exited ‹_› ‹_›
    · exact .notExited ‹_› ‹_›
  | wake =>
    simp only [StopSys.next] at h
    split at h <;> cases h
    exact .wake ‹_›

/-! ## What a step of `run` leaves -/

/-- What a step of `run` does to the rest: nothing but to `m_bIsExit`, the
signal and the queue. -/
theorem runStep_frame (h : s.runStep = some s') :
    s'.owner = s.owner ∧ s'.bOperate = s.bOperate ∧ s'.run ≠ .unborn ∧ s'.run ≠ .pause := by
  unfold StopSys.runStep at h
  split at h
  case h_1 => cases h
  case h_2 =>
    split at h
    · cases h
      exact ⟨rfl, rfl, by simp, by simp⟩
    · cases h
  case h_8 =>
    split at h <;> cases h <;> exact ⟨rfl, rfl, by simp, by simp⟩
  case h_9 => cases h
  case h_14 => cases h
  all_goals
    cases h
    refine ⟨rfl, rfl, ?_, ?_⟩ <;> dsimp only <;> (try split) <;> simp

/-- **A settled `run` stays settled** where `m_bOperate` is cleared. -/
theorem runStep_settled (h : s.runStep = some s') (hoperate : s.bOperate = false)
    (hsettled : s.run.Settled) : s'.run.Settled := by
  unfold StopSys.runStep at h
  split at h <;> rename_i hrun <;> rw [hrun] at hsettled
  case h_5 =>
    cases h
    rw [hoperate]
    trivial
  case h_7 =>
    cases h
    trivial
  case h_12 =>
    cases h
    trivial
  case h_13 =>
    cases h
    trivial
  case h_14 => cases h
  all_goals exact hsettled.elim

/-- A settled `run` touches nothing with its next step. -/
theorem not_touches_of_settled (hsettled : s.run.Settled) (h : s.next a = some s') :
    ¬ Touches s a := by
  intro htouch
  cases stopStep_of_next h with
  | run hstep =>
    cases hrun : s.run <;> simp only [hrun, Touches, RunPlace.Settled] at htouch hsettled
  | useManager hrun =>
    rw [hrun] at hsettled
    exact hsettled
  | create | createFail | detach | detachFail | kill | clear | exited | notExited | wake | processed
  | inQueue => exact htouch

/-! ## The order of the two threads -/

/-- The owner has called `stop`. -/
def OwnerPlace.Stopping : OwnerPlace → Prop
  | .testExit | .usleep | .stopped => True
  | _ => False

/-- The owner's `start` has returned. -/
def OwnerPlace.Started : OwnerPlace → Prop
  | .create | .detach | .continues => False
  | _ => True

/-- **What the calls of `start` and `stop` have done by then.** -/
structure StopInv (s : StopSys) : Prop where
  cleared : s.owner.Stopping → s.bOperate = false
  born : s.owner = .create ↔ s.run = .unborn
  awake : s.owner.Started → s.run = .pause → s.sig = true

/-- The owner goes on and `run` stays where it is. -/
theorem StopInv.goOn (hinv : StopInv s) (hfrom : s.owner ≠ .create) (hto : s'.owner ≠ .create)
    (hrun : s'.run = s.run) (hcleared : s'.owner.Stopping → s'.bOperate = false)
    (hawake : s'.owner.Started → s.run = .pause → s'.sig = true) : StopInv s' where
  cleared := hcleared
  born := by
    have hborn : s.run ≠ .unborn := fun heq => hfrom (hinv.born.mpr heq)
    rw [hrun]
    exact ⟨fun heq => absurd heq hto, fun heq => absurd heq hborn⟩
  awake := by
    rw [hrun]
    exact hawake

/-- `run` goes on and is not back in front of its signal. -/
theorem StopInv.ranOn (hinv : StopInv s) (hborn : s.run ≠ .unborn) (howner : s'.owner = s.owner)
    (hoperate : s'.bOperate = s.bOperate) (hborn' : s'.run ≠ .unborn) (hpause : s'.run ≠ .pause) :
    StopInv s' where
  cleared := by
    rw [howner, hoperate]
    exact hinv.cleared
  born := by
    rw [howner, hinv.born]
    exact ⟨fun heq => absurd heq hborn, fun heq => absurd heq hborn'⟩
  awake := fun _ heq => absurd heq hpause

theorem stopInv_step (h : s.next a = some s') (hinv : StopInv s) : StopInv s' := by
  cases stopStep_of_next h with
  | run hstep =>
    obtain ⟨howner, hoperate, hborn', hpause⟩ := runStep_frame hstep
    refine hinv.ranOn (fun heq => ?_) howner hoperate hborn' hpause
    rw [StopSys.runStep, heq] at hstep
    cases hstep
  | createFail | useManager => exact hinv
  | processed hrun place hplace =>
    rcases hplace with rfl | rfl <;>
      exact hinv.ranOn (by rw [hrun]; simp) rfl rfl (by simp) (by simp)
  | inQueue => exact ⟨hinv.cleared, hinv.born, hinv.awake⟩
  | create => exact ⟨fun hstop => hstop.elim, by simp, fun hstart => hstart.elim⟩
  | detach howner | detachFail howner =>
    exact hinv.goOn (by rw [howner]; simp) (by simp) rfl (fun hstop => hstop.elim)
      fun hstart => hstart.elim
  | kill howner =>
    exact hinv.goOn (by rw [howner]; simp) (by simp) rfl (fun hstop => hstop.elim) fun _ _ => rfl
  | clear howner =>
    refine hinv.goOn (by rw [howner]; simp) (by simp) rfl (fun _ => rfl) fun _ => hinv.awake ?_
    rw [howner]
    trivial
  | exited howner | notExited howner | wake howner =>
    have hstop : s.owner.Stopping := by rw [howner]; trivial
    have hstart : s.owner.Started := by rw [howner]; trivial
    exact hinv.goOn (by rw [howner]; simp) (by simp) rfl (fun _ => hinv.cleared hstop)
      fun _ => hinv.awake hstart

theorem stopInv_of_reachable (hs : stopMachine.Reachable s) : StopInv s :=
  have hinit : StopInv stopMachine.init := ⟨False.elim, by simp [stopMachine], False.elim⟩
  hs.invariant hinit fun _ _ _ _ _ hnext hinv => stopInv_step hnext hinv

/-! ## Where `stop` leaves the worker -/

/-- With the step that returns from `stop`, and no other, the owner is
done. -/
theorem stopped_cases (h : s.next a = some s') (hstop : s'.owner = .stopped) :
    s.owner = .stopped ∨ (Returns s a ∧ s'.run = s.run) := by
  cases stopStep_of_next h with
  | run hstep => exact .inl ((runStep_frame hstep).1.symm.trans hstop)
  | createFail | useManager | processed | inQueue => exact .inl hstop
  | create | detach | detachFail | kill | clear | notExited => cases hstop
  | exited howner hexit => exact .inr ⟨hexit, rfl⟩
  | wake => exact .inr ⟨trivial, rfl⟩

/-- No other thread moves the worker. -/
theorem settled_step (h : s.next a = some s') (hoperate : s.bOperate = false)
    (howner : s.owner = .stopped) (hsettled : s.run.Settled) : s'.run.Settled := by
  cases stopStep_of_next h with
  | run hstep => exact runStep_settled hstep hoperate hsettled
  | createFail | useManager | inQueue => exact hsettled
  | processed hrun =>
    rw [hrun] at hsettled
    exact hsettled.elim
  | create hown | detach hown | detachFail hown | kill hown | clear hown | exited hown
  | notExited hown | wake hown =>
    rw [howner] at hown
    cases hown

/-- **What a settled return leaves.** In the runs in which `stop` returns
only where `run` has settled, `run` is settled in every state after it. -/
theorem settled_of_reach (hs : stopMachine.Reach ReturnsSettled s) (hstop : s.owner = .stopped) :
    s.run.Settled := by
  refine hs.invariant (I := fun s => s.owner = .stopped → s.run.Settled) (fun h => by cases h) ?_
    hstop
  intro s a s' hs hok hnext ih hstop
  rcases stopped_cases hnext hstop with hbefore | ⟨hreturns, hrun⟩
  · have hoperate : s.bOperate = false :=
      (stopInv_of_reachable hs.reachable).cleared (by rw [hbefore]; trivial)
    exact settled_step hnext hoperate hbefore (ih hbefore)
  · rw [hrun]
    exact hok hreturns

/-- A step that touches a queue can be taken. -/
theorem isSome_of_touches (h : Touches s .run) : (s.next .run).isSome = true := by
  simp only [StopSys.next]
  unfold StopSys.runStep
  cases hrun : s.run <;> simp only [Touches, hrun] at h ⊢ <;> try rfl
  split <;> rfl

/-- The state after the steps `as`. -/
def StopSys.after (s : StopSys) (as : List StopAction) : Option StopSys :=
  stopMachine.exec (fun _ _ => True) s as

/-- **A `run` that has not settled comes back to a queue** within a few
steps, whatever `m_bOperate` is. -/
theorem touches_of_not_settled (hborn : s.run ≠ .unborn) (hawake : s.run = .pause → s.sig = true)
    (hnot : ¬ s.run.Settled) :
    ∃ as s', s.after as = some s' ∧ (s'.next .run).isSome = true ∧ Touches s' .run := by
  have hnow : ∀ as s', s.after as = some s' → Touches s' .run →
      ∃ as s', s.after as = some s' ∧ (s'.next .run).isSome = true ∧ Touches s' .run :=
    fun as s' has htouch => ⟨as, s', has, isSome_of_touches htouch, htouch⟩
  cases hrun : s.run with
  | unborn => exact absurd hrun hborn
  | pause =>
    refine hnow [.run, .run] { s with sig := false, bIsExit := false, run := .getQueues } ?_ trivial
    simp [StopSys.after, Machine.exec, stopMachine, StopSys.next, StopSys.runStep, hrun,
      hawake hrun]
  | clearExit =>
    refine hnow [.run] { s with bIsExit := false, run := .getQueues } ?_ trivial
    simp [StopSys.after, Machine.exec, stopMachine, StopSys.next, StopSys.runStep, hrun]
  | getQueues => exact hnow [] s rfl (by simp [Touches, hrun])
  | isEmpty => exact hnow [] s rfl (by simp [Touches, hrun])
  | outQueue => exact hnow [] s rfl (by simp [Touches, hrun])
  | createCloseConnectEvent pdata => exact hnow [] s rfl (by simp [Touches, hrun])
  | processMessage pdata =>
    refine hnow [.processed 0, .run] { s with run := .outQueue } ?_ trivial
    simp [StopSys.after, Machine.exec, stopMachine, StopSys.next, StopSys.runStep, hrun]
  | delete pdata =>
    refine hnow [.run] { s with run := .outQueue } ?_ trivial
    simp [StopSys.after, Machine.exec, stopMachine, StopSys.next, StopSys.runStep, hrun]
  | whileOperate => exact absurd (by rw [hrun]; trivial) hnot
  | usleep => exact absurd (by rw [hrun]; trivial) hnot
  | loop => exact absurd (by rw [hrun]; trivial) hnot
  | setExit => exact absurd (by rw [hrun]; trivial) hnot
  | exited => exact absurd (by rw [hrun]; trivial) hnot

/-- **When stopping a worker is final.** In the runs in which `stop`
returns only where `run` has settled, no step after it touches
`CGlobalMgr` or its queues; and in any run, where it returns with `run`
not settled, `run` still goes on to such a step. -/
theorem stop_final (hnext : s.next a = some s') :
    (stopMachine.Reach ReturnsSettled s → s.owner = .stopped → ¬ Touches s a) ∧
    (stopMachine.Reachable s → Returns s a → ¬ s.run.Settled →
      ∃ as s₁, s'.after as = some s₁ ∧ (s₁.next .run).isSome = true ∧ Touches s₁ .run) := by
  refine ⟨fun hs hstop => not_touches_of_settled (settled_of_reach hs hstop) hnext, ?_⟩
  intro hs hreturns hnot
  have hstop : s'.owner = .stopped ∧ s'.run = s.run := by
    cases stopStep_of_next hnext with
    | exited | wake => exact ⟨rfl, rfl⟩
    | notExited howner hexit => exact absurd hreturns hexit
    | create | createFail | detach | detachFail | kill | clear | run | useManager | processed
    | inQueue => exact False.elim hreturns
  have hinv := stopInv_step hnext (stopInv_of_reachable hs)
  refine touches_of_not_settled (fun hborn => ?_) (hinv.awake (by rw [hstop.1]; trivial)) ?_
  · have hcreate := hinv.born.mpr hborn
    rw [hstop.1] at hcreate
    cases hcreate
  · rw [hstop.2]
    exact hnot

/-- `start`, the worker in front of its loop. -/
def startRun : List StopAction :=
  [.pthreadCreate true, .pthreadDetach true, .pthreadKill, .run, .run, .run]

/-- A worker with nothing to do, stopped while it sleeps; and one that is
stopped before it has read its signal. -/
theorem stop_final_sleeping :
    (∃ s, stopMachine.Reach ReturnsSettled s ∧ s.owner = .stopped ∧ s.run = .usleep ∧
      ∀ a s', s.next a = some s' → ¬ Touches s a) ∧
    ∃ s s', stopMachine.Reachable s ∧ s.next .wake = some s' ∧
      ∃ as s₁, s'.after as = some s₁ ∧ (s₁.next .run).isSome = true ∧ Touches s₁ .run := by
  have hsleeping : ∃ s, stopMachine.Reach ReturnsSettled s ∧
      (s.owner = .stopped ∧ s.run = .usleep) :=
    Machine.exists_reach_of_exec (startRun ++ [.run, .run, .clearOperate, .readExit, .wake])
      (by decide)
  have hpaused : ∃ s s', stopMachine.Takes s .wake s' ∧ s.run = .pause :=
    Machine.exists_takes_of_exec
      [.pthreadCreate true, .pthreadDetach true, .pthreadKill, .clearOperate, .readExit] (by decide)
  obtain ⟨s, hs, hstop, hrun⟩ := hsleeping
  obtain ⟨s₁, s₂, ⟨hs₁, hwake⟩, hpause⟩ := hpaused
  change s₁.next .wake = some s₂ at hwake
  refine ⟨⟨s, hs, hstop, hrun, fun a s' hnext => (stop_final hnext).1 hs hstop⟩,
    s₁, s₂, hs₁, hwake, (stop_final hwake).2 hs₁ trivial ?_⟩
  rw [hpause]
  exact id

/-- **A worker that is draining the queue is not waited for.** -/
theorem stop_not_final :
    ¬ ∀ s a s', stopMachine.Reachable s → s.owner = .stopped → s.next a = some s' →
      ¬ Touches s a := by
  intro hall
  have hdraining : ∃ s s', stopMachine.Takes s .run s' ∧ (s.owner = .stopped ∧ s.run = .outQueue) :=
    Machine.exists_takes_of_exec
      (startRun ++ [.inQueue {}, .run, .run, .clearOperate, .readExit, .wake]) (by decide)
  obtain ⟨s, s', ⟨hs, hnext⟩, hstop, hrun⟩ := hdraining
  exact hall s .run s' hs hstop hnext (by simp [Touches, hrun])

end Worker

end EupuServer
