import EupuServer.Epoll.Step
import EupuServer.Network.RecvEnding
/-!
# The receive loop, answer by answer

A step of the server handles an event with all that the kernel will have
answered by then. Here the answers of `recv` come one at a time: the loop of
`doRecvMessage` asks for another as long as it gets bytes or is interrupted
(`goesOn_of_asks`), so a peer can keep the thread in it. What the loop does
to the server comes with the last answer; up to then it changes what no
other thread sees. A build that logs does not survive a read through
`m_socketmap.end()`: there the process has no next step.

Every state of this machine is one of the server's (`rounds_reachable`).
-/

namespace EupuServer

namespace Epoll

open Network

/-! ## The server, answer by answer -/

/-- The server, and what `recv` answered in the call of `doRecvMessage` that
is under way. -/
structure RoundSys extends Sys where
  answers : List RecvResult := []

/-- A step: an answer of `recv`, or a step of the server. -/
inductive RoundAction
  | recv (r : RecvResult)
  | step (a : Action)

/-- The steps of the epoll thread. -/
def Action.ofEpoll : Action → Bool
  | .addMsg _ | .sendMsgToServer _ _ | .createCloseConnectEvent _ _ | .outQueue | .connect _ _ =>
    false
  | _ => true

def RoundAction.ofEpoll : RoundAction → Bool
  | .recv _ => true
  | .step a => a.ofEpoll

/-- What `recv` answers in the step. -/
def RoundAction.answer : RoundAction → Option RecvResult
  | .recv r => some r
  | .step _ => none

variable (cfg : Config) (log : Bool)

/-- The connection that the thread is in the receive loop of. -/
def Sys.reading (s : Sys) : Option SocketSet :=
  match s.pc with
  | .batch (e :: _) =>
    match s.socketmap.lookup e.key.fdkey with
    | some (some sock) =>
      if e.kind = .epollin ∧ e.key.fdkey ≠ cfg.listenfd ∧ sock.key = e.key then some sock else none
    | _ => none
  | _ => none

/-- Whether the loop calls `recv` once more: it would take another answer,
even one that ends it. -/
def RoundSys.asks (s : RoundSys) : Bool :=
  match s.toSys.reading cfg with
  | none => false
  | some sock =>
    (recvMessage cfg.host cfg.recvbuflen 0 sock (s.answers ++ [.error])).rest = []

/-- Whether the step reads through `m_socketmap.end()`, or a null pointer, in
the arguments of a log call. -/
def Sys.faultsInLog (s : Sys) : Action → Bool
  | .scan _ =>
    match s.pc with
    | .scan (fd :: _) _ => (s.socketmap.lookup fd).join.isNone
    | _ => false
  | _ => false

/-- The steps, in a build that logs or in one that does not. -/
def RoundSys.next (s : RoundSys) : RoundAction → Option RoundSys
  | .recv r => if s.asks cfg then some { s with answers := s.answers ++ [r] } else none
  | .step (.event io) =>
    -- the loop has had its last answer
    if s.asks cfg = false ∧ io.recvs = s.answers then
      (Epoll.next cfg s.toSys (.event io)).map fun sys => { toSys := sys }
    else none
  | .step a =>
    if log ∧ s.toSys.faultsInLog a then none
    else (Epoll.next cfg s.toSys a).map fun sys => { s with toSys := sys }

/-- **The server, answer by answer.** -/
def rounds (now : ℤ) : Machine RoundSys RoundAction where
  init := { toSys := Sys.init cfg now }
  next := RoundSys.next cfg log

variable {cfg log} {s s' : RoundSys} {a : RoundAction}

/-- **What a step does**: an answer of `recv` is kept, an event is handled
with the answers so far, or the server takes any other step. -/
inductive RoundStep (cfg : Config) (s : RoundSys) : RoundAction → RoundSys → Prop
  | recv {r : RecvResult} (hasks : s.asks cfg = true) :
    RoundStep cfg s (.recv r) { s with answers := s.answers ++ [r] }
  | event {io : Io} {sys : Sys} (hasks : s.asks cfg = false) (hio : io.recvs = s.answers)
      (hstep : Step cfg s.toSys (.event io) sys) :
    RoundStep cfg s (.step (.event io)) { toSys := sys }
  | other {a : Action} {sys : Sys} (ha : ∀ io, a ≠ .event io) (hstep : Step cfg s.toSys a sys) :
    RoundStep cfg s (.step a) { s with toSys := sys }

/-- **Every step is one of these.** -/
theorem roundStep_of_next (h : s.next cfg log a = some s') : RoundStep cfg s a s' := by
  unfold RoundSys.next at h
  split at h
  · split at h
    · cases h
      exact .recv ‹_›
    · cases h
  · split at h
    · rename_i hlast
      obtain ⟨sys, hsys, rfl⟩ := Option.map_eq_some_iff.mp h
      exact .event hlast.1 hlast.2 (step_of_next hsys)
    · cases h
  · rename_i hnot
    split at h
    · cases h
    · obtain ⟨sys, hsys, rfl⟩ := Option.map_eq_some_iff.mp h
      exact .other (fun io => by rintro rfl; exact hnot io rfl) (step_of_next hsys)

/-- A step here is a step of the server, or none. -/
theorem next_toSys (h : s.next cfg log a = some s') :
    s'.toSys = s.toSys ∨ ∃ b, Epoll.next cfg s.toSys b = some s'.toSys := by
  unfold RoundSys.next at h
  split at h
  · split at h
    · cases h
      exact .inl rfl
    · cases h
  · split at h
    · obtain ⟨sys, hsys, rfl⟩ := Option.map_eq_some_iff.mp h
      exact .inr ⟨_, hsys⟩
    · cases h
  · split at h
    · cases h
    · obtain ⟨sys, hsys, rfl⟩ := Option.map_eq_some_iff.mp h
      exact .inr ⟨_, hsys⟩

/-- **Answer by answer the server reaches what it reaches.** -/
theorem rounds_reachable {now : ℤ} (h : (rounds cfg log now).Reachable s) :
    (server cfg now).Reachable s.toSys := by
  refine h.simulates (N := server cfg now) (f := RoundSys.toSys) rfl ?_
  intro s a s' _ _ _ hnext
  exact (next_toSys hnext).imp_right fun ⟨b, hb⟩ => ⟨b, trivial, hb⟩

/-! ## The answers -/

/-- The loop asks for an answer while its event is handled. -/
theorem pc_of_asks (h : s.asks cfg = true) :
    ∃ e evs, s.pc = .batch (e :: evs) ∧ e.kind = .epollin := by
  unfold RoundSys.asks Sys.reading at h
  cases hpc : s.pc with
  | batch evs =>
    rw [hpc] at h
    cases evs with
    | nil => cases h
    | cons e evs =>
      refine ⟨e, evs, rfl, ?_⟩
      simp only at h
      split at h
      · cases h
      · rename_i hread
        split at hread
        · split at hread
          · rename_i hcond
            exact hcond.1
          · cases hread
        · cases hread
  | _ =>
    rw [hpc] at h
    cases h

/-- It is given where it is asked for. -/
theorem RoundStep.asks (h : RoundStep cfg s a s') : ∀ r ∈ a.answer, s.asks cfg = true := by
  cases h with
  | recv hasks => exact fun _ _ => hasks
  | event | other => exact nofun

/-- And it is kept until the event is handled. -/
theorem RoundStep.answers (h : RoundStep cfg s a s') (hpc : s'.pc = s.pc) :
    s'.answers = s.answers ++ a.answer.toList := by
  cases h with
  | recv => rfl
  | event _ _ hstep =>
    -- an event that is handled is off the batch
    cases hstep with
    | event hbatch | listen hbatch =>
      rw [hbatch] at hpc
      simp [Sys.goto] at hpc
  | other => exact (List.append_nil _).symm

/-- **While the loop asks, no answer has ended it**: each gave bytes, or was
an interrupt. -/
theorem goesOn_of_asks (h : s.asks cfg = true) : ∀ r ∈ s.answers, r.goesOn = true := by
  intro r hr
  by_contra hends
  rw [Bool.not_eq_true] at hends
  unfold RoundSys.asks at h
  split at h
  · cases h
  · have hrest := of_decide_eq_true h
    exact recvLoop_endsInside (endsInside_of_mem hr hends (List.cons_ne_nil _ _)) _ _ hrest

/-- **Where answers come again and again** none of them ends the loop. -/
theorem goesOn_of_often (state : ℕ → RoundSys) (answer : ℕ → Option RecvResult) {m : ℕ}
    (hasks : ∀ n, ∀ r ∈ answer n, (state n).asks cfg = true)
    (hkept : ∀ n, m ≤ n → (state (n + 1)).answers = (state n).answers ++ (answer n).toList)
    (hoften : ∀ k, ∃ n, k ≤ n ∧ (answer n).isSome) :
    ∀ n, m ≤ n → ∀ r ∈ answer n, r.goesOn = true := by
  intro n hmn r hr
  have hmem : ∀ k, n + 1 ≤ k → r ∈ (state k).answers := by
    intro k hnk
    induction k, hnk using Nat.le_induction with
    | base =>
      rw [hkept n hmn]
      exact List.mem_append_right _ (Option.mem_toList.mpr hr)
    | succ k hnk ih =>
      rw [hkept k (by omega)]
      exact List.mem_append_left _ ih
  obtain ⟨k, hnk, hk⟩ := hoften (n + 1)
  obtain ⟨x, hx⟩ := Option.isSome_iff_exists.mp hk
  exact goesOn_of_asks (hasks k x hx) r (hmem k hnk)

end Epoll

end EupuServer
