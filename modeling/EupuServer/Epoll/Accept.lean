import EupuServer.Epoll.Effect
/-!
# The accept loop

The listening descriptor is registered edge-triggered, so `doAccept` has to
go on until `accept` reports that no connection is left. It goes on until
`accept` fails: of an error other than `EAGAIN` it writes a line to the
log and returns as well. Of the descriptors it got, each is in the map or
closed by then, whichever way the loop ended.
-/

namespace EupuServer

namespace Epoll

open Network Protocol

/-- The errors of `accept` that are told apart here. -/
inductive Errno
  | eagain
  | eintr
  | econnaborted
  | other (errno : ℕ)
  deriving DecidableEq, Repr

/-- A connection `accept` returned, and what becomes of the calls on its
descriptor. -/
structure Accepted where
  fd : ℤ
  ip : String
  port : UInt16
  nonBlock : Bool
  sndBuf : Bool
  rcvBuf : Bool
  noDelay : Bool
  now : ℤ
  ctlOk : Bool
  deriving DecidableEq, Repr

/-- What a call of `accept` comes to. -/
inductive AcceptOutcome
  | error (errno : Errno)
  | conn (c : Accepted)
  deriving DecidableEq, Repr

/-- The label of the step. -/
def AcceptOutcome.action : AcceptOutcome → Action
  | .error _ => .accept .fail
  | .conn c => .accept (.conn c.fd c.ip c.port c.nonBlock c.sndBuf c.rcvBuf c.noDelay c.now c.ctlOk)

variable (cfg : Config) (s : Sys) (c : Accepted)

/-- A round of the loop, and its calls of `close`. -/
def acceptStep : Sys × List ℤ :=
  acceptConnCalls cfg s c.fd c.ip c.port c.nonBlock c.sndBuf c.rcvBuf c.noDelay c.now c.ctlOk

/-- What `doAccept` leaves: the state, the error it returned at, the
outcomes it did not come to, and each descriptor it got with the calls of
`close` in its round. -/
structure AcceptEnd where
  sys : Sys
  errno : Errno
  rest : List AcceptOutcome
  handled : List (ℤ × List ℤ)

/-- `doAccept`; `none` where the outcomes come to an end before it does, or
`accept` returns a descriptor that is open. -/
def doAccept : Sys → List AcceptOutcome → Option AcceptEnd
  | _, [] => none
  -- the error decides what is logged, and the loop is left for any
  | s, .error errno :: outs => some ⟨s, errno, outs, []⟩
  | s, .conn c :: outs =>
    if 0 ≤ c.fd ∧ c.fd ∉ s.openfds then
      let round := acceptStep cfg s c
      (doAccept round.1 outs).map fun r => { r with handled := (c.fd, round.2) :: r.handled }
    else none

/-- A descriptor that `accept` returned is in the map, or its round closed
it once. -/
def Settled (s : Sys) (h : ℤ × List ℤ) : Prop :=
  (h.2 = [] ∧ ∃ sock, s.socketmap.lookup h.1 = some (some sock)) ∨ h.2 = [h.1]

/-- **The listening socket is drained**: the loop was left because no
connection was waiting, and every descriptor is accounted for. -/
structure Drained (r : AcceptEnd) : Prop where
  eagain : r.errno = .eagain
  settled : ∀ h ∈ r.handled, Settled r.sys h

/-- The first error among the outcomes. -/
def firstError : List AcceptOutcome → Option Errno
  | [] => none
  | .error errno :: _ => some errno
  | .conn _ :: outs => firstError outs

variable {cfg s c} {outs : List AcceptOutcome} {r : AcceptEnd}

/-! ## One round -/

/-- Opening a descriptor and closing it again touches no other. -/
theorem opened_close_openfds (s : Sys) (fd : ℤ) {k : ℤ} (hk : k ≠ fd) :
    k ∈ ((s.opened fd).close fd).openfds ↔ k ∈ s.openfds := by
  simp [Sys.close, Sys.opened, hk]

/-- What `addClientToEpoll` does with the descriptors: it closes that of the
connection, or puts the connection into the map. -/
theorem addClientToEpollCalls_spec (cfg : Config) (t : Sys) (sock : SocketSet) (ctlOk : Bool) :
    ((addClientToEpollCalls cfg t sock ctlOk).2 = [sock.key.fdkey] ∧
        (addClientToEpollCalls cfg t sock ctlOk).1.socketmap = t.socketmap ∧
        (addClientToEpollCalls cfg t sock ctlOk).1.openfds = t.openfds.erase sock.key.fdkey) ∨
      ((addClientToEpollCalls cfg t sock ctlOk).2 = [] ∧
        (addClientToEpollCalls cfg t sock ctlOk).1.socketmap =
          t.socketmap.insert sock.key.fdkey (some sock) ∧
        (addClientToEpollCalls cfg t sock ctlOk).1.openfds = t.openfds) := by
  unfold addClientToEpollCalls
  cases hadd : epollAdd t sock ctlOk with
  | none => exact .inl ⟨rfl, rfl, rfl⟩
  | some t' =>
    have ht' : t'.socketmap = t.socketmap ∧ t'.openfds = t.openfds := by
      unfold epollAdd at hadd
      split at hadd
      · cases hadd
        exact ⟨rfl, rfl⟩
      · cases hadd
    cases hput : addSocketToMap cfg t' sock with
    | none =>
      dsimp only
      rw [hput]
      exact .inl ⟨rfl, ht'.1, congrArg (fun fds => fds.erase sock.key.fdkey) ht'.2⟩
    | some t'' =>
      have hins :
          t'' = { t' with socketmap := t'.socketmap.insert sock.key.fdkey (some sock) } := by
        unfold addSocketToMap at hput
        split at hput
        · cases hput
        · split at hput
          · cases hput
          · cases hput
            rfl
      dsimp only
      rw [hput]
      refine .inr ⟨rfl, ?_, ?_⟩
      · rw [hins, ← ht'.1]
      · rw [hins]
        exact ht'.2

/-- **What a round leaves**: the descriptor closed by one call and the map
as it was, or the descriptor open and its connection in the map. No other
descriptor is touched. -/
theorem acceptStep_spec (cfg : Config) (s : Sys) (c : Accepted) :
    (((acceptStep cfg s c).2 = [c.fd] ∧ c.fd ∉ (acceptStep cfg s c).1.openfds ∧
        (acceptStep cfg s c).1.socketmap = s.socketmap) ∨
      ((acceptStep cfg s c).2 = [] ∧ c.fd ∈ (acceptStep cfg s c).1.openfds ∧
        ∃ sock, (acceptStep cfg s c).1.socketmap = s.socketmap.insert c.fd (some sock))) ∧
    ∀ k, k ≠ c.fd → (k ∈ (acceptStep cfg s c).1.openfds ↔ k ∈ s.openfds) := by
  unfold acceptStep acceptConnCalls
  -- what is closed at once
  have hclosed : c.fd ∉ ((s.opened c.fd).closeCall c.fd).1.openfds := Finset.notMem_erase _ _
  have hshut : ∀ k, k ≠ c.fd →
      (k ∈ ((s.opened c.fd).closeCall c.fd).1.openfds ↔ k ∈ s.openfds) :=
    fun k hk => opened_close_openfds s c.fd hk
  by_cases h₁ : c.nonBlock = true
  swap
  · simp only [h₁]
    exact ⟨.inl ⟨rfl, hclosed, rfl⟩, hshut⟩
  by_cases h₂ : c.sndBuf = true
  swap
  · simp only [h₁, h₂, not_true_eq_false, if_false]
    exact ⟨.inl ⟨rfl, hclosed, rfl⟩, hshut⟩
  by_cases h₃ : c.rcvBuf = true
  swap
  · simp only [h₁, h₂, h₃, not_true_eq_false, if_false]
    exact ⟨.inl ⟨rfl, hclosed, rfl⟩, hshut⟩
  by_cases h₄ : c.noDelay = true
  swap
  · simp only [h₁, h₂, h₃, h₄, not_true_eq_false, if_false]
    exact ⟨.inl ⟨rfl, hclosed, rfl⟩, hshut⟩
  simp only [h₁, h₂, h₃, h₄, not_true_eq_false, if_false, createConnectServerMsg_eq]
  -- all options are set, and the connection is announced and added
  generalize hsock : initSocketset _ c.ip c.port clientType c.now = sock
  have hfd : sock.key.fdkey = c.fd := by
    rw [← hsock]
    rfl
  generalize ht : Sys.push _ sock.key.id .connected _ = t
  have hmap : t.socketmap = s.socketmap := by
    rw [← ht]
    rfl
  have hopen : t.openfds = insert c.fd s.openfds := by
    rw [← ht]
    rfl
  rcases addClientToEpollCalls_spec cfg t sock c.ctlOk with
    ⟨hcalls, hsame, hfds⟩ | ⟨hcalls, hins, hfds⟩
  · refine ⟨.inl ⟨hcalls.trans (by rw [hfd]), ?_, hsame.trans hmap⟩, fun k hk => ?_⟩
    · rw [hfds, hfd]
      exact Finset.notMem_erase _ _
    · rw [hfds, hopen, hfd]
      simp [hk]
  · refine ⟨.inr ⟨hcalls, ?_, sock, ?_⟩, fun k hk => ?_⟩
    · rw [hfds, hopen]
      exact Finset.mem_insert_self ..
    · rw [hins, hmap, hfd]
    · rw [hfds, hopen]
      simp [hk]

/-! ## The loop -/

/-- A descriptor that is open stays open, and what is in the map under it
stays as it is: `accept` does not return it. -/
theorem doAccept_keeps (h : doAccept cfg s outs = some r) {k : ℤ} (hk : k ∈ s.openfds) :
    k ∈ r.sys.openfds ∧ r.sys.socketmap.lookup k = s.socketmap.lookup k := by
  induction outs generalizing s r with
  | nil => cases h
  | cons out outs ih =>
    cases out with
    | error errno =>
      cases h
      exact ⟨hk, rfl⟩
    | conn c =>
      rw [doAccept] at h
      split at h
      · rename_i hfresh
        obtain ⟨r', hr', rfl⟩ := Option.map_eq_some_iff.mp h
        have hne : k ≠ c.fd := fun heq => hfresh.2 (heq ▸ hk)
        obtain ⟨hround, hothers⟩ := acceptStep_spec cfg s c
        obtain ⟨hopen, hlookup⟩ := ih hr' ((hothers k hne).mpr hk)
        refine ⟨hopen, hlookup.trans ?_⟩
        rcases hround with ⟨-, -, hmap⟩ | ⟨-, -, sock, hmap⟩
        · rw [hmap]
        · rw [hmap, AList.lookup_insert_ne hne]
      · cases h

/-- **No descriptor is lost**, whichever error ends the loop. -/
theorem settled_of_doAccept (h : doAccept cfg s outs = some r) :
    ∀ d ∈ r.handled, Settled r.sys d := by
  induction outs generalizing s r with
  | nil => cases h
  | cons out outs ih =>
    cases out with
    | error errno =>
      cases h
      intro d hd
      cases hd
    | conn c =>
      rw [doAccept] at h
      split at h
      · obtain ⟨r', hr', rfl⟩ := Option.map_eq_some_iff.mp h
        intro d hd
        rcases List.mem_cons.mp hd with rfl | hd
        · rcases (acceptStep_spec cfg s c).1 with ⟨hclose, -, -⟩ | ⟨hclose, hopen, sock, hmap⟩
          · exact .inr hclose
          · refine .inl ⟨hclose, sock, ?_⟩
            rw [(doAccept_keeps hr' hopen).2, hmap, AList.lookup_insert]
        · exact ih hr' d hd
      · cases h

/-- The loop returns at the first error. -/
theorem errno_of_doAccept (h : doAccept cfg s outs = some r) :
    firstError outs = some r.errno := by
  induction outs generalizing s r with
  | nil => cases h
  | cons out outs ih =>
    cases out with
    | error errno =>
      cases h
      rfl
    | conn c =>
      rw [doAccept] at h
      split at h
      · obtain ⟨r', hr', rfl⟩ := Option.map_eq_some_iff.mp h
        have hrest := ih hr'
        exact hrest
      · cases h

/-- **When `doAccept` drains the listening socket**: exactly where the
first error of `accept` is `EAGAIN`. -/
theorem doAccept_drained_iff (h : doAccept cfg s outs = some r) :
    Drained r ↔ firstError outs = some .eagain := by
  rw [errno_of_doAccept h, Option.some.injEq]
  exact ⟨fun hdrained => hdrained.eagain, fun heagain => ⟨heagain, settled_of_doAccept h⟩⟩

/-- One client on `fd`, and then an error. -/
def oneClient (fd : ℤ) (errno : Errno) : List AcceptOutcome :=
  [.conn ⟨fd, "", 0, true, true, true, true, 0, true⟩, .error errno]

theorem doAccept_drained_iff_client :
    ∃ r, doAccept smallConfig (Sys.init smallConfig 0) (oneClient 7 .eagain) = some r ∧
      (Drained r ↔ firstError (oneClient 7 .eagain) = some .eagain) := by
  obtain ⟨r, hr⟩ : ∃ r,
      doAccept smallConfig (Sys.init smallConfig 0) (oneClient 7 .eagain) = some r := ⟨_, rfl⟩
  exact ⟨r, hr, doAccept_drained_iff hr⟩

/-- **A signal ends the loop**, with connections left that no event will
announce. -/
theorem doAccept_not_drained :
    ¬ ∀ (cfg : Config) (s : Sys) (outs : List AcceptOutcome) (r : AcceptEnd),
      doAccept cfg s outs = some r → Drained r := by
  intro hall
  have hdrained := hall smallConfig (Sys.init smallConfig 0)
    (oneClient 7 .eintr ++ oneClient 8 .eagain) _ rfl
  exact absurd hdrained.eagain (by decide)

/-! ## The loop as steps of the machine -/

/-- A round leaves the thread in the loop. -/
theorem acceptStep_pc : (acceptStep cfg s c).1.pc = s.pc := by
  change (acceptConn ..).pc = s.pc
  rcases acceptConn_cases cfg s c.fd c.ip c.port c.nonBlock c.sndBuf c.rcvBuf c.noDelay c.now
    c.ctlOk with heq | ⟨-, heq⟩
  · rw [heq]
  · rw [heq]
    rfl

/-- **A call of `doAccept`, as the machine takes it**: one step for each
call of `accept`. -/
theorem doAccept_steps {now : ℤ} {evs : List EpollEvent} (hpc : s.pc = .accept evs)
    (h : doAccept cfg s outs = some r) :
    ∃ used, outs = used ++ r.rest ∧
      (server cfg now).exec (fun _ _ => True) s (used.map AcceptOutcome.action) =
        some (r.sys.goto (.batch evs)) := by
  induction outs generalizing s r with
  | nil => cases h
  | cons out outs ih =>
    cases out with
    | error errno =>
      cases h
      refine ⟨[.error errno], rfl, ?_⟩
      simp only [List.map_cons, List.map_nil, AcceptOutcome.action, Machine.exec, if_true, server,
        next, hpc, Option.bind_some]
    | conn c =>
      rw [doAccept] at h
      split at h
      · rename_i hfresh
        obtain ⟨r', hr', rfl⟩ := Option.map_eq_some_iff.mp h
        obtain ⟨used, hused, hexec⟩ := ih (acceptStep_pc.trans hpc) hr'
        have hnext : next cfg s (AcceptOutcome.conn c).action = some (acceptStep cfg s c).1 := by
          simp only [AcceptOutcome.action, next, hpc]
          exact if_pos hfresh
        refine ⟨.conn c :: used, by rw [hused]; rfl, ?_⟩
        rw [List.map_cons]
        exact (Machine.exec_cons _ trivial hnext).trans hexec
      · cases h

end Epoll

end EupuServer
