import EupuServer.Epoll.Effect
/-!
# Requests to close a connection

A worker asks for a connection to be closed by its descriptor and its
connect time. `closeClient` is given both and uses the descriptor, so a
request that is handled late closes whatever has the descriptor by then
(`closeEvent_onlyNamed_iff`).
-/

namespace EupuServer

namespace Epoll

open Network Protocol

/-- The request names the connection in the socket map. -/
def Named (s : Sys) (fd conntime : ℤ) : Prop :=
  ((s.socketmap.lookup fd).join.map fun sock => sock.key.connectTime) = some conntime

instance (s : Sys) (fd conntime : ℤ) : Decidable (Named s fd conntime) :=
  inferInstanceAs (Decidable (_ = _))

/-- **A request hits only the connection it names**: where it names none, no
descriptor is closed, no entry removed, no server key reset and no message
appended. -/
def OnlyNamed (s s' : Sys) (fd conntime : ℤ) : Prop :=
  Named s fd conntime ∨
    s'.openfds = s.openfds ∧ s'.socketmap = s.socketmap ∧ s'.keys = s.keys ∧
      s'.recvtmplst = s.recvtmplst

instance (s s' : Sys) (fd conntime : ℤ) : Decidable (OnlyNamed s s' fd conntime) :=
  inferInstanceAs (Decidable (_ ∨ _))

variable {cfg : Config} {now fd conntime : ℤ} {s s' : Sys} {es : List NetEvent}

/-- Where the descriptor is not open and has no entry, closing does
nothing. -/
theorem closeClient_of_absent (hopen : fd ∉ s.openfds) (hmap : s.socketmap.lookup fd = none) :
    (closeClient cfg s fd conntime).openfds = s.openfds ∧
      (closeClient cfg s fd conntime).socketmap = s.socketmap ∧
      (closeClient cfg s fd conntime).keys = s.keys ∧
      (closeClient cfg s fd conntime).recvtmplst = s.recvtmplst := by
  have hclosing : closing s fd = none := by
    unfold closing
    rw [hmap]
    split <;> rfl
  have hnot : fd ∉ s.socketmap := AList.lookup_eq_none.mp hmap
  rw [closeClient_eq]
  refine ⟨?_, ?_, ?_, ?_⟩
  · simp only [Finset.erase_eq_of_notMem hopen, ite_self]
  · have herase : s.socketmap.erase fd = s.socketmap := AList.ext (List.kerase_of_notMem_keys hnot)
    simp only [herase, ite_self]
  · simp only [closeKeys, hclosing]
  · simp [closeMsgs, hclosing]

/-- **When a close request hits only the connection it names**, at every
step of every run: exactly if it does name the connection, or its descriptor
is negative or neither open nor in the socket map. -/
theorem closeEvent_onlyNamed_iff (hstep : (server cfg now).Takes s .sysEvent s')
    (hpc : s.pc = .sysEvent) (hlst : s.eventlist = .closeClient fd conntime :: es) :
    OnlyNamed s s' fd conntime ↔
      Named s fd conntime ∨ fd < 0 ∨ fd ∉ s.openfds ∧ s.socketmap.lookup fd = none := by
  have hs' : s' = closeClient cfg (s.withEvents es) fd conntime := by
    have hnext : next cfg s .sysEvent = some s' := hstep.2
    simp only [next, hpc, doSystemEvent, hlst, Option.some.injEq] at hnext
    exact hnext.symm
  unfold OnlyNamed
  refine or_congr_right ?_
  rw [hs']
  constructor
  · rintro ⟨hopen, hmap, -, -⟩
    rw [closeClient_eq] at hopen hmap
    by_cases hfd : fd < 0
    · exact .inl hfd
    · simp only [hfd, if_false] at hopen hmap
      refine .inr ⟨Finset.erase_eq_self.mp hopen, ?_⟩
      rw [← hmap, AList.lookup_erase]
  · rintro (hfd | ⟨hopen, hmap⟩)
    · rw [closeClient, closeClientCalls, if_pos hfd]
      exact ⟨rfl, rfl, rfl, rfl⟩
    · exact closeClient_of_absent (s := s.withEvents es) hopen hmap

/-! ## A late request -/

/-- A worker asks for the client on descriptor 7 to be closed. -/
def timelyRequest : List Action := acceptRound 7 ++ [.createCloseConnectEvent 7 2, .flush]

/-- Two messages of that client make workers ask. The first request closes
it, another client is accepted on 7, and then the second request comes. -/
def lateRequest : List Action :=
  timelyRequest ++ [.sysEvent] ++ quietEnd ++ timelyRequest

/-- A request that comes in time. -/
theorem closeEvent_onlyNamed_iff_timely :
    ∃ s s', (server smallConfig 0).Takes s .sysEvent s' ∧
      (OnlyNamed s s' 7 2 ↔
        Named s 7 2 ∨ (7 : ℤ) < 0 ∨ 7 ∉ s.openfds ∧ s.socketmap.lookup 7 = none) := by
  have hrun : ∃ s s', (server smallConfig 0).Takes s .sysEvent s' ∧ s.pc = .sysEvent ∧
      s.eventlist = [.closeClient 7 2] :=
    Machine.exists_takes_of_exec timelyRequest (by decide)
  obtain ⟨s, s', hstep, hpc, hlst⟩ := hrun
  exact ⟨s, s', hstep, closeEvent_onlyNamed_iff hstep hpc hlst⟩

/-- **A late request closes another connection**: `(7, 2)` is handled while
descriptor 7 belongs to the connection with time 3. -/
theorem closeEvent_hits_other :
    ∃ s s', (server smallConfig 0).Takes s .sysEvent s' ∧ s.pc = .sysEvent ∧
      s.eventlist = [.closeClient 7 2] ∧ Named s 7 3 ∧ ¬ OnlyNamed s s' 7 2 :=
  Machine.exists_takes_of_exec lateRequest (by decide)

end Epoll

end EupuServer
