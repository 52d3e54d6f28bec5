import EupuServer.Epoll.Wf
/-!
# The connects of the server

Each connect of `createServerConnect` that succeeds has a number of its own.
Its connection is with the thread that made it, then in the event queue,
then with the epoll thread, and is given an index on the way, once
(`Attempts`). While the connection is open its index tells where in the
socket map it stands (`lookup_of_open`); once it is not, it never is again
(`Step.open_of`).
-/

namespace EupuServer

namespace Epoll

open Network Protocol

/-- The connect whose connection the thread has not queued. -/
def ConnectPc.attempt : ConnectPc → Option ℕ
  | .connected sock => some sock.attempt
  | .published sock => some sock.attempt
  | _ => none

/-- The connect whose connection an event adds. -/
def attemptOf : NetEvent → Option ℕ
  | .addClient sock => some sock.attempt
  | .closeClient _ _ => none

/-- The connects whose connections are in the event queue. -/
def queuedAttempts (es : List NetEvent) : List ℕ := es.filterMap attemptOf

/-- The connection of connect `l` has not come to the epoll thread. -/
def Pending (s : Sys) (l : ℕ) : Prop :=
  l ∈ queuedAttempts s.eventlist ∨ ∃ th, l ∈ (s.connecting th).attempt

/-- **The connection of connect `l` is open**: pending, about to be added,
or in the map. -/
def Open (s : Sys) (l : ℕ) : Prop :=
  (∃ fd sock, s.socketmap.lookup fd = some (some sock) ∧ sock.attempt = l) ∨
    (∃ sock, s.pc = .adding sock ∧ sock.attempt = l) ∨ Pending s l

/-- **Connects are in order.** -/
structure Attempts (s : Sys) : Prop where
  /-- an index was given for a connect that was made -/
  known : ∀ id fd t l, .index id fd t l ∈ s.hist → l ≤ s.attempts
  /-- and for no connect twice -/
  once : ∀ id fd t id' fd' t' l, 1 ≤ l → .index id fd t l ∈ s.hist → .index id' fd' t' l ∈ s.hist →
    id = id'
  /-- a connection is pending in one place -/
  queued : (queuedAttempts s.eventlist).Nodup
  held : ∀ th, ∀ l ∈ (s.connecting th).attempt, l ∉ queuedAttempts s.eventlist
  own : ∀ th th' l, l ∈ (s.connecting th).attempt → l ∈ (s.connecting th').attempt → th = th'
  /-- what is pending was connected and has no index -/
  pending : ∀ l, Pending s l → 1 ≤ l ∧ l ≤ s.attempts ∧ ∀ id fd t, .index id fd t l ∉ s.hist

variable {cfg : Config} {s s' : Sys} {a : Action} {th : ℕ} {l : ℕ}

@[simp] theorem queuedAttempts_close (fd conntime : ℤ) (es : List NetEvent) :
    queuedAttempts (.closeClient fd conntime :: es) = queuedAttempts es := rfl

@[simp] theorem queuedAttempts_add (sock : SocketSet) (es : List NetEvent) :
    queuedAttempts (.addClient sock :: es) = sock.attempt :: queuedAttempts es := rfl

@[simp] theorem queuedAttempts_append (es es' : List NetEvent) :
    queuedAttempts (es ++ es') = queuedAttempts es ++ queuedAttempts es' :=
  List.filterMap_append

/-- A request to close queues no connection. -/
theorem createCloseConnectEvent_queued (fd conntime : ℤ) :
    queuedAttempts (createCloseConnectEvent s fd conntime).eventlist =
      queuedAttempts s.eventlist := by
  unfold createCloseConnectEvent
  split
  · rfl
  · rw [Sys.withEvents, queuedAttempts_append]
    exact List.append_nil _

/-- What the threads are connecting once one of them has moved. -/
theorem mem_attempt_of_update {c : ConnectPc} {th' : ℕ}
    (hconn : s'.connecting = Function.update s.connecting th c)
    (h : l ∈ (s'.connecting th').attempt) :
    th' = th ∧ l ∈ c.attempt ∨ th' ≠ th ∧ l ∈ (s.connecting th').attempt := by
  rw [hconn] at h
  by_cases hth : th' = th
  · subst hth
    rw [Function.update_self] at h
    exact .inl ⟨rfl, h⟩
  · rw [Function.update_of_ne hth] at h
    exact .inr ⟨hth, h⟩

/-- The indices given once a connection has come up: one is its own. -/
theorem index_born {sock : SocketSet} {id : ℕ} {fd t : ℤ}
    (h : .index id fd t l ∈ (born s sock).hist) :
    .index id fd t l ∈ s.hist ∨ id = s.calls + 1 ∧ l = sock.attempt := by
  rcases List.mem_append.mp h with h | h
  · rcases List.mem_append.mp h with h | h
    · exact .inl h
    · injection List.mem_singleton.mp h with hid _ _ hl
      exact .inr ⟨hid, hl⟩
  · cases List.mem_singleton.mp h

/-- The connection of an event that is handled next is pending. -/
theorem pending_of_head {sock : SocketSet} {es : List NetEvent}
    (hlst : s.eventlist = .addClient sock :: es) : Pending s sock.attempt := by
  refine .inl ?_
  rw [hlst, queuedAttempts_add]
  exact List.mem_cons_self

/-! ## The invariant -/

namespace Attempts

/-- The order is kept where no connection comes or goes. -/
theorem of_frame (h : Attempts s)
    (hindex : ∀ id fd t l, .index id fd t l ∈ s'.hist → .index id fd t l ∈ s.hist)
    (hattempts : s'.attempts = s.attempts) (hconn : s'.connecting = s.connecting)
    (hqueue : queuedAttempts s'.eventlist = queuedAttempts s.eventlist) : Attempts s' := by
  refine ⟨?_, ?_, ?_, ?_, ?_, ?_⟩
  · intro id fd t l hi
    rw [hattempts]
    exact h.known _ _ _ _ (hindex _ _ _ _ hi)
  · intro id fd t id' fd' t' l hl hi hi'
    exact h.once _ _ _ _ _ _ _ hl (hindex _ _ _ _ hi) (hindex _ _ _ _ hi')
  · rw [hqueue]
    exact h.queued
  · rw [hqueue, hconn]
    exact h.held
  · rw [hconn]
    exact h.own
  · unfold Pending
    rw [hqueue, hconn, hattempts]
    intro l hl
    obtain ⟨hpos, hle, hfresh⟩ := h.pending l hl
    exact ⟨hpos, hle, fun id fd t hi => hfresh id fd t (hindex _ _ _ _ hi)⟩

/-- And where nothing but the rest of the state changes. -/
theorem of_eq (h : Attempts s) (hhist : s'.hist = s.hist) (hattempts : s'.attempts = s.attempts)
    (hconn : s'.connecting = s.connecting) (hevents : s'.eventlist = s.eventlist) : Attempts s' :=
  h.of_frame (by rw [hhist]; exact fun _ _ _ _ h => h) hattempts hconn (by rw [hevents])

theorem of_shrinks (h : Attempts s) (hsub : Shrinks s s') (hkeep : Keeps s s') : Attempts s' :=
  h.of_frame (fun _ _ _ _ => (hsub.index _ _ _ _).mp) hkeep.attempts hkeep.connecting
    (by rw [hkeep.eventlist])

/-- A client comes up: it is given an index, and is no connect. -/
theorem bornClient (h : Attempts s) {sock : SocketSet} (hsock : sock.attempt = 0) :
    Attempts (born s sock) := by
  have hold : ∀ {id fd t l}, 1 ≤ l → .index id fd t l ∈ (born s sock).hist →
      .index id fd t l ∈ s.hist := by
    intro id fd t l hl hi
    rcases index_born hi with hi | ⟨-, rfl⟩
    · exact hi
    · omega
  refine ⟨?_, ?_, h.queued, h.held, h.own, ?_⟩
  · intro id fd t l hi
    rcases index_born hi with hi | ⟨-, rfl⟩
    · exact h.known _ _ _ _ hi
    · rw [hsock]
      exact Nat.zero_le _
  · intro id fd t id' fd' t' l hl hi hi'
    exact h.once _ _ _ _ _ _ _ hl (hold hl hi) (hold hl hi')
  · intro l hl
    obtain ⟨hpos, hle, hfresh⟩ := h.pending l hl
    exact ⟨hpos, hle, fun id fd t hi => hfresh id fd t (hold hpos hi)⟩

/-- **A connection leaves the queue** and is given its index. -/
theorem addClientEvent (h : Attempts s) {sock : SocketSet} {es : List NetEvent}
    (hlst : s.eventlist = .addClient sock :: es) :
    Attempts (addClientEvent cfg (s.withEvents es) sock) := by
  rw [addClientEvent_eq]
  obtain ⟨hpos, hle, hfresh⟩ := h.pending sock.attempt (pending_of_head hlst)
  have hqueued := h.queued
  have hheld := h.held
  rw [hlst, queuedAttempts_add] at hqueued hheld
  obtain ⟨hnotin, hrest⟩ := List.nodup_cons.mp hqueued
  have hindex : ∀ {id fd t l}, .index id fd t l ∈ (born (s.withEvents es) sock).hist →
      .index id fd t l ∈ s.hist ∨ id = s.calls + 1 ∧ l = sock.attempt := index_born
  refine ⟨?_, ?_, hrest, ?_, h.own, ?_⟩
  · intro id fd t l hi
    rcases hindex hi with hi | ⟨-, rfl⟩
    · exact h.known _ _ _ _ hi
    · exact hle
  · intro id fd t id' fd' t' l hl hi hi'
    rcases hindex hi with hi | ⟨hid, rfl⟩
    · rcases hindex hi' with hi' | ⟨-, rfl⟩
      · exact h.once _ _ _ _ _ _ _ hl hi hi'
      · exact absurd hi (hfresh _ _ _)
    · rcases hindex hi' with hi' | ⟨hid', -⟩
      · exact absurd hi' (hfresh _ _ _)
      · rw [hid, hid']
  · intro th l hl hq
    exact hheld th l hl (List.mem_cons_of_mem _ hq)
  · intro l hl
    -- whatever else is pending is another connect
    have hother : l ≠ sock.attempt ∧ Pending s l := by
      rcases hl with hl | ⟨th, hl⟩
      · refine ⟨fun heq => hnotin (heq ▸ hl), .inl ?_⟩
        rw [hlst, queuedAttempts_add]
        exact List.mem_cons_of_mem _ hl
      · exact ⟨fun heq => hheld th l hl (heq ▸ List.mem_cons_self), .inr ⟨th, hl⟩⟩
    obtain ⟨hpos', hle', hfresh'⟩ := h.pending l hother.2
    refine ⟨hpos', hle', ?_⟩
    intro id fd t hi
    rcases hindex hi with hi | ⟨-, heq⟩
    · exact hfresh' id fd t hi
    · exact hother.1 heq

/-- A thread moves, and keeps the connection it has, or gives it up. -/
theorem of_move (h : Attempts s) {c : ConnectPc} (hhist : s'.hist = s.hist)
    (hattempts : s'.attempts = s.attempts) (hevents : s'.eventlist = s.eventlist)
    (hconn : s'.connecting = Function.update s.connecting th c)
    (hc : ∀ l ∈ c.attempt, l ∈ (s.connecting th).attempt) : Attempts s' := by
  have hold : ∀ th' l, l ∈ (s'.connecting th').attempt → l ∈ (s.connecting th').attempt := by
    intro th' l hl
    rcases mem_attempt_of_update hconn hl with ⟨rfl, hnew⟩ | ⟨-, hsame⟩
    · exact hc l hnew
    · exact hsame
  refine ⟨by rw [hhist, hattempts]; exact h.known, by rw [hhist]; exact h.once,
    by rw [hevents]; exact h.queued, ?_, ?_, ?_⟩
  · rw [hevents]
    exact fun th' l hl => h.held th' l (hold th' l hl)
  · exact fun th' th'' l hl hl' => h.own th' th'' l (hold th' l hl) (hold th'' l hl')
  · unfold Pending
    rw [hevents, hhist, hattempts]
    rintro l (hl | ⟨th', hl⟩)
    · exact h.pending l (.inl hl)
    · exact h.pending l (.inr ⟨th', hold th' l hl⟩)

/-- **A connect succeeds**, and has a new number. -/
theorem connectOk (h : Attempts s) {sock : SocketSet} (hsock : sock.attempt = s.attempts + 1) :
    Attempts ({ s with attempts := s.attempts + 1 }.atConnect th (.connected sock)) := by
  have hnew : ¬ Pending s (s.attempts + 1) := by
    intro hl
    have := (h.pending _ hl).2.1
    omega
  have hold : ∀ th' l,
      l ∈ (({ s with attempts := s.attempts + 1 }.atConnect th (.connected sock)).connecting
        th').attempt → th' = th ∧ l = s.attempts + 1 ∨ l ∈ (s.connecting th').attempt := by
    intro th' l hl
    rcases mem_attempt_of_update (s := s) rfl hl with ⟨hth, hl⟩ | ⟨-, hl⟩
    · injection hl with hl
      exact .inl ⟨hth, by rw [← hl, hsock]⟩
    · exact .inr hl
  refine ⟨?_, h.once, h.queued, ?_, ?_, ?_⟩
  · exact fun id fd t l hi => (h.known id fd t l hi).trans (Nat.le_succ _)
  · intro th' l hl hq
    rcases hold th' l hl with ⟨-, rfl⟩ | hl
    · exact hnew (.inl hq)
    · exact h.held th' l hl hq
  · intro th' th'' l hl hl'
    rcases hold th' l hl with ⟨rfl, rfl⟩ | hmem
    · rcases hold th'' _ hl' with ⟨rfl, -⟩ | hmem'
      · rfl
      · exact absurd (.inr ⟨th'', hmem'⟩) hnew
    · rcases hold th'' l hl' with ⟨rfl, rfl⟩ | hmem'
      · exact absurd (.inr ⟨th', hmem⟩) hnew
      · exact h.own th' th'' l hmem hmem'
  · -- no index was given for a connect that had not been made
    intro l hl
    have hcase : Pending s l ∨ l = s.attempts + 1 := by
      rcases hl with hl | ⟨th', hl⟩
      · exact .inl (.inl hl)
      · rcases hold th' l hl with ⟨-, rfl⟩ | hl
        · exact .inr rfl
        · exact .inl (.inr ⟨th', hl⟩)
    rcases hcase with hl | rfl
    · obtain ⟨hpos, hle, hfresh⟩ := h.pending l hl
      exact ⟨hpos, hle.trans (Nat.le_succ _), hfresh⟩
    · refine ⟨Nat.succ_pos _, le_rfl, ?_⟩
      intro id fd t hi
      have := h.known id fd t _ hi
      omega

/-- **The event is queued**: the connection is handed over. -/
theorem enqueue (h : Attempts s) {sock : SocketSet} (hpc : s.connecting th = .published sock) :
    Attempts ((s.withEvents (s.eventlist ++ [.addClient sock])).atConnect th .idle) := by
  have hmine : sock.attempt ∈ (s.connecting th).attempt := by
    rw [hpc]
    rfl
  have hqueue : queuedAttempts (s.eventlist ++ [.addClient sock]) =
      queuedAttempts s.eventlist ++ [sock.attempt] := queuedAttempts_append _ _
  have hold : ∀ th' l,
      l ∈ (((s.withEvents (s.eventlist ++ [.addClient sock])).atConnect th .idle).connecting
        th').attempt → th' ≠ th ∧ l ∈ (s.connecting th').attempt := by
    intro th' l hl
    rcases mem_attempt_of_update (s := s) rfl hl with ⟨-, hl⟩ | hother
    · cases hl
    · exact hother
  refine ⟨h.known, h.once, ?_, ?_, ?_, ?_⟩
  · show (queuedAttempts (s.eventlist ++ [.addClient sock])).Nodup
    rw [hqueue, List.nodup_append]
    refine ⟨h.queued, List.nodup_singleton _, ?_⟩
    rintro l hl l' hl' rfl
    rw [List.mem_singleton.mp hl'] at hl
    exact h.held th _ hmine hl
  · -- what is queued last was the thread's own, and no other thread has it
    intro th' l hl hq
    obtain ⟨hne, hl⟩ := hold th' l hl
    change l ∈ queuedAttempts (s.eventlist ++ [.addClient sock]) at hq
    rw [hqueue] at hq
    rcases List.mem_append.mp hq with hq | hq
    · exact h.held th' l hl hq
    · rw [List.mem_singleton.mp hq] at hl
      exact hne (h.own th' th _ hl hmine)
  · exact fun th' th'' l hl hl' => h.own th' th'' l (hold th' l hl).2 (hold th'' l hl').2
  · rintro l (hl | ⟨th', hl⟩)
    · change l ∈ queuedAttempts (s.eventlist ++ [.addClient sock]) at hl
      rw [hqueue] at hl
      rcases List.mem_append.mp hl with hl | hl
      · exact h.pending l (.inl hl)
      · rw [List.mem_singleton.mp hl]
        exact h.pending _ (.inr ⟨th, hmine⟩)
    · exact h.pending l (.inr ⟨th', (hold th' l hl).2⟩)

theorem init (now : ℤ) : Attempts (Sys.init cfg now) where
  known _ _ _ _ h := by cases h
  once _ _ _ _ _ _ _ _ h := by cases h
  queued := List.nodup_nil
  held _ _ h := by cases h
  own _ _ _ h := by cases h
  pending l h := by
    rcases h with h | ⟨th, h⟩ <;> cases h

/-- A connection is registered, or lost. -/
theorem register (h : Attempts s) (sock : SocketSet) (ctlOk : Bool) (pc : Pc) :
    Attempts ((addClientToEpoll cfg s sock ctlOk).goto pc) := by
  rcases addClientToEpoll_cases cfg s sock ctlOk with ⟨-, es, heq, -⟩ | ⟨-, heq⟩ <;> rw [heq] <;>
    exact h.of_eq rfl rfl rfl rfl

theorem effects (h : Attempts s) (heffs : Effects cfg s s') (pc : Pc) : Attempts (s'.goto pc) :=
  (h.of_shrinks heffs.shrinks heffs.keeps).of_eq rfl rfl rfl rfl

theorem accepts (h : Attempts s) {cur : SendMap NetDataPtr} {allocs : ℕ} {recs : List Record}
    (hrecs : ∀ r ∈ recs, r.IsAccept) :
    Attempts { s with cur := cur, allocs := allocs, hist := s.hist ++ recs } :=
  h.of_frame (fun id fd t l => ((accepts_shrinks hrecs).index id fd t l).mp) rfl rfl rfl

theorem sendMsgToServer (h : Attempts s) (ntype : ℤ) (m : ServerMsg) :
    Attempts (sendMsgToServer cfg s ntype m) := by
  obtain ⟨cur, allocs, recs, hrecs, heq⟩ := sendMsgToServer_frame cfg s ntype m
  rw [heq]
  exact h.accepts hrecs

/-- **A step keeps the connects in order.** -/
theorem step (h : Attempts s) (hstep : Step cfg s a s') : Attempts s' := by
  cases hstep with
  | epollWait | listen | acceptFail | flush | sysEnd | switchSendMap | sweepEnd | pingEnd |
    outQueue =>
    exact h.of_eq rfl rfl rfl rfl
  | event => exact h.effects (handleEvent_effects s _ _) _
  | scan => exact h.effects (scanFd_effects s _ _) _
  | sweep => exact h.effects (sweepFd_effects s _) _
  | @acceptConn evs fd ip port b₁ b₂ b₃ b₄ now ctlOk hpc =>
    rcases acceptConn_cases cfg s fd ip port b₁ b₂ b₃ b₄ now ctlOk with heq | ⟨-, heq⟩
    · rw [heq]
      exact h.of_eq rfl rfl rfl rfl
    · have hopen : Attempts (s.opened fd) := h.of_eq rfl rfl rfl rfl
      have hborn : Attempts (born (s.opened fd) (newClient fd ip port now)) := hopen.bornClient rfl
      rw [heq]
      exact hborn.register _ ctlOk _
  | @sysClose fd conntime es hpc hlst =>
    have hes : Attempts (s.withEvents es) := by
      refine h.of_frame (fun _ _ _ _ hi => hi) rfl rfl ?_
      rw [hlst, queuedAttempts_close]
      rfl
    exact hes.of_shrinks (closeClient_shrinks fd conntime) (closeClient_keeps fd conntime)
  | sysAdd hpc hlst => exact h.addClientEvent hlst
  | register => exact h.register _ _ _
  | @scanEnd del =>
    have hdrop : Attempts (del.foldl deleteSendMsgFromSendMap s) :=
      h.of_shrinks (deleteSendMsgs_shrinks del) (deleteSendMsgs_keeps del)
    exact hdrop.of_eq rfl rfl rfl rfl
  | keepalive _ _ _ hto | keepaliveSend _ _ hto =>
    rcases hto with rfl | rfl <;> exact h.of_eq rfl rfl rfl rfl
  | ping => exact (h.sendMsgToServer _ _).of_eq rfl rfl rfl rfl
  | @addMsg d =>
    obtain ⟨cur, allocs, recs, hrecs, heq⟩ := addMsg_frame cfg s d
    rw [heq]
    exact h.accepts hrecs
  | sendMsgToServer => exact h.sendMsgToServer _ _
  | @createCloseConnectEvent fd conntime =>
    have hqueue := createCloseConnectEvent_queued (s := s) fd conntime
    unfold Epoll.createCloseConnectEvent at hqueue ⊢
    split
    · exact h
    · rename_i hroom
      rw [if_neg hroom] at hqueue
      exact h.of_frame (fun _ _ _ _ hi => hi) rfl rfl hqueue
  | startNot => exact h
  | start | socket | socketFail | connectFail | enqueueFail =>
    exact h.of_move rfl rfl rfl rfl nofun
  | connectOk => exact h.connectOk rfl
  | publish hpc =>
    refine h.of_move rfl rfl rfl rfl ?_
    rw [hpc]
    exact fun _ hl => hl
  | enqueue hpc => exact h.enqueue hpc

theorem reachable {now : ℤ} (h : (server cfg now).Reachable s) : Attempts s :=
  h.invariant (init now) fun _ _ _ _ _ hnext hs => hs.step (step_of_next hnext)

end Attempts

/-! ## Open connections -/

/-- **Where an open connection stands**: it was given an index, so it is in
the map under the descriptor the index was given for. -/
theorem lookup_of_open (hwf : Wf s) (hatt : Attempts s) (hpc : ∀ sock, s.pc ≠ .adding sock)
    (hpos : 1 ≤ l) {id : ℕ} {fd t : ℤ} (hindex : .index id fd t l ∈ s.hist) (hopen : Open s l) :
    ∃ sock, s.socketmap.lookup fd = some (some sock) ∧ sock.key.fdkey = fd ∧
      sock.key.connectTime = t := by
  rcases hopen with ⟨fd', sock, hsock, rfl⟩ | ⟨sock, hadd, -⟩ | hpend
  · -- a connect is given one index, and an index one descriptor and time
    obtain ⟨hkey, -, hi⟩ := hwf.conn hsock
    have hid : sock.key.id = id := hatt.once _ _ _ _ _ _ _ hpos hi hindex
    unfold Indexed at hi
    rw [hid] at hi
    obtain ⟨hfd, ht, -⟩ := hwf.unique _ _ _ _ _ _ _ hi hindex
    refine ⟨sock, ?_, hfd, ht⟩
    rw [← hfd, hkey]
    exact hsock
  · exact absurd hadd (hpc sock)
  · exact absurd hindex ((hatt.pending l hpend).2.2 id fd t)

/-- Where the map is not touched. -/
theorem open_of_eq (hopen : Open s' l) (hmap : s'.socketmap = s.socketmap)
    (hpc : ∀ sock, s'.pc = .adding sock → s.pc = .adding sock)
    (hpend : Pending s' l → Pending s l) : Open s l := by
  rcases hopen with ⟨fd, sock, hsock, hl⟩ | ⟨sock, hadd, hl⟩ | hp
  · exact .inl ⟨fd, sock, hmap ▸ hsock, hl⟩
  · exact .inr (.inl ⟨sock, hpc sock hadd, hl⟩)
  · exact .inr (.inr (hpend hp))

/-- Where connections are only lost. -/
theorem open_of_shrinks (hsub : Shrinks s s') (hkeep : Keeps s s')
    (hpc : ∀ sock, s'.pc = .adding sock → s.pc = .adding sock) (hopen : Open s' l) : Open s l := by
  rcases hopen with ⟨fd, sock', hsock', hl⟩ | ⟨sock, hadd, hl⟩ | hpend
  · obtain ⟨sock, hsock, hsame⟩ := hsub.conn hsock'
    exact .inl ⟨fd, sock, hsock, hsame.attempt ▸ hl⟩
  · exact .inr (.inl ⟨sock, hpc sock hadd, hl⟩)
  · unfold Pending at hpend
    rw [hkeep.eventlist, hkeep.connecting] at hpend
    exact .inr (.inr hpend)

theorem open_of_effects (heffs : Effects cfg s s') {pc : Pc} (hpc : ∀ sock, pc ≠ .adding sock)
    (hopen : Open (s'.goto pc) l) : Open s l := by
  refine open_of_shrinks (heffs.shrinks.goto pc) ?_ (fun sock hadd => absurd hadd (hpc sock)) hopen
  obtain ⟨hevents, hconn, hatt, hallocs, hcur⟩ := heffs.keeps
  exact ⟨hevents, hconn, hatt, hallocs, hcur⟩

/-- A connection that is registered was about to be added. -/
theorem open_of_register {sock : SocketSet} {ctlOk : Bool} (hadding : s.pc = .adding sock) {pc : Pc}
    (hpc : ∀ x, pc ≠ .adding x) (hopen : Open ((addClientToEpoll cfg s sock ctlOk).goto pc) l) :
    Open s l := by
  rcases addClientToEpoll_cases cfg s sock ctlOk with ⟨-, es, heq, -⟩ | ⟨-, heq⟩
  · rw [heq] at hopen
    exact open_of_eq hopen rfl (fun x hadd => absurd hadd (hpc x)) id
  · rw [heq] at hopen
    rcases hopen with ⟨fd, x, hx, hl⟩ | ⟨x, hadd, -⟩ | hpend
    · simp only [Sys.goto, IntMap.lookup_insert_eq] at hx
      split at hx
      · injection hx with hx
        injection hx with hx
        exact .inr (.inl ⟨sock, hadding, hx ▸ hl⟩)
      · exact .inl ⟨fd, x, hx, hl⟩
    · exact absurd hadd (hpc x)
    · exact .inr (.inr hpend)

/-- What a thread that moves has pending. -/
theorem pending_of_update {c : ConnectPc} (hevents : s'.eventlist = s.eventlist)
    (hconn : s'.connecting = Function.update s.connecting th c)
    (hc : l ∈ c.attempt → Pending s l) (hpend : Pending s' l) : Pending s l := by
  rcases hpend with hl | ⟨th', hl⟩
  · exact .inl (hevents ▸ hl)
  · rcases mem_attempt_of_update hconn hl with ⟨-, hl⟩ | ⟨-, hl⟩
    · exact hc hl
    · exact .inr ⟨th', hl⟩

/-- **A step opens no connection of a connect that was made.** -/
theorem Step.open_of (h : Step cfg s a s') (hpos : 1 ≤ l) (hle : l ≤ s.attempts)
    (hopen : Open s' l) : Open s l := by
  cases h with
  | epollWait | listen | acceptFail | flush | sysEnd | switchSendMap | sweepEnd | pingEnd =>
    exact open_of_eq hopen rfl nofun id
  | event => exact open_of_effects (handleEvent_effects s _ _) (by simp) hopen
  | scan => exact open_of_effects (scanFd_effects s _ _) (by simp) hopen
  | sweep => exact open_of_effects (sweepFd_effects s _) (by simp) hopen
  | outQueue => exact open_of_eq hopen rfl (fun _ h => h) id
  | @acceptConn evs fd ip port b₁ b₂ b₃ b₄ now ctlOk hpc =>
    rcases acceptConn_cases cfg s fd ip port b₁ b₂ b₃ b₄ now ctlOk with heq | ⟨-, heq⟩
    · rw [heq] at hopen
      exact open_of_eq hopen rfl (fun _ h => h) id
    · rw [heq] at hopen
      have hborn := open_of_register rfl (by simp [hpc]) hopen
      -- the client that came up belongs to no connect
      rcases hborn with hlive | ⟨sock, hadd, hl⟩ | hpend
      · exact .inl hlive
      · injection hadd with hadd
        have hzero : l = 0 := by rw [← hl, ← hadd]; rfl
        omega
      · exact .inr (.inr hpend)
  | @sysClose fd conntime es hpc hlst =>
    have hes : Open (s.withEvents es) l := by
      refine open_of_shrinks (closeClient_shrinks fd conntime) (closeClient_keeps fd conntime) ?_
        hopen
      rw [closeClient_eq]
      exact fun _ h => h
    refine open_of_eq hes rfl (fun _ h => h) ?_
    unfold Pending
    rw [hlst, queuedAttempts_close]
    exact id
  | @sysAdd sock es hpc hlst =>
    rw [addClientEvent_eq] at hopen
    rcases hopen with hlive | ⟨x, hadd, hl⟩ | hpend
    · exact .inl hlive
    · injection hadd with hadd
      have hattempt : sock.attempt = l := by rw [← hl, ← hadd]; rfl
      exact .inr (.inr (hattempt ▸ pending_of_head hlst))
    · refine .inr (.inr (hpend.imp_left fun hl => ?_))
      rw [hlst, queuedAttempts_add]
      exact List.mem_cons_of_mem _ hl
  | register hpc => exact open_of_register hpc (by simp) hopen
  | @scanEnd del =>
    have hkeep := deleteSendMsgs_keeps (s := s) del
    exact open_of_shrinks ((deleteSendMsgs_shrinks del).goto .keepalive) ⟨hkeep.eventlist,
      hkeep.connecting, hkeep.attempts, hkeep.allocs, hkeep.cur⟩ nofun hopen
  | keepalive _ _ _ hto | keepaliveSend _ _ hto =>
    rcases hto with rfl | rfl <;> exact open_of_eq hopen rfl nofun id
  | @ping ntype =>
    obtain ⟨cur, allocs, recs, -, heq⟩ := sendMsgToServer_frame cfg s ntype keepaliveMsg
    rw [heq] at hopen
    exact open_of_eq hopen rfl nofun id
  | addMsg => exact open_of_eq hopen rfl (fun _ h => h) id
  | @sendMsgToServer ntype m =>
    obtain ⟨cur, allocs, recs, -, heq⟩ := sendMsgToServer_frame cfg s ntype m
    rw [heq] at hopen
    exact open_of_eq hopen rfl (fun _ h => h) id
  | @createCloseConnectEvent fd conntime =>
    have hqueue := createCloseConnectEvent_queued (s := s) fd conntime
    unfold Epoll.createCloseConnectEvent at hqueue hopen
    split at hopen
    · exact hopen
    · rename_i hroom
      rw [if_neg hroom] at hqueue
      refine open_of_eq hopen rfl (fun _ h => h) ?_
      unfold Pending
      rw [hqueue]
      exact id
  | startNot => exact hopen
  | start | socket | socketFail | connectFail | enqueueFail =>
    exact open_of_eq hopen rfl (fun _ h => h) (pending_of_update rfl rfl nofun)
  | connectOk =>
    refine open_of_eq hopen rfl (fun _ h => h) (pending_of_update rfl rfl ?_)
    intro hl
    have hnew : s.attempts + 1 = l := Option.some.inj hl
    omega
  | @publish th sock hpc =>
    refine open_of_eq hopen rfl (fun _ h => h) (pending_of_update rfl rfl ?_)
    intro hl
    refine .inr ⟨th, ?_⟩
    rw [hpc]
    exact hl
  | @enqueue th sock hpc =>
    refine open_of_eq hopen rfl (fun _ h => h) ?_
    rintro (hl | ⟨th', hl⟩)
    · change l ∈ queuedAttempts (s.eventlist ++ [.addClient sock]) at hl
      rw [queuedAttempts_append] at hl
      rcases List.mem_append.mp hl with hl | hl
      · exact .inl hl
      · refine .inr ⟨th, ?_⟩
        rw [hpc, List.mem_singleton.mp hl]
        rfl
    · rcases mem_attempt_of_update (s := s) rfl hl with ⟨-, hl⟩ | ⟨-, hl⟩
      · cases hl
      · exact .inr ⟨th', hl⟩

end Epoll

end EupuServer
