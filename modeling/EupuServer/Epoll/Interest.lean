import EupuServer.Epoll.Wf
/-!
# What the connections are registered for

A connection is registered to be read when it is added and after each send,
and the scan of the backup map registers it to be written in place of that.
So a connection with messages left waits for its peer to take them, and is
not read until then. A run in which no scan arms a live connection, and
nobody closes the descriptor of one under it, reads every connection
(`readAndWritten_of_undisturbed`).
-/

namespace EupuServer

namespace Epoll

open Network Protocol

/-- The events a registration waits for. -/
def Registration.interest (reg : Registration) : List EventKind :=
  if reg.out then [.epollout] else [.epollin]

/-- There is a connection under the descriptor. -/
def Connected (s : Sys) (fd : ℤ) : Prop := (s.socketmap.lookup fd).join.isSome

instance (s : Sys) (fd : ℤ) : Decidable (Connected s fd) := inferInstanceAs (Decidable (_ = true))

/-- **Every connection is registered to be read**, and those that have
messages to be written as well. -/
def ReadAndWritten (s : Sys) : Prop :=
  ∀ fd, Connected s fd → ∃ reg, s.epollset.lookup fd = some reg ∧ .epollin ∈ reg.interest ∧
    (listAt s.bak fd ≠ [] → .epollout ∈ reg.interest)

variable (cfg : Config)

/-- The descriptor that a step of the scan registers to be written. -/
def arms (s : Sys) : Action → Option ℤ
  | .scan ctlOk =>
    match s.pc with
    | .scan (fd :: _) _ => if ctlOk ∧ fd ∈ s.epollset then some fd else none
    | _ => none
  | _ => none

/-- The descriptor that a step closes as its own, without a look at the
connection under it. -/
def closesOwn (s : Sys) : Action → Option ℤ
  | .register ctlOk =>
    match s.pc with
    | .adding sock => if Addable cfg s sock.key.fdkey ctlOk then none else some sock.key.fdkey
    | _ => none
  | .connect th .connectFail =>
    match s.connecting th with
    | .connecting _ fd => some fd
    | _ => none
  | .connect th .enqueue =>
    match s.connecting th with
    | .published sock => if eventQueueSize ≤ s.eventlist.length then some sock.key.fdkey else none
    | _ => none
  | _ => none

/-- **A step that takes no connection's reading away.** -/
def Undisturbed (s : Sys) (a : Action) : Prop :=
  (∀ fd ∈ arms s a, ¬ Connected s fd) ∧ ∀ fd ∈ closesOwn cfg s a, ¬ Connected s fd

instance (s : Sys) (a : Action) : Decidable (Undisturbed cfg s a) :=
  inferInstanceAs (Decidable (_ ∧ _))

variable {cfg} {s s' s'' : Sys} {a : Action} {fd : ℤ}

theorem connected_iff : Connected s fd ↔ ∃ sock, s.socketmap.lookup fd = some (some sock) := by
  unfold Connected
  rcases s.socketmap.lookup fd with _ | _ | sock <;> simp

/-! ## What the handlers leave -/

/-- The descriptor is open and registered to be read. -/
def Reads (s : Sys) (fd : ℤ) : Prop :=
  fd ∈ s.openfds ∧ ∃ key, s.epollset.lookup fd = some ⟨key, false⟩

/-- **A step that calms**: no connection comes up, none that is left loses
its reading, and no descriptor gets messages to be written. -/
structure Calms (s s' : Sys) : Prop where
  live : ∀ fd, Connected s' fd → Connected s fd
  reads : ∀ fd, Connected s' fd → Reads s fd → Reads s' fd
  bak : ∀ fd, fd ∈ s'.bak → fd ∈ s.bak

namespace Calms

theorem of_eq (hmap : s'.socketmap = s.socketmap) (hopen : s'.openfds = s.openfds)
    (hset : s'.epollset = s.epollset) (hbak : s'.bak = s.bak) : Calms s s' := by
  refine ⟨fun fd h => ?_, fun fd _ h => ?_, fun fd h => hbak ▸ h⟩
  · unfold Connected at h ⊢
    rwa [hmap] at h
  · unfold Reads at h ⊢
    rwa [hopen, hset]

theorem refl : Calms s s := of_eq rfl rfl rfl rfl

theorem trans (h : Calms s s') (h' : Calms s' s'') : Calms s s'' :=
  ⟨fun fd hl => h.live fd (h'.live fd hl),
    fun fd hl hr => h'.reads fd hl (h.reads fd (h'.live fd hl) hr),
    fun fd hb => h.bak fd (h'.bak fd hb)⟩

/-- The thread goes on. -/
theorem goto (h : Calms s s') (pc : Pc) : Calms s (s'.goto pc) := h.trans (of_eq rfl rfl rfl rfl)

end Calms

/-- Closing a descriptor that has no connection calms, whatever else epoll
is left with. -/
theorem calms_of_closed {es : IntMap Registration} (hlive : ¬ Connected s fd)
    (hset : ∀ k, es.lookup k = if k = fd then none else s.epollset.lookup k) :
    Calms s { s with openfds := s.openfds.erase fd, epollset := es } := by
  refine ⟨fun _ h => h, ?_, fun _ h => h⟩
  rintro k hk ⟨hopen, key, hkey⟩
  have hne : k ≠ fd := by
    rintro rfl
    exact hlive hk
  exact ⟨Finset.mem_erase.mpr ⟨hne, hopen⟩, key, by rw [hset, if_neg hne, hkey]⟩

theorem close_calms (hlive : ¬ Connected s fd) : Calms s (s.close fd) :=
  calms_of_closed hlive fun k => IntMap.lookup_erase_eq _ _ k

/-- A connection that is closed goes with its descriptor. -/
theorem closeMap_calms (fd : ℤ) :
    Calms s { s.close fd with socketmap := s.socketmap.erase fd } := by
  have hlive : ∀ k, Connected { s.close fd with socketmap := s.socketmap.erase fd } k →
      k ≠ fd ∧ Connected s k := by
    intro k hk
    obtain ⟨sock, hsock⟩ := connected_iff.mp hk
    have hsock' : (s.socketmap.erase fd).lookup k = some (some sock) := hsock
    rw [IntMap.lookup_erase_eq] at hsock'
    split at hsock'
    · cases hsock'
    · exact ⟨‹_›, connected_iff.mpr ⟨sock, hsock'⟩⟩
  refine ⟨fun k hk => (hlive k hk).2, ?_, fun _ h => h⟩
  rintro k hk ⟨hopen, key, hkey⟩
  obtain ⟨hne, -⟩ := hlive k hk
  exact ⟨Finset.mem_erase.mpr ⟨hne, hopen⟩, key, by
    show (s.epollset.erase fd).lookup k = _
    rw [AList.lookup_erase_ne hne, hkey]⟩

theorem closeClient_calms (fd conntime : ℤ) : Calms s (closeClient cfg s fd conntime) := by
  by_cases hfd : fd < 0
  · rw [closeClient, closeClientCalls, if_pos hfd]
    exact .refl
  · rw [closeClient_eq]
    simp only [if_neg hfd]
    exact (closeMap_calms fd).trans (.of_eq rfl rfl rfl rfl)

theorem deleteSendMsg_calms (fd : ℤ) : Calms s (deleteSendMsgFromSendMap s fd) := by
  rcases deleteSendMsg_cases s fd with heq | heq <;> rw [heq]
  · exact .refl
  · refine ⟨fun _ h => h, fun _ _ h => h, fun k hk => ?_⟩
    exact (AList.mem_erase.mp hk).2

theorem deleteSendMsgs_calms (del : List ℤ) : Calms s (del.foldl deleteSendMsgFromSendMap s) :=
  deleteSendMsgs_invariant (I := Calms s) del (fun _ fd _ hs => hs.trans (deleteSendMsg_calms fd))
    .refl

theorem received_calms {sock : SocketSet} (hsock : s.socketmap.lookup fd = some (some sock))
    (o : RecvOutcome) : Calms s (received s fd sock o) := by
  refine ⟨fun k hk => ?_, fun _ _ h => h, fun _ h => h⟩
  by_cases hkfd : k = fd
  · exact hkfd ▸ connected_iff.mpr ⟨sock, hsock⟩
  · obtain ⟨x, hx⟩ := connected_iff.mp hk
    have hx' : (s.socketmap.insert fd (some o.sock)).lookup k = some (some x) := hx
    rw [AList.lookup_insert_ne hkfd] at hx'
    exact connected_iff.mpr ⟨x, hx'⟩

theorem doRecvMessage_calms (key : SocketKey) (io : Io) :
    Calms s (doRecvMessage cfg s key io) := by
  unfold doRecvMessage
  split
  · rename_i sock hsock
    split
    · exact closeClient_calms _ _
    · simp only
      split
      · exact received_calms hsock _
      · exact (received_calms hsock _).trans (closeClient_calms _ _)
  · exact closeClient_calms _ _

theorem erase_bak_calms (fd : ℤ) : Calms s { s with bak := s.bak.erase fd } :=
  ⟨fun _ h => h, fun _ _ h => h, fun _ hk => (AList.mem_erase.mp hk).2⟩

theorem doSendMessage_calms (key : SocketKey) (sends : List SendResult) :
    Calms s (doSendMessage s key sends).2 := by
  unfold doSendMessage
  split
  · rename_i sock hsock
    split
    · exact .refl
    · exact erase_bak_calms _
    · rename_i lst hlst
      have hsent : Calms s (sentFrom s key.fdkey (sendLoop sock.key sends lst)) := by
        refine ⟨fun _ h => h, fun _ _ h => h, fun k hk => ?_⟩
        rcases (AList.mem_insert _).mp hk with rfl | hk
        · exact IntMap.mem_of_lookup hlst
        · exact hk
      simp only
      split
      · exact hsent.trans (deleteSendMsg_calms _)
      · split
        · exact hsent.trans (erase_bak_calms _)
        · exact hsent
  · exact deleteSendMsg_calms _

/-- What is registered to be read is read. -/
theorem mod_calms (fd : ℤ) (key : SocketKey) :
    Calms s { s with epollset := s.epollset.insert fd ⟨key, false⟩ } := by
  refine ⟨fun _ h => h, ?_, fun _ h => h⟩
  rintro k - ⟨hopen, key', hkey⟩
  refine ⟨hopen, ?_⟩
  show ∃ key', (s.epollset.insert fd ⟨key, false⟩).lookup k = some ⟨key', false⟩
  rw [IntMap.lookup_insert_eq]
  split
  · exact ⟨key, rfl⟩
  · exact ⟨key', hkey⟩

theorem handleEvent_calms (e : EpollEvent) (io : Io) : Calms s (handleEvent cfg s e io) := by
  unfold handleEvent
  split
  · exact doRecvMessage_calms _ _
  · have hsend : Calms s (doSendMessage s e.key io.sends).2 := doSendMessage_calms _ _
    simp only
    split
    · exact hsend.trans (closeClient_calms _ _)
    · split
      · rename_i s₁ hmod
        obtain ⟨-, rfl⟩ := epollMod_eq_some hmod
        exact hsend.trans (mod_calms _ _)
      · exact hsend.trans (closeClient_calms _ _)
  · exact closeClient_calms _ _

theorem sweepFd_calms (fd : ℤ) : Calms s (sweepFd cfg s fd) := by
  unfold sweepFd sweepFdCalls
  split
  · exact .refl
  · exact closeMap_calms fd
  · exact closeClient_calms _ _

/-! ## Where a connection may have messages left -/

/-- Whether the backup map may have a list for a connection under `fd`: in
the scan only for those it has not come to, and from then on for none, until
the events of the next round are handled. -/
def Pc.mayHold : Pc → ℤ → Prop
  | .scan fds _, fd => fd ∈ fds
  | .keepalive, _ => False
  | .sweep _, _ => False
  | .keepaliveSend, _ => False
  | .ping _, _ => False
  | .wait, _ => False
  | _, _ => True

/-- **Every connection is read**, and none waits to be written behind the
scan. -/
structure Reading (s : Sys) : Prop where
  reads : ∀ fd, Connected s fd → Reads s fd
  quiet : ∀ fd, Connected s fd → fd ∈ s.bak → s.pc.mayHold fd

namespace Reading

theorem init (now : ℤ) : Reading (Sys.init cfg now) := by
  have hnone : ∀ fd, ¬ Connected (Sys.init cfg now) fd := by
    intro fd hlive
    obtain ⟨sock, hsock⟩ := connected_iff.mp hlive
    cases hsock
  exact ⟨fun fd h => absurd h (hnone fd), fun fd h => absurd h (hnone fd)⟩

/-- What calms keeps it, where the thread goes on to a place that allows as
much. -/
theorem of_calms (h : Reading s) (hcalm : Calms s s')
    (hpc : ∀ fd, Connected s' fd → s.pc.mayHold fd → s'.pc.mayHold fd) : Reading s' := by
  refine ⟨fun fd hl => hcalm.reads fd hl (h.reads fd (hcalm.live fd hl)), fun fd hl hb => ?_⟩
  exact hpc fd hl (h.quiet fd (hcalm.live fd hl) (hcalm.bak fd hb))

/-- Where the thread stays. -/
theorem of_calms_pc (h : Reading s) (hcalm : Calms s s') (hpc : s'.pc = s.pc) : Reading s' :=
  h.of_calms hcalm fun _ _ hold => hpc ▸ hold

/-- Where none has messages left, none has in the place the thread goes on
to. -/
theorem of_calms_quiet (h : Reading s) (hcalm : Calms s s') (hnone : ∀ fd, ¬ s.pc.mayHold fd) :
    Reading s' :=
  h.of_calms hcalm fun fd _ hold => absurd hold (hnone fd)

/-- **A connection that is added is read.** The descriptor has to be one
with no connection, unless the kernel takes it. -/
theorem addClientToEpoll (h : Reading s) {sock : SocketSet} {ctlOk : Bool}
    (hpc : ∀ fd, s.pc.mayHold fd)
    (hlive : ¬ Addable cfg s sock.key.fdkey ctlOk → ¬ Connected s sock.key.fdkey) :
    Reading (addClientToEpoll cfg s sock ctlOk) := by
  rcases addClientToEpoll_cases cfg s sock ctlOk with
    ⟨hadd, es, heq, hset⟩ | ⟨hadd, heq⟩ <;> rw [heq]
  · exact h.of_calms_pc (calms_of_closed (hlive hadd) hset) rfl
  · refine ⟨?_, fun fd _ _ => hpc fd⟩
    intro fd hl
    obtain ⟨x, hx⟩ := connected_iff.mp hl
    have hx' : (s.socketmap.insert sock.key.fdkey (some sock)).lookup fd = some (some x) := hx
    rw [IntMap.lookup_insert_eq] at hx'
    show fd ∈ s.openfds ∧ ∃ key, (s.epollset.insert sock.key.fdkey ⟨sock.key, false⟩).lookup fd = _
    rw [IntMap.lookup_insert_eq]
    split at hx'
    · rename_i hfd
      rw [if_pos hfd]
      exact ⟨hfd ▸ hadd.2.2.1, sock.key, rfl⟩
    · rename_i hfd
      rw [if_neg hfd]
      exact h.reads fd (connected_iff.mpr ⟨x, hx'⟩)

/-- A round of `doAccept`: its descriptor was not open, so it has no
connection. -/
theorem acceptConn (h : Reading s) {evs : List EpollEvent} (hpc : s.pc = .accept evs) {fd : ℤ}
    (hopen : fd ∉ s.openfds) (ip : String) (port : UInt16)
    (nonBlock sndBuf rcvBuf noDelay : Bool) (now : ℤ) (ctlOk : Bool) :
    Reading (acceptConn cfg s fd ip port nonBlock sndBuf rcvBuf noDelay now ctlOk) := by
  have hlive : ¬ Connected s fd := fun hl => hopen (h.reads fd hl).1
  have hopened : Calms s (s.opened fd) :=
    ⟨fun _ h => h, fun _ _ hr => ⟨Finset.mem_insert_of_mem hr.1, hr.2⟩, fun _ h => h⟩
  rcases acceptConn_cases cfg s fd ip port nonBlock sndBuf rcvBuf noDelay now ctlOk with
    heq | ⟨-, heq⟩ <;> rw [heq]
  · exact h.of_calms_pc (hopened.trans (close_calms hlive)) rfl
  · have hborn : Reading (born (s.opened fd) (newClient fd ip port now)) :=
      h.of_calms (hopened.trans (.of_eq rfl rfl rfl rfl)) fun _ _ _ => trivial
    have hadded : Reading (Epoll.addClientToEpoll cfg
        (born (s.opened fd) (newClient fd ip port now))
        (newConn (s.opened fd) (newClient fd ip port now)) ctlOk) :=
      hborn.addClientToEpoll (fun _ => trivial) fun _ => hlive
    refine hadded.of_calms (Calms.refl.goto _) fun k _ _ => ?_
    show s.pc.mayHold k
    rw [hpc]
    trivial

/-- **A round of the scan that does not arm a connection**: there is none
under its descriptor, or it is closed. -/
theorem scanFd_calms (cfg : Config) (hwf : Wf s) {ctlOk : Bool}
    (harms : ¬ (Connected s fd ∧ ctlOk ∧ fd ∈ s.epollset)) :
    Calms s (scanFd cfg s fd ctlOk).1 ∧ ¬ Connected (scanFd cfg s fd ctlOk).1 fd := by
  unfold scanFd
  split
  · rename_i hnone
    have hnot : ¬ Connected s fd := by simp [Connected, hnone]
    exact ⟨.of_eq rfl rfl rfl rfl, hnot⟩
  · rename_i hnull
    have hnot : ¬ Connected s fd := by simp [Connected, hnull]
    exact ⟨.refl, hnot⟩
  · rename_i sock hsock
    have hlive : Connected s fd := connected_iff.mpr ⟨sock, hsock⟩
    obtain ⟨hkey, hneg, -⟩ := hwf.conn hsock
    unfold epollMod
    rw [if_neg fun hmod => harms ⟨hlive, hmod⟩]
    simp only [hkey]
    refine ⟨closeClient_calms _ _, fun hafter => ?_⟩
    rw [Connected, closeClient_lookup hneg] at hafter
    cases hafter

/-- **A step that takes no connection's reading away keeps it.** -/
theorem step (h : Reading s) (hwf : Wf s) (hok : Undisturbed cfg s a) (hstep : Step cfg s a s') :
    Reading s' := by
  obtain ⟨harms, hcloses⟩ := hok
  cases hstep with
  | epollWait | listen | acceptFail | flush | sysEnd =>
    exact h.of_calms (.of_eq rfl rfl rfl rfl) fun _ _ _ => trivial
  | event => exact h.of_calms ((handleEvent_calms _ _).goto _) fun _ _ _ => trivial
  | acceptConn hpc _ hopen => exact h.acceptConn hpc hopen _ _ _ _ _ _ _ _
  | @sysClose fd conntime es hpc =>
    have hevents : Calms s (s.withEvents es) := .of_eq rfl rfl rfl rfl
    refine h.of_calms_pc (hevents.trans (closeClient_calms fd conntime)) ?_
    rw [closeClient_eq]
    rfl
  | sysAdd =>
    rw [addClientEvent_eq]
    exact h.of_calms (.of_eq rfl rfl rfl rfl) fun _ _ _ => trivial
  | @register sock ctlOk hpc =>
    have hlive : ¬ Addable cfg s sock.key.fdkey ctlOk → ¬ Connected s sock.key.fdkey := by
      intro hadd
      refine hcloses _ ?_
      simp [closesOwn, hpc, hadd]
    exact (h.addClientToEpoll (by simp [hpc, Pc.mayHold]) hlive).of_calms (Calms.refl.goto _)
      fun _ _ _ => trivial
  | switchSendMap =>
    refine ⟨h.reads, fun fd _ hb => ?_⟩
    exact (List.mem_insertionSort _).mpr (AList.mem_keys.mp hb)
  | @scan fd fds del ctlOk hpc =>
    have hnot : ¬ (Connected s fd ∧ ctlOk ∧ fd ∈ s.epollset) := by
      rintro ⟨hlive, hmod⟩
      refine harms fd ?_ hlive
      simp [arms, hpc, hmod]
    obtain ⟨hcalm, hgone⟩ := scanFd_calms cfg hwf hnot
    refine h.of_calms (hcalm.goto _) fun k hk hold => ?_
    rw [hpc] at hold
    rcases List.mem_cons.mp hold with rfl | hmem
    · exact absurd hk hgone
    · exact hmem
  | scanEnd hpc =>
    exact h.of_calms_quiet ((deleteSendMsgs_calms _).goto _) (by simp [hpc, Pc.mayHold])
  | keepalive hpc | keepaliveSend hpc =>
    exact h.of_calms_quiet (Calms.refl.goto _) (by simp [hpc, Pc.mayHold])
  | sweep hpc => exact h.of_calms_quiet ((sweepFd_calms _).goto _) (by simp [hpc, Pc.mayHold])
  | sweepEnd hpc | pingEnd hpc =>
    exact h.of_calms_quiet (.of_eq rfl rfl rfl rfl) (by simp [hpc, Pc.mayHold])
  | @ping ntype types hpc =>
    obtain ⟨cur, allocs, recs, -, heq⟩ := sendMsgToServer_frame cfg s ntype keepaliveMsg
    rw [heq]
    exact h.of_calms_quiet (.of_eq rfl rfl rfl rfl) (by simp [hpc, Pc.mayHold])
  | @addMsg d =>
    obtain ⟨cur, allocs, recs, -, heq⟩ := addMsg_frame cfg s d
    rw [heq]
    exact h.of_calms_pc (.of_eq rfl rfl rfl rfl) rfl
  | @sendMsgToServer ntype m =>
    obtain ⟨cur, allocs, recs, -, heq⟩ := sendMsgToServer_frame cfg s ntype m
    rw [heq]
    exact h.of_calms_pc (.of_eq rfl rfl rfl rfl) rfl
  | createCloseConnectEvent =>
    unfold createCloseConnectEvent
    split
    · exact h
    · exact h.of_calms_pc (.of_eq rfl rfl rfl rfl) rfl
  | startNot => exact h
  | socket =>
    refine h.of_calms_pc ⟨fun _ hl => hl, fun _ _ hr => ?_, fun _ hb => hb⟩ rfl
    exact ⟨Finset.mem_insert_of_mem hr.1, hr.2⟩
  | @connectFail th ntype fd hpc =>
    have hlive : ¬ Connected s fd := by
      refine hcloses fd ?_
      simp [closesOwn, hpc]
    exact h.of_calms_pc ((close_calms hlive).trans (.of_eq rfl rfl rfl rfl)) rfl
  | @enqueueFail th sock hpc _ hfull =>
    have hlive : ¬ Connected s sock.key.fdkey := by
      refine hcloses _ ?_
      simp [closesOwn, hpc, hfull]
    have hkeys : Calms s (s.setServerSocket (-1) 0 "" 0 1 0 false) := .of_eq rfl rfl rfl rfl
    exact h.of_calms_pc ((hkeys.trans (close_calms hlive)).trans (.of_eq rfl rfl rfl rfl)) rfl
  | outQueue | start | socketFail | connectOk | publish | enqueue =>
    exact h.of_calms_pc (.of_eq rfl rfl rfl rfl) rfl

end Reading

/-! ## What is registered before `epoll_wait` -/

variable {now : ℤ}

/-- **Every connection is read at each `epoll_wait`**, and written where it
has messages, in every run that arms no connection to be written in place of
being read and takes no connection's descriptor from under it. -/
theorem readAndWritten_of_undisturbed (h : (server cfg now).Reach (Undisturbed cfg) s)
    (hpc : s.pc = .wait) : ReadAndWritten s := by
  have hreading : Reading s := by
    refine h.invariant (Reading.init now) ?_
    intro s a s' hreach hok hnext hs
    exact hs.step (Wf.reachable hreach.reachable) hok (step_of_next hnext)
  intro fd hlive
  obtain ⟨-, key, hkey⟩ := hreading.reads fd hlive
  refine ⟨⟨key, false⟩, hkey, List.mem_cons_self, fun hlst => ?_⟩
  -- behind the scan no connection has messages left
  have hmem : fd ∈ s.bak := by
    rcases hl : s.bak.lookup fd with _ | b
    · exact absurd (by simp [listAt, hl]) hlst
    · exact IntMap.mem_of_lookup hl
  have hold : s.pc.mayHold fd := hreading.quiet fd hlive hmem
  rw [hpc] at hold
  exact hold.elim

/-- **A step that arms a connection takes its reading away.** -/
theorem scanFd_not_read {ctlOk : Bool} {fds del : List ℤ} (hpc : s.pc = .scan (fd :: fds) del)
    (harms : fd ∈ arms s (.scan ctlOk)) (hlive : Connected s fd) :
    ∃ reg, (scanFd cfg s fd ctlOk).1.epollset.lookup fd = some reg ∧ .epollin ∉ reg.interest := by
  obtain ⟨sock, hsock⟩ := connected_iff.mp hlive
  have hmod : ctlOk = true ∧ fd ∈ s.epollset := by
    rw [arms, hpc] at harms
    simpa using harms
  unfold scanFd epollMod
  rw [hsock]
  simp only [if_pos hmod]
  exact ⟨_, AList.lookup_insert _, by simp [Registration.interest]⟩

/-- A client that was accepted and has no messages. -/
theorem readAndWritten_of_undisturbed_client :
    ∃ s, (server smallConfig 0).Reachable s ∧ s.pc = .wait ∧ Connected s 7 ∧ ReadAndWritten s := by
  have hrun : ∃ s, (server smallConfig 0).Reach (Undisturbed smallConfig) s ∧ s.pc = .wait ∧
      Connected s 7 :=
    Machine.exists_reach_of_exec (acceptRound 7 ++ [.flush] ++ quietEnd) (by decide)
  obtain ⟨s, hs, hpc, hlive⟩ := hrun
  exact ⟨s, hs.reachable, hpc, hlive, readAndWritten_of_undisturbed hs hpc⟩

/-- **A client with one message to be written is not read.** -/
theorem not_readAndWritten_of_reply :
    ¬ ∀ (cfg : Config) (now : ℤ) (s : Sys), (server cfg now).Reachable s → s.pc = .wait →
      ReadAndWritten s := by
  intro hall
  have hrun : ∃ s, (server smallConfig 0).Reachable s ∧ s.pc = .wait ∧ Connected s 7 ∧
      s.epollset.lookup 7 = some ⟨⟨7, 2, 2⟩, true⟩ :=
    Machine.exists_reach_of_exec
      (acceptRound 7 ++ [.addMsg (reply 7 2 [65]), .flush] ++ sendEnd) (by decide)
  obtain ⟨s, hs, hpc, hlive, hset⟩ := hrun
  obtain ⟨reg, hreg, hin, -⟩ := hall smallConfig 0 s hs hpc 7 hlive
  rw [hset, Option.some.injEq] at hreg
  subst hreg
  simp [Registration.interest] at hin

end Epoll

end EupuServer
