import EupuServer.Epoll.Lifecycle
import EupuServer.Epoll.RecvBounds
import EupuServer.Network.Delivery
/-!
# What is made of a stream

The bytes that were taken off the stream of one connection are its frames,
and behind them the tail that its object holds (`Fed`). Only a call of
`doRecvMessage` on the connection takes any (`readsOf`); every other step
reads nothing of it (`NotRead`), and where it comes up nothing was read.
-/

namespace EupuServer

namespace Epoll

open Network Protocol

/-! ## The frames of a connection -/

/-- The frames that were received on connection `id`. -/
def framesOf (id : ℕ) (hist : List Record) : List (List UInt8) :=
  hist.filterMap fun r =>
    match r with
    | .note i (.frame bs) => if i = id then some bs else none
    | _ => none

/-- The call of `doRecvMessage` that reads connection `id`, if the step
`a` makes one: its object, and what the kernel answers. -/
def readsOf (cfg : Config) (id : ℕ) (s : Sys) (a : Action) : Option (SocketSet × Io) :=
  match a, s.pc with
  | .event io, .batch (e :: _) =>
    match s.socketmap.lookup e.key.fdkey with
    | some (some sock) =>
      if e.kind = .epollin ∧ e.key.fdkey ≠ cfg.listenfd ∧ sock.key = e.key ∧ e.key.id = id then
        some (sock, io)
      else none
    | _ => none
  | _, _ => none

/-- The bytes the step takes off the stream of connection `id`. -/
def takenBy (cfg : Config) (id : ℕ) (s : Sys) (a : Action) : List UInt8 :=
  match readsOf cfg id s a with
  | none => []
  | some (sock, io) =>
    takenOf io.recvs (recvMessage cfg.host cfg.recvbuflen io.now sock io.recvs).rest

variable {cfg : Config} {s s' s'' : Sys} {a : Action} {id : ℕ}

/-! ## Connections that were not read yet -/

/-- **A connection that is on its way into the map was not read yet.** -/
structure Unread (s : Sys) : Prop where
  adding : ∀ sock, s.pc = .adding sock → sock.partLen = 0
  queued : ∀ sock, .addClient sock ∈ s.eventlist → sock.partLen = 0
  connecting : ∀ th sock, s.connecting th = .connected sock ∨ s.connecting th = .published sock →
    sock.partLen = 0

namespace Unread

theorem of_eq (h : Unread s) (hpc : ∀ sock, s'.pc = .adding sock → s.pc = .adding sock)
    (hevents : s'.eventlist = s.eventlist) (hconn : s'.connecting = s.connecting) : Unread s' :=
  ⟨fun sock hsock => h.adding sock (hpc sock hsock), hevents ▸ h.queued, hconn ▸ h.connecting⟩

/-- A handler leaves them alone, and the epoll thread goes on. -/
theorem handled (h : Unread s) (hkeeps : Keeps s s') {pc : Pc}
    (hpc : ∀ sock, pc ≠ .adding sock) : Unread (s'.goto pc) :=
  h.of_eq (fun sock hsock => absurd hsock (hpc sock)) hkeeps.eventlist hkeeps.connecting

/-- A connecting thread goes on. -/
theorem atConnect (h : Unread s) {th : ℕ} {c : ConnectPc} (hpc : s'.pc = s.pc)
    (hevents : ∀ sock, .addClient sock ∈ s'.eventlist → sock.partLen = 0)
    (hconn : s'.connecting = Function.update s.connecting th c)
    (hc : ∀ sock, c = .connected sock ∨ c = .published sock → sock.partLen = 0) : Unread s' := by
  refine ⟨?_, hevents, fun th' sock hsock => ?_⟩
  · rw [hpc]
    exact h.adding
  · rw [hconn, Function.update_apply] at hsock
    split at hsock
    · exact hc sock hsock
    · exact h.connecting th' sock hsock

theorem init (now : ℤ) : Unread (Sys.init cfg now) where
  adding _ h := by cases h
  queued _ h := by cases h
  connecting _ _ h := by rcases h with h | h <;> cases h

/-- A step reads nothing of them. -/
theorem step (h : Unread s) (hstep : Step cfg s a s') : Unread s' := by
  cases hstep with
  | epollWait | listen | acceptFail | flush | sysEnd | switchSendMap | sweepEnd | pingEnd =>
    exact h.of_eq nofun rfl rfl
  | event => exact h.handled (handleEvent_effects s _ _).keeps (by simp)
  | @acceptConn evs k ip port b₁ b₂ b₃ b₄ now ctlOk hpc =>
    rcases acceptConn_cases cfg s k ip port b₁ b₂ b₃ b₄ now ctlOk with heq | ⟨-, heq⟩
    · rw [heq]
      exact h.of_eq (fun _ hx => hx) rfl rfl
    · rw [heq, hpc]
      rcases addClientToEpoll_cases cfg (born (s.opened k) (newClient k ip port now))
        (newConn (s.opened k) (newClient k ip port now)) ctlOk with ⟨-, es, heq', -⟩ | ⟨-, heq'⟩ <;>
        rw [heq'] <;> exact h.of_eq nofun rfl rfl
  | @sysClose k conntime es hpc hlst =>
    rw [closeClient_eq]
    refine ⟨h.adding, fun sock hsock => h.queued sock ?_, h.connecting⟩
    rw [hlst]
    exact List.mem_cons_of_mem _ hsock
  | @sysAdd sock es hpc hlst =>
    rw [addClientEvent_eq]
    refine ⟨?_, fun x hx => h.queued x ?_, h.connecting⟩
    · rintro x ⟨⟩
      exact h.queued sock (hlst ▸ List.mem_cons_self)
    · rw [hlst]
      exact List.mem_cons_of_mem _ hx
  | @register sock ctlOk hpc =>
    rcases addClientToEpoll_cases cfg s sock ctlOk with ⟨-, es, heq, -⟩ | ⟨-, heq⟩ <;> rw [heq] <;>
      exact h.of_eq nofun rfl rfl
  | scan => exact h.handled (scanFd_effects s _ _).keeps (by simp)
  | @scanEnd del => exact h.handled (deleteSendMsgs_keeps del) (by simp)
  | keepalive _ _ _ hto | keepaliveSend _ _ hto =>
    rcases hto with rfl | rfl <;> exact h.of_eq nofun rfl rfl
  | sweep => exact h.handled (sweepFd_effects s _).keeps (by simp)
  | @ping ntype =>
    obtain ⟨cur, allocs, recs, -, heq⟩ := sendMsgToServer_frame cfg s ntype keepaliveMsg
    rw [heq]
    exact h.of_eq nofun rfl rfl
  | addMsg => exact h.of_eq (fun _ hx => hx) rfl rfl
  | @sendMsgToServer ntype m =>
    obtain ⟨cur, allocs, recs, -, heq⟩ := sendMsgToServer_frame cfg s ntype m
    rw [heq]
    exact h.of_eq (fun _ hx => hx) rfl rfl
  | createCloseConnectEvent =>
    unfold Epoll.createCloseConnectEvent
    split
    · exact h
    · refine ⟨h.adding, fun sock hsock => ?_, h.connecting⟩
      rcases List.mem_append.mp hsock with hsock | hsock
      · exact h.queued sock hsock
      · simp at hsock
  | outQueue => exact h.of_eq (fun _ hx => hx) rfl rfl
  | startNot => exact h
  | start | socket | socketFail | connectFail | enqueueFail =>
    exact h.atConnect rfl h.queued rfl (by rintro x (⟨⟨⟩⟩ | ⟨⟨⟩⟩))
  | connectOk hpc ip port =>
    refine h.atConnect rfl h.queued rfl ?_
    rintro x (⟨⟨⟩⟩ | ⟨⟨⟩⟩)
    rfl
  | @publish th sock hpc =>
    refine h.atConnect rfl h.queued rfl ?_
    rintro x (⟨⟨⟩⟩ | ⟨⟨⟩⟩)
    exact h.connecting th sock (.inl hpc)
  | @enqueue th sock hpc =>
    refine h.atConnect rfl (fun x hx => ?_) rfl (by rintro x (⟨⟨⟩⟩ | ⟨⟨⟩⟩))
    rcases List.mem_append.mp hx with hx | hx
    · exact h.queued x hx
    · rw [List.mem_singleton] at hx
      injection hx with hx
      exact hx ▸ h.connecting th sock (.inr hpc)

theorem reachable {now : ℤ} (h : (server cfg now).Reachable s) : Unread s :=
  h.invariant (init now) fun _ _ _ _ _ hnext hs => hs.step (step_of_next hnext)

end Unread

/-! ## What is received -/

theorem framesOf_append (h h' : List Record) :
    framesOf id (h ++ h') = framesOf id h ++ framesOf id h' := List.filterMap_append

/-- **Nothing of connection `id` is read**: no frame of it is recorded, and an
object it has in the map was there before. -/
structure NotRead (id : ℕ) (s s' : Sys) : Prop where
  frames : framesOf id s'.hist = framesOf id s.hist
  conn : ∀ k x, s'.socketmap.lookup k = some (some x) → x.key.id = id →
    s.socketmap.lookup k = some (some x)
  known : Known s id → Known s' id

namespace NotRead

/-- By what is recorded. -/
theorem of_recs (recs : List Record) (hhist : s'.hist = s.hist ++ recs)
    (hframe : ∀ bs, .note id (.frame bs) ∉ recs)
    (hconn : ∀ k x, s'.socketmap.lookup k = some (some x) → x.key.id = id →
      s.socketmap.lookup k = some (some x)) : NotRead id s s' := by
  refine ⟨?_, hconn, ?_⟩
  · have hnil : framesOf id recs = [] := by
      refine List.filterMap_eq_nil_iff.mpr fun r hr => ?_
      split
      · rename_i i bs
        refine if_neg ?_
        rintro rfl
        exact hframe bs hr
      · rfl
    rw [hhist, framesOf_append, hnil, List.append_nil]
  · rintro ⟨k, i, l, h⟩
    exact ⟨k, i, l, hhist ▸ List.mem_append_left _ h⟩

theorem of_eq (hmap : s'.socketmap = s.socketmap) (hhist : s'.hist = s.hist) : NotRead id s s' :=
  of_recs [] (hhist.trans (List.append_nil _).symm) (by simp) fun _ _ hx _ => hmap ▸ hx

theorem refl : NotRead id s s := of_eq rfl rfl

theorem trans (h : NotRead id s s') (h' : NotRead id s' s'') : NotRead id s s'' :=
  ⟨h'.frames.trans h.frames, fun k x hx hid => h.conn k x (h'.conn k x hx hid) hid,
    fun hk => h'.known (h.known hk)⟩

theorem goto (h : NotRead id s s') (pc : Pc) : NotRead id s (s'.goto pc) :=
  ⟨h.frames, h.conn, h.known⟩

theorem closeClient (k conntime : ℤ) : NotRead id s (closeClient cfg s k conntime) :=
  of_recs (closeNotes s k) (by rw [closeClient_eq]) (by simp [closeNotes])
    fun _ _ hx _ => lookup_of_closeClient hx

theorem deleteSendMsg (k : ℤ) : NotRead id s (deleteSendMsgFromSendMap s k) := by
  rcases deleteSendMsg_cases s k with heq | heq
  · rw [heq]
    exact .refl
  · rw [heq]
    exact .of_recs _ rfl (by simp) fun _ _ hx _ => hx

theorem sentFrom (k : ℤ) (key : SocketKey) (sends : List SendResult) (lst : List NetDataPtr) :
    NotRead id s (sentFrom s k (sendLoop key sends lst)) := by
  refine .of_recs _ rfl (fun bs h => ?_) fun _ _ hx _ => hx
  rcases sendLoop_recs h with ⟨_, _, h, -⟩ | ⟨_, -, ⟨h, -⟩ | ⟨h, -⟩⟩ <;> cases h

/-- Frames of another connection are received. -/
theorem received {k : ℤ} {sock : SocketSet} (now : ℤ) (recvs : List RecvResult)
    (hid : sock.key.id ≠ id) :
    NotRead id s (received s k sock (recvMessage cfg.host cfg.recvbuflen now sock recvs)) := by
  refine .of_recs _ rfl (by simp [hid]) fun k' x hx hxid => ?_
  simp only [Epoll.received, IntMap.lookup_insert_eq] at hx
  split at hx
  · injection hx with hx
    injection hx with hx
    refine absurd hxid ?_
    have hsame : SameConn sock (recvMessage cfg.host cfg.recvbuflen now sock recvs).sock :=
      recvLoop_same _ _ _ _ _
    rw [← hx, hsame.key]
    exact hid
  · exact hx

/-- `doRecvMessage` on another connection. -/
theorem doRecvMessage (key : SocketKey) (io : Io)
    (hother : ∀ sock, s.socketmap.lookup key.fdkey = some (some sock) → sock.key = key →
      key.id ≠ id) : NotRead id s (doRecvMessage cfg s key io) := by
  unfold Epoll.doRecvMessage
  split
  · rename_i sock hsock
    split
    · exact .closeClient _ _
    · rename_i hkey
      rw [not_not] at hkey
      have hrecv : NotRead id s (Epoll.received s key.fdkey sock
          (recvMessage cfg.host cfg.recvbuflen io.now sock io.recvs)) :=
        .received io.now io.recvs (by rw [hkey]; exact hother sock hsock hkey)
      simp only
      split
      · exact hrecv
      · exact hrecv.trans (.closeClient _ _)
  · exact .closeClient _ _

/-- `doSendMessage` reads nothing. -/
theorem doSendMessage (key : SocketKey) (sends : List SendResult) :
    NotRead id s (doSendMessage s key sends).2 := by
  unfold Epoll.doSendMessage
  split
  · split
    · exact .refl
    · exact .of_eq rfl rfl
    · rename_i lst hlst
      have hsent : NotRead id s (Epoll.sentFrom s key.fdkey (sendLoop ‹SocketSet›.key sends lst)) :=
        .sentFrom _ _ _ _
      simp only
      split
      · exact hsent.trans (.deleteSendMsg _)
      · split
        · exact hsent.trans (.of_eq rfl rfl)
        · exact hsent
  · exact .deleteSendMsg _

/-- An event that is no call of `doRecvMessage` on connection `id`. -/
theorem handleEvent (e : EpollEvent) (io : Io)
    (hother : e.kind = .epollin → ∀ sock, s.socketmap.lookup e.key.fdkey = some (some sock) →
      sock.key = e.key → e.key.id ≠ id) : NotRead id s (handleEvent cfg s e io) := by
  unfold Epoll.handleEvent
  split
  · exact .doRecvMessage e.key io (hother ‹_›)
  · have hsend : NotRead id s (Epoll.doSendMessage s e.key io.sends).2 := .doSendMessage _ _
    simp only
    split
    · exact hsend.trans (.closeClient _ _)
    · split
      · rename_i s' hmod
        obtain ⟨-, rfl⟩ := epollMod_eq_some hmod
        exact hsend.trans (.of_eq rfl rfl)
      · exact hsend.trans (.closeClient _ _)
  · exact .closeClient _ _

/-- A round of the scan. -/
theorem scanFd (k : ℤ) (ctlOk : Bool) : NotRead id s (scanFd cfg s k ctlOk).1 := by
  unfold Epoll.scanFd
  split
  · exact .of_recs _ rfl (by simp) fun _ _ hx _ => hx
  · exact .refl
  · split
    · rename_i s' hmod
      obtain ⟨-, rfl⟩ := epollMod_eq_some hmod
      exact .of_eq rfl rfl
    · rename_i sock _ _ _
      exact .closeClient _ sock.key.connectTime

/-- A round of the sweep. -/
theorem sweepFd (k : ℤ) : NotRead id s (sweepFd cfg s k) := by
  unfold Epoll.sweepFd Epoll.sweepFdCalls
  split
  · exact .refl
  · exact ⟨rfl, fun k' x hx _ => IntMap.lookup_of_erase hx, fun hk => hk⟩
  · exact .closeClient _ _

theorem deleteSendMsgs (del : List ℤ) : NotRead id s (del.foldl deleteSendMsgFromSendMap s) :=
  deleteSendMsgs_invariant (I := NotRead id s) del
    (fun _ k _ hs => hs.trans (.deleteSendMsg k)) .refl

/-- Messages are accepted. -/
theorem accepts {cur : SendMap NetDataPtr} {allocs : ℕ} {recs : List Record}
    (hrecs : ∀ r ∈ recs, r.IsAccept) :
    NotRead id s { s with cur := cur, allocs := allocs, hist := s.hist ++ recs } :=
  .of_recs recs rfl (fun _ h => hrecs _ h) fun _ _ hx _ => hx

end NotRead

/-- **What the receiver has made of the stream** of connection `id`, of which
`taken` was taken: frames, and the tail the connection holds. -/
structure Fed (id : ℕ) (taken : List UInt8) (s : Sys) : Prop where
  whole : ∀ f ∈ framesOf id s.hist, netFraming.verdict f = .frame f.length
  front : (framesOf id s.hist).flatten <+: taken
  conn : ∀ k x, s.socketmap.lookup k = some (some x) → x.key.id = id →
    (framesOf id s.hist).flatten ++ x.tail = taken
  adding : ∀ sock, s.pc = .adding sock → sock.key.id = id → framesOf id s.hist = [] ∧ taken = []
  unborn : ¬ Known s id → framesOf id s.hist = [] ∧ taken = []

namespace Fed

variable {taken : List UInt8}

/-- Where nothing of it is read. -/
theorem notRead (h : Fed id taken s) (hnot : NotRead id s s')
    (hpc : ∀ sock, s'.pc = .adding sock → s.pc = .adding sock) : Fed id taken s' := by
  refine ⟨?_, ?_, fun k x hx hid => ?_, fun sock hsock hid => ?_, fun hunborn => ?_⟩ <;>
    rw [hnot.frames]
  · exact h.whole
  · exact h.front
  · exact h.conn k x (hnot.conn k x hx hid) hid
  · exact h.adding sock (hpc sock hsock) hid
  · exact h.unborn fun hknown => hunborn (hnot.known hknown)

/-- A handler reads nothing of it, and the epoll thread goes on. -/
theorem handled (h : Fed id taken s) (hnot : NotRead id s s') {pc : Pc}
    (hpc : ∀ sock, pc ≠ .adding sock) : Fed id taken (s'.goto pc) :=
  h.notRead (hnot.goto pc) fun sock hsock => absurd hsock (hpc sock)

/-- **A connection comes up**, and nothing was read of it. -/
theorem born (h : Fed id taken s) (hwf : Wf s) (sock : SocketSet) : Fed id taken (born s sock) := by
  have hhist : (Epoll.born s sock).hist = s.hist ++
      [.index (s.calls + 1) sock.key.fdkey (newConn s sock).key.connectTime sock.attempt,
        .note (s.calls + 1) .connected] := List.append_assoc _ _ _
  have hnot : NotRead id s (Epoll.born s sock) :=
    .of_recs _ hhist (by simp) fun _ _ hx _ => hx
  refine ⟨?_, ?_, fun k x hx hid => ?_, fun x hx hid => ?_, fun hunborn => ?_⟩ <;>
    rw [hnot.frames]
  · exact h.whole
  · exact h.front
  · exact h.conn k x hx hid
  · injection hx with hx
    -- the index it is given is a new one
    refine h.unborn fun hknown => ?_
    obtain ⟨k, i, l, hi⟩ := hknown
    have hle := (hwf.called _ _ _ _ hi).2
    have hnew : (newConn s sock).key.id = s.calls + 1 := rfl
    rw [← hid, ← hx, hnew] at hle
    omega
  · exact h.unborn fun hknown => hunborn (hnot.known hknown)

/-- **It is added** with nothing read of it. -/
theorem register (h : Fed id taken s) {sock : SocketSet} (hpc : s.pc = .adding sock)
    (hunread : sock.partLen = 0) (ctlOk : Bool) {pc : Pc} (hgo : ∀ x, pc ≠ .adding x) :
    Fed id taken ((addClientToEpoll cfg s sock ctlOk).goto pc) := by
  rcases addClientToEpoll_cases cfg s sock ctlOk with ⟨-, es, heq, -⟩ | ⟨-, heq⟩
  · rw [heq]
    exact ⟨h.whole, h.front, h.conn, fun x hx => absurd hx (hgo x), h.unborn⟩
  · rw [heq]
    refine ⟨h.whole, h.front, fun k x hx hid => ?_, fun x hx => absurd hx (hgo x), h.unborn⟩
    simp only [Sys.goto, IntMap.lookup_insert_eq] at hx
    split at hx
    · injection hx with hx
      injection hx with hx
      subst hx
      obtain ⟨hframes, htaken⟩ := h.adding sock hpc hid
      rw [SocketSet.tail, hunread, List.take_zero, List.append_nil]
      show (framesOf id s.hist).flatten = taken
      rw [hframes, htaken]
      rfl
    · exact h.conn k x hx hid

/-- The frames a call of `doRecvMessage` records. -/
theorem framesOf_received {k : ℤ} {sock : SocketSet} {o : RecvOutcome}
    {frames : List (List UInt8)} (hid : sock.key.id = id)
    (hmsgs : o.msgs = frames.map (NetData.ofSocket sock)) :
    framesOf id (received s k sock o).hist = framesOf id s.hist ++ frames := by
  rw [received, framesOf_append, hmsgs, List.map_map]
  congr 1
  rw [framesOf, List.filterMap_map]
  simp [Function.comp_def, hid]

/-- **A call of `doRecvMessage` on the connection** takes bytes off the
stream, and makes frames and a tail of them. -/
theorem read (h : Fed id taken s) (hwf : Wf s) (hfits : PartsFit s) {key : SocketKey}
    {sock : SocketSet} (hsock : s.socketmap.lookup key.fdkey = some (some sock))
    (hkey : sock.key = key) (hid : key.id = id) (io : Io)
    (hkeep : KeepsTails cfg.recvbuflen (scriptWeight io.recvs + 1) sock.tail io.recvs)
    (hpc : ∀ x, s.pc ≠ .adding x) :
    Fed id (taken ++ takenOf io.recvs
        (recvMessage cfg.host cfg.recvbuflen io.now sock io.recvs).rest)
      (doRecvMessage cfg s key io) := by
  have hcap : maxSendSize ≤ cfg.recvbuflen := by
    have := le_recvBufLen cfg.sendbufsize cfg.readbufsize
    unfold Config.recvbuflen
    omega
  obtain ⟨o, frames, ho, hmsgs, hwhole, hfront, hend⟩ := recvMessage_takes cfg.host
    io.now hcap (hfits.entry _ _ hsock) hkeep
  have hsid : sock.key.id = id := by rw [hkey, hid]
  have hknown : Known s id := by
    have hindexed := (hwf.conn hsock).2.2
    unfold Indexed at hindexed
    rw [hsid] at hindexed
    exact ⟨_, _, _, hindexed⟩
  have hsplit := h.conn _ _ hsock hsid
  have hsame : SameConn sock o.sock := ho ▸ recvLoop_same _ _ _ _ _
  -- no other entry of the map is this connection
  have honly : ∀ k x, (received s key.fdkey sock o).socketmap.lookup k = some (some x) →
      x.key.id = id → k = key.fdkey ∧ x = o.sock := by
    intro k x hx hxid
    simp only [received, IntMap.lookup_insert_eq] at hx
    split at hx
    · injection hx with hx
      injection hx with hx
      exact ⟨‹_›, hx.symm⟩
    · exact absurd (hwf.eq_of_id hx hsock (hxid.trans hsid.symm)).1 ‹_›
  have hframes := framesOf_received (s := s) (k := key.fdkey) hsid hmsgs
  have hwhole' : ∀ f ∈ framesOf id s.hist ++ frames, netFraming.verdict f = .frame f.length :=
    fun f hf => (List.mem_append.mp hf).elim (h.whole f) (hwhole f)
  have hfront' : (framesOf id s.hist ++ frames).flatten <+: taken ++ takenOf io.recvs o.rest := by
    rw [List.flatten_append, ← hsplit, List.append_assoc]
    exact (List.prefix_append_right_inj _).mpr hfront
  have hgrow : Known s id → Known (received s key.fdkey sock o) id := by
    rintro ⟨k, i, l, hi⟩
    exact ⟨k, i, l, List.mem_append_left _ hi⟩
  unfold Epoll.doRecvMessage
  rw [hsock]
  simp only
  rw [if_neg (not_not.mpr hkey), ho]
  split
  · rename_i he
    refine ⟨?_, ?_, fun k x hx hxid => ?_, fun x hx => absurd hx (hpc x), fun hunborn =>
      absurd (hgrow hknown) hunborn⟩ <;> rw [hframes]
    · exact hwhole'
    · exact hfront'
    · obtain ⟨-, rfl⟩ := honly k x hx hxid
      rw [List.flatten_append, List.append_assoc, hend he, ← List.append_assoc, hsplit]
  · -- the connection is closed, and nothing of it is left in the map
    have hclose : NotRead id (received s key.fdkey sock o)
        (closeClient cfg (received s key.fdkey sock o) key.fdkey key.connectTime) :=
      .closeClient _ _
    refine ⟨?_, ?_, fun k x hx hxid => ?_, fun x hx => absurd hx ?_, fun hunborn =>
      absurd (hclose.known (hgrow hknown)) hunborn⟩
    · rw [hclose.frames, hframes]
      exact hwhole'
    · rw [hclose.frames, hframes]
      exact hfront'
    · obtain ⟨rfl, -⟩ := honly k x (lookup_of_closeClient hx) hxid
      rw [closeClient_lookup (hwf.conn hsock).2.1] at hx
      cases hx
    · rw [closeClient_eq]
      exact hpc x

/-- **A step of the receiver.** -/
theorem step (h : Fed id taken s) (hwf : Wf s) (hfits : PartsFit s) (hunread : Unread s)
    (hkeep : ∀ x ∈ readsOf cfg id s a,
      KeepsTails cfg.recvbuflen (scriptWeight x.2.recvs + 1) x.1.tail x.2.recvs)
    (hnext : next cfg s a = some s') : Fed id (taken ++ takenBy cfg id s a) s' := by
  have hquiet : readsOf cfg id s a = none → taken ++ takenBy cfg id s a = taken := by
    intro hnone
    rw [takenBy, hnone, List.append_nil]
  cases step_of_next hnext with
  | @listen e evs io hpc =>
    have hnone : readsOf cfg id s (.event io) = none := by
      unfold readsOf
      simp only [hpc]
      split
      · -- an event of the listening descriptor is no call of `doRecvMessage`
        refine if_neg fun hall => ?_
        simp only [Epoll.next, hpc, if_neg fun hl : _ ∧ _ => hall.2.1 hl.2] at hnext
        injection hnext with hnext
        cases congrArg Sys.pc hnext
      · rfl
    rw [hquiet hnone]
    exact h.notRead (.of_eq rfl rfl) (by simp)
  | @event e evs io hpc hlisten =>
    by_cases hread : e.kind = .epollin ∧ ∃ sock, s.socketmap.lookup e.key.fdkey = some (some sock) ∧
        sock.key = e.key ∧ e.key.id = id
    · obtain ⟨hkind, sock, hsock, hkey, hid⟩ := hread
      have hreads : readsOf cfg id s (.event io) = some (sock, io) := by
        unfold readsOf
        simp only [hpc, hsock]
        exact if_pos ⟨hkind, fun hfd => hlisten ⟨hkind, hfd⟩, hkey, hid⟩
      have hfed : Fed id _ (doRecvMessage cfg s e.key io) :=
        h.read hwf hfits hsock hkey hid io (hkeep _ hreads) (by simp [hpc])
      rw [takenBy, hreads]
      unfold handleEvent
      rw [hkind]
      exact ⟨hfed.whole, hfed.front, hfed.conn, by simp, hfed.unborn⟩
    · have hnone : readsOf cfg id s (.event io) = none := by
        unfold readsOf
        simp only [hpc]
        split
        · rename_i sock hsock
          exact if_neg fun hall => hread ⟨hall.1, sock, hsock, hall.2.2⟩
        · rfl
      rw [hquiet hnone]
      refine h.handled (.handleEvent e io fun hkind sock hsock hkey hid => ?_) (by simp)
      exact hread ⟨hkind, sock, hsock, hkey, hid⟩
  | epollWait | acceptFail | flush | sysEnd | switchSendMap | sweepEnd | pingEnd =>
    rw [hquiet rfl]
    exact h.notRead (.of_eq rfl rfl) (by simp [Epoll.switchSendMap])
  | @acceptConn evs k ip port b₁ b₂ b₃ b₄ now ctlOk hpc =>
    rw [hquiet rfl]
    rcases acceptConn_cases cfg s k ip port b₁ b₂ b₃ b₄ now ctlOk with heq | ⟨-, heq⟩
    · rw [heq]
      exact h.notRead (.of_eq rfl rfl) fun _ hx => hx
    · rw [heq]
      have hopen : Fed id taken (s.opened k) := h.notRead (.of_eq rfl rfl) fun _ hx => hx
      have hborn := hopen.born (hwf.of_eq rfl rfl rfl rfl fun _ hx => hx) (newClient k ip port now)
      exact hborn.register rfl rfl ctlOk (by simp [hpc])
  | @sysClose k conntime es hpc hlst =>
    rw [hquiet rfl]
    have hes : Fed id taken (s.withEvents es) := h.notRead (.of_eq rfl rfl) fun _ hx => hx
    refine hes.notRead (.closeClient k conntime) ?_
    rw [closeClient_eq]
    exact fun _ hx => hx
  | @sysAdd sock es hpc hlst =>
    rw [hquiet rfl, addClientEvent_eq]
    have hes : Fed id taken (s.withEvents es) := h.notRead (.of_eq rfl rfl) fun _ hx => hx
    have hborn := hes.born (hwf.of_eq rfl rfl rfl rfl fun _ hx => hx) sock
    exact hborn.notRead (.of_eq rfl rfl) fun _ hx => hx
  | @register sock ctlOk hpc =>
    rw [hquiet rfl]
    exact h.register hpc (hunread.adding sock hpc) ctlOk (by simp)
  | scan =>
    rw [hquiet rfl]
    exact h.handled (.scanFd _ _) (by simp)
  | scanEnd =>
    rw [hquiet rfl]
    exact h.handled (.deleteSendMsgs _) (by simp)
  | keepalive _ _ _ hto | keepaliveSend _ _ hto =>
    rw [hquiet rfl]
    rcases hto with rfl | rfl <;> exact h.notRead (.of_eq rfl rfl) (by simp)
  | sweep =>
    rw [hquiet rfl]
    exact h.handled (.sweepFd _) (by simp)
  | @ping ntype =>
    rw [hquiet rfl]
    obtain ⟨cur, allocs, recs, hrecs, heq⟩ := sendMsgToServer_frame cfg s ntype keepaliveMsg
    rw [heq]
    exact h.handled (.accepts hrecs) (by simp)
  | @addMsg d =>
    rw [hquiet rfl]
    obtain ⟨cur, allocs, recs, hrecs, heq⟩ := addMsg_frame cfg s d
    rw [heq]
    exact h.notRead (.accepts hrecs) fun _ hx => hx
  | @sendMsgToServer ntype m =>
    rw [hquiet rfl]
    obtain ⟨cur, allocs, recs, hrecs, heq⟩ := sendMsgToServer_frame cfg s ntype m
    rw [heq]
    exact h.notRead (.accepts hrecs) fun _ hx => hx
  | createCloseConnectEvent =>
    rw [hquiet rfl]
    unfold Epoll.createCloseConnectEvent
    split
    · exact h
    · exact h.notRead (.of_eq rfl rfl) fun _ hx => hx
  | outQueue | start | startNot | socket | socketFail | connectFail | connectOk | publish | enqueue
  | enqueueFail =>
    rw [hquiet rfl]
    exact h.notRead (.of_eq rfl rfl) fun _ hx => hx

end Fed

end Epoll

end EupuServer
