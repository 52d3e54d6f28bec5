import EupuServer.Epoll.Wf
/-!
# Registered keys

What epoll gives back is a pointer, so the key it points to has to be alive.
It is, as long as whoever closes a descriptor owns it: a handler touches its
own descriptor alone (`Touches`), and takes it out of epoll with the key.
But `closeClient` takes any descriptor a late request names, and that of a
connecting thread may then be closed under it, used for a client, and closed
again by the thread. If that happens while an event of the client waits in
the batch, and `accept` in the same batch returns the descriptor once more,
the client's key is freed before its event is handled
(`registered_not_reused`).
-/

namespace EupuServer

namespace Epoll

open Network Protocol

/-- The key is that of the connection in the map under `fd`. -/
def LiveKey (s : Sys) (fd : ℤ) (key : SocketKey) : Prop :=
  ((s.socketmap.lookup fd).join.map (·.key)) = some key ∧ key.fdkey = fd

instance (s : Sys) (fd : ℤ) (key : SocketKey) : Decidable (LiveKey s fd key) :=
  inferInstanceAs (Decidable (_ ∧ _))

/-- The events of the batch that are not yet handled. -/
def Pc.unhandled : Pc → List EpollEvent
  | .batch evs => evs
  | .accept evs => evs
  | _ => []

/-- **Registered keys are alive.** -/
structure Registered (cfg : Config) (s : Sys) : Prop where
  /-- what is registered is the listening key, or that of a connection -/
  live : ∀ fd reg, s.epollset.lookup fd = some reg →
    fd = cfg.listenfd ∧ reg.key = cfg.listenkey ∨ LiveKey s fd reg.key
  /-- the map holds no more than it may -/
  room : s.socketmap.keys.length ≤ cfg.maxepollsize
  /-- a descriptor has one event -/
  nodup : (s.pc.unhandled.map fun e => e.key.fdkey).Nodup
  /-- the events still to be handled have keys that are alive -/
  events : ∀ e ∈ s.pc.unhandled, e.key = cfg.listenkey ∨ LiveKey s e.key.fdkey e.key

variable {cfg : Config} {s s' s'' : Sys} {a : Action} {fd : ℤ} {key : Option SocketKey}

theorem liveKey_iff {key : SocketKey} :
    LiveKey s fd key ↔
      ∃ sock, s.socketmap.lookup fd = some (some sock) ∧ sock.key = key ∧ key.fdkey = fd := by
  unfold LiveKey
  constructor
  · rintro ⟨hkey, hfd⟩
    rcases hl : s.socketmap.lookup fd with _ | _ | sock
    · simp [hl] at hkey
    · simp [hl] at hkey
    · refine ⟨sock, rfl, ?_, hfd⟩
      simpa [hl] using hkey
  · rintro ⟨sock, hl, hkey, hfd⟩
    exact ⟨by rw [hl]; exact congrArg some hkey, hfd⟩

/-! ## What a handler touches -/

/-- **A handler touches only descriptor `fd`**: the others keep their
connection and their registration, and `fd` loses both, or keeps its
connection and is registered with what it was, or with `key`. -/
structure Touches (fd : ℤ) (key : Option SocketKey) (s s' : Sys) : Prop where
  other : ∀ k, k ≠ fd → s'.socketmap.lookup k = s.socketmap.lookup k ∧
    s'.epollset.lookup k = s.epollset.lookup k
  own : s'.epollset.lookup fd = none ∨
    (∀ key', LiveKey s fd key' → LiveKey s' fd key') ∧
      ∃ reg, s.epollset.lookup fd = some reg ∧
        ∀ reg', s'.epollset.lookup fd = some reg' → reg'.key = reg.key ∨ reg'.key ∈ key
  keys : s'.socketmap.keys.length ≤ s.socketmap.keys.length

namespace Touches

/-- Nothing is touched. -/
theorem of_eq (hmap : s'.socketmap = s.socketmap) (hset : s'.epollset = s.epollset) :
    Touches fd key s s' := by
  refine ⟨fun k _ => by rw [hmap, hset]; exact ⟨rfl, rfl⟩, ?_, by rw [hmap]⟩
  rw [hset]
  rcases hl : s.epollset.lookup fd with _ | reg
  · exact .inl rfl
  · refine .inr ⟨?_, reg, rfl, ?_⟩
    · intro key' hlive
      unfold LiveKey at hlive ⊢
      rw [hmap]
      exact hlive
    · intro reg' hreg
      injection hreg with hreg
      exact .inl (congrArg _ hreg.symm)

theorem trans (h : Touches fd key s s') (h' : Touches fd key s' s'') : Touches fd key s s'' := by
  refine ⟨?_, ?_, h'.keys.trans h.keys⟩
  · intro k hk
    exact ⟨(h'.other k hk).1.trans (h.other k hk).1, (h'.other k hk).2.trans (h.other k hk).2⟩
  · rcases h'.own with hnone | ⟨hlive', reg', hreg', hown'⟩
    · exact .inl hnone
    · rcases h.own with hnone | ⟨hlive, reg, hreg, hown⟩
      · rw [hnone] at hreg'
        cases hreg'
      · refine .inr ⟨fun key' hkey => hlive' key' (hlive key' hkey), reg, hreg, ?_⟩
        intro reg'' hreg''
        rcases hown' reg'' hreg'' with heq | heq
        · rw [heq]
          exact hown reg' hreg'
        · exact .inr heq

/-- The epoll thread goes on. -/
theorem goto (h : Touches fd key s s') (pc : Pc) : Touches fd key s (s'.goto pc) :=
  ⟨h.other, h.own, h.keys⟩

end Touches

/-- Closing touches the descriptor that is closed. -/
theorem closeClient_touches (fd conntime : ℤ) :
    Touches fd key s (closeClient cfg s fd conntime) := by
  by_cases hfd : fd < 0
  · rw [closeClient, closeClientCalls, if_pos hfd]
    exact .of_eq rfl rfl
  · rw [closeClient_eq]
    simp only [if_neg hfd]
    refine ⟨?_, .inl (AList.lookup_erase fd _), IntMap.keys_length_erase_le _ _⟩
    intro k hk
    exact ⟨AList.lookup_erase_ne hk, AList.lookup_erase_ne hk⟩

/-- Reading touches the descriptor that is read. -/
theorem received_touches {sock : SocketSet} (hsock : s.socketmap.lookup fd = some (some sock))
    (now : ℤ) (recvs : List RecvResult) :
    Touches fd key s (received s fd sock (recvMessage cfg.host cfg.recvbuflen now sock recvs)) := by
  refine ⟨?_, ?_, ?_⟩
  · intro k hk
    exact ⟨AList.lookup_insert_ne hk, rfl⟩
  · rcases hl : s.epollset.lookup fd with _ | reg
    · exact .inl hl
    · refine .inr ⟨?_, reg, rfl, ?_⟩
      · intro key' hlive
        obtain ⟨x, hx, hkey, hfd⟩ := liveKey_iff.mp hlive
        obtain rfl : sock = x := IntMap.eq_of_lookup hsock hx
        refine liveKey_iff.mpr ⟨_, AList.lookup_insert _, ?_, hfd⟩
        rw [← hkey]
        exact (recvLoop_same _ _ _ _ _).key
      · intro reg' hreg
        change s.epollset.lookup fd = some reg' at hreg
        rw [hl] at hreg
        injection hreg with hreg
        exact .inl (congrArg _ hreg.symm)
  · exact (IntMap.keys_length_insert_of_mem _ _ (IntMap.mem_of_lookup hsock)).le

/-- A descriptor that is registered is registered with another key. -/
theorem epollMod_touches {reg : Registration} {ctlOk : Bool}
    (h : epollMod s fd reg ctlOk = some s') : Touches fd (some reg.key) s s' := by
  obtain ⟨hfd, rfl⟩ := epollMod_eq_some h
  refine ⟨fun k hk => ⟨rfl, AList.lookup_insert_ne hk⟩, .inr ⟨fun _ h => h, ?_⟩, le_refl _⟩
  obtain ⟨reg₀, hreg₀⟩ := Option.isSome_iff_exists.mp (AList.lookup_isSome.mpr hfd)
  refine ⟨reg₀, hreg₀, ?_⟩
  intro reg' hreg'
  rw [AList.lookup_insert] at hreg'
  injection hreg' with hreg'
  exact .inr (congrArg (fun r => some r.key) hreg')

/-- Sending touches neither map. -/
theorem doSendMessage_maps (key : SocketKey) (sends : List SendResult) :
    (doSendMessage s key sends).2.socketmap = s.socketmap ∧
      (doSendMessage s key sends).2.epollset = s.epollset := by
  unfold doSendMessage
  split
  · split
    · exact ⟨rfl, rfl⟩
    · exact ⟨rfl, rfl⟩
    · simp only
      split
      · exact deleteSendMsg_maps (sentFrom s _ _) _
      · split <;> exact ⟨rfl, rfl⟩
  · exact deleteSendMsg_maps s _

/-- **An event touches its own descriptor.** -/
theorem handleEvent_touches (e : EpollEvent) (io : Io) :
    Touches e.key.fdkey (some e.key) s (handleEvent cfg s e io) := by
  unfold handleEvent
  split
  · unfold doRecvMessage
    split
    · rename_i sock hsock
      split
      · exact closeClient_touches _ _
      · simp only
        split
        · exact received_touches hsock _ _
        · exact (received_touches hsock _ _).trans (closeClient_touches _ _)
    · exact closeClient_touches _ _
  · obtain ⟨hmap, hset⟩ := doSendMessage_maps (s := s) e.key io.sends
    have hsend : Touches e.key.fdkey (some e.key) s (doSendMessage s e.key io.sends).2 :=
      .of_eq hmap hset
    simp only
    split
    · exact hsend.trans (closeClient_touches _ _)
    · split
      · exact hsend.trans (epollMod_touches ‹_›)
      · exact hsend.trans (closeClient_touches _ _)
  · exact closeClient_touches _ _

variable (cfg) in
/-- A round of the scan touches the descriptor it is at, and registers it
with the key in the map. -/
theorem scanFd_touches (hwf : Wf s) (fd : ℤ) (ctlOk : Bool) :
    ∃ key : Option SocketKey, (∀ k ∈ key, LiveKey s fd k) ∧
      Touches fd key s (scanFd cfg s fd ctlOk).1 := by
  unfold scanFd
  split
  · exact ⟨none, by simp, .of_eq rfl rfl⟩
  · exact ⟨none, by simp, .of_eq rfl rfl⟩
  · rename_i sock hsock
    obtain ⟨hkey, -, -⟩ := hwf.conn hsock
    split
    · refine ⟨some sock.key, ?_, epollMod_touches ‹_›⟩
      intro k hk
      injection hk with hk
      exact hk ▸ liveKey_iff.mpr ⟨sock, hsock, rfl, hkey⟩
    · rw [hkey]
      exact ⟨none, by simp, closeClient_touches fd sock.key.connectTime⟩

/-- A round of the sweep touches the descriptor it is at. -/
theorem sweepFd_touches (fd : ℤ) : Touches fd none s (sweepFd cfg s fd) := by
  unfold sweepFd sweepFdCalls
  split
  · exact .of_eq rfl rfl
  · refine ⟨?_, .inl (AList.lookup_erase fd _), IntMap.keys_length_erase_le _ _⟩
    intro k hk
    exact ⟨AList.lookup_erase_ne hk, AList.lookup_erase_ne hk⟩
  · exact closeClient_touches _ _

/-! ## The invariant -/

/-- **The condition on a step**: a connection that is accepted and added
does not get the descriptor of an event that is still to be handled. -/
def AcceptsUnawaited (cfg : Config) (s : Sys) (a : Action) : Prop :=
  ∀ p ∈ a.accepted, p.2 = true → s.socketmap.keys.length < cfg.maxepollsize →
    ∀ e ∈ s.pc.unhandled, e.key.fdkey ≠ p.1

instance : Decidable (AcceptsUnawaited cfg s a) := inferInstanceAs (Decidable (∀ _ ∈ _, _))

namespace Registered

/-- Where the maps are touched at one descriptor that has no event left. -/
theorem of_touches (h : Registered cfg s) (htouch : Touches fd key s s')
    (hkey : ∀ k ∈ key, fd = cfg.listenfd ∧ k = cfg.listenkey ∨ LiveKey s fd k)
    (hsub : s'.pc.unhandled.Sublist s.pc.unhandled)
    (hfree : ∀ e ∈ s'.pc.unhandled, e.key.fdkey ≠ fd) : Registered cfg s' := by
  refine ⟨?_, htouch.keys.trans h.room, ?_, ?_⟩
  · intro k reg hreg
    by_cases hk : k = fd
    · subst hk
      rcases htouch.own with hnone | ⟨hlive, reg₀, hreg₀, hown⟩
      · rw [hnone] at hreg
        cases hreg
      · have hsound : k = cfg.listenfd ∧ reg.key = cfg.listenkey ∨ LiveKey s k reg.key := by
          rcases hown reg hreg with heq | hmem
          · rw [heq]
            exact h.live k reg₀ hreg₀
          · exact hkey _ hmem
        exact hsound.imp_right (hlive _)
    · obtain ⟨hmap, hset⟩ := htouch.other k hk
      rw [hset] at hreg
      unfold LiveKey
      rw [hmap]
      exact h.live k reg hreg
  · exact h.nodup.sublist (hsub.map _)
  · intro e he
    unfold LiveKey
    rw [(htouch.other _ (hfree e he)).1]
    exact h.events e (hsub.subset he)

/-- Where registrations are only lost. -/
theorem of_lost (h : Registered cfg s) (hmap : s'.socketmap = s.socketmap)
    (hset : ∀ fd reg, s'.epollset.lookup fd = some reg → s.epollset.lookup fd = some reg)
    (hsub : s'.pc.unhandled.Sublist s.pc.unhandled) : Registered cfg s' := by
  refine ⟨?_, by rw [hmap]; exact h.room, h.nodup.sublist (hsub.map _), ?_⟩
  · intro fd reg hreg
    unfold LiveKey
    rw [hmap]
    exact h.live fd reg (hset fd reg hreg)
  · intro e he
    unfold LiveKey
    rw [hmap]
    exact h.events e (hsub.subset he)

/-- Where neither map is touched. -/
theorem of_eq (h : Registered cfg s) (hmap : s'.socketmap = s.socketmap)
    (hset : s'.epollset = s.epollset) (hsub : s'.pc.unhandled.Sublist s.pc.unhandled) :
    Registered cfg s' :=
  h.of_lost hmap (fun _ _ hreg => hset ▸ hreg) hsub

/-- **A connection is added** where no event of its descriptor waits. -/
theorem addClientToEpoll (h : Registered cfg s) {sock : SocketSet} {ctlOk : Bool}
    (hfree : ctlOk = true → s.socketmap.keys.length < cfg.maxepollsize →
      ∀ e ∈ s.pc.unhandled, e.key.fdkey ≠ sock.key.fdkey) :
    Registered cfg (addClientToEpoll cfg s sock ctlOk) := by
  rcases addClientToEpoll_cases cfg s sock ctlOk with
    ⟨-, es, heq, hes⟩ | ⟨⟨hok, -, -, -, hroom⟩, heq⟩
  · rw [heq]
    refine h.of_lost rfl ?_ (List.Sublist.refl _)
    intro fd reg hreg
    change es.lookup fd = some reg at hreg
    rw [hes] at hreg
    split at hreg
    · cases hreg
    · exact hreg
  · rw [heq]
    -- the entry that is replaced, if any, is that of this descriptor alone
    have hkeep : ∀ fd key, fd ≠ sock.key.fdkey → LiveKey s fd key →
        LiveKey { s with
          epollset := s.epollset.insert sock.key.fdkey ⟨sock.key, false⟩
          socketmap := s.socketmap.insert sock.key.fdkey (some sock) } fd key := by
      intro fd key hfd hlive
      unfold LiveKey at hlive ⊢
      rw [AList.lookup_insert_ne hfd]
      exact hlive
    refine ⟨?_, ?_, h.nodup, ?_⟩
    · intro fd reg hreg
      simp only [IntMap.lookup_insert_eq] at hreg
      split at hreg
      · subst fd
        injection hreg with hreg
        subst hreg
        exact .inr (liveKey_iff.mpr ⟨sock, AList.lookup_insert _, rfl, rfl⟩)
      · exact (h.live fd reg hreg).imp_right (hkeep fd _ ‹_›)
    · have := IntMap.keys_length_insert_le s.socketmap sock.key.fdkey (some sock)
      show (s.socketmap.insert sock.key.fdkey (some sock)).keys.length ≤ cfg.maxepollsize
      omega
    · intro e he
      exact (h.events e he).imp_right (hkeep _ _ (hfree hok hroom e he))

/-- What `epoll_wait` reports is alive. -/
theorem epollWait (h : Registered cfg s) {evs : List EpollEvent} (hrep : Reported cfg s evs) :
    Registered cfg (s.goto (.batch evs)) := by
  obtain ⟨-, hnodup, hall⟩ := hrep
  refine ⟨h.live, h.room, hnodup, ?_⟩
  intro e he
  have hreported := hall e he
  unfold reported at hreported
  split at hreported
  · cases hreported
  · rename_i reg hreg
    obtain ⟨hkey, -⟩ := of_decide_eq_true hreported
    rw [← hkey] at hreg ⊢
    exact (h.live _ reg hreg).imp_left And.right

theorem init (now : ℤ) : Registered cfg (Sys.init cfg now) := by
  refine ⟨?_, Nat.zero_le _, List.nodup_nil, nofun⟩
  intro fd reg hreg
  unfold Sys.init at hreg
  simp only at hreg
  rw [IntMap.lookup_singleton_eq] at hreg
  split at hreg
  · injection hreg with hreg
    exact .inl ⟨‹_›, hreg ▸ rfl⟩
  · cases hreg

/-- An event is handled: its descriptor has no other event. -/
theorem event (h : Registered cfg s) {e : EpollEvent} {evs : List EpollEvent} {io : Io}
    (hpc : s.pc = .batch (e :: evs)) :
    Registered cfg ((handleEvent cfg s e io).goto (.batch evs)) := by
  have hevents : s.pc.unhandled = e :: evs := by rw [hpc]; rfl
  have htouch : Touches e.key.fdkey (some e.key) s ((handleEvent cfg s e io).goto (.batch evs)) :=
    (handleEvent_touches e io).goto _
  have hnodup := h.nodup
  rw [hevents, List.map_cons, List.nodup_cons] at hnodup
  refine h.of_touches htouch ?_ ?_ ?_
  · intro k hk
    injection hk with hk
    subst hk
    refine (h.events e (by rw [hevents]; exact List.mem_cons_self)).imp_left fun hkey => ?_
    exact ⟨congrArg SocketKey.fdkey hkey, hkey⟩
  · rw [hevents]
    exact List.sublist_cons_self _ _
  · intro e' he' hfd
    exact hnodup.1 (List.mem_map.mpr ⟨e', he', hfd⟩)

/-- **A step keeps the registered keys alive.** -/
theorem step (h : Registered cfg s) (hwf : Wf s) (hok : AcceptsUnawaited cfg s a)
    (hstep : Step cfg s a s') : Registered cfg s' := by
  cases hstep with
  | epollWait hpc hrep => exact h.epollWait hrep
  | event hpc => exact h.event hpc
  | listen hpc =>
    refine h.of_eq rfl rfl ?_
    rw [hpc]
    exact List.sublist_cons_self _ _
  | acceptFail hpc =>
    refine h.of_eq rfl rfl ?_
    rw [hpc]
    exact List.Sublist.refl _
  | @acceptConn evs fd ip port b₁ b₂ b₃ b₄ now ctlOk hpc =>
    -- the only step that adds a connection while events wait
    rcases acceptConn_cases cfg s fd ip port b₁ b₂ b₃ b₄ now ctlOk with heq | ⟨hall, heq⟩
    · rw [heq]
      exact h.of_lost rfl (fun _ _ hreg => IntMap.lookup_of_erase hreg) (List.Sublist.refl _)
    · rw [heq, ← addClientToEpoll_goto]
      have hborn : Registered cfg ((born (s.opened fd) (newClient fd ip port now)).goto s.pc) :=
        ⟨h.live, h.room, h.nodup, h.events⟩
      refine hborn.addClientToEpoll ?_
      rintro rfl
      obtain ⟨rfl, rfl, rfl, rfl⟩ := hall
      exact hok (fd, true) rfl rfl
  | flush | sysEnd | switchSendMap | sweepEnd | pingEnd =>
    exact h.of_eq rfl rfl (List.nil_sublist _)
  | @sysClose fd conntime es hpc =>
    have hclose : Touches fd none (s.withEvents es)
      (closeClient cfg (s.withEvents es) fd conntime) :=
      closeClient_touches fd conntime
    have htouch : Touches fd none s (closeClient cfg (s.withEvents es) fd conntime) :=
      ⟨hclose.other, hclose.own, hclose.keys⟩
    refine h.of_touches htouch (by simp) ?_ ?_ <;> rw [closeClient_eq] <;>
      simp [Sys.withEvents, hpc, Pc.unhandled]
  | sysAdd =>
    rw [addClientEvent_eq]
    exact h.of_eq rfl rfl (List.nil_sublist _)
  | @register sock ctlOk hpc =>
    have hadd : Registered cfg (Epoll.addClientToEpoll cfg s sock ctlOk) :=
      h.addClientToEpoll fun _ _ => by simp [hpc, Pc.unhandled]
    exact hadd.of_eq rfl rfl (List.nil_sublist _)
  | @scan fd fds del ctlOk hpc =>
    obtain ⟨key, hkey, htouch⟩ := scanFd_touches cfg hwf fd ctlOk
    exact h.of_touches (htouch.goto _) (fun k hk => .inr (hkey k hk)) (List.nil_sublist _)
      (by simp [Pc.unhandled])
  | @scanEnd del =>
    have hmaps := deleteSendMsgs_maps s del
    exact h.of_eq hmaps.1 hmaps.2 (List.nil_sublist _)
  | keepalive _ _ _ hto | keepaliveSend _ _ hto =>
    rcases hto with rfl | rfl <;> exact h.of_eq rfl rfl (List.nil_sublist _)
  | @sweep fd =>
    have htouch : Touches fd none s (sweepFd cfg s fd) := sweepFd_touches fd
    exact h.of_touches (htouch.goto _) (by simp) (List.nil_sublist _) (by simp [Pc.unhandled])
  | @ping ntype =>
    obtain ⟨cur, allocs, recs, -, heq⟩ := sendMsgToServer_frame cfg s ntype keepaliveMsg
    rw [heq]
    exact h.of_eq rfl rfl (List.nil_sublist _)
  | addMsg => exact h.of_eq rfl rfl (List.Sublist.refl _)
  | @sendMsgToServer ntype m =>
    obtain ⟨cur, allocs, recs, -, heq⟩ := sendMsgToServer_frame cfg s ntype m
    rw [heq]
    exact h.of_eq rfl rfl (List.Sublist.refl _)
  | createCloseConnectEvent =>
    unfold Epoll.createCloseConnectEvent
    split
    · exact h
    · exact h.of_eq rfl rfl (List.Sublist.refl _)
  | startNot => exact h
  | outQueue | start | socket | socketFail | connectOk | publish | enqueue =>
    exact h.of_eq rfl rfl (List.Sublist.refl _)
  | connectFail | enqueueFail =>
    -- `close` takes out of epoll whoever is registered under the descriptor
    exact h.of_lost rfl (fun _ _ hreg => IntMap.lookup_of_erase hreg) (List.Sublist.refl _)

end Registered

/-- **No event is handled through a freed key**, in every run in which no
connection that is accepted and added gets the descriptor of an event still
to be handled. -/
theorem registered_of_reach {now : ℤ} (h : (server cfg now).Reach (AcceptsUnawaited cfg) s) :
    Registered cfg s ∧ ∀ fd v, s.socketmap.lookup fd = some v → ∃ sock, v = some sock ∧
      sock.key.fdkey = fd := by
  have hwf : Wf s := Wf.reachable h.reachable
  refine ⟨?_, ?_⟩
  · refine h.invariant (Registered.init now) ?_
    intro s a s' hreach hok hnext hs
    exact hs.step (Wf.reachable hreach.reachable) hok (step_of_next hnext)
  · intro fd v hv
    obtain ⟨sock, rfl, hkey, -⟩ := hwf.entry fd v hv
    exact ⟨sock, rfl, hkey⟩

/-- A batch with the event of a client behind that of the listening
descriptor, once another client is accepted. -/
theorem registered_of_reach_batch :
    ∃ s, (server smallConfig 0).Reach (AcceptsUnawaited smallConfig) s ∧
      s.pc.unhandled = [⟨⟨7, 2, 2⟩, .epollin⟩] ∧ Registered smallConfig s := by
  have hrun : ∃ s, (server smallConfig 0).Reach (AcceptsUnawaited smallConfig) s ∧
      s.pc.unhandled = [⟨⟨7, 2, 2⟩, .epollin⟩] :=
    Machine.exists_reach_of_exec (acceptRound 7 ++ [.flush] ++ quietEnd ++
      [.epollWait [⟨smallConfig.listenkey, .epollin⟩, ⟨⟨7, 2, 2⟩, .epollin⟩], .event {},
        .accept (.conn 8 "" 0 true true true true 0 true)]) (by decide)
  obtain ⟨s, hs, hevents⟩ := hrun
  exact ⟨s, hs, hevents, (registered_of_reach hs).1⟩

/-- A request for a client on 7 that is closed already closes the descriptor
7 of a connecting thread, and a client is accepted on it. -/
def sharedDescriptor : List Action :=
  acceptRound 7 ++
    [.createCloseConnectEvent 7 2, .createCloseConnectEvent 7 2, .flush, .sysEvent] ++
    startConnect 7 ++ [.sysEvent] ++ quietEnd ++ acceptRound 7 ++ [.flush] ++ quietEnd

/-- **A key is freed before its event is handled**: the connecting thread
closes descriptor 7 while an event of the client on 7 waits in the batch,
and `accept` returns 7 before the event is handled. -/
theorem registered_not_reused :
    ∃ s, (server peerConfig 0).Reachable s ∧ s.pc.unhandled = [⟨⟨7, 3, 3⟩, .epollin⟩] ∧
      (⟨7, 3, 3⟩ : SocketKey) ≠ peerConfig.listenkey ∧ ¬ LiveKey s 7 ⟨7, 3, 3⟩ :=
  Machine.exists_reach_of_exec (sharedDescriptor ++
    [.epollWait [⟨peerConfig.listenkey, .epollin⟩, ⟨⟨7, 3, 3⟩, .epollin⟩], .event {},
      .connect 0 .connectFail, .accept (.conn 7 "" 0 true true true true 0 true)]) (by decide)

end Epoll

end EupuServer
