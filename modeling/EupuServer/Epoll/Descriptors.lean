import EupuServer.Epoll.ServerRole
import Mathlib.Algebra.Order.BigOperators.Group.Finset
/-!
# Open descriptors

Who answers for a descriptor that is open: `startup`, the socket map, the
epoll thread while it adds a connection, an `ADD_CLIENT` event that is
queued, or a thread in `createServerConnect`. A descriptor goes from hand to
hand on its way into the map, and whoever lets go of it closes it
(`Accounted.reachable`), so the server leaks none and the number of them is
bounded (`openfds_card_le`).
-/

namespace EupuServer

namespace Epoll

open Network Protocol

/-! ## Who holds a descriptor -/

/-- The descriptor the epoll thread is about to add. -/
def Pc.addingFd : Pc → Option ℤ
  | .adding sock => some sock.key.fdkey
  | _ => none

/-- The descriptor an `ADD_CLIENT` event hands over. -/
def addedFd : NetEvent → Option ℤ
  | .addClient sock => some sock.key.fdkey
  | .closeClient _ _ => none

/-- **Who answers for a descriptor.** -/
inductive Owned (cfg : Config) (s : Sys) (fd : ℤ) : Prop
  | listening (h : fd = cfg.listenfd)
  | before (h : fd ∈ cfg.otherfds)
  | conn (h : fd ∈ s.socketmap)
  | adding (h : fd ∈ s.pc.addingFd)
  | queued (h : fd ∈ s.eventlist.filterMap addedFd)
  | connecting (th : ℕ) (h : fd ∈ (s.connecting th).fd)

/-- Someone answers for each descriptor that is open. -/
def Accounted (cfg : Config) (s : Sys) : Prop := ∀ fd ∈ s.openfds, Owned cfg s fd

variable {cfg : Config} {s s' s'' : Sys} {a : Action} {fd : ℤ}

/-- What a descriptor is held by, it is held by where that is left alone. -/
theorem Owned.mono (h : Owned cfg s fd) (hmap : fd ∈ s.socketmap → fd ∈ s'.socketmap)
    (hpc : fd ∈ s.pc.addingFd → fd ∈ s'.pc.addingFd)
    (hevents : s'.eventlist = s.eventlist) (hconn : s'.connecting = s.connecting) :
    Owned cfg s' fd := by
  cases h with
  | listening h => exact .listening h
  | before h => exact .before h
  | conn h => exact .conn (hmap h)
  | adding h => exact .adding (hpc h)
  | queued h => exact .queued (hevents ▸ h)
  | connecting th h => exact .connecting th (hconn ▸ h)

/-! ## What the handlers close -/

/-- **A connection that is let go of is closed**: a descriptor that is still
open is in the map if it was. -/
structure Releases (s s' : Sys) : Prop where
  openfds : s'.openfds ⊆ s.openfds
  kept : ∀ fd ∈ s'.openfds, fd ∈ s.socketmap → fd ∈ s'.socketmap

namespace Releases

theorem refl : Releases s s := ⟨subset_rfl, fun _ _ h => h⟩

/-- Neither the map nor a descriptor is touched. -/
theorem of_eq (hopen : s'.openfds = s.openfds) (hmap : s'.socketmap = s.socketmap) :
    Releases s s' := ⟨hopen.subset, fun _ _ h => hmap ▸ h⟩

theorem trans (h : Releases s s') (h' : Releases s' s'') : Releases s s'' :=
  ⟨h'.openfds.trans h.openfds, fun fd hfd hmem => h'.kept fd hfd (h.kept fd (h'.openfds hfd) hmem)⟩

theorem closeClient (fd conntime : ℤ) : Releases s (closeClient cfg s fd conntime) := by
  rw [closeClient_eq]
  by_cases hfd : fd < 0
  · simp only [hfd, if_true]
    exact .of_eq rfl rfl
  · simp only [hfd, if_false]
    refine ⟨Finset.erase_subset _ _, fun k hk hmem => ?_⟩
    -- what is taken out of the map is the descriptor that is closed
    exact AList.mem_erase.mpr ⟨Finset.ne_of_mem_erase hk, hmem⟩

theorem deleteSendMsg (fd : ℤ) : Releases s (deleteSendMsgFromSendMap s fd) := by
  rcases deleteSendMsg_cases s fd with heq | heq
  · rw [heq]
    exact .refl
  · rw [heq]
    exact .of_eq rfl rfl

end Releases

/-- **What an effect takes out of the map it closes.** -/
theorem Effect.releases (h : Effect cfg s s') : Releases s s' := by
  cases h with
  | close fd conntime => exact .closeClient fd conntime
  | @recv fd sock now recvs hsock hkey =>
    exact ⟨subset_rfl, fun k _ hmem => (AList.mem_insert _).mpr (.inr hmem)⟩
  | @sendFail fd sock lst sends conntime hsock hlst hfail =>
    have hsent : Releases s (sentFrom s fd (sendLoop sock.key sends lst)) := .of_eq rfl rfl
    exact (hsent.trans (.deleteSendMsg fd)).trans (.closeClient fd conntime)
  | drop => exact .deleteSendMsg _
  | @closeNull fd hnull =>
    refine ⟨Finset.erase_subset _ _, fun k hk hmem => ?_⟩
    exact AList.mem_erase.mpr ⟨Finset.ne_of_mem_erase hk, hmem⟩
  | send | sendAll | dropNull | mod | endDeref => exact .of_eq rfl rfl

theorem Effects.releases (h : Effects cfg s s') : Releases s s' :=
  h.invariant (I := Releases s) (fun _ _ heff hs => hs.trans heff.releases) .refl

theorem deleteSendMsgs_releases (del : List ℤ) :
    Releases s (del.foldl deleteSendMsgFromSendMap s) :=
  deleteSendMsgs_invariant (I := Releases s) del (fun _ fd _ hs => hs.trans (.deleteSendMsg fd))
    .refl

/-! ## The account -/

namespace Accounted

/-- The account where nothing but connections changes hands, and what is let
go of is closed. -/
theorem of_releases (h : Accounted cfg s) (hrel : Releases s s')
    (hpc : ∀ fd ∈ s.pc.addingFd, fd ∈ s'.pc.addingFd) (hevents : s'.eventlist = s.eventlist)
    (hconn : s'.connecting = s.connecting) : Accounted cfg s' := fun fd hfd =>
  (h fd (hrel.openfds hfd)).mono (hrel.kept fd hfd) (hpc fd) hevents hconn

/-- The account where nothing changes hands. -/
theorem of_eq (h : Accounted cfg s) (hopen : s'.openfds = s.openfds)
    (hmap : s'.socketmap = s.socketmap) (hpc : ∀ fd ∈ s.pc.addingFd, fd ∈ s'.pc.addingFd)
    (hevents : s'.eventlist = s.eventlist) (hconn : s'.connecting = s.connecting) :
    Accounted cfg s' := h.of_releases (.of_eq hopen hmap) hpc hevents hconn

/-- A handler keeps the account. -/
theorem effects (h : Accounted cfg s) (heff : Effects cfg s s') : Accounted cfg s' := by
  refine h.of_releases heff.releases ?_ heff.keeps.eventlist heff.keeps.connecting
  rw [heff.pc_eq]
  exact fun _ hfd => hfd

/-- The epoll thread goes on from a place where it adds nothing. -/
theorem goto (h : Accounted cfg s) {pc : Pc} (hnone : s.pc.addingFd = none) :
    Accounted cfg (s.goto pc) := h.of_eq rfl rfl (by simp [hnone]) rfl rfl

/-- A connecting thread goes on with the descriptor it has. -/
theorem atConnect (h : Accounted cfg s) {th : ℕ} {c : ConnectPc}
    (hopen : ∀ fd ∈ s'.openfds, fd ∈ s.openfds ∨ fd ∈ c.fd)
    (hmap : s'.socketmap = s.socketmap) (hpc : s'.pc = s.pc)
    (hevents : s.eventlist.filterMap addedFd ⊆ s'.eventlist.filterMap addedFd)
    (hconn : s'.connecting = Function.update s.connecting th c)
    (hc : ∀ fd ∈ (s.connecting th).fd, fd ∈ s'.openfds →
      fd ∈ c.fd ∨ fd ∈ s'.eventlist.filterMap addedFd) : Accounted cfg s' := by
  have hown : ∀ fd ∈ c.fd, Owned cfg s' fd := fun fd hfd =>
    .connecting th (by rw [hconn, Function.update_self]; exact hfd)
  intro fd hfd
  rcases hopen fd hfd with hold | hnew
  · cases h fd hold with
    | listening h => exact .listening h
    | before h => exact .before h
    | conn h => exact .conn (hmap ▸ h)
    | adding h => exact .adding (hpc ▸ h)
    | queued h => exact .queued (hevents h)
    | connecting th' hth' =>
      by_cases hsame : th' = th
      · subst hsame
        exact (hc fd hth' hfd).elim (hown fd) .queued
      · exact .connecting th' (by rw [hconn, Function.update_of_ne hsame]; exact hth')
  · exact hown fd hnew

/-- **A connection is added**: it is in the map, or closed. -/
theorem register (h : Accounted cfg s) {sock : SocketSet} {ctlOk : Bool} {pc : Pc}
    (hpc : ∀ fd ∈ s.pc.addingFd, fd = sock.key.fdkey) :
    Accounted cfg ((addClientToEpoll cfg s sock ctlOk).goto pc) := by
  rcases addClientToEpoll_cases cfg s sock ctlOk with ⟨-, es, heq, -⟩ | ⟨-, heq⟩
  · rw [heq]
    intro fd hfd
    obtain ⟨hne, hold⟩ := Finset.mem_erase.mp hfd
    exact (h fd hold).mono id (fun hadd => absurd (hpc fd hadd) hne) rfl rfl
  · rw [heq]
    intro fd hfd
    by_cases hsame : fd = sock.key.fdkey
    · exact .conn ((AList.mem_insert _).mpr (.inl hsame))
    · exact (h fd hfd).mono (fun hmem => (AList.mem_insert _).mpr (.inr hmem))
        (fun hadd => absurd (hpc fd hadd) hsame) rfl rfl

theorem init (now : ℤ) : Accounted cfg (Sys.init cfg now) := by
  intro fd hfd
  rcases Finset.mem_insert.mp hfd with h | h
  · exact .listening h
  · exact .before h

/-- **A step keeps the account.** -/
theorem step (h : Accounted cfg s) (hstep : Step cfg s a s') : Accounted cfg s' := by
  cases hstep with
  | epollWait hpc | listen hpc | acceptFail hpc | sysEnd hpc => exact h.goto (by rw [hpc]; rfl)
  | flush hpc | sweepEnd hpc | pingEnd hpc | switchSendMap hpc =>
    exact h.of_eq rfl rfl (by simp [hpc, Pc.addingFd]) rfl rfl
  | event hpc =>
    have heff : Effects cfg s _ := handleEvent_effects s ‹_› ‹_›
    exact (h.effects heff).goto (by rw [heff.pc_eq, hpc]; rfl)
  | @acceptConn evs fd ip port b₁ b₂ b₃ b₄ now ctlOk hpc hfd hopen =>
    rcases acceptConn_cases cfg s fd ip port b₁ b₂ b₃ b₄ now ctlOk with heq | ⟨-, heq⟩
    · rw [heq]
      intro k hk
      obtain ⟨hne, hk⟩ := Finset.mem_erase.mp hk
      exact (h k (Finset.mem_of_mem_insert_of_ne hk hne)).mono id id rfl rfl
    · rw [heq]
      have hborn : Accounted cfg (born (s.opened fd) (newClient fd ip port now)) := by
        intro k hk
        rcases Finset.mem_insert.mp hk with rfl | hk
        · exact .adding rfl
        · exact (h k hk).mono id (by simp [hpc, Pc.addingFd]) rfl rfl
      refine hborn.register ?_
      rintro k ⟨⟩
      rfl
  | @sysClose fd conntime es hpc hlst =>
    have hes : Accounted cfg (s.withEvents es) := by
      intro k hk
      cases h k hk with
      | listening h => exact .listening h
      | before h => exact .before h
      | conn h => exact .conn h
      | adding h => exact .adding h
      | queued h =>
        rw [hlst] at h
        exact .queued h
      | connecting th h => exact .connecting th h
    exact hes.effects (Effect.close fd conntime).effects
  | @sysAdd sock es hpc hlst =>
    rw [addClientEvent_eq]
    intro k hk
    cases h k hk with
    | listening h => exact .listening h
    | before h => exact .before h
    | conn h => exact .conn h
    | adding h => simp [hpc, Pc.addingFd] at h
    | queued h =>
      -- the event leaves the queue, and its descriptor is in hand
      rw [hlst] at h
      rcases List.mem_cons.mp h with h | h
      · exact .adding (congrArg some h.symm)
      · exact .queued h
    | connecting th h => exact .connecting th h
  | @register sock ctlOk hpc =>
    refine h.register ?_
    rw [hpc]
    rintro k ⟨⟩
    rfl
  | scan hpc =>
    have heff : Effects cfg s _ := scanFd_effects s ‹_› ‹_›
    exact (h.effects heff).goto (by rw [heff.pc_eq, hpc]; rfl)
  | @scanEnd del hpc =>
    have hkeeps := deleteSendMsgs_keeps (s := s) del
    refine Accounted.goto (h.of_releases (deleteSendMsgs_releases del) ?_ hkeeps.eventlist
      hkeeps.connecting) ?_ <;> rw [deleteSendMsgs_pc, hpc]
    · exact fun _ hx => hx
    · rfl
  | keepalive hpc | keepaliveSend hpc => exact h.goto (by rw [hpc]; rfl)
  | sweep hpc =>
    have heff : Effects cfg s _ := sweepFd_effects s ‹_›
    exact (h.effects heff).goto (by rw [heff.pc_eq, hpc]; rfl)
  | @ping ntype types hpc =>
    obtain ⟨cur, allocs, recs, -, heq⟩ := sendMsgToServer_frame cfg s ntype keepaliveMsg
    rw [heq]
    exact h.of_eq rfl rfl (by simp [hpc, Pc.addingFd]) rfl rfl
  | @addMsg d =>
    obtain ⟨cur, allocs, recs, -, heq⟩ := addMsg_frame cfg s d
    rw [heq]
    exact h.of_eq rfl rfl (fun _ hx => hx) rfl rfl
  | @sendMsgToServer ntype m =>
    obtain ⟨cur, allocs, recs, -, heq⟩ := sendMsgToServer_frame cfg s ntype m
    rw [heq]
    exact h.of_eq rfl rfl (fun _ hx => hx) rfl rfl
  | createCloseConnectEvent =>
    unfold Epoll.createCloseConnectEvent
    split
    · exact h
    · intro k hk
      cases h k hk with
      | listening h => exact .listening h
      | before h => exact .before h
      | conn h => exact .conn h
      | adding h => exact .adding h
      | queued h =>
        exact .queued
          (by rw [Sys.withEvents, List.filterMap_append]; exact List.mem_append_left _ h)
      | connecting th h => exact .connecting th h
  | outQueue => exact h.of_eq rfl rfl (fun _ hx => hx) rfl rfl
  | startNot => exact h
  | start hpc | socketFail hpc =>
    exact h.atConnect (fun _ hk => .inl hk) rfl rfl (fun _ hx => hx) rfl
      (by simp [hpc, ConnectPc.fd])
  | @socket th ntype fd hpc hfd hopen =>
    refine h.atConnect (fun k hk => ?_) rfl rfl (fun _ hx => hx) rfl (by simp [hpc, ConnectPc.fd])
    exact (Finset.mem_insert.mp hk).symm.imp_right fun hk => congrArg some hk.symm
  | @connectFail th ntype fd hpc =>
    refine h.atConnect (fun k hk => .inl (Finset.mem_of_mem_erase hk)) rfl rfl (fun _ hx => hx) rfl
      ?_
    rw [hpc]
    rintro k ⟨⟩ hk
    exact absurd rfl (Finset.ne_of_mem_erase hk)
  | connectOk hpc | publish hpc =>
    refine h.atConnect (fun _ hk => .inl hk) rfl rfl (fun _ hx => hx) rfl ?_
    rw [hpc]
    exact fun _ hfd _ => .inl hfd
  | @enqueue th sock hpc =>
    refine h.atConnect (fun _ hk => .inl hk) rfl rfl ?_ rfl ?_
    · intro k hk
      rw [Sys.atConnect, Sys.withEvents, List.filterMap_append]
      exact List.mem_append_left _ hk
    · -- the event is what holds it from here on
      rw [hpc]
      rintro k ⟨⟩ -
      refine .inr ?_
      rw [Sys.atConnect, Sys.withEvents, List.filterMap_append]
      exact List.mem_append_right _ List.mem_cons_self
  | @enqueueFail th sock hpc =>
    refine h.atConnect (fun k hk => .inl (Finset.mem_of_mem_erase hk)) rfl rfl (fun _ hx => hx) rfl
      ?_
    rw [hpc]
    rintro k ⟨⟩ hk
    exact absurd rfl (Finset.ne_of_mem_erase hk)

/-- **In every state reached someone answers for each open descriptor.** -/
theorem reachable {now : ℤ} (h : (server cfg now).Reachable s) : Accounted cfg s :=
  h.invariant (init now) fun _ _ _ _ _ hnext hs => hs.step (step_of_next hnext)

end Accounted

/-- **No descriptor leaks.** In every state of every run each descriptor that
is open is the listening one or one from before `startup`, or belongs to a
connection: one in the socket map, one that is being added, one whose
`ADD_CLIENT` event is queued, or one that is being made. -/
theorem openfd_owned {now : ℤ} (h : (server cfg now).Reachable s) (hfd : fd ∈ s.openfds) :
    Owned cfg s fd := Accounted.reachable h fd hfd

/-- The descriptor of a client that was accepted is held by the map. -/
theorem openfd_owned_client : ∃ s, (server smallConfig 0).Reachable s ∧ (7 : ℤ) ∈ s.openfds ∧
    Owned smallConfig s 7 := by
  have hrun : ∃ s, (server smallConfig 0).Reachable s ∧ (7 : ℤ) ∈ s.openfds :=
    Machine.exists_reach_of_exec (acceptRound 7) (by decide)
  obtain ⟨s, hs, hfd⟩ := hrun
  exact ⟨s, hs, hfd, openfd_owned hs hfd⟩

/-! ## How many there are -/

/-- No thread but those of `T` calls `createServerConnect`. -/
def ConnectsIn (T : Finset ℕ) : Action → Prop
  | .connect th _ => th ∈ T
  | _ => True

instance (T : Finset ℕ) : DecidablePred (ConnectsIn T) := fun a => by
  cases a <;> unfold ConnectsIn <;> infer_instance

/-- **What bounds the descriptors**: the map has room for so many
connections, the queue for so many events, and each thread makes one
connection at a time. -/
structure Bounded (cfg : Config) (T : Finset ℕ) (s : Sys) : Prop where
  conns : s.socketmap.keys.length ≤ cfg.maxepollsize
  events : s.eventlist.length ≤ eventQueueSize
  idle : ∀ th, th ∉ T → s.connecting th = .idle

/-- No effect makes the map larger. -/
theorem Effect.keys_length_le (h : Effect cfg s s') :
    s'.socketmap.keys.length ≤ s.socketmap.keys.length := by
  have hclose : ∀ (s₁ : Sys) (fd conntime : ℤ),
      (closeClient cfg s₁ fd conntime).socketmap.keys.length ≤ s₁.socketmap.keys.length := by
    intro s₁ fd conntime
    rw [closeClient_eq]
    simp only
    split
    · exact le_rfl
    · exact IntMap.keys_length_erase_le _ _
  cases h with
  | close fd conntime => exact hclose s fd conntime
  | recv now recvs hsock hkey =>
    exact (IntMap.keys_length_insert_of_mem _ _ (IntMap.mem_of_lookup hsock)).le
  | sendFail sends conntime hsock hlst hfail =>
    refine (hclose _ _ conntime).trans ?_
    rw [(deleteSendMsg_maps _ _).1]
    exact le_rfl
  | drop => rw [(deleteSendMsg_maps _ _).1]
  | closeNull => exact IntMap.keys_length_erase_le _ _
  | send | sendAll | dropNull | mod | endDeref => exact le_rfl

namespace Bounded

variable {T : Finset ℕ}

theorem of_eq (h : Bounded cfg T s) (hmap : s'.socketmap.keys.length ≤ s.socketmap.keys.length)
    (hevents : s'.eventlist.length ≤ s.eventlist.length)
    (hconn : s'.connecting = s.connecting) : Bounded cfg T s' :=
  ⟨hmap.trans h.conns, hevents.trans h.events, hconn ▸ h.idle⟩

/-- A handler makes nothing more. -/
theorem effects (h : Bounded cfg T s) (heff : Effects cfg s s') : Bounded cfg T s' := by
  refine h.of_eq ?_ (congrArg List.length heff.keeps.eventlist).le heff.keeps.connecting
  exact heff.invariant (I := fun s₁ => s₁.socketmap.keys.length ≤ s.socketmap.keys.length)
    (fun _ _ heff hs => heff.keys_length_le.trans hs) le_rfl

/-- A connecting thread goes on. -/
theorem atConnect (h : Bounded cfg T s) {th : ℕ} {c : ConnectPc} (hth : th ∈ T)
    (hmap : s'.socketmap = s.socketmap) (hevents : s'.eventlist.length ≤ eventQueueSize)
    (hconn : s'.connecting = Function.update s.connecting th c) : Bounded cfg T s' := by
  refine ⟨hmap ▸ h.conns, hevents, fun th' hth' => ?_⟩
  rw [hconn, Function.update_of_ne (by rintro rfl; exact hth' hth)]
  exact h.idle th' hth'

/-- The map takes a connection in where it has room. -/
theorem register (h : Bounded cfg T s) (sock : SocketSet) (ctlOk : Bool) (pc : Pc) :
    Bounded cfg T ((addClientToEpoll cfg s sock ctlOk).goto pc) := by
  rcases addClientToEpoll_cases cfg s sock ctlOk with ⟨-, es, heq, -⟩ | ⟨⟨-, -, -, -, hroom⟩, heq⟩
  · rw [heq]
    exact h.of_eq le_rfl le_rfl rfl
  · rw [heq]
    refine ⟨?_, h.events, h.idle⟩
    have hle := IntMap.keys_length_insert_le s.socketmap sock.key.fdkey (some sock)
    exact hle.trans hroom

theorem init (now : ℤ) : Bounded cfg T (Sys.init cfg now) :=
  ⟨Nat.zero_le _, Nat.zero_le _, fun _ _ => rfl⟩

/-- **A step keeps the bounds.** -/
theorem step (h : Bounded cfg T s) (hin : ConnectsIn T a) (hstep : Step cfg s a s') :
    Bounded cfg T s' := by
  cases hstep with
  | epollWait | listen | acceptFail | flush | sysEnd | switchSendMap | keepalive | sweepEnd
  | keepaliveSend | pingEnd | addMsg | outQueue => exact h.of_eq le_rfl le_rfl rfl
  | event => exact (h.effects (handleEvent_effects s _ _)).of_eq le_rfl le_rfl rfl
  | @acceptConn evs fd ip port b₁ b₂ b₃ b₄ now ctlOk hpc hfd hopen =>
    rcases acceptConn_cases cfg s fd ip port b₁ b₂ b₃ b₄ now ctlOk with heq | ⟨-, heq⟩
    · rw [heq]
      exact h.of_eq le_rfl le_rfl rfl
    · rw [heq]
      have hborn : Bounded cfg T (born (s.opened fd) (newClient fd ip port now)) :=
        h.of_eq le_rfl le_rfl rfl
      exact hborn.register _ ctlOk _
  | @sysClose fd conntime es hpc hlst =>
    have hes : Bounded cfg T (s.withEvents es) :=
      h.of_eq le_rfl (by simp [hlst, Sys.withEvents]) rfl
    exact hes.effects (Effect.close fd conntime).effects
  | @sysAdd sock es hpc hlst =>
    rw [addClientEvent_eq]
    exact h.of_eq le_rfl (by simp [hlst, born, announce, getIndex, Sys.withEvents, Sys.push,
      Sys.goto]) rfl
  | register => exact h.register _ _ _
  | scan => exact (h.effects (scanFd_effects s _ _)).of_eq le_rfl le_rfl rfl
  | @scanEnd del hpc =>
    have hkeeps := deleteSendMsgs_keeps (s := s) del
    refine h.of_eq ?_ ?_ hkeeps.connecting
    · rw [Sys.goto, (deleteSendMsgs_maps s del).1]
    · rw [Sys.goto, hkeeps.eventlist]
  | sweep => exact (h.effects (sweepFd_effects s _)).of_eq le_rfl le_rfl rfl
  | @ping ntype types hpc =>
    obtain ⟨cur, allocs, recs, -, heq⟩ := sendMsgToServer_frame cfg s ntype keepaliveMsg
    rw [heq]
    exact h.of_eq le_rfl le_rfl rfl
  | @sendMsgToServer ntype m =>
    obtain ⟨cur, allocs, recs, -, heq⟩ := sendMsgToServer_frame cfg s ntype m
    rw [heq]
    exact h.of_eq le_rfl le_rfl rfl
  | createCloseConnectEvent =>
    unfold Epoll.createCloseConnectEvent
    split
    · exact h
    · refine ⟨h.conns, ?_, h.idle⟩
      simp only [Sys.withEvents, List.length_append, List.length_singleton]
      omega
  | startNot => exact h
  | start | socket | socketFail | connectFail | connectOk | publish | enqueueFail =>
    exact h.atConnect hin rfl h.events rfl
  | @enqueue th sock hpc hlock hroom =>
    refine h.atConnect hin rfl ?_ rfl
    simp only [Sys.atConnect, Sys.withEvents, List.length_append, List.length_singleton]
    omega

/-- **In every state reached the bounds hold.** -/
theorem of_reach {now : ℤ} (h : (server cfg now).Reach (fun _ a => ConnectsIn T a) s) :
    Bounded cfg T s :=
  h.invariant (init now) fun _ _ _ _ hin hnext hs => hs.step hin (step_of_next hnext)

end Bounded

/-- The descriptors someone may answer for. -/
def ownable (cfg : Config) (T : Finset ℕ) (s : Sys) : Finset ℤ :=
  {cfg.listenfd} ∪ cfg.otherfds ∪ s.socketmap.keys.toFinset ∪ s.pc.addingFd.toFinset ∪
    (s.eventlist.filterMap addedFd).toFinset ∪ T.biUnion fun th => (s.connecting th).fd.toFinset

/-- Whoever answers for a descriptor is one of these. -/
theorem Owned.mem_ownable {T : Finset ℕ} (h : Owned cfg s fd)
    (hidle : ∀ th, th ∉ T → s.connecting th = .idle) : fd ∈ ownable cfg T s := by
  unfold ownable
  simp only [Finset.mem_union, Finset.mem_singleton, List.mem_toFinset, Option.mem_toFinset,
    Finset.mem_biUnion]
  cases h with
  | listening h => simp [h]
  | before h => simp [h]
  | conn h => simp [AList.mem_keys.symm.mpr h]
  | adding h => simp [h]
  | queued h => simp [h]
  | connecting th h =>
    refine .inr ⟨th, ?_, h⟩
    by_contra hth
    rw [hidle th hth] at h
    cases h

/-- An option has at most one element. -/
theorem card_option_le (o : Option ℤ) : o.toFinset.card ≤ 1 := by
  cases o <;> simp

/-- **How many descriptors are open.** In every run in which only the threads
of `T` call `createServerConnect`: the listening descriptor and those from
before it, a full map, the connection that is being added, a full event
queue and one for each connecting thread, at most. -/
theorem openfds_card_le {now : ℤ} {T : Finset ℕ}
    (h : (server cfg now).Reach (fun _ a => ConnectsIn T a) s) :
    s.openfds.card ≤
      1 + cfg.otherfds.card + cfg.maxepollsize + 1 + eventQueueSize + T.card := by
  obtain ⟨hconns, hevents, hidle⟩ := Bounded.of_reach h
  have hsub : s.openfds ⊆ ownable cfg T s := fun fd hfd =>
    (Accounted.reachable h.reachable fd hfd).mem_ownable hidle
  have hkeys : s.socketmap.keys.toFinset.card ≤ s.socketmap.keys.length := List.toFinset_card_le _
  have hqueue : (s.eventlist.filterMap addedFd).toFinset.card ≤ s.eventlist.length :=
    (List.toFinset_card_le _).trans (List.length_filterMap_le _ _)
  have hadding := card_option_le s.pc.addingFd
  have hthreads : (T.biUnion fun th => (s.connecting th).fd.toFinset).card ≤ T.card * 1 :=
    Finset.card_biUnion_le_card_mul _ _ _ fun th _ => card_option_le _
  calc s.openfds.card ≤ (ownable cfg T s).card := Finset.card_le_card hsub
    _ ≤ _ := by
      unfold ownable
      refine (Finset.card_union_le _ _).trans (Nat.add_le_add ?_ (by omega))
      refine (Finset.card_union_le _ _).trans (Nat.add_le_add ?_ (hqueue.trans hevents))
      refine (Finset.card_union_le _ _).trans (Nat.add_le_add ?_ hadding)
      refine (Finset.card_union_le _ _).trans (Nat.add_le_add ?_ (hkeys.trans hconns))
      refine (Finset.card_union_le _ _).trans (Nat.add_le_add ?_ le_rfl)
      simp

/-- One thread that connects, with its socket open. -/
theorem openfds_card_le_connecting :
    ∃ s, (server peerConfig 0).Reach (fun _ a => ConnectsIn {0} a) s ∧ s.openfds.card = 2 ∧
      s.openfds.card ≤ 1 + 0 + 10 + 1 + eventQueueSize + 1 := by
  have hrun : ∃ s, (server peerConfig 0).Reach (fun _ a => ConnectsIn {0} a) s ∧
      s.openfds.card = 2 := Machine.exists_reach_of_exec (startConnect 7) (by decide)
  obtain ⟨s, hs, hcard⟩ := hrun
  exact ⟨s, hs, hcard, openfds_card_le hs⟩

end Epoll

end EupuServer
