import EupuServer.Epoll.Wf
/-!
# Replies

`closeClient` leaves the messages for the connection it closes where they
are, and the next connection may get its descriptor. `doSendMessage`
compares both halves of the address with the key in the socket map before
it sends anything, and the time in it belongs to one connection, so a reply
is only ever sent to the connection it was made for (`reply_ownConnection`).
-/

namespace EupuServer

namespace Epoll

open Network Protocol

variable {cfg : Config} {s s' s'' : Sys} {a : Action} {now : ℤ}

/-- **What is sent is addressed**: the messages that were sent on the way
from `s` to `s'` carry the address of a connection of the map of `s`, and
were sent over it. -/
def SendsAddressed (s s' : Sys) : Prop :=
  ∃ recs, s'.hist = s.hist ++ recs ∧ ∀ via p bs, .sent via p bs ∈ recs →
    Addressed via.fdkey via.connectTime p ∧
      ∃ fd sock, s.socketmap.lookup fd = some (some sock) ∧ sock.key = via

namespace SendsAddressed

/-- Nothing is sent. -/
theorem of_quiet (recs : List Record) (hhist : s'.hist = s.hist ++ recs)
    (hrecs : ∀ via p bs, .sent via p bs ∉ recs) : SendsAddressed s s' :=
  ⟨recs, hhist, fun via p bs h => absurd h (hrecs via p bs)⟩

/-- Nothing is recorded. -/
theorem of_eq (hhist : s'.hist = s.hist) : SendsAddressed s s' :=
  of_quiet [] (hhist.trans (List.append_nil _).symm) (by simp)

theorem trans (h : SendsAddressed s s') (hsub : Shrinks s s') (h' : SendsAddressed s' s'') :
    SendsAddressed s s'' := by
  obtain ⟨recs, hhist, hrecs⟩ := h
  obtain ⟨recs', hhist', hrecs'⟩ := h'
  refine ⟨recs ++ recs', by rw [hhist', hhist, List.append_assoc], ?_⟩
  intro via p bs hsent
  rcases List.mem_append.mp hsent with hsent | hsent
  · exact hrecs via p bs hsent
  · obtain ⟨haddr, fd, sock', hsock', rfl⟩ := hrecs' via p bs hsent
    obtain ⟨sock, hsock, hsame⟩ := hsub.conn hsock'
    exact ⟨haddr, fd, sock, hsock, hsame.key.symm⟩

end SendsAddressed

theorem closeClient_sendsAddressed (fd conntime : ℤ) :
    SendsAddressed s (closeClient cfg s fd conntime) := by
  rw [closeClient_eq]
  exact .of_quiet _ rfl (by simp [closeNotes])

theorem deleteSendMsg_sendsAddressed (fd : ℤ) :
    SendsAddressed s (deleteSendMsgFromSendMap s fd) := by
  rcases deleteSendMsg_cases s fd with heq | heq
  · rw [heq]
    exact .of_eq rfl
  · rw [heq]
    exact .of_quiet _ rfl (by simp)

/-- The loop of `doSendMessage` sends what is addressed to its connection. -/
theorem sentFrom_sendsAddressed {fd : ℤ} {sock : SocketSet} (sends : List SendResult)
    (lst : List NetDataPtr) (hsock : s.socketmap.lookup fd = some (some sock)) :
    SendsAddressed s (sentFrom s fd (sendLoop sock.key sends lst)) := by
  refine ⟨_, rfl, ?_⟩
  intro via p bs hsent
  rcases sendLoop_recs hsent with ⟨q, bs', heq, haddr⟩ | ⟨_, -, ⟨h, -⟩ | ⟨h, -⟩⟩
  · injection heq with hvia hp
    subst hvia hp
    exact ⟨haddr, fd, sock, hsock, rfl⟩
  · cases h
  · cases h

theorem Effect.sendsAddressed (h : Effect cfg s s') : SendsAddressed s s' := by
  cases h with
  | close fd conntime => exact closeClient_sendsAddressed fd conntime
  | recv now recvs => exact .of_quiet _ rfl (by simp)
  | send sends hsock => exact sentFrom_sendsAddressed sends _ hsock
  | sendAll sends hsock =>
    obtain ⟨recs, hhist, hrecs⟩ := sentFrom_sendsAddressed sends _ hsock
    exact ⟨recs, hhist, hrecs⟩
  | sendFail sends conntime hsock =>
    refine .trans (.trans (sentFrom_sendsAddressed sends _ hsock) (sentFrom_shrinks _ _ _ _)
      (deleteSendMsg_sendsAddressed _)) ?_ (closeClient_sendsAddressed _ _)
    exact (sentFrom_shrinks _ _ _ _).trans (deleteSendMsg_shrinks _)
  | drop => exact deleteSendMsg_sendsAddressed _
  | dropNull | mod | closeNull => exact .of_eq rfl
  | endDeref => exact .of_quiet _ rfl (by simp)

theorem Effects.sendsAddressed (h : Effects cfg s s') : SendsAddressed s s' := by
  induction h with
  | refl => exact .of_eq rfl
  | tail hs heff ih => exact ih.trans (Effects.shrinks hs) heff.sendsAddressed

theorem accepts_sendsAddressed {cur : SendMap NetDataPtr} {allocs : ℕ} {recs : List Record}
    (hrecs : ∀ r ∈ recs, r.IsAccept) :
    SendsAddressed s { s with cur := cur, allocs := allocs, hist := s.hist ++ recs } :=
  .of_quiet _ rfl fun _ _ _ hr => hrecs _ hr

theorem addMsg_sendsAddressed (d : NetData) : SendsAddressed s (addMsg cfg s d).2 := by
  obtain ⟨cur, allocs, recs, hrecs, heq⟩ := addMsg_frame cfg s d
  rw [heq]
  exact accepts_sendsAddressed hrecs

theorem sendMsgToServer_sendsAddressed (ntype : ℤ) (m : ServerMsg) :
    SendsAddressed s (sendMsgToServer cfg s ntype m) := by
  obtain ⟨cur, allocs, recs, hrecs, heq⟩ := sendMsgToServer_frame cfg s ntype m
  rw [heq]
  exact accepts_sendsAddressed hrecs

theorem addClientToEpoll_sendsAddressed (sock : SocketSet) (ctlOk : Bool) :
    SendsAddressed s (addClientToEpoll cfg s sock ctlOk) := by
  rcases addClientToEpoll_cases cfg s sock ctlOk with ⟨-, es, heq, -⟩ | ⟨-, heq⟩
  · exact heq ▸ .of_eq rfl
  · exact heq ▸ .of_eq rfl

/-- **A step sends only what is addressed** to the connection it sends it
over. -/
theorem Step.sendsAddressed (h : Step cfg s a s') : SendsAddressed s s' := by
  cases h with
  | event => exact (handleEvent_effects s _ _).sendsAddressed
  | @acceptConn _ fd ip port b₁ b₂ b₃ b₄ now ctlOk =>
    rcases acceptConn_cases cfg s fd ip port b₁ b₂ b₃ b₄ now ctlOk with heq | ⟨-, heq⟩
    · exact heq ▸ .of_eq rfl
    · rw [heq]
      rcases addClientToEpoll_cases cfg (born (s.opened fd) (newClient fd ip port now))
        (newConn (s.opened fd) (newClient fd ip port now)) ctlOk
        with ⟨-, es, heq, -⟩ | ⟨-, heq⟩
      · exact heq ▸ .of_quiet _ (List.append_assoc _ _ _) (by simp)
      · exact heq ▸ .of_quiet _ (List.append_assoc _ _ _) (by simp)
  | sysClose => exact closeClient_sendsAddressed (s := s.withEvents _) _ _
  | sysAdd =>
    rw [addClientEvent_eq]
    exact .of_quiet _ (List.append_assoc _ _ _) (by simp)
  | register => exact addClientToEpoll_sendsAddressed _ _
  | scan => exact (scanFd_effects s _ _).sendsAddressed
  | @scanEnd del =>
    have hdel : Shrinks s (del.foldl deleteSendMsgFromSendMap s) ∧
        SendsAddressed s (del.foldl deleteSendMsgFromSendMap s) := by
      refine deleteSendMsgs_invariant (I := fun s₀ => Shrinks s s₀ ∧ SendsAddressed s s₀) del ?_
        ⟨.refl, .of_eq rfl⟩
      intro s₀ fd _ hs₀
      exact ⟨hs₀.1.trans (deleteSendMsg_shrinks fd),
        hs₀.2.trans hs₀.1 (deleteSendMsg_sendsAddressed fd)⟩
    exact hdel.2
  | sweep => exact (sweepFd_effects s _).sendsAddressed
  | ping => exact sendMsgToServer_sendsAddressed _ _
  | addMsg => exact addMsg_sendsAddressed _
  | sendMsgToServer => exact sendMsgToServer_sendsAddressed _ _
  | createCloseConnectEvent =>
    unfold Epoll.createCloseConnectEvent
    split <;> exact .of_eq rfl
  | epollWait | listen | acceptFail | flush | sysEnd | switchSendMap | keepalive | sweepEnd
  | keepaliveSend | pingEnd | outQueue | start | startNot | socket | socketFail | connectFail
  | connectOk | publish | enqueue | enqueueFail => exact .of_eq rfl

/-- **A reply is sent to the connection it was made for, or not at all.**
Whatever a step of a run passes to `send`, the socket map holds under its
descriptor the connection that was given its time. -/
theorem reply_ownConnection {recs : List Record} {via : SocketKey} {p : NetDataPtr}
    {bs : List UInt8} (hstep : (server cfg now).Takes s a s') (hcalls : s'.calls < 2 ^ 32 - 2)
    (hrecs : s'.hist = s.hist ++ recs) (hsent : .sent via p bs ∈ recs) :
    ∃ sock, s.socketmap.lookup p.obj.fddat = some (some sock) ∧ sock.key = via ∧
      ∀ id l, .index id p.obj.fddat p.obj.connectTime l ∈ s'.hist → sock.key.id = id := by
  obtain ⟨recs', hhist, hown⟩ := (step_of_next hstep.2).sendsAddressed
  obtain rfl : recs = recs' := List.append_cancel_left (hrecs.symm.trans hhist)
  obtain ⟨⟨hfd, ht⟩, fd, sock, hsock, rfl⟩ := hown via p bs hsent
  have hwf : Wf s := Wf.reachable hstep.1
  have hwf' : Wf s' := hwf.step (step_of_next hstep.2)
  obtain ⟨hkey, -, hindex⟩ := hwf.conn hsock
  refine ⟨sock, by rw [hfd, hkey, hsock], rfl, ?_⟩
  intro id l hid
  -- the index in the key and the index of the message are the same number
  have hold : .index sock.key.id sock.key.fdkey sock.key.connectTime sock.attempt ∈ s'.hist := by
    rw [hrecs]
    exact List.mem_append_left _ hindex
  have h₁ := (hwf'.counted hcalls).2 _ _ _ _ hold
  have h₂ := (hwf'.counted hcalls).2 _ _ _ _ hid
  omega

/-- A reply that is sent. -/
theorem reply_ownConnection_sent :
    ∃ s s' sock, (server smallConfig 0).Takes s (.event { sends := [.sent 1] }) s' ∧
      s.socketmap.lookup 7 = some (some sock) ∧ sock.key = ⟨7, 2, 2⟩ ∧
      ∀ id l, .index id 7 2 l ∈ s'.hist → sock.key.id = id := by
  let p : NetDataPtr := ⟨1, reply 7 2 [65]⟩
  have hrun : ∃ s s', (server smallConfig 0).Takes s (.event { sends := [.sent 1] }) s' ∧
      s'.calls < 2 ^ 32 - 2 ∧ s'.hist = s.hist ++ [.sent ⟨7, 2, 2⟩ p [65], .deleted .sent p] :=
    Machine.exists_takes_of_exec (acceptRound 7 ++ [.addMsg (reply 7 2 [65]), .flush] ++ sendEnd ++
      [.epollWait [⟨⟨7, 2, 2⟩, .epollout⟩]]) (by decide)
  obtain ⟨s, s', hstep, hcalls, hhist⟩ := hrun
  obtain ⟨sock, hsock, hkey, hid⟩ :=
    reply_ownConnection (p := p) hstep hcalls hhist List.mem_cons_self
  exact ⟨s, s', sock, hstep, hsock, hkey, hid⟩

end Epoll

end EupuServer
