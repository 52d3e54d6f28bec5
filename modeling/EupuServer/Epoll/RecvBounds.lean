import EupuServer.Epoll.Wf
import EupuServer.Network.RecvMemory
/-!
# The receive buffers over a run

In every state the server reaches, `part_buf` of each connection holds a
pending tail (`PartsFit`): a connection starts without one, and only
`doRecvMessage` writes there. So a call of `doRecvMessage` on its buffers
(`doRecvMessageAt`) makes no access outside of them, gets the answers that
`recv` gives, and goes back to `epoll_wait` only once the socket is drained
or the connection is closed.
-/

namespace EupuServer

namespace Epoll

open Network Protocol

variable (cfg : Config)

/-- `doRecvMessage` on `m_recvbuffer`: the state it leaves, and the answers
of its `recv` calls. -/
def doRecvMessageAt (recvbuffer : List UInt8) (s : Sys) (key : SocketKey) (io : Io) :
    Option (Sys × List RecvResult) :=
  match s.socketmap.lookup key.fdkey with
  | some (some sock) =>
    if sock.key ≠ key then some (closeClient cfg s key.fdkey key.connectTime, [])
    else do
      let (o, answers) ← recvMessageAt cfg.host (startupBufLen cfg.sendbufsize cfg.readbufsize)
        io.now recvbuffer sock io.recvs
      let s' := received s key.fdkey sock o
      some (if o.ending = .again then s' else closeClient cfg s' key.fdkey key.connectTime, answers)
  | _ => some (closeClient cfg s key.fdkey key.connectTime, [])

/-! ## The tails of the connections -/

/-- **Every connection holds a pending tail**, wherever it is. -/
structure PartsFit (s : Sys) : Prop where
  entry : ∀ fd sock, s.socketmap.lookup fd = some (some sock) → sock.PartFits
  adding : ∀ sock, s.pc = .adding sock → sock.PartFits
  queued : ∀ sock, .addClient sock ∈ s.eventlist → sock.PartFits
  connecting : ∀ th sock, s.connecting th = .connected sock ∨ s.connecting th = .published sock →
    sock.PartFits

variable {cfg} {s s' : Sys} {a : Action}

/-- **An effect keeps the tails**: only reading writes to one. -/
theorem Effect.entry_fits (h : Effect cfg s s')
    (hs : ∀ fd sock, s.socketmap.lookup fd = some (some sock) → sock.PartFits) :
    ∀ fd sock, s'.socketmap.lookup fd = some (some sock) → sock.PartFits := by
  cases h with
  | close => exact fun k x hx => hs k x (lookup_of_closeClient hx)
  | @recv fd sock now recvs hsock hkey =>
    intro k x hx
    simp only [received, IntMap.lookup_insert_eq] at hx
    split at hx
    · injection hx with hx
      injection hx with hx
      rw [← hx]
      exact (hs fd sock hsock).recvLoop _ _ _ _ _
    · exact hs k x hx
  | @sendFail fd sock lst sends =>
    intro k x hx
    refine hs k x ?_
    have hmap := (deleteSendMsg_maps (sentFrom s fd (sendLoop sock.key sends lst)) fd).1
    have hleft := lookup_of_closeClient hx
    rwa [hmap] at hleft
  | drop =>
    intro k x hx
    rw [(deleteSendMsg_maps s _).1] at hx
    exact hs k x hx
  | @closeNull fd =>
    intro k x hx
    exact hs k x (IntMap.lookup_of_erase hx)
  | send | sendAll | dropNull | mod | endDeref => exact hs

namespace PartsFit

/-- Where no connection is touched. -/
theorem of_eq (h : PartsFit s) (hmap : s'.socketmap = s.socketmap)
    (hpc : ∀ sock, s'.pc = .adding sock → s.pc = .adding sock)
    (hevents : s'.eventlist = s.eventlist) (hconn : s'.connecting = s.connecting) :
    PartsFit s' := by
  refine ⟨?_, fun sock hsock => h.adding sock (hpc sock hsock), ?_, ?_⟩
  · rw [hmap]
    exact h.entry
  · rw [hevents]
    exact h.queued
  · rw [hconn]
    exact h.connecting

/-- A handler keeps the tails. -/
theorem effects (h : PartsFit s) (heff : Effects cfg s s') : PartsFit s' := by
  refine ⟨?_, ?_, ?_, ?_⟩
  · exact heff.invariant
      (I := fun s => ∀ fd sock, s.socketmap.lookup fd = some (some sock) → sock.PartFits)
      (fun _ _ heff hs => heff.entry_fits hs) h.entry
  · rw [heff.pc_eq]
    exact h.adding
  · rw [heff.keeps.eventlist]
    exact h.queued
  · rw [heff.keeps.connecting]
    exact h.connecting

/-- The epoll thread goes on, and adds no connection. -/
theorem goto (h : PartsFit s) {pc : Pc} (hpc : ∀ sock, pc ≠ .adding sock) :
    PartsFit (s.goto pc) := h.of_eq rfl (fun sock hsock => absurd hsock (hpc sock)) rfl rfl

/-- A thread moves to a place whose connection has its tail in order. -/
theorem atConnect (h : PartsFit s) {th : ℕ} {c : ConnectPc}
    (hmap : s'.socketmap = s.socketmap) (hpc : s'.pc = s.pc) (hevents : s'.eventlist = s.eventlist)
    (hconn : s'.connecting = Function.update s.connecting th c)
    (hc : ∀ sock, c = .connected sock ∨ c = .published sock → sock.PartFits) : PartsFit s' := by
  refine ⟨?_, ?_, ?_, ?_⟩
  · rw [hmap]
    exact h.entry
  · rw [hpc]
    exact h.adding
  · rw [hevents]
    exact h.queued
  · intro th' sock hsock
    rw [hconn, Function.update_apply] at hsock
    split at hsock
    · exact hc sock hsock
    · exact h.connecting th' sock hsock

/-- An event is taken off the queue. -/
theorem withEvents (h : PartsFit s) {es : List NetEvent} (hes : ∀ e ∈ es, e ∈ s.eventlist) :
    PartsFit (s.withEvents es) :=
  ⟨h.entry, h.adding, fun sock hsock => h.queued sock (hes _ hsock), h.connecting⟩

/-- A connection that comes up has the tail it came with. -/
theorem born (h : PartsFit s) {sock : SocketSet} (hsock : sock.PartFits) :
    PartsFit (born s sock) := by
  refine ⟨h.entry, ?_, h.queued, h.connecting⟩
  intro x hx
  injection hx with hx
  rw [← hx]
  exact hsock.of_eq rfl rfl

/-- It is added with it. -/
theorem register (h : PartsFit s) {sock : SocketSet} (hsock : sock.PartFits) (ctlOk : Bool)
    {pc : Pc}
    (hpc : ∀ x, pc ≠ .adding x) : PartsFit ((addClientToEpoll cfg s sock ctlOk).goto pc) := by
  rcases addClientToEpoll_cases cfg s sock ctlOk with ⟨-, es, heq, -⟩ | ⟨-, heq⟩
  · rw [heq]
    exact ⟨h.entry, fun x hx => absurd hx (hpc x), h.queued, h.connecting⟩
  · rw [heq]
    refine ⟨?_, fun x hx => absurd hx (hpc x), h.queued, h.connecting⟩
    intro k x hx
    simp only [Sys.goto, IntMap.lookup_insert_eq] at hx
    split at hx
    · injection hx with hx
      injection hx with hx
      exact hx ▸ hsock
    · exact h.entry k x hx

theorem init (now : ℤ) : PartsFit (Sys.init cfg now) where
  entry _ _ h := by cases h
  adding _ h := by cases h
  queued _ h := by cases h
  connecting _ _ h := by rcases h with h | h <;> cases h

/-- **A step keeps the tails.** -/
theorem step (h : PartsFit s) (hstep : Step cfg s a s') : PartsFit s' := by
  cases hstep with
  | epollWait | listen | acceptFail | sysEnd => exact h.goto (by simp)
  | flush | sweepEnd | pingEnd => exact h.of_eq rfl (by simp) rfl rfl
  | switchSendMap => exact h.of_eq rfl (by simp [Epoll.switchSendMap]) rfl rfl
  | event => exact (h.effects (handleEvent_effects s _ _)).goto (by simp)
  | @acceptConn evs fd ip port b₁ b₂ b₃ b₄ now ctlOk hpc =>
    rcases acceptConn_cases cfg s fd ip port b₁ b₂ b₃ b₄ now ctlOk with heq | ⟨-, heq⟩
    · rw [heq]
      exact h.of_eq rfl (fun _ hx => hx) rfl rfl
    · have hopen : PartsFit (s.opened fd) := h.of_eq rfl (fun _ hx => hx) rfl rfl
      have hnew : (newClient fd ip port now).PartFits := .initSocketset _ _ _ _ _
      rw [heq, hpc]
      refine (hopen.born hnew).register ?_ ctlOk ?_
      · exact hnew.of_eq rfl rfl
      · simp
  | @sysClose fd conntime es hpc hlst =>
    have hes : PartsFit (s.withEvents es) :=
      h.withEvents fun e he => by rw [hlst]; exact List.mem_cons_of_mem _ he
    exact hes.effects (Effect.close fd conntime).effects
  | @sysAdd sock es hpc hlst =>
    have hes : PartsFit (s.withEvents es) :=
      h.withEvents fun e he => by rw [hlst]; exact List.mem_cons_of_mem _ he
    have hsock : sock.PartFits := h.queued sock (by rw [hlst]; exact List.mem_cons_self)
    rw [addClientEvent_eq]
    exact (hes.born hsock).of_eq rfl (fun _ hx => hx) rfl rfl
  | @register sock ctlOk hpc => exact h.register (h.adding sock hpc) ctlOk (by simp)
  | scan => exact (h.effects (scanFd_effects s _ _)).goto (by simp)
  | @scanEnd del =>
    have hkeeps := deleteSendMsgs_keeps (s := s) del
    refine PartsFit.goto (h.of_eq (deleteSendMsgs_maps s del).1 ?_ hkeeps.eventlist
      hkeeps.connecting) (by simp)
    rw [deleteSendMsgs_pc]
    exact fun _ hx => hx
  | keepalive hpc fds pc hto =>
    rcases hto with rfl | rfl <;> exact h.goto (by simp)
  | keepaliveSend hpc pc hto =>
    rcases hto with rfl | rfl <;> exact h.goto (by simp)
  | sweep => exact (h.effects (sweepFd_effects s _)).goto (by simp)
  | @ping ntype =>
    obtain ⟨cur, allocs, recs, -, heq⟩ := sendMsgToServer_frame cfg s ntype keepaliveMsg
    rw [heq]
    exact h.of_eq rfl (by simp) rfl rfl
  | @addMsg d =>
    obtain ⟨cur, allocs, recs, -, heq⟩ := addMsg_frame cfg s d
    rw [heq]
    exact h.of_eq rfl (fun _ hx => hx) rfl rfl
  | @sendMsgToServer ntype m =>
    obtain ⟨cur, allocs, recs, -, heq⟩ := sendMsgToServer_frame cfg s ntype m
    rw [heq]
    exact h.of_eq rfl (fun _ hx => hx) rfl rfl
  | createCloseConnectEvent =>
    unfold Epoll.createCloseConnectEvent
    split
    · exact h
    · refine ⟨h.entry, h.adding, ?_, h.connecting⟩
      intro sock hsock
      rcases List.mem_append.mp hsock with hsock | hsock
      · exact h.queued sock hsock
      · simp at hsock
  | outQueue => exact h.of_eq rfl (fun _ hx => hx) rfl rfl
  | startNot => exact h
  | start | socket | socketFail | connectFail | enqueueFail =>
    refine h.atConnect rfl rfl rfl rfl ?_
    rintro sock (⟨⟨⟩⟩ | ⟨⟨⟩⟩)
  | connectOk hpc ip port =>
    refine h.atConnect rfl rfl rfl rfl ?_
    rintro sock (⟨⟨⟩⟩ | ⟨⟨⟩⟩)
    exact .of_empty List.length_replicate rfl
  | @publish th sock hpc =>
    refine h.atConnect rfl rfl rfl rfl ?_
    rintro x (⟨⟨⟩⟩ | ⟨⟨⟩⟩)
    exact h.connecting th sock (.inl hpc)
  | @enqueue th sock hpc =>
    have hqueued : PartsFit (s.withEvents (s.eventlist ++ [.addClient sock])) := by
      refine ⟨h.entry, h.adding, ?_, h.connecting⟩
      intro x hx
      rcases List.mem_append.mp hx with hx | hx
      · exact h.queued x hx
      · rw [List.mem_singleton] at hx
        injection hx with hx
        exact hx ▸ h.connecting th sock (.inr hpc)
    refine hqueued.atConnect rfl rfl rfl rfl ?_
    rintro x (⟨⟨⟩⟩ | ⟨⟨⟩⟩)

/-- **In every state reached the connections hold pending tails.** -/
theorem reachable {now : ℤ} (h : (server cfg now).Reachable s) : PartsFit s :=
  h.invariant (init now) fun _ _ _ _ _ hnext hs => hs.step (step_of_next hnext)

end PartsFit

/-! ## A call of `doRecvMessage` -/

/-- Closing takes the descriptor out of the map, where a negative one never
was. -/
theorem closeClient_unmaps {fd conntime : ℤ}
    (hpos : ∀ v, s.socketmap.lookup fd = some v → 0 ≤ fd) :
    (closeClient cfg s fd conntime).socketmap.lookup fd = none := by
  rcases hleft : (closeClient cfg s fd conntime).socketmap.lookup fd with _ | v
  · rfl
  · rw [closeClient_lookup (hpos v (lookup_of_closeClient hleft))] at hleft
    cases hleft

/-- **A call of `doRecvMessage` stays in its buffers and returns**: with an
`EAGAIN` in hand that `recv` gave it, or once the connection is closed. -/
theorem doRecvMessageAt_eq (hfits : PartsFit s) (hwf : Wf s)
    (hsend : cfg.sendbufsize ≤ 2 ^ 31 - 1 - 2048) (hread : cfg.readbufsize ≤ 2 ^ 31 - 1 - 2048)
    (key : SocketKey) (io : Io) {recvbuffer : List UInt8}
    (hlen : recvbuffer.length = startupBufLen cfg.sendbufsize cfg.readbufsize) :
    ∃ answers, doRecvMessageAt cfg recvbuffer s key io =
        some (doRecvMessage cfg s key io, answers) ∧
      (∃ rest, RecvGives io.recvs answers rest) ∧
      (answers.getLast? = some .eagain ∨
        (∃ s', doRecvMessage cfg s key io = closeClient cfg s' key.fdkey key.connectTime) ∧
          (doRecvMessage cfg s key io).socketmap.lookup key.fdkey = none) := by
  obtain ⟨hbuflen, hmax⟩ := startupBufLen_eq hsend hread
  have hcap : maxSendSize ≤ recvBufLen cfg.sendbufsize cfg.readbufsize := by
    have := le_recvBufLen cfg.sendbufsize cfg.readbufsize
    omega
  have hentry : ∀ v, s.socketmap.lookup key.fdkey = some v → 0 ≤ key.fdkey := by
    intro v hv
    obtain ⟨-, -, -, hfd, -⟩ := hwf.entry _ v hv
    exact hfd
  unfold doRecvMessageAt doRecvMessage
  rcases hlookup : s.socketmap.lookup key.fdkey with _ | _ | sock
  · exact ⟨[], rfl, ⟨_, .nil _⟩, .inr ⟨⟨s, rfl⟩, closeClient_unmaps fun v hv => by
      simp [hlookup] at hv⟩⟩
  · exact ⟨[], rfl, ⟨_, .nil _⟩, .inr ⟨⟨s, rfl⟩, closeClient_unmaps hentry⟩⟩
  · simp only
    by_cases hkey : sock.key ≠ key
    · rw [if_pos hkey, if_pos hkey]
      exact ⟨[], rfl, ⟨_, .nil _⟩, .inr ⟨⟨s, rfl⟩, closeClient_unmaps hentry⟩⟩
    · obtain ⟨answers, hloop, hgives, hlast⟩ := recvLoopAt_eq cfg.host io.now hcap (by omega)
        (by omega : recvbuffer.length = recvBufLen cfg.sendbufsize cfg.readbufsize)
        (hfits.entry _ sock hlookup) (Nat.lt_succ_self (scriptWeight io.recvs))
      rw [if_neg hkey, if_neg hkey, recvMessageAt, hbuflen, hloop, Option.bind_eq_bind,
        Option.bind_some]
      refine ⟨answers, rfl, ⟨_, hgives⟩, ?_⟩
      by_cases hagain : (recvMessage cfg.host cfg.recvbuflen io.now sock io.recvs).ending = .again
      · exact .inl (hlast hagain)
      · rw [if_neg hagain]
        exact .inr ⟨⟨_, rfl⟩, closeClient_unmaps fun _ _ => hentry _ hlookup⟩

/-- **Receive buffers are not overrun, and no edge is lost**: in every
state of every run the tail of each connection is shorter than the largest
frame, and a call of `doRecvMessage` that the batch may make there, whatever
`recv` answers, makes its accesses inside the buffers and returns with an
`EAGAIN` in hand, the last of the answers it got, or its connection closed. -/
theorem recvBuffers_inBounds {now : ℤ} (hsend : cfg.sendbufsize ≤ 2 ^ 31 - 1 - 2048)
    (hread : cfg.readbufsize ≤ 2 ^ 31 - 1 - 2048) (hs : (server cfg now).Reachable s) :
    (∀ fd sock, s.socketmap.lookup fd = some (some sock) →
      0 ≤ sock.partLen ∧ sock.partLen < maxSendSize) ∧
    ∀ (key : SocketKey) (io : Io) (recvbuffer : List UInt8),
      recvbuffer.length = startupBufLen cfg.sendbufsize cfg.readbufsize →
      ∃ answers, doRecvMessageAt cfg recvbuffer s key io =
          some (doRecvMessage cfg s key io, answers) ∧
        (∃ rest, RecvGives io.recvs answers rest) ∧
        (answers.getLast? = some .eagain ∨
          (∃ s', doRecvMessage cfg s key io = closeClient cfg s' key.fdkey key.connectTime) ∧
            (doRecvMessage cfg s key io).socketmap.lookup key.fdkey = none) := by
  have hfits := PartsFit.reachable hs
  refine ⟨fun fd sock hsock => ⟨Nat.zero_le _, (hfits.entry fd sock hsock).lt⟩, ?_⟩
  intro key io recvbuffer hlen
  exact doRecvMessageAt_eq hfits (Wf.reachable hs) hsend hread key io hlen

/-- A client that sent half a header. -/
theorem recvBuffers_inBounds_client :
    ∃ s, (server smallConfig 0).Reachable s ∧ (s.socketmap.lookup 7).isSome = true ∧
      ∃ answers rest, doRecvMessageAt smallConfig (List.replicate 4096 0) s ⟨7, 2, 2⟩
          { recvs := [.data [0, 8, 0, 1]] } =
        some (doRecvMessage smallConfig s ⟨7, 2, 2⟩ { recvs := [.data [0, 8, 0, 1]] }, answers) ∧
          RecvGives [.data [0, 8, 0, 1]] answers rest := by
  have hrun : ∃ s, (server smallConfig 0).Reachable s ∧ (s.socketmap.lookup 7).isSome = true :=
    Machine.exists_reach_of_exec (acceptRound 7) (by decide)
  obtain ⟨s, hs, hlive⟩ := hrun
  have hbuf : ((List.replicate 4096 (0 : UInt8)).length : ℤ) =
      startupBufLen smallConfig.sendbufsize smallConfig.readbufsize := by
    rw [List.length_replicate]
    decide
  have hsize : smallConfig.sendbufsize ≤ 2 ^ 31 - 1 - 2048 := by decide
  obtain ⟨-, hcalls⟩ := recvBuffers_inBounds hsize hsize hs
  obtain ⟨answers, heq, ⟨rest, hgives⟩, -⟩ :=
    hcalls ⟨7, 2, 2⟩ { recvs := [.data [0, 8, 0, 1]] } _ hbuf
  exact ⟨s, hs, hlive, answers, rest, heq, hgives⟩

end Epoll

end EupuServer
