import EupuServer.Epoll.Feed
import EupuServer.Epoll.Registration
import EupuServer.Network.RecvEnding
import EupuServer.Worker.WorkThread
/-!
# Where the workers' messages come from

Three functions append to `m_recvtmplst`: `createConnectServerMsg` where a
connection comes up, `createClientCloseMsg` where one is closed, and
`parsePacketToRecvQueue` in the receive loop of one. `step_brings` says
which of them a step calls and for which connection, so a message that
waits for a worker goes back to the step of the run that appended it
(`branch_of_run`).
-/

namespace EupuServer

namespace Worker

open Bytes Protocol Network Epoll

/-! ## The three producers -/

/-- **A connection comes up** in the step: a client that is accepted, or the
connection of an `ADD_CLIENT` event. -/
inductive Announces (s : Sys) : Action → SocketSet → Prop
  | accept {evs : List EpollEvent} {fd : ℤ} {ip : String} {port : UInt16} {now : ℤ} {ctlOk : Bool}
      (hpc : s.pc = .accept evs) :
    Announces s (.accept (.conn fd ip port true true true true now ctlOk))
      (newConn (s.opened fd) (newClient fd ip port now))
  | event {sock : SocketSet} {es : List NetEvent} (hpc : s.pc = .sysEvent)
      (hlst : s.eventlist = .addClient sock :: es) :
    Announces s .sysEvent (newConn (s.withEvents es) sock)

/-- `createConnectServerMsg` builds `d` in the step `a`. -/
def BuiltByConnect (host : Host) (s : Sys) (a : Action) (d : NetData) : Prop :=
  ∃ sock buf, Announces s a sock ∧
    (mpServerConnected sock.type).out host maxSendSize = some buf ∧ d = NetData.ofSocket sock buf

/-- `createClientCloseMsg` builds `d` for a connection that the step takes
out of the map. -/
def BuiltByClose (host : Host) (s s' : Sys) (d : NetData) : Prop :=
  ∃ fd sock buf, s.socketmap.lookup fd = some (some sock) ∧ s'.socketmap.lookup fd = none ∧
    (mpServerDisConnected sock.type).out host maxSendSize = some buf ∧ d = NetData.ofSocket sock buf

/-- What a round of the receive loop parses: the tail that `y` kept, and
behind it what `recv_msg` reads. -/
def recvBuffer (cap : ℕ) (y : SocketSet) (left : List RecvResult) : List UInt8 :=
  y.partBuf.take y.partLen ++ (recvMsg left (cap - y.partLen)).bytes

/-- `parsePacketToRecvQueue` cuts `d` from `buf` in a round of the receive
loop: the step reads the connection `sock`, and the loop has come to `y`. -/
def CutByParse (cfg : Config) (s : Sys) (a : Action) (buf : List UInt8) (d : NetData) : Prop :=
  ∃ id sock io y left, readsOf cfg id s a = some (sock, io) ∧
    RecvRounds cfg.host cfg.recvbuflen io.now sock io.recvs y left ∧
    buf = recvBuffer cfg.recvbuflen y left ∧
    d ∈ (parsePacketToRecvQueue cfg.host
      { y with refreshTime := io.now, partLen := 0 } buf).msgs

/-- **How a step gets `d` into `m_recvtmplst`.** -/
def BuiltBy (cfg : Config) (s : Sys) (a : Action) (s' : Sys) (d : NetData) : Prop :=
  BuiltByConnect cfg.host s a d ∨ BuiltByClose cfg.host s s' d ∨ ∃ buf, CutByParse cfg s a buf d

/-- **What is appended** on the way from `s` to `s'`, all of it built as `B`
says, and the receive queue is left alone. -/
structure Appends (B : NetData → Prop) (s s' : Sys) : Prop where
  recvlist : s'.recvlist = s.recvlist
  recvtmplst : ∃ ds, s'.recvtmplst = s.recvtmplst ++ ds ∧ ∀ d ∈ ds, B d

/-- The step appends `d`, and builds it in one of the three ways. -/
def Brings (cfg : Config) (d : NetData) (s : Sys) (a : Action) (s' : Sys) : Prop :=
  ∃ ds, s'.recvtmplst = s.recvtmplst ++ ds ∧ d ∈ ds ∧ BuiltBy cfg s a s' d

variable {cfg : Config} {now : ℤ} {s s' s'' : Sys} {a : Action} {B B' : NetData → Prop}
  {d : NetData}

namespace Appends

theorem of_eq (hlst : s'.recvlist = s.recvlist) (htmp : s'.recvtmplst = s.recvtmplst) :
    Appends B s s' :=
  ⟨hlst, [], by rw [htmp, List.append_nil], nofun⟩

theorem trans (h : Appends B s s') (h' : Appends B s' s'') : Appends B s s'' := by
  obtain ⟨hlst, ds, htmp, hds⟩ := h
  obtain ⟨hlst', ds', htmp', hds'⟩ := h'
  refine ⟨hlst'.trans hlst, ds ++ ds', by rw [htmp', htmp, List.append_assoc], fun d hd => ?_⟩
  exact (List.mem_append.mp hd).elim (hds d) (hds' d)

theorem mono (h : Appends B s s') (hB : ∀ d, B d → B' d) : Appends B' s s' :=
  ⟨h.recvlist, h.recvtmplst.imp fun _ h => ⟨h.1, fun d hd => hB d (h.2 d hd)⟩⟩

theorem goto (h : Appends B s s') (pc : Pc) : Appends B s (s'.goto pc) :=
  h.trans (.of_eq rfl rfl)

theorem deleteSendMsg (fd : ℤ) : Appends B s (deleteSendMsgFromSendMap s fd) := by
  rcases deleteSendMsg_cases s fd with heq | heq <;> rw [heq] <;> exact .of_eq rfl rfl

/-- `doSendMessage` appends nothing. -/
theorem doSendMessage (key : SocketKey) (sends : List SendResult) :
    Appends B s (doSendMessage s key sends).2 := by
  unfold Epoll.doSendMessage
  split
  · split
    · exact .of_eq rfl rfl
    · exact .of_eq rfl rfl
    · have hsent : ∀ o, Appends B s (sentFrom s key.fdkey o) := fun o => .of_eq rfl rfl
      simp only
      split
      · exact (hsent _).trans (.deleteSendMsg _)
      · split <;> exact .of_eq rfl rfl
  · exact .deleteSendMsg _

theorem addClientToEpoll (sock : SocketSet) (ctlOk : Bool) :
    Appends B s (addClientToEpoll cfg s sock ctlOk) := by
  rcases addClientToEpoll_cases cfg s sock ctlOk with ⟨-, es, heq, -⟩ | ⟨-, heq⟩ <;> rw [heq] <;>
    exact .of_eq rfl rfl

/-- **A closed connection is announced.** -/
theorem closeClient (fd conntime : ℤ) :
    Appends (BuiltByClose cfg.host s (closeClient cfg s fd conntime)) s
      (closeClient cfg s fd conntime) := by
  refine ⟨by rw [closeClient_eq], closeMsgs s fd, by rw [closeClient_eq], fun d hd => ?_⟩
  obtain ⟨sock, hsock, rfl⟩ := List.mem_map.mp hd
  obtain ⟨hfd, hlookup⟩ := closing_eq_some (Option.mem_toList.mp hsock)
  refine ⟨fd, sock, _, hlookup, ?_, serverMessage_out cfg.host _, rfl⟩
  rw [closeClient_eq]
  simp only [if_neg hfd, AList.lookup_erase]

/-- **And so is one that comes up.** -/
theorem born (sock : SocketSet) (hann : Announces s' a (newConn s sock)) :
    Appends (BuiltByConnect cfg.host s' a) s (born s sock) := by
  refine ⟨rfl, _, rfl, fun d hd => ?_⟩
  rw [List.mem_singleton.mp hd]
  exact ⟨_, _, hann, serverMessage_out cfg.host _, rfl⟩

end Appends

/-- The connection that is closed was there before, but for what was read
from it. -/
theorem BuiltByClose.of_same {host : Host} {d : NetData} (h : BuiltByClose host s' s'' d)
    (hmap : ∀ fd y, s'.socketmap.lookup fd = some (some y) →
      ∃ x, s.socketmap.lookup fd = some (some x) ∧ SameConn x y) : BuiltByClose host s s'' d := by
  obtain ⟨fd, y, buf, hlookup, hgone, hout, rfl⟩ := h
  obtain ⟨x, hx, hsame⟩ := hmap fd y hlookup
  exact ⟨fd, x, buf, hx, hgone, hsame.type ▸ hout, by rw [hsame.ofSocket]⟩

/-! ## What the handlers append -/

/-- **What the receive loop appends, the parser cut.** -/
theorem cutByParse_of_mem {sock : SocketSet} {io : Io} {id : ℕ}
    (hreads : readsOf cfg id s a = some (sock, io)) {d : NetData}
    (hd : d ∈ (recvMessage cfg.host cfg.recvbuflen io.now sock io.recvs).msgs) :
    ∃ buf, CutByParse cfg s a buf d := by
  obtain ⟨y, left, hrounds, hround⟩ := RecvRounds.start.round_of_mem hd
  refine ⟨_, id, sock, io, y, left, hreads, hrounds, rfl, ?_⟩
  unfold recvRound at hround
  split at hround
  · exact hround
  · cases hround

/-- `doRecvMessage`, for an event of the batch. -/
theorem appends_doRecvMessage {e : EpollEvent} {evs : List EpollEvent} {io : Io}
    (hpc : s.pc = .batch (e :: evs)) (hin : e.kind = .epollin)
    (hlisten : e.key.fdkey ≠ cfg.listenfd) :
    Appends (BuiltBy cfg s (.event io) (doRecvMessage cfg s e.key io)) s
      (doRecvMessage cfg s e.key io) := by
  have hclose : ∀ fd t, Appends (BuiltBy cfg s (.event io) (closeClient cfg s fd t)) s
      (closeClient cfg s fd t) :=
    fun fd t => (Appends.closeClient fd t).mono fun d hd => .inr (.inl hd)
  unfold doRecvMessage
  split
  · rename_i sock hsock
    split
    · exact hclose _ _
    · rename_i hkey
      rw [not_not] at hkey
      have hreads : readsOf cfg e.key.id s (.event io) = some (sock, io) := by
        simp only [readsOf, hpc, hsock]
        exact if_pos ⟨hin, hlisten, hkey, trivial⟩
      have hrecv : ∀ t, Appends (BuiltBy cfg s (.event io) t) s
          (received s e.key.fdkey sock
            (recvMessage cfg.host cfg.recvbuflen io.now sock io.recvs)) :=
        fun t => ⟨rfl, _, rfl, fun d hd => .inr (.inr (cutByParse_of_mem hreads hd))⟩
      simp only
      split
      · exact hrecv _
      · refine (hrecv _).trans ((Appends.closeClient _ _).mono fun d hd => .inr (.inl ?_))
        -- what is closed is the connection that was read from
        refine hd.of_same fun fd y hy => ?_
        simp only [received, IntMap.lookup_insert_eq] at hy
        split at hy
        · rename_i hfd
          injection hy with hy
          injection hy with hy
          exact ⟨sock, hfd ▸ hsock, hy ▸ recvLoop_same _ _ _ _ _⟩
        · exact ⟨y, hy, .rfl'⟩
  · exact hclose _ _

/-- An event of the batch. -/
theorem appends_handleEvent {e : EpollEvent} {evs : List EpollEvent} {io : Io}
    (hpc : s.pc = .batch (e :: evs))
    (hlisten : ¬ (e.kind = .epollin ∧ e.key.fdkey = cfg.listenfd)) :
    Appends (BuiltBy cfg s (.event io) (handleEvent cfg s e io)) s (handleEvent cfg s e io) := by
  unfold handleEvent
  split
  · rename_i hin
    exact appends_doRecvMessage hpc hin fun hfd => hlisten ⟨hin, hfd⟩
  · -- sending leaves the map alone
    have hmap := (doSendMessage_maps (s := s) e.key io.sends).1
    have hclose : ∀ fd t, Appends (BuiltBy cfg s (.event io)
        (closeClient cfg (doSendMessage s e.key io.sends).2 fd t))
        (doSendMessage s e.key io.sends).2
        (closeClient cfg (doSendMessage s e.key io.sends).2 fd t) :=
      fun fd t => (Appends.closeClient fd t).mono fun d hd =>
        .inr (.inl (hd.of_same fun fd y hy => ⟨y, hmap ▸ hy, .rfl'⟩))
    simp only
    split
    · exact (Appends.doSendMessage _ _).trans (hclose _ _)
    · split
      · rename_i s' hmod
        obtain ⟨-, rfl⟩ := epollMod_eq_some hmod
        exact (Appends.doSendMessage _ _).trans (.of_eq rfl rfl)
      · exact (Appends.doSendMessage _ _).trans (hclose _ _)
  · exact (Appends.closeClient _ _).mono fun d hd => .inr (.inl hd)

/-- A round of the scan. -/
theorem appends_scanFd (fd : ℤ) (ctlOk : Bool) :
    Appends (BuiltBy cfg s a (scanFd cfg s fd ctlOk).1) s (scanFd cfg s fd ctlOk).1 := by
  unfold scanFd
  split
  · exact .of_eq rfl rfl
  · exact .of_eq rfl rfl
  · split
    · rename_i s' hmod
      obtain ⟨-, rfl⟩ := epollMod_eq_some hmod
      exact .of_eq rfl rfl
    · exact (Appends.closeClient _ _).mono fun d hd => .inr (.inl hd)

/-- A round of the sweep. -/
theorem appends_sweepFd (fd : ℤ) :
    Appends (BuiltBy cfg s a (sweepFd cfg s fd)) s (sweepFd cfg s fd) := by
  unfold sweepFd sweepFdCalls
  split
  · exact .of_eq rfl rfl
  · exact .of_eq rfl rfl
  · exact Appends.mono (Appends.closeClient fd _) fun d hd => .inr (.inl hd)

/-- The flush passes messages on, or drops them. -/
theorem flush_subset (recvlist ds : List NetData) :
    flush cfg recvlist ds ⊆ recvlist ++ ds := by
  induction ds generalizing recvlist with
  | nil =>
    rw [flush, List.append_nil]
    exact List.Subset.refl _
  | cons d ds ih =>
    rw [flush]
    split
    · intro x hx
      rcases List.mem_append.mp (ih recvlist hx) with hx | hx
      · exact List.mem_append_left _ hx
      · exact List.mem_append_right _ (List.mem_cons_of_mem _ hx)
    · intro x hx
      simpa using ih (recvlist ++ [d]) hx

/-! ## Every step -/

/-- **A step appends what it builds**, or only passes messages on. -/
theorem step_appends (h : Step cfg s a s') :
    Appends (BuiltBy cfg s a s') s s' ∨
      s'.recvtmplst ++ s'.recvlist ⊆ s.recvlist ++ s.recvtmplst := by
  cases h with
  | event hpc hlisten => exact .inl ((appends_handleEvent hpc hlisten).goto _)
  | @acceptConn evs fd ip port b₁ b₂ b₃ b₄ now ctlOk hpc =>
    rcases acceptConn_cases cfg s fd ip port b₁ b₂ b₃ b₄ now ctlOk with
      heq | ⟨⟨rfl, rfl, rfl, rfl⟩, heq⟩ <;> rw [heq]
    · exact .inl (.of_eq rfl rfl)
    · have hann : Announces s (.accept (.conn fd ip port true true true true now ctlOk))
          (newConn (s.opened fd) (newClient fd ip port now)) := .accept hpc
      have hopened : Appends (BuiltByConnect cfg.host s
          (.accept (.conn fd ip port true true true true now ctlOk))) s (s.opened fd) :=
        .of_eq rfl rfl
      have hborn := hopened.trans (.born (newClient fd ip port now) hann)
      exact .inl (((hborn.mono fun d hd => .inl hd).trans (.addClientToEpoll _ _)).goto _)
  | flush =>
    have hflush : flush cfg s.recvlist s.recvtmplst ⊆ s.recvlist ++ s.recvtmplst :=
      flush_subset _ _
    refine .inr fun d hd => hflush ?_
    simpa using hd
  | @sysClose fd conntime es hpc hlst =>
    -- taking the event off the queue leaves the map alone
    have hclose : Appends (BuiltByClose cfg.host s (closeClient cfg (s.withEvents es) fd conntime))
        (s.withEvents es) (closeClient cfg (s.withEvents es) fd conntime) :=
      Appends.closeClient (s := s.withEvents es) fd conntime
    exact .inl ⟨hclose.recvlist, (hclose.mono fun d hd => .inr (.inl hd)).recvtmplst⟩
  | @sysAdd sock es hpc hlst =>
    rw [addClientEvent_eq]
    have hevents : Appends (BuiltByConnect cfg.host s .sysEvent) s (s.withEvents es) :=
      .of_eq rfl rfl
    have hborn := hevents.trans (.born sock (.event hpc hlst))
    exact .inl ((hborn.mono fun d hd => .inl hd).trans (.of_eq rfl rfl))
  | register => exact .inl ((Appends.addClientToEpoll _ _).goto _)
  | scan => exact .inl ((appends_scanFd _ _).goto _)
  | @scanEnd del =>
    exact .inl (Appends.goto (deleteSendMsgs_invariant (I := Appends _ s) del
      (fun _ fd _ hs => hs.trans (.deleteSendMsg fd)) (.of_eq rfl rfl)) _)
  | sweep => exact .inl ((appends_sweepFd _).goto _)
  | @ping ntype =>
    obtain ⟨cur, allocs, recs, -, heq⟩ := sendMsgToServer_frame cfg s ntype keepaliveMsg
    rw [heq]
    exact .inl (.of_eq rfl rfl)
  | @addMsg d =>
    obtain ⟨cur, allocs, recs, -, heq⟩ := addMsg_frame cfg s d
    rw [heq]
    exact .inl (.of_eq rfl rfl)
  | @sendMsgToServer ntype m =>
    obtain ⟨cur, allocs, recs, -, heq⟩ := sendMsgToServer_frame cfg s ntype m
    rw [heq]
    exact .inl (.of_eq rfl rfl)
  | createCloseConnectEvent =>
    unfold createCloseConnectEvent
    split <;> exact .inl (.of_eq rfl rfl)
  | outQueue hlst =>
    refine .inr fun d hd => ?_
    rw [hlst]
    rcases List.mem_append.mp hd with hd | hd
    · exact List.mem_append_right _ hd
    · exact List.mem_append_left _ (List.mem_cons_of_mem _ hd)
  | epollWait | listen | acceptFail | sysEnd | switchSendMap | keepalive | sweepEnd |
    keepaliveSend | pingEnd | start | startNot | socket | socketFail | connectFail | connectOk |
    publish | enqueue | enqueueFail => exact .inl (.of_eq rfl rfl)

/-- **A message that waits behind a step** waited in front of it, or the step
appended it. -/
theorem step_brings (h : Step cfg s a s') (hd : d ∈ s'.recvtmplst ++ s'.recvlist) :
    d ∈ s.recvtmplst ++ s.recvlist ∨ Brings cfg d s a s' := by
  rcases step_appends h with ⟨hlst, ds, htmp, hds⟩ | hsub
  · rw [hlst, htmp, List.append_assoc] at hd
    rcases List.mem_append.mp hd with hd | hd
    · exact .inl (List.mem_append_left _ hd)
    · rcases List.mem_append.mp hd with hd | hd
      · exact .inr ⟨ds, htmp, hd, hds d hd⟩
      · exact .inl (List.mem_append_right _ hd)
  · exact .inl (List.mem_append.mpr (List.mem_append.mp (hsub hd)).symm)

/-- **Every message that waits was built by a step of the run.** -/
theorem built_of_reachable {P : NetData → Prop}
    (hP : ∀ s a s' d, (server cfg now).Takes s a s' → BuiltBy cfg s a s' d → P d)
    (h : (server cfg now).Reachable s) : ∀ d ∈ s.recvtmplst ++ s.recvlist, P d := by
  refine h.invariant (I := fun s => ∀ d ∈ s.recvtmplst ++ s.recvlist, P d)
    (fun d hd => absurd hd List.not_mem_nil) ?_
  intro s a s' hs _ hnext ih d hd
  rcases step_brings (step_of_next hnext) hd with hold | ⟨-, -, -, hbuilt⟩
  · exact ih d hold
  · exact hP s a s' d ⟨hs, hnext⟩ hbuilt

/-! ## What a peer can have the workers believe -/

/-- The branch of a frame that the parser cut is that of two bytes of its
buffer. -/
theorem branch_of_cut {buf : List UInt8} (h : CutByParse cfg s a buf d) :
    ∃ pos n, d.bytes = (buf.drop pos).take n ∧ netHeadSize ≤ n ∧ pos + n ≤ buf.length ∧
      (branch cfg.host d = .connected ↔ mainID (buf.drop pos) = [0, 11]) ∧
      (branch cfg.host d = .disconnected ↔ mainID (buf.drop pos) = [0, 12]) := by
  obtain ⟨_, _, _, _, _, _, _, _, hparse⟩ := h
  exact branch_of_parse hparse

/-- **What decides the branch of a message**, for every message that waits
for a worker. A step of the run appended it, and built it in one of three
ways: as the notification of a connection that came up in that step, or of
one that it closed, and then the branch is the notification's; or the
parser cut it from what the step's receive loop held, and then the branch is
that of the two bytes which the peer put behind the length. -/
theorem branch_of_run {as : List Action}
    (h : (server cfg now).exec (fun _ _ => True) (Sys.init cfg now) as = some s)
    (hd : d ∈ s.recvtmplst ++ s.recvlist) :
    ∃ before a after s₁ s₂ ds, as = before ++ a :: after ∧
      (server cfg now).exec (fun _ _ => True) (Sys.init cfg now) before = some s₁ ∧
      next cfg s₁ a = some s₂ ∧ s₂.recvtmplst = s₁.recvtmplst ++ ds ∧ d ∈ ds ∧
      (BuiltByConnect cfg.host s₁ a d ∧ branch cfg.host d = .connected ∨
        BuiltByClose cfg.host s₁ s₂ d ∧ branch cfg.host d = .disconnected ∨
        ∃ buf pos n, CutByParse cfg s₁ a buf d ∧ d.bytes = (buf.drop pos).take n ∧
          netHeadSize ≤ n ∧ pos + n ≤ buf.length ∧
          (branch cfg.host d = .connected ↔ mainID (buf.drop pos) = [0, 11]) ∧
          (branch cfg.host d = .disconnected ↔ mainID (buf.drop pos) = [0, 12])) := by
  obtain ⟨before, a, after, s₁, s₂, has, hbefore, hnext, ds, htmp, hmem, hbuilt⟩ :=
    Machine.exec_origin (P := fun s : Sys => d ∈ s.recvtmplst ++ s.recvlist) (B := Brings cfg d)
      (fun _ _ _ hnext hd => step_brings (step_of_next hnext) hd) h List.not_mem_nil hd
  refine ⟨before, a, after, s₁, s₂, ds, has, hbefore, hnext, htmp, hmem, ?_⟩
  rcases hbuilt with hcon | hdis | ⟨buf, hcut⟩
  · refine .inl ⟨hcon, ?_⟩
    obtain ⟨sock, bs, -, hout, rfl⟩ := hcon
    exact (branch_of_out hout).trans rfl
  · refine .inr (.inl ⟨hdis, ?_⟩)
    obtain ⟨fd, sock, bs, -, -, hout, rfl⟩ := hdis
    exact (branch_of_out hout).trans rfl
  · obtain ⟨pos, n, hbytes, hn, hpos, hcon, hdis⟩ := branch_of_cut hcut
    exact .inr (.inr ⟨buf, pos, n, hcut, hbytes, hn, hpos, hcon, hdis⟩)

/-- A frame of eight bytes with the main id of `RS_CONNECTED`. -/
def forgedConnect : List UInt8 := [0, 8, 0, 11, 0, 0, 0, 0]

/-- A client is accepted and sends `bs`. -/
def acceptAndRead (bs : List UInt8) : List Action :=
  acceptRound 7 ++ [.flush] ++ quietEnd ++
    [.epollWait [⟨⟨7, 2, 2⟩, .epollin⟩], .event { recvs := [.data bs] }]

/-- The message of a notification is twelve bytes long. -/
theorem length_of_out {host : Host} {m : ServerMessage} {buf : List UInt8}
    (h : m.out host maxSendSize = some buf) : buf.length = 12 := by
  rw [serverMessage_out, Option.some.injEq] at h
  rw [← h, List.length_append, m.msgHead.length_encode, length_toBE]
  rfl

/-- The forged frame of a client goes back to the step that read it. -/
theorem branch_of_run_forged :
    ∃ s d, (server smallConfig 0).exec (fun _ _ => True) (Sys.init smallConfig 0)
        (acceptAndRead forgedConnect) = some s ∧ d ∈ s.recvtmplst ∧ d.bytes = forgedConnect ∧
      branch smallConfig.host d = .connected ∧
      ∃ before a after s₁ s₂, acceptAndRead forgedConnect = before ++ a :: after ∧
        (server smallConfig 0).exec (fun _ _ => True) (Sys.init smallConfig 0) before = some s₁ ∧
        next smallConfig s₁ a = some s₂ ∧ ∃ buf, CutByParse smallConfig s₁ a buf d := by
  have hrun : ((server smallConfig 0).exec (fun _ _ => True) (Sys.init smallConfig 0)
      (acceptAndRead forgedConnect)).any (fun s => s.recvtmplst.any fun d =>
        d.bytes = forgedConnect ∧ branch smallConfig.host d = .connected) = true := by
    decide
  obtain ⟨s, hs, hany⟩ := (Option.any_eq_true _ _).mp hrun
  obtain ⟨d, hd, hforged⟩ := List.any_eq_true.mp hany
  obtain ⟨hbytes, hbranch⟩ := of_decide_eq_true hforged
  obtain ⟨before, a, after, s₁, s₂, -, has, hbefore, hnext, -, -, hbuilt⟩ :=
    branch_of_run hs (List.mem_append_left _ hd)
  refine ⟨s, d, hs, hd, hbytes, hbranch, before, a, after, s₁, s₂, has, hbefore, hnext, ?_⟩
  have hshort : ∀ {sock : SocketSet} {m : ServerMessage} {buf : List UInt8},
      m.out smallConfig.host maxSendSize = some buf → d ≠ NetData.ofSocket sock buf := by
    rintro sock m buf hout rfl
    have hlen := length_of_out hout
    rw [NetData.ofSocket_bytes] at hbytes
    rw [hbytes] at hlen
    cases hlen
  rcases hbuilt with ⟨⟨sock, buf, -, hout, hd⟩, -⟩ | ⟨⟨fd, sock, buf, -, -, hout, hd⟩, -⟩ |
    ⟨buf, pos, n, hcut, -⟩
  · exact absurd hd (hshort hout)
  · exact absurd hd (hshort hout)
  · exact ⟨buf, hcut⟩

/-- **A peer can forge a notification**: the parser appends its frame, and
`processMessage` takes the branch for a client that connected. -/
theorem branch_forged :
    ¬ ∀ (host : Host) (sock : SocketSet) (buf : List UInt8),
      ∀ d ∈ (parsePacketToRecvQueue host sock buf).msgs,
        branch host d ≠ .connected ∧ branch host d ≠ .disconnected := by
  intro hall
  have hparse : ∃ d ∈ (parsePacketToRecvQueue .little (initSocketset ⟨7, 2, 2⟩ "" 0 clientType 0)
      forgedConnect).msgs, branch .little d = .connected := by
    decide
  obtain ⟨d, hd, hbranch⟩ := hparse
  exact (hall _ _ _ d hd).1 hbranch

end Worker

end EupuServer
