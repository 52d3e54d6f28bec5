import EupuServer.Epoll.Index
import EupuServer.Epoll.Lifecycle
import EupuServer.Epoll.ServerRole
import EupuServer.Network.RecvEnding
import EupuServer.Worker.WorkThread
/-!
# What the workers are told

A message goes to the workers with every notification that the server
records. The two agree on the connection and on the branch that
`processMessage` takes for it (`Told.Agrees`), step by step
(`step_tells`). The types of the connections are those of the clients and
of the servers that are called (`Typed`). A server that calls no other has
clients alone (`OnlyClients`), and sends what its workers send.
-/

namespace EupuServer

namespace Worker

open Bytes Protocol Network Epoll

/-! ## A notification and its message -/

/-- The branch of `processMessage` for the message of a notification. -/
def branchOf : Notice → Branch
  | .connected => .connected
  | .frame bs => switchMainID (.ofNat (ofBE (mainID bs)))
  | .disconnected => .disconnected

/-- A message for the workers, and the notification it was recorded with. -/
structure Told where
  id : ℕ
  notice : Notice
  msg : NetData

/-- **The two agree**: the message is addressed as the connection is, its
type is one of `P`, and its branch is that of the notification. -/
structure Told.Agrees (P : ℤ → Prop) (cfg : Config) (s : Sys) (x : Told) : Prop where
  created : Created s x.id x.msg.fddat x.msg.connectTime
  type : P x.msg.type
  fd : 0 ≤ x.msg.fddat
  branch : branch cfg.host x.msg = branchOf x.notice

/-- What is told about connection `id`. -/
def toldAbout (id : ℕ) (told : List Told) : List Notice :=
  told.filterMap fun x => if x.id = id then some x.notice else none

/-- **What the workers are told** on the way from `s` to `s'`. It is not in
their queue yet. -/
def Tells (P : ℤ → Prop) (cfg : Config) (s s' : Sys) : Prop :=
  s'.recvlist = s.recvlist ∧ ∃ (told : List Told) (recs : List Record),
    s'.recvtmplst = s.recvtmplst ++ told.map Told.msg ∧ s'.hist = s.hist ++ recs ∧
      (∀ id, notices id recs = toldAbout id told) ∧ ∀ x ∈ told, x.Agrees P cfg s'

variable {P : ℤ → Prop} {cfg : Config} {s s' s'' : Sys} {a : Action}

/-- A connection that was created stays so. -/
theorem created_append {recs : List Record} (hhist : s'.hist = s.hist ++ recs) {id : ℕ} {fd t : ℤ}
    (h : Created s id fd t) : Created s' id fd t := by
  obtain ⟨l, hl⟩ := h
  exact ⟨l, hhist ▸ List.mem_append_left _ hl⟩

theorem Told.Agrees.append {x : Told} (h : x.Agrees P cfg s) {recs : List Record}
    (hhist : s'.hist = s.hist ++ recs) : x.Agrees P cfg s' :=
  ⟨created_append hhist h.created, h.type, h.fd, h.branch⟩

namespace Tells

/-- Nobody is told anything. -/
theorem of_quiet (recs : List Record) (hlst : s'.recvlist = s.recvlist)
    (htmp : s'.recvtmplst = s.recvtmplst) (hhist : s'.hist = s.hist ++ recs)
    (hrecs : ∀ id n, .note id n ∉ recs) : Tells P cfg s s' := by
  refine ⟨hlst, [], recs, by rw [htmp, List.map_nil, List.append_nil], hhist, fun id => ?_, nofun⟩
  refine List.filterMap_eq_nil_iff.mpr fun r hr => ?_
  unfold noticeOf
  split
  · exact absurd hr (hrecs _ _)
  · rfl

theorem of_eq (hlst : s'.recvlist = s.recvlist) (htmp : s'.recvtmplst = s.recvtmplst)
    (hhist : s'.hist = s.hist) : Tells P cfg s s' :=
  of_quiet [] hlst htmp (hhist.trans (List.append_nil _).symm) (by simp)

theorem trans (h : Tells P cfg s s') (h' : Tells P cfg s' s'') : Tells P cfg s s'' := by
  obtain ⟨hlst, told, recs, htmp, hhist, hrecs, hagrees⟩ := h
  obtain ⟨hlst', told', recs', htmp', hhist', hrecs', hagrees'⟩ := h'
  refine ⟨hlst'.trans hlst, told ++ told', recs ++ recs', ?_, ?_, fun id => ?_, fun x hx => ?_⟩
  · rw [htmp', htmp, List.map_append, List.append_assoc]
  · rw [hhist', hhist, List.append_assoc]
  · rw [notices_append, hrecs, hrecs', toldAbout, toldAbout, toldAbout, List.filterMap_append]
  · exact (List.mem_append.mp hx).elim (fun hx => (hagrees x hx).append hhist') (hagrees' x)

theorem goto (h : Tells P cfg s s') (pc : Pc) : Tells P cfg s (s'.goto pc) :=
  h.trans (.of_eq rfl rfl rfl)

end Tells

/-! ## The types of the connections -/

/-- What a call of `createServerConnect` is about has a type of `P`. -/
def CallTyped (P : ℤ → Prop) : ConnectPc → Prop
  | .idle => True
  | .checked ntype => P ntype
  | .connecting ntype fd => P ntype ∧ 0 ≤ fd
  | .connected sock => P sock.type ∧ 0 ≤ sock.key.fdkey
  | .published sock => P sock.type ∧ 0 ≤ sock.key.fdkey

/-- **Every connection has a type of `P`**, on its way into the map as
well. -/
structure Typed (P : ℤ → Prop) (s : Sys) : Prop where
  types : ∀ fd sock, s.socketmap.lookup fd = some (some sock) → P sock.type
  events : ∀ sock, .addClient sock ∈ s.eventlist → P sock.type ∧ 0 ≤ sock.key.fdkey
  adding : ∀ sock, s.pc = .adding sock → P sock.type
  calls : ∀ th, CallTyped P (s.connecting th)

/-- A server of no other type is called. -/
def Calls (P : ℤ → Prop) : Action → Prop
  | .connect _ (.start ntype) => P ntype
  | _ => True

namespace Typed

theorem init (now : ℤ) : Typed P (Sys.init cfg now) := ⟨nofun, nofun, nofun, fun _ => trivial⟩

theorem of_eq (h : Typed P s) (hmap : s'.socketmap = s.socketmap)
    (hevents : s'.eventlist = s.eventlist) (hcalls : s'.connecting = s.connecting)
    (hpc : ∀ sock, s'.pc = .adding sock → s.pc = .adding sock) : Typed P s' where
  types := hmap ▸ h.types
  events := hevents ▸ h.events
  adding sock hadding := h.adding sock (hpc sock hadding)
  calls := hcalls ▸ h.calls

theorem goto (h : Typed P s) {pc : Pc} (hpc : ∀ sock, pc ≠ .adding sock) : Typed P (s.goto pc) :=
  ⟨h.types, h.events, fun sock hadding => absurd hadding (hpc sock), h.calls⟩

/-- A connecting thread moves. -/
theorem atConnect (h : Typed P s) {th : ℕ} {c : ConnectPc} (hc : CallTyped P c) :
    Typed P (s.atConnect th c) := by
  refine ⟨h.types, h.events, h.adding, fun th' => ?_⟩
  show CallTyped P (Function.update s.connecting th c th')
  rw [Function.update_apply]
  split
  · exact hc
  · exact h.calls th'

/-- A connection comes up. -/
theorem born (h : Typed P s) {sock : SocketSet} (htype : P sock.type) : Typed P (born s sock) := by
  refine ⟨h.types, h.events, fun x hx => ?_, h.calls⟩
  injection hx with hx
  exact hx ▸ htype

theorem closeClient (h : Typed P s) (fd conntime : ℤ) :
    Typed P (closeClient cfg s fd conntime) := by
  refine ⟨fun k sock hsock => h.types k sock (lookup_of_closeClient hsock), ?_, ?_, ?_⟩ <;>
    rw [closeClient_eq]
  · exact h.events
  · exact h.adding
  · exact h.calls

theorem deleteSendMsg (h : Typed P s) (fd : ℤ) : Typed P (deleteSendMsgFromSendMap s fd) := by
  rcases deleteSendMsg_cases s fd with heq | heq
  · rw [heq]
    exact h
  · rw [heq]
    exact h.of_eq rfl rfl rfl fun _ => id

theorem effect (h : Typed P s) (heff : Effect cfg s s') : Typed P s' := by
  cases heff with
  | close fd conntime => exact h.closeClient fd conntime
  | sendFail =>
    refine Typed.closeClient (.deleteSendMsg ?_ _) _ _
    exact h.of_eq rfl rfl rfl fun _ => id
  | drop => exact h.deleteSendMsg _
  | recv now recvs hsock hkey =>
    refine ⟨fun k x hx => ?_, h.events, h.adding, h.calls⟩
    have heff : Effect cfg s (received s _ _ (recvMessage cfg.host cfg.recvbuflen now _ recvs)) :=
      .recv now recvs hsock hkey
    obtain ⟨y, hy, hsame⟩ := heff.shrinks.conn hx
    exact hsame.type ▸ h.types k y hy
  | closeNull =>
    exact ⟨fun k x hx => h.types k x (IntMap.lookup_of_erase hx), h.events, h.adding, h.calls⟩
  | send | sendAll | dropNull | mod | endDeref => exact h.of_eq rfl rfl rfl fun _ => id

theorem effects (h : Typed P s) (heff : Effects cfg s s') : Typed P s' :=
  heff.invariant (fun _ _ he hs => hs.effect he) h

/-- A connection is added, or refused. -/
theorem addClientToEpoll (h : Typed P s) {sock : SocketSet} (htype : P sock.type) (ctlOk : Bool)
    {pc : Pc} (hpc : ∀ x, pc ≠ .adding x) :
    Typed P ((addClientToEpoll cfg s sock ctlOk).goto pc) := by
  rcases addClientToEpoll_cases cfg s sock ctlOk with ⟨-, es, heq, -⟩ | ⟨-, heq⟩ <;> rw [heq]
  · exact ⟨h.types, h.events, fun x hx => absurd hx (hpc x), h.calls⟩
  · refine ⟨fun k x hx => ?_, h.events, fun x hx => absurd hx (hpc x), h.calls⟩
    rw [Sys.goto, IntMap.lookup_insert_eq] at hx
    split at hx
    · cases hx
      exact htype
    · exact h.types k x hx

/-- **A step keeps it**, where clients are of `P` and what is called is. -/
theorem step (h : Typed P s) (hclient : P clientType) (hstep : Step cfg s a s') (ha : Calls P a) :
    Typed P s' := by
  cases hstep with
  | event => exact (h.effects (handleEvent_effects _ _ _)).goto (by simp)
  | @acceptConn evs fd ip port b₁ b₂ b₃ b₄ now ctlOk hpc =>
    rcases acceptConn_cases cfg s fd ip port b₁ b₂ b₃ b₄ now ctlOk with heq | ⟨-, heq⟩ <;> rw [heq]
    · exact h.of_eq rfl rfl rfl fun _ => id
    · rw [hpc]
      have hopened : Typed P (s.opened fd) := h.of_eq rfl rfl rfl fun _ => id
      exact (hopened.born hclient).addClientToEpoll hclient ctlOk (by simp)
  | @sysClose fd conntime es hpc hlst =>
    refine Typed.closeClient ?_ _ _
    exact ⟨h.types, fun sock hsock => h.events sock (hlst ▸ List.mem_cons_of_mem _ hsock),
      h.adding, h.calls⟩
  | @sysAdd sock es hpc hlst =>
    have hes : Typed P (s.withEvents es) :=
      ⟨h.types, fun x hx => h.events x (hlst ▸ List.mem_cons_of_mem _ hx), h.adding, h.calls⟩
    rw [addClientEvent_eq]
    exact (hes.born (h.events sock (hlst ▸ List.mem_cons_self)).1).of_eq rfl rfl rfl fun _ => id
  | register hpc => exact h.addClientToEpoll (h.adding _ hpc) _ (by simp)
  | scan => exact (h.effects (scanFd_effects _ _ _)).goto (by simp)
  | @scanEnd del =>
    have hdel : Typed P (del.foldl deleteSendMsgFromSendMap s) :=
      deleteSendMsgs_invariant del (fun _ fd _ hs => hs.deleteSendMsg fd) h
    exact hdel.goto (by simp)
  | sweep => exact (h.effects (sweepFd_effects _ _)).goto (by simp)
  | keepalive hpc fds pc hto => exact h.goto (by rcases hto with rfl | rfl <;> simp)
  | keepaliveSend hpc pc hto => exact h.goto (by rcases hto with rfl | rfl <;> simp)
  | @ping ntype =>
    obtain ⟨cur, allocs, recs, -, heq⟩ := sendMsgToServer_frame cfg s ntype keepaliveMsg
    rw [heq]
    exact h.of_eq rfl rfl rfl (by simp [Sys.goto])
  | @addMsg d =>
    obtain ⟨cur, allocs, recs, -, heq⟩ := addMsg_frame cfg s d
    rw [heq]
    exact h.of_eq rfl rfl rfl fun _ => id
  | @sendMsgToServer ntype m =>
    obtain ⟨cur, allocs, recs, -, heq⟩ := sendMsgToServer_frame cfg s ntype m
    rw [heq]
    exact h.of_eq rfl rfl rfl fun _ => id
  | createCloseConnectEvent =>
    unfold Epoll.createCloseConnectEvent
    split
    · exact h
    · exact ⟨h.types, fun sock hsock => h.events sock (by simpa [Sys.withEvents] using hsock),
        h.adding, h.calls⟩
  | outQueue => exact h.of_eq rfl rfl rfl fun _ => id
  | epollWait | listen | acceptFail | flush | sysEnd | switchSendMap | sweepEnd | pingEnd =>
    exact h.of_eq rfl rfl rfl (by simp [Sys.goto, Epoll.switchSendMap])
  | start => exact h.atConnect ha
  | startNot => exact h
  | @socket th ntype fd hpc hfd =>
    have hcall := h.calls th
    rw [hpc] at hcall
    exact (h.of_eq rfl rfl rfl fun _ => id : Typed P (s.opened fd)).atConnect ⟨hcall, hfd⟩
  | socketFail => exact h.atConnect trivial
  | connectFail => exact (h.of_eq rfl rfl rfl fun _ => id : Typed P (s.close _)).atConnect trivial
  | @connectOk th ntype fd conntime now hpc =>
    have hcall := h.calls th
    rw [hpc] at hcall
    have hattempt : Typed P { s with attempts := s.attempts + 1 } :=
      h.of_eq rfl rfl rfl fun _ => id
    exact hattempt.atConnect hcall
  | @publish th sock hpc =>
    have hcall := h.calls th
    rw [hpc] at hcall
    exact (h.of_eq rfl rfl rfl fun _ => id : Typed P (s.setServerSocket ..)).atConnect hcall
  | @enqueue th sock hpc =>
    have hcall := h.calls th
    rw [hpc] at hcall
    have hevents : Typed P (s.withEvents (s.eventlist ++ [.addClient sock])) := by
      refine ⟨h.types, fun x hx => ?_, h.adding, h.calls⟩
      rcases List.mem_append.mp hx with hx | hx
      · exact h.events x hx
      · rw [List.mem_singleton] at hx
        injection hx with hx
        exact hx ▸ hcall
    exact hevents.atConnect (c := .idle) trivial
  | enqueueFail =>
    exact (h.of_eq rfl rfl rfl fun _ => id : Typed P ((s.setServerSocket ..).close _)).atConnect
      trivial

end Typed

/-! ## Servers whose connections are clients -/

/-- **No connection is one of the server's own making.** -/
structure OnlyClients (s : Sys) : Prop extends Typed (· = clientType) s where
  keys : s.keys = {}

/-- A client that is closed resets no key. -/
theorem closeKeys_of_types
    (htypes : ∀ fd sock, s.socketmap.lookup fd = some (some sock) → sock.type = clientType)
    (fd : ℤ) : closeKeys s fd = s.keys := by
  unfold closeKeys
  split
  · rfl
  · rename_i sock hclosing
    rw [htypes fd sock (closing_eq_some hclosing).2, if_neg (lt_irrefl _)]

/-- A message to a server is not sent where no key is set. -/
theorem sendMsgToServer_noKeys (hkeys : s.keys = {}) (ntype : ℤ) (m : ServerMsg) :
    sendMsgToServer cfg s ntype m = s := by
  unfold sendMsgToServer ServerKeys.ofType
  rw [hkeys]
  split_ifs <;> rfl

namespace OnlyClients

theorem closeClient (h : OnlyClients s) (fd conntime : ℤ) :
    OnlyClients (closeClient cfg s fd conntime) := by
  refine ⟨h.toTyped.closeClient fd conntime, ?_⟩
  rw [closeClient_eq]
  exact (closeKeys_of_types h.types fd).trans h.keys

theorem deleteSendMsg (h : OnlyClients s) (fd : ℤ) :
    OnlyClients (deleteSendMsgFromSendMap s fd) := by
  refine ⟨h.toTyped.deleteSendMsg fd, ?_⟩
  rcases deleteSendMsg_cases s fd with heq | heq <;> rw [heq] <;> exact h.keys

theorem effect (h : OnlyClients s) (heff : Effect cfg s s') : OnlyClients s' := by
  have htyped := h.toTyped.effect heff
  cases heff with
  | close fd conntime => exact h.closeClient fd conntime
  | sendFail =>
    refine OnlyClients.closeClient (.deleteSendMsg ?_ _) _ _
    exact ⟨h.toTyped.of_eq rfl rfl rfl fun _ => id, h.keys⟩
  | drop => exact h.deleteSendMsg _
  | recv | closeNull | send | sendAll | dropNull | mod | endDeref => exact ⟨htyped, h.keys⟩

theorem effects (h : OnlyClients s) (heff : Effects cfg s s') : OnlyClients s' :=
  heff.invariant (fun _ _ he hs => hs.effect he) h

/-- **A step keeps it**, where no thread calls `createServerConnect`. -/
theorem step (h : OnlyClients s) (hstep : Step cfg s a s') (ha : a.thread = none) :
    OnlyClients s' := by
  have hcalls : Calls (· = clientType) a := by
    cases a with
    | connect => cases ha
    | _ => trivial
  refine ⟨h.toTyped.step rfl hstep hcalls, ?_⟩
  cases hstep with
  | event => exact (h.effects (handleEvent_effects _ _ _)).keys
  | @acceptConn evs fd ip port b₁ b₂ b₃ b₄ now ctlOk hpc =>
    rcases acceptConn_cases cfg s fd ip port b₁ b₂ b₃ b₄ now ctlOk with heq | ⟨-, heq⟩ <;> rw [heq]
    · exact h.keys
    · rcases addClientToEpoll_cases cfg (born (s.opened fd) (newClient fd ip port now))
        (newConn (s.opened fd) (newClient fd ip port now)) ctlOk with
        ⟨-, es, hadd, -⟩ | ⟨-, hadd⟩ <;>
        rw [hadd] <;> exact h.keys
  | @sysClose fd conntime es hpc hlst =>
    have hes : OnlyClients (s.withEvents es) :=
      ⟨⟨h.types, fun x hx => h.events x (hlst ▸ List.mem_cons_of_mem _ hx), h.adding, h.calls⟩,
        h.keys⟩
    exact (hes.closeClient fd conntime).keys
  | @sysAdd sock es hpc hlst =>
    rw [addClientEvent_eq]
    simp only [addedKeys, (h.events sock (hlst ▸ List.mem_cons_self)).1]
    exact h.keys
  | @register sock ctlOk =>
    rcases addClientToEpoll_cases cfg s sock ctlOk with ⟨-, es, heq, -⟩ | ⟨-, heq⟩ <;>
      rw [Sys.goto, heq] <;> exact h.keys
  | scan => exact (h.effects (scanFd_effects _ _ _)).keys
  | @scanEnd del =>
    have hdel : OnlyClients (del.foldl deleteSendMsgFromSendMap s) :=
      deleteSendMsgs_invariant del (fun _ fd _ hs => hs.deleteSendMsg fd) h
    exact hdel.keys
  | sweep => exact (h.effects (sweepFd_effects _ _)).keys
  | ping =>
    rw [sendMsgToServer_noKeys h.keys]
    exact h.keys
  | sendMsgToServer =>
    rw [sendMsgToServer_noKeys h.keys]
    exact h.keys
  | createCloseConnectEvent =>
    unfold Epoll.createCloseConnectEvent
    split <;> exact h.keys
  | addMsg | outQueue | epollWait | listen | acceptFail | flush | sysEnd | switchSendMap
  | keepalive | sweepEnd | keepaliveSend | pingEnd => exact h.keys
  | start | startNot | socket | socketFail | connectFail | connectOk | publish | enqueue
  | enqueueFail => cases ha

end OnlyClients

/-! ## What a step tells -/

/-- A connection's end is told. -/
theorem closeClient_tells (hwf : Wf s)
    (htypes : ∀ fd sock, s.socketmap.lookup fd = some (some sock) → P sock.type)
    (fd conntime : ℤ) : Tells P cfg s (closeClient cfg s fd conntime) := by
  have hhist : (closeClient cfg s fd conntime).hist = s.hist ++ closeNotes s fd := by
    rw [closeClient_eq]
  have htmp : (closeClient cfg s fd conntime).recvtmplst = s.recvtmplst ++ closeMsgs s fd := by
    rw [closeClient_eq]
  have hlst : (closeClient cfg s fd conntime).recvlist = s.recvlist := by
    rw [closeClient_eq]
  rcases hclosing : closing s fd with _ | sock
  · refine .of_eq hlst ?_ ?_
    · rw [htmp, closeMsgs, hclosing]
      exact List.append_nil _
    · rw [hhist, closeNotes, hclosing]
      exact List.append_nil _
  · obtain ⟨-, hsock⟩ := closing_eq_some hclosing
    refine ⟨hlst, [⟨sock.key.id, .disconnected, NetData.ofSocket sock (closeBytes sock)⟩],
      _, ?_, hhist,
      fun id => ?_, ?_⟩
    · rw [htmp, closeMsgs, hclosing]
      rfl
    · rw [closeNotes, hclosing]
      rfl
    · intro x hx
      rw [List.mem_singleton] at hx
      subst hx
      obtain ⟨hkey, hfd, -⟩ := hwf.conn hsock
      have hcreated : Created s sock.key.id fd sock.key.connectTime := hwf.created hsock
      rw [← hkey] at hcreated hfd
      exact ⟨created_append hhist hcreated, htypes fd sock hsock, hfd,
        (branch_of_out (serverMessage_out cfg.host _)).trans rfl⟩

/-- A connection's frames are told. -/
theorem received_tells (hwf : Wf s)
    (htypes : ∀ fd sock, s.socketmap.lookup fd = some (some sock) → P sock.type)
    {fd : ℤ} {sock : SocketSet} (hsock : s.socketmap.lookup fd = some (some sock)) (now : ℤ)
    (recvs : List RecvResult) :
    Tells P cfg s (received s fd sock (recvMessage cfg.host cfg.recvbuflen now sock recvs)) := by
  refine ⟨rfl, (recvMessage cfg.host cfg.recvbuflen now sock recvs).msgs.map fun d =>
    ⟨sock.key.id, .frame d.bytes, d⟩, _, ?_, rfl, fun id => ?_, ?_⟩
  · rw [List.map_map]
    exact congrArg _ (List.map_id _).symm
  · rw [notices, toldAbout, List.filterMap_map, List.filterMap_map]
    rfl
  · intro x hx
    obtain ⟨d, hd, rfl⟩ := List.mem_map.mp hx
    obtain ⟨bs, rfl, hmin, hmax⟩ := frame_of_recvLoop _ _ _ _ _ hd
    obtain ⟨hkey, hfd, -⟩ := hwf.conn hsock
    have hcreated : Created s sock.key.id fd sock.key.connectTime := hwf.created hsock
    rw [← hkey] at hcreated hfd
    refine ⟨created_append rfl hcreated, htypes fd sock hsock, hfd, ?_⟩
    rw [branch_ofSocket _ _ hmin (by unfold maxSendSize at hmax; omega), NetData.ofSocket_bytes]
    rfl

theorem sentFrom_tells (fd : ℤ) (key : SocketKey) (sends : List SendResult)
    (lst : List NetDataPtr) : Tells P cfg s (sentFrom s fd (sendLoop key sends lst)) := by
  refine .of_quiet _ rfl rfl rfl fun id n hn => ?_
  rcases sendLoop_recs hn with ⟨_, _, h, -⟩ | ⟨_, -, ⟨h, -⟩ | ⟨h, -⟩⟩ <;> cases h

theorem deleteSendMsg_tells (fd : ℤ) : Tells P cfg s (deleteSendMsgFromSendMap s fd) := by
  rcases deleteSendMsg_cases s fd with heq | heq <;> rw [heq]
  · exact .of_eq rfl rfl rfl
  · exact .of_quiet _ rfl rfl rfl (by simp)

/-- **What an effect records, it tells.** -/
theorem effect_tells (h : Effect cfg s s') (hwf : Wf s) (htyped : Typed P s) :
    Tells P cfg s s' := by
  cases h with
  | close fd conntime => exact closeClient_tells hwf htyped.types fd conntime
  | recv now recvs hsock => exact received_tells hwf htyped.types hsock now recvs
  | send => exact sentFrom_tells _ _ _ _
  | @sendAll fd sock lst sends =>
    exact (sentFrom_tells fd sock.key sends lst).trans (.of_eq rfl rfl rfl)
  | @sendFail fd sock lst sends conntime =>
    refine ((sentFrom_tells fd sock.key sends lst).trans (deleteSendMsg_tells fd)).trans
      (closeClient_tells ?_ ?_ fd conntime)
    · refine hwf.of_shrinks ((sentFrom_shrinks _ _ _ _).trans (deleteSendMsg_shrinks _)) ?_
      intro x hx
      rwa [deleteSendMsg_pc] at hx
    · rw [(deleteSendMsg_maps _ fd).1]
      exact htyped.types
  | drop => exact deleteSendMsg_tells _
  | endDeref => exact .of_quiet _ rfl rfl rfl (by simp)
  | dropNull | mod | closeNull => exact .of_eq rfl rfl rfl

theorem effects_tells (h : Effects cfg s s') (hwf : Wf s) (htyped : Typed P s) :
    Tells P cfg s s' := by
  have hinv : Tells P cfg s s' ∧ Wf s' ∧ Typed P s' := by
    refine h.invariant (I := fun s' => Tells P cfg s s' ∧ Wf s' ∧ Typed P s') ?_
      ⟨.of_eq rfl rfl rfl, hwf, htyped⟩
    rintro s₁ s₂ heff ⟨htells, hwf₁, htyped₁⟩
    exact ⟨htells.trans (effect_tells heff hwf₁ htyped₁), hwf₁.effect heff, htyped₁.effect heff⟩
  exact hinv.1

/-- A connection that comes up is announced. -/
theorem born_tells {sock : SocketSet} (htype : P sock.type)
    (hfd : 0 ≤ sock.key.fdkey) : Tells P cfg s (born s sock) := by
  refine ⟨rfl, [⟨s.calls + 1, .connected, NetData.ofSocket (newConn s sock)
    (connectBytes (newConn s sock))⟩], [.index (s.calls + 1) sock.key.fdkey
      (newConn s sock).key.connectTime sock.attempt, .note (s.calls + 1) .connected],
    rfl, List.append_assoc _ _ _, fun id => ?_, ?_⟩
  · unfold notices toldAbout noticeOf
    by_cases hid : s.calls + 1 = id <;> simp [hid]
  · intro x hx
    rw [List.mem_singleton] at hx
    subst hx
    refine ⟨⟨sock.attempt, ?_⟩, htype, hfd,
      (branch_of_out (serverMessage_out cfg.host _)).trans rfl⟩
    exact List.mem_append_left _ (List.mem_append_right _ List.mem_cons_self)

theorem addClientToEpoll_tells (sock : SocketSet) (ctlOk : Bool) :
    Tells P cfg s (addClientToEpoll cfg s sock ctlOk) := by
  rcases addClientToEpoll_cases cfg s sock ctlOk with ⟨-, es, heq, -⟩ | ⟨-, heq⟩ <;> rw [heq] <;>
    exact .of_eq rfl rfl rfl

/-- **What a step records, it tells.** The flush hands on what was told. -/
theorem step_tells (h : Step cfg s a s') (hwf : Wf s) (htyped : Typed P s) (hclient : P clientType)
    (hflush : a ≠ .flush) (hout : a ≠ .outQueue) : Tells P cfg s s' := by
  cases h with
  | event => exact (effects_tells (handleEvent_effects s _ _) hwf htyped).goto _
  | @acceptConn evs fd ip port b₁ b₂ b₃ b₄ now ctlOk hpc hfd =>
    rcases acceptConn_cases cfg s fd ip port b₁ b₂ b₃ b₄ now ctlOk with heq | ⟨-, heq⟩ <;> rw [heq]
    · exact .of_eq rfl rfl rfl
    · have hborn : Tells P cfg s (born (s.opened fd) (newClient fd ip port now)) :=
        born_tells hclient hfd
      exact (hborn.trans (addClientToEpoll_tells _ _)).goto _
  | @sysClose fd conntime es =>
    have hwf' : Wf (s.withEvents es) := hwf.of_eq rfl rfl rfl rfl fun _ => id
    have hclose : Tells P cfg (s.withEvents es) (closeClient cfg (s.withEvents es) fd conntime) :=
      closeClient_tells hwf' htyped.types fd conntime
    exact hclose
  | @sysAdd sock es hpc hlst =>
    obtain ⟨htype, hfd⟩ := htyped.events sock (hlst ▸ List.mem_cons_self)
    have hborn : Tells P cfg (s.withEvents es) (born (s.withEvents es) sock) := born_tells htype hfd
    rw [addClientEvent_eq]
    exact hborn.trans (.of_eq rfl rfl rfl)
  | register => exact (addClientToEpoll_tells _ _).goto _
  | scan => exact (effects_tells (scanFd_effects s _ _) hwf htyped).goto _
  | @scanEnd del =>
    have hdel : Tells P cfg s (del.foldl deleteSendMsgFromSendMap s) :=
      deleteSendMsgs_invariant (I := Tells P cfg s) del
        (fun _ k _ hs => hs.trans (deleteSendMsg_tells k)) (.of_eq rfl rfl rfl)
    exact hdel.goto _
  | sweep => exact (effects_tells (sweepFd_effects s _) hwf htyped).goto _
  | flush => exact absurd rfl hflush
  | outQueue => exact absurd rfl hout
  | @ping ntype =>
    obtain ⟨cur, allocs, recs, hrecs, heq⟩ := sendMsgToServer_frame cfg s ntype keepaliveMsg
    rw [heq]
    exact .of_quiet recs rfl rfl rfl fun _ _ hn => hrecs _ hn
  | @addMsg d =>
    obtain ⟨cur, allocs, recs, hrecs, heq⟩ := addMsg_frame cfg s d
    rw [heq]
    exact .of_quiet recs rfl rfl rfl fun _ _ hn => hrecs _ hn
  | @sendMsgToServer ntype m =>
    obtain ⟨cur, allocs, recs, hrecs, heq⟩ := sendMsgToServer_frame cfg s ntype m
    rw [heq]
    exact .of_quiet recs rfl rfl rfl fun _ _ hn => hrecs _ hn
  | createCloseConnectEvent =>
    unfold Epoll.createCloseConnectEvent
    split <;> exact .of_eq rfl rfl rfl
  | epollWait | listen | acceptFail | sysEnd | switchSendMap | keepalive | sweepEnd
  | keepaliveSend | pingEnd | start | startNot | socket | socketFail | connectFail | connectOk
  | publish | enqueue | enqueueFail => exact .of_eq rfl rfl rfl

end Worker

end EupuServer
