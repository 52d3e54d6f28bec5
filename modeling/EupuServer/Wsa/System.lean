import EupuServer.Common.Machine
import EupuServer.Epoll.Step
import EupuServer.Epoll.ServerRole
import EupuServer.Wsa.Loop
/-!
# The Windows thread as a machine

The loop of `doWSAEvent`, interleaved with the workers and the connecting
threads. It calls `doAccept` where it comes to an entry under `m_listenfd`,
and neither `doListen` nor anything after it puts such an entry into
`m_socketmap`: the thread accepts nobody (`never_accepts`).
-/

namespace EupuServer

namespace Wsa

open Network Protocol Epoll

/-- **The state of the Windows server.** `todo` holds the entries to come
while the thread is in the `for` loop over `m_socketmap`, and `accepted` says
whether the last pass of it has come to `doAccept`. -/
structure Loop where
  sys : Sys
  todo : Option (List ℤ) := none
  accepted : Bool := false

/-- **The labels.** Those of the other server are `shared` where the step is
the same. -/
inductive LoopAction
  | passBegin (order : List ℤ)
  | visit (io : VisitIo)
  | passEnd
  | sysEvent
  | scan
  | scanEnd
  | shared (a : Action)

/-- The steps that are the same in both servers: the flush, what the manager
does for the thread, and the other threads. -/
def isShared : Action → Bool
  | .flush => true
  | .switchSendMap => true
  | .keepaliveSend _ => true
  | .ping => true
  | .pingEnd _ => true
  | .addMsg _ => true
  | .sendMsgToServer _ _ => true
  | .createCloseConnectEvent _ _ => true
  | .outQueue => true
  | .connect _ _ => true
  | _ => false

variable (cfg : Config)

/-- Whether a visit calls `doAccept`. -/
def Visit.accepts (v : Visit) : Bool :=
  v.fd = cfg.listenfd ∧ (v.before.socketmap.lookup v.fd).join.isSome

/-- **A step of the Windows server.** The map decides in which order its
entries are visited. The increment past an entry that was erased is not
defined; it is taken to find the one that comes next. -/
def next (t : Loop) : LoopAction → Option Loop
  | .passBegin order =>
    match t.sys.pc, t.todo with
    | .wait, none =>
      if order.Perm t.sys.socketmap.keys then some ⟨t.sys, some order, false⟩ else none
    | _, _ => none
  | .visit io =>
    match t.todo with
    | some (fd :: fds) =>
      (visit cfg none t.sys fd io).map fun v => ⟨v.after, some fds, t.accepted || v.accepts cfg⟩
    | _ => none
  | .passEnd =>
    match t.todo with
    | some [] => some { t with sys := t.sys.goto (.batch []), todo := none }
    | _ => none
  | .sysEvent =>
    match t.sys.pc with
    | .sysEvent => some { t with sys := doSystemEvent cfg t.sys }
    | _ => none
  | .scan =>
    match t.sys.pc with
    | .scan (fd :: fds) del =>
      let r := scanFd t.sys fd
      some { t with sys := r.1.goto (.scan fds (if r.2 then del ++ [fd] else del)) }
    | _ => none
  | .scanEnd =>
    match t.sys.pc with
    -- `doKeepaliveTimeout` is commented out
    | .scan [] del =>
      some { t with sys := (del.foldl deleteSendMsgFromSendMap t.sys).goto .keepaliveSend }
    | _ => none
  | .shared a =>
    if isShared a then (Epoll.next cfg t.sys a).map fun s => { t with sys := s } else none

/-- **The Windows server**, from the state that `startup` leaves at time
`now`: `doListen` adds nothing to `m_socketmap`. -/
def wsaServer (now : ℤ) : Machine Loop LoopAction where
  init := { sys := Sys.init cfg now }
  next := next cfg

/-- **Every pass of the loop comes to `doAccept`**, in every run. -/
def AlwaysAccepts (now : ℤ) : Prop :=
  ∀ t, (wsaServer cfg now).Reachable t → t.todo = some [] → t.accepted = true

/-- **What a step does.** -/
inductive LoopStep (t : Loop) : LoopAction → Loop → Prop
  | passBegin {order} : LoopStep t (.passBegin order) ⟨t.sys, some order, false⟩
  | visit {fd fds io v} (htodo : t.todo = some (fd :: fds))
      (hv : Wsa.visit cfg none t.sys fd io = some v) :
    LoopStep t (.visit io) ⟨v.after, some fds, t.accepted || v.accepts cfg⟩
  | passEnd : LoopStep t .passEnd { t with sys := t.sys.goto (.batch []), todo := none }
  | sysEvent : LoopStep t .sysEvent { t with sys := doSystemEvent cfg t.sys }
  | scan (hist : List Record) (pc : Pc) :
    LoopStep t .scan { t with sys := { t.sys with hist := hist, pc := pc } }
  | scanEnd (del : List ℤ) :
    LoopStep t .scanEnd
      { t with sys := (del.foldl deleteSendMsgFromSendMap t.sys).goto .keepaliveSend }
  | shared {a s} (ha : isShared a = true) (hs : Step cfg t.sys a s) :
    LoopStep t (.shared a) { t with sys := s }

/-- No event names the listening descriptor: it is not closed. -/
def KeepsListening (_t : Loop) : LoopAction → Prop
  | .shared (.createCloseConnectEvent fd _) => fd ≠ cfg.listenfd
  | _ => True

/-- The descriptor an event is about. -/
def eventFd : NetEvent → ℤ
  | .closeClient fd _ => fd
  | .addClient sock => sock.key.fdkey

/-- **Nothing but the listening socket has its descriptor**: no entry of the
map, no thread that connects, and no event. -/
structure Unlisted (s : Sys) : Prop where
  listening : cfg.listenfd ∈ s.openfds
  entry : cfg.listenfd ∉ s.socketmap
  connecting : ∀ th, (s.connecting th).fd ≠ some cfg.listenfd
  events : ∀ e ∈ s.eventlist, eventFd e ≠ cfg.listenfd

variable {cfg} {s s' : Sys} {t t' : Loop} {a : LoopAction} {fd : ℤ}

/-! ## The steps, one by one -/

/-- **A step is one of the steps listed.** -/
theorem loopStep_of_next (hnext : next cfg t a = some t') : LoopStep cfg t a t' := by
  cases a with
  | passBegin order =>
    simp only [next] at hnext
    split at hnext
    · split at hnext
      · injection hnext with hnext
        exact hnext ▸ .passBegin
      · cases hnext
    · cases hnext
  | visit io =>
    simp only [next] at hnext
    split at hnext
    · obtain ⟨v, hv, rfl⟩ := Option.map_eq_some_iff.mp hnext
      exact .visit ‹_› hv
    · cases hnext
  | passEnd =>
    simp only [next] at hnext
    split at hnext
    · injection hnext with hnext
      exact hnext ▸ .passEnd
    · cases hnext
  | sysEvent =>
    simp only [next] at hnext
    split at hnext
    · injection hnext with hnext
      exact hnext ▸ .sysEvent
    · cases hnext
  | scan =>
    simp only [next] at hnext
    split at hnext
    · injection hnext with hnext
      subst hnext
      unfold scanFd
      split <;> exact .scan _ _
    · cases hnext
  | scanEnd =>
    simp only [next] at hnext
    split at hnext
    · injection hnext with hnext
      exact hnext ▸ .scanEnd _
    · cases hnext
  | shared a =>
    simp only [next] at hnext
    split at hnext
    · obtain ⟨s', hs', rfl⟩ := Option.map_eq_some_iff.mp hnext
      exact .shared ‹_› (step_of_next hs')
    · cases hnext

/-! ## The entries of the map -/

/-- The steps that are shared leave the connections alone. -/
theorem shared_socketmap {a : Action} (ha : isShared a = true) (hstep : Step cfg s a s') :
    s'.socketmap = s.socketmap := by
  cases hstep with
  | @ping ntype types _ =>
    obtain ⟨cur, allocs, recs, -, heq⟩ := sendMsgToServer_frame cfg s ntype keepaliveMsg
    rw [heq]
    rfl
  | @sendMsgToServer ntype m _ =>
    obtain ⟨cur, allocs, recs, -, heq⟩ := sendMsgToServer_frame cfg s ntype m
    rw [heq]
  | createCloseConnectEvent =>
    unfold createCloseConnectEvent
    split <;> rfl
  | flush | switchSendMap | keepaliveSend | pingEnd | addMsg | outQueue | start | startNot | socket
  | socketFail | connectFail | connectOk | publish | enqueue | enqueueFail => rfl
  | _ => cases ha

namespace Keyed

theorem addClientEvent (h : Keyed s) (sock : SocketSet) : Keyed (addClientEvent cfg s sock) := by
  unfold Wsa.addClientEvent createConnectServerMsg
  simp only [createConnectServerMsg_eq]
  refine Keyed.addClientToWSA (h.of_eq ?_) _
  rfl

theorem doSystemEvent (h : Keyed s) : Keyed (doSystemEvent cfg s) := by
  unfold Wsa.doSystemEvent
  split
  · exact h
  · rename_i fd conntime es _
    have hrest : Keyed (s.withEvents es) := h.of_eq rfl
    exact hrest.closeClient fd conntime
  · rename_i sock es _
    have hrest : Keyed (s.withEvents es) := h.of_eq rfl
    exact hrest.addClientEvent sock

theorem deleteSendMsgs (h : Keyed s) (del : List ℤ) :
    Keyed (del.foldl deleteSendMsgFromSendMap s) := by
  induction del generalizing s with
  | nil => exact h
  | cons fd del ih =>
    refine ih ?_
    rcases deleteSendMsg_cases s fd with heq | heq <;> rw [deleteSendMsgFromSendMap, heq]
    · exact h
    · exact h.of_eq rfl

/-- **A step keeps every entry under its descriptor.** -/
theorem step (h : Keyed t.sys) (hstep : LoopStep cfg t a t') : Keyed t'.sys := by
  cases hstep with
  | passBegin | passEnd | scan => exact h.of_eq rfl
  | @visit fd fds io v _ hv =>
    obtain ⟨-, -, -, -, hkeyed, -⟩ := visit_spec h hv
    exact hkeyed
  | sysEvent => exact h.doSystemEvent
  | scanEnd => exact h.deleteSendMsgs _
  | shared hshared hs => exact h.of_eq (shared_socketmap hshared hs)

/-- **In every run** an entry stands under its own descriptor, as what is
proved of a pass assumes. -/
theorem reachable {now : ℤ} (ht : (wsaServer cfg now).Reachable t) : Keyed t.sys := by
  refine ht.invariant (I := fun t => Keyed t.sys) (fun fd sock h => ?_)
    fun _ _ _ _ _ hnext h => h.step (loopStep_of_next hnext)
  have hempty : (∅ : IntMap (Option SocketSet)).lookup fd = some (some sock) := h
  rw [AList.lookup_empty] at hempty
  cases hempty

end Keyed

/-! ## The listening descriptor -/

namespace Unlisted

theorem of_eq (h : Unlisted cfg s) (hopen : s'.openfds = s.openfds)
    (hmap : s'.socketmap = s.socketmap) (hconn : s'.connecting = s.connecting)
    (hlst : s'.eventlist = s.eventlist) : Unlisted cfg s' where
  listening := hopen ▸ h.listening
  entry := hmap ▸ h.entry
  connecting := hconn ▸ h.connecting
  events := hlst ▸ h.events

theorem init (now : ℤ) : Unlisted cfg (Sys.init cfg now) where
  listening := Finset.mem_insert_self _ _
  entry := AList.notMem_empty _
  connecting := fun _ h => by cases h
  events := fun _ h => by cases h

/-- Closing another descriptor. -/
theorem closeClient (h : Unlisted cfg s) (hfd : fd ≠ cfg.listenfd) (conntime : ℤ) :
    Unlisted cfg (closeClient cfg s fd conntime) := by
  constructor <;> rw [closeClient_eq]
  · show cfg.listenfd ∈ if fd < 0 then s.openfds else s.openfds.erase fd
    split
    · exact h.listening
    · exact Finset.mem_erase.mpr ⟨hfd.symm, h.listening⟩
  · show cfg.listenfd ∉ if fd < 0 then s.socketmap else s.socketmap.erase fd
    split
    · exact h.entry
    · exact fun hmem => h.entry (AList.mem_erase.mp hmem).2
  · exact h.connecting
  · exact h.events

theorem closesocket (h : Unlisted cfg s) (hfd : fd ≠ cfg.listenfd) :
    Unlisted cfg (closesocket s fd) where
  listening := Finset.mem_erase.mpr ⟨hfd.symm, h.listening⟩
  entry := h.entry
  connecting := h.connecting
  events := h.events

/-- A connection comes up on another descriptor. -/
theorem addClientToWSA (h : Unlisted cfg s) {sock : SocketSet}
    (hfd : sock.key.fdkey ≠ cfg.listenfd) :
    Unlisted cfg (addClientToWSA s sock) := by
  unfold Wsa.addClientToWSA addSocketToMap
  by_cases hneg : sock.key.fdkey < 0
  · rw [if_pos hneg]
    exact h.closesocket hfd
  · rw [if_neg hneg]
    refine ⟨h.listening, fun hmem => ?_, h.connecting, h.events⟩
    rcases (AList.mem_insert _).mp hmem with heq | hmem
    · exact hfd heq.symm
    · exact h.entry hmem

theorem addClientEvent (h : Unlisted cfg s) {sock : SocketSet}
    (hfd : sock.key.fdkey ≠ cfg.listenfd) : Unlisted cfg (addClientEvent cfg s sock) := by
  unfold Wsa.addClientEvent createConnectServerMsg
  simp only [createConnectServerMsg_eq]
  refine addClientToWSA (h.of_eq ?_ ?_ ?_ ?_) hfd <;> rfl

theorem doSystemEvent (h : Unlisted cfg s) : Unlisted cfg (doSystemEvent cfg s) := by
  have hrest : ∀ e es, s.eventlist = e :: es →
      Unlisted cfg (s.withEvents es) ∧ eventFd e ≠ cfg.listenfd := by
    intro e es hlst
    have hevents := h.events
    rw [hlst] at hevents
    exact ⟨⟨h.listening, h.entry, h.connecting,
      fun e' he' => hevents e' (List.mem_cons_of_mem _ he')⟩, hevents e List.mem_cons_self⟩
  unfold Wsa.doSystemEvent
  split
  · exact h.of_eq rfl rfl rfl rfl
  · rename_i fd conntime es hlst
    obtain ⟨hs, hfd⟩ := hrest _ es hlst
    exact hs.closeClient hfd conntime
  · rename_i sock es hlst
    obtain ⟨hs, hfd⟩ := hrest _ es hlst
    exact hs.addClientEvent hfd

theorem deleteSendMsg (h : Unlisted cfg s) (fd : ℤ) :
    Unlisted cfg (Epoll.deleteSendMsgFromSendMap s fd) := by
  rcases deleteSendMsg_cases s fd with heq | heq <;> rw [heq]
  · exact h
  · exact h.of_eq rfl rfl rfl rfl

theorem deleteSendMsgs (h : Unlisted cfg s) (del : List ℤ) :
    Unlisted cfg (del.foldl deleteSendMsgFromSendMap s) := by
  induction del generalizing s with
  | nil => exact h
  | cons fd del ih => exact ih (h.deleteSendMsg fd)

/-- The receive step of the connection on `fd`. -/
theorem doRecvMessage (h : Unlisted cfg s) (hk : Keyed s) {sock : SocketSet} {io : Io}
    (hsock : s.socketmap.lookup fd = some (some sock))
    (hs' : doRecvMessage cfg s sock.key io = some s') : Unlisted cfg s' := by
  obtain ⟨hkey, -⟩ := hk fd sock hsock
  have hne : fd ≠ cfg.listenfd := fun heq => h.entry (heq ▸ IntMap.mem_of_lookup hsock)
  have hreceived : Unlisted cfg (received s fd sock
      (Network.recvMessage cfg.host cfg.recvbuflen io.now sock io.recvs)) := by
    refine ⟨h.listening, fun hmem => ?_, h.connecting, h.events⟩
    rcases (AList.mem_insert _).mp hmem with heq | hmem
    · exact hne heq.symm
    · exact h.entry hmem
  unfold Wsa.doRecvMessage at hs'
  rw [hkey, hsock] at hs'
  simp only [ne_eq, not_true_eq_false, if_false, recvMessage_eq] at hs'
  split at hs' <;> injection hs' with hs' <;> subst hs'
  · exact hreceived
  · exact hreceived
  · exact hreceived.closeClient hne _
  · exact hreceived.closeClient hne _

/-- **A visit** is of another descriptor, and leaves the listening one
alone. -/
theorem visit (h : Unlisted cfg s) (hk : Keyed s) {io : VisitIo} {v : Visit}
    (hv : visit cfg none s fd io = some v) : v.accepts cfg = false ∧ Unlisted cfg v.after := by
  have hne : fd ∈ s.socketmap → fd ≠ cfg.listenfd := fun hmem heq => h.entry (heq ▸ hmem)
  obtain ⟨hfd, -, hbefore, -⟩ := visit_spec hk hv
  have hmem : fd ∈ s.socketmap ∧ Unlisted cfg v.after := by
    unfold Wsa.visit at hv
    split at hv
    · cases hv
    · rename_i hnull
      injection hv with hv
      exact ⟨IntMap.mem_of_lookup hnull, hv ▸ h⟩
    · rename_i sock hsock
      have hin := IntMap.mem_of_lookup hsock
      rw [if_neg (hne hin).symm] at hv
      obtain ⟨s', hs', hv⟩ := Option.bind_eq_some_iff.mp hv
      simp only [doSendMessage, Bool.false_eq_true, if_false, Option.some.injEq] at hv
      subst hv
      exact ⟨hin, h.doRecvMessage hk hsock hs'⟩
  refine ⟨?_, hmem.2⟩
  rw [Visit.accepts, hfd, decide_eq_false_iff_not]
  exact fun hand => hne hmem.1 hand.1

/-- What a connecting thread has is not the listening socket. -/
theorem atConnect (h : Unlisted cfg s) (th : ℕ) {c : ConnectPc} (hc : c.fd ≠ some cfg.listenfd) :
    Unlisted cfg (s.atConnect th c) where
  listening := h.listening
  entry := h.entry
  connecting := fun th' => by
    show (Function.update s.connecting th c th').fd ≠ some cfg.listenfd
    rw [Function.update_apply]
    split
    · exact hc
    · exact h.connecting th'
  events := h.events

/-- `close` by a connecting thread. -/
theorem close (h : Unlisted cfg s) (hfd : fd ≠ cfg.listenfd) : Unlisted cfg (s.close fd) :=
  (h.closesocket hfd).of_eq rfl rfl rfl rfl

/-- An event is queued. -/
theorem withEvent (h : Unlisted cfg s) {e : NetEvent} (he : eventFd e ≠ cfg.listenfd) :
    Unlisted cfg (s.withEvents (s.eventlist ++ [e])) where
  listening := h.listening
  entry := h.entry
  connecting := h.connecting
  events := fun e' he' => by
    rcases List.mem_append.mp he' with he' | he'
    · exact h.events e' he'
    · rw [List.mem_singleton.mp he']
      exact he

/-- **The steps that the two servers share.** The descriptor a connecting
thread gets is not open, so it is not the listening one. -/
theorem shared (h : Unlisted cfg s) {a : Action} (ha : isShared a = true)
    (hok : ∀ fd conntime, a = .createCloseConnectEvent fd conntime → fd ≠ cfg.listenfd)
    (hstep : Step cfg s a s') : Unlisted cfg s' := by
  have hfd : ∀ {th fd}, (s.connecting th).fd = some fd → fd ≠ cfg.listenfd :=
    fun hth heq => h.connecting _ (heq ▸ hth)
  have hnone : ∀ {c : ConnectPc}, c.fd = none → c.fd ≠ some cfg.listenfd :=
    fun hc heq => by rw [hc] at heq; cases heq
  cases hstep with
  | flush | switchSendMap | keepaliveSend | pingEnd | addMsg | outQueue =>
    exact h.of_eq rfl rfl rfl rfl
  | @ping ntype types _ =>
    obtain ⟨cur, allocs, recs, -, heq⟩ := sendMsgToServer_frame cfg s ntype keepaliveMsg
    rw [heq]
    exact h.of_eq rfl rfl rfl rfl
  | @sendMsgToServer ntype m _ =>
    obtain ⟨cur, allocs, recs, -, heq⟩ := sendMsgToServer_frame cfg s ntype m
    rw [heq]
    exact h.of_eq rfl rfl rfl rfl
  | @createCloseConnectEvent fd conntime _ =>
    unfold createCloseConnectEvent
    split
    · exact h
    · exact h.withEvent (hok fd conntime rfl)
  | startNot => exact h
  | start | socketFail => exact h.atConnect _ (hnone rfl)
  | @socket th ntype fd _ _ hopen =>
    have hne : fd ≠ cfg.listenfd := fun heq => hopen (heq ▸ h.listening)
    have hopened : Unlisted cfg (s.opened fd) :=
      ⟨Finset.mem_insert_of_mem h.listening, h.entry, h.connecting, h.events⟩
    refine hopened.atConnect th fun heq => hne ?_
    simpa [ConnectPc.fd] using heq
  | @connectFail th ntype fd hpc =>
    exact (h.close (hfd (by rw [hpc]; rfl))).atConnect th (hnone rfl)
  | @connectOk th ntype fd conntime now hpc ip port =>
    have hne : fd ≠ cfg.listenfd := hfd (by rw [hpc]; rfl)
    have hcounted : Unlisted cfg { s with attempts := s.attempts + 1 } := h.of_eq rfl rfl rfl rfl
    refine hcounted.atConnect th fun heq => hne ?_
    simpa [ConnectPc.fd, initSocketset] using heq
  | @publish th sock hpc _ =>
    have hset : Unlisted cfg (s.setServerSocket sock.key.fdkey sock.key.connectTime sock.peerIp
        sock.peerPort sock.type sock.attempt false) := h.of_eq rfl rfl rfl rfl
    exact hset.atConnect th fun heq => h.connecting th (by rw [hpc]; exact heq)
  | @enqueue th sock hpc _ _ =>
    exact (h.withEvent (e := .addClient sock) (hfd (by rw [hpc]; rfl))).atConnect th (hnone rfl)
  | @enqueueFail th sock hpc _ _ =>
    have hset : Unlisted cfg (s.setServerSocket (-1) 0 "" 0 1 0 false) := h.of_eq rfl rfl rfl rfl
    exact (hset.close (hfd (by rw [hpc]; rfl))).atConnect th (hnone rfl)
  | _ => cases ha

end Unlisted

/-! ## The loop never accepts -/

/-- **A step of the server.** -/
theorem unlisted_step (h : Unlisted cfg t.sys ∧ t.accepted = false) (hk : Keyed t.sys)
    (hok : KeepsListening cfg t a) (hstep : LoopStep cfg t a t') :
    Unlisted cfg t'.sys ∧ t'.accepted = false := by
  obtain ⟨hs, hacc⟩ := h
  cases hstep with
  | passBegin => exact ⟨hs, rfl⟩
  | @visit fd fds io v _ hv =>
    obtain ⟨hnot, hafter⟩ := hs.visit hk hv
    exact ⟨hafter, by rw [hacc, hnot]; rfl⟩
  | passEnd | scan => exact ⟨hs.of_eq rfl rfl rfl rfl, hacc⟩
  | sysEvent => exact ⟨hs.doSystemEvent, hacc⟩
  | scanEnd => exact ⟨(hs.deleteSendMsgs _).of_eq rfl rfl rfl rfl, hacc⟩
  | shared hshared hnext =>
    refine ⟨hs.shared hshared ?_ hnext, hacc⟩
    rintro fd conntime rfl
    exact hok

/-- **A run** in which nobody asks to close the listening socket. -/
theorem unlisted_of_reach {now : ℤ} (ht : (wsaServer cfg now).Reach (KeepsListening cfg) t) :
    Unlisted cfg t.sys ∧ t.accepted = false :=
  ht.invariant (I := fun t => Unlisted cfg t.sys ∧ t.accepted = false) ⟨.init now, rfl⟩
    fun _ _ _ hs hok hnext h =>
      unlisted_step h (Keyed.reachable hs.reachable) hok (loopStep_of_next hnext)

/-- **The first pass after `startup`** visits nothing. -/
theorem first_pass (cfg : Config) (now : ℤ) :
    ∃ t, (wsaServer cfg now).Reachable t ∧ t.todo = some [] ∧ t.accepted = false :=
  ⟨_, .step .start trivial rfl (a := .passBegin []), rfl, rfl⟩

/-- **The Windows server accepts nobody.** Its loop does not come to
`doAccept` in every pass, and as long as nobody asks to close the listening
socket it comes to it in none. -/
theorem never_accepts (cfg : Config) (now : ℤ) :
    ¬ AlwaysAccepts cfg now ∧
      ∀ t, (wsaServer cfg now).Reach (KeepsListening cfg) t → t.accepted = false := by
  refine ⟨fun hall => ?_, fun t ht => ?_⟩
  · obtain ⟨t, ht, htodo, hnot⟩ := first_pass cfg now
    rw [hall t ht htodo] at hnot
    cases hnot
  · exact (unlisted_of_reach ht).2

/-- A pass that ends without a `doAccept`. -/
theorem not_alwaysAccepts : ¬ ∀ (cfg : Config) (now : ℤ), AlwaysAccepts cfg now := by
  intro hall
  obtain ⟨t, ht, htodo, hnot⟩ := first_pass smallConfig 0
  rw [hall smallConfig 0 t ht htodo] at hnot
  cases hnot

end Wsa

end EupuServer
