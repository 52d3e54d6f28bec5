import EupuServer.Epoll.Feed
import EupuServer.Epoll.Fifo
import EupuServer.Epoll.Replies
/-!
# Two servers and the stream between them

One server sends, another receives, and between them is the stream of one
connection, which hands the bytes on in the order they were written. Each
server takes its own steps; what a `recv` of the receiver gets is what comes
next in the stream. What the receiver has made of the stream are frames and
a tail (`Fed`), and what the sender has written are the messages it accepted
for the connection, so the frames the receiver hands to its workers are the
first of these messages (`frames_prefix_accepted`).
-/

namespace EupuServer

namespace Epoll

open Network Protocol

/-! ## The link -/

/-- **Two servers and the stream between them**; `taken` is what the receiver
took off the stream. -/
structure Link where
  sender : Sys
  receiver : Sys
  taken : List UInt8

/-- A step of one of the two. -/
inductive LinkAction
  | sender (a : Action)
  | receiver (a : Action)

/-- **A step of the link.** The connection is `(fd, t)` for the sender and
`id` for the receiver. What the receiver takes comes next in the stream. -/
def Link.next (cfg cfg' : Config) (fd t : ℤ) (id : ℕ) (l : Link) : LinkAction → Option Link
  | .sender a => (Epoll.next cfg l.sender a).map fun s => { l with sender := s }
  | .receiver a =>
    let taken := l.taken ++ takenBy cfg' id l.receiver a
    if taken <+: writtenBytes fd t l.sender.hist then
      (Epoll.next cfg' l.receiver a).map fun s => { l with receiver := s, taken := taken }
    else none

/-- The link, from the states that the two `startup` leave. -/
def link (cfg cfg' : Config) (fd t : ℤ) (id : ℕ) (now now' : ℤ) : Machine Link LinkAction where
  init := ⟨Sys.init cfg now, Sys.init cfg' now', []⟩
  next := Link.next cfg cfg' fd t id

/-- What is queued is a frame, as all is that `createFrame` makes. -/
def framed : Action → Bool
  | .addMsg d => netFraming.verdict d.bytes = .frame d.bytes.length
  | .sendMsgToServer _ m => m.nlen + netHeadSize < 2 ^ 32
  | _ => true

/-- **The condition on a step**: the sender keeps the order of sending and
queues frames, and the receiver loses no tail of its buffer. -/
def Conveys (cfg cfg' : Config) (fd t : ℤ) (id : ℕ) (l : Link) : LinkAction → Prop
  | .sender a => SendsInOrder cfg fd t l.sender a ∧ framed a = true
  | .receiver a => ∀ x ∈ readsOf cfg' id l.receiver a,
      KeepsTails cfg'.recvbuflen (scriptWeight x.2.recvs + 1) x.1.tail x.2.recvs

instance (cfg cfg' : Config) (fd t : ℤ) (id : ℕ) (l : Link) :
    DecidablePred (Conveys cfg cfg' fd t id l) := fun a => by
  cases a <;> unfold Conveys <;> infer_instance

variable {cfg cfg' : Config} {s s' s'' : Sys} {a : Action} {fd t : ℤ} {id : ℕ}

/-! ## What is sent -/

/-- The messages that were accepted for `(fd, t)`, as bytes. -/
def acceptedFrames (fd t : ℤ) (hist : List Record) : List (List UInt8) :=
  hist.filterMap fun r =>
    match r with
    | .accepted p => if Addressed fd t p then some p.obj.bytes else none
    | _ => none

/-- What was accepted, message by message and as bytes. -/
theorem flatten_acceptedFrames (hist : List Record) :
    (acceptedFrames fd t hist).flatten = acceptedBytes fd t hist := by
  induction hist with
  | nil => rfl
  | cons r rs ih =>
    unfold acceptedFrames acceptedBytes at ih ⊢
    rw [List.filterMap_cons, List.flatMap_cons, ← ih]
    cases r with
    | accepted p =>
      by_cases haddr : Addressed fd t p <;> simp [bytesFor, haddr]
    | _ => rfl

/-- A frame that was accepted is that of a message. -/
theorem accepted_of_mem {hist : List Record} {f : List UInt8} (hf : f ∈ acceptedFrames fd t hist) :
    ∃ p, .accepted p ∈ hist ∧ Addressed fd t p ∧ p.obj.bytes = f := by
  obtain ⟨r, hr, hsome⟩ := List.mem_filterMap.mp hf
  split at hsome
  · split at hsome
    · injection hsome with hsome
      exact ⟨_, hr, ‹_›, hsome⟩
    · cases hsome
  · cases hsome

/-- What was accepted are frames. -/
def FramesAccepted (s : Sys) : Prop :=
  ∀ p, .accepted p ∈ s.hist → netFraming.verdict p.obj.bytes = .frame p.obj.bytes.length

theorem FramesAccepted.verdict (h : FramesAccepted s) :
    ∀ f ∈ acceptedFrames fd t s.hist, netFraming.verdict f = .frame f.length := by
  intro f hf
  obtain ⟨p, hp, -, rfl⟩ := accepted_of_mem hf
  exact h p hp

/-- Nothing is accepted on the way from `s` to `s'`. -/
def NoneAccepted (s s' : Sys) : Prop :=
  ∃ recs, s'.hist = s.hist ++ recs ∧ ∀ p, .accepted p ∉ recs

namespace NoneAccepted

theorem of_recs (recs : List Record) (hhist : s'.hist = s.hist ++ recs)
    (hrecs : ∀ p, .accepted p ∉ recs) : NoneAccepted s s' := ⟨recs, hhist, hrecs⟩

theorem of_eq (hhist : s'.hist = s.hist) : NoneAccepted s s' :=
  ⟨[], by rw [hhist, List.append_nil], by simp⟩

theorem trans (h : NoneAccepted s s') (h' : NoneAccepted s' s'') : NoneAccepted s s'' := by
  obtain ⟨recs, hhist, hrecs⟩ := h
  obtain ⟨recs', hhist', hrecs'⟩ := h'
  refine ⟨recs ++ recs', by rw [hhist', hhist, List.append_assoc], fun p hp => ?_⟩
  exact (List.mem_append.mp hp).elim (hrecs p) (hrecs' p)

/-- What was accepted was accepted before. -/
theorem accepted (h : NoneAccepted s s') {p : NetDataPtr} (hp : .accepted p ∈ s'.hist) :
    .accepted p ∈ s.hist := by
  obtain ⟨recs, hhist, hrecs⟩ := h
  exact (List.mem_append.mp (hhist ▸ hp)).resolve_right (hrecs p)

/-- No frame is accepted for `(fd, t)`. -/
theorem acceptedFrames_eq (h : NoneAccepted s s') (fd t : ℤ) :
    acceptedFrames fd t s'.hist = acceptedFrames fd t s.hist := by
  obtain ⟨recs, hhist, hrecs⟩ := h
  have hnone : acceptedFrames fd t recs = [] := by
    refine List.filterMap_eq_nil_iff.mpr ?_
    rintro (_ | _ | p | _ | _ | _ | _) hr <;> try rfl
    exact absurd hr (hrecs p)
  rw [hhist, acceptedFrames, List.filterMap_append]
  exact (congrArg _ hnone).trans (List.append_nil _)

theorem closeClient (k conntime : ℤ) : NoneAccepted s (closeClient cfg s k conntime) :=
  of_recs _ (closeClient_hist conntime) (by simp [closeNotes])

theorem deleteSendMsg (k : ℤ) : NoneAccepted s (deleteSendMsgFromSendMap s k) := by
  rcases deleteSendMsg_cases s k with heq | heq
  · rw [heq]
    exact of_eq rfl
  · rw [heq]
    exact of_recs _ rfl (by simp)

theorem sentFrom (k : ℤ) (key : SocketKey) (sends : List SendResult) (lst : List NetDataPtr) :
    NoneAccepted s (sentFrom s k (sendLoop key sends lst)) := by
  refine of_recs _ rfl fun p hp => ?_
  rcases sendLoop_recs hp with ⟨_, _, h, -⟩ | ⟨_, -, ⟨h, -⟩ | ⟨h, -⟩⟩ <;> cases h

theorem addClientToEpoll (sock : SocketSet) (ctlOk : Bool) :
    NoneAccepted s (addClientToEpoll cfg s sock ctlOk) := by
  rcases addClientToEpoll_cases cfg s sock ctlOk with ⟨-, es, heq, -⟩ | ⟨-, heq⟩ <;> rw [heq] <;>
    exact of_eq rfl

theorem born (sock : SocketSet) : NoneAccepted s (born s sock) :=
  of_recs [.index (s.calls + 1) sock.key.fdkey (newConn s sock).key.connectTime sock.attempt,
    .note (s.calls + 1) .connected] (List.append_assoc _ _ _) (by simp)

end NoneAccepted

/-- **No handler accepts a message.** -/
theorem Effect.noneAccepted (h : Effect cfg s s') : NoneAccepted s s' := by
  cases h with
  | close k conntime => exact .closeClient k conntime
  | recv => exact .of_recs _ rfl (by simp)
  | send => exact .sentFrom _ _ _ _
  | @sendAll k sock lst sends =>
    have hsent : NoneAccepted s (sentFrom s k (sendLoop sock.key sends lst)) := .sentFrom _ _ _ _
    exact hsent.trans (.of_eq rfl)
  | @sendFail k sock lst sends conntime =>
    have hsent : NoneAccepted s (sentFrom s k (sendLoop sock.key sends lst)) := .sentFrom _ _ _ _
    exact (hsent.trans (.deleteSendMsg k)).trans (.closeClient k conntime)
  | drop => exact .deleteSendMsg _
  | endDeref => exact .of_recs _ rfl (by simp)
  | dropNull | mod | closeNull => exact .of_eq rfl

theorem Effects.noneAccepted (h : Effects cfg s s') : NoneAccepted s s' :=
  h.invariant (I := NoneAccepted s) (fun _ _ heff hs => hs.trans heff.noneAccepted) (.of_eq rfl)

/-- The steps that may accept a message. -/
def Action.mayAccept : Action → Bool
  | .ping | .addMsg _ | .sendMsgToServer _ _ => true
  | _ => false

/-- **No other step accepts a message.** -/
theorem Step.noneAccepted (h : Step cfg s a s') (ha : a.mayAccept = false) : NoneAccepted s s' := by
  cases h with
  | event => exact (handleEvent_effects s _ _).noneAccepted
  | @acceptConn evs k ip port b₁ b₂ b₃ b₄ now ctlOk =>
    rcases acceptConn_cases cfg s k ip port b₁ b₂ b₃ b₄ now ctlOk with heq | ⟨-, heq⟩
    · rw [heq]
      exact .of_eq rfl
    · rw [heq]
      have hborn : NoneAccepted s (born (s.opened k) (newClient k ip port now)) := .born _
      exact hborn.trans (.addClientToEpoll _ _)
  | @sysClose k conntime es =>
    have hclose : NoneAccepted (s.withEvents es) (closeClient cfg (s.withEvents es) k conntime) :=
      .closeClient k conntime
    exact hclose
  | @sysAdd sock es =>
    rw [addClientEvent_eq]
    have hborn : NoneAccepted (s.withEvents es) (born (s.withEvents es) sock) := .born sock
    exact hborn
  | register => exact .addClientToEpoll _ _
  | scan => exact (scanFd_effects s _ _).noneAccepted
  | @scanEnd del =>
    exact deleteSendMsgs_invariant (I := NoneAccepted s) del
      (fun _ k _ hs => hs.trans (.deleteSendMsg k)) (.of_eq rfl)
  | sweep => exact (sweepFd_effects s _).noneAccepted
  | ping | addMsg | sendMsgToServer => cases ha
  | createCloseConnectEvent =>
    unfold Epoll.createCloseConnectEvent
    split <;> exact .of_eq rfl
  | epollWait | listen | acceptFail | flush | sysEnd | switchSendMap | keepalive | sweepEnd
  | keepaliveSend | pingEnd | outQueue | start | startNot | socket | socketFail | connectFail
  | connectOk | publish | enqueue | enqueueFail => exact .of_eq rfl

namespace FramesAccepted

theorem of_none (h : FramesAccepted s) (hnone : NoneAccepted s s') : FramesAccepted s' :=
  fun p hp => h p (hnone.accepted hp)

/-- A frame is accepted, or refused. -/
theorem addMsg (h : FramesAccepted s) {d : NetData}
    (hd : netFraming.verdict d.bytes = .frame d.bytes.length) :
    FramesAccepted (addMsg cfg s d).2 := by
  unfold Epoll.addMsg
  simp only
  intro p hp
  split at hp
  · rcases List.mem_append.mp hp with hp | hp
    · exact h p hp
    · rw [List.mem_singleton] at hp
      injection hp with hp
      exact hp ▸ hd
  · exact h p hp

theorem sendMsgToServer (h : FramesAccepted s) (ntype : ℤ) {m : ServerMsg}
    (hm : m.nlen + netHeadSize < 2 ^ 32) : FramesAccepted (sendMsgToServer cfg s ntype m) := by
  unfold Epoll.sendMsgToServer
  split
  · exact h
  · split
    · split
      · exact h
      · rename_i d hd
        have hadd : FramesAccepted (Epoll.addMsg cfg s d).2 := h.addMsg (createFrame_frame hm hd)
        simp only
        split
        · exact hadd.of_none (.of_recs _ rfl (by simp))
        · exact hadd
    · exact h

/-- **A step accepts frames.** -/
theorem step (h : FramesAccepted s) (hframed : framed a = true) (hstep : Step cfg s a s') :
    FramesAccepted s' := by
  by_cases ha : a.mayAccept = false
  · exact h.of_none (hstep.noneAccepted ha)
  · cases hstep with
    | ping => exact h.sendMsgToServer _ (m := keepaliveMsg) (by decide)
    | addMsg => exact h.addMsg (of_decide_eq_true hframed)
    | sendMsgToServer => exact h.sendMsgToServer _ (of_decide_eq_true hframed)
    | _ => exact absurd rfl ha

end FramesAccepted

/-- **The order of sending holds** in every state of a run that keeps it. -/
theorem FifoAt.of_reach {now : ℤ} (hint : cfg.maxSendList < 2 ^ 31)
    (h : (server cfg now).Reach (SendsInOrder cfg fd t) s) (hcalls : s.calls < 2 ^ 32 - 2) :
    FifoAt fd t s := by
  have hinv : s.calls < 2 ^ 32 - 2 → FifoAt fd t s := by
    refine h.invariant (I := fun s => s.calls < 2 ^ 32 - 2 → FifoAt fd t s) ?_ ?_
    · exact fun _ => .of_fifo ⟨List.prefix_rfl, fun _ => rfl, fun _ => ⟨rfl, rfl⟩⟩ nofun
    · intro s a s' hreach hok hnext ih hcalls
      have hle := (step_of_next hnext).calls_le
      exact (ih (by omega)).step hint (Wf.reachable hreach.reachable)
        (Scanned.reachable hreach.reachable) hcalls hnext hok
  exact hinv hcalls

/-! ## From the one to the other -/

/-- **What holds of the link**: each server runs, and what the receiver took
is the front of what the sender wrote. -/
structure Linked (cfg cfg' : Config) (fd t : ℤ) (id : ℕ) (now now' : ℤ) (l : Link) : Prop where
  sender : (server cfg now).Reach (SendsInOrder cfg fd t) l.sender
  receiver : (server cfg' now').Reachable l.receiver
  frames : FramesAccepted l.sender
  stream : l.taken <+: writtenBytes fd t l.sender.hist
  fed : Fed id l.taken l.receiver

namespace Linked

variable {now now' : ℤ} {l l' : Link} {b : LinkAction}

theorem init : Linked cfg cfg' fd t id now now' (link cfg cfg' fd t id now now').init where
  sender := .start
  receiver := .start
  frames p hp := by cases hp
  stream := List.nil_prefix
  fed := ⟨by simp [framesOf, link, Sys.init], List.nil_prefix, nofun, nofun, fun _ => ⟨rfl, rfl⟩⟩

/-- **A step of either server keeps it.** -/
theorem step (h : Linked cfg cfg' fd t id now now' l) (hok : Conveys cfg cfg' fd t id l b)
    (hnext : l.next cfg cfg' fd t id b = some l') : Linked cfg cfg' fd t id now now' l' := by
  cases b with
  | sender a =>
    obtain ⟨hsends, hframed⟩ := hok
    obtain ⟨s, hs, rfl⟩ := Option.map_eq_some_iff.mp hnext
    obtain ⟨recs, hrecs, -⟩ := (step_of_next hs).sendsAddressed
    refine ⟨.step h.sender hsends hs, h.receiver,
      h.frames.step hframed (step_of_next hs), ?_, h.fed⟩
    -- the history only grows
    refine h.stream.trans ?_
    rw [hrecs, writtenBytes_append]
    exact List.prefix_append _ _
  | receiver a =>
    simp only [Link.next] at hnext
    split at hnext
    · rename_i hstream
      obtain ⟨s, hs, rfl⟩ := Option.map_eq_some_iff.mp hnext
      exact ⟨h.sender, .step h.receiver trivial hs, h.frames, hstream,
        h.fed.step (Wf.reachable h.receiver) (PartsFit.reachable h.receiver)
          (Unread.reachable h.receiver) hok hs⟩
    · cases hnext

theorem of_reach (h : (link cfg cfg' fd t id now now').Reach (Conveys cfg cfg' fd t id) l) :
    Linked cfg cfg' fd t id now now' l :=
  h.invariant init fun _ _ _ _ hok hnext hl => hl.step hok hnext

/-- The frames the receiver records are the first of those that were
accepted. -/
theorem frames_front (h : Linked cfg cfg' fd t id now now' l) (hint : cfg.maxSendList < 2 ^ 31)
    (hcalls : l.sender.calls < 2 ^ 32 - 2) :
    framesOf id l.receiver.hist <+: acceptedFrames fd t l.sender.hist := by
  have hwritten := (FifoAt.of_reach hint h.sender hcalls).written
  rw [← flatten_acceptedFrames] at hwritten
  obtain ⟨zs, hzs⟩ := (h.fed.front.trans h.stream).trans hwritten
  refine (Framing.frames_of_append [] zs h.fed.whole h.frames.verdict ?_).1
  rw [List.append_nil, hzs]

end Linked

end Epoll

end EupuServer
