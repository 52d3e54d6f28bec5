import EupuServer.Epoll.Link
import EupuServer.Epoll.Rounds
import EupuServer.Worker.Header
import EupuServer.Worker.Notified
/-!
# The user centre server

The epoll thread and the one worker of `usercentersvr`, which calls no other
server. The worker takes a message from the receive queue, answers it with
`KEEP_ALIVE_PING`, passes over it or has its connection closed. Whatever is
done to a connection has a cause in what the worker was told of it: an answer
the connection itself or a ping (`replies_asked`), and a `CLOSE_CLIENT` event
a frame of no known kind (`Serves.of_reach`).
-/

namespace EupuServer

namespace Worker

open Bytes Protocol Network Epoll

/-! ## The machine -/

/-- Where the worker is in the loop of `CWorkBaseThread::run`. -/
inductive WorkPlace
  | outQueue
  | processMessage (pdata : NetData)
  | createCloseConnectEvent (pdata : NetData)
  deriving DecidableEq, Repr

/-- **The server and its worker.** -/
structure Service where
  sys : Sys
  work : WorkPlace

/-- A step of the epoll thread, or of the worker. -/
inductive ServiceAction
  | epoll (a : Action)
  | outQueue
  | processMessage
  | createCloseConnectEvent

/-- **A step.** The poll in front of `outQueue` chooses when it is called. -/
def Service.next (cfg : Config) (v : Service) : ServiceAction → Option Service
  | .epoll a =>
    if a.ofEpoll then (Epoll.next cfg v.sys a).map fun s => { v with sys := s } else none
  | .outQueue =>
    match v.work, v.sys.recvlist with
    | .outQueue, pdata :: _ =>
      (Epoll.next cfg v.sys .outQueue).map fun s => ⟨s, .processMessage pdata⟩
    | _, _ => none
  | .processMessage =>
    match v.work with
    | .processMessage pdata =>
      let r := processMessage cfg v.sys pdata
      some ⟨r.2, if r.1 < 0 then .createCloseConnectEvent pdata else .outQueue⟩
    | _ => none
  | .createCloseConnectEvent =>
    match v.work with
    | .createCloseConnectEvent pdata =>
      (Epoll.next cfg v.sys (.createCloseConnectEvent pdata.fddat pdata.connectTime)).map fun s =>
        ⟨s, .outQueue⟩
    | _ => none

/-- The service, from the state that `initSystem` leaves. -/
def service (cfg : Config) (now : ℤ) : Machine Service ServiceAction where
  init := ⟨Sys.init cfg now, .outQueue⟩
  next := Service.next cfg

variable {cfg : Config} {now : ℤ} {s s' : Sys} {v v' : Service} {a : ServiceAction}

/-- **What a step does**: the inversion of `Service.next`. -/
inductive ServiceStep (cfg : Config) (v : Service) : ServiceAction → Service → Prop
  | epoll {a : Action} {s' : Sys} (ha : a.ofEpoll = true)
      (hnext : Epoll.next cfg v.sys a = some s') :
    ServiceStep cfg v (.epoll a) ⟨s', v.work⟩
  | outQueue {pdata : NetData} {ds : List NetData} (hwork : v.work = .outQueue)
      (hlst : v.sys.recvlist = pdata :: ds) :
    ServiceStep cfg v .outQueue ⟨{ v.sys with recvlist := ds }, .processMessage pdata⟩
  | processMessage {pdata : NetData} (hwork : v.work = .processMessage pdata) :
    ServiceStep cfg v .processMessage ⟨(processMessage cfg v.sys pdata).2,
      if (processMessage cfg v.sys pdata).1 < 0 then .createCloseConnectEvent pdata else .outQueue⟩
  | close {pdata : NetData} (hwork : v.work = .createCloseConnectEvent pdata)
      (hlock : v.sys.eventsLocked = false) :
    ServiceStep cfg v .createCloseConnectEvent
      ⟨createCloseConnectEvent v.sys pdata.fddat pdata.connectTime, .outQueue⟩

theorem serviceStep_of_next (h : v.next cfg a = some v') : ServiceStep cfg v a v' := by
  cases a with
  | epoll a =>
    simp only [Service.next] at h
    split at h
    · obtain ⟨s, hs, rfl⟩ := Option.map_eq_some_iff.mp h
      exact .epoll ‹_› hs
    · cases h
  | outQueue =>
    simp only [Service.next] at h
    split at h
    · rename_i hwork hlst
      simp only [Epoll.next, hlst, Option.map_some, Option.some.injEq] at h
      exact h ▸ .outQueue hwork hlst
    · cases h
  | processMessage =>
    simp only [Service.next] at h
    split at h
    · injection h with h
      exact h ▸ .processMessage ‹_›
    · cases h
  | createCloseConnectEvent =>
    simp only [Service.next] at h
    split at h
    · rename_i hwork
      simp only [Epoll.next] at h
      split at h
      · cases h
      · rename_i hlock
        rw [Option.map_some, Option.some.injEq] at h
        exact h ▸ .close hwork (by simpa using hlock)
    · cases h

/-! ## What `processMessage` does for a client -/

/-- The branches that answer with `KEEP_ALIVE_PING`. -/
def Branch.answers : Branch → Bool
  | .connected | .keepAlivePing => true
  | _ => false

/-- The branches that have the connection closed. -/
def Branch.closes : Branch → Bool
  | .parseFailed | .c2sData | .invalid => true
  | _ => false

/-- The bytes of the answer: a header and no body. -/
def pingBytes : List UInt8 := [0, 8, 0, 20, 0, 0, 0, 0]

/-- A message without a body is built, where its descriptor is one. -/
theorem createFrame_isSome (host : Host) {r : SendRequest} (hstream : r.pstream = none)
    (hfd : 0 ≤ r.fd) (hlen : r.nlen + netHeadSize < 2 ^ 32) : (createFrame host r).isSome := by
  have halloc : r.alloc.dataLen = netHeadSize := by
    rw [r.alloc_dataLen hlen, SendRequest.room, hstream]
    rfl
  unfold createFrame SendRequest.withBody
  rw [if_neg (not_lt.mpr hfd)]
  simp only [hstream]
  rw [if_neg (by rw [halloc]; decide), if_neg (by rw [halloc]; decide),
    NetMessageHead.out_eq _ (by unfold netHeadSize; omega), if_pos (le_refl _)]
  rfl

/-- The answer to `pdata` is built, and is addressed as `pdata` is. -/
theorem createFrame_keepaliveReply (host : Host) {pdata : NetData} (hfd : 0 ≤ pdata.fddat) :
    ∃ d, createFrame host (keepaliveReply pdata) = some d ∧ d.fddat = pdata.fddat ∧
      d.connectTime = pdata.connectTime ∧ d.bytes = pingBytes := by
  have hlen : (keepaliveReply pdata).nlen + netHeadSize < 2 ^ 32 := by
    have hnlen : (keepaliveReply pdata).nlen = 0 := rfl
    rw [hnlen]
    decide
  have hsome : (createFrame host (keepaliveReply pdata)).isSome :=
    createFrame_isSome host rfl hfd hlen
  obtain ⟨d, hd⟩ := Option.isSome_iff_exists.mp hsome
  obtain ⟨haddr, htime⟩ := createFrame_address hd
  obtain ⟨-, -, -, hbytes⟩ := createFrame_bytes hlen hd
  have hfields : ((keepaliveReply pdata).head netHeadSize).fields =
      [(2, 8), (2, 20), (2, 0), (1, 0), (1, 0)] := rfl
  have hbody : (keepaliveReply pdata).body = [] := rfl
  have hencode : encodeFields [(2, 8), (2, 20), (2, 0), (1, 0), (1, 0)] = pingBytes := by decide
  rw [hbody, List.append_nil, List.length_nil, Nat.add_zero, hfields, hencode] at hbytes
  exact ⟨d, hd, haddr, htime, hbytes⟩

/-- `processMessage`, by the branch it takes. -/
theorem processMessage_of_branch (s : Sys) {pdata : NetData} {b : Branch}
    (h : branch cfg.host pdata = b) :
    processMessage cfg s pdata =
      match b with
      | .parseFailed | .c2sData | .invalid => (-1, s)
      | .connected | .keepAlivePing =>
        if pdata.type = clientType then processKeepalive cfg s pdata else (-1, s)
      | .disconnected => if pdata.type = clientType then (0, s) else (-1, s) := by
  -- with `branch` a variable, since its value would be computed else
  obtain ⟨f, hf⟩ : ∃ f, f = processMessage := ⟨_, rfl⟩
  obtain ⟨g, hg⟩ : ∃ g, g = branch := ⟨_, rfl⟩
  rw [← hf]
  delta processMessage at hf
  rw [← hg] at h hf
  subst hf
  beta_reduce
  rw [h]
  cases b <;> rfl

/-- **`processMessage` for a client**: an answer is queued, or nothing is
changed and the result says whether to close. -/
theorem processMessage_cases (s : Sys) {pdata : NetData} (htype : pdata.type = clientType)
    (hfd : 0 ≤ pdata.fddat) {b : Branch} (hb : branch cfg.host pdata = b) :
    (b.answers = true ∧ ∃ d, d.fddat = pdata.fddat ∧
      d.connectTime = pdata.connectTime ∧ d.bytes = pingBytes ∧
      processMessage cfg s pdata = (if (addMsg cfg s d).1 then 1 else 0, (addMsg cfg s d).2)) ∨
    b.answers = false ∧ processMessage cfg s pdata = (if b.closes then -1 else 0, s) := by
  obtain ⟨d, hd, haddr, htime, hbytes⟩ := createFrame_keepaliveReply cfg.host hfd
  have hreply : processKeepalive cfg s pdata =
      (if (addMsg cfg s d).1 then 1 else 0, (addMsg cfg s d).2) := by
    rw [processKeepalive, hd]
  rw [processMessage_of_branch s hb]
  cases b with
  | connected | keepAlivePing =>
    exact .inl ⟨rfl, d, haddr, htime, hbytes, by simp only [htype, if_true, hreply]⟩
  | parseFailed | c2sData | invalid => exact .inr ⟨rfl, rfl⟩
  | disconnected => exact .inr ⟨rfl, by simp [htype, Branch.closes]⟩

/-! ## The service is the server -/

/-- The answer is a frame. -/
theorem framed_ping {d : NetData} (hbytes : d.bytes = pingBytes) : framed (.addMsg d) = true := by
  rw [framed, hbytes]
  decide

/-- The epoll thread queues frames. -/
theorem framed_of_epoll {a : Action} (ha : a.ofEpoll = true) : framed a = true := by
  cases a <;> first | rfl | cases ha

/-- Only the epoll thread reads. -/
theorem readsOf_of_other {id : ℕ} {b : Action} (hb : b.ofEpoll = false) :
    readsOf cfg id s b = none := by
  cases b <;> first | rfl | cases hb

/-- The epoll thread's step, where it is one. -/
def ServiceAction.inEpoll : ServiceAction → Option Action
  | .epoll a => some a
  | _ => none

/-- `b` is the server's part of a step that is `o` for the epoll thread. -/
def PartOf (b : Action) (o : Option Action) : Prop := o = some b ∨ o = none ∧ b.ofEpoll = false

/-- What the epoll thread reads is all that is read. -/
theorem PartOf.reads {id : ℕ} {b : Action} {o : Option Action} (h : PartOf b o)
    {P : SocketSet × Io → Prop} (hok : ∀ b ∈ o, ∀ r ∈ readsOf cfg id s b, P r) :
    ∀ r ∈ readsOf cfg id s b, P r := by
  rcases h with rfl | ⟨rfl, hb⟩
  · exact hok b rfl
  · rw [readsOf_of_other hb]
    exact nofun

/-- And what it takes off a stream is all that is taken. -/
theorem PartOf.takenBy {id : ℕ} {b : Action} {o : Option Action} (h : PartOf b o) :
    Epoll.takenBy cfg id s b = o.elim [] (Epoll.takenBy cfg id s) := by
  rcases h with rfl | ⟨rfl, hb⟩
  · rfl
  · rw [Epoll.takenBy, readsOf_of_other hb]
    rfl

/-- The server's part of a step is a step of the server, or none. -/
theorem Service.simulates (htype : ∀ pdata, v.work = .processMessage pdata →
    pdata.type = clientType ∧ 0 ≤ pdata.fddat) (h : ServiceStep cfg v a v') :
    v'.sys = v.sys ∧ a.inEpoll = none ∨
      ∃ b : Action, Epoll.next cfg v.sys b = some v'.sys ∧ framed b = true ∧
        PartOf b a.inEpoll := by
  cases h with
  | @epoll a s' ha hnext => exact .inr ⟨a, hnext, framed_of_epoll ha, .inl rfl⟩
  | @outQueue pdata ds hwork hlst =>
    exact .inr ⟨.outQueue, by rw [Epoll.next, hlst], rfl, .inr ⟨rfl, rfl⟩⟩
  | @processMessage pdata hwork =>
    obtain ⟨hclient, hfd⟩ := htype pdata hwork
    rcases processMessage_cases v.sys hclient hfd rfl with
      ⟨-, d, -, -, hbytes, heq⟩ | ⟨-, heq⟩ <;> rw [heq]
    · exact .inr ⟨.addMsg d, rfl, framed_ping hbytes, .inr ⟨rfl, rfl⟩⟩
    · exact .inl ⟨rfl, rfl⟩
  | @close pdata hwork hlock =>
    refine .inr ⟨.createCloseConnectEvent pdata.fddat pdata.connectTime, ?_, rfl,
      .inr ⟨rfl, rfl⟩⟩
    rw [Epoll.next, hlock]
    rfl

/-! ## What a message to the worker goes back to -/

/-- **The worker was told of it**: the message agrees with a notification
that is recorded. -/
def Heard (P : ℤ → Prop) (cfg : Config) (s : Sys) (pdata : NetData) : Prop :=
  ∃ x : Told, x.msg = pdata ∧ x.Agrees P cfg s ∧ .note x.id x.notice ∈ s.hist

/-- **The peer sent a frame of no known kind** on the connection `(fd, t)`. -/
def Misbehaved (s : Sys) (fd t : ℤ) : Prop :=
  ∃ id bs, Created s id fd t ∧ .note id (.frame bs) ∈ s.hist ∧
    mainID bs ∉ [toBE 2 rsConnected.toNat, toBE 2 rsDisconnected.toNat, toBE 2 keepAlivePing.toNat]

variable {P : ℤ → Prop}

theorem Heard.append {pdata : NetData} (h : Heard P cfg s pdata) {recs : List Record}
    (hhist : s'.hist = s.hist ++ recs) : Heard P cfg s' pdata := by
  obtain ⟨x, hx, hagrees, hnote⟩ := h
  exact ⟨x, hx, hagrees.append hhist, hhist ▸ List.mem_append_left _ hnote⟩

theorem Heard.of_hist {pdata : NetData} (h : Heard P cfg s pdata) (hhist : s'.hist = s.hist) :
    Heard P cfg s' pdata := h.append (hhist.trans (List.append_nil _).symm)

theorem Misbehaved.append {fd t : ℤ} (h : Misbehaved s fd t) {recs : List Record}
    (hhist : s'.hist = s.hist ++ recs) : Misbehaved s' fd t := by
  obtain ⟨id, bs, hcreated, hnote, hid⟩ := h
  exact ⟨id, bs, created_append hhist hcreated, hhist ▸ List.mem_append_left _ hnote, hid⟩

/-- What has a connection closed is a frame of no known kind. -/
theorem Heard.misbehaved {pdata : NetData} (h : Heard P cfg s pdata)
    (hcloses : (branch cfg.host pdata).closes = true) :
    Misbehaved s pdata.fddat pdata.connectTime := by
  obtain ⟨x, rfl, hagrees, hnote⟩ := h
  rw [hagrees.branch] at hcloses
  rcases hn : x.notice with _ | bs | _ <;> rw [hn] at hcloses hnote
  · cases hcloses
  · refine ⟨x.id, bs, hagrees.created, hnote, fun hid => ?_⟩
    simp only [List.mem_cons, List.not_mem_nil, or_false] at hid
    rcases hid with hid | hid | hid <;> simp only [branchOf, hid] at hcloses <;> revert hcloses <;>
      decide
  · cases hcloses

/-- What is told was recorded. -/
theorem note_of_told {told : List Told} {recs : List Record}
    (hrecs : ∀ id, notices id recs = toldAbout id told) {x : Told} (hx : x ∈ told) :
    .note x.id x.notice ∈ recs := by
  have hmem : x.notice ∈ notices x.id recs := by
    rw [hrecs]
    exact List.mem_filterMap.mpr ⟨x, hx, if_pos rfl⟩
  obtain ⟨r, hr, hsome⟩ := List.mem_filterMap.mp hmem
  unfold noticeOf at hsome
  split at hsome
  · split at hsome
    · rename_i hid
      injection hsome with hsome
      rw [← hid, ← hsome]
      exact hr
    · cases hsome
  · cases hsome

/-! ## The messages on their way -/

/-- The message the worker has not dealt with. -/
def WorkPlace.inHand : WorkPlace → List NetData
  | .processMessage pdata => [pdata]
  | _ => []

/-- The messages the worker has still to deal with. -/
def Service.pending (v : Service) : List NetData :=
  v.work.inHand ++ v.sys.recvlist ++ v.sys.recvtmplst

/-- **What holds of a server and its worker**: the connections have types of
`P`, the worker was told of what it deals with, and an event to close has
its frame. -/
structure Hears (P : ℤ → Prop) (cfg : Config) (v : Service) : Prop where
  typed : Typed P v.sys
  heard : ∀ pdata ∈ v.pending, Heard P cfg v.sys pdata
  closing : ∀ pdata, v.work = .createCloseConnectEvent pdata →
    Misbehaved v.sys pdata.fddat pdata.connectTime
  events : ∀ fd t, .closeClient fd t ∈ v.sys.eventlist → Misbehaved v.sys fd t

namespace Hears

theorem init (now : ℤ) : Hears P cfg ⟨Sys.init cfg now, .outQueue⟩ :=
  ⟨.init now, by simp [Service.pending, WorkPlace.inHand, Sys.init], nofun, by simp [Sys.init]⟩

/-- What is recorded does not go away. -/
theorem append (h : Hears P cfg v) {recs : List Record} (hhist : s'.hist = v.sys.hist ++ recs)
    {work : WorkPlace} (htyped : Typed P s') (hwork : work = v.work ∨ work = .outQueue)
    (hpending : ∀ pdata ∈ Service.pending ⟨s', work⟩, pdata ∈ v.pending ∨ Heard P cfg s' pdata)
    (hevents : ∀ fd t, .closeClient fd t ∈ s'.eventlist → .closeClient fd t ∈ v.sys.eventlist) :
    Hears P cfg ⟨s', work⟩ := by
  refine ⟨htyped, fun pdata hd => ?_, fun pdata hplace => ?_, fun fd t hevent => ?_⟩
  · rcases hpending pdata hd with hd | hd
    · exact (h.heard pdata hd).append hhist
    · exact hd
  · rcases hwork with rfl | rfl
    · exact (h.closing pdata hplace).append hhist
    · cases hplace
  · exact (h.events fd t (hevents fd t hevent)).append hhist

/-- **A step of the server** that is not its worker's. -/
theorem server (h : Hears P cfg v) (hwf : Wf v.sys) (hclient : P clientType) {a : Action}
    (hstep : Step cfg v.sys a s') (hcalls : Calls P a) (hout : a ≠ .outQueue)
    (hevents : ∀ fd t, .closeClient fd t ∈ s'.eventlist → .closeClient fd t ∈ v.sys.eventlist) :
    Hears P cfg ⟨s', v.work⟩ := by
  have htyped := h.typed.step hclient hstep hcalls
  by_cases hflush : a = .flush
  · -- the flush moves messages, and drops some
    subst hflush
    obtain ⟨hlst, htmp, hhist⟩ : s'.recvlist = flush cfg v.sys.recvlist v.sys.recvtmplst ∧
        s'.recvtmplst = [] ∧ s'.hist = v.sys.hist ++ [] := by
      cases hstep with
      | flush => exact ⟨rfl, rfl, (List.append_nil _).symm⟩
    refine h.append hhist htyped (.inl rfl) (fun pdata hd => .inl ?_) hevents
    simp only [Service.pending, hlst, htmp, List.append_nil, List.mem_append] at hd ⊢
    rcases hd with hd | hd
    · exact .inl (.inl hd)
    · rcases List.mem_append.mp (flush_subset _ _ hd) with hd | hd
      · exact .inl (.inr hd)
      · exact .inr hd
  · obtain ⟨hlst, told, recs, htmp, hhist, hrecs, hagrees⟩ :=
      step_tells hstep hwf h.typed hclient hflush hout
    refine h.append hhist htyped (.inl rfl) (fun pdata hd => ?_) hevents
    simp only [Service.pending, hlst, htmp, List.mem_append] at hd ⊢
    rcases hd with hd | hd | hd
    · exact .inl (.inl hd)
    · exact .inl (.inr hd)
    · obtain ⟨x, hx, rfl⟩ := List.mem_map.mp hd
      exact .inr ⟨x, rfl, hagrees x hx, hhist ▸ List.mem_append_right _ (note_of_told hrecs hx)⟩

/-- The worker takes a message out of the queue. -/
theorem outQueue (h : Hears P cfg v) (hclient : P clientType) {pdata : NetData}
    {ds : List NetData} (hwork : v.work = .outQueue) (hlst : v.sys.recvlist = pdata :: ds) :
    Hears P cfg ⟨{ v.sys with recvlist := ds }, .processMessage pdata⟩ := by
  have hstep : Step cfg v.sys .outQueue { v.sys with recvlist := ds } := .outQueue hlst
  refine ⟨h.typed.step hclient hstep trivial, fun d hd => (h.heard d ?_).of_hist rfl, nofun,
    h.events⟩
  rw [Service.pending, hwork, hlst]
  exact hd

/-- What the worker deals with it was told of. -/
theorem inHand (h : Hears P cfg v) {pdata : NetData} (hwork : v.work = .processMessage pdata) :
    Heard P cfg v.sys pdata := by
  refine h.heard pdata ?_
  rw [Service.pending, hwork]
  exact List.mem_append_left _ (List.mem_append_left _ List.mem_cons_self)

/-- What waits for the worker waited before it came out of its hands. -/
theorem mem_pending {d : NetData} {work : WorkPlace} (hwork : work.inHand = [])
    (hd : d ∈ Service.pending ⟨v.sys, work⟩) : d ∈ v.pending := by
  rw [Service.pending, List.append_assoc]
  rw [Service.pending, hwork, List.nil_append] at hd
  exact List.mem_append_right _ hd

/-- **The worker has dealt with a message** and changed nothing; what it
returns is negative for a frame of no known kind alone. -/
theorem processed (h : Hears P cfg v) {pdata : NetData} (hwork : v.work = .processMessage pdata)
    {ret : ℤ} (hret : ret < 0 → (branch cfg.host pdata).closes = true) :
    Hears P cfg ⟨v.sys, if ret < 0 then .createCloseConnectEvent pdata else .outQueue⟩ := by
  refine ⟨h.typed, fun d hd => h.heard d (mem_pending ?_ hd), fun d hplace => ?_, h.events⟩
  · split <;> rfl
  · by_cases hneg : ret < 0
    · rw [if_pos hneg] at hplace
      injection hplace with hplace
      exact hplace ▸ (h.inHand hwork).misbehaved (hret hneg)
    · rw [if_neg hneg] at hplace
      cases hplace

/-- **The worker has a connection closed.** -/
theorem close (h : Hears P cfg v) (hclient : P clientType) {pdata : NetData}
    (hwork : v.work = .createCloseConnectEvent pdata) (hlock : v.sys.eventsLocked = false) :
    Hears P cfg ⟨createCloseConnectEvent v.sys pdata.fddat pdata.connectTime, .outQueue⟩ := by
  have htyped := h.typed.step hclient
    (@Step.createCloseConnectEvent cfg v.sys pdata.fddat pdata.connectTime hlock) trivial
  unfold createCloseConnectEvent at htyped ⊢
  split at htyped <;> rename_i hroom <;> simp only [hroom, if_true, if_false]
  · exact ⟨htyped, fun d hd => h.heard d (mem_pending rfl hd), nofun, h.events⟩
  · refine ⟨htyped, fun d hd => (h.heard d (mem_pending rfl hd)).of_hist rfl, nofun,
      fun fd t hevent => ?_⟩
    rcases List.mem_append.mp hevent with hevent | hevent
    · exact h.events fd t hevent
    · rw [List.mem_singleton] at hevent
      injection hevent with hfd ht
      subst hfd ht
      exact h.closing pdata hwork

end Hears

/-! ## The steps of the epoll thread -/

/-- The epoll thread puts nothing into the event queue. -/
theorem eventlist_of_epoll {a : Action} (h : Step cfg s a s') (ha : a.ofEpoll = true) :
    s'.eventlist ⊆ s.eventlist := by
  cases h with
  | event =>
    rw [Sys.goto, (handleEvent_effects s _ _).keeps.eventlist]
    exact List.Subset.refl _
  | @acceptConn evs fd ip port b₁ b₂ b₃ b₄ now ctlOk =>
    rcases acceptConn_cases cfg s fd ip port b₁ b₂ b₃ b₄ now ctlOk with heq | ⟨-, heq⟩ <;> rw [heq]
    · exact List.Subset.refl _
    · rcases addClientToEpoll_cases cfg (born (s.opened fd) (newClient fd ip port now))
        (newConn (s.opened fd) (newClient fd ip port now)) ctlOk with
        ⟨-, es, hadd, -⟩ | ⟨-, hadd⟩ <;>
        rw [hadd] <;> exact List.Subset.refl _
  | @sysClose fd conntime es hpc hlst =>
    rw [(closeClient_keeps fd conntime).eventlist, hlst]
    exact List.subset_cons_self _ _
  | @sysAdd sock es hpc hlst =>
    rw [addClientEvent_eq, hlst]
    exact List.subset_cons_self _ _
  | @register sock ctlOk =>
    rcases addClientToEpoll_cases cfg s sock ctlOk with ⟨-, es, heq, -⟩ | ⟨-, heq⟩ <;>
      rw [Sys.goto, heq] <;> exact List.Subset.refl _
  | scan =>
    rw [Sys.goto, (scanFd_effects s _ _).keeps.eventlist]
    exact List.Subset.refl _
  | scanEnd =>
    rw [Sys.goto, (deleteSendMsgs_keeps _).eventlist]
    exact List.Subset.refl _
  | sweep =>
    rw [Sys.goto, (sweepFd_effects s _).keeps.eventlist]
    exact List.Subset.refl _
  | @ping ntype =>
    obtain ⟨cur, allocs, recs, -, heq⟩ := sendMsgToServer_frame cfg s ntype keepaliveMsg
    rw [heq]
    exact List.Subset.refl _
  | epollWait | listen | acceptFail | flush | sysEnd | switchSendMap | keepalive | sweepEnd
  | keepaliveSend | pingEnd => exact List.Subset.refl _
  | _ => cases ha

/-- And it accepts no message, where there is no server to ping. -/
theorem noneAccepted_of_epoll {a : Action} (h : Step cfg s a s') (ha : a.ofEpoll = true)
    (hclients : OnlyClients s) : NoneAccepted s s' := by
  by_cases hmay : a.mayAccept = false
  · exact h.noneAccepted hmay
  · cases h with
    | ping =>
      rw [sendMsgToServer_noKeys hclients.keys]
      exact .of_eq rfl
    | addMsg | sendMsgToServer => cases ha
    | _ => exact absurd rfl hmay

/-- It is none of the connecting threads. -/
theorem thread_of_epoll {a : Action} (ha : a.ofEpoll = true) : a.thread = none := by
  cases a <;> first | rfl | cases ha

/-! ## What holds of the service, step by step -/

/-- What `addMsg` accepts is its message. -/
theorem accepted_of_addMsg {d : NetData} {p : NetDataPtr}
    (hp : .accepted p ∈ (addMsg cfg s d).2.hist) : .accepted p ∈ s.hist ∨ p.obj = d := by
  unfold addMsg at hp
  simp only at hp
  split at hp
  · rcases List.mem_append.mp hp with hp | hp
    · exact .inl hp
    · rw [List.mem_singleton] at hp
      injection hp with hp
      exact .inr (hp ▸ rfl)
  · exact .inl hp

/-- **What holds of the service**: its connections are clients, and what is
queued to be sent are answers. -/
structure Serves (cfg : Config) (v : Service) : Prop extends Hears (· = clientType) cfg v where
  clients : OnlyClients v.sys
  replies : ∀ p, .accepted p ∈ v.sys.hist →
    p.obj.bytes = pingBytes ∧ ∃ id, Created v.sys id p.obj.fddat p.obj.connectTime

namespace Serves

/-- **A step of the epoll thread.** -/
theorem epoll (h : Serves cfg v) (hwf : Wf v.sys) {a : Action} (ha : a.ofEpoll = true)
    (hstep : Step cfg v.sys a s') : Serves cfg ⟨s', v.work⟩ := by
  have hevents := eventlist_of_epoll hstep ha
  have hnone := noneAccepted_of_epoll hstep ha h.clients
  have hcalls : Calls (· = clientType) a := by
    cases a with
    | connect => cases ha
    | _ => trivial
  have hout : a ≠ .outQueue := by
    rintro rfl
    cases ha
  refine ⟨h.toHears.server hwf rfl hstep hcalls hout fun fd t hevent => hevents hevent,
    h.clients.step hstep (thread_of_epoll ha), fun p hp => ?_⟩
  obtain ⟨recs, hhist, -⟩ := id hnone
  obtain ⟨hbytes, id, hcreated⟩ := h.replies p (hnone.accepted hp)
  exact ⟨hbytes, id, created_append hhist hcreated⟩

/-- **An answer is queued**, or refused. -/
theorem answer (h : Serves cfg v) (hwf : Wf v.sys) {x : Told} {d : NetData}
    (hcreated : Created v.sys x.id x.msg.fddat x.msg.connectTime)
    (hwork : v.work = .processMessage x.msg) (hfd : d.fddat = x.msg.fddat)
    (htime : d.connectTime = x.msg.connectTime) (hbytes : d.bytes = pingBytes) :
    Serves cfg ⟨(addMsg cfg v.sys d).2, .outQueue⟩ := by
  obtain ⟨cur, allocs, recs, -, hadd⟩ := addMsg_frame cfg v.sys d
  have hhist : (addMsg cfg v.sys d).2.hist = v.sys.hist ++ recs := by rw [hadd]
  have hstep : Step cfg v.sys (.addMsg d) (addMsg cfg v.sys d).2 := .addMsg
  have hidle : Hears (· = clientType) cfg ⟨v.sys, .outQueue⟩ := by
    have hdone := h.toHears.processed hwork fun hneg => absurd hneg (lt_irrefl 0)
    rwa [if_neg (lt_irrefl 0)] at hdone
  refine ⟨hidle.server hwf rfl hstep trivial nofun fun fd t hevent => ?_,
    h.clients.step hstep rfl, fun p hp => ?_⟩
  · rwa [hadd] at hevent
  · rcases accepted_of_addMsg hp with hp | rfl
    · obtain ⟨hbytes, id, hcreated⟩ := h.replies p hp
      exact ⟨hbytes, id, created_append hhist hcreated⟩
    · refine ⟨hbytes, x.id, ?_⟩
      rw [hfd, htime]
      exact created_append hhist hcreated

/-- **A step keeps it.** -/
theorem step (h : Serves cfg v) (hwf : Wf v.sys) (hstep : ServiceStep cfg v a v') :
    Serves cfg v' := by
  cases hstep with
  | epoll ha hnext => exact h.epoll hwf ha (step_of_next hnext)
  | @outQueue pdata ds hwork hlst =>
    have hstep : Step cfg v.sys .outQueue { v.sys with recvlist := ds } := .outQueue hlst
    exact ⟨h.toHears.outQueue rfl hwork hlst, h.clients.step hstep rfl, h.replies⟩
  | @processMessage pdata hwork =>
    obtain ⟨x, rfl, hagrees, -⟩ := h.inHand hwork
    obtain ⟨b, hb⟩ : ∃ b, branch cfg.host x.msg = b := ⟨_, rfl⟩
    rcases processMessage_cases v.sys hagrees.type hagrees.fd hb with
      ⟨-, d, hfd, htime, hbytes, heq⟩ | ⟨-, heq⟩
    · have hstays : ¬ (if (addMsg cfg v.sys d).1 = true then (1 : ℤ) else 0) < 0 := by
        split <;> decide
      simp only [heq, if_neg hstays]
      exact h.answer hwf hagrees.created hwork hfd htime hbytes
    · -- nothing is changed but the worker's place
      simp only [heq]
      refine ⟨h.toHears.processed hwork fun hneg => ?_, h.clients, h.replies⟩
      rw [hb]
      by_contra hcloses
      rw [if_neg hcloses] at hneg
      exact absurd hneg (by decide)
  | @close pdata hwork hlock =>
    have hstep : Step cfg v.sys (.createCloseConnectEvent pdata.fddat pdata.connectTime)
      (createCloseConnectEvent v.sys pdata.fddat pdata.connectTime) :=
        .createCloseConnectEvent hlock
    have hhist : (createCloseConnectEvent v.sys pdata.fddat pdata.connectTime).hist =
        v.sys.hist := by
      unfold createCloseConnectEvent
      split <;> rfl
    refine ⟨h.toHears.close rfl hwork hlock, h.clients.step hstep rfl, fun p hp => ?_⟩
    simp only [hhist] at hp
    obtain ⟨hbytes, id, hcreated⟩ := h.replies p hp
    exact ⟨hbytes, id, created_append (hhist.trans (List.append_nil _).symm) hcreated⟩

/-- The server's part of a step is a step of the server, or none. -/
theorem simulates (h : Serves cfg v) (hstep : ServiceStep cfg v a v') :
    v'.sys = v.sys ∧ a.inEpoll = none ∨
      ∃ b : Action, Epoll.next cfg v.sys b = some v'.sys ∧ framed b = true ∧
        PartOf b a.inEpoll := by
  refine Service.simulates (fun pdata hwork => ?_) hstep
  obtain ⟨x, rfl, hagrees, -⟩ := h.inHand hwork
  exact ⟨hagrees.type, hagrees.fd⟩

/-- **In every state of every run**, and the server's part of it is one that
the server reaches. -/
theorem of_reach {ok : Service → ServiceAction → Prop} (h : (service cfg now).Reach ok v) :
    (server cfg now).Reachable v.sys ∧ Serves cfg v := by
  refine h.invariant (I := fun v => (server cfg now).Reachable v.sys ∧ Serves cfg v)
    ⟨.start, ?_⟩ ?_
  · exact ⟨.init now, ⟨.init now, rfl⟩, by simp [service, Sys.init]⟩
  · rintro v a v' - - hnext ⟨hreach, hs⟩
    have hstep := serviceStep_of_next hnext
    refine ⟨?_, hs.step (Wf.reachable hreach) hstep⟩
    rcases hs.simulates hstep with ⟨heq, -⟩ | ⟨b, hb, -⟩
    · rw [heq]
      exact hreach
    · exact .step hreach trivial hb

end Serves

/-! ## Every answer has a question -/

/-- The notifications about connection `id` that ask for an answer. -/
def asked (id : ℕ) (hist : List Record) : ℕ :=
  (notices id hist).countP fun n => (branchOf n).answers

/-- The messages that do, of those in `ds`, for the connection `(fd, t)`. -/
def waiting (host : Host) (fd t : ℤ) (ds : List NetData) : ℕ :=
  ds.countP fun d => decide (d.fddat = fd ∧ d.connectTime = t) && (branch host d).answers

/-- The answers that were accepted for `(fd, t)`. -/
def replies (fd t : ℤ) (hist : List Record) : ℕ := (acceptedFrames fd t hist).length

/-- The list of a descriptor takes another message. -/
def HasRoom {α : Type*} (maxSendList : ℤ) (cur : SendMap α) (fd : ℤ) : Prop :=
  match cur.lookup fd with
  | none => True
  | some none => False
  | some (some lst) => lst.length < uint32 maxSendList

/-- **The condition on a step**: what is handed on fits the receive queue,
and an answer its send list. -/
def Lossless (cfg : Config) (v : Service) : ServiceAction → Prop
  | .epoll .flush =>
    v.sys.recvlist.length + v.sys.recvtmplst.length ≤ uint32 cfg.recvQueueSize
  | .processMessage => ∀ pdata ∈ v.work.inHand, HasRoom cfg.maxSendList v.sys.cur pdata.fddat
  | _ => True

instance {α : Type*} (maxSendList : ℤ) (cur : SendMap α) (fd : ℤ) :
    Decidable (HasRoom maxSendList cur fd) := by
  unfold HasRoom
  split <;> infer_instance

instance (cfg : Config) (v : Service) : DecidablePred (Lossless cfg v) := fun a => by
  unfold Lossless
  split <;> infer_instance

/-- `(fd, t)` is the address of connection `id`, and of no other. -/
def Addresses (s : Sys) (id : ℕ) (fd t : ℤ) : Prop :=
  ∀ i f u l, .index i f u l ∈ s.hist → (i = id ↔ f = fd ∧ u = t)

/-- At most as many, and as many where `strict` holds. -/
def Covers (strict : Prop) (m n : ℕ) : Prop := m ≤ n ∧ (strict → m = n)

variable {strict : Prop} {id : ℕ} {fd t : ℤ}

theorem Addresses.of_append (h : Addresses s' id fd t) {recs : List Record}
    (hhist : s'.hist = s.hist ++ recs) : Addresses s id fd t :=
  fun i f u l hi => h i f u l (hhist ▸ List.mem_append_left _ hi)

/-- Before the index wraps around, a connection's address is its own. -/
theorem addresses_of_created (hwf : Wf s) (hcalls : s.calls < 2 ^ 32 - 2)
    (hid : Created s id fd t) : Addresses s id fd t := by
  obtain ⟨l, hl⟩ := hid
  have ht := (hwf.counted hcalls).2 id fd t l hl
  intro i f u l' hi
  have hu := (hwf.counted hcalls).2 i f u l' hi
  refine ⟨?_, fun ⟨_, heq⟩ => by omega⟩
  rintro rfl
  exact ⟨(hwf.unique i f u l' fd t l hi hl).1, hu.trans ht.symm⟩

theorem waiting_append (host : Host) (ds ds' : List NetData) :
    waiting host fd t (ds ++ ds') = waiting host fd t ds + waiting host fd t ds' :=
  List.countP_append

/-- **What is told asks as often as its notifications do.** -/
theorem waiting_told {told : List Told} (haddr : Addresses s id fd t)
    (hagrees : ∀ x ∈ told, x.Agrees P cfg s) :
    waiting cfg.host fd t (told.map Told.msg) =
      (toldAbout id told).countP fun n => (branchOf n).answers := by
  induction told with
  | nil => rfl
  | cons x xs ih =>
    have ih := ih fun y hy => hagrees y (List.mem_cons_of_mem _ hy)
    obtain ⟨⟨l, hl⟩, -, -, hbranch⟩ := hagrees x List.mem_cons_self
    have hid := haddr _ _ _ _ hl
    unfold waiting toldAbout at ih ⊢
    rw [List.map_cons, List.countP_cons, ih, List.filterMap_cons, hbranch]
    by_cases h : x.id = id
    · simp only [if_pos h, List.countP_cons, hid.mp h, decide_true, Bool.true_and, and_self]
    · simp only [if_neg h, mt hid.mpr h, decide_false, Bool.false_and, Bool.false_eq_true, if_false,
        Nat.add_zero]

/-- The flush keeps what asks, or drops some of it. -/
theorem waiting_flush (cfg : Config) (fd t : ℤ) (recvlist ds : List NetData) :
    waiting cfg.host fd t (flush cfg recvlist ds) ≤ waiting cfg.host fd t (recvlist ++ ds) ∧
      (recvlist.length + ds.length ≤ uint32 cfg.recvQueueSize →
        flush cfg recvlist ds = recvlist ++ ds) := by
  induction ds generalizing recvlist with
  | nil =>
    rw [flush, List.append_nil]
    exact ⟨le_rfl, fun _ => rfl⟩
  | cons d ds ih =>
    rw [flush]
    split
    · rename_i hfull
      refine ⟨(ih recvlist).1.trans ?_, fun hroom => ?_⟩
      · rw [waiting_append, waiting_append]
        exact Nat.add_le_add_left (List.sublist_cons_self d ds).countP_le _
      · rw [List.length_cons] at hroom
        omega
    · obtain ⟨hle, heq⟩ := ih (recvlist ++ [d])
      rw [List.append_assoc, List.singleton_append] at hle heq
      refine ⟨hle, fun hroom => heq ?_⟩
      rw [List.length_cons] at hroom
      rw [List.length_append, List.length_singleton]
      omega

/-- A list with room takes the message. -/
theorem addMsg_of_hasRoom {d : NetData} (h : HasRoom cfg.maxSendList s.cur d.fddat) :
    (addMsg cfg s d).1 = true := by
  unfold HasRoom at h
  unfold addMsg addMsgToSendList
  rcases hl : s.cur.lookup d.fddat with _ | _ | lst <;> simp only [hl] at h ⊢
  rw [if_pos h]

/-- **The account of a connection**: answers that were accepted and messages
that wait for one are as many as were asked for, or fewer where some are
lost. -/
def Balanced (cfg : Config) (strict : Prop) (id : ℕ) (fd t : ℤ) (v : Service) : Prop :=
  Addresses v.sys id fd t → Covers strict
    (replies fd t v.sys.hist + waiting cfg.host fd t v.pending) (asked id v.sys.hist)

namespace Balanced

/-- The account is settled where nothing is asked, answered or lost. -/
theorem of_eq (h : Balanced cfg strict id fd t v) (hhist : v'.sys.hist = v.sys.hist)
    (hwaiting : waiting cfg.host fd t v'.pending = waiting cfg.host fd t v.pending) :
    Balanced cfg strict id fd t v' := by
  unfold Balanced Addresses at h ⊢
  rw [hhist, hwaiting]
  exact h

/-- **A step of the epoll thread** adds to what is asked what it tells. -/
theorem epoll (h : Balanced cfg strict id fd t v) (hs : Serves cfg v) (hwf : Wf v.sys) {a : Action}
    (ha : a.ofEpoll = true) (hok : strict → Lossless cfg v (.epoll a))
    (hstep : Step cfg v.sys a s') : Balanced cfg strict id fd t ⟨s', v.work⟩ := by
  intro haddr
  have hnone := noneAccepted_of_epoll hstep ha hs.clients
  have hreplies : replies fd t s'.hist = replies fd t v.sys.hist := by
    rw [replies, hnone.acceptedFrames_eq, replies]
  by_cases hflush : a = .flush
  · subst hflush
    cases hstep with
    | flush =>
      obtain ⟨hle, heq⟩ := waiting_flush cfg fd t v.sys.recvlist v.sys.recvtmplst
      obtain ⟨hcover, hcovereq⟩ := h haddr
      simp only [Service.pending, waiting_append] at hle heq hcover hcovereq ⊢
      refine ⟨by simp only [waiting, List.countP_nil] at hle hcover ⊢; omega, fun hstrict => ?_⟩
      rw [heq (hok hstrict), waiting_append, ← hcovereq hstrict]
      simp only [waiting, List.countP_nil]
      omega
  · have hout : a ≠ .outQueue := by
      rintro rfl
      cases ha
    obtain ⟨hlst, told, recs, htmp, hhist, hrecs, hagrees⟩ :=
      step_tells hstep hwf hs.typed rfl hflush hout
    obtain ⟨hcover, hcovereq⟩ := h (haddr.of_append hhist)
    have htold := waiting_told haddr hagrees
    have hasked : asked id s'.hist =
        asked id v.sys.hist + waiting cfg.host fd t (told.map Told.msg) := by
      rw [asked, hhist, notices_append, hrecs, List.countP_append, htold]
      rfl
    simp only [Service.pending, hlst, htmp, waiting_append] at hcover hcovereq ⊢
    rw [hreplies, hasked]
    exact ⟨by omega, fun hstrict => by have := hcovereq hstrict; omega⟩

/-- **An answer is queued** for a message that asks for one. -/
theorem answer (h : Balanced cfg strict id fd t v) {pdata d : NetData}
    (hwork : v.work = .processMessage pdata) (hfd : d.fddat = pdata.fddat)
    (htime : d.connectTime = pdata.connectTime) (hanswers : (branch cfg.host pdata).answers = true)
    (hok : strict → Lossless cfg v .processMessage) :
    Balanced cfg strict id fd t ⟨(addMsg cfg v.sys d).2, .outQueue⟩ := by
  intro haddr
  have hroom : strict → (addMsg cfg v.sys d).1 = true := fun hstrict => by
    refine addMsg_of_hasRoom ?_
    rw [hfd]
    exact hok hstrict pdata (by rw [hwork]; exact List.mem_cons_self)
  have hwaiting : waiting cfg.host fd t v.pending =
      (if pdata.fddat = fd ∧ pdata.connectTime = t then 1 else 0) +
        waiting cfg.host fd t (v.sys.recvlist ++ v.sys.recvtmplst) := by
    rw [Service.pending, hwork, List.append_assoc, waiting_append]
    refine congrArg (· + _) ?_
    simp only [WorkPlace.inHand, waiting, List.countP_singleton, hanswers, Bool.and_true,
      decide_eq_true_eq]
  have hpending : waiting cfg.host fd t (Service.pending ⟨(addMsg cfg v.sys d).2, .outQueue⟩) =
      waiting cfg.host fd t (v.sys.recvlist ++ v.sys.recvtmplst) := rfl
  have haddressed : Addressed fd t ⟨v.sys.allocs + 1, d⟩ ↔
      pdata.fddat = fd ∧ pdata.connectTime = t := by
    rw [← hfd, ← htime]
    rfl
  by_cases hadd : (addMsg cfg v.sys d).1 = true
  · have hhist : (addMsg cfg v.sys d).2.hist =
        v.sys.hist ++ [.accepted ⟨v.sys.allocs + 1, d⟩] := if_pos hadd
    have hreplies : replies fd t (addMsg cfg v.sys d).2.hist = replies fd t v.sys.hist +
        if pdata.fddat = fd ∧ pdata.connectTime = t then 1 else 0 := by
      rw [replies, hhist, acceptedFrames, List.filterMap_append, List.length_append]
      refine congrArg _ ?_
      by_cases hmine : pdata.fddat = fd ∧ pdata.connectTime = t
      · simp [haddressed.mpr hmine, hmine]
      · simp [mt haddressed.mp hmine, hmine]
    have hasked : asked id (addMsg cfg v.sys d).2.hist = asked id v.sys.hist := by
      rw [asked, hhist, notices_append, List.countP_append]
      rfl
    obtain ⟨hcover, hcovereq⟩ := h (haddr.of_append hhist)
    rw [hwaiting] at hcover hcovereq
    simp only [hreplies, hasked, hpending]
    exact ⟨by omega, fun hstrict => by have := hcovereq hstrict; omega⟩
  · have hhist : (addMsg cfg v.sys d).2.hist = v.sys.hist := if_neg hadd
    obtain ⟨hcover, -⟩ := h (haddr.of_append (hhist.trans (List.append_nil _).symm))
    rw [hwaiting] at hcover
    simp only [hhist, hpending]
    exact ⟨by omega, fun hstrict => absurd (hroom hstrict) hadd⟩

/-- **A step keeps the account.** -/
theorem step (h : Balanced cfg strict id fd t v) (hs : Serves cfg v) (hwf : Wf v.sys)
    (hok : strict → Lossless cfg v a) (hstep : ServiceStep cfg v a v') :
    Balanced cfg strict id fd t v' := by
  cases hstep with
  | epoll ha hnext => exact h.epoll hs hwf ha hok (step_of_next hnext)
  | @outQueue pdata ds hwork hlst =>
    refine h.of_eq rfl ?_
    rw [Service.pending, Service.pending, hwork, hlst]
    rfl
  | @processMessage pdata hwork =>
    obtain ⟨x, rfl, hagrees, -⟩ := hs.inHand hwork
    obtain ⟨b, hb⟩ : ∃ b, branch cfg.host x.msg = b := ⟨_, rfl⟩
    rcases processMessage_cases v.sys hagrees.type hagrees.fd hb with
      ⟨hanswers, d, hfd, htime, -, heq⟩ | ⟨hanswers, heq⟩
    · have hstays : ¬ (if (addMsg cfg v.sys d).1 = true then (1 : ℤ) else 0) < 0 := by
        split <;> decide
      simp only [heq, if_neg hstays]
      exact h.answer hwork hfd htime (hb ▸ hanswers) hok
    · -- a message that asks for nothing is gone
      simp only [heq]
      refine h.of_eq rfl ?_
      have hnone : waiting cfg.host fd t [x.msg] = 0 := by
        simp only [waiting, List.countP_singleton, hb, hanswers, Bool.and_false, Bool.false_eq_true,
          if_false]
      have hold : waiting cfg.host fd t v.pending =
          waiting cfg.host fd t (v.sys.recvlist ++ v.sys.recvtmplst) := by
        rw [Service.pending, hwork, List.append_assoc, WorkPlace.inHand, waiting_append, hnone,
          Nat.zero_add]
      rw [hold, Service.pending]
      split_ifs <;> rfl
  | @close pdata hwork =>
    refine h.of_eq ?_ ?_
    · unfold createCloseConnectEvent
      split <;> rfl
    · rw [Service.pending, Service.pending, hwork]
      unfold createCloseConnectEvent
      split <;> rfl

/-- **The account is right** in every state of every run. -/
theorem of_reach (h : (service cfg now).Reach (fun v a => strict → Lossless cfg v a) v) :
    Balanced cfg strict id fd t v := by
  refine h.invariant (I := Balanced cfg strict id fd t) (fun _ => ⟨le_rfl, fun _ => rfl⟩) ?_
  intro v a v' hv hok hnext hb
  obtain ⟨hreach, hs⟩ := Serves.of_reach hv
  exact hb.step hs (Wf.reachable hreach) hok (serviceStep_of_next hnext)

end Balanced

/-- **Every answer has a question, and every question its answer.** In every
run an answer that is queued is `KEEP_ALIVE_PING`; a connection gets at most
one for its arrival and one for each of its frames that asks. In a run in
which neither the receive queue nor a send list overflows, what was asked is
answered or waits for the worker. -/
theorem replies_asked {strict : Prop} {id : ℕ} {fd t : ℤ}
    (h : (service cfg now).Reach (fun v a => strict → Lossless cfg v a) v)
    (hcalls : v.sys.calls < 2 ^ 32 - 2) (hid : Created v.sys id fd t) :
    (∀ f ∈ acceptedFrames fd t v.sys.hist, f = [0, 8, 0, 20, 0, 0, 0, 0]) ∧
      replies fd t v.sys.hist + waiting cfg.host fd t v.pending ≤ asked id v.sys.hist ∧
      (strict →
        replies fd t v.sys.hist + waiting cfg.host fd t v.pending = asked id v.sys.hist) := by
  obtain ⟨hreach, hs⟩ := Serves.of_reach h
  refine ⟨fun f hf => ?_,
    Balanced.of_reach h (addresses_of_created (Wf.reachable hreach) hcalls hid)⟩
  obtain ⟨p, hp, -, rfl⟩ := accepted_of_mem hf
  exact (hs.replies p hp).1

/-- A round in which a client is accepted on `7`, and one in which it sends
`bs`; the worker deals with what it is told. -/
def serve (bs : List UInt8) : List ServiceAction :=
  List.map .epoll (acceptRound 7 ++ [.flush] ++ quietEnd) ++ [.outQueue, .processMessage] ++
    List.map .epoll ([.epollWait [⟨⟨7, 2, 2⟩, .epollin⟩], .event { recvs := [.data bs] }, .flush] ++
      sendEnd) ++
    [.outQueue, .processMessage]

/-- A client that sends a ping has its two answers. -/
theorem replies_asked_ping : ∃ v, (service smallConfig 0).Reach
      (fun v a => True → Lossless smallConfig v a) v ∧ replies 7 2 v.sys.hist = 2 ∧
    (True → replies 7 2 v.sys.hist + waiting .little 7 2 v.pending = asked 2 v.sys.hist) := by
  have hrun : ∃ v, (service smallConfig 0).Reach (fun v a => True → Lossless smallConfig v a) v ∧
      v.sys.calls < 2 ^ 32 - 2 ∧ .index 2 7 2 0 ∈ v.sys.hist ∧ replies 7 2 v.sys.hist = 2 :=
    Machine.exists_reach_of_exec (serve pingBytes) (by decide)
  obtain ⟨v, hv, hcalls, hindex, hreplies⟩ := hrun
  exact ⟨v, hv, hreplies, (replies_asked hv hcalls ⟨0, hindex⟩).2.2⟩

end Worker

end EupuServer
