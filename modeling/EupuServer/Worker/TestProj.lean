import EupuServer.Worker.Service
/-!
# The test server

The epoll thread, the main thread and the one worker of `testproj`. The main
thread calls the user centre server again and again, and no other. The
worker sends nothing: it passes over what it knows and has the connection of
all else closed, as the worker of the user centre server does
(`processMessage_neg`). What is queued to be sent are the pings of the epoll
thread alone (`Tests.pings`).
-/

namespace EupuServer

namespace TestProj

open Protocol Network Epoll Worker

/-! ## The functions -/

/-- What the three messages `processMessage` knows come to. -/
def knownFrom (type : ℤ) : ℤ :=
  if type = clientType then 0
  else if type = usercentersvrType then 0
  else -1

/-- The switch over `header.uMainID`, for what `header.In` gave. -/
def resultOf (type : ℤ) : Option NetMessageHead → ℤ
  | none => -1
  | some header =>
    if header.uMainID = rsConnected then knownFrom type
    else if header.uMainID = rsDisconnected then knownFrom type
    else if header.uMainID = keepAlivePing then knownFrom type
    else -1

/-- `CWorkThread::processMessage` of `testproj`, which changes nothing. -/
def processMessage (host : Host) (pdata : NetData) : ℤ :=
  resultOf pdata.type (NetMessageHead.input host pdata.pdata pdata.dataLen)

/-- The call of the main thread: `createServerConnect(USERCENTERSVR_TYPE)`. -/
def callsCentre : ConnectAction → Bool
  | .start ntype => ntype = usercentersvrType
  | _ => true

/-! ## The machine -/

/-- A step of the main thread, or of the other two. -/
inductive TestAction
  | main (a : ConnectAction)
  | server (a : ServiceAction)

/-- **A step.** The epoll thread and `CWorkBaseThread::run` are those of
every server; what the worker does with a message is its own. -/
def next (cfg : Config) (v : Service) : TestAction → Option Service
  | .main a =>
    if callsCentre a then (Epoll.next cfg v.sys (.connect 0 a)).map fun s => { v with sys := s }
    else none
  | .server .processMessage =>
    match v.work with
    | .processMessage pdata =>
      some { v with
        work := if processMessage cfg.host pdata < 0 then .createCloseConnectEvent pdata
          else .outQueue }
    | _ => none
  | .server a => v.next cfg a

/-- The test server, from the state that `initSystem` leaves. -/
def testServer (cfg : Config) (now : ℤ) : Machine Service TestAction where
  init := ⟨Sys.init cfg now, .outQueue⟩
  next := next cfg

variable {cfg : Config} {now : ℤ} {s s' : Sys} {v v' : Service} {a : TestAction}

/-- **What a step does**: the inversion of `next`. -/
inductive TestStep (cfg : Config) (v : Service) : TestAction → Service → Prop
  | main {a : ConnectAction} {s' : Sys} (ha : callsCentre a = true)
      (hnext : Epoll.next cfg v.sys (.connect 0 a) = some s') :
    TestStep cfg v (.main a) ⟨s', v.work⟩
  | processMessage {pdata : NetData} (hwork : v.work = .processMessage pdata) :
    TestStep cfg v (.server .processMessage) ⟨v.sys,
      if processMessage cfg.host pdata < 0 then .createCloseConnectEvent pdata else .outQueue⟩
  | server {a : ServiceAction} {v' : Service} (ha : a ≠ .processMessage)
      (hstep : ServiceStep cfg v a v') : TestStep cfg v (.server a) v'

theorem testStep_of_next (h : next cfg v a = some v') : TestStep cfg v a v' := by
  cases a with
  | main a =>
    simp only [next] at h
    split at h
    · obtain ⟨s, hs, rfl⟩ := Option.map_eq_some_iff.mp h
      exact .main ‹_› hs
    · cases h
  | server a =>
    by_cases ha : a = .processMessage
    · subst ha
      simp only [next] at h
      split at h
      · injection h with h
        exact h ▸ .processMessage ‹_›
      · cases h
    · have hserver : v.next cfg a = some v' := by
        cases a with
        | processMessage => exact absurd rfl ha
        | epoll | outQueue | createCloseConnectEvent => exact h
      exact .server ha (serviceStep_of_next hserver)

/-! ## What `processMessage` returns -/

/-- The types of the connections: clients, and the user centre server. -/
def Ours (type : ℤ) : Prop := type = clientType ∨ type = usercentersvrType

theorem knownFrom_of_ours {type : ℤ} (h : Ours type) : knownFrom type = 0 := by
  unfold knownFrom
  rcases h with h | h
  · rw [if_pos h]
  · split_ifs <;> rfl

theorem resultOf_neg {type : ℤ} (htype : Ours type) (parsed : Option NetMessageHead) :
    resultOf type parsed < 0 ↔ (Branch.ofHeader parsed).closes = true := by
  rcases parsed with _ | header
  · exact iff_of_true neg_one_lt_zero rfl
  · simp only [Branch.ofHeader, switchMainID, resultOf, knownFrom_of_ours htype]
    have hne : rsDisconnected ≠ rsConnected ∧ keepAlivePing ≠ rsConnected ∧
        keepAlivePing ≠ rsDisconnected ∧ keepAlivePing ≠ c2sData := by decide
    split_ifs <;> simp_all [Branch.closes]

/-- **A negative result is for a frame of no known kind**, and for every
one. -/
theorem processMessage_neg (host : Host) {pdata : NetData} (htype : Ours pdata.type) :
    processMessage host pdata < 0 ↔ (branch host pdata).closes = true :=
  resultOf_neg htype _

/-! ## What is sent -/

/-- The ping to a server has the bytes of the answer to a client. -/
theorem createFrame_keepaliveMsg (host : Host) {k : ServerKey} {ntype : ℤ} {d : NetData}
    (hfd : 0 ≤ k.data.fddat) (h : createFrame host (keepaliveMsg.request k ntype) = some d) :
    d.bytes = pingBytes := by
  let pdata : NetData := ⟨k.data.fddat, k.data.connectTime, k.data.peerIp, k.data.peerPort, ntype,
    [], 0⟩
  have hsame : keepaliveMsg.request k ntype = keepaliveReply pdata := rfl
  obtain ⟨d', hd', -, -, hbytes⟩ := @createFrame_keepaliveReply host pdata hfd
  rw [hsame, hd'] at h
  injection h with h
  exact h ▸ hbytes

/-- Every message that was accepted is a ping. -/
def PingsAccepted (s : Sys) : Prop := ∀ p, .accepted p ∈ s.hist → p.obj.bytes = pingBytes

theorem PingsAccepted.of_none (h : PingsAccepted s) (hnone : NoneAccepted s s') :
    PingsAccepted s' :=
  fun p hp => h p (hnone.accepted hp)

/-- **The epoll thread accepts pings alone.** -/
theorem PingsAccepted.ping (h : PingsAccepted s) (ntype : ℤ) :
    PingsAccepted (sendMsgToServer cfg s ntype keepaliveMsg) := by
  unfold sendMsgToServer
  split
  · exact h
  · rename_i k hk
    split
    · rename_i hfd
      split
      · exact h
      · rename_i d hd
        have hadd : PingsAccepted (addMsg cfg s d).2 := by
          intro p hp
          rcases accepted_of_addMsg hp with hp | rfl
          · exact h p hp
          · exact createFrame_keepaliveMsg cfg.host hfd hd
        simp only
        split
        · exact hadd.of_none (.of_recs _ rfl (by simp))
        · exact hadd
    · exact h

/-- **A step accepts pings alone**, where no thread but the epoll thread may
accept a message. -/
theorem PingsAccepted.step (h : PingsAccepted s) {b : Action} (hstep : Step cfg s b s')
    (hown : b.ofEpoll = true ∨ b.mayAccept = false) : PingsAccepted s' := by
  by_cases hmay : b.mayAccept = false
  · exact h.of_none (hstep.noneAccepted hmay)
  · have hepoll := hown.resolve_right hmay
    cases hstep with
    | ping => exact h.ping _
    | addMsg | sendMsgToServer => cases hepoll
    | _ => exact absurd rfl hmay

/-! ## What holds of the test server, step by step -/

/-- The epoll thread's step, where it is one. -/
def TestAction.inEpoll : TestAction → Option Action
  | .main _ => none
  | .server a => a.inEpoll

/-- **The server's part of a step** is a step of the server, or none; where
it is not the epoll thread's, nothing is accepted. -/
theorem simulates (h : TestStep cfg v a v') :
    v'.sys = v.sys ∧ a.inEpoll = none ∨
      ∃ b : Action, Epoll.next cfg v.sys b = some v'.sys ∧ framed b = true ∧
        PartOf b a.inEpoll ∧ (b.ofEpoll = true ∨ b.mayAccept = false) := by
  cases h with
  | @main a s' ha hnext => exact .inr ⟨.connect 0 a, hnext, rfl, .inr ⟨rfl, rfl⟩, .inr rfl⟩
  | processMessage => exact .inl ⟨rfl, rfl⟩
  | server ha hstep =>
    cases hstep with
    | @epoll b s' hb hnext => exact .inr ⟨b, hnext, framed_of_epoll hb, .inl rfl, .inl hb⟩
    | @outQueue pdata ds hwork hlst =>
      exact .inr ⟨.outQueue, by rw [Epoll.next, hlst], rfl, .inr ⟨rfl, rfl⟩, .inr rfl⟩
    | processMessage => exact absurd rfl ha
    | @close pdata hwork hlock =>
      refine .inr ⟨.createCloseConnectEvent pdata.fddat pdata.connectTime, ?_, rfl,
        .inr ⟨rfl, rfl⟩, .inr rfl⟩
      rw [Epoll.next, hlock]
      rfl

/-- **What holds of the test server**: its connections are clients and the
user centre server, and what is queued to be sent are pings. -/
structure Tests (cfg : Config) (v : Service) : Prop extends Hears Ours cfg v where
  pings : PingsAccepted v.sys

/-- A call of `createServerConnect` has no connection closed. -/
theorem closeClient_of_connect {th : ℕ} {c : ConnectAction} (h : Step cfg s (.connect th c) s')
    {fd t : ℤ} (hevent : .closeClient fd t ∈ s'.eventlist) : .closeClient fd t ∈ s.eventlist := by
  cases h with
  | enqueue =>
    rcases List.mem_append.mp hevent with hevent | hevent
    · exact hevent
    · rw [List.mem_singleton] at hevent
      cases hevent
  | start | startNot | socket | socketFail | connectFail | connectOk | publish | enqueueFail =>
    exact hevent

/-- The main thread calls no other server. -/
theorem calls_of_main {c : ConnectAction} (hc : callsCentre c = true) :
    Calls Ours (.connect 0 c) := by
  cases c with
  | start ntype => exact .inr (of_decide_eq_true hc)
  | _ => trivial

theorem calls_of_epoll {b : Action} (hb : b.ofEpoll = true) : Calls Ours b := by
  cases b with
  | connect => cases hb
  | _ => trivial

/-- **A step keeps what the worker hears.** -/
theorem Tests.hears (h : Tests cfg v) (hwf : Wf v.sys) (hstep : TestStep cfg v a v') :
    Hears Ours cfg v' := by
  have hclient : Ours clientType := .inl rfl
  cases hstep with
  | main ha hnext =>
    have hstep := step_of_next hnext
    exact h.toHears.server hwf hclient hstep (calls_of_main ha) nofun
      fun _ _ => closeClient_of_connect hstep
  | @processMessage pdata hwork =>
    obtain ⟨x, rfl, hagrees, -⟩ := h.inHand hwork
    exact h.toHears.processed hwork (processMessage_neg cfg.host hagrees.type).mp
  | server ha hstep =>
    cases hstep with
    | @epoll b s' hb hnext =>
      have hstep := step_of_next hnext
      have hevents := eventlist_of_epoll hstep hb
      have hout : b ≠ .outQueue := by
        rintro rfl
        cases hb
      exact h.toHears.server hwf hclient hstep (calls_of_epoll hb) hout
        fun fd t hevent => hevents hevent
    | outQueue hwork hlst => exact h.toHears.outQueue hclient hwork hlst
    | processMessage => exact absurd rfl ha
    | close hwork hlock => exact h.toHears.close hclient hwork hlock

/-- **A step keeps it.** -/
theorem Tests.step (h : Tests cfg v) (hwf : Wf v.sys) (hstep : TestStep cfg v a v') :
    Tests cfg v' := by
  refine ⟨h.hears hwf hstep, ?_⟩
  rcases simulates hstep with ⟨heq, -⟩ | ⟨b, hb, -, -, hown⟩
  · rw [heq]
    exact h.pings
  · exact h.pings.step (step_of_next hb) hown

/-- **In every state of every run**, and the server's part of it is one that
the server reaches. -/
theorem Tests.of_reach {ok : Service → TestAction → Prop} (h : (testServer cfg now).Reach ok v) :
    (server cfg now).Reachable v.sys ∧ Tests cfg v := by
  refine h.invariant (I := fun v => (server cfg now).Reachable v.sys ∧ Tests cfg v)
    ⟨.start, .init now, by simp [PingsAccepted, testServer, Sys.init]⟩ ?_
  rintro v a v' - - hnext ⟨hreach, ht⟩
  have hstep := testStep_of_next hnext
  refine ⟨?_, ht.step (Wf.reachable hreach) hstep⟩
  rcases simulates hstep with ⟨heq, -⟩ | ⟨b, hb, -⟩
  · rw [heq]
    exact hreach
  · exact .step hreach trivial hb

end TestProj

end EupuServer
