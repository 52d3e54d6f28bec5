import EupuServer.Worker.TestProj
/-!
# Two servers that talk to each other

The test server, the user centre server and the one connection between them,
with a stream each way. Each server takes its own steps, in any order; what
a `recv` of one gets is what comes next of what the other has written. The
two exchange pings and nothing else: neither has the connection closed for
what it was sent, and the user centre server answers the connection itself
and each ping once, so that no ping begets more than one other
(`keepalive_pair`).
-/

namespace EupuServer

namespace TestProj

open Protocol Network Epoll Worker

/-! ## The pair -/

/-- **One end of the connection**: the configuration of its server, and the
descriptor, the index and the number the connection has there. -/
structure Side where
  cfg : Config
  fd : ℤ
  t : ℤ
  id : ℕ

/-- **The two servers**; `sent` is what the user centre server took off its
stream, and `back` what the test server took off its own. -/
structure Pair where
  test : Service
  centre : Service
  sent : List UInt8
  back : List UInt8

/-- A step of one of the two. -/
inductive PairAction
  | test (a : TestAction)
  | centre (a : ServiceAction)

/-- What a step takes off the stream at its end. -/
def Side.takes (e : Side) (s : Sys) : Option Action → List UInt8
  | none => []
  | some a => takenBy e.cfg e.id s a

/-- **A step of the pair.** What is taken comes next of what the other end
has written. -/
def Pair.next (x y : Side) (p : Pair) : PairAction → Option Pair
  | .test a =>
    let back := p.back ++ x.takes p.test.sys a.inEpoll
    if back <+: writtenBytes y.fd y.t p.centre.sys.hist then
      (TestProj.next x.cfg p.test a).map fun v => { p with test := v, back := back }
    else none
  | .centre a =>
    let sent := p.sent ++ y.takes p.centre.sys a.inEpoll
    if sent <+: writtenBytes x.fd x.t p.test.sys.hist then
      (p.centre.next y.cfg a).map fun v => { p with centre := v, sent := sent }
    else none

/-- The pair, from the states that the two `initSystem` leave. -/
def pair (x y : Side) (now now' : ℤ) : Machine Pair PairAction where
  init := ⟨⟨Sys.init x.cfg now, .outQueue⟩, ⟨Sys.init y.cfg now', .outQueue⟩, [], []⟩
  next := Pair.next x y

/-- No tail of the receive buffer is lost at the end `e`. -/
def Side.Keeps (e : Side) (s : Sys) (a : Action) : Prop :=
  ∀ r ∈ readsOf e.cfg e.id s a,
    KeepsTails e.cfg.recvbuflen (scriptWeight r.2.recvs + 1) r.1.tail r.2.recvs

instance (e : Side) (s : Sys) (a : Action) : Decidable (e.Keeps s a) :=
  inferInstanceAs (Decidable (∀ _ ∈ _, _))

/-- **The condition on a step**: the test server keeps the order of sending
and no send list of the other overflows, neither loses a tail, and, where
`strict` holds, no message to the worker of the user centre server is
lost. -/
def Talks (strict : Prop) (x y : Side) (p : Pair) : PairAction → Prop
  | .test a => ∀ b ∈ a.inEpoll, SendsInOrder x.cfg x.fd x.t p.test.sys b ∧ x.Keeps p.test.sys b
  | .centre a =>
    (∀ b ∈ a.inEpoll, SwitchFits y.cfg y.fd p.centre.sys b ∧ y.Keeps p.centre.sys b) ∧
      (strict → Lossless y.cfg p.centre a)

instance (strict : Prop) [Decidable strict] (x y : Side) (p : Pair) :
    DecidablePred (Talks strict x y p) := fun a => by
  cases a <;> unfold Talks <;> infer_instance

variable {strict : Prop} {x y e : Side} {now now' : ℤ} {p p' : Pair} {s s' : Sys} {b : Action}
  {o : Option Action}

/-- **What a step does**: the inversion of `Pair.next`. -/
inductive PairStep (x y : Side) (p : Pair) : PairAction → Pair → Prop
  | test {a : TestAction} {v : Service}
      (htaken : p.back ++ x.takes p.test.sys a.inEpoll <+: writtenBytes y.fd y.t p.centre.sys.hist)
      (hnext : TestProj.next x.cfg p.test a = some v) :
    PairStep x y p (.test a) { p with test := v, back := p.back ++ x.takes p.test.sys a.inEpoll }
  | centre {a : ServiceAction} {v : Service}
      (htaken : p.sent ++ y.takes p.centre.sys a.inEpoll <+: writtenBytes x.fd x.t p.test.sys.hist)
      (hnext : p.centre.next y.cfg a = some v) :
    PairStep x y p (.centre a)
      { p with centre := v, sent := p.sent ++ y.takes p.centre.sys a.inEpoll }

theorem pairStep_of_next {a : PairAction} (h : p.next x y a = some p') : PairStep x y p a p' := by
  cases a with
  | test a =>
    simp only [Pair.next] at h
    split at h
    · obtain ⟨v, hv, rfl⟩ := Option.map_eq_some_iff.mp h
      exact .test ‹_› hv
    · cases h
  | centre a =>
    simp only [Pair.next] at h
    split at h
    · obtain ⟨v, hv, rfl⟩ := Option.map_eq_some_iff.mp h
      exact .centre ‹_› hv
    · cases h

/-! ## Each server by itself -/

/-- The test server runs. -/
theorem reach_test {ok : Pair → PairAction → Prop} (h : (pair x y now now').Reach ok p) :
    (testServer x.cfg now).Reachable p.test := by
  refine h.simulates (f := Pair.test) rfl fun p a p' _ _ _ hnext => ?_
  cases pairStep_of_next hnext with
  | @test a v _ hv => exact .inr ⟨a, trivial, hv⟩
  | centre => exact .inl rfl

/-- The user centre server runs, and loses no message where none is lost. -/
theorem reach_centre (h : (pair x y now now').Reach (Talks strict x y) p) :
    (service y.cfg now').Reach (fun v a => strict → Lossless y.cfg v a) p.centre := by
  refine h.simulates (f := Pair.centre) rfl fun p a p' _ _ hok hnext => ?_
  cases pairStep_of_next hnext with
  | test => exact .inl rfl
  | @centre a v _ hv => exact .inr ⟨a, hok.2, hv⟩

/-! ## The link each way -/

theorem Side.takes_eq (h : PartOf b o) : e.takes s o = takenBy e.cfg e.id s b := by
  rw [h.takenBy]
  cases o <;> rfl

theorem Side.keeps_of_part (h : PartOf b o) (hok : ∀ b ∈ o, e.Keeps s b) : e.Keeps s b :=
  h.reads hok

/-- Only the epoll thread switches the maps. -/
theorem switchFits_of_part {cfg : Config} {fd : ℤ} (h : PartOf b o)
    (hok : ∀ b ∈ o, SwitchFits cfg fd s b) : SwitchFits cfg fd s b := by
  rcases h with rfl | ⟨rfl, hb⟩
  · exact hok b rfl
  · intro hswitch
    cases b with
    | switchSendMap => cases hb
    | _ => cases hswitch

/-- What is not the epoll thread's and accepts nothing keeps the order of
sending. -/
theorem sendsInOrder_of_part {cfg : Config} {fd t : ℤ} (h : PartOf b o)
    (hown : b.ofEpoll = true ∨ b.mayAccept = false)
    (hok : ∀ b ∈ o, SendsInOrder cfg fd t s b) : SendsInOrder cfg fd t s b := by
  rcases h with rfl | ⟨rfl, hb⟩
  · exact hok b rfl
  · have hmay : b.mayAccept = false := hown.resolve_left (by rw [hb]; decide)
    refine ⟨switchFits_of_part (o := none) (.inr ⟨rfl, hb⟩) nofun, fun s' hs' => .inl ?_⟩
    rw [← flatten_acceptedFrames, ((step_of_next hs').noneAccepted hmay).acceptedFrames_eq,
      flatten_acceptedFrames]

/-- **The user centre server answers in time**: what it queues is addressed
to a connection that has its index. -/
theorem inTime {cfg : Config} {v v' : Service} {a : ServiceAction} (hs : Serves cfg v)
    (hstep : ServiceStep cfg v a v') (fd t : ℤ) :
    acceptedBytes fd t v'.sys.hist = acceptedBytes fd t v.sys.hist ∨ Given v.sys fd t := by
  cases hstep with
  | epoll ha hnext =>
    refine .inl ?_
    rw [← flatten_acceptedFrames,
      (noneAccepted_of_epoll (step_of_next hnext) ha hs.clients).acceptedFrames_eq,
      flatten_acceptedFrames]
  | outQueue => exact .inl rfl
  | @processMessage pdata hwork =>
    obtain ⟨m, rfl, hagrees, -⟩ := hs.inHand hwork
    rcases processMessage_cases v.sys hagrees.type hagrees.fd rfl with
      ⟨-, d, hfd, htime, -, heq⟩ | ⟨-, heq⟩ <;> rw [heq]
    · by_cases haddr : d.fddat = fd ∧ d.connectTime = t
      · obtain ⟨rfl, rfl⟩ := haddr
        obtain ⟨l, hl⟩ := hagrees.created
        exact .inr (given_iff.mpr ⟨m.id, l, by rw [hfd, htime]; exact hl⟩)
      · refine .inl ?_
        unfold addMsg
        simp only
        split
        · simp [acceptedBytes, bytesFor, Addressed, haddr]
        · rfl
    · exact .inl rfl
  | close =>
    refine .inl ?_
    unfold createCloseConnectEvent
    split <;> rfl

/-- **What the test server sends is conveyed** to the user centre server. -/
theorem reach_sent (h : (pair x y now now').Reach (Talks strict x y) p) :
    (link x.cfg y.cfg x.fd x.t y.id now now').Reach (Conveys x.cfg y.cfg x.fd x.t y.id)
      ⟨p.test.sys, p.centre.sys, p.sent⟩ := by
  refine h.simulates (N := link x.cfg y.cfg x.fd x.t y.id now now')
    (f := fun p => ⟨p.test.sys, p.centre.sys, p.sent⟩) rfl fun p a p' hreach _ hok hnext => ?_
  cases pairStep_of_next hnext with
  | @test a v _ hv =>
    rcases simulates (testStep_of_next hv) with ⟨heq, -⟩ | ⟨b, hb, hframed, hpart, hown⟩
    · exact .inl (by simp only [heq])
    · refine .inr ⟨.sender b, ⟨?_, hframed⟩, ?_⟩
      · exact sendsInOrder_of_part hpart hown fun c hc => (hok c hc).1
      · simp only [link, Link.next, hb, Option.map_some]
  | @centre a v htaken hv =>
    obtain ⟨-, hs⟩ := Serves.of_reach (reach_centre hreach)
    rcases hs.simulates (serviceStep_of_next hv) with ⟨heq, hnone⟩ | ⟨b, hb, -, hpart⟩
    · refine .inl ?_
      simp only [heq, hnone, Side.takes, List.append_nil]
    · rw [Side.takes_eq hpart] at htaken
      refine .inr ⟨.receiver b, y.keeps_of_part hpart fun c hc => (hok.1 c hc).2, ?_⟩
      simp only [link, Link.next, hb, Option.map_some, if_pos htaken, Side.takes_eq hpart]

/-- **And what the user centre server answers** to the test server. -/
theorem reach_back (h : (pair x y now now').Reach (Talks strict x y) p) :
    (link y.cfg x.cfg y.fd y.t x.id now' now).Reach (Conveys y.cfg x.cfg y.fd y.t x.id)
      ⟨p.centre.sys, p.test.sys, p.back⟩ := by
  refine h.simulates (N := link y.cfg x.cfg y.fd y.t x.id now' now)
    (f := fun p => ⟨p.centre.sys, p.test.sys, p.back⟩) rfl fun p a p' hreach _ hok hnext => ?_
  cases pairStep_of_next hnext with
  | @test a v htaken hv =>
    rcases simulates (testStep_of_next hv) with ⟨heq, hnone⟩ | ⟨b, hb, -, hpart, -⟩
    · refine .inl ?_
      simp only [heq, hnone, Side.takes, List.append_nil]
    · rw [Side.takes_eq hpart] at htaken
      refine .inr ⟨.receiver b, x.keeps_of_part hpart fun c hc => (hok c hc).2, ?_⟩
      simp only [link, Link.next, hb, Option.map_some, if_pos htaken, Side.takes_eq hpart]
  | @centre a v _ hv =>
    obtain ⟨-, hs⟩ := Serves.of_reach (reach_centre hreach)
    have hstep := serviceStep_of_next hv
    rcases hs.simulates hstep with ⟨heq, -⟩ | ⟨b, hb, hframed, hpart⟩
    · exact .inl (by simp only [heq])
    · have hfits : SwitchFits y.cfg y.fd p.centre.sys b :=
        switchFits_of_part hpart fun c hc => (hok.1 c hc).1
      have hin : AcceptsInTime y.cfg y.fd y.t p.centre.sys b := by
        intro s' hs'
        rw [Option.mem_def, hb, Option.some.injEq] at hs'
        exact hs' ▸ inTime hs hstep y.fd y.t
      refine .inr ⟨.sender b, ⟨⟨hfits, hin⟩, hframed⟩, ?_⟩
      simp only [link, Link.next, hb, Option.map_some]

/-! ## What a connection of pings asks for -/

/-- The bytes of a frame. -/
def frameOf : Notice → Option (List UInt8)
  | .frame bs => some bs
  | _ => none

theorem framesOf_eq (id : ℕ) (hist : List Record) :
    framesOf id hist = (notices id hist).filterMap frameOf := by
  rw [notices, List.filterMap_filterMap]
  refine List.filterMap_congr fun r _ => ?_
  cases r with
  | note i n =>
    by_cases hid : i = id <;> cases n <;> simp [noticeOf, frameOf, hid]
  | _ => rfl

/-- Frames that are pings all ask for an answer. -/
theorem count_pings {fs : List Notice} (hfs : Frames fs)
    (hpings : ∀ bs ∈ fs.filterMap frameOf, bs = pingBytes) :
    (fs.countP fun n => (branchOf n).answers) = (fs.filterMap frameOf).length := by
  induction fs with
  | nil => rfl
  | cons n fs ih =>
    obtain ⟨⟨bs, rfl⟩, hrest⟩ := List.forall_mem_cons.mp hfs
    simp only [List.filterMap_cons, frameOf, List.forall_mem_cons] at hpings ⊢
    obtain ⟨rfl, hpings⟩ := hpings
    have hanswers : (branchOf (.frame pingBytes)).answers = true := by decide
    rw [List.countP_cons, if_pos hanswers, ih hrest hpings, List.length_cons]

/-- **A connection on which pings come in** asks for one answer to itself and
for one to each of them. -/
theorem asked_of_pings {cfg : Config} {id : ℕ} {fd t : ℤ} (h : (server cfg now).Reachable s)
    (hid : Created s id fd t) (hpings : ∀ f ∈ framesOf id s.hist, f = pingBytes) :
    asked id s.hist = 1 + (framesOf id s.hist).length := by
  have hlife : Life False id s := life_of_reach (h.mono fun _ _ _ h => h.elim) id
  obtain ⟨fs, ending, hfs, hending, hn⟩ : ∃ fs ending, Frames fs ∧
      (ending = [] ∨ ending = [Notice.disconnected]) ∧
      notices id s.hist = .connected :: (fs ++ ending) := by
    rcases hlife with ⟨hknown, -⟩ | ⟨-, -, fs, hfs, hn⟩ | ⟨-, -, fs, hfs, hn⟩ |
      ⟨-, -, -, fs, hfs, hn⟩
    · obtain ⟨l, hl⟩ := hid
      exact absurd ⟨fd, t, l, hl⟩ hknown
    · exact ⟨fs, [], hfs, .inl rfl, by rw [hn, List.append_nil]⟩
    · exact ⟨fs, [.disconnected], hfs, .inr rfl, hn⟩
    · exact ⟨fs, [], hfs, .inl rfl, by rw [hn, List.append_nil]⟩
  have hnone : ending.filterMap frameOf = [] ∧
      (ending.countP fun n => (branchOf n).answers) = 0 := by
    rcases hending with rfl | rfl <;> exact ⟨rfl, rfl⟩
  have hframes : framesOf id s.hist = fs.filterMap frameOf := by
    rw [framesOf_eq, hn, List.filterMap_cons, List.filterMap_append, hnone.1, List.append_nil]
    rfl
  rw [hframes] at hpings ⊢
  have hanswers : (branchOf .connected).answers = true := rfl
  rw [asked, hn, List.countP_cons, if_pos hanswers, List.countP_append, hnone.2,
    count_pings hfs hpings]
  omega

/-- A peer that sends pings alone has sent no frame of another kind. -/
theorem not_misbehaved {id : ℕ} {fd t : ℤ} (haddr : Addresses s id fd t)
    (hpings : ∀ f ∈ framesOf id s.hist, f = pingBytes) : ¬ Misbehaved s fd t := by
  rintro ⟨i, bs, ⟨l, hl⟩, hnote, hmain⟩
  have hi : i = id := (haddr i fd t l hl).mpr ⟨rfl, rfl⟩
  subst hi
  have hmem : bs ∈ framesOf i s.hist :=
    List.mem_filterMap.mpr ⟨.note i (.frame bs), hnote, if_pos rfl⟩
  rw [hpings bs hmem] at hmain
  exact hmain (by decide)

/-! ## The conversation -/

/-- **The two exchange pings, and no ping begets more than one other.** In
every run of the two servers in which what is sent is conveyed: each end
receives pings and nothing else; neither worker has the connection closed;
the test server receives no more than the user centre server has queued for
it, that is no more than one answer to the connection and one to each ping
it received, and it received no more than the epoll thread of the test
server has queued. Where no message is lost on its way to the worker, every
ping that was received is answered or waits for the worker. -/
theorem keepalive_pair (hx : x.cfg.maxSendList < 2 ^ 31) (hy : y.cfg.maxSendList < 2 ^ 31)
    (h : (pair x y now now').Reach (Talks strict x y) p)
    (hcalls : p.test.sys.calls < 2 ^ 32 - 2) (hcalls' : p.centre.sys.calls < 2 ^ 32 - 2)
    (hid : Created p.test.sys x.id x.fd x.t) (hid' : Created p.centre.sys y.id y.fd y.t) :
    ((∀ f ∈ framesOf x.id p.test.sys.hist, f = [0, 8, 0, 20, 0, 0, 0, 0]) ∧
      ∀ f ∈ framesOf y.id p.centre.sys.hist, f = [0, 8, 0, 20, 0, 0, 0, 0]) ∧
    (.closeClient x.fd x.t ∉ p.test.sys.eventlist ∧
      .closeClient y.fd y.t ∉ p.centre.sys.eventlist) ∧
    (framesOf x.id p.test.sys.hist).length ≤ replies y.fd y.t p.centre.sys.hist ∧
    replies y.fd y.t p.centre.sys.hist + waiting y.cfg.host y.fd y.t p.centre.pending ≤
      1 + (framesOf y.id p.centre.sys.hist).length ∧
    (strict → replies y.fd y.t p.centre.sys.hist +
      waiting y.cfg.host y.fd y.t p.centre.pending = 1 + (framesOf y.id p.centre.sys.hist).length) ∧
    (framesOf y.id p.centre.sys.hist).length ≤
      (acceptedFrames x.fd x.t p.test.sys.hist).length := by
  obtain ⟨hreach, htests⟩ := Tests.of_reach (reach_test h)
  obtain ⟨hreach', hserves⟩ := Serves.of_reach (reach_centre h)
  have haddr := addresses_of_created (Wf.reachable hreach) hcalls hid
  have haddr' := addresses_of_created (Wf.reachable hreach') hcalls' hid'
  have hsent := (Linked.of_reach (reach_sent h)).frames_front hx hcalls
  have hback := (Linked.of_reach (reach_back h)).frames_front hy hcalls'
  have hpings : ∀ f ∈ framesOf x.id p.test.sys.hist, f = pingBytes := by
    intro f hf
    obtain ⟨q, hq, -, rfl⟩ := accepted_of_mem (hback.subset hf)
    exact (hserves.replies q hq).1
  have hpings' : ∀ f ∈ framesOf y.id p.centre.sys.hist, f = pingBytes := by
    intro f hf
    obtain ⟨q, hq, -, rfl⟩ := accepted_of_mem (hsent.subset hf)
    exact htests.pings q hq
  obtain ⟨hle, heq⟩ : Covers strict _ _ := Balanced.of_reach (reach_centre h) haddr'
  rw [asked_of_pings hreach' hid' hpings'] at hle heq
  refine ⟨⟨hpings, hpings'⟩, ⟨fun hevent => ?_, fun hevent => ?_⟩, hback.length_le, hle, heq,
    hsent.length_le⟩
  · exact not_misbehaved haddr hpings (htests.events _ _ hevent)
  · exact not_misbehaved haddr' hpings' (hserves.events _ _ hevent)

/-- The end at the test server, which connects on 7. -/
def testSide : Side := ⟨peerConfig, 7, 2, 2⟩

/-- The end at the user centre server, which accepts the connection on 7. -/
def centreSide : Side := ⟨smallConfig, 7, 2, 2⟩

/-- The test server connects and sends its first ping. -/
def connectAndPing : List TestAction :=
  List.map .main [.start usercentersvrType, .socket 7, .connectOk 100 0, .publish, .enqueue] ++
    List.map (fun a => .server (.epoll a))
      ([.epollWait [], .flush, .sysEvent, .register true, .sysEvent, .switchSendMap, .scanEnd,
          .keepalive 0, .keepaliveSend 200, .ping, .ping, .ping, .ping, .pingEnd 200,
          .epollWait [], .flush] ++ sendEnd ++
        [.epollWait [⟨⟨7, 2, 2⟩, .epollout⟩], .event { sends := [.sent 8] }, .flush] ++ quietEnd)

/-- The user centre server answers the connection and the ping, and writes
the first answer; the test server reads it. -/
def talk : List PairAction :=
  connectAndPing.map .test ++
    List.map .centre (serve pingBytes ++ List.map .epoll
      [.epollWait [⟨⟨7, 2, 2⟩, .epollout⟩], .event { sends := [.sent 8] }]) ++
    List.map (fun a => .test (.server (.epoll a)))
      [.epollWait [⟨⟨7, 2, 2⟩, .epollin⟩], .event { recvs := [.data pingBytes] }]

/-- One ping was received by each, and two answers were queued. -/
theorem keepalive_pair_talk : ∃ p, (pair testSide centreSide 0 0).Reach
      (Talks True testSide centreSide) p ∧
    framesOf 2 p.test.sys.hist = [pingBytes] ∧ replies 7 2 p.centre.sys.hist = 2 ∧
    .closeClient 7 2 ∉ p.centre.sys.eventlist ∧
    replies 7 2 p.centre.sys.hist + waiting .little 7 2 p.centre.pending =
      1 + (framesOf 2 p.centre.sys.hist).length := by
  have hrun : ∃ p, (pair testSide centreSide 0 0).Reach (Talks True testSide centreSide) p ∧
      (p.test.sys.calls < 2 ^ 32 - 2 ∧ p.centre.sys.calls < 2 ^ 32 - 2) ∧
      (.index 2 7 2 1 ∈ p.test.sys.hist ∧ .index 2 7 2 0 ∈ p.centre.sys.hist) ∧
      framesOf 2 p.test.sys.hist = [pingBytes] ∧ replies 7 2 p.centre.sys.hist = 2 :=
    Machine.exists_reach_of_exec talk (by decide)
  obtain ⟨p, hp, ⟨hcalls, hcalls'⟩, ⟨hindex, hindex'⟩, hframes, hreplies⟩ := hrun
  obtain ⟨-, ⟨-, hopen⟩, -, -, hanswered, -⟩ := keepalive_pair (by decide) (by decide) hp hcalls
    hcalls' ⟨1, hindex⟩ ⟨0, hindex'⟩
  exact ⟨p, hp, hframes, hreplies, hopen, hanswered trivial⟩

end TestProj

end EupuServer
