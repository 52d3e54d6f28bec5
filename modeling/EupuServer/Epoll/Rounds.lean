import EupuServer.Common.Progress
import EupuServer.Epoll.Answers
import EupuServer.Epoll.Wf
import Mathlib.Data.Prod.Lex
/-!
# The rounds of the epoll thread

The loop of the epoll thread comes back to `epoll_wait`. What is left of a
round is a rank: the place in the loop, and within it how much there is
still to go through. No step of another thread raises it, since the event
queue takes nothing in while the epoll thread goes through it; and a step of
the epoll thread lowers it, but for `accept` when it has a client and for
`recv` when the loop asks again (`RoundStep.lowers`). So the thread goes
through its rounds for ever, and empties the event queue in each, or it
accepts clients for ever, or reads from one connection for ever
(`rounds_recur`). A peer that keeps its socket readable brings the last of
these about (`readsForEver_pings`).
-/

namespace EupuServer

namespace Epoll

open Network

/-! ## What is left of a round -/

/-- **What is left of a round** at a place in the loop, where `events` wait in
the event queue. -/
def Pc.rank (events : ℕ) : Pc → ℕ ×ₗ ℕ
  | .accept evs => toLex (8, 2 * evs.length + 1)
  | .batch evs => toLex (8, 2 * evs.length)
  | .adding _ => toLex (7, 2 * events + 1)
  | .sysEvent => toLex (7, 2 * events)
  | .switch => toLex (6, 0)
  | .scan fds _ => toLex (5, fds.length)
  | .keepalive => toLex (4, 0)
  | .sweep timelist => toLex (3, timelist.length)
  | .keepaliveSend => toLex (2, 0)
  | .ping types => toLex (1, types.length)
  | .wait => toLex (0, 0)

/-- What is left of the round in `s`. -/
def rank (s : Sys) : ℕ ×ₗ ℕ := s.pc.rank s.eventlist.length

variable {cfg : Config} {s s' : Sys} {a : Action}

/-- Events that come in while the queue is not gone through count for
nothing. -/
theorem rank_of_unlocked (hpc : s'.pc = s.pc) (hlock : s.eventsLocked = false) :
    rank s' = rank s := by
  rw [rank, rank, hpc]
  unfold Sys.eventsLocked at hlock
  cases hs : s.pc <;> simp_all [Pc.rank]

/-- A later place in the loop. -/
theorem rank_lt_of_place {p p' n n' : ℕ} {pc pc' : Pc} {l l' : ℕ} (h : pc.rank l = toLex (p, n))
    (h' : pc'.rank l' = toLex (p', n')) (hlt : p' < p ∨ p' = p ∧ n' < n) :
    pc'.rank l' < pc.rank l := by
  rw [h, h', Prod.Lex.toLex_lt_toLex]
  exact hlt

/-! ## What a step leaves -/

/-- **What a step does to the rank**: it leaves it alone, where the step is
another thread's or a client is accepted, or lowers it. -/
inductive Lowers (s : Sys) (a : Action) (s' : Sys) : Prop
  | other (ha : a.ofEpoll = false) (hpc : s'.pc = s.pc) (hrank : rank s' = rank s)
  | accepted {evs : List EpollEvent} (ha : a.ofEpoll = true) (hpc : s.pc = .accept evs)
      (hpc' : s'.pc = .accept evs)
  | lower (ha : a.ofEpoll = true) (hlt : rank s' < rank s)

/-- What is left of a round does not grow. -/
theorem Lowers.rank_le (h : Lowers s a s') : rank s' ≤ rank s := by
  cases h with
  | other _ _ hrank => exact hrank.le
  | accepted _ hpc hpc' =>
    rw [rank, rank, hpc, hpc']
    exact le_rfl
  | lower _ hlt => exact hlt.le

/-- **A step of the epoll thread leaves less of the round**, but for the
start of one and a client that is accepted. -/
theorem Step.lowers (h : Step cfg s a s') (hwait : ∀ evs, a ≠ .epollWait evs) : Lowers s a s' := by
  cases h with
  | epollWait => exact absurd rfl (hwait _)
  | event hpc =>
    refine .lower rfl (rank_lt_of_place (by rw [hpc]; rfl) rfl (.inr ⟨rfl, ?_⟩))
    simp only [List.length_cons]
    omega
  | listen hpc =>
    refine .lower rfl (rank_lt_of_place (by rw [hpc]; rfl) rfl (.inr ⟨rfl, ?_⟩))
    simp only [List.length_cons]
    omega
  | acceptFail hpc =>
    exact .lower rfl (rank_lt_of_place (by rw [hpc]; rfl) rfl (.inr ⟨rfl, by omega⟩))
  | @acceptConn evs fd ip port b₁ b₂ b₃ b₄ now ctlOk hpc =>
    refine .accepted rfl hpc ?_
    rcases acceptConn_cases cfg s fd ip port b₁ b₂ b₃ b₄ now ctlOk with heq | ⟨-, heq⟩ <;>
      rw [heq] <;> exact hpc
  | flush hpc =>
    exact .lower rfl (rank_lt_of_place (by rw [hpc]; rfl) rfl (.inl (by decide)))
  | sysEnd hpc =>
    exact .lower rfl (rank_lt_of_place (by rw [hpc]; rfl) rfl (.inl (by decide)))
  | @sysClose fd conntime es hpc hlst =>
    -- the event that is handled is off the queue
    refine .lower rfl ?_
    have hpc' : (closeClient cfg (s.withEvents es) fd conntime).pc = .sysEvent := by
      rw [closeClient_eq]
      exact hpc
    have hes : (closeClient cfg (s.withEvents es) fd conntime).eventlist = es := by
      rw [closeClient_eq]
      rfl
    rw [rank, rank, hpc', hpc, hes, hlst]
    exact rank_lt_of_place rfl rfl (.inr ⟨rfl, by simp only [List.length_cons]; omega⟩)
  | @sysAdd sock es hpc hlst =>
    refine .lower rfl ?_
    rw [addClientEvent_eq, rank, rank, hpc, hlst]
    exact rank_lt_of_place rfl rfl (.inr ⟨rfl, by
      simp only [born, announce, getIndex, Sys.withEvents, Sys.push, Sys.goto, List.length_cons]
      omega⟩)
  | @register sock ctlOk hpc =>
    refine .lower rfl ?_
    have hevents : (addClientToEpoll cfg s sock ctlOk).eventlist = s.eventlist := by
      rcases addClientToEpoll_cases cfg s sock ctlOk with ⟨-, es, heq, -⟩ | ⟨-, heq⟩ <;> rw [heq]
    rw [rank, rank, hpc, Sys.goto, hevents]
    exact rank_lt_of_place rfl rfl (.inr ⟨rfl, by omega⟩)
  | switchSendMap hpc =>
    exact .lower rfl (rank_lt_of_place (by rw [hpc]; rfl) rfl (.inl (by decide)))
  | scan hpc =>
    exact .lower rfl (rank_lt_of_place (by rw [hpc]; rfl) rfl (.inr ⟨rfl, by simp⟩))
  | scanEnd hpc =>
    exact .lower rfl (rank_lt_of_place (by rw [hpc]; rfl) rfl (.inl (by decide)))
  | keepalive hpc fds pc hto =>
    rcases hto with rfl | rfl <;>
      exact .lower rfl (rank_lt_of_place (by rw [hpc]; rfl) rfl (.inl (by decide)))
  | sweep hpc =>
    exact .lower rfl (rank_lt_of_place (by rw [hpc]; rfl) rfl (.inr ⟨rfl, by simp⟩))
  | sweepEnd hpc =>
    exact .lower rfl (rank_lt_of_place (by rw [hpc]; rfl) rfl (.inl (by decide)))
  | keepaliveSend hpc pc hto =>
    rcases hto with rfl | rfl <;>
      exact .lower rfl (rank_lt_of_place (by rw [hpc]; rfl) rfl (.inl (by decide)))
  | ping hpc =>
    exact .lower rfl (rank_lt_of_place (by rw [hpc]; rfl) rfl (.inr ⟨rfl, by simp⟩))
  | pingEnd hpc =>
    exact .lower rfl (rank_lt_of_place (by rw [hpc]; rfl) rfl (.inl (by decide)))
  | addMsg => exact .other rfl rfl rfl
  | @sendMsgToServer ntype m =>
    obtain ⟨cur, allocs, recs, -, heq⟩ := sendMsgToServer_frame cfg s ntype m
    rw [heq]
    exact .other rfl rfl rfl
  | @createCloseConnectEvent fd conntime hlock =>
    have hpc : (Epoll.createCloseConnectEvent s fd conntime).pc = s.pc := by
      unfold Epoll.createCloseConnectEvent
      split <;> rfl
    exact .other rfl hpc (rank_of_unlocked hpc hlock)
  | enqueue hpc hlock => exact .other rfl rfl (rank_of_unlocked rfl hlock)
  | outQueue | start | startNot | socket | socketFail | connectFail | connectOk | publish
  | enqueueFail => exact .other rfl rfl rfl

/-! ## The event queue -/

/-- Whether the epoll thread has still to go through the event queue in this
round. -/
def Pc.beforeSwitch : Pc → Bool
  | .batch _ | .accept _ | .sysEvent | .adding _ => true
  | _ => false

/-- The epoll thread leaves `doSystemEvent` only where the queue is empty. -/
theorem Step.eventlist_eq_nil (h : Step cfg s a s') (hin : s.pc.beforeSwitch = true)
    (hout : s'.pc.beforeSwitch = false) : s.eventlist = [] := by
  have hstays : s'.pc = s.pc → s.eventlist = [] := fun hpc => by
    rw [hpc, hin] at hout
    cases hout
  cases h with
  | sysEnd hpc hlst => exact hlst
  | epollWait hpc | switchSendMap hpc | scan hpc | scanEnd hpc | keepalive hpc | sweep hpc
  | sweepEnd hpc | keepaliveSend hpc | ping hpc | pingEnd hpc =>
    rw [hpc] at hin
    cases hin
  | event | listen | acceptFail | flush | register => cases hout
  | @acceptConn evs fd ip port b₁ b₂ b₃ b₄ now ctlOk hpc =>
    refine hstays ?_
    rcases acceptConn_cases cfg s fd ip port b₁ b₂ b₃ b₄ now ctlOk with heq | ⟨-, heq⟩ <;> rw [heq]
    rfl
  | @sysClose fd conntime es hpc hlst =>
    refine hstays ?_
    rw [closeClient_eq]
    rfl
  | sysAdd =>
    rw [addClientEvent_eq] at hout
    cases hout
  | sendMsgToServer => exact hstays (sendMsgToServer_pc _ _)
  | createCloseConnectEvent =>
    refine hstays ?_
    unfold Epoll.createCloseConnectEvent
    split <;> rfl
  | addMsg | outQueue | start | startNot | socket | socketFail | connectFail | connectOk | publish
  | enqueue | enqueueFail => exact hstays rfl

/-! ## Round after round -/

/-- The start of a round. -/
def IsWait : Action → Prop
  | .epollWait _ => True
  | _ => False

def RoundAction.IsWait : RoundAction → Prop
  | .recv _ => False
  | .step a => Epoll.IsWait a

/-- A round starts in front of the event queue, and not behind it. -/
theorem Step.beforeSwitch (h : Step cfg s a s') (hwait : IsWait a) :
    s.pc.beforeSwitch = false ∧ s'.pc.beforeSwitch = true := by
  cases h with
  | epollWait hpc =>
    rw [hpc]
    exact ⟨rfl, rfl⟩
  | _ => exact hwait.elim

/-- **What a step does to the rank**, answer by answer: it is what a step of
the server does to it, or the receive loop has an answer and the server
stands still. -/
inductive RoundLowers (s : RoundSys) (a : RoundAction) (s' : RoundSys) : Prop
  | answered {e : EpollEvent} {evs : List EpollEvent} {r : RecvResult} (ha : a = .recv r)
      (hpc : s.pc = .batch (e :: evs)) (hin : e.kind = .epollin) (hsys : s'.toSys = s.toSys)
  | step {b : Action} (ha : a = .step b) (hlowers : Lowers s.toSys b s'.toSys)

variable {log : Bool} {t t' : RoundSys} {b : RoundAction}

/-- **A step of the epoll thread leaves less of the round**, but for the
start of one, a client that is accepted, and an answer of `recv`. -/
theorem RoundStep.lowers (h : RoundStep cfg t b t') (hwait : ¬ b.IsWait) : RoundLowers t b t' := by
  cases h with
  | recv hasks =>
    obtain ⟨e, evs, hpc, hin⟩ := pc_of_asks hasks
    exact .answered rfl hpc hin rfl
  | event _ _ hstep => exact .step rfl (hstep.lowers nofun)
  | other _ hstep =>
    refine .step rfl (hstep.lowers ?_)
    rintro evs rfl
    exact hwait trivial

/-- What is left of a round does not grow. -/
theorem RoundLowers.rank_le (h : RoundLowers t b t') : rank t'.toSys ≤ rank t.toSys := by
  cases h with
  | answered _ _ _ hsys => rw [hsys]
  | step _ hlowers => exact hlowers.rank_le

/-- Where each round ends, the queue is emptied in each. -/
theorem often_empty {now : ℤ} {r : (rounds cfg log now).Run}
    (h : r.Often fun _ a => a.IsWait) : r.Often fun s _ => s.eventlist = [] := by
  have hwait : ∀ n, (r.label n).IsWait →
      (r.state n).pc.beforeSwitch = false ∧ (r.state (n + 1)).pc.beforeSwitch = true := by
    intro n hn
    have hstep := roundStep_of_next (r.step n)
    generalize r.label n = a, r.state (n + 1) = s' at hn hstep
    cases hstep with
    | recv => exact hn.elim
    | event => exact hn.elim
    | other _ hstep => exact hstep.beforeSwitch hn
  intro m
  obtain ⟨n, hmn, hn⟩ := h m
  obtain ⟨k, hnk, hk⟩ := h (n + 1)
  obtain ⟨i, hni, -, hin, hout⟩ := Machine.Run.exists_leaves
    (P := fun s : RoundSys => s.pc.beforeSwitch = true) hnk (hwait n hn).2
    (by simp [(hwait k hk).1])
  rw [Bool.not_eq_true] at hout
  refine ⟨i, by omega, ?_⟩
  have hstep := roundStep_of_next (r.step i)
  generalize r.label i = a, r.state (i + 1) = s' at hout hstep
  cases hstep with
  | recv =>
    rw [hin] at hout
    cases hout
  | event _ _ hstep | other _ hstep => exact hstep.eventlist_eq_nil hin hout

/-- **Where the rank has settled** and the epoll thread still takes steps, it
stays at one place for ever: in one call of `doAccept`, or in one receive
loop. -/
theorem stays_of_settled {state : ℕ → RoundSys} {label : ℕ → RoundAction} {n : ℕ}
    (hlowers : ∀ k, n ≤ k → RoundLowers (state k) (label k) (state (k + 1)))
    (hsame : ∀ k, n ≤ k → rank (state (k + 1)).toSys = rank (state k).toSys)
    (hepoll : (label n).ofEpoll = true) :
    (∃ evs, ∀ k, n ≤ k → (state k).pc = .accept evs) ∨
      ∃ e evs, e.kind = .epollin ∧ ∀ k, n ≤ k → (state k).pc = .batch (e :: evs) := by
  -- no step moves the thread any more
  have hstill : ∀ k, n ≤ k → (state (k + 1)).pc = (state k).pc := by
    intro k hk
    cases hlowers k hk with
    | answered _ _ _ hsys => rw [hsys]
    | step _ hstep =>
      cases hstep with
      | other _ hpc => exact hpc
      | accepted _ hpc hpc' => rw [hpc, hpc']
      | lower _ hlt => exact absurd (hsame k hk) hlt.ne
  have hpc : ∀ k, n ≤ k → (state k).pc = (state n).pc := by
    intro k hk
    induction k, hk using Nat.le_induction with
    | base => rfl
    | succ k hk ih => exact (hstill k hk).trans ih
  cases hlowers n le_rfl with
  | @answered e evs r _ hbatch hin => exact .inr ⟨e, evs, hin, fun k hk => (hpc k hk).trans hbatch⟩
  | @step a ha hstep =>
    cases hstep with
    | other ha' =>
      rw [ha] at hepoll
      exact absurd (hepoll.symm.trans ha') (by simp)
    | @accepted evs _ haccept => exact .inl ⟨evs, fun k hk => (hpc k hk).trans haccept⟩
    | lower _ hlt => exact absurd (hsame n le_rfl) hlt.ne

/-- **The epoll thread comes round.** In a run in which it takes steps for
ever it calls `epoll_wait` again and again, and empties the event queue in
between; or it never leaves one call of `doAccept` again, which goes on as
long as there are clients to accept; or it never leaves one call of
`doRecvMessage` again, which goes on as long as `recv` gives bytes or is
interrupted, and never finds the socket empty. -/
theorem rounds_recur {now : ℤ} (r : (rounds cfg log now).Run)
    (hepoll : r.Often fun _ a => a.ofEpoll = true) :
    (r.Often (fun _ a => a.IsWait) ∧ r.Often fun s _ => s.eventlist = []) ∨
      (∃ m evs, ∀ n, m ≤ n → (r.state n).pc = .accept evs) ∨
      ∃ m e evs, e.kind = .epollin ∧ (∀ n, m ≤ n → (r.state n).pc = .batch (e :: evs)) ∧
        (r.Often fun _ a => a.answer.isSome = true) ∧
        ∀ n, m ≤ n → ∀ x ∈ (r.label n).answer, x.goesOn = true := by
  have hlowers : ∀ s a s', (rounds cfg log now).Takes s a s' → ¬ a.IsWait → RoundLowers s a s' :=
    fun s a s' htakes hnot => (roundStep_of_next htakes.2).lowers hnot
  rcases r.settles (fun s => rank s.toSys) (fun _ a => a.IsWait)
    (fun s a s' htakes hnot => (hlowers s a s' htakes hnot).rank_le) with hwait | ⟨m, hm⟩
  · exact .inl ⟨hwait, often_empty hwait⟩
  · -- the rank has settled
    have hstep : ∀ n, m ≤ n → RoundLowers (r.state n) (r.label n) (r.state (n + 1)) := fun n hn =>
      hlowers _ _ _ (r.takes n) (hm n hn).1
    have hsame : ∀ n, m ≤ n → rank (r.state (n + 1)).toSys = rank (r.state n).toSys := fun n hn =>
      (hm (n + 1) (by omega)).2.trans (hm n hn).2.symm
    obtain ⟨n, hmn, hn⟩ := hepoll m
    rcases stays_of_settled (fun k hk => hstep k (by omega))
        (fun k hk => hsame k (by omega)) hn with
      ⟨evs, haccept⟩ | ⟨e, evs, hin, hbatch⟩
    · exact .inr (.inl ⟨n, evs, haccept⟩)
    · -- and each step of the thread is an answer
      have hoften : r.Often fun _ a => a.answer.isSome = true := by
        intro k
        obtain ⟨i, hki, hi⟩ := hepoll (max n k)
        refine ⟨i, by omega, ?_⟩
        cases hstep i (by omega) with
        | answered ha => rw [ha]; rfl
        | step ha hstep' =>
          cases hstep' with
          | other ha' =>
            rw [ha] at hi
            exact absurd (hi.symm.trans ha') (by simp)
          | accepted _ haccept =>
            rw [hbatch i (by omega)] at haccept
            cases haccept
          | lower _ hlt => exact absurd (hsame i (by omega)) hlt.ne
      refine .inr (.inr ⟨n, e, evs, hin, hbatch, hoften, ?_⟩)
      exact goesOn_of_often r.state (fun k => (r.label k).answer)
        (fun k => (roundStep_of_next (r.step k)).asks)
        (fun k hk => (roundStep_of_next (r.step k)).answers
          ((hbatch (k + 1) (by omega)).trans (hbatch k hk).symm)) hoften

/-! ## A peer that keeps the thread reading -/

/-- A frame of the largest size. -/
def largeFrame : List UInt8 := [8, 0, 0, 30, 0, 0, 0, 0] ++ List.replicate 2040 0

/-- Two of them fill the receive buffer. -/
def fullRead : RecvResult := .data [largeFrame, largeFrame].flatten

theorem verdict_largeFrame : netFraming.verdict largeFrame = .frame largeFrame.length := by
  have hlen : largeFrame.length = 2048 := by
    rw [largeFrame, List.length_append, List.length_replicate]
    rfl
  have hsize : Bytes.ofBE (largeFrame.take 2) = 2048 := rfl
  rw [verdict_of_long (by rw [hlen]; decide), hsize, hlen, if_neg (by decide), if_pos le_rfl]

/-- A loop that has read nothing but full buffers asks for more. -/
theorem asks_fullRead {sock : SocketSet} (hread : t.toSys.reading smallConfig = some sock)
    (hpart : sock.partLen = 0) {n : ℕ} (hanswers : t.answers = List.replicate n fullRead) :
    t.asks smallConfig = true := by
  have hlen : largeFrame.length = 2048 := by
    rw [largeFrame, List.length_append, List.length_replicate]
    rfl
  have hfull : [largeFrame, largeFrame].flatten.length = smallConfig.recvbuflen := by
    simp only [List.flatten_cons, List.flatten_nil, List.length_append, List.length_nil, hlen]
    rfl
  have hframes : ∀ f ∈ [largeFrame, largeFrame], netFraming.verdict f = .frame f.length := by
    intro f hf
    rw [List.eq_of_mem_replicate (n := 2) hf]
    exact verdict_largeFrame
  have hweight : ∀ n, n ≤ scriptWeight (List.replicate n fullRead ++ [.error]) := by
    intro n
    induction n with
    | zero => exact Nat.zero_le _
    | succ n ih =>
      rw [List.replicate_succ, List.cons_append, fullRead, scriptWeight]
      rw [fullRead] at ih
      omega
  unfold RoundSys.asks
  rw [hread, hanswers]
  exact decide_eq_true
    (recvLoop_full (by decide) hframes hfull n (Nat.lt_succ_of_le (hweight n)) hpart)

/-- A client is accepted, and epoll reports that it sends. -/
def readableRound : List RoundAction :=
  (acceptRound 7 ++ .flush :: (quietEnd ++ [Action.epollWait [⟨⟨7, 2, 2⟩, .epollin⟩]])).map .step

/-- **A client can keep the thread**: one that sends full buffers of frames for
ever is read for ever, and the thread never comes back to `epoll_wait`. -/
theorem rounds_recur_frames : ∃ r : (rounds smallConfig true 0).Run,
    (r.Often fun _ a => a.ofEpoll = true) ∧ (¬ r.Often fun _ a => a.IsWait) ∧
      ∃ m e evs, e.kind = .epollin ∧ (∀ n, m ≤ n → (r.state n).pc = .batch (e :: evs)) ∧
        (r.Often fun _ a => a.answer.isSome = true) ∧
        ∀ n, m ≤ n → ∀ x ∈ (r.label n).answer, x.goesOn = true := by
  have hrun : ((rounds smallConfig true 0).exec (fun _ _ => True) (rounds smallConfig true 0).init
      readableRound).any (fun s => s.pc = .batch [⟨⟨7, 2, 2⟩, .epollin⟩] ∧ s.answers = [] ∧
        (s.toSys.reading smallConfig).map (·.partLen) = some 0) = true := by
    decide
  obtain ⟨s, hs, hall⟩ := (Option.any_eq_true _ _).mp hrun
  obtain ⟨hpc, hanswers, hpart⟩ := of_decide_eq_true hall
  obtain ⟨sock, hread, hpart⟩ := Option.map_eq_some_iff.mp hpart
  let state : ℕ → RoundSys := fun n => { s with answers := List.replicate n fullRead }
  have hstart : state 0 = s := by
    show { s with answers := [] } = s
    rw [← hanswers]
  have hstep : ∀ n, (rounds smallConfig true 0).next (state n) (.recv fullRead) =
      some (state (n + 1)) := by
    intro n
    have hasks : (state n).asks smallConfig = true := asks_fullRead hread hpart rfl
    show RoundSys.next smallConfig true (state n) (.recv fullRead) = _
    rw [RoundSys.next, if_pos hasks]
    simp only [state, List.replicate_succ']
  let r := Machine.Run.follow _ readableRound hs state (fun _ => .recv fullRead) hstart hstep
  have hlabel : ∀ n, readableRound.length ≤ n → r.label n = .recv fullRead :=
    fun n hn => Machine.Run.follow_label hn
  have hstate : ∀ n, readableRound.length ≤ n →
      (r.state n).pc = .batch [⟨⟨7, 2, 2⟩, .epollin⟩] := by
    intro n hn
    rw [Machine.Run.follow_state hn]
    exact hpc
  have hepoll : r.Often fun _ a => a.ofEpoll = true := fun m =>
    ⟨m + readableRound.length, by omega, by rw [hlabel _ (by omega)]; rfl⟩
  have hnowait : ¬ r.Often fun _ a => a.IsWait := by
    intro hwait
    obtain ⟨n, hn, hwait⟩ := hwait readableRound.length
    rw [hlabel n hn] at hwait
    exact hwait
  refine ⟨r, hepoll, hnowait, ?_⟩
  rcases rounds_recur r hepoll with hround | ⟨m, evs, haccept⟩ | hreads
  · exact absurd hround.1 hnowait
  · have hpc' := haccept (m + readableRound.length) (by omega)
    rw [hstate _ (by omega)] at hpc'
    cases hpc'
  · exact hreads

end Epoll

end EupuServer
