import EupuServer.Worker.Service
/-!
# What a connection is closed for

The worker has a connection closed for a message it was told of it. What the
peer itself sent is the stream that was taken off the connection's socket,
and its frames are these messages as long as no receive loses the tail of
its buffer. So a `CLOSE_CLIENT` event of the worker goes back to a frame in
the stream of that very connection (`closed_for_frame`), and a client that
sends nothing but pings is never closed.
-/

namespace EupuServer

namespace Worker

open Bytes Protocol Network Epoll

/-- **The service, and the stream of connection `id`**: what was taken off its
socket. -/
structure Watched where
  service : Service
  taken : List UInt8

variable (cfg : Config) (id : ℕ)

/-- What a step takes off the stream. -/
def Watched.takes (w : Watched) (a : ServiceAction) : List UInt8 :=
  match a.inEpoll with
  | none => []
  | some b => takenBy cfg id w.service.sys b

/-- A step is one of the service. -/
def Watched.next (w : Watched) (a : ServiceAction) : Option Watched :=
  (w.service.next cfg a).map fun v => ⟨v, w.taken ++ w.takes cfg id a⟩

/-- The service, watched from its start. -/
def watched (now : ℤ) : Machine Watched ServiceAction where
  init := ⟨(service cfg now).init, []⟩
  next := Watched.next cfg id

/-- **The condition on a step**: a receive on the connection loses no tail of
its buffer. -/
def Watched.Keeps (w : Watched) (a : ServiceAction) : Prop :=
  ∀ b ∈ a.inEpoll, ∀ r ∈ readsOf cfg id w.service.sys b,
    KeepsTails cfg.recvbuflen (scriptWeight r.2.recvs + 1) r.1.tail r.2.recvs

instance (w : Watched) : DecidablePred (w.Keeps cfg id) := fun _ =>
  inferInstanceAs (Decidable (∀ _ ∈ _, ∀ _ ∈ _, _))

variable {cfg id} {now : ℤ} {w w' : Watched} {a : ServiceAction} {fd t : ℤ}

/-- The service runs. -/
theorem reach_service {ok : Watched → ServiceAction → Prop} (h : (watched cfg id now).Reach ok w) :
    (service cfg now).Reachable w.service := by
  refine h.simulates (f := Watched.service) rfl fun w a w' _ _ _ hnext => ?_
  obtain ⟨v, hv, rfl⟩ := Option.map_eq_some_iff.mp hnext
  exact .inr ⟨a, trivial, hv⟩

/-- Nothing was taken off a connection that is not there yet. -/
theorem Fed.init (now : ℤ) : Fed id [] (Sys.init cfg now) :=
  ⟨by simp [framesOf, Sys.init], List.nil_prefix, nofun, nofun, fun _ => ⟨rfl, rfl⟩⟩

/-- **What was taken are the frames that are recorded**, and the tail. -/
theorem fed_of_reach (h : (watched cfg id now).Reach (Watched.Keeps cfg id) w) :
    Fed id w.taken w.service.sys := by
  refine h.invariant (I := fun w => Fed id w.taken w.service.sys) (Fed.init now) ?_
  intro w a w' hreach hok hnext hfed
  obtain ⟨v, hv, rfl⟩ := Option.map_eq_some_iff.mp hnext
  obtain ⟨hs, hserves⟩ := Serves.of_reach (reach_service hreach)
  rcases hserves.simulates (serviceStep_of_next hv) with ⟨heq, hnone⟩ | ⟨b, hb, -, hpart⟩
  · rw [heq, Watched.takes, hnone]
    exact (List.append_nil w.taken).symm ▸ hfed
  · have htakes : w.takes cfg id a = takenBy cfg id w.service.sys b := by
      rw [hpart.takenBy, Watched.takes]
      cases a.inEpoll <;> rfl
    rw [htakes]
    exact hfed.step (Wf.reachable hs) (PartsFit.reachable hs) (Unread.reachable hs)
      (hpart.reads hok) hb

/-- A frame that is recorded is one of the stream. -/
theorem Fed.mem_frames {s : Sys} {taken bs : List UInt8} (h : Fed id taken s)
    (hnote : .note id (.frame bs) ∈ s.hist) : bs ∈ (netFraming.split taken).frames := by
  have hmem : bs ∈ framesOf id s.hist :=
    List.mem_filterMap.mpr ⟨_, hnote, if_pos rfl⟩
  obtain ⟨rest, hrest⟩ := h.front
  have hsplit := Framing.split_of_frames h.whole
  have hfront := Framing.split_append (by rw [hsplit]) rest
  rw [← hrest, hfront, hsplit]
  exact List.mem_append_left _ hmem

/-- **The worker closes a connection for a frame its peer sent.** In every
run with fewer indices than there are, in which no receive on the connection
loses the tail of its buffer, an event that closes the connection follows a
frame in the stream that was received over it, and the main id of the frame
is none of the three the worker knows. -/
theorem closed_for_frame (h : (watched cfg id now).Reach (Watched.Keeps cfg id) w)
    (hcalls : w.service.sys.calls < 2 ^ 32 - 2) (hid : Created w.service.sys id fd t)
    (hevent : .closeClient fd t ∈ w.service.sys.eventlist) :
    ∃ f ∈ (netFraming.split w.taken).frames, mainID f ∉ [[0, 11], [0, 12], [0, 20]] := by
  obtain ⟨hs, hserves⟩ := Serves.of_reach (reach_service h)
  obtain ⟨i, bs, ⟨l, hl⟩, hnote, hmain⟩ := hserves.events fd t hevent
  -- the address is that of this connection alone
  have haddr := addresses_of_created (Wf.reachable hs) hcalls hid
  obtain rfl : i = id := (haddr i fd t l hl).mpr ⟨rfl, rfl⟩
  exact ⟨bs, Fed.mem_frames (fed_of_reach h) hnote, hmain⟩

/-- A client that sends `C2S_DATA` behind a ping. -/
theorem closed_for_frame_data : ∃ w,
    (watched smallConfig 2 0).Reach (Watched.Keeps smallConfig 2) w ∧
    .closeClient 7 2 ∈ w.service.sys.eventlist ∧
    w.taken = pingBytes ++ [0, 8, 0, 30, 0, 0, 0, 0] ∧
    ∃ f ∈ (netFraming.split w.taken).frames, mainID f ∉ [[0, 11], [0, 12], [0, 20]] := by
  have hrun : ∃ w, (watched smallConfig 2 0).Reach (Watched.Keeps smallConfig 2) w ∧
      w.service.sys.calls < 2 ^ 32 - 2 ∧ .index 2 7 2 0 ∈ w.service.sys.hist ∧
      .closeClient 7 2 ∈ w.service.sys.eventlist ∧
      w.taken = pingBytes ++ [0, 8, 0, 30, 0, 0, 0, 0] :=
    Machine.exists_reach_of_exec (serve (pingBytes ++ [0, 8, 0, 30, 0, 0, 0, 0]) ++
      [.outQueue, .processMessage, .createCloseConnectEvent]) (by decide)
  obtain ⟨w, hw, hcalls, hindex, hevent, htaken⟩ := hrun
  exact ⟨w, hw, hevent, htaken, closed_for_frame hw hcalls ⟨0, hindex⟩ hevent⟩

/-- A ping that brings two bytes of its own, and four more. -/
def fivePings : List UInt8 :=
  [0, 10, 0, 20, 0, 0, 0, 0, 1, 2] ++ (pingBytes ++ pingBytes ++ pingBytes ++ pingBytes)

/-- They are read in two pieces, and the first ends inside a header. The
answers are sent in between. -/
def servePieces : List ServiceAction :=
  let answer := [.epollWait [⟨⟨7, 2, 2⟩, .epollout⟩], .event { sends := [.sent 8] }, .flush]
  serve (fivePings.take 12) ++
    List.map .epoll (answer ++ sendEnd ++ answer ++ quietEnd ++
      [.epollWait [⟨⟨7, 2, 2⟩, .epollin⟩], .event { recvs := [.data (fivePings.drop 12)] },
        .flush] ++ quietEnd) ++
    [.outQueue, .processMessage, .outQueue, .processMessage, .createCloseConnectEvent]

/-- **Where a tail is lost a client is closed for nothing**: what it sent are
pings, and the worker was told of a frame that is none of them. -/
theorem closed_for_nothing : ∃ w, (watched smallConfig 2 0).Reachable w ∧
    .closeClient 7 2 ∈ w.service.sys.eventlist ∧ w.taken = fivePings ∧
    ∀ f ∈ (netFraming.split w.taken).frames, mainID f = [0, 20] := by
  have hrun : ∃ w, (watched smallConfig 2 0).Reachable w ∧
      .closeClient 7 2 ∈ w.service.sys.eventlist ∧ w.taken = fivePings :=
    Machine.exists_reach_of_exec servePieces (by decide)
  obtain ⟨w, hw, hevent, htaken⟩ := hrun
  refine ⟨w, hw, hevent, htaken, ?_⟩
  rw [htaken]
  decide

end Worker

end EupuServer
