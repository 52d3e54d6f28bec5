import EupuServer.Common.Machine
import EupuServer.Epoll.System
import EupuServer.Network.SysQueue
/-!
# From the epoll thread to the workers

The epoll thread collects messages in `m_recvtmplst` and moves them to the
receive queue under its lock, element by element; the workers take them from
the head, each call under the lock. A step of the machine is one access, so
every interleaving is a run of it. The history says what became of each
message, and `HandedOff` what can be read off it.
-/

namespace EupuServer

namespace Epoll

open Network Bytes

/-- Who holds the lock of the queue. -/
inductive Owner
  | epoll
  | worker (w : ℕ)
  deriving DecidableEq, Repr

/-- The place of the epoll thread in the flush. -/
inductive FlushPc
  /-- outside of it -/
  | collect
  /-- in the loop, with the elements it has not come to -/
  | flushing (rest : List NetDataPtr)
  /-- behind `UnLock`, before `m_recvtmplst.clear()` -/
  | clearing
  deriving DecidableEq, Repr

/-- The place of a worker in `run`. -/
inductive WorkerPc
  /-- before `outQueue` -/
  | idle
  /-- in `outQueue`, with the lock -/
  | locked
  /-- in `outQueue`, with what it took -/
  | took (p : Option NetDataPtr)
  /-- in `processMessage` -/
  | processing (p : NetDataPtr)
  deriving DecidableEq, Repr

/-- What became of a message. -/
inductive QueueRecord
  | appended (p : NetDataPtr)
  | accepted (p : NetDataPtr)
  /-- the queue held `held` messages -/
  | dropped (p : NetDataPtr) (held : ℕ)
  | popped (w : ℕ) (p : NetDataPtr)
  deriving DecidableEq, Repr

/-- The message a record is about. -/
def QueueRecord.msg : QueueRecord → NetDataPtr
  | .appended p => p
  | .accepted p => p
  | .dropped p _ => p
  | .popped _ p => p

/-- Whether the message is gone from the hand-off. -/
def QueueRecord.gone : QueueRecord → Bool
  | .dropped _ _ => true
  | .popped _ _ => true
  | _ => false

/-- **The state of the hand-off.** -/
structure HandOff where
  lock : Option Owner
  recvtmplst : List NetDataPtr
  recvlist : SysQueue NetDataPtr
  epoll : FlushPc
  worker : ℕ → WorkerPc
  hist : List QueueRecord

/-- The labels: the steps of the epoll thread, and of the worker `w`. -/
inductive HandOffAction
  | append (d : NetData)
  | lock
  | inQueue
  | unLock
  | clear
  | outLock (w : ℕ)
  | outQueue (w : ℕ)
  | outUnLock (w : ℕ)
  | processed (w : ℕ)
  deriving DecidableEq, Repr

/-! ## What the history says -/

/-- The messages appended to `m_recvtmplst`, in order. -/
def appended (hist : List QueueRecord) : List NetDataPtr :=
  hist.filterMap fun r => match r with
    | .appended p => some p
    | _ => none

/-- The messages the queue accepted, in order. -/
def accepted (hist : List QueueRecord) : List NetDataPtr :=
  hist.filterMap fun r => match r with
    | .accepted p => some p
    | _ => none

/-- The messages the flush dropped. -/
def dropped (hist : List QueueRecord) : List NetDataPtr :=
  hist.filterMap fun r => match r with
    | .dropped p _ => some p
    | _ => none

/-- The messages the flush came to, in order. -/
def offered (hist : List QueueRecord) : List NetDataPtr :=
  hist.filterMap fun r => match r with
    | .accepted p => some p
    | .dropped p _ => some p
    | _ => none

/-- The messages the workers took, in order. -/
def popped (hist : List QueueRecord) : List NetDataPtr :=
  hist.filterMap fun r => match r with
    | .popped _ p => some p
    | _ => none

namespace HandOff

variable (s : HandOff)

/-- A record is added. -/
def record (r : QueueRecord) : HandOff := { s with hist := s.hist ++ [r] }

/-- The worker `w` goes on at `pc`. -/
def atWorker (w : ℕ) (pc : WorkerPc) : HandOff :=
  { s with worker := Function.update s.worker w pc }

/-- **A step of the hand-off.** A message that is appended was just
allocated. -/
def next : HandOffAction → Option HandOff
  | .append d =>
    match s.epoll with
    | .collect =>
      let p : NetDataPtr := ⟨(appended s.hist).length + 1, d⟩
      some ({ s with recvtmplst := s.recvtmplst ++ [p] }.record (.appended p))
    | _ => none
  | .lock =>
    match s.epoll with
    | .collect =>
      if s.recvtmplst.length > 0 ∧ s.lock = none then
        some { s with lock := some .epoll, epoll := .flushing s.recvtmplst }
      else none
    | _ => none
  | .inQueue =>
    match s.epoll with
    | .flushing (p :: rest) =>
      let r := s.recvlist.inQueueWithoutLock (some p) false
      some ({ s with recvlist := r.2, epoll := .flushing rest }.record
        (if r.1 then .accepted p else .dropped p s.recvlist.datalst.length))
    | _ => none
  | .unLock =>
    match s.epoll with
    | .flushing [] => some { s with lock := none, epoll := .clearing }
    | _ => none
  | .clear =>
    match s.epoll with
    | .clearing => some { s with recvtmplst := [], epoll := .collect }
    | _ => none
  | .outLock w =>
    match s.worker w with
    | .idle =>
      if s.lock = none then some ({ s with lock := some (.worker w) }.atWorker w .locked) else none
    | _ => none
  | .outQueue w =>
    match s.worker w with
    | .locked =>
      let r := s.recvlist.outQueueWithoutLock true
      let s' := { s with recvlist := r.2 }.atWorker w (.took r.1)
      some (match r.1 with
        | none => s'
        | some p => s'.record (.popped w p))
    | _ => none
  | .outUnLock w =>
    match s.worker w with
    | .took none => some ({ s with lock := none }.atWorker w .idle)
    | .took (some p) => some ({ s with lock := none }.atWorker w (.processing p))
    | _ => none
  | .processed w =>
    match s.worker w with
    | .processing _ => some (s.atWorker w .idle)
    | _ => none

end HandOff

/-- **The hand-off** over a queue that holds at most `maxSize` messages. -/
def handOff (maxSize : ℤ) : Machine HandOff HandOffAction where
  init :=
    { lock := none, recvtmplst := [], recvlist := SysQueue.new.setQueueSize maxSize,
      epoll := .collect, worker := fun _ => .idle, hist := [] }
  next := HandOff.next

/-! ## Reading the history -/

variable {hist : List QueueRecord} {p : NetDataPtr}

@[simp] theorem appended_append (r : QueueRecord) :
    appended (hist ++ [r]) = appended hist ++ appended [r] := List.filterMap_append

@[simp] theorem accepted_append (r : QueueRecord) :
    accepted (hist ++ [r]) = accepted hist ++ accepted [r] := List.filterMap_append

@[simp] theorem offered_append (r : QueueRecord) :
    offered (hist ++ [r]) = offered hist ++ offered [r] := List.filterMap_append

@[simp] theorem popped_append (r : QueueRecord) :
    popped (hist ++ [r]) = popped hist ++ popped [r] := List.filterMap_append

/-- **What is offered is accepted or dropped**, and not both. -/
theorem offered_perm (hist : List QueueRecord) :
    (offered hist).Perm (accepted hist ++ dropped hist) := by
  induction hist with
  | nil => exact .refl _
  | cons r hist ih =>
    cases r with
    | appended | popped => exact ih
    | accepted p => exact ih.cons p
    | dropped p => exact (ih.cons p).trans List.perm_middle.symm

/-- The accepted messages keep the order in which they were offered. -/
theorem accepted_sublist_offered (hist : List QueueRecord) :
    (accepted hist).Sublist (offered hist) := by
  induction hist with
  | nil => exact .slnil
  | cons r hist ih =>
    cases r with
    | appended | popped => exact ih
    | accepted p => exact ih.cons_cons p
    | dropped p => exact ih.cons p

theorem mem_popped {w : ℕ} (h : .popped w p ∈ hist) : p ∈ popped hist :=
  List.mem_filterMap.mpr ⟨_, h, rfl⟩

theorem mem_dropped {n : ℕ} (h : .dropped p n ∈ hist) : p ∈ dropped hist :=
  List.mem_filterMap.mpr ⟨_, h, rfl⟩

/-! ## The ledger -/

/-- **The ledger of a bounded hand-off**: `queue` is what the queue holds,
`pending` what was appended and not yet offered. -/
structure Ledger (bound : ℕ) (hist : List QueueRecord) (queue pending : List NetDataPtr) :
    Prop where
  fits : queue.length ≤ bound
  /-- the queue holds what was accepted and not yet popped -/
  held : popped hist ++ queue = accepted hist
  /-- messages are offered in the order in which they were appended -/
  order : offered hist ++ pending = appended hist
  /-- a message is appended under a new address -/
  addrs : (appended hist).map (·.addr) = List.range' 1 (appended hist).length
  /-- a message is dropped where the queue is full -/
  full : ∀ p n, .dropped p n ∈ hist → n = bound
  /-- what is gone does not come back -/
  gone : hist.Pairwise fun r r' => r.gone = true → r'.msg.addr ≠ r.msg.addr

namespace Ledger

variable {bound : ℕ} {queue pending : List NetDataPtr}

theorem init (bound : ℕ) : Ledger bound [] [] [] :=
  ⟨Nat.zero_le _, rfl, rfl, rfl, fun _ _ h => absurd h List.not_mem_nil, .nil⟩

/-- The addresses of the appended messages are different. -/
theorem nodup (h : Ledger bound hist queue pending) : ((appended hist).map (·.addr)).Nodup :=
  h.addrs ▸ List.nodup_range'

/-- What was appended has an address no greater than the count. -/
theorem addr_le (h : Ledger bound hist queue pending) (hp : p ∈ appended hist) :
    p.addr ≤ (appended hist).length := by
  have hmem : p.addr ∈ List.range' 1 (appended hist).length := h.addrs ▸ List.mem_map_of_mem hp
  have hlt := (List.mem_range'_1.mp hmem).2
  omega

/-- What is gone was offered. -/
theorem mem_offered (h : Ledger bound hist queue pending) {r : QueueRecord} (hr : r ∈ hist)
    (hgone : r.gone = true) : r.msg ∈ offered hist := by
  refine (offered_perm _).mem_iff.mpr (List.mem_append.mpr ?_)
  cases r with
  | appended | accepted => cases hgone
  | dropped p n => exact .inr (mem_dropped hr)
  | popped w p => exact .inl (h.held ▸ List.mem_append_left _ (mem_popped hr))

/-- **What can be added to the history**: a record about a message that is
not gone. -/
theorem gone_append (h : Ledger bound hist queue pending) {x : QueueRecord}
    (hnew : ∀ r ∈ hist, r.gone = true → x.msg.addr ≠ r.msg.addr) :
    (hist ++ [x]).Pairwise fun r r' => r.gone = true → r'.msg.addr ≠ r.msg.addr := by
  refine List.pairwise_append.mpr ⟨h.gone, List.pairwise_singleton _ _, ?_⟩
  intro r hr r' hr' hgone
  rw [List.mem_singleton.mp hr']
  exact hnew r hr hgone

/-- A record that drops nothing leaves what was dropped. -/
theorem full_append (h : Ledger bound hist queue pending) {x : QueueRecord}
    (hx : ∀ p n, x = .dropped p n → n = bound) : ∀ p n, .dropped p n ∈ hist ++ [x] → n = bound := by
  intro p n hmem
  rcases List.mem_append.mp hmem with hmem | hmem
  · exact h.full p n hmem
  · exact hx p n (List.mem_singleton.mp hmem).symm

/-- **A message that is appended is new.** -/
theorem append (h : Ledger bound hist queue pending) (hp : p.addr = (appended hist).length + 1) :
    Ledger bound (hist ++ [.appended p]) queue (pending ++ [p]) := by
  have happ : appended (hist ++ [.appended p]) = appended hist ++ [p] := appended_append _
  refine ⟨h.fits, ?_, ?_, ?_, h.full_append (by simp), h.gone_append fun r hr hgone => ?_⟩
  · rw [popped_append, accepted_append]
    simpa [popped, accepted] using h.held
  · rw [happ, offered_append, ← h.order]
    simp [offered]
  · rw [happ, List.map_append, h.addrs, List.length_append, List.length_singleton,
      List.range'_1_concat]
    simp [hp, Nat.add_comm]
  · have hle := h.addr_le (h.order ▸ List.mem_append_left _ (h.mem_offered hr hgone))
    show p.addr ≠ r.msg.addr
    omega

/-- **A message that the flush comes to** was not come to before. -/
theorem addr_ne_offered (h : Ledger bound hist queue (p :: pending)) {q : NetDataPtr}
    (hq : q ∈ offered hist) : p.addr ≠ q.addr := by
  have hnodup := h.nodup
  rw [← h.order, List.map_append, List.map_cons] at hnodup
  intro heq
  exact List.disjoint_of_nodup_append hnodup (List.mem_map_of_mem hq) (heq ▸ List.mem_cons_self)

/-- **A message is accepted.** -/
theorem accept (h : Ledger bound hist queue (p :: pending)) (hroom : queue.length < bound) :
    Ledger bound (hist ++ [.accepted p]) (queue ++ [p]) pending := by
  have happ : appended (hist ++ [.accepted p]) = appended hist := by simp [appended]
  refine ⟨?_, ?_, ?_, happ ▸ h.addrs, h.full_append (by simp), h.gone_append fun r hr hgone => ?_⟩
  · rw [List.length_append, List.length_singleton]
    omega
  · rw [popped_append, accepted_append, ← h.held]
    simp [popped, accepted]
  · rw [happ, offered_append, ← h.order]
    simp [offered]
  · exact h.addr_ne_offered (h.mem_offered hr hgone)

/-- **A message is dropped.** -/
theorem drop (h : Ledger bound hist queue (p :: pending)) :
    Ledger bound (hist ++ [.dropped p bound]) queue pending := by
  have happ : appended (hist ++ [.dropped p bound]) = appended hist := by simp [appended]
  refine ⟨h.fits, ?_, ?_, happ ▸ h.addrs, h.full_append ?_, h.gone_append fun r hr hgone => ?_⟩
  · rw [popped_append, accepted_append]
    simpa [popped, accepted] using h.held
  · rw [happ, offered_append, ← h.order]
    simp [offered]
  · rintro q n ⟨⟩
    rfl
  · exact h.addr_ne_offered (h.mem_offered hr hgone)

/-- What was offered has one address each. -/
theorem nodup_offered (h : Ledger bound hist queue pending) :
    ((accepted hist ++ dropped hist).map (·.addr)).Nodup := by
  have hnodup := h.nodup
  rw [← h.order, List.map_append] at hnodup
  exact ((offered_perm hist).map _).nodup_iff.mp (List.Nodup.of_append_left hnodup)

/-- **A message is popped**: it was not popped before, and not dropped. -/
theorem pop (h : Ledger bound hist (p :: queue) pending) (w : ℕ) :
    Ledger bound (hist ++ [.popped w p]) queue pending := by
  have happ : appended (hist ++ [.popped w p]) = appended hist := by simp [appended]
  refine ⟨?_, ?_, ?_, happ ▸ h.addrs, h.full_append (by simp), h.gone_append fun r hr hgone => ?_⟩
  · have hfits := h.fits
    rw [List.length_cons] at hfits
    omega
  · rw [popped_append, accepted_append, show accepted [QueueRecord.popped w p] = [] from rfl,
      List.append_nil, ← h.held]
    simp [popped]
  · rw [happ, offered_append, ← h.order]
    simp [offered]
  · have hnodup := h.nodup_offered
    rw [List.map_append] at hnodup
    have hacc : p ∈ accepted hist := h.held ▸ List.mem_append_right _ List.mem_cons_self
    intro heq
    cases r with
    | appended | accepted => cases hgone
    | dropped q n =>
      exact List.disjoint_of_nodup_append hnodup (List.mem_map_of_mem hacc)
        (heq ▸ List.mem_map_of_mem (mem_dropped hr))
    | popped w' q =>
      have hnodup' := List.Nodup.of_append_left hnodup
      rw [← h.held, List.map_append, List.map_cons] at hnodup'
      exact List.disjoint_of_nodup_append hnodup' (List.mem_map_of_mem (mem_popped hr))
        (heq ▸ List.mem_cons_self)

/-- **A message is popped once**: of two records about it the later would be
about one that is gone. -/
theorem oneWorker (h : Ledger bound hist queue pending) {w w' : ℕ} (hw : .popped w p ∈ hist)
    (hw' : .popped w' p ∈ hist) : w = w' := by
  have hsym : Std.Symm fun r r' : QueueRecord =>
      r.gone = true → r'.gone = true → r'.msg.addr ≠ r.msg.addr :=
    ⟨fun _ _ hr hgone hgone' => (hr hgone' hgone).symm⟩
  have hpair : hist.Pairwise fun r r' =>
      r.gone = true → r'.gone = true → r'.msg.addr ≠ r.msg.addr :=
    h.gone.imp fun hr hgone _ => hr hgone
  by_contra hne
  exact hpair.forall hw hw' (fun heq => hne (by injection heq)) rfl rfl rfl

end Ledger

/-! ## The hand-off keeps its ledger -/

namespace HandOff

variable (maxSize : ℤ) (s : HandOff)

/-- The messages the flush has still to come to. -/
def pending : List NetDataPtr :=
  match s.epoll with
  | .collect => s.recvtmplst
  | .flushing rest => rest
  | .clearing => []

/-- **The ledger of the state.** -/
structure Kept : Prop where
  bound : s.recvlist.maxSize = maxSize
  ledger : Ledger (uint32 maxSize) s.hist s.recvlist.datalst s.pending

variable {maxSize s} {s' : HandOff} {a : HandOffAction}

/-- **A step keeps the ledger.** -/
theorem Kept.step (h : Kept maxSize s) (hnext : s.next a = some s') : Kept maxSize s' := by
  obtain ⟨hbound, hledger⟩ := h
  cases a with
  | append d =>
    simp only [next] at hnext
    split at hnext
    · rename_i hpc
      injection hnext with hnext
      subst hnext
      have hpend : s.pending = s.recvtmplst := by rw [pending, hpc]
      refine ⟨hbound, ?_⟩
      rw [hpend] at hledger
      simpa [record, pending, hpc] using hledger.append rfl
    · cases hnext
  | lock =>
    simp only [next] at hnext
    split at hnext
    · rename_i hpc
      split at hnext
      · injection hnext with hnext
        subst hnext
        have hpend : s.pending = s.recvtmplst := by rw [pending, hpc]
        rw [hpend] at hledger
        exact ⟨hbound, hledger⟩
      · cases hnext
    · cases hnext
  | inQueue =>
    simp only [next] at hnext
    split at hnext
    · rename_i p rest hpc
      injection hnext with hnext
      subst hnext
      have hpend : s.pending = p :: rest := by rw [pending, hpc]
      rw [hpend] at hledger
      have hfits := hledger.fits
      rw [SysQueue.inQueueWithoutLock_tail, hbound]
      by_cases hfull : s.recvlist.datalst.length ≥ uint32 maxSize
      · -- the queue is full, which it is only with `maxSize` messages
        have hlen : s.recvlist.datalst.length = uint32 maxSize := by omega
        rw [if_pos hfull]
        refine ⟨hbound, ?_⟩
        simpa [record, pending, hlen] using hledger.drop
      · rw [if_neg hfull]
        refine ⟨rfl, ?_⟩
        simpa [record, pending] using hledger.accept (by omega)
    · cases hnext
  | unLock =>
    simp only [next] at hnext
    split at hnext
    · rename_i hpc
      injection hnext with hnext
      subst hnext
      have hpend : s.pending = [] := by rw [pending, hpc]
      rw [hpend] at hledger
      exact ⟨hbound, hledger⟩
    · cases hnext
  | clear =>
    simp only [next] at hnext
    split at hnext
    · rename_i hpc
      injection hnext with hnext
      subst hnext
      have hpend : s.pending = [] := by rw [pending, hpc]
      rw [hpend] at hledger
      exact ⟨hbound, hledger⟩
    · cases hnext
  | outQueue w =>
    simp only [next] at hnext
    split at hnext
    · injection hnext with hnext
      subst hnext
      rcases hlst : s.recvlist.datalst with _ | ⟨p, rest⟩
      · rw [hlst] at hledger
        simp only [SysQueue.outQueueWithoutLock, hlst]
        exact ⟨hbound, hledger⟩
      · rw [hlst] at hledger
        simp only [SysQueue.outQueueWithoutLock, hlst]
        exact ⟨hbound, hledger.pop w⟩
    · cases hnext
  | outLock w =>
    simp only [next] at hnext
    split at hnext
    · split at hnext
      · injection hnext with hnext
        exact hnext ▸ ⟨hbound, hledger⟩
      · cases hnext
    · cases hnext
  | outUnLock w =>
    simp only [next] at hnext
    split at hnext
    · injection hnext with hnext
      exact hnext ▸ ⟨hbound, hledger⟩
    · injection hnext with hnext
      exact hnext ▸ ⟨hbound, hledger⟩
    · cases hnext
  | processed w =>
    simp only [next] at hnext
    split at hnext
    · injection hnext with hnext
      exact hnext ▸ ⟨hbound, hledger⟩
    · cases hnext

theorem kept (h : (handOff maxSize).Reachable s) : Kept maxSize s := by
  refine h.invariant ⟨rfl, .init _⟩ ?_
  intro s a s' _ _ hnext hs
  exact hs.step hnext

end HandOff

/-! ## What the workers get -/

/-- **What the hand-off promises**, of the messages appended so far. -/
structure HandedOff (maxSize : ℤ) (s : HandOff) : Prop where
  /-- the messages popped are, in order, a prefix of those accepted: the
  rest is in the queue -/
  prefixed : popped s.hist ++ s.recvlist.datalst = accepted s.hist
  /-- they were accepted in the order in which they were appended -/
  inOrder : (accepted s.hist).Sublist (appended s.hist)
  /-- none was lost on the way -/
  complete : ∀ p ∈ appended s.hist, p ∈ accepted s.hist ∨ p ∈ dropped s.hist ∨ p ∈ s.pending
  /-- a message has one worker -/
  oneWorker : ∀ w w' p, .popped w p ∈ s.hist → .popped w' p ∈ s.hist → w = w'
  /-- a message is dropped only where the queue is full -/
  full : ∀ p (n : ℕ), .dropped p n ∈ s.hist → (n : ℤ) = maxSize
  /-- a message dropped or popped is never seen again -/
  gone : s.hist.Pairwise fun r r' => r.gone = true → r'.msg.addr ≠ r.msg.addr

/-- **Nothing is lost or reordered below the bound**, whatever the
interleaving of the flush with the workers. -/
theorem handedOff {maxSize : ℤ} {s : HandOff} (h0 : 0 ≤ maxSize) (hint : maxSize < 2 ^ 31)
    (h : (handOff maxSize).Reachable s) : HandedOff maxSize s := by
  have hledger := (HandOff.kept h).ledger
  refine ⟨hledger.held, ?_, ?_, ?_, ?_, hledger.gone⟩
  · rw [← hledger.order]
    exact (accepted_sublist_offered _).trans (List.sublist_append_left _ _)
  · intro p hp
    rw [← hledger.order] at hp
    rcases List.mem_append.mp hp with hp | hp
    · rcases List.mem_append.mp ((offered_perm _).mem_iff.mp hp) with hp | hp
      · exact .inl hp
      · exact .inr (.inl hp)
    · exact .inr (.inr hp)
  · exact fun w w' p => hledger.oneWorker
  · intro p n hp
    rw [hledger.full p n hp]
    exact cast_uint32 h0 (by omega)

/-- Two messages over a queue for one: the first is popped by a worker, and
the second dropped. -/
theorem handedOff_dropped : ∃ s, HandedOff 1 s ∧
    s.hist = [.appended ⟨1, reply 7 2 [1]⟩, .appended ⟨2, reply 7 2 [2]⟩,
      .accepted ⟨1, reply 7 2 [1]⟩, .dropped ⟨2, reply 7 2 [2]⟩ 1,
      .popped 5 ⟨1, reply 7 2 [1]⟩] := by
  have hrun : ∃ s, (handOff 1).Reachable s ∧
      s.hist = [.appended ⟨1, reply 7 2 [1]⟩, .appended ⟨2, reply 7 2 [2]⟩,
        .accepted ⟨1, reply 7 2 [1]⟩, .dropped ⟨2, reply 7 2 [2]⟩ 1,
        .popped 5 ⟨1, reply 7 2 [1]⟩] :=
    Machine.exists_reach_of_exec [.append (reply 7 2 [1]), .append (reply 7 2 [2]), .lock,
      .inQueue, .inQueue, .unLock, .outLock 5, .clear, .outQueue 5, .outUnLock 5] (by decide)
  obtain ⟨s, hs, hhist⟩ := hrun
  exact ⟨s, handedOff (by decide) (by decide) hs, hhist⟩

/-! ## The flush in one step -/

/-- **The flush of the server is this one**, taken in one step: the messages
are offered to the queue one after the other. -/
theorem flush_eq_inQueue (cfg : Config) (recvlist ds : List NetData) :
    flush cfg recvlist ds = (ds.foldl (fun q d => (q.inQueueWithoutLock (some d) false).2)
      (⟨recvlist, cfg.recvQueueSize⟩ : SysQueue NetData)).datalst := by
  induction ds generalizing recvlist with
  | nil => rfl
  | cons d ds ih =>
    rw [flush, List.foldl_cons, SysQueue.inQueueWithoutLock_tail]
    split
    · exact ih recvlist
    · exact ih _

end Epoll

end EupuServer
