import EupuServer.Epoll.Effect
/-!
# Connects that fail after the key is set

`createServerConnect` sets the key of its server before it queues the
event, and the epoll thread sets it once more before it adds the
connection. Two failures come after that: the event queue is full, and
`addClientToEpoll` returns false. In either case the descriptor is closed
and the key still names it. The first call that should take it back is
made with the type of a client, which names no key; on the second path
there is none.
-/

namespace EupuServer

namespace Epoll

open Network Protocol

/-! ## One call of `createServerConnect` -/

/-- What the system answers to one call: the descriptor `doNonblockConnect`
gets from `socket`, whether it connects, and the two clocks. -/
structure ConnectIo where
  socket : Option ℤ
  connected : Bool
  conntime : ℤ
  now : ℤ
  deriving DecidableEq, Repr

variable (cfg : Config) (s : Sys) (ntype : ℤ) (io : ConnectIo)

/-- The socket `createServerConnect` makes for the connected descriptor. -/
def connectSocket (addr : String × UInt16) (fd : ℤ) : SocketSet :=
  { initSocketset ⟨fd, io.conntime, 0⟩ addr.1 addr.2 ntype io.now with attempt := s.attempts + 1 }

/-- `createServerConnect` from its call to its return, and the descriptors
it closes. -/
def createServerConnect : Sys × List ℤ :=
  match s.keys.ofType ntype, cfg.server ntype with
  | some k, some addr =>
    if k.data.fddat ≥ 0 then (s, [])
    else
      match io.socket with
      | none => (s, [])
      | some fd =>
        let s₁ := s.opened fd
        if ¬ io.connected then (s₁.close fd, [fd])
        else
          let sock := connectSocket s ntype io addr fd
          let s₂ := { s₁ with attempts := s.attempts + 1 }
          let s₃ := s₂.setServerSocket fd io.conntime addr.1 addr.2 ntype sock.attempt false
          if s₃.eventlist.length ≥ eventQueueSize then
            ((s₃.setServerSocket (-1) 0 "" 0 1 0 false).close fd, [fd])
          else (s₃.withEvents (s₃.eventlist ++ [.addClient sock]), [])
  | _, _ => (s, [])

/-- **The call fails at the full event queue**, after it connected. -/
structure RejectedConnect (fd : ℤ) : Prop where
  key : ∃ k, s.keys.ofType ntype = some k ∧ k.data.fddat < 0
  addr : (cfg.server ntype).isSome = true
  socket : io.socket = some fd
  fresh : 0 ≤ fd ∧ fd ∉ s.openfds
  connected : io.connected = true
  full : eventQueueSize ≤ s.eventlist.length

/-- **A failed call leaves no trace**: all keys are as before, that of its
own server too, and the descriptor is closed once. -/
structure NoTrace (fd : ℤ) (r : Sys × List ℤ) : Prop where
  key : r.1.keys.ofType ntype = s.keys.ofType ntype
  others : ∀ t, t ≠ ntype → r.1.keys.ofType t = s.keys.ofType t
  closed : r.2 = [fd]

variable {cfg s ntype io} {fd : ℤ}

/-- A call that fails at the full queue. -/
theorem createServerConnect_rejected (h : RejectedConnect cfg s ntype io fd) :
    ∃ addr, cfg.server ntype = some addr ∧ createServerConnect cfg s ntype io =
      (((({ s.opened fd with attempts := s.attempts + 1 }.setServerSocket fd io.conntime addr.1
        addr.2 ntype (s.attempts + 1) false)).setServerSocket (-1) 0 "" 0 1 0 false).close fd,
        [fd]) := by
  obtain ⟨⟨k, hk, hneg⟩, haddr, hsocket, -, hconnected, hfull⟩ := h
  obtain ⟨addr, haddr⟩ := Option.isSome_iff_exists.mp haddr
  refine ⟨addr, haddr, ?_⟩
  have hlong : s.eventlist.length ≥ eventQueueSize := hfull
  unfold createServerConnect
  simp only [hk, haddr, if_neg (show ¬ k.data.fddat ≥ 0 by omega), hsocket, hconnected,
    not_true_eq_false, if_false]
  exact if_pos hlong

/-- The type of a client names no key. -/
theorem setServerSocket_client (ks : ServerKeys) (fd conntime : ℤ) (ip : String) (port : UInt16)
    (attempt : ℕ) (indexed : Bool) :
    ks.setServerSocket fd conntime ip port 1 attempt indexed = ks := rfl

/-! ### The call as steps of the machine -/

/-- The state in the middle of a call by the thread `th`: what a call has
changed so far, and the thread's place. -/
def inCall (s : Sys) (th : ℕ) (fds : Finset ℤ) (attempts : ℕ) (keys : ServerKeys) (c : ConnectPc) :
    Sys :=
  { s with
    openfds := fds
    attempts := attempts
    keys := keys
    connecting := Function.update s.connecting th c }

variable {th : ℕ} {fds : Finset ℤ} {attempts : ℕ} {keys : ServerKeys} {c : ConnectPc}
  {sock : SocketSet}

theorem inCall_connecting : (inCall s th fds attempts keys c).connecting th = c :=
  Function.update_self ..

theorem next_start (hpc : s.connecting th = .idle) (hlock : s.keysLocked = false) {k : ServerKey}
    {addr : String × UInt16} (hkey : s.keys.ofType ntype = some k) (hneg : k.data.fddat < 0)
    (haddr : cfg.server ntype = some addr) :
    next cfg s (.connect th (.start ntype)) =
      some (inCall s th s.openfds s.attempts s.keys (.checked ntype)) := by
  simp only [next, hpc, connectStep, hlock, Bool.false_eq_true, if_false, hkey, haddr,
    if_neg (show ¬ k.data.fddat ≥ 0 by omega)]
  rfl

theorem next_socket (hfd : 0 ≤ fd ∧ fd ∉ fds) :
    next cfg (inCall s th fds attempts keys (.checked ntype)) (.connect th (.socket fd)) =
      some (inCall s th (insert fd fds) attempts keys (.connecting ntype fd)) := by
  simp only [next, inCall_connecting, connectStep]
  refine (if_pos hfd).trans ?_
  simp only [inCall, Sys.opened, Sys.atConnect, Function.update_idem]

theorem next_connectOk {addr : String × UInt16} (haddr : cfg.server ntype = some addr) :
    next cfg (inCall s th fds s.attempts keys (.connecting ntype fd))
        (.connect th (.connectOk io.conntime io.now)) =
      some (inCall s th fds (s.attempts + 1) keys
        (.connected (connectSocket s ntype io addr fd))) := by
  simp only [next, inCall_connecting, connectStep, haddr, Option.getD_some]
  simp only [inCall, Sys.atConnect, Function.update_idem]
  rfl

theorem next_publish (hlock : s.keysLocked = false) :
    next cfg (inCall s th fds attempts keys (.connected sock)) (.connect th .publish) =
      some (inCall s th fds attempts (keys.setServerSocket sock.key.fdkey sock.key.connectTime
        sock.peerIp sock.peerPort sock.type sock.attempt false) (.published sock)) := by
  have hlock' : (inCall s th fds attempts keys (.connected sock)).keysLocked = false := hlock
  simp only [next, inCall_connecting, connectStep, hlock', Bool.false_eq_true, if_false]
  simp only [inCall, Sys.setServerSocket, Sys.atConnect, Function.update_idem]

theorem next_enqueue_full (hlock : s.keysLocked = false) (hlock' : s.eventsLocked = false)
    (hfull : s.eventlist.length ≥ eventQueueSize) :
    next cfg (inCall s th fds attempts keys (.published sock)) (.connect th .enqueue) =
      some (((inCall s th fds attempts keys .idle).setServerSocket (-1) 0 "" 0 1 0 false).close
        sock.key.fdkey) := by
  have hkeys : (inCall s th fds attempts keys (.published sock)).keysLocked = false := hlock
  have hevents : (inCall s th fds attempts keys (.published sock)).eventsLocked = false := hlock'
  have hlist : (inCall s th fds attempts keys (.published sock)).eventlist = s.eventlist := rfl
  simp only [next, inCall_connecting, connectStep, hkeys, hevents, hlist, Bool.false_eq_true,
    if_false, if_pos hfull]
  simp only [inCall, Sys.setServerSocket, Sys.close, Sys.atConnect, Function.update_idem]

/-- **The failed call, as the steps of a thread that runs alone.** -/
theorem createServerConnect_steps (h : RejectedConnect cfg s ntype io fd) {now : ℤ}
    (hidle : s.connecting th = .idle) (hkeys : s.keysLocked = false)
    (hevents : s.eventsLocked = false) :
    (server cfg now).exec (fun _ _ => True) s
      [.connect th (.start ntype), .connect th (.socket fd),
        .connect th (.connectOk io.conntime io.now), .connect th .publish,
        .connect th .enqueue] = some (createServerConnect cfg s ntype io).1 := by
  obtain ⟨addr, haddr, heq⟩ := createServerConnect_rejected h
  obtain ⟨⟨k, hk, hneg⟩, -, -, hfresh, -, hfull⟩ := h
  have hback : Function.update s.connecting th .idle = s.connecting := by
    rw [← hidle, Function.update_eq_self]
  rw [Machine.exec_cons _ trivial (next_start hidle hkeys hk hneg haddr),
    Machine.exec_cons _ trivial (next_socket hfresh),
    Machine.exec_cons _ trivial (next_connectOk haddr),
    Machine.exec_cons _ trivial (next_publish hkeys),
    Machine.exec_cons _ trivial (next_enqueue_full hkeys hevents hfull), Machine.exec, heq]
  simp only [inCall, hback]
  rfl

/-- The keys after it: the second setter has changed nothing, so the key
of the server is the one the first has set. -/
theorem rejected_keys (h : RejectedConnect cfg s ntype io fd) :
    ∃ (addr : String × UInt16) (k : ServerKey), s.keys.ofType ntype = some k ∧
      (createServerConnect cfg s ntype io).1.keys =
        s.keys.setServerSocket fd io.conntime addr.1 addr.2 ntype (s.attempts + 1) false ∧
      (createServerConnect cfg s ntype io).1.keys.ofType ntype =
        some (k.assign fd io.conntime addr.1 addr.2 ntype (s.attempts + 1) false) := by
  obtain ⟨addr, -, heq⟩ := createServerConnect_rejected h
  obtain ⟨k, hk, -⟩ := h.key
  have hkeys : (createServerConnect cfg s ntype io).1.keys =
      s.keys.setServerSocket fd io.conntime addr.1 addr.2 ntype (s.attempts + 1) false := by
    rw [heq]
    rfl
  refine ⟨addr, k, hk, hkeys, ?_⟩
  rw [hkeys, ofType_setServerSocket, if_pos rfl, hk, Option.map_some]

/-- **It leaves a trace.** -/
theorem not_noTrace (h : RejectedConnect cfg s ntype io fd) :
    ¬ NoTrace s ntype fd (createServerConnect cfg s ntype io) := by
  obtain ⟨addr, k, hk, -, hkey⟩ := rejected_keys h
  obtain ⟨k₀, hk₀, hneg⟩ := h.key
  have hpos := h.fresh.1
  intro htrace
  have hsame := htrace.key
  rw [hkey, hk₀, Option.some.injEq] at hsame
  rw [← hsame] at hneg
  exact absurd hpos (by simpa [ServerKey.assign] using hneg)

/-- **A connect that fails at the full queue is never undone.** The key of
its server names the closed descriptor, whatever the server, the queue and
the rest of the state; the other keys are as before, and the descriptor is
closed once. -/
theorem createServerConnect_leaves_key (h : RejectedConnect cfg s ntype io fd) :
    ¬ NoTrace s ntype fd (createServerConnect cfg s ntype io) ∧
      (∀ k ∈ (createServerConnect cfg s ntype io).1.keys.ofType ntype, k.data.fddat = fd) ∧
      (∀ t, t ≠ ntype →
        (createServerConnect cfg s ntype io).1.keys.ofType t = s.keys.ofType t) ∧
      (createServerConnect cfg s ntype io).2 = [fd] ∧
      fd ∉ (createServerConnect cfg s ntype io).1.openfds := by
  obtain ⟨addr, k, -, hkeys, hkey⟩ := rejected_keys h
  obtain ⟨addr', -, heq⟩ := createServerConnect_rejected h
  refine ⟨not_noTrace h, ?_, ?_, by rw [heq], by rw [heq]; exact Finset.notMem_erase _ _⟩
  · intro k' hk'
    rw [hkey, Option.mem_some_iff] at hk'
    rw [← hk']
    rfl
  · intro t ht
    rw [hkeys, ofType_setServerSocket, if_neg ht]

/-- An event queue with nothing but events to close. -/
def fullQueue (n : ℕ) : Sys :=
  { Sys.init peerConfig 0 with eventlist := List.replicate n (.closeClient 5 7) }

/-- Workers can fill the queue. -/
theorem reachable_fullQueue {n : ℕ} (hn : n ≤ eventQueueSize) :
    (server peerConfig 0).Reachable (fullQueue n) := by
  induction n with
  | zero => exact .start
  | succ n ih =>
    have hroom : ¬ (fullQueue n).eventlist.length ≥ eventQueueSize := by
      rw [fullQueue, List.length_replicate]
      omega
    refine .step (a := .createCloseConnectEvent 5 7) (ih (by omega)) trivial ?_
    simp only [server, next, createCloseConnectEvent, if_neg hroom]
    rw [fullQueue, fullQueue, List.replicate_succ']
    rfl

/-- The connect to the main server gets the descriptor `7`. -/
def rejectedIo : ConnectIo := ⟨some 7, true, 1000, 0⟩

theorem rejectedConnect_fullQueue :
    RejectedConnect peerConfig (fullQueue eventQueueSize) mainsvrType rejectedIo 7 where
  key := ⟨{}, rfl, by decide⟩
  addr := rfl
  socket := rfl
  fresh := ⟨by decide, by decide⟩
  connected := rfl
  full := (List.length_replicate ..).ge

theorem createServerConnect_leaves_key_full :
    ¬ NoTrace (fullQueue eventQueueSize) mainsvrType 7
        (createServerConnect peerConfig (fullQueue eventQueueSize) mainsvrType rejectedIo) ∧
      (createServerConnect peerConfig (fullQueue eventQueueSize) mainsvrType rejectedIo).2 = [7] :=
  have h := createServerConnect_leaves_key rejectedConnect_fullQueue
  ⟨h.1, h.2.2.2.1⟩

/-- **A failed connect leaves a trace** in a state the server reaches. -/
theorem noTrace_fails :
    ¬ ∀ (cfg : Config) (now : ℤ) (s : Sys) (ntype : ℤ) (io : ConnectIo) (fd : ℤ),
      (server cfg now).Reachable s → RejectedConnect cfg s ntype io fd →
        NoTrace s ntype fd (createServerConnect cfg s ntype io) := fun hall =>
  not_noTrace rejectedConnect_fullQueue
    (hall peerConfig 0 (fullQueue eventQueueSize) mainsvrType rejectedIo 7
      (reachable_fullQueue (Nat.le_refl _)) rejectedConnect_fullQueue)

/-- So the server is not connected to again: every later call returns at
once. -/
theorem createServerConnect_not_retried (h : RejectedConnect cfg s ntype io fd) (io' : ConnectIo) :
    createServerConnect cfg (createServerConnect cfg s ntype io).1 ntype io' =
      ((createServerConnect cfg s ntype io).1, []) := by
  obtain ⟨addr, k, -, -, hkey⟩ := rejected_keys h
  obtain ⟨conf, hconf⟩ := Option.isSome_iff_exists.mp h.addr
  have hpos := h.fresh.1
  generalize (createServerConnect cfg s ntype io).1 = s' at hkey
  unfold createServerConnect
  simp only [hkey, hconf]
  exact if_pos hpos

/-! ## The event that adds the connection -/

/-- **A failed `ADD_CLIENT` is rolled back**: the key of its server is
negative, and the map and the other keys are as before. -/
structure RolledBack (s s' : Sys) (ntype : ℤ) : Prop where
  key : ∀ k ∈ s'.keys.ofType ntype, k.data.fddat < 0
  others : ∀ t, t ≠ ntype → s'.keys.ofType t = s.keys.ofType t
  map : s'.socketmap = s.socketmap

variable {s₁ s₂ : Sys} {es : List NetEvent} {ctlOk : Bool}

/-- What is left of the event once `addClientToEpoll` has returned false. -/
theorem failedAdd_eq (hlst : s.eventlist = .addClient sock :: es)
    (h₁ : next cfg s .sysEvent = some s₁) (h₂ : next cfg s₁ (.register ctlOk) = some s₂)
    (hfail : ¬ Addable cfg s sock.key.fdkey ctlOk) :
    s₂.keys = addedKeys (s.withEvents es) sock ∧ s₂.socketmap = s.socketmap := by
  have hs₁ :
      s₁ = { born (s.withEvents es) sock with keys := addedKeys (s.withEvents es) sock } := by
    simp only [next] at h₁
    split at h₁
    · rw [Option.some.injEq] at h₁
      rw [← h₁, doSystemEvent, hlst]
      exact addClientEvent_eq ..
    · cases h₁
  have hpc : s₁.pc = .adding (newConn (s.withEvents es) sock) := by rw [hs₁]; rfl
  simp only [next, hpc, Option.some.injEq] at h₂
  rcases addClientToEpoll_cases cfg s₁ (newConn (s.withEvents es) sock) ctlOk with
    ⟨-, eps, heq, -⟩ | ⟨hadd, -⟩
  · rw [← h₂, heq, hs₁]
    exact ⟨rfl, rfl⟩
  · rw [hs₁] at hadd
    exact absurd hadd hfail

/-- The key of its server then names the descriptor. -/
theorem failedAdd_key (htype : IsServerType sock.type)
    (hlst : s.eventlist = .addClient sock :: es) (h₁ : next cfg s .sysEvent = some s₁)
    (h₂ : next cfg s₁ (.register ctlOk) = some s₂)
    (hfail : ¬ Addable cfg s sock.key.fdkey ctlOk) :
    ∃ k, s₂.keys.ofType sock.type = some k ∧ k.data.fddat = sock.key.fdkey := by
  obtain ⟨hkeys, -⟩ := failedAdd_eq hlst h₁ h₂ hfail
  obtain ⟨k, hk⟩ : ∃ k, s.keys.ofType sock.type = some k := by
    rcases htype with ht | ht | ht | ht <;> rw [ht] <;> exact ⟨_, rfl⟩
  refine ⟨k.assign sock.key.fdkey (newConn (s.withEvents es) sock).key.connectTime sock.peerIp
    sock.peerPort sock.type sock.attempt true, ?_, rfl⟩
  rw [hkeys, addedKeys, ofType_setServerSocket, if_pos rfl]
  exact congrArg (Option.map _) hk

/-- **When a failed `ADD_CLIENT` is rolled back**: exactly where its
descriptor is negative, and `createServerConnect` queues none such. -/
theorem addClient_rolledBack_iff (htype : IsServerType sock.type)
    (hlst : s.eventlist = .addClient sock :: es) (h₁ : next cfg s .sysEvent = some s₁)
    (h₂ : next cfg s₁ (.register ctlOk) = some s₂)
    (hfail : ¬ Addable cfg s sock.key.fdkey ctlOk) :
    RolledBack s s₂ sock.type ↔ sock.key.fdkey < 0 := by
  obtain ⟨hkeys, hmap⟩ := failedAdd_eq hlst h₁ h₂ hfail
  obtain ⟨k, hkey, hfd⟩ := failedAdd_key htype hlst h₁ h₂ hfail
  constructor
  · intro hback
    rw [← hfd]
    exact hback.key k hkey
  · intro hneg
    refine ⟨fun k' hk' => ?_, fun t ht => ?_, hmap⟩
    · rw [hkey, Option.mem_some_iff] at hk'
      rw [← hk', hfd]
      exact hneg
    · rw [hkeys, addedKeys, ofType_setServerSocket, if_neg ht]
      rfl

variable (cfg) in
/-- The event is handled in two steps. -/
theorem exists_addClient_steps (hpc : s.pc = .sysEvent)
    (hlst : s.eventlist = .addClient sock :: es) (ctlOk : Bool) :
    ∃ s₁ s₂, next cfg s .sysEvent = some s₁ ∧ next cfg s₁ (.register ctlOk) = some s₂ := by
  refine ⟨{ born (s.withEvents es) sock with keys := addedKeys (s.withEvents es) sock }, _, ?_, rfl⟩
  simp only [next, hpc, doSystemEvent, hlst]
  exact congrArg some (addClientEvent_eq ..)

/-- The main server is connected to on descriptor `7`, and its event is
next. -/
def addingRun : List Action :=
  startConnect 7 ++ [.connect 0 (.connectOk 1000 0), .connect 0 .publish, .connect 0 .enqueue,
    .epollWait [], .flush]

/-- The socket of that event. -/
def addingSocket : SocketSet :=
  connectSocket (Sys.init peerConfig 0) mainsvrType rejectedIo ("", 0) 7

theorem reachable_adding : ∃ s, (server peerConfig 0).Reachable s ∧
    (s.pc = .sysEvent ∧ s.eventlist = [.addClient addingSocket]) :=
  Machine.exists_reach_of_exec addingRun (by decide +kernel)

theorem addClient_rolledBack_iff_main :
    ∃ s s₂, (server peerConfig 0).Reachable s ∧
      (RolledBack s s₂ mainsvrType ↔ addingSocket.key.fdkey < 0) := by
  obtain ⟨s, hs, hpc, hlst⟩ := reachable_adding
  obtain ⟨s₁, s₂, h₁, h₂⟩ := exists_addClient_steps peerConfig hpc hlst false
  exact ⟨s, s₂, hs, addClient_rolledBack_iff (by decide) hlst h₁ h₂ fun hadd => by cases hadd.1⟩

/-- **A failed `ADD_CLIENT` leaves its key**: `epoll_ctl` does not take the
descriptor. -/
theorem rolledBack_fails :
    ¬ ∀ (cfg : Config) (now : ℤ) (s s₁ s₂ : Sys) (sock : SocketSet) (es : List NetEvent)
      (ctlOk : Bool), (server cfg now).Reachable s → IsServerType sock.type →
        s.eventlist = .addClient sock :: es → next cfg s .sysEvent = some s₁ →
        next cfg s₁ (.register ctlOk) = some s₂ → ¬ Addable cfg s sock.key.fdkey ctlOk →
          RolledBack s s₂ sock.type := by
  intro hall
  obtain ⟨s, hs, hpc, hlst⟩ := reachable_adding
  obtain ⟨s₁, s₂, h₁, h₂⟩ := exists_addClient_steps peerConfig hpc hlst false
  have hfail : ¬ Addable peerConfig s addingSocket.key.fdkey false := fun hadd => by cases hadd.1
  have htype : IsServerType addingSocket.type := by decide
  obtain ⟨k, hkey, hfd⟩ := failedAdd_key htype hlst h₁ h₂ hfail
  have hneg :=
    (hall peerConfig 0 s s₁ s₂ addingSocket [] false hs htype hlst h₁ h₂ hfail).key k hkey
  rw [hfd] at hneg
  exact absurd hneg (by decide)

end Epoll

end EupuServer
