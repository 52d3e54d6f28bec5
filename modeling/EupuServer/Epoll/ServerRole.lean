import EupuServer.Epoll.Wf
/-!
# One connection for each server

`createServerConnect` looks at the key of its type, connects, sets the key
and queues the event in four steps, and the epoll thread overwrites and
resets the same key meanwhile. While one thread makes these calls there is
still at most one connection of a type, counted from the connect to the
entry of the map (`connections`). What carries this is that nothing but a
call hands a connection over: every other step keeps them or loses some,
and resets a key only where it loses one (`Loses`).
-/

namespace EupuServer

namespace Epoll

open Network Protocol

/-! ## Counting connections -/

/-- Whether an event adds a connection of type `t`. -/
def adds (t : ℤ) : NetEvent → Bool
  | .addClient sock => sock.type = t
  | .closeClient _ _ => false

/-- Whether the epoll thread is adding a connection of type `t`. -/
def Pc.adds (t : ℤ) : Pc → Bool
  | .adding sock => sock.type = t
  | _ => false

namespace ConnectPc

/-- Whether the thread has a connection of type `t` that is not queued. -/
def holds (t : ℤ) : ConnectPc → Bool
  | .connected sock => sock.type = t
  | .published sock => sock.type = t
  | _ => false

/-- Whether it has, and has set the key for it. -/
def announces (t : ℤ) : ConnectPc → Bool
  | .published sock => sock.type = t
  | _ => false

/-- Whether it found the key of type `t` negative and has no connection
yet. -/
def starts (t : ℤ) : ConnectPc → Bool
  | .checked ntype => ntype = t
  | .connecting ntype _ => ntype = t
  | _ => false

/-- The descriptor of its socket. -/
def fd : ConnectPc → Option ℤ
  | .connecting _ fd => some fd
  | .connected sock => some sock.key.fdkey
  | .published sock => some sock.key.fdkey
  | _ => none

end ConnectPc

/-- The entries of the map that are connections of type `t`. -/
def live (s : Sys) (t : ℤ) : ℕ :=
  IntMap.count (fun v : Option SocketSet => v.any fun sock => sock.type = t) s.socketmap

/-- **The connections of type `t` the epoll thread was handed**: in the
map, about to be added, or in the event queue. -/
def handed (s : Sys) (t : ℤ) : ℕ :=
  live s t + (if s.pc.adds t then 1 else 0) + s.eventlist.countP (adds t)

/-- **The connections of type `t`**, live or pending, where `th` is the one
thread that connects. -/
def connections (s : Sys) (th : ℕ) (t : ℤ) : ℕ :=
  handed s t + if (s.connecting th).holds t then 1 else 0

/-- The descriptor stored for type `t` is negative. -/
def KeyFree (s : Sys) (t : ℤ) : Prop := ∃ k ∈ s.keys.ofType t, k.data.fddat < 0

/-! ## What is lost -/

/-- **No connection of type `t` is handed over**, and its key becomes free
only where one is lost. -/
structure Loses (t : ℤ) (s s' : Sys) : Prop where
  connecting : s'.connecting = s.connecting
  events : ∀ sock, .addClient sock ∈ s'.eventlist → .addClient sock ∈ s.eventlist
  handed : handed s' t ≤ handed s t
  key : KeyFree s' t → KeyFree s t ∨ Epoll.handed s' t < Epoll.handed s t

variable {cfg : Config} {s s' s'' : Sys} {a : Action} {t : ℤ} {th : ℕ}

namespace Loses

theorem trans (h : Loses t s s') (h' : Loses t s' s'') : Loses t s s'' := by
  have hle := h.handed
  have hle' := h'.handed
  refine ⟨h'.connecting.trans h.connecting, ?_, hle'.trans hle, ?_⟩
  · exact fun sock hsock => h.events sock (h'.events sock hsock)
  · intro hfree
    rcases h'.key hfree with hfree' | hlt
    · rcases h.key hfree' with hfree₀ | hlt
      · exact .inl hfree₀
      · exact .inr (by omega)
    · exact .inr (by omega)

/-- The key is not touched. -/
theorem of_keys (hconn : s'.connecting = s.connecting) (hevents : s'.eventlist = s.eventlist)
    (hkeys : s'.keys = s.keys) (hlive : live s' t ≤ live s t)
    (hpc : s'.pc.adds t = true → s.pc.adds t = true) : Loses t s s' := by
  refine ⟨hconn, by rw [hevents]; exact fun _ h => h, ?_, ?_⟩
  · unfold Epoll.handed
    rw [hevents]
    have hadds : (if s'.pc.adds t then 1 else 0) ≤ if s.pc.adds t then 1 else 0 := by
      split
      · rw [if_pos (hpc ‹_›)]
      · exact Nat.zero_le _
    omega
  · unfold KeyFree
    rw [hkeys]
    exact .inl

/-- Neither the key nor the map is touched. -/
theorem of_eq (hconn : s'.connecting = s.connecting) (hevents : s'.eventlist = s.eventlist)
    (hkeys : s'.keys = s.keys) (hmap : s'.socketmap = s.socketmap)
    (hpc : s'.pc.adds t = true → s.pc.adds t = true) : Loses t s s' :=
  of_keys hconn hevents hkeys (by unfold live; rw [hmap]) hpc

theorem refl : Loses t s s := of_eq rfl rfl rfl rfl id

theorem goto (h : Loses t s s') {pc : Pc} (hpc : pc.adds t = false) : Loses t s (s'.goto pc) :=
  h.trans (of_eq rfl rfl rfl rfl (by simp [hpc]))

end Loses

/-- Another type's key is not touched by a setter. -/
theorem keyFree_setServerSocket {fd conntime ntype : ℤ} {ip : String} {port : UInt16} {l : ℕ}
    {indexed : Bool}
    (hkeys : s'.keys = s.keys.setServerSocket fd conntime ip port ntype l indexed) :
    KeyFree s' t → t ≠ ntype ∧ KeyFree s t ∨ t = ntype ∧ fd < 0 := by
  rintro ⟨k, hk, hneg⟩
  rw [hkeys] at hk
  rcases ofType_setServerSocket_cases hk with ⟨hne, hk⟩ | ⟨heq, rfl, -⟩
  · exact .inl ⟨hne, k, hk, hneg⟩
  · exact .inr ⟨heq, hneg⟩

theorem live_closeClient_le (fd conntime : ℤ) :
    live (closeClient cfg s fd conntime) t ≤ live s t := by
  rw [closeClient_eq]
  unfold live
  simp only
  split
  · exact le_rfl
  · exact IntMap.count_erase_le _ _

/-- The connection that closing deletes is one of those counted. -/
theorem live_closeClient_lt {fd : ℤ} {sock : SocketSet} (hclosing : closing s fd = some sock)
    (hty : sock.type = t) (conntime : ℤ) :
    live (closeClient cfg s fd conntime) t < live s t := by
  obtain ⟨hfd, hlookup⟩ := closing_eq_some hclosing
  have hcount := IntMap.count_erase_of_lookup
    (p := fun v : Option SocketSet => v.any fun sock => sock.type = t) hlookup
  rw [if_pos (by simp [hty])] at hcount
  rw [closeClient_eq]
  unfold live
  simp only [if_neg hfd]
  omega

/-- A key becomes free by closing only where a connection of its type is
deleted. -/
theorem keyFree_closeClient {fd conntime : ℤ} (hfree : KeyFree (closeClient cfg s fd conntime) t) :
    KeyFree s t ∨ ∃ sock, closing s fd = some sock ∧ sock.type = t := by
  have hkeys : (closeClient cfg s fd conntime).keys = closeKeys s fd := by rw [closeClient_eq]
  rcases closeKeys_cases s fd with hsame | ⟨sock, hclosing, hreset⟩
  · unfold KeyFree at hfree ⊢
    rw [hkeys, hsame] at hfree
    exact .inl hfree
  · rcases keyFree_setServerSocket (hkeys.trans hreset) hfree with ⟨-, hfree₀⟩ | ⟨hty, -⟩
    · exact .inl hfree₀
    · exact .inr ⟨sock, hclosing, hty.symm⟩

/-- **Closing resets the key of the connection it takes out of the map.** -/
theorem closeClient_loses (fd conntime : ℤ) : Loses t s (closeClient cfg s fd conntime) := by
  have hpc : (closeClient cfg s fd conntime).pc = s.pc := by rw [closeClient_eq]
  have hkeep : Keeps s (closeClient cfg s fd conntime) := closeClient_keeps fd conntime
  have hle : live (closeClient cfg s fd conntime) t ≤ live s t := live_closeClient_le fd conntime
  refine ⟨hkeep.connecting, ?_, ?_, ?_⟩
  · rw [hkeep.eventlist]
    exact fun _ h => h
  · unfold handed
    rw [hpc, hkeep.eventlist]
    omega
  · intro hfree
    refine (keyFree_closeClient hfree).imp_right ?_
    rintro ⟨sock, hclosing, hty⟩
    have hlt : live (closeClient cfg s fd conntime) t < live s t :=
      live_closeClient_lt hclosing hty conntime
    unfold handed
    rw [hpc, hkeep.eventlist]
    omega

theorem deleteSendMsg_loses (fd : ℤ) : Loses t s (deleteSendMsgFromSendMap s fd) := by
  rcases deleteSendMsg_cases s fd with heq | heq <;> rw [heq] <;> exact .of_eq rfl rfl rfl rfl id

/-- **No effect hands a connection over.** -/
theorem Effect.loses (h : Effect cfg s s') : Loses t s s' := by
  cases h with
  | close fd conntime => exact closeClient_loses fd conntime
  | @recv fd sock now recvs hsock hkey =>
    refine .of_keys rfl rfl rfl ?_ id
    have htype : (recvMessage cfg.host cfg.recvbuflen now sock recvs).sock.type = sock.type :=
      (recvLoop_same _ _ _ _ _).type
    refine (IntMap.count_insert_of_lookup hsock ?_).le
    simp only [Option.any_some, htype]
  | @sendFail fd sock lst sends conntime =>
    have hsent : Loses t s (sentFrom s fd (sendLoop sock.key sends lst)) :=
      .of_eq rfl rfl rfl rfl id
    exact (hsent.trans (deleteSendMsg_loses fd)).trans (closeClient_loses fd conntime)
  | drop => exact deleteSendMsg_loses _
  | @closeNull fd hnull => exact .of_keys rfl rfl rfl (IntMap.count_erase_le _ _) id
  | send | sendAll | dropNull | mod | endDeref => exact .of_eq rfl rfl rfl rfl id

theorem Effects.loses (h : Effects cfg s s') : Loses t s s' :=
  h.invariant (I := Loses t s) (fun _ _ heff h => h.trans heff.loses) .refl

/-- Accepting messages hands no connection over. -/
theorem accepts_loses {cur : SendMap NetDataPtr} {allocs : ℕ} {recs : List Record} :
    Loses t s { s with cur := cur, allocs := allocs, hist := s.hist ++ recs } :=
  .of_eq rfl rfl rfl rfl id

theorem sendMsgToServer_loses (ntype : ℤ) (m : ServerMsg) :
    Loses t s (sendMsgToServer cfg s ntype m) := by
  obtain ⟨cur, allocs, recs, -, heq⟩ := sendMsgToServer_frame cfg s ntype m
  rw [heq]
  exact accepts_loses

/-- **Registering a connection** moves it into the map, or loses it. -/
theorem register_loses {sock : SocketSet} (hpc : s.pc = .adding sock) (ctlOk : Bool) {pc : Pc}
    (hto : pc.adds t = false) : Loses t s ((addClientToEpoll cfg s sock ctlOk).goto pc) := by
  rcases addClientToEpoll_cases cfg s sock ctlOk with ⟨-, es, heq, -⟩ | ⟨-, heq⟩
  · rw [heq]
    exact .of_eq rfl rfl rfl rfl (by simp [hto])
  · rw [heq]
    refine ⟨rfl, fun _ h => h, ?_, .inl⟩
    have hle : live { s with socketmap := s.socketmap.insert sock.key.fdkey (some sock) } t ≤
        live s t + if s.pc.adds t then 1 else 0 := by
      unfold live
      rw [IntMap.count_insert, hpc]
      exact Nat.add_le_add_right (IntMap.count_erase_le _ _) _
    unfold handed
    simp only [Sys.goto, hto]
    exact Nat.add_le_add_right hle _

/-- A client that is accepted is no connection to a server. -/
theorem acceptConn_loses (ht : IsServerType t) {evs : List EpollEvent} (hpc : s.pc = .accept evs)
    (fd : ℤ) (ip : String) (port : UInt16) (nonBlock sndBuf rcvBuf noDelay : Bool) (now : ℤ)
    (ctlOk : Bool) :
    Loses t s (acceptConn cfg s fd ip port nonBlock sndBuf rcvBuf noDelay now ctlOk) := by
  rcases acceptConn_cases cfg s fd ip port nonBlock sndBuf rcvBuf noDelay now ctlOk with
    heq | ⟨-, heq⟩
  · rw [heq]
    exact .of_eq rfl rfl rfl rfl id
  · have hborn : Loses t s (born (s.opened fd) (newClient fd ip port now)) := by
      refine .of_eq rfl rfl rfl rfl ?_
      have hne : clientType ≠ t := (clientType_lt_of_isServerType ht).ne
      intro hadds
      exact absurd (of_decide_eq_true hadds) hne
    rw [heq]
    exact hborn.trans (register_loses rfl ctlOk (by simp [hpc, Pc.adds]))

/-- **An event moves its connection on**, and sets the key to a descriptor
that is not negative. -/
theorem addClientEvent_loses {sock : SocketSet} {es : List NetEvent} (hpc : s.pc = .sysEvent)
    (hlst : s.eventlist = .addClient sock :: es) (hfd : 0 ≤ sock.key.fdkey) :
    Loses t s (addClientEvent cfg (s.withEvents es) sock) := by
  rw [addClientEvent_eq]
  have hhanded : handed (born (s.withEvents es) sock) t = handed s t := by
    unfold handed
    rw [hpc, hlst, List.countP_cons]
    show live s t + (if decide (sock.type = t) then 1 else 0) + es.countP (adds t) =
      live s t + 0 + (es.countP (adds t) + if decide (sock.type = t) then 1 else 0)
    omega
  refine ⟨rfl, ?_, hhanded.le, ?_⟩
  · intro x hx
    rw [hlst]
    exact List.mem_cons_of_mem _ hx
  · -- the descriptor the key is set to is the socket's
    intro hfree
    rcases keyFree_setServerSocket (s := s) rfl hfree with ⟨-, hfree₀⟩ | ⟨-, hneg⟩
    · exact .inl hfree₀
    · exact absurd hneg (by omega)

/-- A request to close is no connection. -/
theorem sysClose_loses {fd conntime : ℤ} {es : List NetEvent}
    (hlst : s.eventlist = .closeClient fd conntime :: es) :
    Loses t s (closeClient cfg (s.withEvents es) fd conntime) := by
  have hes : Loses t s (s.withEvents es) := by
    refine ⟨rfl, ?_, ?_, .inl⟩
    · intro x hx
      rw [hlst]
      exact List.mem_cons_of_mem _ hx
    · unfold handed
      rw [hlst, List.countP_cons]
      exact Nat.add_le_add_left (Nat.le_add_right _ _) _
  exact hes.trans (closeClient_loses fd conntime)

/-- Nor is one that is queued. -/
theorem createCloseConnectEvent_loses (fd conntime : ℤ) :
    Loses t s (createCloseConnectEvent s fd conntime) := by
  unfold createCloseConnectEvent
  split
  · exact .refl
  · refine ⟨rfl, ?_, ?_, .inl⟩
    · intro x hx
      rcases List.mem_append.mp hx with hx | hx
      · exact hx
      · cases List.mem_singleton.mp hx
    · unfold handed
      simp only [Sys.withEvents, List.countP_append]
      exact le_rfl

/-! ## The invariant -/

/-- The thread that makes a step of `createServerConnect`. -/
def Action.thread : Action → Option ℕ
  | .connect th _ => some th
  | _ => none

/-- **The condition on a step**: `createServerConnect` is called by the
thread `th` alone. -/
def CalledBy (th : ℕ) (_ : Sys) (a : Action) : Prop := ∀ th' ∈ a.thread, th' = th

instance : Decidable (CalledBy th s a) := inferInstanceAs (Decidable (∀ _ ∈ _, _))

/-- **One connection of type `t`.** -/
structure Single (th : ℕ) (t : ℤ) (s : Sys) : Prop where
  /-- the other threads make no call -/
  alone : ∀ th', th' ≠ th → s.connecting th' = .idle
  /-- what is connected has a descriptor -/
  queued : ∀ sock, .addClient sock ∈ s.eventlist → 0 ≤ sock.key.fdkey
  owned : ∀ fd ∈ (s.connecting th).fd, 0 ≤ fd
  /-- there is no second connection -/
  one : connections s th t ≤ 1
  /-- a free key has no connection, but for one whose key is still to be set -/
  free : KeyFree s t → handed s t = 0 ∧ (s.connecting th).announces t = false
  /-- nor has one a call is about to connect for -/
  starting : (s.connecting th).starts t = true → handed s t = 0

namespace Single

/-- **A step that is no call keeps it.** -/
theorem of_loses (hs : Single th t s) (h : Loses t s s') : Single th t s' := by
  have hle := h.handed
  have hone := hs.one
  unfold connections at hone
  refine ⟨?_, ?_, ?_, ?_, ?_, ?_⟩
  · rw [h.connecting]
    exact hs.alone
  · exact fun sock hsock => hs.queued sock (h.events sock hsock)
  · rw [h.connecting]
    exact hs.owned
  · unfold connections
    rw [h.connecting]
    omega
  · intro hfree
    rw [h.connecting]
    rcases h.key hfree with hfree₀ | hlt
    · obtain ⟨hnone, hnot⟩ := hs.free hfree₀
      exact ⟨by omega, hnot⟩
    · -- the one connection there was is lost
      refine ⟨by omega, ?_⟩
      rcases hc : s.connecting th with _ | _ | _ | _ | sock
      case published =>
        rw [hc] at hone
        unfold ConnectPc.announces
        rw [decide_eq_false_iff_not]
        intro hty
        simp only [ConnectPc.holds, hty, decide_true, if_true] at hone
        omega
      all_goals rfl
  · rw [h.connecting]
    intro hstart
    have := hs.starting hstart
    omega

theorem init (now : ℤ) : Single th t (Sys.init cfg now) := by
  refine ⟨fun _ _ => rfl, ?_, ?_, Nat.zero_le _, fun _ => ⟨rfl, rfl⟩, fun _ => rfl⟩
  · intro sock hsock
    cases hsock
  · intro fd hfd
    cases hfd

/-- The thread moves, and hands nothing over. -/
theorem atConnect (h : Single th t s) {c : ConnectPc} (hfd : ∀ fd ∈ c.fd, 0 ≤ fd)
    (hone : handed s t + (if c.holds t then 1 else 0) ≤ 1)
    (hfree : KeyFree s t → handed s t = 0 ∧ c.announces t = false)
    (hstart : c.starts t = true → handed s t = 0) : Single th t (s.atConnect th c) := by
  have hc : (s.atConnect th c).connecting th = c := Function.update_self _ _ _
  refine ⟨?_, h.queued, ?_, ?_, ?_, ?_⟩
  · intro th' hne
    rw [← h.alone th' hne]
    exact Function.update_of_ne hne _ _
  · rw [hc]
    exact hfd
  · unfold connections
    rw [hc]
    exact hone
  · rw [hc]
    exact hfree
  · rw [hc]
    exact hstart

/-- A call begins where the key is free. -/
theorem start (h : Single th t s) {ntype : ℤ} {k : ServerKey}
    (hkey : s.keys.ofType ntype = some k) (hneg : k.data.fddat < 0)
    (hidle : s.connecting th = .idle) : Single th t (s.atConnect th (.checked ntype)) := by
  have hone := h.one
  unfold connections at hone
  rw [hidle] at hone
  refine h.atConnect nofun hone (fun hfree => ⟨(h.free hfree).1, rfl⟩) ?_
  intro hty
  have hty : ntype = t := of_decide_eq_true hty
  exact (h.free ⟨k, hty ▸ hkey, hneg⟩).1

/-- **The connect succeeds**: there was no connection of its type. -/
theorem connectOk (h : Single th t s) {ntype fd : ℤ} (hpc : s.connecting th = .connecting ntype fd)
    {sock : SocketSet} (hfd : sock.key.fdkey = fd) (hty : sock.type = ntype) (l : ℕ) :
    Single th t ({ s with attempts := l }.atConnect th (.connected sock)) := by
  have hsame : Single th t { s with attempts := l } := ⟨h.alone, h.queued, h.owned, h.one, h.free,
    h.starting⟩
  have hone := h.one
  unfold connections at hone
  refine hsame.atConnect ?_ ?_ (fun hfree => ⟨(h.free hfree).1, rfl⟩) nofun
  · intro k hk
    injection hk with hk
    rw [← hk, hfd]
    exact h.owned fd (by rw [hpc]; rfl)
  · show handed s t + (if decide (sock.type = t) then 1 else 0) ≤ 1
    by_cases hrole : sock.type = t
    · have hnone : handed s t = 0 := by
        refine h.starting ?_
        rw [hpc]
        exact decide_eq_true (hty ▸ hrole)
      rw [hnone, Nat.zero_add]
      split <;> omega
    · rw [if_neg (by simpa using hrole)]
      omega

/-- **The key is set**, so it is not free. -/
theorem publish (h : Single th t s) {sock : SocketSet} (hpc : s.connecting th = .connected sock)
    (conntime : ℤ) (ip : String) (port : UInt16) (l : ℕ) (indexed : Bool) :
    Single th t ((s.setServerSocket sock.key.fdkey conntime ip port sock.type l indexed).atConnect
      th (.published sock)) := by
  have hfd : 0 ≤ sock.key.fdkey := h.owned _ (by rw [hpc]; rfl)
  have hkey : KeyFree (s.setServerSocket sock.key.fdkey conntime ip port sock.type l indexed) t →
      t ≠ sock.type ∧ KeyFree s t := by
    intro hfree
    rcases keyFree_setServerSocket (s := s) rfl hfree with hother | ⟨-, hneg⟩
    · exact hother
    · exact absurd hneg (by omega)
  have hset : Single th t (s.setServerSocket sock.key.fdkey conntime ip port sock.type l indexed) :=
    ⟨h.alone, h.queued, h.owned, h.one, fun hfree => h.free (hkey hfree).2, h.starting⟩
  have hone := h.one
  unfold connections at hone
  rw [hpc] at hone
  refine hset.atConnect ?_ hone ?_ nofun
  · intro k hk
    injection hk with hk
    exact hk ▸ hfd
  · intro hfree
    obtain ⟨hne, hfree₀⟩ := hkey hfree
    exact ⟨(h.free hfree₀).1, decide_eq_false (Ne.symm hne)⟩

/-- **The event is queued**: the connection is handed over. -/
theorem enqueue (h : Single th t s) {sock : SocketSet} (hpc : s.connecting th = .published sock) :
    Single th t ((s.withEvents (s.eventlist ++ [.addClient sock])).atConnect th .idle) := by
  have hfd : 0 ≤ sock.key.fdkey := h.owned _ (by rw [hpc]; rfl)
  have hone : handed (s.withEvents (s.eventlist ++ [.addClient sock])) t = connections s th t := by
    unfold connections handed
    rw [hpc]
    simp only [Sys.withEvents, List.countP_append, List.countP_singleton]
    exact (Nat.add_assoc _ _ _).symm
  have hnone : KeyFree s t → connections s th t = 0 := by
    intro hfree
    obtain ⟨hzero, hnot⟩ := h.free hfree
    rw [hpc] at hnot
    have hother : (ConnectPc.published sock).holds t = false := hnot
    unfold connections
    rw [hzero, hpc, hother]
    rfl
  have hc : ((s.withEvents (s.eventlist ++ [.addClient sock])).atConnect th .idle).connecting th =
      .idle := Function.update_self _ _ _
  refine ⟨?_, ?_, ?_, ?_, ?_, ?_⟩
  · intro th' hne
    rw [← h.alone th' hne]
    exact Function.update_of_ne hne _ _
  · intro x hx
    rcases List.mem_append.mp hx with hx | hx
    · exact h.queued x hx
    · injection List.mem_singleton.mp hx with hx
      exact hx ▸ hfd
  · rw [hc]
    simp [ConnectPc.fd]
  · -- what the thread held counts in the queue now
    unfold connections
    rw [hc]
    exact hone.trans_le h.one
  · intro hfree
    rw [hc]
    exact ⟨hone.trans (hnone hfree), rfl⟩
  · rw [hc]
    simp [ConnectPc.starts]

/-- The descriptors of the system do not matter to it. -/
theorem of_fds (h : Single th t s) (fds : Finset ℤ) (es : IntMap Registration) :
    Single th t { s with openfds := fds, epollset := es } :=
  ⟨h.alone, h.queued, h.owned, h.one, h.free, h.starting⟩

/-- The call ends without a connection. -/
theorem abandon (h : Single th t s) : Single th t (s.atConnect th .idle) := by
  have hone := h.one
  unfold connections at hone
  refine h.atConnect nofun (le_trans ?_ hone) (fun hfree => ⟨(h.free hfree).1, rfl⟩) nofun
  exact Nat.add_le_add_left (Nat.zero_le _) _

/-- **A step keeps it.** -/
theorem step (h : Single th t s) (ht : IsServerType t) (hok : CalledBy th s a)
    (hstep : Step cfg s a s') : Single th t s' := by
  cases hstep with
  | epollWait | listen | acceptFail | flush | sysEnd | switchSendMap | sweepEnd | pingEnd =>
    exact h.of_loses (.of_eq rfl rfl rfl rfl nofun)
  | event => exact h.of_loses ((handleEvent_effects s _ _).loses.goto rfl)
  | @acceptConn evs fd ip port b₁ b₂ b₃ b₄ now ctlOk hpc =>
    exact h.of_loses (acceptConn_loses ht hpc fd ip port b₁ b₂ b₃ b₄ now ctlOk)
  | sysClose hpc hlst => exact h.of_loses (sysClose_loses hlst)
  | @sysAdd sock es hpc hlst =>
    have hfd : 0 ≤ sock.key.fdkey := h.queued sock (by rw [hlst]; exact List.mem_cons_self)
    exact h.of_loses (addClientEvent_loses hpc hlst hfd)
  | register hpc => exact h.of_loses (register_loses hpc _ rfl)
  | scan => exact h.of_loses ((scanFd_effects s _ _).loses.goto rfl)
  | @scanEnd del =>
    have hdrop : Loses t s (del.foldl deleteSendMsgFromSendMap s) :=
      deleteSendMsgs_invariant (I := Loses t s) del
        (fun _ fd _ h => h.trans (deleteSendMsg_loses fd))
        .refl
    exact h.of_loses (hdrop.goto rfl)
  | keepalive _ _ _ hto | keepaliveSend _ _ hto =>
    rcases hto with rfl | rfl <;> exact h.of_loses (.of_eq rfl rfl rfl rfl nofun)
  | sweep => exact h.of_loses ((sweepFd_effects s _).loses.goto rfl)
  | ping => exact h.of_loses ((sendMsgToServer_loses _ _).goto rfl)
  | addMsg => exact h.of_loses (.of_eq rfl rfl rfl rfl id)
  | sendMsgToServer => exact h.of_loses (sendMsgToServer_loses _ _)
  | createCloseConnectEvent => exact h.of_loses (createCloseConnectEvent_loses _ _)
  | outQueue => exact h.of_loses (.of_eq rfl rfl rfl rfl id)
  | startNot => exact h
  | @start th' ntype hidle k hkey hneg =>
    obtain rfl : th' = th := hok th' rfl
    exact h.start hkey hneg hidle
  | @socket th' ntype fd hpc hfd hopen =>
    obtain rfl : th' = th := hok th' rfl
    have hone := h.one
    have hstart := h.starting
    unfold connections at hone
    rw [hpc] at hone hstart
    refine (h.of_fds (insert fd s.openfds) s.epollset).atConnect ?_ hone ?_ hstart
    · intro k hk
      injection hk with hk
      exact hk ▸ hfd
    · exact fun hfree => ⟨(h.free hfree).1, rfl⟩
  | @socketFail th' ntype hpc =>
    obtain rfl : th' = th := hok th' rfl
    exact h.abandon
  | @connectFail th' ntype fd hpc =>
    obtain rfl : th' = th := hok th' rfl
    exact (h.of_fds _ _).abandon
  | @connectOk th' ntype fd conntime now hpc ip port =>
    obtain rfl : th' = th := hok th' rfl
    exact h.connectOk hpc rfl rfl _
  | @publish th' sock hpc =>
    obtain rfl : th' = th := hok th' rfl
    exact h.publish hpc _ _ _ _ _
  | @enqueue th' sock hpc =>
    obtain rfl : th' = th := hok th' rfl
    exact h.enqueue hpc
  | @enqueueFail th' sock hpc =>
    obtain rfl : th' = th := hok th' rfl
    -- the type it is reset for is that of a client, so no key is
    have hne : t ≠ 1 := (clientType_lt_of_isServerType ht).ne'
    have hreset : Single th' t (s.setServerSocket (-1) 0 "" 0 1 0 false) := by
      refine ⟨h.alone, h.queued, h.owned, h.one, ?_, h.starting⟩
      intro hfree
      have hkeys : (s.setServerSocket (-1) 0 "" 0 1 0 false).keys =
          s.keys.setServerSocket (-1) 0 "" 0 1 0 false := rfl
      rcases keyFree_setServerSocket hkeys hfree with ⟨-, hfree₀⟩ | ⟨heq, -⟩
      · exact h.free hfree₀
      · exact absurd heq hne
    exact (hreset.of_fds _ _).abandon

end Single

/-- **At most one connection for each server**, in every run in which one
thread calls `createServerConnect`: there is never a second one, live or
pending, and between calls none where the stored descriptor is negative. -/
theorem oneConnection_of_reach {now : ℤ} (h : (server cfg now).Reach (CalledBy th) s)
    (ht : IsServerType t) :
    connections s th t ≤ 1 ∧ (∀ th', th' ≠ th → s.connecting th' = .idle) ∧
      (s.connecting th = .idle → KeyFree s t → connections s th t = 0) := by
  have hsingle : Single th t s :=
    h.invariant (Single.init now) fun _ _ _ _ hok hnext hs => hs.step ht hok (step_of_next hnext)
  refine ⟨hsingle.one, hsingle.alone, ?_⟩
  intro hidle hfree
  unfold connections
  rw [(hsingle.free hfree).1, hidle]
  rfl

/-- A connection to the main server, once it is in the map. -/
theorem oneConnection_of_reach_live :
    ∃ s, (server peerConfig 0).Reach (CalledBy 0) s ∧ live s mainsvrType = 1 ∧
      connections s 0 mainsvrType ≤ 1 := by
  have hrun : ∃ s, (server peerConfig 0).Reach (CalledBy 0) s ∧ live s mainsvrType = 1 :=
    Machine.exists_reach_of_exec (startConnect 7 ++
      [.connect 0 (.connectOk 1000 0), .connect 0 .publish, .connect 0 .enqueue, .epollWait [],
        .flush, .sysEvent, .register true]) (by decide)
  obtain ⟨s, hs, hlive⟩ := hrun
  exact ⟨s, hs, hlive, (oneConnection_of_reach hs (by decide)).1⟩

end Epoll

end EupuServer
