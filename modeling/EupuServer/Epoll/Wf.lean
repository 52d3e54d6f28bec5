import EupuServer.Epoll.SendList
/-!
# Connections and their indices

Which connection is which: an entry of the socket map stands under the
descriptor its key names, the index in its key was given to it and to no
other connection, and while the index has not wrapped around it is the
number of the call that gave it (`Wf`). A handler that adds no connection
leaves fewer of them, each what it was (`Shrinks`), and a step gives at most
one index (`Step.indices`).
-/

namespace EupuServer

namespace Epoll

open Network Protocol

/-! ## What the map loses -/

/-- **No connection is added**: an entry of `s'` was one of `s`, and no
index was given. -/
structure Shrinks (s s' : Sys) : Prop where
  entry : ∀ fd v', s'.socketmap.lookup fd = some v' → ∃ v, s.socketmap.lookup fd = some v ∧
    (v = none ∧ v' = none ∨ ∃ x x', v = some x ∧ v' = some x' ∧ SameConn x x')
  index : ∀ id fd t l, .index id fd t l ∈ s'.hist ↔ .index id fd t l ∈ s.hist
  calls : s'.calls = s.calls
  next : s'.index = s.index

namespace Shrinks

variable {s s' s'' : Sys}

/-- An entry that is not touched. -/
theorem entry_self (v : Option SocketSet) :
    v = none ∧ v = none ∨ ∃ x x', v = some x ∧ v = some x' ∧ SameConn x x' := by
  rcases v with _ | x
  · exact .inl ⟨rfl, rfl⟩
  · exact .inr ⟨x, x, rfl, rfl, .rfl'⟩

/-- The map is as it was, and what was recorded is no index. -/
theorem of_eq (hmap : s'.socketmap = s.socketmap) (hcalls : s'.calls = s.calls)
    (hnext : s'.index = s.index) {recs : List Record} (hhist : s'.hist = s.hist ++ recs)
    (hrecs : ∀ id fd t l, .index id fd t l ∉ recs) : Shrinks s s' := by
  refine ⟨?_, ?_, hcalls, hnext⟩
  · intro fd v hv
    rw [hmap] at hv
    exact ⟨v, hv, entry_self v⟩
  · intro id fd t l
    rw [hhist, List.mem_append, or_iff_left (hrecs id fd t l)]

theorem refl : Shrinks s s := of_eq rfl rfl rfl (List.append_nil _).symm (by simp)

theorem trans (h : Shrinks s s') (h' : Shrinks s' s'') : Shrinks s s'' := by
  refine ⟨?_, ?_, h'.calls.trans h.calls, h'.next.trans h.next⟩
  · intro fd v'' hv''
    obtain ⟨v', hv', hcase'⟩ := h'.entry fd v'' hv''
    obtain ⟨v, hv, hcase⟩ := h.entry fd v' hv'
    refine ⟨v, hv, ?_⟩
    rcases hcase' with ⟨rfl, rfl⟩ | ⟨x', x'', rfl, rfl, hsame'⟩
    · rcases hcase with ⟨rfl, -⟩ | ⟨_, _, -, h, -⟩
      · exact .inl ⟨rfl, rfl⟩
      · cases h
    · rcases hcase with ⟨-, h⟩ | ⟨x, y, rfl, h, hsame⟩
      · cases h
      · injection h with h
        subst h
        exact .inr ⟨x, x'', rfl, rfl, hsame.trans hsame'⟩
  · intro id fd t l
    rw [h'.index, h.index]

theorem goto (h : Shrinks s s') (pc : Pc) : Shrinks s (s'.goto pc) :=
  h.trans (.of_eq rfl rfl rfl (List.append_nil _).symm (by simp))

/-- A connection that is left was there. -/
theorem conn (h : Shrinks s s') {fd : ℤ} {x' : SocketSet}
    (hx : s'.socketmap.lookup fd = some (some x')) :
    ∃ x, s.socketmap.lookup fd = some (some x) ∧ SameConn x x' := by
  obtain ⟨v, hv, ⟨-, h⟩ | ⟨x, y, rfl, h, hsame⟩⟩ := h.entry fd _ hx
  · cases h
  · injection h with h
    subst h
    exact ⟨x, hv, hsame⟩

end Shrinks

variable {cfg : Config} {s s' : Sys} {a : Action}

/-- Closing takes at most one entry out of the map. -/
theorem closeClient_shrinks (fd conntime : ℤ) : Shrinks s (closeClient cfg s fd conntime) := by
  refine ⟨?_, ?_, ?_, ?_⟩
  · intro k v hv
    exact ⟨v, lookup_of_closeClient hv, Shrinks.entry_self v⟩
  · rw [closeClient_eq]
    simp [closeNotes]
  · rw [closeClient_eq]
  · rw [closeClient_eq]

/-- Dropping a list adds no connection. -/
theorem deleteSendMsg_shrinks (fd : ℤ) : Shrinks s (deleteSendMsgFromSendMap s fd) := by
  rcases deleteSendMsg_cases s fd with heq | heq
  · rw [heq]
    exact .refl
  · rw [heq]
    exact .of_eq rfl rfl rfl rfl (by simp)

theorem deleteSendMsgs_shrinks (del : List ℤ) :
    Shrinks s (del.foldl deleteSendMsgFromSendMap s) :=
  deleteSendMsgs_invariant (I := Shrinks s) del
    (fun _ fd _ hs => hs.trans (deleteSendMsg_shrinks fd)) .refl

/-- Sending adds no connection. -/
theorem sentFrom_shrinks (fd : ℤ) (key : SocketKey) (sends : List SendResult)
    (lst : List NetDataPtr) : Shrinks s (sentFrom s fd (sendLoop key sends lst)) := by
  refine .of_eq rfl rfl rfl rfl ?_
  intro id fd t l h
  rcases sendLoop_recs h with ⟨_, _, h, -⟩ | ⟨_, -, ⟨h, -⟩ | ⟨h, -⟩⟩ <;> cases h

/-- **No effect adds a connection.** -/
theorem Effect.shrinks (h : Effect cfg s s') : Shrinks s s' := by
  cases h with
  | close fd conntime => exact closeClient_shrinks fd conntime
  | @recv fd sock now recvs hsock hkey =>
    refine ⟨?_, ?_, rfl, rfl⟩
    · intro k v hv
      simp only [received, IntMap.lookup_insert_eq] at hv
      split at hv
      · subst ‹k = fd›
        injection hv with hv
        exact ⟨some sock, hsock, .inr ⟨sock, _, rfl, hv.symm, recvLoop_same _ _ _ _ _⟩⟩
      · exact ⟨v, hv, Shrinks.entry_self v⟩
    · simp [received]
  | send sends hsock hlst hleft hok => exact sentFrom_shrinks _ _ _ _
  | @sendAll fd sock lst sends hsock hlst hleft hok =>
    exact (sentFrom_shrinks fd sock.key sends lst).trans
      (.of_eq rfl rfl rfl (List.append_nil _).symm (by simp))
  | sendFail sends conntime hsock hlst hfail =>
    exact ((sentFrom_shrinks _ _ _ _).trans (deleteSendMsg_shrinks _)).trans
      (closeClient_shrinks _ _)
  | drop hgone => exact deleteSendMsg_shrinks _
  | dropNull hnull => exact .of_eq rfl rfl rfl (List.append_nil _).symm (by simp)
  | mod fd reg hfd => exact .of_eq rfl rfl rfl (List.append_nil _).symm (by simp)
  | endDeref fd => exact .of_eq rfl rfl rfl rfl (by simp)
  | @closeNull fd hnull =>
    refine ⟨?_, fun _ _ _ _ => .rfl, rfl, rfl⟩
    intro k v hv
    exact ⟨v, IntMap.lookup_of_erase hv, Shrinks.entry_self v⟩

theorem Effects.shrinks (h : Effects cfg s s') : Shrinks s s' :=
  h.invariant (I := Shrinks s) (fun _ _ heff h => h.trans heff.shrinks) .refl

/-- Accepting messages adds no connection. -/
theorem accepts_shrinks {cur : SendMap NetDataPtr} {allocs : ℕ} {recs : List Record}
    (hrecs : ∀ r ∈ recs, r.IsAccept) :
    Shrinks s { s with cur := cur, allocs := allocs, hist := s.hist ++ recs } :=
  .of_eq rfl rfl rfl rfl fun _ _ _ _ hr => hrecs _ hr

theorem addMsg_shrinks (d : NetData) : Shrinks s (addMsg cfg s d).2 := by
  obtain ⟨cur, allocs, recs, hrecs, heq⟩ := addMsg_frame cfg s d
  rw [heq]
  exact accepts_shrinks hrecs

theorem sendMsgToServer_shrinks (ntype : ℤ) (m : ServerMsg) :
    Shrinks s (sendMsgToServer cfg s ntype m) := by
  obtain ⟨cur, allocs, recs, hrecs, heq⟩ := sendMsgToServer_frame cfg s ntype m
  rw [heq]
  exact accepts_shrinks hrecs

/-- Sending to a server leaves the epoll thread where it is. -/
theorem sendMsgToServer_pc (ntype : ℤ) (m : ServerMsg) :
    (sendMsgToServer cfg s ntype m).pc = s.pc := by
  obtain ⟨cur, allocs, recs, -, heq⟩ := sendMsgToServer_frame cfg s ntype m
  rw [heq]

/-! ## The indices of a step -/

/-- No index is given on the way from `s` to `s'`. -/
structure SameIndices (s s' : Sys) : Prop where
  hist : ∀ id fd t l, .index id fd t l ∈ s'.hist ↔ .index id fd t l ∈ s.hist
  calls : s'.calls = s.calls
  next : s'.index = s.index

/-- **At most one index is given** on the way from `s` to `s'`. -/
inductive Indices (s s' : Sys) : Prop
  | none (h : SameIndices s s')
  | one (s₁ : Sys) (fd : ℤ) (l : ℕ) (h : SameIndices s s₁) (h' : SameIndices (getIndex s₁ fd l) s')

namespace SameIndices

variable {s'' : Sys}

/-- Nothing is recorded. -/
theorem of_eq (hhist : s'.hist = s.hist) (hcalls : s'.calls = s.calls)
    (hnext : s'.index = s.index) : SameIndices s s' :=
  ⟨fun _ _ _ _ => by rw [hhist], hcalls, hnext⟩

theorem refl : SameIndices s s := of_eq rfl rfl rfl

theorem trans (h : SameIndices s s') (h' : SameIndices s' s'') : SameIndices s s'' :=
  ⟨fun id fd t l => (h'.hist id fd t l).trans (h.hist id fd t l), h'.calls.trans h.calls,
    h'.next.trans h.next⟩

/-- What adds no connection gives no index. -/
theorem of_shrinks (h : Shrinks s s') : SameIndices s s' := ⟨h.index, h.calls, h.next⟩

/-- Adding a connection to epoll and to the map gives none. -/
theorem addClientToEpoll (sock : SocketSet) (ctlOk : Bool) :
    SameIndices s (addClientToEpoll cfg s sock ctlOk) := by
  rcases addClientToEpoll_cases cfg s sock ctlOk with ⟨-, es, heq, -⟩ | ⟨-, heq⟩
  · rw [heq]
    exact .of_eq rfl rfl rfl
  · rw [heq]
    exact .of_eq rfl rfl rfl

/-- A connection that comes up has the index `getIndex` gave. -/
theorem born (sock : SocketSet) :
    SameIndices (getIndex s sock.key.fdkey sock.attempt) (born s sock) := by
  refine ⟨fun id fd t l => ?_, rfl, rfl⟩
  simp [Epoll.born, announce, Sys.push, Sys.goto]

end SameIndices

/-- **A step gives at most one index.** -/
theorem Step.indices (h : Step cfg s a s') : Indices s s' := by
  cases h with
  | epollWait | listen | acceptFail | flush | sysEnd | sweepEnd | pingEnd | outQueue | start
  | startNot | socket | socketFail | connectFail | connectOk | publish | enqueue | enqueueFail
  | keepalive | keepaliveSend | switchSendMap => exact .none (.of_eq rfl rfl rfl)
  | event => exact .none (.of_shrinks ((handleEvent_effects s _ _).shrinks.goto _))
  | @acceptConn _ k ip port b₁ b₂ b₃ b₄ now ctlOk =>
    rcases acceptConn_cases cfg s k ip port b₁ b₂ b₃ b₄ now ctlOk with heq | ⟨-, heq⟩
    · rw [heq]
      exact .none (.of_eq rfl rfl rfl)
    · rw [heq]
      refine .one (s.opened k) k 0 (.of_eq rfl rfl rfl) ?_
      exact (SameIndices.born (newClient k ip port now)).trans
        ((SameIndices.addClientToEpoll _ ctlOk).trans (.of_eq rfl rfl rfl))
  | @sysClose fd conntime es =>
    have hes : SameIndices s (s.withEvents es) := .of_eq rfl rfl rfl
    exact .none (hes.trans (.of_shrinks (closeClient_shrinks fd conntime)))
  | @sysAdd sock es =>
    rw [addClientEvent_eq]
    refine .one (s.withEvents es) sock.key.fdkey sock.attempt (.of_eq rfl rfl rfl) ?_
    exact (SameIndices.born sock).trans (.of_eq rfl rfl rfl)
  | register => exact .none ((SameIndices.addClientToEpoll _ _).trans (.of_eq rfl rfl rfl))
  | scan => exact .none (.of_shrinks ((scanFd_effects s _ _).shrinks.goto _))
  | @scanEnd del => exact .none (.of_shrinks ((deleteSendMsgs_shrinks del).goto _))
  | sweep => exact .none (.of_shrinks ((sweepFd_effects s _).shrinks.goto _))
  | ping => exact .none (.of_shrinks ((sendMsgToServer_shrinks _ _).goto _))
  | addMsg => exact .none (.of_shrinks (addMsg_shrinks _))
  | sendMsgToServer => exact .none (.of_shrinks (sendMsgToServer_shrinks _ _))
  | createCloseConnectEvent =>
    unfold Epoll.createCloseConnectEvent
    split
    · exact .none .refl
    · exact .none (.of_eq rfl rfl rfl)

/-- No step takes an index back. -/
theorem Step.calls_le (h : Step cfg s a s') : s.calls ≤ s'.calls := by
  cases h.indices with
  | none hsame => exact hsame.calls.ge
  | one s₁ fd l hsame hsame' =>
    rw [hsame'.calls, ← hsame.calls]
    exact Nat.le_succ _

/-! ## Indices -/

/-- The key of a connection holds the index that was given to it. -/
def Indexed (s : Sys) (sock : SocketSet) : Prop :=
  .index sock.key.id sock.key.fdkey sock.key.connectTime sock.attempt ∈ s.hist

/-- **Connections and indices are in order.** -/
structure Wf (s : Sys) : Prop where
  /-- an entry stands under its own descriptor, and has an index -/
  entry : ∀ fd v, s.socketmap.lookup fd = some v →
    ∃ sock, v = some sock ∧ sock.key.fdkey = fd ∧ 0 ≤ fd ∧ Indexed s sock
  /-- a connection that is being added has an index, and is not in the map -/
  adding : ∀ sock, s.pc = .adding sock → Indexed s sock ∧
    ∀ fd sock', s.socketmap.lookup fd = some (some sock') → sock'.key.id ≠ sock.key.id
  /-- an index was given by one of the calls, and not by the first -/
  called : ∀ id fd t l, .index id fd t l ∈ s.hist → 1 < id ∧ id ≤ s.calls
  /-- the listening socket was given the first index -/
  pos : 1 ≤ s.calls
  /-- a call gives one index -/
  unique : ∀ id fd t l fd' t' l', .index id fd t l ∈ s.hist → .index id fd' t' l' ∈ s.hist →
    fd = fd' ∧ t = t' ∧ l = l'
  /-- before the index wraps around it is the number of the call -/
  counted : s.calls < 2 ^ 32 - 2 →
    s.index = s.calls ∧ ∀ (id : ℕ) (fd t : ℤ) (l : ℕ), .index id fd t l ∈ s.hist → t = id

namespace Wf

/-- An entry of the map that is no null pointer. -/
theorem conn (h : Wf s) {fd : ℤ} {sock : SocketSet}
    (hsock : s.socketmap.lookup fd = some (some sock)) :
    sock.key.fdkey = fd ∧ 0 ≤ fd ∧ Indexed s sock := by
  obtain ⟨x, hx, hkey⟩ := h.entry fd _ hsock
  injection hx with hx
  exact hx ▸ hkey

theorem no_null (h : Wf s) {fd : ℤ} : s.socketmap.lookup fd ≠ some none := by
  intro hnull
  obtain ⟨x, hx, -⟩ := h.entry fd _ hnull
  cases hx

/-- Two entries with one index are one entry. -/
theorem eq_of_id (h : Wf s) {fd fd' : ℤ} {x x' : SocketSet}
    (hx : s.socketmap.lookup fd = some (some x)) (hx' : s.socketmap.lookup fd' = some (some x'))
    (hid : x.key.id = x'.key.id) : fd = fd' ∧ x = x' := by
  obtain ⟨hk, -, hi⟩ := h.conn hx
  obtain ⟨hk', -, hi'⟩ := h.conn hx'
  unfold Indexed at hi hi'
  rw [hid] at hi
  obtain ⟨hfd, -⟩ := h.unique _ _ _ _ _ _ _ hi hi'
  have hsame : fd = fd' := by rw [← hk, ← hk', hfd]
  subst hsame
  exact ⟨rfl, IntMap.eq_of_lookup hx hx'⟩

/-- The order is kept by what adds no connection. -/
theorem of_shrinks (h : Wf s) (hsub : Shrinks s s')
    (hpc : ∀ sock, s'.pc = .adding sock → s.pc = .adding sock) : Wf s' := by
  have hindexed : ∀ {x x' : SocketSet}, SameConn x x' → Indexed s x → Indexed s' x' := by
    intro x x' hsame hx
    unfold Indexed at hx ⊢
    rw [hsub.index, hsame.key, hsame.attempt]
    exact hx
  refine ⟨?_, ?_, ?_, ?_, ?_, ?_⟩
  · intro fd v' hv'
    obtain ⟨v, hv, ⟨rfl, -⟩ | ⟨x, x', rfl, rfl, hsame⟩⟩ := hsub.entry fd v' hv'
    · exact absurd hv h.no_null
    · obtain ⟨hk, hfd, hi⟩ := h.conn hv
      exact ⟨x', rfl, by rw [hsame.key, hk], hfd, hindexed hsame hi⟩
  · intro sock hadd
    obtain ⟨hi, hfresh⟩ := h.adding sock (hpc sock hadd)
    refine ⟨hindexed .rfl' hi, ?_⟩
    intro fd x' hx'
    obtain ⟨x, hx, hsame⟩ := hsub.conn hx'
    rw [hsame.key]
    exact hfresh fd x hx
  · intro id fd t l hi
    rw [hsub.calls]
    exact h.called id fd t l ((hsub.index _ _ _ _).mp hi)
  · rw [hsub.calls]
    exact h.pos
  · intro id fd t l fd' t' l' hi hi'
    exact h.unique _ _ _ _ _ _ _ ((hsub.index _ _ _ _).mp hi) ((hsub.index _ _ _ _).mp hi')
  · intro hcalls
    rw [hsub.calls] at hcalls
    obtain ⟨hindex, htime⟩ := h.counted hcalls
    rw [hsub.next, hsub.calls]
    exact ⟨hindex, fun id fd t l hi => htime id fd t l ((hsub.index _ _ _ _).mp hi)⟩

/-- The order is kept where the map and the indices are not touched. -/
theorem of_eq (h : Wf s) (hmap : s'.socketmap = s.socketmap) (hcalls : s'.calls = s.calls)
    (hnext : s'.index = s.index) (hhist : s'.hist = s.hist)
    (hpc : ∀ sock, s'.pc = .adding sock → s.pc = .adding sock) : Wf s' :=
  h.of_shrinks (.of_eq hmap hcalls hnext (hhist.trans (List.append_nil _).symm) (by simp)) hpc

/-- An effect keeps the order. -/
theorem effect (h : Wf s) (heff : Effect cfg s s') : Wf s' :=
  h.of_shrinks heff.shrinks fun _ hx => heff.pc_eq ▸ hx

/-- Giving an index keeps the order. -/
theorem getIndex (h : Wf s) (hpc : ∀ x, s.pc ≠ .adding x) (fd : ℤ) (l : ℕ) :
    Wf (getIndex s fd l) := by
  have hmem : ∀ {id k t l'}, .index id k t l' ∈ (Epoll.getIndex s fd l).hist →
      .index id k t l' ∈ s.hist ∨
        id = s.calls + 1 ∧ k = fd ∧ t = (Epoll.getIndex s fd l).index ∧ l' = l := by
    intro id k t l' hi
    rcases List.mem_append.mp hi with hi | hi
    · exact .inl hi
    · have hi := List.mem_singleton.mp hi
      injection hi with h₁ h₂ h₃ h₄
      exact .inr ⟨h₁, h₂, h₃, h₄⟩
  -- the record that is new has a call number above all others
  refine ⟨?_, ?_, ?_, ?_, ?_, ?_⟩
  · intro k v hv
    obtain ⟨x, rfl, hk, hfd, hi⟩ := h.entry k v hv
    exact ⟨x, rfl, hk, hfd, List.mem_append_left _ hi⟩
  · intro x hx
    exact absurd hx (hpc x)
  · intro id k t l' hi
    show 1 < id ∧ id ≤ s.calls + 1
    rcases hmem hi with hi | ⟨rfl, -⟩
    · have := h.called _ _ _ _ hi
      omega
    · have := h.pos
      omega
  · show 1 ≤ s.calls + 1
    omega
  · intro id k t l' k' t' l'' hi hi'
    rcases hmem hi with hi | ⟨rfl, rfl, rfl, rfl⟩
    · rcases hmem hi' with hi' | ⟨rfl, -⟩
      · exact h.unique _ _ _ _ _ _ _ hi hi'
      · have := h.called _ _ _ _ hi
        omega
    · rcases hmem hi' with hi' | ⟨-, rfl, rfl, rfl⟩
      · have := h.called _ _ _ _ hi'
        omega
      · exact ⟨rfl, rfl, rfl⟩
  · intro hcalls
    change s.calls + 1 < 2 ^ 32 - 2 at hcalls
    obtain ⟨hindex, htime⟩ := h.counted (by omega)
    -- so few calls wrap around nowhere
    have hnext : (Epoll.getIndex s fd l).index = s.calls + 1 := by
      have hu : Bytes.uint32 (s.index + 1) = s.calls + 1 := by
        rw [hindex]
        exact Bytes.uint32_of_lt (n := s.calls + 1) (by omega)
      simp only [Epoll.getIndex, hu]
      rw [if_neg (by omega), hindex]
    refine ⟨by rw [hnext]; rfl, ?_⟩
    intro id k t l' hi
    rcases hmem hi with hi | ⟨rfl, -, rfl, -⟩
    · exact htime _ _ _ _ hi
    · rw [hnext]
      push_cast
      rfl

/-- **A connection that comes up** has its index, and no other connection
has it. -/
theorem born (h : Wf s) (hpc : ∀ x, s.pc ≠ .adding x) (sock : SocketSet) : Wf (born s sock) := by
  have hindex := h.getIndex hpc sock.key.fdkey sock.attempt
  have hann : Wf (announce (Epoll.getIndex s sock.key.fdkey sock.attempt) (newConn s sock)) :=
    hindex.of_shrinks (.of_eq rfl rfl rfl rfl (by simp)) fun _ hx => hx
  refine ⟨hann.entry, ?_, hann.called, hann.pos, hann.unique, hann.counted⟩
  intro x hx
  injection hx with hx
  subst hx
  refine ⟨?_, ?_⟩
  · exact List.mem_append_left _ (List.mem_append_right _ (List.mem_singleton.mpr rfl))
  · -- those in the map were given theirs by earlier calls
    intro fd y hy heq
    obtain ⟨-, -, hi⟩ := h.conn hy
    have hle := (h.called _ _ _ _ hi).2
    change y.key.id = s.calls + 1 at heq
    omega

/-- Adding a connection keeps the order. -/
theorem register (h : Wf s) {sock : SocketSet} (hadding : s.pc = .adding sock) (ctlOk : Bool)
    {pc : Pc} (hpc : ∀ x, pc ≠ .adding x) :
    Wf ((addClientToEpoll cfg s sock ctlOk).goto pc) := by
  rcases addClientToEpoll_cases cfg s sock ctlOk with ⟨-, es, heq, -⟩ | ⟨hadd, heq⟩
  · rw [heq]
    exact h.of_shrinks (.of_eq rfl rfl rfl (List.append_nil _).symm (by simp))
      fun x hx => absurd hx (hpc x)
  · rw [heq]
    refine ⟨?_, fun x hx => absurd hx (hpc x), h.called, h.pos, h.unique, h.counted⟩
    intro k v hv
    simp only [Sys.goto, IntMap.lookup_insert_eq] at hv
    split at hv
    · subst ‹k = sock.key.fdkey›
      injection hv with hv
      exact ⟨sock, hv.symm, rfl, hadd.2.1, (h.adding sock hadding).1⟩
    · exact h.entry k v hv

theorem init (now : ℤ) : Wf (Sys.init cfg now) where
  entry _ _ h := by cases h
  adding _ h := by cases h
  called _ _ _ _ h := by cases h
  pos := le_refl _
  unique _ _ _ _ _ _ _ h := by cases h
  counted _ := ⟨rfl, fun _ _ _ _ h => by cases h⟩

/-- **A step keeps connections and indices in order.** -/
theorem step (h : Wf s) (hstep : Step cfg s a s') : Wf s' := by
  cases hstep with
  | epollWait | listen | acceptFail | flush | sysEnd | sweepEnd | pingEnd =>
    exact h.of_eq rfl rfl rfl rfl (by simp)
  | event => exact h.of_shrinks ((handleEvent_effects s _ _).shrinks.goto _) (by simp)
  | @acceptConn evs fd ip port b₁ b₂ b₃ b₄ now ctlOk hpc =>
    rcases acceptConn_cases cfg s fd ip port b₁ b₂ b₃ b₄ now ctlOk with heq | ⟨-, heq⟩
    · -- a call on the new descriptor failed, and it is closed
      rw [heq]
      exact h.of_eq rfl rfl rfl rfl fun _ hx => hx
    · have hopen : Wf (s.opened fd) := h.of_eq rfl rfl rfl rfl fun _ hx => hx
      have hborn := hopen.born (by simp [hpc, Sys.opened]) (newClient fd ip port now)
      rw [heq]
      exact hborn.register rfl ctlOk (by simp [hpc])
  | @sysClose fd conntime es hpc hlst =>
    have hes : Wf (s.withEvents es) := h.of_eq rfl rfl rfl rfl fun _ hx => hx
    refine hes.of_shrinks (closeClient_shrinks fd conntime) ?_
    rw [closeClient_eq]
    exact fun _ hx => hx
  | @sysAdd sock es hpc =>
    have hes : Wf (s.withEvents es) := h.of_eq rfl rfl rfl rfl fun _ hx => hx
    rw [addClientEvent_eq]
    exact (hes.born (by simp [hpc, Sys.withEvents]) sock).of_eq rfl rfl rfl rfl fun _ hx => hx
  | register hpc => exact h.register hpc _ (by simp)
  | switchSendMap => exact h.of_eq rfl rfl rfl rfl (by simp [switchSendMap])
  | scan => exact h.of_shrinks ((scanFd_effects s _ _).shrinks.goto _) (by simp)
  | @scanEnd del => exact h.of_shrinks ((deleteSendMsgs_shrinks del).goto _) (by simp)
  | keepalive _ _ _ hto | keepaliveSend _ _ hto =>
    rcases hto with rfl | rfl <;> exact h.of_eq rfl rfl rfl rfl (by simp)
  | sweep => exact h.of_shrinks ((sweepFd_effects s _).shrinks.goto _) (by simp)
  | ping => exact h.of_shrinks ((sendMsgToServer_shrinks _ _).goto _) (by simp)
  | addMsg => exact h.of_shrinks (addMsg_shrinks _) fun _ hx => hx
  | sendMsgToServer =>
    refine h.of_shrinks (sendMsgToServer_shrinks _ _) fun x hx => ?_
    rwa [sendMsgToServer_pc] at hx
  | createCloseConnectEvent =>
    unfold createCloseConnectEvent
    split
    · exact h
    · exact h.of_eq rfl rfl rfl rfl fun _ hx => hx
  | startNot => exact h
  | outQueue | start | socket | socketFail | connectFail | connectOk | publish | enqueue
  | enqueueFail => exact h.of_eq rfl rfl rfl rfl fun _ hx => hx

/-- **In every state reached connections and indices are in order.** -/
theorem reachable {now : ℤ} (h : (server cfg now).Reachable s) : Wf s :=
  h.invariant (init now) fun _ _ _ _ _ hnext hs => hs.step (step_of_next hnext)

end Wf

/-! ## The scan -/

/-- `m_delsendfdlist`. -/
def Pc.delsendfdlist : Pc → List ℤ
  | .scan _ del => del
  | _ => []

/-- **What the scan puts aside has no connection.** -/
def Scanned (s : Sys) : Prop :=
  ∀ fd ∈ s.pc.delsendfdlist, ∀ sock, s.socketmap.lookup fd ≠ some (some sock)

/-- A connection that was closed is not in the map. -/
theorem closeClient_lookup {fd : ℤ} (hfd : 0 ≤ fd) (conntime : ℤ) :
    (closeClient cfg s fd conntime).socketmap.lookup fd = none := by
  rw [closeClient_eq]
  simp only [if_neg (not_lt.mpr hfd), AList.lookup_erase]

namespace Scanned

/-- Where connections are only lost. -/
theorem of_shrinks (h : Scanned s) (hsub : Shrinks s s')
    (hpc : s'.pc.delsendfdlist ⊆ s.pc.delsendfdlist) : Scanned s' := by
  intro fd hfd sock' hsock'
  obtain ⟨sock, hsock, -⟩ := hsub.conn hsock'
  exact h fd (hpc hfd) sock hsock

/-- A round of the scan puts a descriptor aside only where it has no
connection. -/
theorem scan (h : Scanned s) (hwf : Wf s) {fd : ℤ} {fds del : List ℤ} (ctlOk : Bool)
    (hpc : s.pc = .scan (fd :: fds) del) :
    Scanned ((scanFd cfg s fd ctlOk).1.goto
      (.scan fds (if (scanFd cfg s fd ctlOk).2 then del ++ [fd] else del))) := by
  have hsub : Shrinks s (scanFd cfg s fd ctlOk).1 := (scanFd_effects s fd ctlOk).shrinks
  have hold : ∀ k ∈ del, ∀ sock,
      (scanFd cfg s fd ctlOk).1.socketmap.lookup k ≠ some (some sock) := by
    intro k hk sock' hsock'
    obtain ⟨sock, hsock, -⟩ := hsub.conn hsock'
    exact h k (by rw [hpc]; exact hk) sock hsock
  -- what is left is the descriptor that is put aside
  have hput : (scanFd cfg s fd ctlOk).2 = true →
      ∀ sock, (scanFd cfg s fd ctlOk).1.socketmap.lookup fd ≠ some (some sock) := by
    intro hput x hx
    unfold scanFd at hx hput
    rcases hfd : s.socketmap.lookup fd with _ | _ | sock
    · simp only [hfd, Sys.record, reduceCtorEq] at hx
    · exact hwf.no_null hfd
    · obtain ⟨hkey, hpos, -⟩ := hwf.conn hfd
      simp only [hfd] at hx hput
      split at hput
      · cases hput
      · rename_i hmod
        simp only [hmod, hkey] at hx
        rw [closeClient_lookup hpos] at hx
        cases hx
  intro k hk
  change k ∈ (if (scanFd cfg s fd ctlOk).2 then del ++ [fd] else del) at hk
  split at hk
  · rename_i hret
    rcases List.mem_append.mp hk with hk | hk
    · exact hold k hk
    · rw [List.mem_singleton.mp hk]
      exact hput hret
  · exact hold k hk

/-- **A step keeps it so.** -/
theorem step (h : Scanned s) (hwf : Wf s) (hstep : Step cfg s a s') : Scanned s' := by
  cases hstep with
  | scan hpc => exact h.scan hwf _ hpc
  | @acceptConn evs fd ip port b₁ b₂ b₃ b₄ now ctlOk hpc =>
    rcases acceptConn_cases cfg s fd ip port b₁ b₂ b₃ b₄ now ctlOk with heq | ⟨-, heq⟩ <;>
      rw [heq] <;> intro k hk <;> simp [hpc, Pc.delsendfdlist] at hk
  | @sysClose fd conntime es hpc =>
    rw [closeClient_eq]
    intro k hk
    simp [Sys.withEvents, hpc, Pc.delsendfdlist] at hk
  | sysAdd =>
    rw [addClientEvent_eq]
    exact nofun
  | keepalive _ _ _ hto | keepaliveSend _ _ hto =>
    rcases hto with rfl | rfl <;> exact nofun
  | addMsg => exact h.of_shrinks (addMsg_shrinks _) (List.Subset.refl _)
  | sendMsgToServer =>
    refine h.of_shrinks (sendMsgToServer_shrinks _ _) ?_
    rw [sendMsgToServer_pc]
    exact List.Subset.refl _
  | createCloseConnectEvent =>
    unfold Epoll.createCloseConnectEvent
    split <;> exact h
  | outQueue | start | startNot | socket | socketFail | connectFail | connectOk | publish | enqueue
  | enqueueFail => exact h
  | epollWait | event | listen | acceptFail | flush | sysEnd | register | switchSendMap | scanEnd
  | sweep | sweepEnd | ping | pingEnd => exact nofun

theorem reachable {now : ℤ} (h : (server cfg now).Reachable s) : Scanned s := by
  refine h.invariant ?_ ?_
  · intro fd hfd
    cases hfd
  · intro s a s' hreach _ hnext hs
    exact hs.step (Wf.reachable hreach) (step_of_next hnext)

end Scanned

end Epoll

end EupuServer
