import EupuServer.Epoll.Attempts
import EupuServer.Epoll.Fifo
/-!
# The hand-over of a connection

The key of a server is set twice: by the thread that connected, with the
wall clock, and by the epoll thread, with the index it gives the connection.
A message accepted in between carries the first and is thrown away while its
connection is open, by the test of the connect time (`serverMsg_discarded`).
A message accepted under an index is addressed to the connection that has
it, so it is thrown away only where that connection is gone
(`serverMsg_kept`).
-/

namespace EupuServer

namespace Epoll

open Network Protocol

/-! ## Messages that wait -/

/-- Two states of one message: sending a part of it leaves its address. -/
structure SameMsg (p q : NetDataPtr) : Prop where
  addr : q.addr = p.addr
  fddat : q.obj.fddat = p.obj.fddat
  connectTime : q.obj.connectTime = p.obj.connectTime

/-- `q` is a message that waits under `fd`, or what is left of one. -/
def Waits (s : Sys) (fd : ℤ) (q : NetDataPtr) : Prop := ∃ p ∈ waiting s fd, SameMsg p q

/-- The map has no connection under `fd` that `p` is addressed to. -/
def Unaddressed (s : Sys) (fd : ℤ) (p : NetDataPtr) : Prop :=
  ∀ sock, s.socketmap.lookup fd = some (some sock) →
    ¬ Addressed sock.key.fdkey sock.key.connectTime p

/-- The map has a connection under `fd` that `p` is not addressed to. -/
def Misfit (s : Sys) (fd : ℤ) (p : NetDataPtr) : Prop :=
  ∃ sock, s.socketmap.lookup fd = some (some sock) ∧
    ¬ Addressed sock.key.fdkey sock.key.connectTime p

/-- **A message is thrown away**: it waited under a descriptor, and no
connection there is one it is addressed to. -/
structure Discarded (s s' : Sys) (why : Discard) (fd : ℤ) (p : NetDataPtr) : Prop where
  waits : Waits s fd p
  before : ∀ sock, s.pc ≠ .adding sock
  after : ∀ sock, s'.pc ≠ .adding sock
  gone : why ≠ .sent → Unaddressed s' fd p
  misfit : why = .mismatch → Misfit s fd p

/-- The address a key gives, where the epoll thread set it, is that of an
indexed connection. -/
def KeyFits (s : Sys) (k : ServerKey) : Prop :=
  0 ≤ k.data.fddat → 1 ≤ k.attempt ∧ k.attempt ≤ s.attempts ∧
    (k.indexed = true → ∃ id, .index id k.data.fddat k.data.connectTime k.attempt ∈ s.hist)

/-- **A step that accepts no message** delivers those there are, or throws
them away. -/
structure Delivers (s s' : Sys) : Prop where
  allocs : s'.allocs = s.allocs
  attempts : s.attempts ≤ s'.attempts
  grows : ∀ r ∈ s.hist, r ∈ s'.hist
  sent : ∀ l n, .toServer l n ∈ s'.hist → .toServer l n ∈ s.hist
  keys : ∀ ntype k, s'.keys.ofType ntype = some k → s.keys.ofType ntype = some k ∨ KeyFits s' k
  waits : ∀ fd q, Waits s' fd q → Waits s fd q
  deleted : ∀ why p, .deleted why p ∈ s'.hist →
    .deleted why p ∈ s.hist ∨ ∃ fd, Discarded s s' why fd p

variable {cfg : Config} {s s' s'' : Sys} {a : Action} {fd : ℤ} {p q : NetDataPtr} {l : ℕ}

namespace SameMsg

theorem rfl' : SameMsg p p := ⟨rfl, rfl, rfl⟩

theorem trans {r : NetDataPtr} (h : SameMsg p q) (h' : SameMsg q r) : SameMsg p r :=
  ⟨h'.addr.trans h.addr, h'.fddat.trans h.fddat, h'.connectTime.trans h.connectTime⟩

end SameMsg

theorem waits_of_mem (h : p ∈ waiting s fd) : Waits s fd p := ⟨p, h, .rfl'⟩

/-- What waits waited, where that holds of the messages as they stand in
the lists. -/
theorem waits_of_waiting (h : ∀ q ∈ waiting s' fd, Waits s fd q) (hq : Waits s' fd q) :
    Waits s fd q := by
  obtain ⟨p, hp, hsame⟩ := hq
  obtain ⟨p₀, hp₀, hsame₀⟩ := h p hp
  exact ⟨p₀, hp₀, hsame₀.trans hsame⟩

theorem KeyFits.mono {k : ServerKey} (h : KeyFits s k) (hatt : s.attempts ≤ s'.attempts)
    (hgrows : ∀ r ∈ s.hist, r ∈ s'.hist) : KeyFits s' k := by
  intro hfd
  obtain ⟨hpos, hle, hindex⟩ := h hfd
  refine ⟨hpos, hle.trans hatt, fun hi => ?_⟩
  obtain ⟨id, hid⟩ := hindex hi
  exact ⟨id, hgrows _ hid⟩

/-- The loop of `doSendMessage` leaves messages of the list. -/
theorem sendLoop_left_mem {key : SocketKey} {sends : List SendResult} {lst : List NetDataPtr}
    (h : q ∈ (sendLoop key sends lst).left) : ∃ p ∈ lst, SameMsg p q := by
  induction lst generalizing sends with
  | nil => simp [sendLoop] at h
  | cons p ps ih =>
    have hrest : ∀ {sends}, q ∈ (sendLoop key sends ps).left → ∃ p₀ ∈ p :: ps, SameMsg p₀ q := by
      intro sends h
      obtain ⟨p₀, hp₀, hsame⟩ := ih h
      exact ⟨p₀, List.mem_cons_of_mem _ hp₀, hsame⟩
    have htail : q ∈ ps → ∃ p₀ ∈ p :: ps, SameMsg p₀ q :=
      fun h => ⟨q, List.mem_cons_of_mem _ h, .rfl'⟩
    rw [sendLoop] at h
    split at h
    · exact hrest h
    · simp only at h
      split at h
      · exact ⟨q, h, .rfl'⟩
      · split at h
        · split at h
          · rcases List.mem_cons.mp h with rfl | h
            · exact ⟨p, List.mem_cons_self, ⟨rfl, rfl, rfl⟩⟩
            · exact htail h
          · exact htail h
        · exact hrest h

/-! ## What the handlers deliver -/

namespace Delivers

/-- No message is sent or thrown away. -/
theorem of_quiet {recs : List Record} (hhist : s'.hist = s.hist ++ recs)
    (hsent : ∀ l n, .toServer l n ∉ recs) (hdel : ∀ why p, .deleted why p ∉ recs)
    (hallocs : s'.allocs = s.allocs) (hatt : s.attempts ≤ s'.attempts)
    (hkeys : ∀ ntype k, s'.keys.ofType ntype = some k →
      s.keys.ofType ntype = some k ∨ KeyFits s' k)
    (hwait : ∀ fd, ∀ q ∈ waiting s' fd, q ∈ waiting s fd) : Delivers s s' := by
  refine ⟨hallocs, hatt, ?_, ?_, hkeys, ?_, ?_⟩
  · intro r hr
    rw [hhist]
    exact List.mem_append_left _ hr
  · intro l n hr
    rw [hhist] at hr
    exact (List.mem_append.mp hr).resolve_right (hsent l n)
  · exact fun fd q => waits_of_waiting fun q hq => waits_of_mem (hwait fd q hq)
  · intro why p hr
    rw [hhist] at hr
    exact .inl ((List.mem_append.mp hr).resolve_right (hdel why p))

/-- Neither the messages nor the keys are touched. -/
theorem of_eq (hhist : s'.hist = s.hist) (hallocs : s'.allocs = s.allocs)
    (hatt : s'.attempts = s.attempts) (hkeys : s'.keys = s.keys) (hcur : s'.cur = s.cur)
    (hbak : s'.bak = s.bak) : Delivers s s' := by
  refine of_quiet (hhist.trans (List.append_nil _).symm) (by simp) (by simp) hallocs hatt.ge ?_ ?_
  · rw [hkeys]
    exact fun _ _ hk => .inl hk
  · unfold waiting
    rw [hcur, hbak]
    exact fun _ _ hq => hq

theorem refl : Delivers s s := of_eq rfl rfl rfl rfl rfl rfl

theorem trans (h : Delivers s s') (hsub : Shrinks s s') (hpc : s'.pc = s.pc)
    (h' : Delivers s' s'') (hsub' : Shrinks s' s'') (hpc' : s''.pc = s'.pc) : Delivers s s'' := by
  refine ⟨h'.allocs.trans h.allocs, h.attempts.trans h'.attempts,
    fun r hr => h'.grows r (h.grows r hr), fun l n hr => h.sent l n (h'.sent l n hr), ?_,
    fun fd q hq => h.waits fd q (h'.waits fd q hq), ?_⟩
  · intro ntype k hk
    rcases h'.keys ntype k hk with hk | hfit
    · exact (h.keys ntype k hk).imp_right fun hfit => hfit.mono h'.attempts h'.grows
    · exact .inr hfit
  · intro why p hp
    rcases h'.deleted why p hp with hp | ⟨fd, hdis⟩
    · refine (h.deleted why p hp).imp_right ?_
      rintro ⟨fd, hdis⟩
      refine ⟨fd, hdis.waits, hdis.before, hpc' ▸ hdis.after, ?_, hdis.misfit⟩
      intro hwhy sock'' hsock''
      obtain ⟨sock', hsock', hsame⟩ := hsub'.conn hsock''
      rw [hsame.key]
      exact hdis.gone hwhy sock' hsock'
    · refine .inr ⟨fd, h.waits fd p hdis.waits, hpc ▸ hdis.before, hdis.after, hdis.gone, ?_⟩
      intro hwhy
      obtain ⟨sock', hsock', hnot⟩ := hdis.misfit hwhy
      obtain ⟨sock, hsock, hsame⟩ := hsub.conn hsock'
      exact ⟨sock, hsock, hsame.key ▸ hnot⟩

/-- The epoll thread goes on. -/
theorem goto (h : Delivers s s') {pc : Pc} (hpc : ∀ sock, pc ≠ .adding sock) :
    Delivers s (s'.goto pc) := by
  refine ⟨h.allocs, h.attempts, h.grows, h.sent, h.keys, h.waits, ?_⟩
  intro why p hp
  refine (h.deleted why p hp).imp_right ?_
  rintro ⟨fd, hdis⟩
  exact ⟨fd, hdis.waits, hdis.before, hpc, hdis.gone, hdis.misfit⟩

end Delivers

/-- A key that is reset fits. -/
theorem keyFits_of_neg {k : ServerKey} (hneg : k.data.fddat < 0) : KeyFits s k :=
  fun hfd => absurd hfd (not_le.mpr hneg)

theorem closeClient_keys (fd conntime ntype : ℤ) (k : ServerKey)
    (hk : (closeClient cfg s fd conntime).keys.ofType ntype = some k) :
    s.keys.ofType ntype = some k ∨ KeyFits (closeClient cfg s fd conntime) k := by
  have hkeys : (closeClient cfg s fd conntime).keys = closeKeys s fd := by rw [closeClient_eq]
  rw [hkeys] at hk
  rcases closeKeys_cases s fd with hsame | ⟨sock, -, hreset⟩
  · exact .inl (hsame ▸ hk)
  · rw [hreset] at hk
    rcases ofType_setServerSocket_cases hk with ⟨-, hk⟩ | ⟨-, hfd, -⟩
    · exact .inl hk
    · exact .inr (keyFits_of_neg (by omega))

/-- Closing throws no message away, also where the event that asks for it
leaves the queue. -/
theorem closeClient_delivers (es : List NetEvent) (fd conntime : ℤ) :
    Delivers s (closeClient cfg (s.withEvents es) fd conntime) := by
  have hkeep : Keeps (s.withEvents es) (closeClient cfg (s.withEvents es) fd conntime) :=
    closeClient_keeps fd conntime
  refine .of_quiet (closeClient_hist (s := s.withEvents es) conntime) (by simp [closeNotes])
    (by simp [closeNotes]) hkeep.allocs hkeep.attempts.ge (closeClient_keys fd conntime) ?_
  intro k q hq
  rwa [closeClient_waiting] at hq

/-- What dropping a list records: messages of the list. -/
theorem deleteSendMsg_hist {r : Record} (h : r ∈ (deleteSendMsgFromSendMap s fd).hist) :
    r ∈ s.hist ∨ ∃ p ∈ waiting s fd, r = .deleted .dropped p := by
  rcases deleteSendMsg_cases s fd with heq | heq <;> rw [heq] at h
  · exact .inl h
  · refine (List.mem_append.mp h).imp_right fun h => ?_
    obtain ⟨p, hp, rfl⟩ := List.mem_map.mp h
    exact ⟨p, List.mem_append_left _ hp, rfl⟩

theorem deleteSendMsg_waits {k : ℤ} (h : q ∈ waiting (deleteSendMsgFromSendMap s fd) k) :
    q ∈ waiting s k := by
  by_cases hk : k = fd
  · rcases deleteSendMsg_cases s fd with heq | heq <;> rw [heq] at h
    · exact h
    · unfold waiting at h
      rw [listAt_erase, if_pos hk] at h
      exact List.mem_append_right _ h
  · rwa [deleteSendMsg_waiting hk] at h

/-- **A list is dropped** where no connection, or none any more, is in the
map. -/
theorem Delivers.of_dropped (fd : ℤ) {recs : List Record}
    (hhist : s'.hist = (deleteSendMsgFromSendMap s fd).hist ++ recs)
    (hsent : ∀ l n, .toServer l n ∉ recs) (hdel : ∀ why p, .deleted why p ∉ recs)
    (hallocs : s'.allocs = s.allocs) (hatt : s'.attempts = s.attempts)
    (hkeys : ∀ ntype k, s'.keys.ofType ntype = some k →
      s.keys.ofType ntype = some k ∨ KeyFits s' k)
    (hwait : ∀ k, waiting s' k = waiting (deleteSendMsgFromSendMap s fd) k) (hpc : s'.pc = s.pc)
    (hadd : ∀ sock, s.pc ≠ .adding sock)
    (hgone : ∀ sock, s'.socketmap.lookup fd ≠ some (some sock)) : Delivers s s' := by
  refine ⟨hallocs, hatt.ge, ?_, ?_, hkeys, ?_, ?_⟩
  · intro r hr
    rw [hhist]
    refine List.mem_append_left _ ?_
    rcases deleteSendMsg_cases s fd with heq | heq <;> rw [heq]
    · exact hr
    · exact List.mem_append_left _ hr
  · intro l n hr
    rw [hhist] at hr
    rcases deleteSendMsg_hist ((List.mem_append.mp hr).resolve_right (hsent l n)) with
      hr | ⟨p, -, hr⟩
    · exact hr
    · cases hr
  · intro k q
    refine waits_of_waiting fun q hq => waits_of_mem ?_
    rw [hwait] at hq
    exact deleteSendMsg_waits hq
  · intro why p hr
    rw [hhist] at hr
    refine (deleteSendMsg_hist ((List.mem_append.mp hr).resolve_right (hdel why p))).imp_right ?_
    rintro ⟨q, hq, hr⟩
    injection hr with hwhy hp
    subst hwhy hp
    exact ⟨fd, waits_of_mem hq, hadd, hpc ▸ hadd, fun _ sock hsock => absurd hsock (hgone sock),
      nofun⟩

theorem deleteSendMsg_keys (ntype : ℤ) (k : ServerKey)
    (hk : (deleteSendMsgFromSendMap s fd).keys.ofType ntype = some k) :
    s.keys.ofType ntype = some k := by
  rcases deleteSendMsg_cases s fd with heq | heq <;> rw [heq] at hk <;> exact hk

theorem deleteSendMsg_delivers (hadd : ∀ sock, s.pc ≠ .adding sock)
    (hgone : ∀ sock, s.socketmap.lookup fd ≠ some (some sock)) :
    Delivers s (deleteSendMsgFromSendMap s fd) := by
  have hkeep := deleteSendMsg_keeps (s := s) fd
  refine .of_dropped fd (List.append_nil _).symm (by simp) (by simp) hkeep.allocs
    hkeep.attempts (fun ntype k hk => .inl (deleteSendMsg_keys ntype k hk)) (fun _ => rfl)
    (deleteSendMsg_pc s fd) hadd ?_
  rcases deleteSendMsg_cases s fd with heq | heq <;> rw [heq] <;> exact hgone

/-- A list is dropped and its connection closed. -/
theorem dropClosed_delivers (hfd : 0 ≤ fd) (conntime : ℤ) (hadd : ∀ sock, s.pc ≠ .adding sock) :
    Delivers s (closeClient cfg (deleteSendMsgFromSendMap s fd) fd conntime) := by
  have hkeep : Keeps s (closeClient cfg (deleteSendMsgFromSendMap s fd) fd conntime) :=
    (deleteSendMsg_keeps fd).trans (closeClient_keeps fd conntime)
  refine .of_dropped fd (closeClient_hist conntime) (by simp [closeNotes])
    (by simp [closeNotes]) hkeep.allocs hkeep.attempts ?_ (fun _ => closeClient_waiting conntime) ?_
    hadd ?_
  · intro ntype k hk
    exact (closeClient_keys fd conntime ntype k hk).imp_left (deleteSendMsg_keys ntype k)
  · rw [closeClient_eq]
    exact deleteSendMsg_pc s fd
  · rw [closeClient_lookup hfd]
    simp

/-- A list goes that has no message. -/
theorem eraseList_delivers (s : Sys) (fd : ℤ) : Delivers s { s with bak := s.bak.erase fd } := by
  refine .of_quiet (List.append_nil _).symm (by simp) (by simp) rfl le_rfl
    (fun _ _ hk => .inl hk) ?_
  intro k q hq
  unfold waiting at hq ⊢
  simp only [listAt_erase] at hq
  split at hq
  · exact List.mem_append_right _ hq
  · exact hq

variable {sock : SocketSet} {lst : List NetDataPtr}

/-- **The loop of `doSendMessage`** throws away what is not addressed to its
connection. -/
theorem sentFrom_delivers (sends : List SendResult) (hadd : ∀ x, s.pc ≠ .adding x)
    (hsock : s.socketmap.lookup fd = some (some sock))
    (hlst : s.bak.lookup fd = some (some lst)) :
    Delivers s (sentFrom s fd (sendLoop sock.key sends lst)) := by
  have hmem : ∀ {p}, p ∈ lst → Waits s fd p := by
    intro p hp
    refine waits_of_mem (List.mem_append_left _ ?_)
    rwa [listAt_of_lookup hlst]
  refine ⟨rfl, le_rfl, fun r hr => List.mem_append_left _ hr, ?_, fun _ _ hk => .inl hk, ?_, ?_⟩
  · intro l n hr
    refine (List.mem_append.mp hr).resolve_right fun hr => ?_
    rcases sendLoop_recs hr with ⟨_, _, h, -⟩ | ⟨_, -, ⟨h, -⟩ | ⟨h, -⟩⟩ <;> cases h
  · intro k q
    refine waits_of_waiting fun q hq => ?_
    by_cases hk : k = fd
    · subst hk
      unfold waiting sentFrom at hq
      rw [listAt_insert, if_pos rfl] at hq
      rcases List.mem_append.mp hq with hq | hq
      · obtain ⟨p, hp, hsame⟩ := sendLoop_left_mem hq
        obtain ⟨p₀, hp₀, hsame₀⟩ := hmem hp
        exact ⟨p₀, hp₀, hsame₀.trans hsame⟩
      · exact waits_of_mem (List.mem_append_right _ hq)
    · rw [sentFrom_waiting hk] at hq
      exact waits_of_mem hq
  · intro why p hr
    refine (List.mem_append.mp hr).imp_right fun hr => ?_
    rcases sendLoop_recs hr with ⟨_, _, h, -⟩ | ⟨q, hq, ⟨h, -⟩ | ⟨h, hnot⟩⟩
    · cases h
    · injection h with hwhy hp
      subst hwhy hp
      exact ⟨fd, hmem hq, hadd, hadd, fun h => absurd rfl h, nofun⟩
    · -- the test of the connect time, against the entry of the map
      injection h with hwhy hp
      subst hwhy hp
      refine ⟨fd, hmem hq, hadd, hadd, fun _ x hx => ?_, fun _ => ⟨sock, hsock, hnot⟩⟩
      change s.socketmap.lookup fd = some (some x) at hx
      exact IntMap.eq_of_lookup hsock hx ▸ hnot

/-- **A handler delivers messages**, or throws them away. -/
theorem Effect.delivers (h : Effect cfg s s') (hwf : Wf s) (hadd : ∀ x, s.pc ≠ .adding x) :
    Delivers s s' := by
  cases h with
  | close fd conntime => exact closeClient_delivers s.eventlist fd conntime
  | recv now recvs =>
    exact .of_quiet rfl (by simp) (by simp) rfl le_rfl (fun _ _ hk => .inl hk) fun _ _ hq => hq
  | send sends hsock hlst => exact sentFrom_delivers sends hadd hsock hlst
  | @sendAll fd sock lst sends hsock hlst hleft =>
    have hsent := sentFrom_delivers sends hadd hsock hlst
    refine hsent.trans (sentFrom_shrinks fd sock.key sends lst) rfl (eraseList_delivers _ fd) ?_ rfl
    exact .of_eq rfl rfl rfl (List.append_nil _).symm (by simp)
  | @sendFail fd sock lst sends conntime hsock hlst =>
    have hsent := sentFrom_delivers sends hadd hsock hlst
    obtain ⟨-, hfd, -⟩ := hwf.conn hsock
    -- what is left of the list goes with its connection
    refine hsent.trans (sentFrom_shrinks fd sock.key sends lst) rfl
      (dropClosed_delivers hfd conntime hadd) ?_ ?_
    · exact (deleteSendMsg_shrinks fd).trans (closeClient_shrinks fd conntime)
    · rw [closeClient_eq]
      exact deleteSendMsg_pc _ _
  | drop hgone => exact deleteSendMsg_delivers hadd hgone
  | dropNull => exact eraseList_delivers s _
  | mod | closeNull => exact .of_eq rfl rfl rfl rfl rfl rfl
  | endDeref =>
    exact .of_quiet rfl (by simp) (by simp) rfl le_rfl (fun _ _ hk => .inl hk) fun _ _ hq => hq

theorem Effects.delivers (h : Effects cfg s s') (hwf : Wf s) (hadd : ∀ x, s.pc ≠ .adding x) :
    Delivers s s' := by
  have hall : Wf s' ∧ Shrinks s s' ∧ s'.pc = s.pc ∧ Delivers s s' := by
    refine h.invariant (I := fun s₁ => Wf s₁ ∧ Shrinks s s₁ ∧ s₁.pc = s.pc ∧ Delivers s s₁) ?_
      ⟨hwf, .refl, rfl, .refl⟩
    rintro s₁ s₂ heff ⟨hwf₁, hsub, hpc, hdel⟩
    have hdel₂ := heff.delivers hwf₁ (hpc ▸ hadd)
    exact ⟨hwf₁.effect heff, hsub.trans heff.shrinks, heff.pc_eq.trans hpc,
      hdel.trans hsub hpc hdel₂ heff.shrinks heff.pc_eq⟩
  exact hall.2.2.2

/-! ## Accepting a message -/

/-- **A message is taken in** with the next address; if it is for a server,
what is recorded of it is for connect `l`, which `fits` says about. -/
structure TakesNew (fits : ℕ → Prop) (d : NetData) (s s' : Sys) : Prop where
  allocs : s'.allocs = s.allocs + 1
  attempts : s'.attempts = s.attempts
  keys : s'.keys = s.keys
  index : ∀ id fd t l, .index id fd t l ∈ s.hist → .index id fd t l ∈ s'.hist
  sent : ∀ l n, .toServer l n ∈ s'.hist →
    .toServer l n ∈ s.hist ∨ n = s.allocs + 1 ∧ fits l
  deleted : ∀ why p, .deleted why p ∈ s'.hist → .deleted why p ∈ s.hist
  waits : ∀ fd q, Waits s' fd q →
    Waits s fd q ∨ fd = d.fddat ∧ SameMsg ⟨s.allocs + 1, d⟩ q

variable {fits : ℕ → Prop} {d : NetData}

/-- The epoll thread goes on. -/
theorem TakesNew.goto (h : TakesNew fits d s s') (pc : Pc) : TakesNew fits d s (s'.goto pc) :=
  ⟨h.allocs, h.attempts, h.keys, h.index, h.sent, h.deleted, h.waits⟩

theorem addMsg_takesNew : TakesNew fits d s (addMsg cfg s d).2 := by
  have hhist : ∀ r ∈ (addMsg cfg s d).2.hist, r ∈ s.hist ∨ r = .accepted ⟨s.allocs + 1, d⟩ := by
    intro r hr
    unfold addMsg at hr
    simp only at hr
    split at hr
    · exact (List.mem_append.mp hr).imp_right List.mem_singleton.mp
    · exact .inl hr
  refine ⟨rfl, rfl, rfl, ?_, ?_, ?_, ?_⟩
  · obtain ⟨cur, allocs, recs, -, heq⟩ := addMsg_frame cfg s d
    rw [heq]
    exact fun id fd t l hi => List.mem_append_left _ hi
  · intro l n hr
    rcases hhist _ hr with hr | hr
    · exact .inl hr
    · cases hr
  · intro why p hr
    rcases hhist _ hr with hr | hr
    · exact hr
    · cases hr
  · rintro fd q ⟨p, hp, hsame⟩
    have hcur := addMsgToSendList_listAt cfg.maxSendList s.cur fd d.fddat
      (⟨s.allocs + 1, d⟩ : NetDataPtr)
    change p ∈ listAt s.bak fd ++ listAt (addMsgToSendList cfg.maxSendList s.cur d.fddat
      (⟨s.allocs + 1, d⟩ : NetDataPtr)).2 fd at hp
    rw [hcur, ← List.append_assoc] at hp
    rcases List.mem_append.mp hp with hp | hp
    · exact .inl ⟨p, hp, hsame⟩
    · split at hp
      · rename_i hnew
        rw [List.mem_singleton.mp hp] at hsame
        exact .inr ⟨hnew.2, hsame⟩
      · cases hp

variable (cfg s) in
/-- **`sendMsgToServer`, by its result**: nothing happens, or a message for
the address of the key is taken in. -/
theorem sendMsgToServer_takesNew (ntype : ℤ) (m : ServerMsg) :
    sendMsgToServer cfg s ntype m = s ∨
      ∃ k ∈ s.keys.ofType ntype, 0 ≤ k.data.fddat ∧
        ∃ d ∈ createFrame cfg.host (m.request k ntype), TakesNew
          (fun l => l = k.attempt ∧ (addMsg cfg s d).1 = true) d s
          (sendMsgToServer cfg s ntype m) := by
  unfold sendMsgToServer
  split
  · exact .inl rfl
  · rename_i k hk
    split
    · rename_i hfd
      split
      · exact .inl rfl
      · rename_i d hd
        refine .inr ⟨k, hk, hfd, d, hd, ?_⟩
        have hadd : TakesNew (fun l => l = k.attempt ∧ (addMsg cfg s d).1 = true) d s
            (addMsg cfg s d).2 := addMsg_takesNew
        obtain ⟨hallocs, hatt, hkeys, hindex, hsent, hdel, hwaits⟩ := hadd
        simp only
        split
        · rename_i hacc
          refine ⟨hallocs, hatt, hkeys, ?_, ?_, ?_, hwaits⟩
          · exact fun id fd t l hi => List.mem_append_left _ (hindex id fd t l hi)
          · intro l n hr
            rcases List.mem_append.mp hr with hr | hr
            · exact hsent l n hr
            · injection List.mem_singleton.mp hr with hl hn
              exact .inr ⟨hn, hl, hacc⟩
          · intro why p hr
            rcases List.mem_append.mp hr with hr | hr
            · exact hdel why p hr
            · cases List.mem_singleton.mp hr
        · exact ⟨hallocs, hatt, hkeys, hindex, hsent, hdel, hwaits⟩
    · exact .inl rfl

/-! ## The invariant -/

/-- **Messages to servers are kept.** -/
structure HandOver (s : Sys) : Prop where
  /-- a key the epoll thread set is the address of its connection -/
  keys : ∀ ntype k, s.keys.ofType ntype = some k → KeyFits s k
  /-- a message is for a connect that was made, and its address was given -/
  sent : ∀ l n, .toServer l n ∈ s.hist → 1 ≤ l ∧ l ≤ s.attempts ∧ n ≤ s.allocs
  /-- a message waits under the descriptor it is addressed to -/
  listed : ∀ fd q, Waits s fd q → q.obj.fddat = fd ∧ q.addr ≤ s.allocs
  /-- one for an open connection has the index of it -/
  indexed : ∀ fd q, Waits s fd q → ∀ l, .toServer l q.addr ∈ s.hist → Open s l →
    ∃ id, .index id fd q.obj.connectTime l ∈ s.hist
  deleted : ∀ why p, .deleted why p ∈ s.hist → p.addr ≤ s.allocs
  /-- one that was thrown away was for a connection that is gone -/
  kept : ∀ why p, .deleted why p ∈ s.hist → why ≠ .sent → ∀ l, .toServer l p.addr ∈ s.hist →
    ¬ Open s l

namespace HandOver

/-- **A message for an open connection is not thrown away**: the connection
stands where the message waits. -/
theorem not_open (h : HandOver s) (hwf : Wf s') (hatt : Attempts s')
    (hpc : ∀ sock, s'.pc ≠ .adding sock) (hgrows : ∀ r ∈ s.hist, r ∈ s'.hist)
    (hopen : ∀ l, 1 ≤ l → l ≤ s.attempts → Open s' l → Open s l) (hwait : Waits s fd p)
    (hgone : Unaddressed s' fd p) (hsent : .toServer l p.addr ∈ s.hist) : ¬ Open s' l := by
  intro hlive
  obtain ⟨hpos, hle, -⟩ := h.sent l _ hsent
  obtain ⟨id, hindex⟩ := h.indexed fd p hwait l hsent (hopen l hpos hle hlive)
  obtain ⟨sock, hsock, hfd, ht⟩ := lookup_of_open hwf hatt hpc hpos (hgrows _ hindex) hlive
  have hfddat : p.obj.fddat = fd := (h.listed fd p hwait).1
  exact hgone sock hsock ⟨hfddat.trans hfd.symm, ht.symm⟩

/-- **A step that accepts no message keeps it.** -/
theorem of_delivers (h : HandOver s) (hdel : Delivers s s') (hwf : Wf s') (hatt : Attempts s')
    (hopen : ∀ l, 1 ≤ l → l ≤ s.attempts → Open s' l → Open s l) : HandOver s' := by
  refine ⟨?_, ?_, ?_, ?_, ?_, ?_⟩
  · intro ntype k hk
    rcases hdel.keys ntype k hk with hk | hfit
    · exact (h.keys ntype k hk).mono hdel.attempts hdel.grows
    · exact hfit
  · intro l n hr
    obtain ⟨hpos, hle, hn⟩ := h.sent l n (hdel.sent l n hr)
    exact ⟨hpos, hle.trans hdel.attempts, hdel.allocs ▸ hn⟩
  · intro fd q hq
    rw [hdel.allocs]
    exact h.listed fd q (hdel.waits fd q hq)
  · intro fd q hq l hr hlive
    have hr := hdel.sent l _ hr
    obtain ⟨hpos, hle, -⟩ := h.sent l _ hr
    obtain ⟨id, hid⟩ := h.indexed fd q (hdel.waits fd q hq) l hr (hopen l hpos hle hlive)
    exact ⟨id, hdel.grows _ hid⟩
  · intro why p hp
    rw [hdel.allocs]
    rcases hdel.deleted why p hp with hp | ⟨fd, hdis⟩
    · exact h.deleted why p hp
    · exact (h.listed fd p hdis.waits).2
  · intro why p hp hwhy l hr
    have hr := hdel.sent l _ hr
    rcases hdel.deleted why p hp with hp | ⟨fd, hdis⟩
    · obtain ⟨hpos, hle, -⟩ := h.sent l _ hr
      exact fun hlive => h.kept why p hp hwhy l hr (hopen l hpos hle hlive)
    · exact h.not_open hwf hatt hdis.after hdel.grows hopen hdis.waits (hdis.gone hwhy) hr

/-- **And so does one that accepts a message** under an index, or for a
connection that is gone. -/
theorem of_takes (h : HandOver s) (htakes : TakesNew fits d s s')
    (hopen : ∀ l, 1 ≤ l → l ≤ s.attempts → Open s' l → Open s l)
    (hfits : ∀ l, fits l → 1 ≤ l ∧ l ≤ s.attempts ∧
      (Open s l → ∃ id, .index id d.fddat d.connectTime l ∈ s.hist)) : HandOver s' := by
  -- what was there has another address than the message that is new
  have hold : ∀ {l n}, n ≤ s.allocs → .toServer l n ∈ s'.hist → .toServer l n ∈ s.hist := by
    intro l n hn hr
    rcases htakes.sent l n hr with hr | ⟨heq, -⟩
    · exact hr
    · omega
  refine ⟨?_, ?_, ?_, ?_, ?_, ?_⟩
  · intro ntype k hk hfd
    rw [htakes.keys] at hk
    obtain ⟨hpos, hle, hindex⟩ := h.keys ntype k hk hfd
    rw [htakes.attempts]
    refine ⟨hpos, hle, fun hi => ?_⟩
    obtain ⟨id, hid⟩ := hindex hi
    exact ⟨id, htakes.index _ _ _ _ hid⟩
  · intro l n hr
    rw [htakes.attempts, htakes.allocs]
    rcases htakes.sent l n hr with hr | ⟨rfl, hfit⟩
    · obtain ⟨hpos, hle, hn⟩ := h.sent l n hr
      exact ⟨hpos, hle, hn.trans (Nat.le_succ _)⟩
    · obtain ⟨hpos, hle, -⟩ := hfits l hfit
      exact ⟨hpos, hle, le_rfl⟩
  · intro fd q hq
    rw [htakes.allocs]
    rcases htakes.waits fd q hq with hq | ⟨rfl, hsame⟩
    · obtain ⟨hfd, haddr⟩ := h.listed fd q hq
      exact ⟨hfd, haddr.trans (Nat.le_succ _)⟩
    · exact ⟨hsame.fddat, hsame.addr.le⟩
  · intro fd q hq l hr hlive
    rcases htakes.waits fd q hq with hq | ⟨rfl, hsame⟩
    · have hr := hold (h.listed fd q hq).2 hr
      obtain ⟨hpos, hle, -⟩ := h.sent l _ hr
      obtain ⟨id, hid⟩ := h.indexed fd q hq l hr (hopen l hpos hle hlive)
      exact ⟨id, htakes.index _ _ _ _ hid⟩
    · rcases htakes.sent l _ hr with hr | ⟨-, hfit⟩
      · have hn := (h.sent l _ hr).2.2
        rw [hsame.addr] at hn
        exact absurd hn (Nat.not_succ_le_self _)
      · obtain ⟨hpos, hle, hindex⟩ := hfits l hfit
        obtain ⟨id, hid⟩ := hindex (hopen l hpos hle hlive)
        refine ⟨id, ?_⟩
        rw [hsame.connectTime]
        exact htakes.index _ _ _ _ hid
  · intro why p hp
    rw [htakes.allocs]
    exact (h.deleted why p (htakes.deleted why p hp)).trans (Nat.le_succ _)
  · intro why p hp hwhy l hr hlive
    have hp := htakes.deleted why p hp
    have hr := hold (h.deleted why p hp) hr
    obtain ⟨hpos, hle, -⟩ := h.sent l _ hr
    exact h.kept why p hp hwhy l hr (hopen l hpos hle hlive)

theorem init (now : ℤ) : HandOver (Sys.init cfg now) where
  keys ntype k hk := by
    have hdefault : k = {} := by
      unfold Sys.init ServerKeys.ofType at hk
      split_ifs at hk <;> exact (Option.some.inj hk).symm
    exact keyFits_of_neg (by rw [hdefault]; decide)
  sent _ _ h := by cases h
  listed _ _ h := by
    obtain ⟨p, hp, -⟩ := h
    cases hp
  indexed _ _ h := by
    obtain ⟨p, hp, -⟩ := h
    cases hp
  deleted _ _ h := by cases h
  kept _ _ h := by cases h

end HandOver

/-! ## Steps -/

/-- The type and the arguments of the message to a server that a step
sends. -/
def requested (s : Sys) : Action → Option (ℤ × ServerMsg)
  | .sendMsgToServer ntype m => some (ntype, m)
  | .ping =>
    match s.pc with
    | .ping (ntype :: _) => some (ntype, keepaliveMsg)
    | _ => none
  | _ => none

/-- **The condition on a step**: a message that is accepted for a server
whose connection is open is addressed by a key that the epoll thread set. -/
def SendsIndexed (cfg : Config) (s : Sys) (a : Action) : Prop :=
  ∀ r ∈ requested s a, ∀ k ∈ s.keys.ofType r.1, 0 ≤ k.data.fddat →
    ∀ d ∈ createFrame cfg.host (r.2.request k r.1), (addMsg cfg s d).1 = true →
      Open s k.attempt → k.indexed = true

/-- **A connection comes up**: no message is sent or thrown away. -/
theorem born_delivers (sock : SocketSet) (hhist : s'.hist = (born s sock).hist)
    (hallocs : s'.allocs = s.allocs) (hatt : s'.attempts = s.attempts)
    (hkeys : ∀ ntype k, s'.keys.ofType ntype = some k →
      s.keys.ofType ntype = some k ∨ KeyFits s' k)
    (hcur : s'.cur = s.cur) (hbak : s'.bak = s.bak) : Delivers s s' := by
  have hrecs : s'.hist = s.hist ++
      [.index (s.calls + 1) sock.key.fdkey (newConn s sock).key.connectTime sock.attempt,
        .note (s.calls + 1) .connected] := by
    rw [hhist]
    exact List.append_assoc _ _ _
  refine .of_quiet hrecs (by simp) (by simp) hallocs hatt.ge hkeys ?_
  unfold waiting
  rw [hcur, hbak]
  exact fun _ _ hq => hq

/-- **An event sets the key of its server** to the address of its
connection. -/
theorem addClientEvent_delivers (hatt : Attempts s) {sock : SocketSet} {es : List NetEvent}
    (hlst : s.eventlist = .addClient sock :: es) :
    Delivers s (addClientEvent cfg (s.withEvents es) sock) := by
  rw [addClientEvent_eq]
  refine born_delivers (s := s) sock rfl rfl rfl ?_ rfl rfl
  intro ntype k hk
  rcases ofType_setServerSocket_cases hk with ⟨-, hk⟩ | ⟨-, hfd, ht, hl, -⟩
  · exact .inl hk
  · refine .inr fun _ => ?_
    obtain ⟨hpos, hle, -⟩ := hatt.pending sock.attempt (pending_of_head hlst)
    rw [hfd, ht, hl]
    refine ⟨hpos, hle, fun _ => ⟨s.calls + 1, ?_⟩⟩
    exact List.mem_append_left _ (List.mem_append_right _ (List.mem_singleton.mpr rfl))

/-- **The scan drops** the lists of descriptors that have no connection. -/
theorem scanEnd_delivers (hscan : Scanned s) {del : List ℤ} (hpc : s.pc = .scan [] del) :
    Delivers s ((del.foldl deleteSendMsgFromSendMap s).goto .keepalive) := by
  have hadd : ∀ sock, s.pc ≠ .adding sock := by simp [hpc]
  have hall : (del.foldl deleteSendMsgFromSendMap s).socketmap = s.socketmap ∧
      (del.foldl deleteSendMsgFromSendMap s).pc = s.pc ∧
      Shrinks s (del.foldl deleteSendMsgFromSendMap s) ∧
      Delivers s (del.foldl deleteSendMsgFromSendMap s) := by
    refine deleteSendMsgs_invariant (I := fun s₁ => s₁.socketmap = s.socketmap ∧ s₁.pc = s.pc ∧
      Shrinks s s₁ ∧ Delivers s s₁) del ?_ ⟨rfl, rfl, .refl, .refl⟩
    rintro s₁ fd hfd ⟨hmap, hpc₁, hsub, hdel⟩
    have hgone : ∀ sock, s₁.socketmap.lookup fd ≠ some (some sock) := by
      rw [hmap]
      exact hscan fd (by rw [hpc]; exact hfd)
    refine ⟨(deleteSendMsg_maps s₁ fd).1.trans hmap, (deleteSendMsg_pc s₁ fd).trans hpc₁,
      hsub.trans (deleteSendMsg_shrinks fd), ?_⟩
    exact hdel.trans hsub hpc₁ (deleteSendMsg_delivers (hpc₁ ▸ hadd) hgone)
      (deleteSendMsg_shrinks fd) (deleteSendMsg_pc s₁ fd)
  exact hall.2.2.2.goto (by simp)

/-- **A step accepts no message, or one**, from any thread or for a server. -/
theorem Step.delivers (h : Step cfg s a s') (hwf : Wf s) (hscan : Scanned s) (hatt : Attempts s) :
    Delivers s s' ∨ (∃ d, TakesNew (fun _ => False) d s s') ∨
      ∃ r ∈ requested s a, ∃ k ∈ s.keys.ofType r.1, 0 ≤ k.data.fddat ∧
        ∃ d ∈ createFrame cfg.host (r.2.request k r.1),
          TakesNew (fun l => l = k.attempt ∧ (Epoll.addMsg cfg s d).1 = true) d s s' := by
  cases h with
  | epollWait | listen | acceptFail | flush | sysEnd | sweepEnd | pingEnd | outQueue =>
    exact .inl (.of_eq rfl rfl rfl rfl rfl rfl)
  | event hpc =>
    exact .inl (((handleEvent_effects s _ _).delivers hwf (by simp [hpc])).goto (by simp))
  | scan hpc => exact .inl (((scanFd_effects s _ _).delivers hwf (by simp [hpc])).goto (by simp))
  | sweep hpc => exact .inl (((sweepFd_effects s _).delivers hwf (by simp [hpc])).goto (by simp))
  | @acceptConn evs fd ip port b₁ b₂ b₃ b₄ now ctlOk hpc =>
    refine .inl ?_
    rcases acceptConn_cases cfg s fd ip port b₁ b₂ b₃ b₄ now ctlOk with heq | ⟨-, heq⟩
    · rw [heq]
      exact .of_eq rfl rfl rfl rfl rfl rfl
    · rw [heq]
      rcases addClientToEpoll_cases cfg (born (s.opened fd) (newClient fd ip port now))
        (newConn (s.opened fd) (newClient fd ip port now)) ctlOk with ⟨-, es, heq, -⟩ | ⟨-, heq⟩ <;>
        rw [heq] <;> exact born_delivers (s := s) _ rfl rfl rfl (fun _ _ hk => .inl hk) rfl rfl
  | sysClose => exact .inl (closeClient_delivers _ _ _)
  | sysAdd hpc hlst => exact .inl (addClientEvent_delivers hatt hlst)
  | @register sock ctlOk hpc =>
    refine .inl ?_
    rcases addClientToEpoll_cases cfg s sock ctlOk with ⟨-, es, heq, -⟩ | ⟨-, heq⟩ <;> rw [heq] <;>
      exact .of_eq rfl rfl rfl rfl rfl rfl
  | switchSendMap =>
    refine .inl (.of_quiet (List.append_nil _).symm (by simp) (by simp) rfl le_rfl
      (fun _ _ hk => .inl hk) ?_)
    exact fun fd q hq => mem_of_switchSendMap hq
  | scanEnd hpc => exact .inl (scanEnd_delivers hscan hpc)
  | keepalive _ _ _ hto | keepaliveSend _ _ hto =>
    rcases hto with rfl | rfl <;> exact .inl (.of_eq rfl rfl rfl rfl rfl rfl)
  | @ping ntype types hpc =>
    rcases sendMsgToServer_takesNew cfg s ntype keepaliveMsg with
      heq | ⟨k, hk, hfd, d, hd, htakes⟩
    · rw [heq]
      exact .inl (.of_eq rfl rfl rfl rfl rfl rfl)
    · refine .inr (.inr ⟨(ntype, keepaliveMsg), ?_, k, hk, hfd, d, hd, htakes.goto _⟩)
      simp only [requested, hpc]
      rfl
  | addMsg => exact .inr (.inl ⟨_, addMsg_takesNew⟩)
  | @sendMsgToServer ntype m =>
    rcases sendMsgToServer_takesNew cfg s ntype m with heq | ⟨k, hk, hfd, d, hd, htakes⟩
    · rw [heq]
      exact .inl .refl
    · exact .inr (.inr ⟨(ntype, m), rfl, k, hk, hfd, d, hd, htakes⟩)
  | createCloseConnectEvent =>
    unfold Epoll.createCloseConnectEvent
    split <;> exact .inl (.of_eq rfl rfl rfl rfl rfl rfl)
  | startNot => exact .inl .refl
  | start | socket | socketFail | connectFail | enqueue =>
    exact .inl (.of_eq rfl rfl rfl rfl rfl rfl)
  | connectOk =>
    refine .inl (.of_quiet (List.append_nil _).symm (by simp) (by simp) rfl (Nat.le_succ _)
      (fun _ _ hk => .inl hk) fun _ _ hq => hq)
  | @publish th sock hpc =>
    refine .inl (.of_quiet (List.append_nil _).symm (by simp) (by simp) rfl le_rfl ?_
      fun _ _ hq => hq)
    intro ntype k hk
    rcases ofType_setServerSocket_cases hk with ⟨-, hk⟩ | ⟨-, -, -, hl, hi⟩
    · exact .inl hk
    · -- the key has the wall clock, which is no index
      refine .inr fun _ => ?_
      obtain ⟨hpos, hle, -⟩ := hatt.pending sock.attempt (.inr ⟨th, by rw [hpc]; rfl⟩)
      rw [hl, hi]
      exact ⟨hpos, hle, nofun⟩
  | enqueueFail =>
    refine .inl (.of_quiet (List.append_nil _).symm (by simp) (by simp) rfl le_rfl ?_
      fun _ _ hq => hq)
    intro ntype k hk
    rcases ofType_setServerSocket_cases hk with ⟨-, hk⟩ | ⟨-, hfd, -⟩
    · exact .inl hk
    · exact .inr (keyFits_of_neg (by omega))

/-- **A step keeps messages to servers**, where those it accepts are
addressed by an index. -/
theorem HandOver.step (h : HandOver s) (hwf : Wf s) (hscan : Scanned s) (hatt : Attempts s)
    (hok : SendsIndexed cfg s a) (hstep : Step cfg s a s') : HandOver s' := by
  have hopen : ∀ l, 1 ≤ l → l ≤ s.attempts → Open s' l → Open s l :=
    fun l hpos hle => hstep.open_of hpos hle
  rcases hstep.delivers hwf hscan hatt with hdel | ⟨d, htakes⟩ | ⟨r, hr, k, hk, hfd, d, hd, htakes⟩
  · exact h.of_delivers hdel (hwf.step hstep) (hatt.step hstep) hopen
  · exact h.of_takes htakes hopen fun _ hfalse => hfalse.elim
  · refine h.of_takes htakes hopen ?_
    rintro l ⟨rfl, hacc⟩
    obtain ⟨hpos, hle, hindex⟩ := h.keys r.1 k hk hfd
    obtain ⟨hfddat, ht⟩ := createFrame_address hd
    refine ⟨hpos, hle, fun hlive => ?_⟩
    rw [hfddat, ht]
    exact hindex (hok r hr k hk hfd d hd hacc hlive)

theorem HandOver.of_reach {now : ℤ} (h : (server cfg now).Reach (SendsIndexed cfg) s) :
    HandOver s := by
  refine h.invariant (HandOver.init now) ?_
  intro s a s' hreach hok hnext hs
  have hrun := hreach.reachable
  exact hs.step (Wf.reachable hrun) (Scanned.reachable hrun) (Attempts.reachable hrun) hok
    (step_of_next hnext)

/-! ## Messages to servers -/

/-- **A step throws no message away whose connection is open**: by the test
of the connect time or at the end of the scan, none whose connection is open
then, and in any way only such as are for a connection that is gone after
it. -/
def KeepsServerMsgs (a : Action) (s s' : Sys) : Prop :=
  ∀ recs, s'.hist = s.hist ++ recs → ∀ why p l, .deleted why p ∈ recs →
    .toServer l p.addr ∈ s.hist →
      (why = .mismatch ∨ why = .dropped ∧ a = .scanEnd → ¬ Open s l) ∧ (why ≠ .sent → ¬ Open s' l)

/-- **No message that `sendMsgToServer` accepted is thrown away while its
connection is open**, in every run in which a message for an open connection
is accepted only under a key that the epoll thread set. -/
theorem serverMsg_kept {now : ℤ} (h : (server cfg now).Reach (SendsIndexed cfg) s)
    (hok : SendsIndexed cfg s a) (hnext : (server cfg now).next s a = some s') :
    KeepsServerMsgs a s s' := by
  have hwf : Wf s := Wf.reachable h.reachable
  have hscan : Scanned s := Scanned.reachable h.reachable
  have hatt : Attempts s := Attempts.reachable h.reachable
  have hover : HandOver s := .of_reach h
  have hover' : HandOver s' := .of_reach (.step h hok hnext)
  have hstep : Step cfg s a s' := step_of_next hnext
  intro recs hhist why p l hdeleted hsent
  have hin : .deleted why p ∈ s'.hist := by
    rw [hhist]
    exact List.mem_append_right _ hdeleted
  refine ⟨?_, ?_⟩
  · intro hwhy
    have hne : why ≠ .sent := by
      rcases hwhy with rfl | ⟨rfl, -⟩ <;> decide
    have hcase : .deleted why p ∈ s.hist ∨ ∃ fd, Discarded s s' why fd p := by
      rcases hstep.delivers hwf hscan hatt with hdel | ⟨d, htakes⟩ | ⟨_, -, _, -, -, _, -, htakes⟩
      · exact hdel.deleted why p hin
      · exact .inl (htakes.deleted why p hin)
      · exact .inl (htakes.deleted why p hin)
    rcases hcase with hold | ⟨fd, hdis⟩
    · exact hover.kept why p hold hne l hsent
    · have hgone : Unaddressed s fd p := by
        rcases hwhy with rfl | ⟨rfl, rfl⟩
        · obtain ⟨sock, hsock, hnot⟩ := hdis.misfit rfl
          intro x hx
          exact IntMap.eq_of_lookup hsock hx ▸ hnot
        · intro x hx
          refine hdis.gone hne x ?_
          cases hstep with
          | scanEnd => exact (deleteSendMsgs_maps s _).1.symm ▸ hx
      exact hover.not_open hwf hatt hdis.before (fun _ hr => hr)
        (fun _ _ _ hlive => hlive) hdis.waits
        hgone hsent
  · intro hne
    refine hover'.kept why p hin hne l ?_
    rw [hhist]
    exact List.mem_append_left _ hsent

/-- A thread connects on descriptor 7 and sets the key. -/
def connectRun : List Action :=
  startConnect 7 ++ [.connect 0 (.connectOk 1000 0), .connect 0 .publish]

/-- Its event is queued and handled, and the connection is in the map. -/
def addRun : List Action := [.connect 0 .enqueue, .epollWait [], .flush, .sysEvent, .register true]

/-- The keep alive message to the main server, addressed with time `t`. -/
def keepalivePtr (t : ℤ) : NetDataPtr :=
  ⟨1, { reply 7 t [0, 8, 0, 20, 0, 0, 0, 0] with type := mainsvrType }⟩

/-- Every message is sent under a key that the epoll thread set. -/
def KeysIndexed (s : Sys) (a : Action) : Prop :=
  ∀ r ∈ requested s a, ∀ k ∈ s.keys.ofType r.1, k.indexed = true

instance : Decidable (KeysIndexed s a) :=
  inferInstanceAs (Decidable (∀ r ∈ requested s a, ∀ k ∈ s.keys.ofType r.1, k.indexed = true))

/-- A message to the main server is accepted under the index of its
connection, and dropped once the scan has closed that. -/
theorem serverMsg_kept_closed :
    ∃ s s', (server peerConfig 0).Reach (SendsIndexed peerConfig) s ∧
      .deleted .dropped (keepalivePtr 2) ∈ s'.hist ∧ .toServer 1 1 ∈ s.hist ∧
      KeepsServerMsgs .scanEnd s s' := by
  have hrun : ∃ s, (server peerConfig 0).Reach KeysIndexed s ∧ .toServer 1 1 ∈ s.hist ∧
      ((next peerConfig s .scanEnd).any fun s' =>
        decide (.deleted .dropped (keepalivePtr 2) ∈ s'.hist)) = true :=
    Machine.exists_reach_of_exec (connectRun ++ addRun ++
      [.sendMsgToServer mainsvrType keepaliveMsg, .sysEvent, .switchSendMap, .scan false])
      (by decide)
  obtain ⟨s, hs, hsent, hany⟩ := hrun
  obtain ⟨s', hnext, hdel⟩ := (Option.any_eq_true _ _).mp hany
  have hreach : (server peerConfig 0).Reach (SendsIndexed peerConfig) s :=
    hs.mono fun _ _ hok r hr k hk _ _ _ _ _ => hok r hr k hk
  exact ⟨s, s', hreach, of_decide_eq_true hdel, hsent, serverMsg_kept hreach nofun hnext⟩

/-- **A message accepted before the hand-over is thrown away** while its
connection is open, by the test of the connect time. -/
theorem serverMsg_discarded :
    ∃ s s', (server peerConfig 0).Takes s (.event {}) s' ∧ ¬ KeepsServerMsgs (.event {}) s s' := by
  have hmismatch : ∃ s s', (server peerConfig 0).Takes s (.event {}) s' ∧ .toServer 1 1 ∈ s.hist ∧
      s'.hist = s.hist ++ [.deleted .mismatch (keepalivePtr 1000)] ∧
      (s'.socketmap.lookup 7).join.map (·.attempt) = some 1 :=
    Machine.exists_takes_of_exec (connectRun ++ [.sendMsgToServer mainsvrType keepaliveMsg] ++
      addRun ++ sendEnd ++ [.epollWait [⟨⟨7, 2, 2⟩, .epollout⟩]]) (by decide)
  obtain ⟨s, s', htakes, hsent, hhist, hlive⟩ := hmismatch
  refine ⟨s, s', htakes, fun hkeep => ?_⟩
  obtain ⟨sock, hsock, hattempt⟩ := Option.map_eq_some_iff.mp hlive
  have hopen : Open s' 1 := .inl ⟨7, sock, Option.join_eq_some_iff.mp hsock, hattempt⟩
  exact (hkeep _ hhist .mismatch _ 1 (List.mem_singleton.mpr rfl) hsent).2 (by decide) hopen

end Epoll

end EupuServer
