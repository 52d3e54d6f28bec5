import EupuServer.Epoll.Wf
/-!
# The order of sending

What is written to a connection, against what was accepted for it. While
the connection is in the socket map, the bytes accepted are those written
followed by those that wait (`Exact`), and each step keeps this: a message
that is accepted goes to the end of what waits, a switch without overflow
keeps what waits in order, and the loop of `doSendMessage` moves bytes from
the front of what waits to the end of what is written. Once the connection
has left the map nothing more is written to it.
-/

namespace EupuServer

namespace Epoll

open Network Protocol

/-- The messages that wait for descriptor `fd`, in the order of sending. -/
def waiting (s : Sys) (fd : ℤ) : List NetDataPtr := listAt s.bak fd ++ listAt s.cur fd

/-- The record says that `getIndex` gave `t` to a connection on `fd`. -/
def gives (fd t : ℤ) : Record → Bool
  | .index _ k i _ => k = fd ∧ i = t
  | _ => false

/-- `getIndex` gave `t` to a connection on `fd`. -/
def Given (s : Sys) (fd t : ℤ) : Prop := ∃ r ∈ s.hist, gives fd t r = true

instance (s : Sys) (fd t : ℤ) : Decidable (Given s fd t) := inferInstanceAs (Decidable (∃ _ ∈ _, _))

/-- The connection `(fd, t)` is in the socket map. -/
def Held (s : Sys) (fd t : ℤ) : Prop :=
  ∃ sock, s.socketmap.lookup fd = some (some sock) ∧ sock.key.connectTime = t

/-- **What was accepted is what was written and what waits.** -/
def Exact (fd t : ℤ) (s : Sys) : Prop :=
  acceptedBytes fd t s.hist = writtenBytes fd t s.hist ++ pendingBytes fd t (waiting s fd)

/-- **The order of sending** for `(fd, t)`. -/
structure Fifo (fd t : ℤ) (s : Sys) : Prop where
  written : writtenBytes fd t s.hist <+: acceptedBytes fd t s.hist
  held : Held s fd t → Exact fd t s
  fresh : ¬ Given s fd t →
    acceptedBytes fd t s.hist = [] ∧ pendingBytes fd t (waiting s fd) = []

variable {cfg : Config} {s s' : Sys} {a : Action} {fd t k : ℤ}

theorem given_iff : Given s fd t ↔ ∃ id l, .index id fd t l ∈ s.hist := by
  constructor
  · rintro ⟨r, hr, hgives⟩
    unfold gives at hgives
    split at hgives
    · obtain ⟨rfl, rfl⟩ := of_decide_eq_true hgives
      exact ⟨_, _, hr⟩
    · cases hgives
  · rintro ⟨id, l, hr⟩
    exact ⟨_, hr, decide_eq_true ⟨rfl, rfl⟩⟩

theorem Shrinks.held (h : Shrinks s s') (hheld : Held s' fd t) : Held s fd t := by
  obtain ⟨sock', hsock', ht⟩ := hheld
  obtain ⟨sock, hsock, hsame⟩ := h.conn hsock'
  exact ⟨sock, hsock, by rw [← ht, hsame.key]⟩

theorem Shrinks.given_iff (h : Shrinks s s') : Given s' fd t ↔ Given s fd t := by
  simp only [Epoll.given_iff, h.index]

/-! ## What the handlers do to the bytes -/

variable (fd t) in
theorem acceptedBytes_of_recs {recs : List Record} (hhist : s'.hist = s.hist ++ recs)
    (hacc : ∀ p, .accepted p ∉ recs) : acceptedBytes fd t s'.hist = acceptedBytes fd t s.hist := by
  rw [hhist, acceptedBytes_append, acceptedBytes_eq_nil hacc, List.append_nil]

variable (fd t) in
theorem writtenBytes_of_recs {recs : List Record} (hhist : s'.hist = s.hist ++ recs)
    (hsent : ∀ via p bs, .sent via p bs ∉ recs) :
    writtenBytes fd t s'.hist = writtenBytes fd t s.hist := by
  rw [hhist, writtenBytes_append,
    writtenBytes_eq_nil fun via p bs hr => absurd hr (hsent via p bs), List.append_nil]

/-- Closing a connection leaves the messages where they are. -/
theorem closeClient_waiting (conntime : ℤ) :
    waiting (closeClient cfg s k conntime) fd = waiting s fd := by
  rw [closeClient_eq]
  rfl

theorem closeClient_hist (conntime : ℤ) :
    (closeClient cfg s k conntime).hist = s.hist ++ closeNotes s k := by
  rw [closeClient_eq]

theorem closeClient_accepted (conntime : ℤ) :
    acceptedBytes fd t (closeClient cfg s k conntime).hist = acceptedBytes fd t s.hist :=
  acceptedBytes_of_recs _ _ (closeClient_hist conntime) (by simp [closeNotes])

theorem closeClient_written (conntime : ℤ) :
    writtenBytes fd t (closeClient cfg s k conntime).hist = writtenBytes fd t s.hist :=
  writtenBytes_of_recs _ _ (closeClient_hist conntime) (by simp [closeNotes])

theorem closeClient_gone (hk : 0 ≤ k) (conntime : ℤ) :
    ¬ Held (closeClient cfg s k conntime) k t := by
  rintro ⟨sock, hsock, -⟩
  rw [closeClient_lookup hk] at hsock
  cases hsock

theorem deleteSendMsg_accepted :
    acceptedBytes fd t (deleteSendMsgFromSendMap s k).hist = acceptedBytes fd t s.hist := by
  rcases deleteSendMsg_cases s k with heq | heq
  · rw [heq]
  · exact acceptedBytes_of_recs _ _ (by rw [heq]) (by simp)

theorem deleteSendMsg_written :
    writtenBytes fd t (deleteSendMsgFromSendMap s k).hist = writtenBytes fd t s.hist := by
  rcases deleteSendMsg_cases s k with heq | heq
  · rw [heq]
  · exact writtenBytes_of_recs _ _ (by rw [heq]) (by simp)

/-- Dropping a list leaves the other lists. -/
theorem deleteSendMsg_waiting (hfd : fd ≠ k) :
    waiting (deleteSendMsgFromSendMap s k) fd = waiting s fd := by
  rcases deleteSendMsg_cases s k with heq | heq
  · rw [heq]
  · rw [heq, waiting, waiting, listAt_erase, if_neg hfd]

theorem deleteSendMsg_pending :
    pendingBytes fd t (waiting (deleteSendMsgFromSendMap s k) fd) <:+
      pendingBytes fd t (waiting s fd) := by
  rcases deleteSendMsg_cases s k with heq | heq
  · rw [heq]
  · rw [heq, waiting, waiting, listAt_erase]
    split
    · rw [pendingBytes_append, pendingBytes_append]
      exact List.suffix_append _ _
    · exact List.suffix_rfl

variable {key : SocketKey} {sends : List SendResult} {lst : List NetDataPtr}

theorem sentFrom_accepted :
    acceptedBytes fd t (sentFrom s k (sendLoop key sends lst)).hist =
      acceptedBytes fd t s.hist := by
  rw [sentFrom, acceptedBytes_append, sendLoop_accepted, List.append_nil]

theorem sentFrom_waiting (hfd : fd ≠ k) :
    waiting (sentFrom s k (sendLoop key sends lst)) fd = waiting s fd := by
  rw [waiting, waiting, sentFrom, listAt_insert, if_neg hfd]

theorem sentFrom_pending (hlst : s.bak.lookup k = some (some lst)) :
    pendingBytes fd t (waiting (sentFrom s k (sendLoop key sends lst)) fd) <:+
      pendingBytes fd t (waiting s fd) := by
  by_cases hfd : fd = k
  · subst hfd
    rw [waiting, waiting, sentFrom, listAt_insert, if_pos rfl, listAt_of_lookup hlst,
      pendingBytes_append, pendingBytes_append]
    exact List.suffix_append_self_iff.mpr sendLoop_left
  · rw [sentFrom_waiting hfd]

/-! ## Effects -/

namespace Fifo

/-- Before `(fd, t)` was given to a connection nothing was accepted for it. -/
theorem exact_of_not_given (h : Fifo fd t s) (hnot : ¬ Given s fd t) : Exact fd t s := by
  obtain ⟨hacc, hwait⟩ := h.fresh hnot
  have hwritten : writtenBytes fd t s.hist = [] := List.prefix_nil.mp (hacc ▸ h.written)
  rw [Exact, hacc, hwritten, hwait, List.append_nil]

/-- The order is kept where nothing is accepted or moved, and what is
written keeps it. -/
theorem of_written (h : Fifo fd t s) (hsub : Shrinks s s')
    (hacc : acceptedBytes fd t s'.hist = acceptedBytes fd t s.hist)
    (hwritten : writtenBytes fd t s'.hist <+: acceptedBytes fd t s.hist)
    (hheld : Held s' fd t → Exact fd t s')
    (hwait : pendingBytes fd t (waiting s' fd) <:+ pendingBytes fd t (waiting s fd)) :
    Fifo fd t s' := by
  refine ⟨hacc ▸ hwritten, hheld, ?_⟩
  intro hnot
  obtain ⟨hnil, hempty⟩ := h.fresh fun hgiven => hnot (hsub.given_iff.mpr hgiven)
  exact ⟨hacc.trans hnil, List.suffix_nil.mp (hempty ▸ hwait)⟩

/-- The order is kept where nothing is accepted, written or moved. -/
theorem of_shrinks (h : Fifo fd t s) (hsub : Shrinks s s')
    (hacc : acceptedBytes fd t s'.hist = acceptedBytes fd t s.hist)
    (hwritten : writtenBytes fd t s'.hist = writtenBytes fd t s.hist)
    (hwait : waiting s' fd = waiting s fd) : Fifo fd t s' := by
  refine h.of_written hsub hacc (hwritten ▸ h.written) ?_ (hwait ▸ List.suffix_rfl)
  intro hheld
  rw [Exact, hacc, hwritten, hwait]
  exact h.held (hsub.held hheld)

/-- The order is kept where what is recorded is not about messages. -/
theorem of_recs (h : Fifo fd t s) (hsub : Shrinks s s') {recs : List Record}
    (hhist : s'.hist = s.hist ++ recs) (hacc : ∀ p, .accepted p ∉ recs)
    (hsent : ∀ via p bs, .sent via p bs ∉ recs) (hwait : waiting s' fd = waiting s fd) :
    Fifo fd t s' :=
  h.of_shrinks hsub (acceptedBytes_of_recs _ _ hhist hacc)
    (writtenBytes_of_recs _ _ hhist hsent) hwait

theorem closeClient (h : Fifo fd t s) (k conntime : ℤ) : Fifo fd t (closeClient cfg s k conntime) :=
  h.of_shrinks (closeClient_shrinks k conntime) (closeClient_accepted conntime)
    (closeClient_written conntime) (closeClient_waiting conntime)

/-- Dropping the list of a descriptor keeps the order where the connection
is gone. -/
theorem deleteSendMsg (h : Fifo fd t s) (hgone : k = fd → ¬ Held s fd t) :
    Fifo fd t (deleteSendMsgFromSendMap s k) := by
  have hsub : Shrinks s (deleteSendMsgFromSendMap s k) := deleteSendMsg_shrinks k
  by_cases hk : k = fd
  · refine h.of_written hsub deleteSendMsg_accepted ?_ ?_ deleteSendMsg_pending
    · rw [deleteSendMsg_written]
      exact h.written
    · intro hheld
      exact absurd (hsub.held hheld) (hgone hk)
  · exact h.of_shrinks hsub deleteSendMsg_accepted deleteSendMsg_written
      (deleteSendMsg_waiting (Ne.symm hk))

/-- **The loop of `doSendMessage` writes what waits in front.** -/
theorem sentFrom_exact (h : Fifo fd t s) (hwf : Wf s) {sock : SocketSet} (sends : List SendResult)
    (hsock : s.socketmap.lookup k = some (some sock)) (hlst : s.bak.lookup k = some (some lst)) :
    writtenBytes fd t (sentFrom s k (sendLoop sock.key sends lst)).hist <+:
        acceptedBytes fd t s.hist ∧
      ((sendLoop sock.key sends lst).failed = false →
        Held s fd t → Exact fd t (sentFrom s k (sendLoop sock.key sends lst))) := by
  obtain ⟨hkey, -, -⟩ := hwf.conn hsock
  have hsplit : writtenBytes fd t (sentFrom s k (sendLoop sock.key sends lst)).hist =
      writtenBytes fd t s.hist ++ writtenBytes fd t (sendLoop sock.key sends lst).recs :=
    writtenBytes_append _ _
  by_cases hconn : sock.key.fdkey = fd ∧ sock.key.connectTime = t
  · -- the list is that of the connection itself
    obtain ⟨hfd, ht⟩ := hconn
    obtain rfl : k = fd := hkey.symm.trans hfd
    have hexact : acceptedBytes k t s.hist = writtenBytes k t s.hist ++
        (pendingBytes k t lst ++ pendingBytes k t (listAt s.cur k)) := by
      rw [← pendingBytes_append, ← listAt_of_lookup hlst]
      exact h.held ⟨sock, hsock, ht⟩
    obtain ⟨rest, hrest, hleft⟩ := sendLoop_bytes sends lst hfd ht
    rw [← hrest] at hexact
    refine ⟨?_, fun hok _ => ?_⟩
    · rw [hsplit, hexact, List.append_assoc, List.prefix_append_right_inj]
      exact List.prefix_append _ _
    · rw [Exact, hsplit, sentFrom_accepted, hexact, hleft hok, waiting, sentFrom, listAt_insert,
        if_pos rfl, pendingBytes_append]
      simp only [List.append_assoc]
  · -- it is that of another connection, which writes nothing to this one
    rw [Exact, hsplit, sendLoop_written hconn, List.append_nil, sentFrom_accepted]
    refine ⟨h.written, ?_⟩
    intro _ hheld
    have hfd : fd ≠ k := by
      rintro rfl
      obtain ⟨sock', hsock', ht⟩ := hheld
      exact hconn ⟨hkey, IntMap.eq_of_lookup hsock hsock' ▸ ht⟩
    rw [sentFrom_waiting hfd]
    exact h.held hheld

/-- Where no `send` fails the loop keeps the order. -/
theorem sentFrom (h : Fifo fd t s) (hwf : Wf s) {sock : SocketSet}
    (hsock : s.socketmap.lookup k = some (some sock)) (hlst : s.bak.lookup k = some (some lst))
    (hok : (sendLoop sock.key sends lst).failed = false) :
    Fifo fd t (sentFrom s k (sendLoop sock.key sends lst)) := by
  have hsub : Shrinks s (Epoll.sentFrom s k (sendLoop sock.key sends lst)) :=
    sentFrom_shrinks _ _ _ _
  obtain ⟨hwritten, hexact⟩ := h.sentFrom_exact hwf sends hsock hlst
  exact h.of_written hsub sentFrom_accepted hwritten (fun hheld => hexact hok (hsub.held hheld))
    (sentFrom_pending hlst)

/-- Where a `send` fails what was written is in order, and the connection
is closed. -/
theorem sendFail (h : Fifo fd t s) (hwf : Wf s) {sock : SocketSet} (conntime : ℤ)
    (hsock : s.socketmap.lookup k = some (some sock)) (hlst : s.bak.lookup k = some (some lst)) :
    Fifo fd t (Epoll.closeClient cfg
      (deleteSendMsgFromSendMap (Epoll.sentFrom s k (sendLoop sock.key sends lst)) k)
      k conntime) := by
  obtain ⟨hkey, hk, -⟩ := hwf.conn hsock
  obtain ⟨hwritten, -⟩ := h.sentFrom_exact hwf sends hsock hlst
  have hsub : Shrinks s (Epoll.closeClient cfg (deleteSendMsgFromSendMap
      (Epoll.sentFrom s k (sendLoop sock.key sends lst)) k) k conntime) :=
    ((sentFrom_shrinks _ _ _ _).trans (deleteSendMsg_shrinks _)).trans (closeClient_shrinks _ _)
  -- what was not written is dropped, with the connection it was for
  refine h.of_written hsub ?_ ?_ ?_ ?_
  · rw [closeClient_accepted, deleteSendMsg_accepted, sentFrom_accepted]
  · rw [closeClient_written, deleteSendMsg_written]
    exact hwritten
  · intro hheld
    have hfd : fd ≠ k := by
      rintro rfl
      exact closeClient_gone hk conntime hheld
    have hnot : ¬ (sock.key.fdkey = fd ∧ sock.key.connectTime = t) :=
      fun hconn => hfd (hconn.1.symm.trans hkey)
    rw [Exact, closeClient_accepted, deleteSendMsg_accepted, sentFrom_accepted, closeClient_written,
      deleteSendMsg_written, closeClient_waiting, deleteSendMsg_waiting hfd, sentFrom_waiting hfd,
      Epoll.sentFrom, writtenBytes_append, sendLoop_written hnot, List.append_nil]
    exact h.held (hsub.held hheld)
  · rw [closeClient_waiting]
    exact deleteSendMsg_pending.trans (sentFrom_pending hlst)

/-- **An effect keeps the order.** -/
theorem effect (h : Fifo fd t s) (hwf : Wf s) (heff : Effect cfg s s') : Fifo fd t s' := by
  have hsub : Shrinks s s' := heff.shrinks
  cases heff with
  | close k conntime => exact h.closeClient k conntime
  | recv now recvs =>
    exact h.of_recs hsub rfl (by simp) (by simp) rfl
  | send sends hsock hlst hleft hok => exact h.sentFrom hwf hsock hlst hok
  | @sendAll k sock lst sends hsock hlst hleft hok =>
    have hsent := h.sentFrom hwf hsock hlst hok
    refine hsent.of_shrinks (.of_eq rfl rfl rfl (List.append_nil _).symm (by simp)) rfl rfl ?_
    simp only [waiting, Epoll.sentFrom, hleft, listAt_erase, listAt_insert]
    split <;> rfl
  | sendFail sends conntime hsock hlst hfail => exact h.sendFail hwf conntime hsock hlst
  | drop hgone =>
    -- the list is that of a descriptor without a connection
    refine h.deleteSendMsg ?_
    rintro rfl ⟨sock, hsock, -⟩
    exact hgone sock hsock
  | @dropNull k hnull =>
    refine h.of_shrinks hsub rfl rfl ?_
    have hnil : listAt s.bak k = [] := by rw [listAt, hnull]; rfl
    simp only [waiting, listAt_erase]
    split
    · subst fd
      rw [hnil]
    · rfl
  | mod | closeNull => exact h.of_recs hsub (List.append_nil _).symm (by simp) (by simp) rfl
  | endDeref => exact h.of_recs hsub rfl (by simp) (by simp) rfl

/-- **Effects keep the order.** -/
theorem effects (h : Fifo fd t s) (hwf : Wf s) (heffs : Effects cfg s s') : Fifo fd t s' := by
  have hboth : Wf s' ∧ Fifo fd t s' := by
    refine heffs.invariant (I := fun s => Wf s ∧ Fifo fd t s) ?_ ⟨hwf, h⟩
    rintro s₁ s₂ heff ⟨hwf₁, h₁⟩
    exact ⟨hwf₁.effect heff, h₁.effect hwf₁ heff⟩
  exact hboth.2

theorem goto (h : Fifo fd t s) (pc : Pc) : Fifo fd t (s.goto pc) := ⟨h.written, h.held, h.fresh⟩

/-! ## New connections -/

/-- **A connection that comes up starts with nothing**, and no other loses
the order. -/
theorem born (h : Fifo fd t s) (hwf : Wf s) {sock : SocketSet} (hwf' : Wf (born s sock))
    (hcalls : s.calls + 1 < 2 ^ 32 - 2) :
    Fifo fd t (born s sock) ∧
      ((newConn s sock).key.fdkey = fd → (newConn s sock).key.connectTime = t →
        Exact fd t (born s sock)) := by
  have hhist : (Epoll.born s sock).hist = s.hist ++
      [.index (s.calls + 1) sock.key.fdkey (newConn s sock).key.connectTime sock.attempt,
        .note (newConn s sock).key.id .connected] :=
    List.append_assoc _ _ _
  have hacc := acceptedBytes_of_recs fd t hhist (by simp)
  have hwritten := writtenBytes_of_recs fd t hhist (by simp)
  have hexact : Exact fd t s → Exact fd t (Epoll.born s sock) := by
    intro hexact
    rw [Exact, hacc, hwritten]
    exact hexact
  refine ⟨⟨?_, ?_, ?_⟩, ?_⟩
  · rw [hacc, hwritten]
    exact h.written
  · exact fun hheld => hexact (h.held hheld)
  · intro hnot
    rw [hacc]
    refine h.fresh ?_
    rintro ⟨r, hr, hgives⟩
    exact hnot ⟨r, hhist ▸ List.mem_append_left _ hr, hgives⟩
  · intro hfd ht
    refine hexact (h.exact_of_not_given ?_)
    intro hgiven
    -- an index that was given before is the number of an earlier call
    obtain ⟨id, l, hid⟩ := given_iff.mp hgiven
    obtain ⟨hindex, htime⟩ := hwf'.counted hcalls
    have hlt := (hwf.called _ _ _ _ hid).2
    have heq := htime id fd t l (hhist ▸ List.mem_append_left _ hid)
    have hnew : (newConn s sock).key.connectTime = (s.calls + 1 : ℕ) := hindex
    omega

/-- Adding a connection keeps the order where it is exact for it. -/
theorem register (h : Fifo fd t s) {sock : SocketSet} (ctlOk : Bool)
    (hexact : sock.key.fdkey = fd → sock.key.connectTime = t → Exact fd t s) :
    Fifo fd t (addClientToEpoll cfg s sock ctlOk) := by
  rcases addClientToEpoll_cases cfg s sock ctlOk with ⟨-, es, heq, -⟩ | ⟨-, heq⟩
  · rw [heq]
    exact ⟨h.written, h.held, h.fresh⟩
  · rw [heq]
    refine ⟨h.written, ?_, h.fresh⟩
    rintro ⟨x, hx, ht⟩
    simp only [IntMap.lookup_insert_eq] at hx
    split at hx
    · rename_i hfd
      injection hx with hx
      injection hx with hx
      exact hexact hfd.symm (hx ▸ ht)
    · exact h.held ⟨x, hx, ht⟩

end Fifo

/-! ## New messages -/

/-- **A message that is accepted goes to the end of what waits.** -/
def TakesIn (fd t : ℤ) (s s' : Sys) : Prop :=
  ∃ bs, acceptedBytes fd t s'.hist = acceptedBytes fd t s.hist ++ bs ∧
    writtenBytes fd t s'.hist = writtenBytes fd t s.hist ∧
    pendingBytes fd t (waiting s' fd) = pendingBytes fd t (waiting s fd) ++ bs

variable (cfg s fd t) in
theorem addMsg_takesIn (d : NetData) : TakesIn fd t s (addMsg cfg s d).2 := by
  let p : NetDataPtr := ⟨s.allocs + 1, d⟩
  have hcur := addMsgToSendList_listAt cfg.maxSendList s.cur fd d.fddat p
  have hother : ¬ fd = d.fddat → bytesFor fd t p = [] := fun hfd => if_neg fun h => hfd h.1.symm
  unfold addMsg TakesIn waiting
  simp only
  by_cases hok : (addMsgToSendList cfg.maxSendList s.cur d.fddat p).1 = true
  · refine ⟨bytesFor fd t p, ?_, ?_, ?_⟩
    · rw [if_pos hok, acceptedBytes_append]
      simp only [acceptedBytes, List.flatMap_cons, List.flatMap_nil, List.append_nil]
      rfl
    · have hnone : writtenBytes fd t [.accepted p] = [] := rfl
      rw [if_pos hok, writtenBytes_append, hnone, List.append_nil]
    · rw [hcur, ← List.append_assoc, pendingBytes_append]
      by_cases hfd : fd = d.fddat
      · rw [if_pos ⟨hok, hfd⟩, pendingBytes_cons]
        exact congrArg _ (List.append_nil _)
      · rw [if_neg fun h => hfd h.2, hother hfd]
        rfl
  · refine ⟨[], ?_, ?_, ?_⟩
    · rw [if_neg hok, List.append_nil]
    · rw [if_neg hok]
    · rw [hcur, if_neg fun h => hok h.1, List.append_nil, List.append_nil]

theorem TakesIn.refl : TakesIn fd t s s :=
  ⟨[], (List.append_nil _).symm, rfl, (List.append_nil _).symm⟩

theorem sendMsgToServer_takesIn (ntype : ℤ) (m : ServerMsg) :
    TakesIn fd t s (sendMsgToServer cfg s ntype m) := by
  unfold sendMsgToServer
  split
  · exact .refl
  · split
    · split
      · exact .refl
      · rename_i d _
        simp only
        split
        · obtain ⟨bs, hacc, hwritten, hwait⟩ := addMsg_takesIn cfg s fd t d
          refine ⟨bs, ?_, ?_, hwait⟩
          · rw [← hacc]
            exact acceptedBytes_of_recs _ _ rfl (by simp)
          · rw [← hwritten]
            exact writtenBytes_of_recs _ _ rfl (by simp)
        · exact addMsg_takesIn _ _ _ _ _
    · exact .refl

theorem TakesIn.exact (h : TakesIn fd t s s') (hexact : Exact fd t s) : Exact fd t s' := by
  obtain ⟨bs, hacc, hwritten, hwait⟩ := h
  rw [Exact, hacc, hwritten, hwait, hexact, List.append_assoc]

/-- Messages are taken in where `(fd, t)` was given to a connection. -/
theorem Fifo.takesIn (h : Fifo fd t s) (hsub : Shrinks s s') (htakes : TakesIn fd t s s')
    (htime : acceptedBytes fd t s'.hist = acceptedBytes fd t s.hist ∨ Given s fd t) :
    Fifo fd t s' := by
  refine ⟨?_, fun hheld => htakes.exact (h.held (hsub.held hheld)), ?_⟩
  · obtain ⟨bs, hacc, hwritten, -⟩ := htakes
    rw [hacc, hwritten]
    exact h.written.trans (List.prefix_append _ _)
  · -- without its time given, the message that was accepted is not for `(fd, t)`
    intro hnot
    have hnot' : ¬ Given s fd t := fun hgiven => hnot (hsub.given_iff.mpr hgiven)
    obtain ⟨bs, hacc, -, hwait⟩ := htakes
    have hsame := htime.resolve_right hnot'
    have hbs : bs = [] := List.append_right_eq_self.mp (hacc.symm.trans hsame)
    obtain ⟨hnil, hempty⟩ := h.fresh hnot'
    rw [hacc, hwait, hnil, hempty, hbs]
    exact ⟨rfl, rfl⟩

/-! ## Runs -/

/-- **The order of sending, with what the epoll thread holds**: a connection
that is being added is as good as one in the map. -/
structure FifoAt (fd t : ℤ) (s : Sys) : Prop extends Fifo fd t s where
  adding : ∀ sock, s.pc = .adding sock → sock.key.fdkey = fd → sock.key.connectTime = t →
    Exact fd t s

/-- Whether the step is `switchSendMap`. -/
def Action.isSwitch : Action → Bool
  | .switchSendMap => true
  | _ => false

/-- A switch does not overflow the list of `fd`. -/
def SwitchFits (cfg : Config) (fd : ℤ) (s : Sys) (a : Action) : Prop :=
  a.isSwitch = true → ((listAt s.cur fd).length + (listAt s.bak fd).length : ℤ) ≤ cfg.maxSendList

instance : Decidable (SwitchFits cfg fd s a) := inferInstanceAs (Decidable (_ → _))

/-- A message for `(fd, t)` is accepted only once `getIndex` gave `t`. -/
def AcceptsInTime (cfg : Config) (fd t : ℤ) (s : Sys) (a : Action) : Prop :=
  ∀ s' ∈ next cfg s a, acceptedBytes fd t s'.hist = acceptedBytes fd t s.hist ∨ Given s fd t

instance : Decidable (AcceptsInTime cfg fd t s a) :=
  inferInstanceAs (Decidable (∀ s' ∈ next cfg s a, _ ∨ _))

/-- **The condition on the steps of a run** under which sending keeps the
order. -/
def SendsInOrder (cfg : Config) (fd t : ℤ) (s : Sys) (a : Action) : Prop :=
  SwitchFits cfg fd s a ∧ AcceptsInTime cfg fd t s a

instance : Decidable (SendsInOrder cfg fd t s a) := inferInstanceAs (Decidable (_ ∧ _))

namespace FifoAt

/-- Where the epoll thread is adding nothing, the order is all there is. -/
theorem of_fifo (h : Fifo fd t s) (hadd : ∀ sock, s.pc ≠ .adding sock) : FifoAt fd t s :=
  ⟨h, fun sock hpc => absurd hpc (hadd sock)⟩

/-- Where the epoll thread stays where it is. -/
theorem of_same (h : FifoAt fd t s) (hfifo : Fifo fd t s') (hpc : s'.pc = s.pc)
    (hexact : Exact fd t s → Exact fd t s') : FifoAt fd t s' := by
  refine ⟨hfifo, ?_⟩
  intro sock hadd hfd ht
  exact hexact (h.adding sock (hpc ▸ hadd) hfd ht)

/-- Where nothing of it is touched. -/
theorem of_eq (h : FifoAt fd t s) (hpc : s'.pc = s.pc) (hmap : s'.socketmap = s.socketmap)
    (hcur : s'.cur = s.cur) (hbak : s'.bak = s.bak) (hhist : s'.hist = s.hist)
    (hcalls : s'.calls = s.calls) (hnext : s'.index = s.index) : FifoAt fd t s' := by
  have hsub : Shrinks s s' :=
    .of_eq hmap hcalls hnext (hhist.trans (List.append_nil _).symm) (by simp)
  have hwait : waiting s' fd = waiting s fd := by rw [waiting, waiting, hcur, hbak]
  refine h.of_same (h.toFifo.of_shrinks hsub (by rw [hhist]) (by rw [hhist]) hwait) hpc ?_
  rw [Exact, Exact, hhist, hwait]
  exact id

/-- The end of the scan, which drops lists that have no connection. -/
theorem scanEnd (h : FifoAt fd t s) (hscan : Scanned s) {del : List ℤ} (hpc : s.pc = .scan [] del) :
    FifoAt fd t ((del.foldl deleteSendMsgFromSendMap s).goto .keepalive) := by
  have hdel : Shrinks s (del.foldl deleteSendMsgFromSendMap s) ∧
      Fifo fd t (del.foldl deleteSendMsgFromSendMap s) := by
    refine deleteSendMsgs_invariant (I := fun s₀ => Shrinks s s₀ ∧ Fifo fd t s₀) del ?_
      ⟨.refl, h.toFifo⟩
    rintro s₀ k hk ⟨hsub, hs₀⟩
    refine ⟨hsub.trans (deleteSendMsg_shrinks k), hs₀.deleteSendMsg ?_⟩
    rintro rfl hheld
    obtain ⟨sock, hsock, -⟩ := hsub.held hheld
    exact hscan k (by rw [hpc]; exact hk) sock hsock
  exact of_fifo (hdel.2.goto _) (by simp)

/-- **A step keeps the order of sending.** -/
theorem step (h : FifoAt fd t s) (hint : cfg.maxSendList < 2 ^ 31) (hwf : Wf s) (hscan : Scanned s)
    (hcalls : s'.calls < 2 ^ 32 - 2) (hnext : next cfg s a = some s')
    (hok : SendsInOrder cfg fd t s a) : FifoAt fd t s' := by
  have htime := hok.2 s' hnext
  have hwf' : Wf s' := hwf.step (step_of_next hnext)
  cases step_of_next hnext with
  | epollWait | listen | acceptFail | flush | sysEnd | sweepEnd | pingEnd =>
    exact of_fifo ⟨h.written, h.held, h.fresh⟩ (by simp)
  | event =>
    exact of_fifo ((h.toFifo.effects hwf (handleEvent_effects s _ _)).goto _) (by simp)
  | @acceptConn evs k ip port b₁ b₂ b₃ b₄ now ctlOk hpc =>
    rcases acceptConn_cases cfg s k ip port b₁ b₂ b₃ b₄ now ctlOk with heq | ⟨-, heq⟩
    · rw [heq]
      exact of_fifo ⟨h.written, h.held, h.fresh⟩ (by simp [hpc])
    · have hopen : Wf (s.opened k) := hwf.of_eq rfl rfl rfl rfl fun _ hx => hx
      have hborn := hopen.born (by simp [hpc, Sys.opened]) (newClient k ip port now)
      have hfifo : Fifo fd t (s.opened k) := ⟨h.written, h.held, h.fresh⟩
      rw [heq] at hcalls ⊢
      have hone := addClientToEpoll_calls cfg (born (s.opened k) (newClient k ip port now))
        (newConn (s.opened k) (newClient k ip port now)) ctlOk
      -- the connection is announced and added in one step
      obtain ⟨hnew, hexact⟩ := hfifo.born hopen hborn (hone.ge.trans_lt hcalls)
      exact of_fifo ((hnew.register ctlOk hexact).goto _) (by simp [hpc])
  | @sysClose k conntime es hpc =>
    have hes : Fifo fd t (s.withEvents es) := ⟨h.written, h.held, h.fresh⟩
    refine of_fifo (hes.closeClient k conntime) ?_
    simp [closeClient_eq, hpc, Sys.withEvents]
  | @sysAdd sock es hpc =>
    have hes : Wf (s.withEvents es) := hwf.of_eq rfl rfl rfl rfl fun _ hx => hx
    have hborn := hes.born (by simp [hpc, Sys.withEvents]) sock
    have hfifo : Fifo fd t (s.withEvents es) := ⟨h.written, h.held, h.fresh⟩
    rw [addClientEvent_eq] at hcalls ⊢
    -- it is announced here, and added in the step that follows
    obtain ⟨hnew, hexact⟩ := hfifo.born hes hborn hcalls
    refine ⟨⟨hnew.written, hnew.held, hnew.fresh⟩, ?_⟩
    intro x hx hfd ht
    injection hx with hx
    subst hx
    exact hexact hfd ht
  | @register sock ctlOk hpc =>
    exact of_fifo ((h.toFifo.register ctlOk (h.adding sock hpc)).goto _) (by simp)
  | switchSendMap =>
    -- without an overflow what waits is the same, list by list
    have hfit := hok.1 rfl
    have hu : (Bytes.uint32 cfg.maxSendList : ℤ) = cfg.maxSendList :=
      Bytes.cast_uint32 (by omega) (by omega)
    refine of_fifo (h.toFifo.of_shrinks ?_ rfl rfl ?_) ?_
    · exact .of_eq rfl rfl rfl (List.append_nil _).symm (by simp)
    · exact switchSendMap_listAt (by omega)
    · simp [Epoll.switchSendMap]
  | scan =>
    exact of_fifo ((h.toFifo.effects hwf (scanFd_effects s _ _)).goto _) (by simp)
  | scanEnd hpc => exact h.scanEnd hscan hpc
  | keepalive _ _ _ hto | keepaliveSend _ _ hto =>
    rcases hto with rfl | rfl <;> exact of_fifo (h.toFifo.goto _) (by simp)
  | sweep =>
    exact of_fifo ((h.toFifo.effects hwf (sweepFd_effects s _)).goto _) (by simp)
  | ping =>
    have hfifo := h.toFifo.takesIn (sendMsgToServer_shrinks _ _) (sendMsgToServer_takesIn _ _) htime
    exact of_fifo (hfifo.goto _) (by simp)
  | addMsg =>
    refine h.of_same (h.toFifo.takesIn (addMsg_shrinks _) (addMsg_takesIn _ _ _ _ _) htime) rfl
      (addMsg_takesIn _ _ _ _ _).exact
  | sendMsgToServer =>
    refine h.of_same (h.toFifo.takesIn (sendMsgToServer_shrinks _ _) (sendMsgToServer_takesIn _ _)
      htime) (sendMsgToServer_pc _ _) (sendMsgToServer_takesIn _ _).exact
  | createCloseConnectEvent =>
    unfold Epoll.createCloseConnectEvent
    split
    · exact h
    · exact h.of_eq rfl rfl rfl rfl rfl rfl rfl
  | startNot => exact h
  | outQueue | start | socket | socketFail | connectFail | connectOk | publish | enqueue
  | enqueueFail => exact h.of_eq rfl rfl rfl rfl rfl rfl rfl

end FifoAt

/-- **Sending is in order and byte for byte.** In every run whose switches
do not overflow the list of `fd`, and in which no message for `(fd, t)` is
accepted before `getIndex` gave `t`, what is written to the connection
`(fd, t)` is a prefix of what was accepted for it. -/
theorem written_prefix_accepted {now : ℤ} (hint : cfg.maxSendList < 2 ^ 31)
    (h : (server cfg now).Reach (SendsInOrder cfg fd t) s) (hcalls : s.calls < 2 ^ 32 - 2) :
    writtenBytes fd t s.hist <+: acceptedBytes fd t s.hist := by
  have hfifo : s.calls < 2 ^ 32 - 2 → FifoAt fd t s := by
    refine h.invariant (I := fun s => s.calls < 2 ^ 32 - 2 → FifoAt fd t s) ?_ ?_
    · intro _
      refine FifoAt.of_fifo ⟨List.prefix_rfl, ?_, fun _ => ⟨rfl, rfl⟩⟩ nofun
      exact fun _ => rfl
    · intro s a s' hreach hok hnext ih hcalls
      have hle := (step_of_next hnext).calls_le
      exact (ih (by omega)).step hint (Wf.reachable hreach.reachable)
        (Scanned.reachable hreach.reachable) hcalls hnext hok
  exact (hfifo hcalls).written

/-- A reply is accepted for the client `(7, 2)`, and sent. -/
def replyRound (bs : List UInt8) : List Action :=
  acceptRound 7 ++ [.addMsg (reply 7 2 bs), .flush] ++ sendEnd ++
    [.epollWait [⟨⟨7, 2, 2⟩, .epollout⟩], .event { sends := [.sent 1] }]

/-- A reply of two bytes, of which one was sent. -/
theorem written_prefix_accepted_reply :
    ∃ s, (server smallConfig 0).Reach (SendsInOrder smallConfig 7 2) s ∧
      acceptedBytes 7 2 s.hist = [65, 66] ∧ writtenBytes 7 2 s.hist = [65] ∧
      writtenBytes 7 2 s.hist <+: acceptedBytes 7 2 s.hist := by
  have hrun : ∃ s, (server smallConfig 0).Reach (SendsInOrder smallConfig 7 2) s ∧
      s.calls < 2 ^ 32 - 2 ∧ acceptedBytes 7 2 s.hist = [65, 66] ∧
      writtenBytes 7 2 s.hist = [65] :=
    Machine.exists_reach_of_exec (replyRound [65, 66]) (by decide)
  obtain ⟨s, hs, hcalls, hacc, hwritten⟩ := hrun
  exact ⟨s, hs, hacc, hwritten, written_prefix_accepted (by decide) hs hcalls⟩

/-- A message for `(7, 3)` is accepted while the client on 7 is `(7, 2)`, and
dropped when that one's output is sent. The client closes, and the next one
on 7 is `(7, 3)` and gets the message accepted for it then. -/
def reusedRun : List Action :=
  acceptRound 7 ++ [.addMsg (reply 7 3 [65]), .flush] ++ sendEnd ++
    [.epollWait [⟨⟨7, 2, 2⟩, .epollout⟩], .event {}, .flush] ++ quietEnd ++
    [.epollWait [⟨⟨7, 2, 2⟩, .epollin⟩], .event { recvs := [.data []] }, .flush] ++ quietEnd ++
    acceptRound 7 ++ [.addMsg (reply 7 3 [66]), .flush] ++ sendEnd ++
    [.epollWait [⟨⟨7, 3, 3⟩, .epollout⟩], .event { sends := [.sent 1] }]

/-- **A message for a connection that is yet to come is not sent to it**:
the test of the connect time drops it, and the connection then gets what was
accepted after it. Nothing in the run goes wrong otherwise. -/
theorem written_not_prefix_early :
    ∃ s, (server smallConfig 0).Reach (SwitchFits smallConfig 7) s ∧ s.calls < 2 ^ 32 - 2 ∧
      Given s 7 3 ∧ (∀ r ∈ s.hist, r.isEndDeref = false) ∧ acceptedBytes 7 3 s.hist = [65, 66] ∧
      writtenBytes 7 3 s.hist = [66] ∧
      ¬ writtenBytes 7 3 s.hist <+: acceptedBytes 7 3 s.hist :=
  Machine.exists_reach_of_exec reusedRun (by decide)

end Epoll

end EupuServer
