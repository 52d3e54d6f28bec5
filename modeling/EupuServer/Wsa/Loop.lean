import EupuServer.Wsa.Receive
/-!
# One pass of the socket loop

`doWSAEvent` goes over `m_socketmap` with an iterator, and visits each entry
once, in an order of the map's own. A visit receives and then sends; it sends
with the key `pkey`, which was null before the loop and is assigned nowhere,
so no connection's output is offered (`offersOutput_iff`). And it may close
the connection it visits, whose entry the increment then reads
(`increment_safe_iff`); it is taken to find the one that comes next.
-/

namespace EupuServer

namespace Wsa

open Network Protocol Epoll

/-- What the kernel answers during one visit. -/
structure VisitIo where
  recv : Io := {}
  accepts : List AcceptResult := []
  deriving DecidableEq, Repr

/-- **A visit of the loop**: the entry, the state before it and after its
receive step, the key `doSendMessage` is called with where it is called, and
the state before the increment. -/
structure Visit where
  fd : ℤ
  io : VisitIo
  before : Sys
  received : Sys
  sendKey : Option (Option SocketKey)
  after : Sys

variable (cfg : Config)

/-- The body of the loop for the entry under `fd`: `none` where there is no
such entry, or the behaviour is not defined. -/
def visit (pkey : Option SocketKey) (s : Sys) (fd : ℤ) (io : VisitIo) : Option Visit :=
  match s.socketmap.lookup fd with
  | none => none
  | some none => some ⟨fd, io, s, s, none, s⟩
  | some (some sock) =>
    if cfg.listenfd = fd then
      (doAccept cfg s io.accepts).map fun s' => ⟨fd, io, s, s', none, s'⟩
    else
      (doRecvMessage cfg s sock.key io.recv).bind fun s' =>
        let r := doSendMessage s' pkey io.recv.sends
        if r.1 then
          pkey.map fun key =>
            ⟨fd, io, s, s', some pkey, closeClient cfg r.2 key.fdkey key.connectTime⟩
        else some ⟨fd, io, s, s', some pkey, r.2⟩

/-- The visits of a pass that takes the entries in the order `order`. -/
def visits (pkey : Option SocketKey) : Sys → List (ℤ × VisitIo) → List Visit
  | _, [] => []
  | s, (fd, io) :: rest =>
    match visit cfg pkey s fd io with
    | none => []
    | some v => v :: visits pkey v.after rest

/-- The pass in `doWSAEvent`, where `pkey` is a null pointer. -/
def socketLoop (s : Sys) (order : List (ℤ × VisitIo)) : List Visit := visits cfg none s order

/-- **What every map of the thread has**: an entry stands under its own
descriptor, which is one. `addSocketToMap` adds no other. -/
def Keyed (s : Sys) : Prop :=
  ∀ fd sock, s.socketmap.lookup fd = some (some sock) → sock.key.fdkey = fd ∧ 0 ≤ fd

/-- **The receive step closes the connection it visits**: the peer ends the
stream, or sends what the parser refuses. -/
def PeerEnds (s : Sys) (fd : ℤ) (io : VisitIo) : Prop :=
  fd ≠ cfg.listenfd ∧ ∃ sock, s.socketmap.lookup fd = some (some sock) ∧
    (RecvEnds cfg.host cfg.recvbuflen io.recv.now .closed sock io.recv.recvs ∨
      RecvEnds cfg.host cfg.recvbuflen io.recv.now .rejected sock io.recv.recvs)

variable {cfg} {s s' : Sys} {fd : ℤ} {io : VisitIo} {v : Visit} {sock : SocketSet}

/-! ## What the steps of a visit leave -/

namespace Keyed

theorem of_eq (h : Keyed s) (hm : s'.socketmap = s.socketmap) : Keyed s' := by
  unfold Keyed
  rw [hm]
  exact h

theorem insert (h : Keyed s) (hm : s'.socketmap = s.socketmap.insert fd (some sock))
    (hkey : sock.key.fdkey = fd) (hpos : 0 ≤ fd) : Keyed s' := by
  intro k x hx
  rw [hm, IntMap.lookup_insert_eq] at hx
  split at hx
  · rename_i hk
    rw [Option.some.injEq, Option.some.injEq] at hx
    exact ⟨by rw [← hx, hkey, hk], hk ▸ hpos⟩
  · exact h k x hx

theorem closeClient (h : Keyed s) (fd connTime : ℤ) : Keyed (closeClient cfg s fd connTime) := by
  rw [closeClient_eq]
  intro k x hx
  simp only at hx
  split at hx
  · exact h k x hx
  · exact h k x (IntMap.lookup_of_erase hx)

theorem received (h : Keyed s) (hsock : s.socketmap.lookup fd = some (some sock))
    (cfg : Config) (cap : ℕ) (now : ℤ) (script : List RecvResult) :
    Keyed (received s fd sock (Network.recvMessage cfg.host cap now sock script)) := by
  obtain ⟨hkey, hpos⟩ := h fd sock hsock
  have hsame : (Network.recvMessage cfg.host cap now sock script).sock.key = sock.key :=
    (recvLoop_same _ _ _ _ _).key
  exact h.insert rfl (by rw [hsame, hkey]) hpos

theorem addClientToWSA (h : Keyed s) (sock : SocketSet) : Keyed (addClientToWSA s sock) := by
  unfold Wsa.addClientToWSA addSocketToMap
  by_cases hneg : sock.key.fdkey < 0
  · rw [if_pos hneg]
    exact h.of_eq rfl
  · rw [if_neg hneg]
    exact h.insert rfl rfl (by omega)

end Keyed

/-! ## Accepting -/

theorem mem_addClientToWSA {k : ℤ} (sock : SocketSet) (hk : k ∈ s.socketmap) :
    k ∈ (addClientToWSA s sock).socketmap := by
  unfold addClientToWSA addSocketToMap
  by_cases hneg : sock.key.fdkey < 0
  · rw [if_pos hneg]
    exact hk
  · rw [if_neg hneg]
    exact (AList.mem_insert _).mpr (.inr hk)

/-- **A round of `doAccept`**: the map stays, or has the new connection. -/
theorem acceptConn_cases (cfg : Config) (s : Sys) (fd : ℤ) (ip : String) (port : UInt16)
    (nonBlock sndBuf rcvBuf noDelay : Bool) (now : ℤ) :
    (acceptConn cfg s fd ip port nonBlock sndBuf rcvBuf noDelay now).socketmap = s.socketmap ∨
      ∃ s' sock, s'.socketmap = s.socketmap ∧
        acceptConn cfg s fd ip port nonBlock sndBuf rcvBuf noDelay now =
          addClientToWSA s' sock := by
  unfold acceptConn createConnectServerMsg
  simp only [createConnectServerMsg_eq]
  split
  · exact .inl rfl
  · split
    · exact .inl rfl
    · split
      · exact .inl rfl
      · split
        · exact .inl rfl
        · refine .inr ⟨_, _, ?_, rfl⟩
          rfl

/-- **Accepting adds connections and takes none away.** -/
theorem doAccept_spec {accepts : List AcceptResult} (h : doAccept cfg s accepts = some s') :
    (Keyed s → Keyed s') ∧ ∀ k ∈ s.socketmap, k ∈ s'.socketmap := by
  induction accepts generalizing s with
  | nil =>
    cases h
    exact ⟨id, fun _ hk => hk⟩
  | cons r rest ih =>
    cases r with
    | fail =>
      cases h
      exact ⟨id, fun _ hk => hk⟩
    | conn fd ip port nonBlock sndBuf rcvBuf noDelay now ctlOk =>
      rw [doAccept] at h
      split at h
      · obtain ⟨hkeyed, hmem⟩ := ih h
        rcases acceptConn_cases cfg s fd ip port nonBlock sndBuf rcvBuf noDelay now with
          hmap | ⟨s₁, sock, hmap, heq⟩
        · exact ⟨fun hk => hkeyed (hk.of_eq hmap), fun k hk => hmem k (hmap ▸ hk)⟩
        · refine ⟨fun hk => hkeyed ?_, fun k hk => hmem k ?_⟩
          · rw [heq]
            exact (hk.of_eq hmap).addClientToWSA sock
          · rw [heq]
            exact mem_addClientToWSA sock (hmap ▸ hk)
      · cases h

/-! ## One visit -/

/-- Whether the receive step closes its connection can be computed. -/
theorem peerEnds_iff : PeerEnds cfg s fd io ↔ fd ≠ cfg.listenfd ∧
    ((s.socketmap.lookup fd).join.any fun sock =>
      let o := Network.recvMessage cfg.host cfg.recvbuflen io.recv.now sock io.recv.recvs
      o.ending = .closed ∨ o.ending = .rejected) = true := by
  unfold PeerEnds
  refine and_congr_right fun _ => ?_
  rw [Option.any_eq_true]
  refine exists_congr fun sock => and_congr Option.join_eq_some_iff.symm ?_
  rw [decide_eq_true_iff, recvMessage_ending_iff (by decide), recvMessage_ending_iff (by decide)]

instance : Decidable (PeerEnds cfg s fd io) := decidable_of_iff _ peerEnds_iff.symm

/-- **The receive step of a visit** goes well, takes the entry away where the
peer ends the connection, and leaves the others alone. -/
theorem doRecvMessage_spec (h : Keyed s) (hsock : s.socketmap.lookup fd = some (some sock))
    (hlisten : fd ≠ cfg.listenfd) (io : VisitIo) :
    ∃ s', doRecvMessage cfg s sock.key io.recv = some s' ∧ Keyed s' ∧
      (fd ∈ s'.socketmap ↔ ¬ PeerEnds cfg s fd io) ∧
      ∀ k, k ≠ fd → s'.socketmap.lookup k = s.socketmap.lookup k := by
  obtain ⟨hkey, hpos⟩ := h fd sock hsock
  have hends : PeerEnds cfg s fd io ↔
      (Network.recvMessage cfg.host cfg.recvbuflen io.recv.now sock io.recv.recvs).ending
        = .closed ∨
      (Network.recvMessage cfg.host cfg.recvbuflen io.recv.now sock io.recv.recvs).ending =
        .rejected := by
    simp [peerEnds_iff, hlisten, hsock]
  have hreceived := h.received hsock cfg cfg.recvbuflen io.recv.now io.recv.recvs
  rw [hends]
  unfold doRecvMessage
  rw [hkey, hsock]
  simp only [ne_eq, not_true_eq_false, if_false, recvMessage_eq]
  generalize Network.recvMessage cfg.host cfg.recvbuflen io.recv.now sock io.recv.recvs = o
    at hreceived ⊢
  have hkept : fd ∈ (received s fd sock o).socketmap := (AList.mem_insert _).mpr (.inl rfl)
  have hgone : ∀ t, fd ∉ (closeClient cfg (received s fd sock o) fd t).socketmap := by
    intro t hmem
    rw [closeClient_eq] at hmem
    simp only [if_neg (not_lt.mpr hpos)] at hmem
    exact (AList.mem_erase.mp hmem).1 rfl
  have hothers : ∀ k, k ≠ fd →
      (received s fd sock o).socketmap.lookup k = s.socketmap.lookup k :=
    fun k hk => AList.lookup_insert_ne hk
  have hclosed : ∀ t k, k ≠ fd →
      (closeClient cfg (received s fd sock o) fd t).socketmap.lookup k = s.socketmap.lookup k := by
    intro t k hk
    rw [closeClient_eq]
    simp only [if_neg (not_lt.mpr hpos), AList.lookup_erase_ne hk]
    exact hothers k hk
  rcases hend : o.ending with _ | _ | _ | _
  · exact ⟨_, rfl, hreceived, by simp [hkept], hothers⟩
  · exact ⟨_, rfl, hreceived.closeClient _ _, by simp [hgone], hclosed _⟩
  · exact ⟨_, rfl, hreceived.closeClient _ _, by simp [hgone], hclosed _⟩
  · exact ⟨_, rfl, hreceived, by simp [hkept], hothers⟩

/-- **What a visit of the loop is.** With a null key `doSendMessage` does
nothing. -/
theorem visit_spec (h : Keyed s) (hv : visit cfg none s fd io = some v) :
    v.fd = fd ∧ v.io = io ∧ v.before = s ∧ v.after = v.received ∧ Keyed v.after ∧
      (fd ∈ v.received.socketmap ↔ ¬ PeerEnds cfg s fd io) ∧
      (∀ key, v.sendKey ≠ some (some key)) ∧
      (fd ≠ cfg.listenfd → ∀ k, k ≠ fd →
        v.after.socketmap.lookup k = s.socketmap.lookup k) := by
  unfold visit at hv
  split at hv
  · cases hv
  · rename_i hnull
    injection hv with hv
    subst hv
    refine ⟨rfl, rfl, rfl, rfl, h, ?_, nofun, fun _ _ _ => rfl⟩
    refine ⟨?_, fun _ => IntMap.mem_of_lookup hnull⟩
    rintro - ⟨-, x, hx, -⟩
    rw [hnull] at hx
    cases hx
  · rename_i sock hsock
    split at hv
    · -- the listening descriptor
      rename_i hlisten
      obtain ⟨s', haccept, rfl⟩ := Option.map_eq_some_iff.mp hv
      obtain ⟨hkeyed, hmem⟩ := doAccept_spec haccept
      refine ⟨rfl, rfl, rfl, rfl, hkeyed h, ?_, nofun, fun hne => absurd hlisten.symm hne⟩
      exact ⟨fun _ hend => hend.1 hlisten.symm, fun _ => hmem fd (IntMap.mem_of_lookup hsock)⟩
    · rename_i hlisten
      have hne : fd ≠ cfg.listenfd := fun heq => hlisten heq.symm
      obtain ⟨s', hs', hkeyed, hmem, hothers⟩ := doRecvMessage_spec h hsock hne io
      rw [hs', Option.bind_some] at hv
      simp only [doSendMessage, Bool.false_eq_true, if_false, Option.some.injEq] at hv
      subst hv
      exact ⟨rfl, rfl, rfl, rfl, hkeyed, hmem, nofun, fun _ => hothers⟩

/-- Every entry but that of the listening descriptor can be visited. -/
theorem visit_isSome (h : Keyed s) (hin : fd ∈ s.socketmap) (hne : fd ≠ cfg.listenfd)
    (io : VisitIo) : ∃ v, visit cfg none s fd io = some v := by
  unfold visit
  rcases hlookup : s.socketmap.lookup fd with _ | _ | sock
  · exact absurd hin (AList.lookup_eq_none.mp hlookup)
  · exact ⟨_, rfl⟩
  · obtain ⟨s', hs', -⟩ := doRecvMessage_spec h hlookup hne io
    simp only [if_neg hne.symm, hs', Option.bind_some, doSendMessage, Bool.false_eq_true, if_false]
    exact ⟨_, rfl⟩

/-- **The visits of a pass** are visits from maps of the thread. -/
theorem visit_of_mem {order : List (ℤ × VisitIo)} (h : Keyed s) (hv : v ∈ socketLoop cfg s order) :
    Keyed v.before ∧ visit cfg none v.before v.fd v.io = some v := by
  unfold socketLoop at hv
  induction order generalizing s with
  | nil => cases hv
  | cons e rest ih =>
    obtain ⟨fd, io⟩ := e
    rw [visits] at hv
    split at hv
    · cases hv
    · rename_i v' hvisit
      obtain ⟨hfd, hio, hbefore, -, hkeyed, -⟩ := visit_spec h hvisit
      rcases List.mem_cons.mp hv with rfl | hv
      · exact ⟨by rw [hbefore]; exact h, by rw [hfd, hio, hbefore]; exact hvisit⟩
      · exact ih hkeyed hv

/-- **A pass visits every entry**, and finds it as it was when the pass
began. -/
theorem socketLoop_visits {order : List (ℤ × VisitIo)} (h : Keyed s)
    (hnodup : (order.map Prod.fst).Nodup)
    (horder : ∀ e ∈ order, e.1 ∈ s.socketmap ∧ e.1 ≠ cfg.listenfd) :
    (socketLoop cfg s order).map (fun v => (v.fd, v.io)) = order ∧
      ∀ v ∈ socketLoop cfg s order,
        v.before.socketmap.lookup v.fd = s.socketmap.lookup v.fd := by
  unfold socketLoop
  induction order generalizing s with
  | nil => exact ⟨rfl, fun _ hv => absurd hv List.not_mem_nil⟩
  | cons e rest ih =>
    obtain ⟨fd, io⟩ := e
    obtain ⟨hfresh, hnodup'⟩ := List.nodup_cons.mp hnodup
    obtain ⟨hin, hne⟩ := horder (fd, io) List.mem_cons_self
    obtain ⟨v, hv⟩ := visit_isSome h hin hne io
    obtain ⟨hfd, hio, hbefore, -, hkeyed, -, -, hothers⟩ := visit_spec h hv
    -- the entries that are still to come are those they were
    have hkept : ∀ e ∈ rest, v.after.socketmap.lookup e.1 = s.socketmap.lookup e.1 := by
      intro e he
      refine hothers hne e.1 fun heq => hfresh ?_
      exact List.mem_map.mpr ⟨e, he, heq⟩
    have hrest : ∀ e ∈ rest, e.1 ∈ v.after.socketmap ∧ e.1 ≠ cfg.listenfd := by
      intro e he
      obtain ⟨hmem, hne'⟩ := horder e (List.mem_cons_of_mem _ he)
      refine ⟨?_, hne'⟩
      rwa [← AList.lookup_isSome, hkept e he, AList.lookup_isSome]
    obtain ⟨hmap, hlookup⟩ := ih hkeyed hnodup' hrest
    simp only [visits, hv, List.map_cons, hmap, hfd, hio, true_and]
    intro w hw
    rcases List.mem_cons.mp hw with rfl | hw
    · rw [hbefore]
    · have hwin : (w.fd, w.io) ∈ rest := hmap ▸ List.mem_map_of_mem hw
      exact (hlookup w hw).trans (hkept _ hwin)

/-! ## What a pass does for the connections -/

variable {order : List (ℤ × VisitIo)}

/-- A connection that the pass finds in the map. -/
def Connection (cfg : Config) (s : Sys) (fd : ℤ) (sock : SocketSet) : Prop :=
  s.socketmap.lookup fd = some (some sock) ∧ fd ≠ cfg.listenfd

/-- **A pass offers the output of every connection**: it calls
`doSendMessage` with the key of each that outlives its receive step. -/
def OffersOutput (cfg : Config) (s : Sys) (order : List (ℤ × VisitIo)) : Prop :=
  ∀ fd sock, Connection cfg s fd sock → ∃ v ∈ socketLoop cfg s order, v.fd = fd ∧
    (v.sendKey = some (some sock.key) ∨ fd ∉ v.received.socketmap)

/-- Every connection is closed by its own receive step. -/
def AllEnd (cfg : Config) (s : Sys) (order : List (ℤ × VisitIo)) : Prop :=
  ∀ fd sock, Connection cfg s fd sock → ∃ v ∈ socketLoop cfg s order, v.fd = fd ∧
    PeerEnds cfg v.before fd v.io

/-- What is read of the map is the entry. -/
theorem peerEnds_congr (hlookup : s'.socketmap.lookup fd = s.socketmap.lookup fd) :
    PeerEnds cfg s' fd io ↔ PeerEnds cfg s fd io := by
  rw [PeerEnds, PeerEnds, hlookup]

/-- **A pass offers no output**: over whatever map and in whatever order, it
does for every connection what it should only where each is closed by its own
receive step. Where the listening descriptor has no entry, that is what the
`recv` calls answer to the connections as they were. -/
theorem offersOutput_iff (h : Keyed s) (horder : (order.map Prod.fst).Perm s.socketmap.keys) :
    (OffersOutput cfg s order ↔ AllEnd cfg s order) ∧
      (cfg.listenfd ∉ s.socketmap → (AllEnd cfg s order ↔
        ∀ e ∈ order, ∀ sock, Connection cfg s e.1 sock → PeerEnds cfg s e.1 e.2)) := by
  have hmem : ∀ {fd}, fd ∈ order.map Prod.fst ↔ fd ∈ s.socketmap :=
    fun {fd} => horder.mem_iff.trans AList.mem_keys.symm
  have hnodup : (order.map Prod.fst).Nodup := horder.nodup_iff.mpr s.socketmap.keys_nodup
  refine ⟨forall_congr' fun fd => forall₂_congr fun sock _ => ?_, fun hlisten => ?_⟩
  · refine exists_congr fun v => and_congr_right fun hv => and_congr_right fun hfd => ?_
    obtain ⟨hbefore, hvisit⟩ := visit_of_mem h hv
    obtain ⟨-, -, -, -, -, hkept, hnull, -⟩ := visit_spec hbefore hvisit
    rw [or_iff_right (hnull sock.key), ← hfd, hkept, not_not]
  · obtain ⟨hmap, hlookup⟩ := socketLoop_visits h hnodup fun e he => by
      have hin : e.1 ∈ s.socketmap := hmem.mp (List.mem_map_of_mem he)
      exact ⟨hin, fun heq => hlisten (heq ▸ hin)⟩
    constructor
    · intro hall e he sock hconn
      obtain ⟨v, hv, hfd, hends⟩ := hall e.1 sock hconn
      -- there is one visit under the descriptor
      have hin : (v.fd, v.io) ∈ order := hmap ▸ List.mem_map_of_mem hv
      obtain rfl : (v.fd, v.io) = e := List.inj_on_of_nodup_map hnodup hin he hfd
      exact (peerEnds_congr (hlookup v hv)).mp hends
    · intro hall fd sock hconn
      obtain ⟨e, he, rfl⟩ := List.mem_map.mp (hmem.mpr (IntMap.mem_of_lookup hconn.1))
      obtain ⟨v, hv, rfl⟩ := List.mem_map.mp (show e ∈ List.map _ _ from hmap.symm ▸ he)
      exact ⟨v, hv, rfl, (peerEnds_congr (hlookup v hv)).mpr (hall _ he sock hconn)⟩

/-- **The increment reads an entry of the map** as long as no connection is
closed by its own receive step. -/
theorem increment_safe_iff (h : Keyed s) :
    (∀ v ∈ socketLoop cfg s order, v.fd ∈ v.after.socketmap) ↔
      ∀ v ∈ socketLoop cfg s order, ¬ PeerEnds cfg v.before v.fd v.io := by
  have hvisit : ∀ v ∈ socketLoop cfg s order,
      (v.fd ∈ v.after.socketmap ↔ ¬ PeerEnds cfg v.before v.fd v.io) := by
    intro v hv
    obtain ⟨hbefore, hvisit⟩ := visit_of_mem h hv
    obtain ⟨-, -, -, hafter, -, hmem, -⟩ := visit_spec hbefore hvisit
    rw [hafter]
    exact hmem
  exact forall₂_congr hvisit

/-! ## A thread with two connections -/

theorem keyed_oneConnection : Keyed oneConnection := by
  intro fd sock hsock
  have hlookup : (AList.singleton 7 (some (initSocketset ⟨7, 2, 2⟩ "" 0 clientType 0)) :
      IntMap (Option SocketSet)).lookup fd = some (some sock) := hsock
  rw [IntMap.lookup_singleton_eq] at hlookup
  split at hlookup
  · rename_i hfd
    rw [Option.some.injEq, Option.some.injEq] at hlookup
    subst hlookup hfd
    decide
  · cases hlookup

/-- The same thread, with a connection on `8` as well. -/
def twoConnections : Sys := { oneConnection with
  openfds := {3, 7, 8}
  socketmap := oneConnection.socketmap.insert 8
    (some (initSocketset ⟨8, 3, 3⟩ "" 0 clientType 0)) }

theorem keyed_twoConnections : Keyed twoConnections :=
  keyed_oneConnection.insert rfl rfl (by decide)

/-- A visit in which `recv` has one answer. -/
def oneRecv (r : RecvResult) : VisitIo := { recv := { recvs := [r] } }

/-- Two peers that send a frame each. -/
theorem increment_safe_iff_frames :
    Keyed twoConnections ∧ ∀ v ∈ socketLoop smallConfig twoConnections
      [(8, oneRecv (.data [0, 8, 0, 20, 0, 0, 0, 0])),
        (7, oneRecv (.data [0, 8, 0, 30, 0, 0, 0, 0]))], v.fd ∈ v.after.socketmap :=
  ⟨keyed_twoConnections, (increment_safe_iff keyed_twoConnections).mpr (by decide)⟩

/-- **A peer that closes** leaves the loop with an entry that is gone. -/
theorem increment_unsafe :
    ¬ ∀ (cfg : Config) (s : Sys) (order : List (ℤ × VisitIo)), Keyed s →
      ∀ v ∈ socketLoop cfg s order, v.fd ∈ v.after.socketmap := by
  intro hall
  have hvisit : ∃ v ∈ socketLoop smallConfig oneConnection [(7, oneRecv (.data []))],
      v.fd ∉ v.after.socketmap := by
    decide
  obtain ⟨v, hv, hgone⟩ := hvisit
  exact hgone (hall smallConfig oneConnection _ keyed_oneConnection v hv)

/-- One peer closes, and the other sends what the parser refuses. -/
theorem offersOutput_iff_closed :
    OffersOutput smallConfig twoConnections
      [(8, oneRecv (.data [])), (7, oneRecv (.data [0, 0, 0, 0, 0, 0, 0, 0]))] := by
  have horder : (List.map Prod.fst [(8, oneRecv (.data [])),
      (7, oneRecv (.data [0, 0, 0, 0, 0, 0, 0, 0]))]).Perm twoConnections.socketmap.keys := by
    decide
  obtain ⟨hoffers, hends⟩ := offersOutput_iff keyed_twoConnections horder
  refine hoffers.mpr ((hends (by decide)).mpr fun e he sock _ => ?_)
  have hall : ∀ e ∈ [(8, oneRecv (.data [])), (7, oneRecv (.data [0, 0, 0, 0, 0, 0, 0, 0]))],
      PeerEnds smallConfig twoConnections e.1 e.2 := by
    decide
  exact hall e he

/-- Two connections with a message for the one on `8`. -/
def oneReply : Sys :=
  { twoConnections with bak := AList.singleton 8 (some [⟨1, reply 8 3 [65]⟩]) }

/-- **A connection that has a message and sends nothing** is not offered its
output, whatever becomes of the other. -/
theorem output_not_offered :
    ¬ ∀ (cfg : Config) (s : Sys) (order : List (ℤ × VisitIo)), Keyed s →
      (order.map Prod.fst).Perm s.socketmap.keys → OffersOutput cfg s order := by
  intro hall
  have hkeyed : Keyed oneReply := keyed_twoConnections.of_eq rfl
  have hoffers := hall smallConfig oneReply [(7, oneRecv (.data [])), (8, {})] hkeyed (by decide)
  obtain ⟨v, hv, hfd, hcase⟩ := hoffers 8 (initSocketset ⟨8, 3, 3⟩ "" 0 clientType 0)
    ⟨rfl, by decide⟩
  have hvisit : ∀ v ∈ socketLoop smallConfig oneReply [(7, oneRecv (.data [])), (8, {})],
      v.fd = 8 → v.sendKey = some none ∧ 8 ∈ v.received.socketmap := by
    decide
  obtain ⟨hkey, hin⟩ := hvisit v hv hfd
  rw [hkey] at hcase
  exact hcase.elim (fun hnone => by cases hnone) fun hgone => hgone hin

end Wsa

end EupuServer
