import EupuServer.Epoll.Wf
/-!
# The scan of the backup map

Before it waits again, the epoll thread goes through the descriptors that
have messages: a connection is armed for writing, and a descriptor without
one is put on `m_delsendfdlist`, whose messages are dropped after the scan.
The branch for a descriptor without a connection reports all three things
that may be missing in one log call, and the arguments of a call are
evaluated one and all: the last two are read through an iterator that the
test in front of them found to be `end()`.
-/

namespace EupuServer

namespace Epoll

open Network Protocol

/-! ## What a visit reads -/

/-- A read through the iterator `m_socketmap.find(fd)`: of its `second`, or
of the socket that points to. -/
inductive Deref
  | second
  | socket
  deriving DecidableEq, Repr

/-- The read is of something there is. -/
def Deref.Valid (m : IntMap (Option SocketSet)) (fd : ℤ) : Deref → Prop
  | .second => ∃ v, m.lookup fd = some v
  | .socket => ∃ sock, m.lookup fd = some (some sock)

/-- The reads of `itersockmap->second->key`. -/
def keyRead : List Deref := [.second, .socket]

variable (cfg : Config) (s : Sys) (ctl : ℤ → Bool)

/-- The reads of one round of the scan, in order. -/
def scanDerefs (fd : ℤ) (ctlOk : Bool) : List Deref :=
  match s.socketmap.lookup fd with
  -- the test stops at `end()`, the arguments of the log call do not
  | none => .second :: keyRead
  | some none => .second :: .second :: keyRead
  | some (some sock) =>
    let test := .second :: keyRead
    let arm := keyRead
    match epollMod s fd ⟨sock.key, true⟩ ctlOk with
    | some _ => test ++ arm
    -- `fdkey` and `connect_time` for `closeClient`
    | none => test ++ arm ++ keyRead ++ keyRead

/-! ## The scan as a whole -/

/-- The rounds of the scan over `fds`, where `ctl` is what `epoll_ctl`
answers: the state, and `m_delsendfdlist`. -/
def scanAll : Sys → List ℤ → Sys × List ℤ
  | s, [] => (s, [])
  | s, fd :: fds =>
    let r := scanFd cfg s fd (ctl fd)
    let rest := scanAll r.1 fds
    (rest.1, if r.2 then fd :: rest.2 else rest.2)

/-- The state before each round, with the descriptor the round is about. -/
def visits : Sys → List ℤ → List (Sys × ℤ)
  | _, [] => []
  | s, fd :: fds => (s, fd) :: visits (scanFd cfg s fd (ctl fd)).1 fds

/-- The scan of the backup map, and the deletions after it. -/
def sendScan : Sys :=
  let r := scanAll cfg ctl s s.bak.ascendingKeys
  r.2.foldl deleteSendMsgFromSendMap r.1

/-- There is a connection under `fd`. -/
def HasConn (fd : ℤ) : Prop := ∃ sock, s.socketmap.lookup fd = some (some sock)

/-- `epoll_ctl` fails for `fd`. -/
def CtlFails (fd : ℤ) : Prop := ¬ (ctl fd = true ∧ fd ∈ s.epollset)

/-- A round finds no connection, or `epoll_ctl` fails in it. -/
def Dead (fd : ℤ) : Prop := ¬ HasConn s fd ∨ CtlFails s ctl fd

/-- **The scan drops what it should, safely**: it reads nothing that is not
there, and the lists it deletes are those of the descriptors that have no
connection or that `epoll_ctl` fails for. -/
structure DropsSafely : Prop where
  reads : ∀ v ∈ visits cfg ctl s s.bak.ascendingKeys,
    ∀ d ∈ scanDerefs v.1 v.2 (ctl v.2), d.Valid v.1.socketmap v.2
  deleted : ∀ v ∈ visits cfg ctl s s.bak.ascendingKeys, Dead v.1 ctl v.2 →
    (sendScan cfg s ctl).bak.lookup v.2 = none
  kept : ∀ fd, (∀ v ∈ visits cfg ctl s s.bak.ascendingKeys, v.2 = fd → ¬ Dead v.1 ctl v.2) →
    (sendScan cfg s ctl).bak.lookup fd = s.bak.lookup fd

/-- **Ready to be scanned**: every descriptor with messages has a
connection, and one that `epoll_ctl` fails for is not negative and closes
none that is still to come. -/
def ScanReady (fds : List ℤ) : Prop :=
  ∀ fd ∈ fds, ∃ sock, s.socketmap.lookup fd = some (some sock) ∧
    (CtlFails s ctl fd → 0 ≤ fd ∧ ∀ fd' ∈ fds, fd < fd' → sock.key.fdkey ≠ fd')

variable {cfg s ctl} {fd : ℤ} {fds : List ℤ}

/-! ## One round -/

/-- **A round reads nothing missing** where there is a connection, and only
there. -/
theorem scanDerefs_valid_iff (ctlOk : Bool) :
    (∀ d ∈ scanDerefs s fd ctlOk, d.Valid s.socketmap fd) ↔ HasConn s fd := by
  constructor
  · intro hvalid
    have hlast : Deref.socket ∈ scanDerefs s fd ctlOk := by
      unfold scanDerefs keyRead
      split
      · simp
      · simp
      · split <;> simp
    exact hvalid _ hlast
  · rintro ⟨sock, hsock⟩ d -
    cases d with
    | second => exact ⟨_, hsock⟩
    | socket => exact ⟨sock, hsock⟩

/-- A connection is armed for writing. -/
theorem scanFd_armed {sock : SocketSet} (hsock : s.socketmap.lookup fd = some (some sock))
    (hctl : ¬ CtlFails s ctl fd) :
    scanFd cfg s fd (ctl fd) =
      ({ s with epollset := s.epollset.insert fd ⟨sock.key, true⟩ }, false) := by
  unfold CtlFails at hctl
  rw [not_not] at hctl
  simp only [scanFd, hsock, epollMod, if_pos hctl]

/-- Or it is closed, where `epoll_ctl` fails. -/
theorem scanFd_failed {sock : SocketSet} (hsock : s.socketmap.lookup fd = some (some sock))
    (hctl : CtlFails s ctl fd) :
    scanFd cfg s fd (ctl fd) = (closeClient cfg s sock.key.fdkey sock.key.connectTime, true) := by
  unfold CtlFails at hctl
  simp only [scanFd, hsock, epollMod, if_neg hctl]

variable (cfg) in
/-- Without a connection the descriptor is only put on the list. -/
theorem scanFd_missing (hnone : ¬ HasConn s fd) (ctlOk : Bool) :
    (scanFd cfg s fd ctlOk).2 = true ∧ (scanFd cfg s fd ctlOk).1.bak = s.bak := by
  unfold scanFd
  split
  · exact ⟨rfl, rfl⟩
  · exact ⟨rfl, rfl⟩
  · rename_i sock hsock
    exact absurd ⟨sock, hsock⟩ hnone

variable (cfg s ctl) in
/-- **A round lists its descriptor where it is dead**, and drops no
message. -/
theorem scanFd_spec (fd : ℤ) :
    ((scanFd cfg s fd (ctl fd)).2 = true ↔ Dead s ctl fd) ∧
      (scanFd cfg s fd (ctl fd)).1.bak = s.bak := by
  by_cases hconn : HasConn s fd
  · obtain ⟨sock, hsock⟩ := id hconn
    by_cases hctl : CtlFails s ctl fd
    · rw [scanFd_failed hsock hctl, closeClient_eq]
      exact ⟨⟨fun _ => .inr hctl, fun _ => rfl⟩, rfl⟩
    · rw [scanFd_armed hsock hctl]
      refine ⟨⟨fun h => (by cases h), fun hdead => ?_⟩, rfl⟩
      rcases hdead with hnone | hfails
      · exact absurd hconn hnone
      · exact absurd hfails hctl
  · obtain ⟨hlisted, hbak⟩ := scanFd_missing cfg hconn (ctl fd)
    exact ⟨⟨fun _ => .inl hconn, fun _ => hlisted⟩, hbak⟩

/-! ## All rounds -/

theorem mem_fds_of_visit {v : Sys × ℤ} (hv : v ∈ visits cfg ctl s fds) : v.2 ∈ fds := by
  induction fds generalizing s with
  | nil => cases hv
  | cons fd fds ih =>
    rcases List.mem_cons.mp hv with rfl | hv
    · exact List.mem_cons_self
    · exact List.mem_cons_of_mem _ (ih hv)

/-- The scan drops no message. -/
theorem scanAll_bak (s : Sys) (fds : List ℤ) : (scanAll cfg ctl s fds).1.bak = s.bak := by
  induction fds generalizing s with
  | nil => rfl
  | cons fd fds ih =>
    rw [scanAll]
    exact (ih _).trans (scanFd_spec cfg s ctl fd).2

/-- **`m_delsendfdlist` after the scan**: the descriptors of the rounds
that found them dead. -/
theorem mem_scanAll_iff {k : ℤ} :
    k ∈ (scanAll cfg ctl s fds).2 ↔ ∃ v ∈ visits cfg ctl s fds, v.2 = k ∧ Dead v.1 ctl v.2 := by
  induction fds generalizing s with
  | nil => simp [scanAll, visits]
  | cons fd fds ih =>
    have hspec := (scanFd_spec cfg s ctl fd).1
    simp only [scanAll, visits, List.mem_cons, exists_eq_or_imp, ← ih]
    by_cases hdead : Dead s ctl fd
    · rw [if_pos (hspec.mpr hdead), List.mem_cons]
      simp only [hdead, and_true, eq_comm]
    · rw [if_neg (fun h => hdead (hspec.mp h))]
      simp only [hdead, and_false, false_or]

/-- **What the deletions leave**: a list that is asked for is gone, unless
its descriptor is negative. -/
theorem deleteSendMsgs_lookup (s : Sys) (del : List ℤ) (k : ℤ) :
    (del.foldl deleteSendMsgFromSendMap s).bak.lookup k =
      if k ∈ del ∧ 0 ≤ k then none else s.bak.lookup k := by
  induction del generalizing s with
  | nil => simp
  | cons fd del ih =>
    have hone : (deleteSendMsgFromSendMap s fd).bak.lookup k =
        if k = fd ∧ 0 ≤ k then none else s.bak.lookup k := by
      unfold deleteSendMsgFromSendMap
      by_cases hneg : fd < 0
      · rw [if_pos hneg, if_neg (by omega)]
      · rw [if_neg hneg]
        by_cases hk : k = fd
        · subst hk
          rw [if_pos ⟨rfl, by omega⟩]
          rcases hl : s.bak.lookup k with _ | _ | lst
          · exact hl
          · exact AList.lookup_erase k _
          · exact AList.lookup_erase k _
        · rw [if_neg (fun h => hk h.1)]
          rcases s.bak.lookup fd with _ | _ | lst
          · rfl
          · exact AList.lookup_erase_ne hk
          · exact AList.lookup_erase_ne hk
    rw [List.foldl_cons, ih, hone]
    by_cases hdel : k ∈ del ∧ 0 ≤ k
    · rw [if_pos hdel, if_pos ⟨List.mem_cons_of_mem _ hdel.1, hdel.2⟩]
    · rw [if_neg hdel]
      by_cases hk : k = fd ∧ 0 ≤ k
      · rw [if_pos hk, if_pos ⟨List.mem_cons.mpr (.inl hk.1), hk.2⟩]
      · rw [if_neg hk, if_neg]
        rintro ⟨hmem, hpos⟩
        rcases List.mem_cons.mp hmem with rfl | hmem
        · exact hk ⟨rfl, hpos⟩
        · exact hdel ⟨hmem, hpos⟩

theorem sendScan_lookup (k : ℤ) :
    (sendScan cfg s ctl).bak.lookup k =
      if k ∈ (scanAll cfg ctl s s.bak.ascendingKeys).2 ∧ 0 ≤ k then none else s.bak.lookup k := by
  rw [sendScan, deleteSendMsgs_lookup, scanAll_bak]

/-- **The scan is safe where every round is**: it finds a connection, and a
descriptor that `epoll_ctl` fails for is not negative. -/
theorem dropsSafely_iff_visits : DropsSafely cfg s ctl ↔
    ∀ v ∈ visits cfg ctl s s.bak.ascendingKeys,
      HasConn v.1 v.2 ∧ (CtlFails v.1 ctl v.2 → 0 ≤ v.2) := by
  constructor
  · intro hsafe v hv
    have hconn := (scanDerefs_valid_iff _).mp (hsafe.reads v hv)
    refine ⟨hconn, fun hctl => ?_⟩
    by_contra hneg
    have hgone := hsafe.deleted v hv (.inr hctl)
    rw [sendScan_lookup, if_neg fun hboth => hneg hboth.2] at hgone
    exact AList.lookup_eq_none.mp hgone (IntMap.mem_ascendingKeys.mp (mem_fds_of_visit hv))
  · intro hall
    refine ⟨fun v hv => (scanDerefs_valid_iff _).mpr (hall v hv).1, fun v hv hdead => ?_,
      fun k hk => ?_⟩
    · rw [sendScan_lookup, if_pos]
      refine ⟨mem_scanAll_iff.mpr ⟨v, hv, rfl, hdead⟩, ?_⟩
      rcases hdead with hnone | hctl
      · exact absurd (hall v hv).1 hnone
      · exact (hall v hv).2 hctl
    · rw [sendScan_lookup, if_neg]
      rintro ⟨hmem, -⟩
      obtain ⟨v, hv, hvk, hdead⟩ := mem_scanAll_iff.mp hmem
      exact hk v hv hvk hdead

/-! ## The condition, before the scan -/

variable (cfg) in
/-- What a round leaves of a descriptor other than the one it closes. -/
theorem scanFd_other {sock : SocketSet} {k : ℤ}
    (hsock : s.socketmap.lookup fd = some (some sock))
    (hne : CtlFails s ctl fd → sock.key.fdkey ≠ k) :
    (scanFd cfg s fd (ctl fd)).1.socketmap.lookup k = s.socketmap.lookup k ∧
      (CtlFails (scanFd cfg s fd (ctl fd)).1 ctl k ↔ CtlFails s ctl k) := by
  by_cases hctl : CtlFails s ctl fd
  · rw [scanFd_failed hsock hctl, closeClient_eq]
    have hk := hne hctl
    unfold CtlFails
    constructor
    · dsimp only
      split
      · rfl
      · exact AList.lookup_erase_ne (Ne.symm hk)
    · dsimp only
      split
      · rfl
      · rw [AList.mem_erase]
        simp only [Ne.symm hk, ne_eq, not_false_eq_true, true_and]
  · rw [scanFd_armed hsock hctl]
    refine ⟨rfl, ?_⟩
    unfold CtlFails at hctl ⊢
    rw [not_not] at hctl
    simp only [AList.mem_insert]
    by_cases hk : k = fd
    · subst hk
      simp only [hctl.2, or_true]
    · simp only [hk, false_or]

/-- A connection that is there after a round was there before it, and it is
not the one the round closed. -/
theorem conn_of_scanFd {sock x : SocketSet} {k : ℤ} (hk : 0 ≤ k)
    (hsock : s.socketmap.lookup fd = some (some sock))
    (hx : (scanFd cfg s fd (ctl fd)).1.socketmap.lookup k = some (some x)) :
    CtlFails s ctl fd → sock.key.fdkey ≠ k := by
  rintro hctl rfl
  rw [scanFd_failed hsock hctl, closeClient_eq] at hx
  dsimp only at hx
  rw [if_neg (by omega), AList.lookup_erase] at hx
  cases hx

/-- **Every round finds what it needs** exactly where that is there before
the scan, and no round closes what a later one needs. -/
theorem visits_iff_scanReady (hsorted : fds.Pairwise (· < ·)) :
    (∀ v ∈ visits cfg ctl s fds, HasConn v.1 v.2 ∧ (CtlFails v.1 ctl v.2 → 0 ≤ v.2)) ↔
      ScanReady s ctl fds := by
  induction fds generalizing s with
  | nil => simp [visits, ScanReady]
  | cons fd fds ih =>
    obtain ⟨hlt, hsorted'⟩ := List.pairwise_cons.mp hsorted
    rw [visits, List.forall_mem_cons, ih hsorted']
    constructor
    · rintro ⟨⟨⟨sock, hsock⟩, hneg⟩, hready⟩ k hk
      rcases List.mem_cons.mp hk with rfl | hk
      · refine ⟨sock, hsock, fun hctl => ⟨hneg hctl, fun k' hk' hkk' => ?_⟩⟩
        have hmem : k' ∈ fds := (List.mem_cons.mp hk').resolve_left (ne_of_gt hkk')
        obtain ⟨x, hx, -⟩ := hready k' hmem
        have hpos := hneg hctl
        exact conn_of_scanFd (by omega) hsock hx hctl
      · obtain ⟨x, hx, hlater⟩ := hready k hk
        have hfdk := hlt k hk
        have hne : CtlFails s ctl fd → sock.key.fdkey ≠ k := fun hctl => by
          have hpos := hneg hctl
          exact conn_of_scanFd (by omega) hsock hx hctl
        obtain ⟨hlookup, hfails⟩ := scanFd_other cfg hsock hne
        refine ⟨x, hlookup.symm.trans hx, fun hctl => ?_⟩
        obtain ⟨hpos, hfar⟩ := hlater (hfails.mpr hctl)
        refine ⟨hpos, fun k' hk' hkk' => hfar k' ?_ hkk'⟩
        exact (List.mem_cons.mp hk').resolve_left (by omega)
    · intro hready
      obtain ⟨sock, hsock, hfirst⟩ := hready fd List.mem_cons_self
      refine ⟨⟨⟨sock, hsock⟩, fun hctl => (hfirst hctl).1⟩, fun k hk => ?_⟩
      obtain ⟨x, hx, hlater⟩ := hready k (List.mem_cons_of_mem _ hk)
      have hne : CtlFails s ctl fd → sock.key.fdkey ≠ k := fun hctl =>
        (hfirst hctl).2 k (List.mem_cons_of_mem _ hk) (hlt k hk)
      obtain ⟨hlookup, hfails⟩ := scanFd_other cfg hsock hne
      refine ⟨x, hlookup.trans hx, fun hctl => ?_⟩
      obtain ⟨hpos, hfar⟩ := hlater (hfails.mp hctl)
      exact ⟨hpos, fun k' hk' => hfar k' (List.mem_cons_of_mem _ hk')⟩

/-- **When the scan drops messages safely**: every descriptor in the backup
map has a connection, and one that `epoll_ctl` fails for is not negative
and its connection's key names no later descriptor of the map. -/
theorem dropsSafely_iff (cfg : Config) (s : Sys) (ctl : ℤ → Bool) :
    DropsSafely cfg s ctl ↔
      ∀ fd ∈ s.bak, ∃ sock, s.socketmap.lookup fd = some (some sock) ∧
        (CtlFails s ctl fd → 0 ≤ fd ∧ ∀ fd' ∈ s.bak, fd < fd' → sock.key.fdkey ≠ fd') := by
  rw [dropsSafely_iff_visits, visits_iff_scanReady (IntMap.pairwise_ascendingKeys s.bak)]
  simp only [ScanReady, IntMap.mem_ascendingKeys]

/-- In a run a connection stands under its own descriptor, and what is left
of the condition is that each descriptor has one. -/
theorem dropsSafely_iff_of_reachable {now : ℤ} (h : (server cfg now).Reachable s) :
    DropsSafely cfg s ctl ↔ ∀ fd ∈ s.bak, HasConn s fd := by
  have hwf := Wf.reachable h
  constructor
  · intro hsafe fd hfd
    obtain ⟨sock, hsock, -⟩ := (dropsSafely_iff cfg s ctl).mp hsafe fd hfd
    exact ⟨sock, hsock⟩
  · intro hall
    refine (dropsSafely_iff cfg s ctl).mpr fun fd hfd => ?_
    obtain ⟨sock, hsock⟩ := hall fd hfd
    obtain ⟨hkey, hpos, -⟩ := hwf.conn hsock
    refine ⟨sock, hsock, fun _ => ⟨hpos, fun fd' _ hlt => ?_⟩⟩
    rw [hkey]
    exact ne_of_lt hlt

/-- A descriptor has a message and no connection: the worker answered after
the connection was closed. -/
def lostReply : List Action :=
  acceptRound 7 ++ [.addMsg (reply 7 2 [1]), .createCloseConnectEvent 7 2, .flush, .sysEvent,
    .sysEvent, .switchSendMap]

/-- **A message to a connection that is gone is not dropped safely.** -/
theorem not_dropsSafely_lost :
    ¬ ∀ (cfg : Config) (now : ℤ) (s : Sys) (ctl : ℤ → Bool), (server cfg now).Reachable s →
      DropsSafely cfg s ctl := by
  intro hall
  have hrun : ∃ s, (server smallConfig 0).Reachable s ∧
      (s.bak.ascendingKeys = [7] ∧ s.socketmap.lookup 7 = none) :=
    Machine.exists_reach_of_exec lostReply (by decide)
  obtain ⟨s, hs, hkeys, hnone⟩ := hrun
  have hvisit : (s, 7) ∈ visits smallConfig (fun _ => true) s s.bak.ascendingKeys := by
    rw [hkeys]
    exact List.mem_cons_self
  have hreads := (hall smallConfig 0 s (fun _ => true) hs).reads (s, 7) hvisit
  obtain ⟨sock, hsock⟩ := (scanDerefs_valid_iff true).mp hreads
  rw [hnone] at hsock
  cases hsock

/-! ## The scan as steps of the machine -/

theorem closeClient_goto (fd conntime : ℤ) (pc : Pc) :
    closeClient cfg (s.goto pc) fd conntime = (closeClient cfg s fd conntime).goto pc := by
  rw [closeClient_eq, closeClient_eq]
  rfl

theorem scanFd_goto (fd : ℤ) (ctlOk : Bool) (pc : Pc) :
    scanFd cfg (s.goto pc) fd ctlOk =
      ((scanFd cfg s fd ctlOk).1.goto pc, (scanFd cfg s fd ctlOk).2) := by
  have hmap : (s.goto pc).socketmap = s.socketmap := rfl
  unfold scanFd
  rw [hmap]
  split
  · rfl
  · rfl
  · rename_i sock hsock
    have hset : (s.goto pc).epollset = s.epollset := rfl
    unfold epollMod
    rw [hset]
    by_cases hctl : ctlOk = true ∧ fd ∈ s.epollset
    · simp only [if_pos hctl]
      rfl
    · simp only [if_neg hctl, closeClient_goto]

theorem deleteSendMsgs_goto (s : Sys) (del : List ℤ) (pc : Pc) :
    del.foldl deleteSendMsgFromSendMap (s.goto pc) =
      (del.foldl deleteSendMsgFromSendMap s).goto pc := by
  induction del generalizing s with
  | nil => rfl
  | cons fd del ih =>
    have hone : deleteSendMsgFromSendMap (s.goto pc) fd =
        (deleteSendMsgFromSendMap s fd).goto pc := by
      unfold deleteSendMsgFromSendMap
      have hbak : (s.goto pc).bak = s.bak := rfl
      rw [hbak]
      split
      · rfl
      · split <;> rfl
    rw [List.foldl_cons, hone, ih, List.foldl_cons]

/-- **The scan, as the machine takes it**, from any of its rounds on. -/
theorem scanAll_steps {now : ℤ} (s : Sys) (fds del : List ℤ) :
    (server cfg now).exec (fun _ _ => True) (s.goto (.scan fds del))
        (fds.map (fun fd => .scan (ctl fd)) ++ [.scanEnd]) =
      some (((del ++ (scanAll cfg ctl s fds).2).foldl deleteSendMsgFromSendMap
        (scanAll cfg ctl s fds).1).goto .keepalive) := by
  induction fds generalizing s del with
  | nil =>
    simp only [List.map_nil, List.nil_append, Machine.exec, if_true, server, next, Sys.goto_pc,
      Option.bind_some, scanAll, List.append_nil, deleteSendMsgs_goto]
    rfl
  | cons fd fds ih =>
    have hnext : next cfg (s.goto (.scan (fd :: fds) del)) (.scan (ctl fd)) =
        some ((scanFd cfg s fd (ctl fd)).1.goto
          (.scan fds (if (scanFd cfg s fd (ctl fd)).2 then del ++ [fd] else del))) := by
      simp only [next, Sys.goto_pc, scanFd_goto]
      rfl
    rw [List.map_cons, List.cons_append]
    refine (Machine.exec_cons _ trivial hnext).trans ((ih _ _).trans ?_)
    rw [scanAll]
    split
    · rw [List.append_assoc, List.singleton_append]
    · rfl

/-- So the whole of it is `sendScan`. -/
theorem sendScan_steps {now : ℤ} (s : Sys) :
    (server cfg now).exec (fun _ _ => True) (s.goto (.scan s.bak.ascendingKeys []))
        (s.bak.ascendingKeys.map (fun fd => .scan (ctl fd)) ++ [.scanEnd]) =
      some ((sendScan cfg s ctl).goto .keepalive) :=
  scanAll_steps s s.bak.ascendingKeys []

end Epoll

end EupuServer
