import EupuServer.Epoll.SendScan
/-!
# The keepalive sweep

`doKeepaliveTimeout` collects the descriptors of the connections that were
silent too long, and in a second loop closes them one by one, looking each
up again in the map that the closing before it has changed. `Sweeps` is
what closing a list of connections comes to; a round adds one connection
to the front of the list.
-/

namespace EupuServer

namespace Epoll

open Network Protocol

variable (cfg : Config) (s : Sys)

/-- The second loop of `doKeepaliveTimeout`, and its calls of `close` in
order. -/
def sweepCalls : Sys → List ℤ → Sys × List ℤ
  | s, [] => (s, [])
  | s, fd :: fds =>
    let round := sweepFdCalls cfg s fd
    let r := sweepCalls round.1 fds
    (r.1, round.2 ++ r.2)

/-- `doKeepaliveTimeout`, and its calls of `close`. It reads the clock at its
begin and its end. -/
def doKeepaliveTimeoutCalls (curtime endtime : ℤ) : Sys × List ℤ :=
  if curtime - s.checkkeepalivetime < cfg.keepaliveinterval then (s, [])
  else
    let r := sweepCalls cfg s (timedOut cfg s curtime)
    ({ r.1 with checkkeepalivetime := endtime }, r.2)

/-- `doKeepaliveTimeout`. -/
def doKeepaliveTimeout (curtime endtime : ℤ) : Sys :=
  (doKeepaliveTimeoutCalls cfg s curtime endtime).1

/-- A connection was silent too long. -/
def Expired (curtime : ℤ) (sock : SocketSet) : Prop :=
  sock.refreshTime + cfg.keepalivetimeout < curtime

/-- An entry of the map is no null pointer, and stands under its own
descriptor. -/
def KeyedMap : Prop :=
  ∀ fd v, s.socketmap.lookup fd = some v → ∃ sock, v = some sock ∧ sock.key.fdkey = fd ∧ 0 ≤ fd

/-- The descriptors of connections. -/
def fdsOf (conns : List SocketSet) : List ℤ := conns.map fun x => x.key.fdkey

/-- A key that was reset. -/
def resetKey (k : ServerKey) (ntype : ℤ) : ServerKey := k.assign (-1) 0 "" 0 ntype 0 false

/-- **What closing the connections `conns` comes to.** -/
structure Sweeps (s s' : Sys) (conns : List SocketSet) : Prop where
  map : ∀ fd, s'.socketmap.lookup fd = if fd ∈ fdsOf conns then none else s.socketmap.lookup fd
  msgs : s'.recvtmplst = s.recvtmplst ++ conns.map fun x => NetData.ofSocket x (closeBytes x)
  fds : s'.openfds = s.openfds \ (fdsOf conns).toFinset
  keys : ∀ t, IsServerType t → s'.keys.ofType t =
    if ∃ x ∈ conns, x.type = t then (s.keys.ofType t).map fun k => resetKey k t
    else s.keys.ofType t

variable {cfg s} {s' s'' : Sys} {conns : List SocketSet} {curtime : ℤ}

/-- The key of a server after the connection `x` is closed. -/
theorem closeKeys_ofType {x : SocketSet} (hclosing : closing s x.key.fdkey = some x) {t : ℤ}
    (ht : IsServerType t) : (closeKeys s x.key.fdkey).ofType t =
      if x.type = t then (s.keys.ofType t).map fun k => resetKey k t else s.keys.ofType t := by
  rw [closeKeys, hclosing]
  by_cases htype : x.type = t
  · have hserver : x.type > clientType := by
      rw [htype]
      exact clientType_lt_of_isServerType ht
    simp only
    rw [if_pos htype, if_pos hserver, ofType_setServerSocket, htype, if_pos rfl]
    rfl
  · rw [if_neg htype]
    by_cases hserver : x.type > clientType
    · simp only [if_pos hserver, ofType_setServerSocket, if_neg (Ne.symm htype)]
    · simp only [if_neg hserver]

namespace Sweeps

/-- Closing nothing. -/
theorem refl : Sweeps s s [] where
  map fd := by simp [fdsOf]
  msgs := by simp
  fds := by simp [fdsOf]
  keys t _ := by simp

/-- **One more in front.** -/
theorem cons {x : SocketSet} (hx : s.socketmap.lookup x.key.fdkey = some (some x))
    (hfd : 0 ≤ x.key.fdkey) {conntime : ℤ}
    (h : Sweeps (closeClient cfg s x.key.fdkey conntime) s'' conns) :
    Sweeps s s'' (x :: conns) := by
  have hneg : ¬ x.key.fdkey < 0 := by omega
  have hclosing : closing s x.key.fdkey = some x := by
    rw [closing, if_neg hneg, hx]
    rfl
  obtain ⟨hmap, hmsgs, hfds, hkeys⟩ := h
  simp only [closeClient_eq, if_neg hneg] at hmap hmsgs hfds hkeys
  have hcons : fdsOf (x :: conns) = x.key.fdkey :: fdsOf conns := rfl
  refine ⟨fun fd => ?_, ?_, ?_, fun t ht => ?_⟩
  · rw [hmap, hcons, IntMap.lookup_erase_eq]
    by_cases hrest : fd ∈ fdsOf conns
    · rw [if_pos hrest, if_pos (List.mem_cons_of_mem _ hrest)]
    · rw [if_neg hrest]
      by_cases heq : fd = x.key.fdkey
      · rw [if_pos heq, if_pos (heq ▸ List.mem_cons_self)]
      · rw [if_neg heq, if_neg]
        intro hmem
        exact (List.mem_cons.mp hmem).elim heq hrest
  · rw [hmsgs, closeMsgs, hclosing]
    simp
  · rw [hfds, hcons]
    ext fd
    simp only [Finset.mem_sdiff, Finset.mem_erase, List.toFinset_cons, Finset.mem_insert]
    tauto
  · rw [hkeys t ht, closeKeys_ofType hclosing ht]
    have hagain : (fun k => resetKey k t) ∘ (fun k => resetKey k t) = fun k => resetKey k t := rfl
    by_cases hrest : ∃ y ∈ conns, y.type = t
    · obtain ⟨y, hy, hty⟩ := id hrest
      have hall : ∃ y ∈ x :: conns, y.type = t := ⟨y, List.mem_cons_of_mem _ hy, hty⟩
      rw [if_pos hrest, if_pos hall]
      split
      · rw [Option.map_map, hagain]
      · rfl
    · rw [if_neg hrest]
      by_cases htype : x.type = t
      · have hall : ∃ y ∈ x :: conns, y.type = t := ⟨x, List.mem_cons_self, htype⟩
        rw [if_pos htype, if_pos hall]
      · rw [if_neg htype, if_neg]
        rintro ⟨y, hy, hty⟩
        rcases List.mem_cons.mp hy with rfl | hy
        · exact htype hty
        · exact hrest ⟨y, hy, hty⟩

end Sweeps

/-! ## The two loops -/

variable (cfg) in
/-- **The second loop closes the connections it was given**, each once, and
finds every one of them in the map. -/
theorem sweep_sweeps (hnodup : (fdsOf conns).Nodup)
    (hconns : ∀ x ∈ conns, s.socketmap.lookup x.key.fdkey = some (some x) ∧ 0 ≤ x.key.fdkey) :
    Sweeps s (sweepCalls cfg s (fdsOf conns)).1 conns ∧
      (sweepCalls cfg s (fdsOf conns)).2 = fdsOf conns := by
  induction conns generalizing s with
  | nil => exact ⟨.refl, rfl⟩
  | cons x conns ih =>
    obtain ⟨hx, hfd⟩ := hconns x List.mem_cons_self
    obtain ⟨hnotin, hnodup'⟩ := List.nodup_cons.mp hnodup
    have hround : sweepFdCalls cfg s x.key.fdkey =
        closeClientCalls cfg s x.key.fdkey x.key.connectTime := by
      simp only [sweepFdCalls, hx]
    have hclose : (closeClientCalls cfg s x.key.fdkey x.key.connectTime).2 = [x.key.fdkey] := by
      rw [closeClientCalls_snd, if_neg (by omega)]
    have hcons : fdsOf (x :: conns) = x.key.fdkey :: fdsOf conns := rfl
    -- the closing leaves the connections that are still to come
    have hleft : ∀ y ∈ conns,
        (closeClient cfg s x.key.fdkey x.key.connectTime).socketmap.lookup y.key.fdkey =
          some (some y) ∧ 0 ≤ y.key.fdkey := by
      intro y hy
      obtain ⟨hlookup, hpos⟩ := hconns y (List.mem_cons_of_mem _ hy)
      have hne : y.key.fdkey ≠ x.key.fdkey := by
        intro heq
        exact hnotin (List.mem_map.mpr ⟨y, hy, heq⟩)
      rw [closeClient_eq]
      dsimp only
      rw [if_neg (by omega), AList.lookup_erase_ne hne]
      exact ⟨hlookup, hpos⟩
    obtain ⟨hsweeps, hcloses⟩ := ih hnodup' hleft
    rw [hcons, sweepCalls, hround, hclose]
    exact ⟨hsweeps.cons hx hfd, congrArg (x.key.fdkey :: ·) hcloses⟩

/-- The second loop, one round after the other. -/
theorem sweepCalls_fst (s : Sys) (fds : List ℤ) :
    (sweepCalls cfg s fds).1 = fds.foldl (sweepFd cfg) s := by
  induction fds generalizing s with
  | nil => rfl
  | cons fd fds ih => exact ih (sweepFd cfg s fd)

/-- Entries under their own descriptors, and their connections. -/
theorem fdsOf_filterMap {es : List (Σ _ : ℤ, Option SocketSet)}
    (hes : ∀ e ∈ es, ∃ sock, e.2 = some sock ∧ sock.key.fdkey = e.1) :
    fdsOf (es.filterMap Sigma.snd) = es.map Sigma.fst := by
  induction es with
  | nil => rfl
  | cons e es ih =>
    obtain ⟨sock, hsock, hfd⟩ := hes e List.mem_cons_self
    rw [List.filterMap_cons_some hsock, List.map_cons, ← hfd,
      ← ih fun e' he' => hes e' (List.mem_cons_of_mem _ he')]
    rfl

variable (cfg) in
/-- **The first loop collects the expired connections**, each once. -/
theorem timedOut_eq (hkeyed : KeyedMap s) (curtime : ℤ) :
    ∃ conns, timedOut cfg s curtime = fdsOf conns ∧ (fdsOf conns).Nodup ∧
      ∀ x, x ∈ conns ↔
        s.socketmap.lookup x.key.fdkey = some (some x) ∧ Expired cfg curtime x := by
  have hentry : ∀ e ∈ s.socketmap.entries, ∃ sock, e.2 = some sock ∧ sock.key.fdkey = e.1 := by
    intro e he
    obtain ⟨sock, hsock, hfd, -⟩ := hkeyed e.1 e.2 (AList.mem_lookup_iff.mpr he)
    exact ⟨sock, hsock, hfd⟩
  -- the first loop keeps the entries that pass its test
  obtain ⟨late, hlate, htest⟩ : ∃ late : (Σ _ : ℤ, Option SocketSet) → Bool,
      timedOut cfg s curtime = (s.socketmap.entries.filter late).map Sigma.fst ∧
        ∀ fd x, late ⟨fd, some x⟩ = decide (x.refreshTime + cfg.keepalivetimeout < curtime) :=
    ⟨_, rfl, fun _ _ => rfl⟩
  have hfds : fdsOf ((s.socketmap.entries.filter late).filterMap Sigma.snd) =
      timedOut cfg s curtime := by
    rw [hlate]
    exact fdsOf_filterMap fun e he => hentry e (List.mem_filter.mp he).1
  refine ⟨_, hfds.symm, ?_, fun x => ?_⟩
  · rw [hfds, hlate]
    exact List.Nodup.sublist (List.filter_sublist.map _) s.socketmap.keys_nodup
  · rw [List.mem_filterMap]
    constructor
    · rintro ⟨⟨fd, v⟩, he, hx⟩
      obtain ⟨hmem, hpass⟩ := List.mem_filter.mp he
      obtain ⟨sock, hsock, hfd⟩ := hentry ⟨fd, v⟩ hmem
      dsimp only at hx hsock hfd
      subst hx
      cases hsock
      rw [htest, decide_eq_true_eq] at hpass
      subst hfd
      exact ⟨AList.mem_lookup_iff.mpr hmem, hpass⟩
    · rintro ⟨hlookup, hexpired⟩
      refine ⟨⟨x.key.fdkey, some x⟩, List.mem_filter.mpr ⟨AList.mem_lookup_iff.mp hlookup, ?_⟩, rfl⟩
      rw [htest]
      exact decide_eq_true hexpired

/-- **What a sweep of the expired connections leaves**: every connection
that is not expired, as it was. -/
theorem Sweeps.lookup_iff (hkeyed : KeyedMap s)
    (hmem : ∀ x, x ∈ conns ↔
      s.socketmap.lookup x.key.fdkey = some (some x) ∧ Expired cfg curtime x)
    (hsweeps : Sweeps s s' conns) (fd : ℤ) (x : SocketSet) :
    s'.socketmap.lookup fd = some (some x) ↔
      s.socketmap.lookup fd = some (some x) ∧
        x.refreshTime + cfg.keepalivetimeout ≥ curtime := by
  rw [hsweeps.map]
  constructor
  · intro hleft
    split at hleft
    · cases hleft
    · rename_i hnotin
      refine ⟨hleft, ?_⟩
      by_contra hlate
      obtain ⟨sock, hsock, hfd, -⟩ := hkeyed fd _ hleft
      cases hsock
      refine hnotin (List.mem_map.mpr ⟨x, (hmem x).mpr ⟨?_, ?_⟩, hfd⟩)
      · rw [hfd]
        exact hleft
      · unfold Expired
        omega
  · rintro ⟨hbefore, hfresh⟩
    rw [if_neg, hbefore]
    intro hin
    obtain ⟨y, hy, hyfd⟩ := List.mem_map.mp hin
    obtain ⟨hlookup, hexpired⟩ := (hmem y).mp hy
    have heq : y = x := by
      refine IntMap.eq_of_lookup hlookup ?_
      rw [hyfd]
      exact hbefore
    unfold Expired at hexpired
    rw [heq] at hexpired
    omega

/-- And no entry without a connection. -/
theorem Sweeps.lookup_ne_null (hkeyed : KeyedMap s) (hsweeps : Sweeps s s' conns) (fd : ℤ) :
    s'.socketmap.lookup fd ≠ some none := by
  intro hnull
  rw [hsweeps.map] at hnull
  split at hnull
  · cases hnull
  · obtain ⟨sock, hsock, -⟩ := hkeyed fd none hnull
    cases hsock

/-- **What the keepalive sweep does.** Where it is due, it removes the
expired connections and no other: what stays in the map is unchanged, each
removed connection gets one message and one `close` of its descriptor, and
the keys that are reset are those of the removed servers. Where it is not
due, it does nothing. -/
theorem doKeepaliveTimeout_sweeps (hkeyed : KeyedMap s) (curtime endtime : ℤ) :
    (cfg.keepaliveinterval ≤ curtime - s.checkkeepalivetime →
      (∀ fd x, (doKeepaliveTimeout cfg s curtime endtime).socketmap.lookup fd = some (some x) ↔
        s.socketmap.lookup fd = some (some x) ∧
          x.refreshTime + cfg.keepalivetimeout ≥ curtime) ∧
      (∀ fd, (doKeepaliveTimeout cfg s curtime endtime).socketmap.lookup fd ≠ some none) ∧
      ∃ conns, (fdsOf conns).Nodup ∧
        (∀ x, x ∈ conns ↔
          s.socketmap.lookup x.key.fdkey = some (some x) ∧ Expired cfg curtime x) ∧
        Sweeps s (doKeepaliveTimeout cfg s curtime endtime) conns ∧
        (doKeepaliveTimeoutCalls cfg s curtime endtime).2 = fdsOf conns) ∧
    (¬ cfg.keepaliveinterval ≤ curtime - s.checkkeepalivetime →
      doKeepaliveTimeout cfg s curtime endtime = s ∧
        (doKeepaliveTimeoutCalls cfg s curtime endtime).2 = []) := by
  constructor
  · intro hdue
    have hnot : ¬ curtime - s.checkkeepalivetime < cfg.keepaliveinterval := by omega
    obtain ⟨conns, htimed, hnodup, hmem⟩ := timedOut_eq cfg hkeyed curtime
    have hpos : ∀ x ∈ conns, s.socketmap.lookup x.key.fdkey = some (some x) ∧ 0 ≤ x.key.fdkey := by
      intro x hx
      have hlookup := ((hmem x).mp hx).1
      obtain ⟨sock, -, -, hfd⟩ := hkeyed _ _ hlookup
      exact ⟨hlookup, hfd⟩
    obtain ⟨⟨hmap, hmsgs, hfds, hkeys⟩, hcloses⟩ := sweep_sweeps cfg hnodup hpos
    have hsweeps : Sweeps s (doKeepaliveTimeout cfg s curtime endtime) conns := by
      rw [doKeepaliveTimeout, doKeepaliveTimeoutCalls, if_neg hnot, htimed]
      exact ⟨hmap, hmsgs, hfds, hkeys⟩
    refine ⟨hsweeps.lookup_iff hkeyed hmem, hsweeps.lookup_ne_null hkeyed, conns, hnodup, hmem,
      hsweeps, ?_⟩
    rw [doKeepaliveTimeoutCalls, if_neg hnot, htimed, hcloses]
  · intro hearly
    have hlt : curtime - s.checkkeepalivetime < cfg.keepaliveinterval := by omega
    rw [doKeepaliveTimeout, doKeepaliveTimeoutCalls, if_pos hlt]
    exact ⟨rfl, rfl⟩

/-- In a run every entry stands under its own descriptor. -/
theorem keyedMap_of_reachable {now : ℤ} (h : (server cfg now).Reachable s) : KeyedMap s := by
  intro fd v hv
  obtain ⟨sock, hsock, hfd, hpos, -⟩ := (Wf.reachable h).entry fd v hv
  exact ⟨sock, hsock, hfd, hpos⟩

/-- A client that was silent for a thousand seconds. -/
theorem doKeepaliveTimeout_sweeps_client :
    ∃ s, (server smallConfig 0).Reachable s ∧ (s.socketmap.lookup 7).isSome = true ∧
      ∃ conns, Sweeps s (doKeepaliveTimeout smallConfig s 1000 1000) conns ∧
        (doKeepaliveTimeoutCalls smallConfig s 1000 1000).2 = fdsOf conns := by
  have hrun : ∃ s, (server smallConfig 0).Reachable s ∧
      ((s.socketmap.lookup 7).isSome = true ∧ s.checkkeepalivetime = 0) :=
    Machine.exists_reach_of_exec (acceptRound 7) (by decide)
  obtain ⟨s, hs, hlive, hcheck⟩ := hrun
  have hdue : smallConfig.keepaliveinterval ≤ 1000 - s.checkkeepalivetime := by
    rw [hcheck]
    decide
  obtain ⟨-, -, conns, -, -, hsweeps, hcloses⟩ :=
    (doKeepaliveTimeout_sweeps (keyedMap_of_reachable hs) 1000 1000).1 hdue
  exact ⟨s, hs, hlive, conns, hsweeps, hcloses⟩

/-! ## The sweep as steps of the machine -/

theorem sweepFd_goto (fd : ℤ) (pc : Pc) :
    sweepFd cfg (s.goto pc) fd = (sweepFd cfg s fd).goto pc := by
  have hmap : (s.goto pc).socketmap = s.socketmap := rfl
  unfold sweepFd sweepFdCalls
  rw [hmap]
  split
  · rfl
  · rfl
  · exact closeClient_goto fd _ pc

/-- The second loop, as the machine takes it. -/
theorem sweep_steps {now : ℤ} (s : Sys) (fds : List ℤ) (endtime : ℤ) :
    (server cfg now).exec (fun _ _ => True) (s.goto (.sweep fds))
        (fds.map (fun _ => .sweep) ++ [.sweepEnd endtime]) =
      some ({ fds.foldl (sweepFd cfg) s with checkkeepalivetime := endtime }.goto
        .keepaliveSend) := by
  induction fds generalizing s with
  | nil => rfl
  | cons fd fds ih =>
    have hnext : next cfg (s.goto (.sweep (fd :: fds))) .sweep =
        some ((sweepFd cfg s fd).goto (.sweep fds)) := by
      simp only [next, Sys.goto_pc, sweepFd_goto]
      rfl
    rw [List.map_cons, List.cons_append]
    exact (Machine.exec_cons _ trivial hnext).trans (ih (sweepFd cfg s fd))

/-- **A sweep that is due is `doKeepaliveTimeout`.** -/
theorem doKeepaliveTimeout_steps {now : ℤ} (s : Sys) (endtime : ℤ)
    (hdue : cfg.keepaliveinterval ≤ curtime - s.checkkeepalivetime) :
    (server cfg now).exec (fun _ _ => True) (s.goto .keepalive)
        (.keepalive curtime :: ((timedOut cfg s curtime).map (fun _ => .sweep) ++
          [.sweepEnd endtime])) =
      some ((doKeepaliveTimeout cfg s curtime endtime).goto .keepaliveSend) := by
  have hnot : ¬ curtime - s.checkkeepalivetime < cfg.keepaliveinterval := by omega
  have hnext : next cfg (s.goto .keepalive) (.keepalive curtime) =
      some (s.goto (.sweep (timedOut cfg s curtime))) := by
    simp only [next, Sys.goto_pc]
    exact if_neg hnot
  refine (Machine.exec_cons _ trivial hnext).trans ?_
  refine (sweep_steps s (timedOut cfg s curtime) endtime).trans ?_
  rw [doKeepaliveTimeout, doKeepaliveTimeoutCalls, if_neg hnot, ← sweepCalls_fst]

end Epoll

end EupuServer
