import EupuServer.Epoll.Wf
import EupuServer.Network.RecvEnding
/-!
# The life of a connection

Towards the workers a connection is the sequence of its notifications: that
it is connected, its frames, that it is disconnected. Each step of the
server moves the life of each connection by turns (`Turn`): it is born with
the first notification, gets frames while it lives, and is closed with the
last one. What does not fit is `addClientToEpoll`, which comes after the
connection is announced: where it fails, or finds the descriptor still in
the socket map, a connection is lost without a word (`Turn.lost`). In the
runs in which that does not happen, notifications are brackets
(`lifecycle_of_reach`).
-/

namespace EupuServer

namespace Epoll

open Network Protocol

/-- The notification of connection `id` that is recorded. -/
def noticeOf (id : ℕ) : Record → Option Notice
  | .note i n => if i = id then some n else none
  | _ => none

/-- The notifications about connection `id`, in order. -/
def notices (id : ℕ) (hist : List Record) : List Notice := hist.filterMap (noticeOf id)

/-- Connection `id` was given its index. -/
def Known (s : Sys) (id : ℕ) : Prop := ∃ fd t l, .index id fd t l ∈ s.hist

/-- Connection `id` is in the socket map. -/
def Mapped (m : IntMap (Option SocketSet)) (id : ℕ) : Prop :=
  ∃ fd sock, m.lookup fd = some (some sock) ∧ sock.key.id = id

/-- The object of connection `id` exists: it is in the socket map, or about
to be added. -/
def Live (s : Sys) (id : ℕ) : Prop :=
  Mapped s.socketmap id ∨ ∃ sock, s.pc = .adding sock ∧ sock.key.id = id

/-- Only frames. -/
def Frames (ns : List Notice) : Prop := ∀ n ∈ ns, ∃ bs, n = .frame bs

/-- **The life of connection `id`.** It can only be lost where `strict` does
not hold. -/
inductive Life (strict : Prop) (id : ℕ) (s : Sys) : Prop
  | unborn (hknown : ¬ Known s id) (hlive : ¬ Live s id) (hnotices : notices id s.hist = [])
  | live (hknown : Known s id) (hlive : Live s id) (fs : List Notice) (hfs : Frames fs)
      (hnotices : notices id s.hist = .connected :: fs)
  | closed (hknown : Known s id) (hlive : ¬ Live s id) (fs : List Notice) (hfs : Frames fs)
      (hnotices : notices id s.hist = .connected :: (fs ++ [.disconnected]))
  | lost (hnot : ¬ strict) (hknown : Known s id) (hlive : ¬ Live s id) (fs : List Notice)
      (hfs : Frames fs) (hnotices : notices id s.hist = .connected :: fs)

/-- **A turn in the life of connection `id`.** It can only be lost where
`ok` does not hold. -/
inductive Turn (ok : Prop) (id : ℕ) (s s' : Sys) : Prop
  | same (hknown : Known s' id ↔ Known s id) (hlive : Live s' id ↔ Live s id)
      (hnotices : notices id s'.hist = notices id s.hist)
  | born (hknown : ¬ Known s id) (hknown' : Known s' id) (hlive : Live s' id)
      (hnotices : notices id s'.hist = notices id s.hist ++ [.connected])
  | frames (hknown : Known s' id ↔ Known s id) (hlive : Live s id) (hlive' : Live s' id)
      (fs : List Notice) (hfs : Frames fs) (hnotices : notices id s'.hist = notices id s.hist ++ fs)
  | closed (hknown : Known s' id ↔ Known s id) (hlive : Live s id) (hlive' : ¬ Live s' id)
      (hnotices : notices id s'.hist = notices id s.hist ++ [.disconnected])
  | lost (hnot : ¬ ok) (hknown : Known s' id ↔ Known s id) (hlive : Live s id)
      (hlive' : ¬ Live s' id) (hnotices : notices id s'.hist = notices id s.hist)

/-- Several turns. -/
abbrev Turns (ok : Prop) (id : ℕ) : Sys → Sys → Prop := Relation.ReflTransGen (Turn ok id)

variable {cfg : Config} {s s' : Sys} {a : Action} {ok strict : Prop} {id : ℕ}

/-! ## Turns keep the order of a life -/

/-- **A turn leads from life to life.** -/
theorem Turn.life (h : Turn ok id s s') (hok : strict → ok) (hlife : Life strict id s) :
    Life strict id s' := by
  cases h with
  | same hknown hlive hnotices =>
    rcases hlife with ⟨hk, hl, hn⟩ | ⟨hk, hl, fs, hfs, hn⟩ | ⟨hk, hl, fs, hfs, hn⟩ |
      ⟨hnot, hk, hl, fs, hfs, hn⟩
    · exact .unborn (hknown.not.mpr hk) (hlive.not.mpr hl) (hnotices.trans hn)
    · exact .live (hknown.mpr hk) (hlive.mpr hl) fs hfs (hnotices.trans hn)
    · exact .closed (hknown.mpr hk) (hlive.not.mpr hl) fs hfs (hnotices.trans hn)
    · exact .lost hnot (hknown.mpr hk) (hlive.not.mpr hl) fs hfs (hnotices.trans hn)
  | born hknown hknown' hlive hnotices =>
    rcases hlife with ⟨-, -, hn⟩ | ⟨hk, -⟩ | ⟨hk, -⟩ | ⟨-, hk, -⟩
    · refine .live hknown' hlive [] (by simp [Frames]) ?_
      rw [hnotices, hn]
      rfl
    · exact absurd hk hknown
    · exact absurd hk hknown
    · exact absurd hk hknown
  | frames hknown hlive hlive' gs hgs hnotices =>
    rcases hlife with ⟨-, hl, -⟩ | ⟨hk, -, fs, hfs, hn⟩ | ⟨-, hl, -⟩ | ⟨-, -, hl, -⟩
    · exact absurd hlive hl
    · refine .live (hknown.mpr hk) hlive' (fs ++ gs) ?_ ?_
      · intro n hn
        exact (List.mem_append.mp hn).elim (hfs n) (hgs n)
      · rw [hnotices, hn]
        rfl
    · exact absurd hlive hl
    · exact absurd hlive hl
  | closed hknown hlive hlive' hnotices =>
    rcases hlife with ⟨-, hl, -⟩ | ⟨hk, -, fs, hfs, hn⟩ | ⟨-, hl, -⟩ | ⟨-, -, hl, -⟩
    · exact absurd hlive hl
    · refine .closed (hknown.mpr hk) hlive' fs hfs ?_
      rw [hnotices, hn]
      rfl
    · exact absurd hlive hl
    · exact absurd hlive hl
  | lost hnot hknown hlive hlive' hnotices =>
    rcases hlife with ⟨-, hl, -⟩ | ⟨hk, -, fs, hfs, hn⟩ | ⟨-, hl, -⟩ | ⟨-, -, hl, -⟩
    · exact absurd hlive hl
    · exact .lost (fun h => hnot (hok h)) (hknown.mpr hk) hlive' fs hfs (hnotices.trans hn)
    · exact absurd hlive hl
    · exact absurd hlive hl

theorem Turns.life (h : Turns ok id s s') (hok : strict → ok) (hlife : Life strict id s) :
    Life strict id s' := by
  induction h with
  | refl => exact hlife
  | tail _ hturn ih => exact hturn.life hok ih

/-! ## The turns of the handlers -/

theorem notices_append (h h' : List Record) :
    notices id (h ++ h') = notices id h ++ notices id h' := List.filterMap_append

theorem notices_of_recs {recs : List Record} (hhist : s'.hist = s.hist ++ recs)
    (hrecs : ∀ n, .note id n ∉ recs) : notices id s'.hist = notices id s.hist := by
  have hnil : notices id recs = [] := by
    refine List.filterMap_eq_nil_iff.mpr ?_
    intro r hr
    unfold noticeOf
    split
    · refine if_neg ?_
      rintro rfl
      exact hrecs _ hr
    · rfl
  rw [hhist, notices_append, hnil, List.append_nil]

theorem Shrinks.known_iff (h : Shrinks s s') : Known s' id ↔ Known s id := by
  unfold Known
  simp only [h.index]

/-- A life goes on where the map and the notifications are as they were. -/
theorem Turn.of_eq (hmap : s'.socketmap = s.socketmap) (hadd : ∀ sock, s'.pc = .adding sock ↔
      s.pc = .adding sock) {recs : List Record} (hhist : s'.hist = s.hist ++ recs)
    (hindex : ∀ fd t l, .index id fd t l ∉ recs) (hrecs : ∀ n, .note id n ∉ recs) :
    Turn ok id s s' := by
  refine .same ?_ ?_ (notices_of_recs hhist hrecs)
  · unfold Known
    simp only [hhist, List.mem_append, hindex, or_false]
  · unfold Live
    simp only [hmap, hadd]

variable {m : IntMap (Option SocketSet)} {fd : ℤ}

/-- Erasing an entry of another connection. -/
theorem mapped_erase (hother : ∀ x, m.lookup fd = some (some x) → x.key.id ≠ id) :
    Mapped (m.erase fd) id ↔ Mapped m id := by
  constructor
  · rintro ⟨k, x, hx, hid⟩
    exact ⟨k, x, IntMap.lookup_of_erase hx, hid⟩
  · rintro ⟨k, x, hx, hid⟩
    have hk : k ≠ fd := by
      rintro rfl
      exact hother x hx hid
    exact ⟨k, x, by rw [AList.lookup_erase_ne hk, hx], hid⟩

/-- Inserting an entry in place of none, or of one that does not count. -/
theorem mapped_insert {v : SocketSet}
    (hother : ∀ x, m.lookup fd = some (some x) → x.key.id = id → v.key.id = id) :
    Mapped (m.insert fd (some v)) id ↔ v.key.id = id ∨ Mapped m id := by
  constructor
  · rintro ⟨k, x, hx, hid⟩
    rw [IntMap.lookup_insert_eq] at hx
    split at hx
    · injection hx with hx
      injection hx with hx
      exact .inl (hx ▸ hid)
    · exact .inr ⟨k, x, hx, hid⟩
  · rintro (hid | ⟨k, x, hx, hid⟩)
    · exact ⟨fd, v, AList.lookup_insert _, hid⟩
    · by_cases hk : k = fd
      · subst hk
        exact ⟨k, v, AList.lookup_insert _, hother x hx hid⟩
      · exact ⟨k, x, by rw [AList.lookup_insert_ne hk, hx], hid⟩

/-- **Closing a connection** is a turn in its life, and in no other. -/
theorem closeClient_turn (hwf : Wf s) (fd conntime : ℤ) :
    Turn ok id s (closeClient cfg s fd conntime) := by
  have hsub : Shrinks s (closeClient cfg s fd conntime) := closeClient_shrinks fd conntime
  by_cases hmine : ∃ sock, closing s fd = some sock ∧ sock.key.id = id
  · obtain ⟨sock, hclosing, rfl⟩ := hmine
    obtain ⟨hfd, hsock⟩ := closing_eq_some hclosing
    refine .closed hsub.known_iff (.inl ⟨fd, sock, hsock, rfl⟩) ?_ ?_
    · -- no other entry has its index, nor has the one that is being added
      rw [closeClient_eq]
      rintro (⟨k, x, hx, hid⟩ | ⟨x, hx, hid⟩)
      · simp only [if_neg hfd] at hx
        have hx' := IntMap.lookup_of_erase hx
        obtain ⟨rfl, -⟩ := hwf.eq_of_id hx' hsock hid
        rw [AList.lookup_erase] at hx
        cases hx
      · exact (hwf.adding x hx).2 fd sock hsock hid.symm
    · rw [closeClient_eq]
      simp only [closeNotes, hclosing, notices_append]
      simp [notices, noticeOf]
  · have hother : ∀ x, closing s fd = some x → x.key.id ≠ id :=
      fun x hx hid => hmine ⟨x, hx, hid⟩
    refine .same hsub.known_iff ?_ ?_
    · rw [closeClient_eq]
      unfold Live
      refine or_congr_left ?_
      by_cases hfd : fd < 0
      · simp only [if_pos hfd]
      · simp only [if_neg hfd]
        refine mapped_erase fun x hx => hother x ?_
        rw [closing, if_neg hfd, hx]
        rfl
    · refine notices_of_recs (by rw [closeClient_eq]) ?_
      intro n hn
      obtain ⟨x, hx, heq⟩ := List.mem_map.mp hn
      injection heq with hid
      exact hother x (Option.mem_toList.mp hx) hid

/-- Frames belong to the connection they are read from. -/
theorem received_turn {sock : SocketSet} (hsock : s.socketmap.lookup fd = some (some sock))
    (hkey : sock.key.fdkey = fd) (now : ℤ) (recvs : List RecvResult) :
    Turn ok id s (received s fd sock (recvMessage cfg.host cfg.recvbuflen now sock recvs)) := by
  have hsub : Shrinks s (received s fd sock (recvMessage cfg.host cfg.recvbuflen now sock recvs)) :=
    (Effect.recv now recvs hsock hkey).shrinks
  have hsame : SameConn sock (recvMessage cfg.host cfg.recvbuflen now sock recvs).sock :=
    recvLoop_same _ _ _ _ _
  have hlive : Live (received s fd sock (recvMessage cfg.host cfg.recvbuflen now sock recvs)) id ↔
      Live s id := by
    unfold Live
    refine or_congr_left ?_
    have hother : ∀ x, s.socketmap.lookup fd = some (some x) → x.key.id = id →
        (recvMessage cfg.host cfg.recvbuflen now sock recvs).sock.key.id = id := by
      intro x hx hid
      rw [hsame.key, IntMap.eq_of_lookup hsock hx, hid]
    refine (mapped_insert hother).trans (or_iff_right_of_imp ?_)
    intro hid
    exact ⟨fd, sock, hsock, by rw [← hid, hsame.key]⟩
  by_cases hid : sock.key.id = id
  · have hs : Live s id := .inl ⟨fd, sock, hsock, hid⟩
    refine .frames hsub.known_iff hs (hlive.mpr hs)
      ((recvMessage cfg.host cfg.recvbuflen now sock recvs).msgs.map fun d => .frame d.bytes) ?_ ?_
    · intro n hn
      obtain ⟨d, -, rfl⟩ := List.mem_map.mp hn
      exact ⟨_, rfl⟩
    · rw [received, notices_append]
      refine congrArg _ ?_
      rw [notices, List.filterMap_map, ← List.filterMap_eq_map]
      refine congrFun (congrArg _ (funext fun d => ?_)) _
      exact if_pos hid
  · refine .same hsub.known_iff hlive (notices_of_recs rfl ?_)
    intro n hn
    obtain ⟨d, -, heq⟩ := List.mem_map.mp hn
    injection heq with heq
    exact hid heq

theorem sentFrom_turn (fd : ℤ) (key : SocketKey) (sends : List SendResult) (lst : List NetDataPtr) :
    Turn ok id s (sentFrom s fd (sendLoop key sends lst)) := by
  refine .of_eq rfl (fun _ => .rfl) rfl ?_ ?_
  · intro k t l h
    rcases sendLoop_recs h with ⟨_, _, h, -⟩ | ⟨_, -, ⟨h, -⟩ | ⟨h, -⟩⟩ <;> cases h
  · intro n h
    rcases sendLoop_recs h with ⟨_, _, h, -⟩ | ⟨_, -, ⟨h, -⟩ | ⟨h, -⟩⟩ <;> cases h

theorem deleteSendMsg_turn (fd : ℤ) : Turn ok id s (deleteSendMsgFromSendMap s fd) := by
  rcases deleteSendMsg_cases s fd with heq | heq
  · rw [heq]
    exact .same .rfl .rfl rfl
  · rw [heq]
    exact .of_eq rfl (fun _ => .rfl) rfl (by simp) (by simp)

/-- **An effect is a few turns.** -/
theorem Effect.turns (h : Effect cfg s s') (hwf : Wf s) : Turns ok id s s' := by
  cases h with
  | close fd conntime => exact .single (closeClient_turn hwf fd conntime)
  | recv now recvs hsock hkey => exact .single (received_turn hsock hkey now recvs)
  | send => exact .single (sentFrom_turn _ _ _ _)
  | @sendAll fd sock lst sends =>
    refine .tail (.single (sentFrom_turn fd sock.key sends lst)) ?_
    exact .of_eq rfl (fun _ => .rfl) (List.append_nil _).symm (by simp) (by simp)
  | @sendFail fd sock lst sends conntime =>
    refine .tail (.tail (.single (sentFrom_turn fd sock.key sends lst)) (deleteSendMsg_turn fd))
      (closeClient_turn ?_ fd conntime)
    refine hwf.of_shrinks ((sentFrom_shrinks _ _ _ _).trans (deleteSendMsg_shrinks _)) ?_
    intro x hx
    rwa [deleteSendMsg_pc] at hx
  | drop => exact .single (deleteSendMsg_turn _)
  | dropNull | mod =>
    exact .single (.of_eq rfl (fun _ => .rfl) (List.append_nil _).symm (by simp) (by simp))
  | endDeref => exact .single (.of_eq rfl (fun _ => .rfl) rfl (by simp) (by simp))
  | closeNull hnull => exact absurd hnull hwf.no_null

theorem Effects.turns (h : Effects cfg s s') (hwf : Wf s) : Turns ok id s s' := by
  have hboth : Wf s' ∧ Turns ok id s s' := by
    refine h.invariant (I := fun s₁ => Wf s₁ ∧ Turns ok id s s₁) ?_ ⟨hwf, .refl⟩
    rintro s₁ s₂ heff ⟨hwf₁, hturns⟩
    exact ⟨hwf₁.effect heff, hturns.trans (heff.turns hwf₁)⟩
  exact hboth.2

/-! ## Coming up and being added -/

/-- **A connection that comes up is born**, and no other life is touched. -/
theorem born_turn (hwf : Wf s) (hpc : ∀ x, s.pc ≠ .adding x) (sock : SocketSet) :
    Turn ok id s (born s sock) := by
  have hhist : (born s sock).hist = s.hist ++
      [.index (s.calls + 1) sock.key.fdkey (newConn s sock).key.connectTime sock.attempt,
        .note (s.calls + 1) .connected] :=
    List.append_assoc _ _ _
  by_cases hid : id = s.calls + 1
  · refine .born ?_ ?_ (.inr ⟨_, rfl, hid.symm⟩) ?_
    · rintro ⟨fd, t, l, h⟩
      have := (hwf.called _ _ _ _ h).2
      omega
    · rw [hid]
      exact ⟨_, _, _, hhist ▸ List.mem_append_right _ List.mem_cons_self⟩
    · rw [hhist, notices_append, hid]
      simp [notices, noticeOf, List.filterMap]
  · refine .same ?_ ?_ (notices_of_recs hhist ?_)
    · unfold Known
      simp [hhist, hid]
    · unfold Live
      refine or_congr_right ?_
      constructor
      · rintro ⟨x, hx, hx'⟩
        injection hx with hx
        exact absurd (hx ▸ hx').symm hid
      · rintro ⟨x, hx, -⟩
        exact absurd hx (hpc x)
    · simp [hid]

/-- A connection is added to the map, in place of none. -/
def AddsNew (cfg : Config) (s : Sys) (fd : ℤ) (ctlOk : Bool) : Prop :=
  Addable cfg s fd ctlOk ∧ s.socketmap.lookup fd = none

instance (fd : ℤ) (ctlOk : Bool) : Decidable (AddsNew cfg s fd ctlOk) :=
  inferInstanceAs (Decidable (_ ∧ _))

/-- **The connection that is added lives on**, unless it cannot be added;
and so do the others, unless it takes the place of one. -/
theorem register_turn (hwf : Wf s) {sock : SocketSet} (hadding : s.pc = .adding sock) (ctlOk : Bool)
    {pc : Pc} (hpc : ∀ x, pc ≠ .adding x) (hok : ok → AddsNew cfg s sock.key.fdkey ctlOk) :
    Turn ok id s ((addClientToEpoll cfg s sock ctlOk).goto pc) := by
  have hlive : Live s id ↔ Mapped s.socketmap id ∨ sock.key.id = id := by
    refine or_congr_right ⟨?_, fun hid => ⟨sock, hadding, hid⟩⟩
    rintro ⟨x, hx, hid⟩
    rw [hadding] at hx
    injection hx with hx
    exact hx ▸ hid
  have hgone : ∀ s₁ : Sys, Live (s₁.goto pc) id ↔ Mapped s₁.socketmap id := by
    intro s₁
    refine or_iff_left ?_
    rintro ⟨x, hx, -⟩
    exact hpc x hx
  -- its index is new, so no entry of the map has it
  have hnotin : sock.key.id = id → ¬ Mapped s.socketmap id := by
    rintro rfl ⟨k, x, hx, hid⟩
    exact (hwf.adding sock hadding).2 k x hx hid
  rcases addClientToEpoll_cases cfg s sock ctlOk with ⟨hnot, es, heq, -⟩ | ⟨-, heq⟩
  · -- it is not added
    rw [heq]
    by_cases hid : sock.key.id = id
    · refine .lost (fun h => hnot (hok h).1) .rfl (hlive.mpr (.inr hid)) ?_ rfl
      rw [hgone]
      exact hnotin hid
    · refine .same .rfl ?_ rfl
      rw [hgone, hlive]
      exact (or_iff_left hid).symm
  · rw [heq]
    by_cases hid : sock.key.id = id
    · refine .same .rfl ?_ rfl
      rw [hgone, hlive]
      exact (mapped_insert fun _ _ _ => hid).trans or_comm
    · by_cases hold : ∃ x, s.socketmap.lookup sock.key.fdkey = some (some x) ∧ x.key.id = id
      · -- it takes the place of another connection
        obtain ⟨x, hx, hxid⟩ := hold
        refine .lost ?_ .rfl (hlive.mpr (.inl ⟨_, x, hx, hxid⟩)) ?_ rfl
        · intro h
          rw [(hok h).2] at hx
          cases hx
        · rw [hgone]
          rintro ⟨k, y, hy, hyid⟩
          simp only [IntMap.lookup_insert_eq] at hy
          split at hy
          · injection hy with hy
            injection hy with hy
            exact hid (hy ▸ hyid)
          · rename_i hk
            exact hk (hwf.eq_of_id hy hx (hyid.trans hxid.symm)).1
      · refine .same .rfl ?_ rfl
        rw [hgone, hlive]
        exact (mapped_insert fun x hx hxid => absurd ⟨x, hx, hxid⟩ hold).trans or_comm

/-! ## Runs -/

/-- The descriptor of a connection that is registered in this step, and what
the kernel says. -/
def registered (s : Sys) : Action → Option (ℤ × Bool)
  | .register ctlOk =>
    match s.pc with
    | .adding sock => some (sock.key.fdkey, ctlOk)
    | _ => none
  | _ => none

/-- **The condition on a step**: a connection that was announced is added,
and takes the place of none. -/
def AddsAnnounced (cfg : Config) (s : Sys) (a : Action) : Prop :=
  (∀ p ∈ a.accepted, AddsNew cfg (s.opened p.1) p.1 p.2) ∧
    ∀ p ∈ registered s a, AddsNew cfg s p.1 p.2

instance : Decidable (AddsAnnounced cfg s a) := inferInstanceAs (Decidable (_ ∧ _))

/-- A life goes on where the epoll thread only moves. -/
theorem Turn.of_move (hmap : s'.socketmap = s.socketmap) (hhist : s'.hist = s.hist)
    (hpc : ∀ x, s.pc ≠ .adding x) (hpc' : ∀ x, s'.pc ≠ .adding x) : Turn ok id s s' :=
  .of_eq hmap (fun x => iff_of_false (hpc' x) (hpc x)) (hhist.trans (List.append_nil _).symm)
    (by simp) (by simp)

/-- Effects are a few turns, and then the epoll thread moves. -/
theorem Effects.turns_goto (h : Effects cfg s s') (hwf : Wf s) (hpc : ∀ x, s.pc ≠ .adding x)
    {pc : Pc} (hpc' : ∀ x, pc ≠ .adding x) : Turns ok id s (s'.goto pc) := by
  refine .tail (h.turns hwf) (.of_move rfl rfl ?_ hpc')
  rw [h.pc_eq]
  exact hpc

/-- Accepting messages is no turn. -/
theorem accepts_turn {cur : SendMap NetDataPtr} {allocs : ℕ} {recs : List Record}
    (hrecs : ∀ r ∈ recs, r.IsAccept) :
    Turn ok id s { s with cur := cur, allocs := allocs, hist := s.hist ++ recs } :=
  .of_eq rfl (fun _ => .rfl) rfl (fun _ _ _ hr => hrecs _ hr) fun _ hr => hrecs _ hr

/-- **A step of the server is a few turns in the life of each connection**,
and loses none that is added. -/
theorem Step.turns (h : Step cfg s a s') (hwf : Wf s) :
    Turns (AddsAnnounced cfg s a) id s s' := by
  cases h with
  | epollWait hpc | listen hpc | acceptFail hpc | flush hpc | sysEnd hpc | switchSendMap hpc
  | sweepEnd hpc | pingEnd hpc =>
    exact .single (.of_move rfl rfl (by simp [hpc]) (by simp [Epoll.switchSendMap]))
  | event hpc => exact (handleEvent_effects s _ _).turns_goto hwf (by simp [hpc]) (by simp)
  | @acceptConn evs fd ip port b₁ b₂ b₃ b₄ now ctlOk hpc =>
    have hnot : ∀ x, s.pc ≠ .adding x := by simp [hpc]
    rcases acceptConn_cases cfg s fd ip port b₁ b₂ b₃ b₄ now ctlOk with heq | ⟨hall, heq⟩
    · rw [heq]
      exact .single (.same .rfl .rfl rfl)
    · have hopen : Wf (s.opened fd) := hwf.of_eq rfl rfl rfl rfl fun _ hx => hx
      rw [heq]
      -- it is opened, comes up and is added in one step
      refine .head ?_ (.tail (.single (born_turn hopen hnot (newClient fd ip port now)))
        (register_turn (hopen.born hnot _) rfl ctlOk hnot ?_))
      · exact .same .rfl .rfl rfl
      · obtain ⟨rfl, rfl, rfl, rfl⟩ := hall
        exact fun h => h.1 (fd, ctlOk) rfl
  | @sysClose fd conntime es hpc =>
    have hes : Wf (s.withEvents es) := hwf.of_eq rfl rfl rfl rfl fun _ hx => hx
    refine .head ?_ (.single (closeClient_turn hes fd conntime))
    exact .same .rfl .rfl rfl
  | @sysAdd sock es hpc =>
    have hes : Wf (s.withEvents es) := hwf.of_eq rfl rfl rfl rfl fun _ hx => hx
    rw [addClientEvent_eq]
    refine .head ?_ (.tail (.single (born_turn hes (by simp [hpc, Sys.withEvents]) sock)) ?_)
    · exact .same .rfl .rfl rfl
    · exact .same .rfl .rfl rfl
  | @register sock ctlOk hpc =>
    exact .single (register_turn hwf hpc ctlOk (by simp) fun h =>
      h.2 (sock.key.fdkey, ctlOk) (by rw [registered, hpc]; rfl))
  | scan hpc => exact (scanFd_effects s _ _).turns_goto hwf (by simp [hpc]) (by simp)
  | @scanEnd del hpc =>
    have hdel : Turns (AddsAnnounced cfg s .scanEnd) id s (del.foldl deleteSendMsgFromSendMap s) :=
      deleteSendMsgs_invariant (I := Turns _ id s) del
        (fun _ fd _ hturns => hturns.tail (deleteSendMsg_turn fd)) .refl
    refine .tail hdel (.of_move rfl rfl ?_ (by simp))
    rw [deleteSendMsgs_pc, hpc]
    simp
  | keepalive hpc _ _ hto | keepaliveSend hpc _ hto =>
    rcases hto with rfl | rfl <;> exact .single (.of_move rfl rfl (by simp [hpc]) (by simp))
  | sweep hpc => exact (sweepFd_effects s _).turns_goto hwf (by simp [hpc]) (by simp)
  | @ping ntype types hpc =>
    obtain ⟨cur, allocs, recs, hrecs, heq⟩ := sendMsgToServer_frame cfg s ntype keepaliveMsg
    rw [heq]
    refine .single (.of_eq rfl (fun x => iff_of_false (by simp) (by simp [hpc])) rfl ?_ ?_)
    · exact fun _ _ _ hr => hrecs _ hr
    · exact fun _ hr => hrecs _ hr
  | @addMsg d =>
    obtain ⟨cur, allocs, recs, hrecs, heq⟩ := addMsg_frame cfg s d
    rw [heq]
    exact .single (accepts_turn hrecs)
  | @sendMsgToServer ntype m =>
    obtain ⟨cur, allocs, recs, hrecs, heq⟩ := sendMsgToServer_frame cfg s ntype m
    rw [heq]
    exact .single (accepts_turn hrecs)
  | createCloseConnectEvent =>
    unfold Epoll.createCloseConnectEvent
    split <;> exact .single (.same .rfl .rfl rfl)
  | startNot => exact .refl
  | outQueue | start | socket | socketFail | connectFail | connectOk | publish | enqueue
  | enqueueFail => exact .single (.same .rfl .rfl rfl)

/-- **Every connection has a life**, and where every connection that is
announced is added, none is lost. -/
theorem life_of_reach {now : ℤ}
    (h : (server cfg now).Reach (fun s a => strict → AddsAnnounced cfg s a) s) (id : ℕ) :
    Life strict id s := by
  refine h.invariant (I := Life strict id) ?_ ?_
  · refine .unborn ?_ ?_ rfl
    · rintro ⟨fd, t, l, hr⟩
      cases hr
    · rintro (⟨fd, x, hx, -⟩ | ⟨x, hx, -⟩) <;> cases hx
  · intro s a s' hreach hok hnext hlife
    exact ((step_of_next hnext).turns (Wf.reachable hreach.reachable)).life hok hlife

/-- In every run the notifications about a connection begin with the one
that it is connected, and go on with frames. -/
theorem notices_of_reachable {now : ℤ} (h : (server cfg now).Reachable s) (id : ℕ) :
    notices id s.hist = [] ∨ ∃ fs, Frames fs ∧ (notices id s.hist = .connected :: fs ∨
      notices id s.hist = .connected :: (fs ++ [.disconnected])) := by
  have hlife : Life False id s := life_of_reach (h.mono fun _ _ _ h => h.elim) id
  rcases hlife with ⟨-, -, hn⟩ | ⟨-, -, fs, hfs, hn⟩ | ⟨-, -, fs, hfs, hn⟩ | ⟨-, -, -, fs, hfs, hn⟩
  · exact .inl hn
  · exact .inr ⟨fs, hfs, .inl hn⟩
  · exact .inr ⟨fs, hfs, .inr hn⟩
  · exact .inr ⟨fs, hfs, .inl hn⟩

/-! ## The messages of the notifications -/

/-- The notifications of a history about all connections, in order. -/
def noted (hist : List Record) : List (ℕ × Notice) :=
  hist.filterMap fun r =>
    match r with
    | .note i n => some (i, n)
    | _ => none

/-- The bytes of the message of a notification. -/
def Notice.bytesFor (sock : SocketSet) : Notice → List UInt8
  | .connected => connectBytes sock
  | .frame bs => bs
  | .disconnected => closeBytes sock

/-- `d` is the message of the notification `x`. -/
def IsMessageOf (x : ℕ × Notice) (d : NetData) : Prop :=
  ∃ sock : SocketSet, sock.key.id = x.1 ∧ d = NetData.ofSocket sock (x.2.bytesFor sock)

/-- **What is noted is appended**: on the way from `s` to `s'` each
notification that is recorded has its message in `m_recvtmplst`, in the same
order. -/
def Notes (s s' : Sys) : Prop :=
  ∃ ds recs, s'.recvtmplst = s.recvtmplst ++ ds ∧ s'.hist = s.hist ++ recs ∧
    List.Forall₂ IsMessageOf (noted recs) ds

theorem noted_append (h h' : List Record) : noted (h ++ h') = noted h ++ noted h' :=
  List.filterMap_append

/-- What the receive loop appends are frames of its connection. -/
theorem frame_of_recvLoop {host : Host} (cap : ℕ) (now : ℤ) (fuel : ℕ) (x : SocketSet)
    (script : List RecvResult)
    {d : NetData} (h : d ∈ (recvLoop host cap now fuel x script).msgs) :
    ∃ bs, d = NetData.ofSocket x bs ∧ netHeadSize ≤ bs.length ∧ bs.length ≤ maxSendSize := by
  induction fuel generalizing x script with
  | zero => cases h
  | succ fuel ih =>
    obtain ⟨po, hpo, hmsgs⟩ : ∃ po : ParseOut,
        recvRound host now x (recvMsg script (cap - x.partLen)).bytes = po ∧ ∀ d ∈ po.msgs,
          ∃ bs, d = NetData.ofSocket x bs ∧ netHeadSize ≤ bs.length ∧ bs.length ≤ maxSendSize := by
      refine ⟨_, rfl, fun d hd => ?_⟩
      unfold recvRound at hd
      split at hd
      · obtain ⟨pos, n, hverdict, rfl⟩ := frame_of_parse hd
        obtain ⟨-, hmin, hmax, hle⟩ := frame_range hverdict
        have hlen := List.length_take_of_le hle
        exact ⟨_, rfl, by rw [hlen]; exact hmin, by rw [hlen]; exact hmax⟩
      · cases hd
    have hsame : SameConn x po.sock := by
      rw [← hpo]
      unfold recvRound
      split
      · have hstart : SameConn x { x with refreshTime := now, partLen := 0 } := ⟨rfl, rfl, rfl, rfl⟩
        exact hstart.trans (parsePacketToRecvQueue_same _ _)
      · exact ⟨rfl, rfl, rfl, rfl⟩
    rw [recvLoop_succ, hpo] at h
    split at h
    · cases h
    · simp only at h
      split at h
      · exact hmsgs d h
      · split at h
        · exact hmsgs d h
        · rcases List.mem_append.mp h with h | h
          · exact hmsgs d h
          · rw [← hsame.ofSocket]
            exact ih _ _ h

namespace Notes

/-- Nothing is noted. -/
theorem of_quiet (recs : List Record) (htmp : s'.recvtmplst = s.recvtmplst)
    (hhist : s'.hist = s.hist ++ recs) (hrecs : ∀ i n, .note i n ∉ recs) : Notes s s' := by
  have hnil : noted recs = [] := by
    refine List.filterMap_eq_nil_iff.mpr fun r hr => ?_
    split
    · exact absurd hr (hrecs _ _)
    · rfl
  exact ⟨[], recs, by rw [htmp, List.append_nil], hhist, hnil ▸ .nil⟩

theorem of_eq (htmp : s'.recvtmplst = s.recvtmplst) (hhist : s'.hist = s.hist) : Notes s s' :=
  of_quiet [] htmp (hhist.trans (List.append_nil _).symm) (by simp)

theorem trans {s'' : Sys} (h : Notes s s') (h' : Notes s' s'') : Notes s s'' := by
  obtain ⟨ds, recs, htmp, hhist, hall⟩ := h
  obtain ⟨ds', recs', htmp', hhist', hall'⟩ := h'
  refine ⟨ds ++ ds', recs ++ recs', by rw [htmp', htmp, List.append_assoc],
    by rw [hhist', hhist, List.append_assoc], ?_⟩
  rw [noted_append]
  exact List.rel_append hall hall'

theorem goto (h : Notes s s') (pc : Pc) : Notes s (s'.goto pc) := h.trans (.of_eq rfl rfl)

theorem closeClient (fd conntime : ℤ) : Notes s (closeClient cfg s fd conntime) := by
  refine ⟨closeMsgs s fd, closeNotes s fd, by rw [closeClient_eq], by rw [closeClient_eq], ?_⟩
  unfold closeMsgs closeNotes
  rcases closing s fd with _ | sock
  · exact .nil
  · exact .cons ⟨sock, rfl, rfl⟩ .nil

theorem born (sock : SocketSet) : Notes s (born s sock) := by
  refine ⟨_, _, rfl, List.append_assoc _ _ _, ?_⟩
  exact .cons ⟨newConn s sock, rfl, rfl⟩ .nil

theorem received (fd : ℤ) (sock : SocketSet) (now : ℤ) (recvs : List RecvResult) :
    Notes s (received s fd sock (recvMessage cfg.host cfg.recvbuflen now sock recvs)) := by
  refine ⟨_, _, rfl, rfl, ?_⟩
  have hframe : ∀ d ∈ (recvMessage cfg.host cfg.recvbuflen now sock recvs).msgs,
      IsMessageOf (sock.key.id, .frame d.bytes) d := by
    intro d hd
    obtain ⟨bs, rfl, -⟩ := frame_of_recvLoop _ _ _ _ _ hd
    exact ⟨sock, rfl, by rw [NetData.ofSocket_bytes]; rfl⟩
  generalize (recvMessage cfg.host cfg.recvbuflen now sock recvs).msgs = ds at hframe
  induction ds with
  | nil => exact .nil
  | cons d ds ih =>
    exact .cons (hframe d List.mem_cons_self) (ih fun x hx => hframe x (List.mem_cons_of_mem _ hx))

theorem deleteSendMsg (fd : ℤ) : Notes s (deleteSendMsgFromSendMap s fd) := by
  rcases deleteSendMsg_cases s fd with heq | heq <;> rw [heq]
  · exact .of_eq rfl rfl
  · exact .of_quiet _ rfl rfl (by simp)

theorem sentFrom (fd : ℤ) (key : SocketKey) (sends : List SendResult) (lst : List NetDataPtr) :
    Notes s (sentFrom s fd (sendLoop key sends lst)) := by
  refine .of_quiet _ rfl rfl fun i n h => ?_
  rcases sendLoop_recs h with ⟨_, _, h, -⟩ | ⟨_, -, ⟨h, -⟩ | ⟨h, -⟩⟩ <;> cases h

theorem addClientToEpoll (sock : SocketSet) (ctlOk : Bool) :
    Notes s (addClientToEpoll cfg s sock ctlOk) := by
  rcases addClientToEpoll_cases cfg s sock ctlOk with ⟨-, es, heq, -⟩ | ⟨-, heq⟩ <;> rw [heq] <;>
    exact .of_eq rfl rfl

theorem effect (h : Effect cfg s s') : Notes s s' := by
  cases h with
  | close fd conntime => exact .closeClient fd conntime
  | recv now recvs => exact .received _ _ now recvs
  | send => exact .sentFrom _ _ _ _
  | @sendAll fd sock lst sends =>
    have hsent : Notes s (Epoll.sentFrom s fd (sendLoop sock.key sends lst)) := .sentFrom _ _ _ _
    exact hsent.trans (.of_eq rfl rfl)
  | @sendFail fd sock lst sends conntime =>
    have hsent : Notes s (Epoll.sentFrom s fd (sendLoop sock.key sends lst)) := .sentFrom _ _ _ _
    exact (hsent.trans (.deleteSendMsg fd)).trans (.closeClient fd conntime)
  | drop => exact .deleteSendMsg _
  | endDeref => exact .of_quiet _ rfl rfl (by simp)
  | dropNull | mod | closeNull => exact .of_eq rfl rfl

theorem effects (h : Effects cfg s s') : Notes s s' :=
  h.invariant (I := Notes s) (fun _ _ heff hs => hs.trans (.effect heff)) (.of_eq rfl rfl)

theorem accepts {cur : SendMap NetDataPtr} {allocs : ℕ} {recs : List Record}
    (hrecs : ∀ r ∈ recs, r.IsAccept) :
    Notes s { s with cur := cur, allocs := allocs, hist := s.hist ++ recs } :=
  .of_quiet recs rfl rfl fun _ _ hn => hrecs _ hn

end Notes

/-- **What a step notes, it appends.** The flush empties `m_recvtmplst` and
notes nothing. -/
theorem Step.notes (h : Step cfg s a s') :
    Notes s s' ∨ s'.recvtmplst = [] ∧ s'.hist = s.hist := by
  cases h with
  | flush => exact .inr ⟨rfl, rfl⟩
  | event => exact .inl ((Notes.effects (handleEvent_effects s _ _)).goto _)
  | @acceptConn evs fd ip port b₁ b₂ b₃ b₄ now ctlOk =>
    rcases acceptConn_cases cfg s fd ip port b₁ b₂ b₃ b₄ now ctlOk with heq | ⟨-, heq⟩ <;> rw [heq]
    · exact .inl (.of_eq rfl rfl)
    · have hopened : Notes s (s.opened fd) := .of_eq rfl rfl
      exact .inl (((hopened.trans (.born _)).trans (.addClientToEpoll _ _)).goto _)
  | @sysClose fd conntime es =>
    have hevents : Notes s (s.withEvents es) := .of_eq rfl rfl
    exact .inl (hevents.trans (.closeClient fd conntime))
  | @sysAdd sock es =>
    have hevents : Notes s (s.withEvents es) := .of_eq rfl rfl
    rw [addClientEvent_eq]
    exact .inl ((hevents.trans (.born sock)).trans (.of_eq rfl rfl))
  | register => exact .inl ((Notes.addClientToEpoll _ _).goto _)
  | scan => exact .inl ((Notes.effects (scanFd_effects s _ _)).goto _)
  | @scanEnd del =>
    exact .inl (Notes.goto (deleteSendMsgs_invariant (I := Notes s) del
      (fun _ fd _ hs => hs.trans (.deleteSendMsg fd)) (.of_eq rfl rfl)) _)
  | sweep => exact .inl ((Notes.effects (sweepFd_effects s _)).goto _)
  | @ping ntype =>
    obtain ⟨cur, allocs, recs, hrecs, heq⟩ := sendMsgToServer_frame cfg s ntype keepaliveMsg
    rw [heq]
    exact .inl ((Notes.accepts hrecs).goto _)
  | @addMsg d =>
    obtain ⟨cur, allocs, recs, hrecs, heq⟩ := addMsg_frame cfg s d
    rw [heq]
    exact .inl (.accepts hrecs)
  | @sendMsgToServer ntype m =>
    obtain ⟨cur, allocs, recs, hrecs, heq⟩ := sendMsgToServer_frame cfg s ntype m
    rw [heq]
    exact .inl (.accepts hrecs)
  | createCloseConnectEvent =>
    unfold Epoll.createCloseConnectEvent
    split <;> exact .inl (.of_eq rfl rfl)
  | epollWait | listen | acceptFail | sysEnd | switchSendMap | keepalive | sweepEnd
  | keepaliveSend | pingEnd | outQueue | start | startNot | socket | socketFail | connectFail
  | connectOk | publish | enqueue | enqueueFail => exact .inl (.of_eq rfl rfl)

/-- **The messages in `m_recvtmplst` are those of the last notifications**,
in the order in which they were recorded. -/
theorem recvtmplst_noted {now : ℤ} (h : (server cfg now).Reachable s) :
    ∃ before last, noted s.hist = before ++ last ∧ List.Forall₂ IsMessageOf last s.recvtmplst := by
  refine h.invariant (I := fun s => ∃ before last, noted s.hist = before ++ last ∧
    List.Forall₂ IsMessageOf last s.recvtmplst) ⟨[], [], rfl, .nil⟩ ?_
  rintro s a s' - - hnext ⟨before, last, hnoted, hall⟩
  rcases (step_of_next hnext).notes with ⟨ds, recs, htmp, hhist, hnew⟩ | ⟨htmp, hhist⟩
  · refine ⟨before, last ++ noted recs, ?_, ?_⟩
    · rw [hhist, noted_append, hnoted, List.append_assoc]
    · rw [htmp]
      exact List.rel_append hall hnew
  · exact ⟨noted s'.hist, [], (List.append_nil _).symm, htmp ▸ .nil⟩

/-- **Notifications are brackets.** In every run in which each connection
that is announced is added, in place of none: a connection is announced
once, before its frames, and once its object is gone it is followed up once,
after all of them. -/
theorem lifecycle_of_reach {now : ℤ} (h : (server cfg now).Reach (AddsAnnounced cfg) s)
    (hknown : Known s id) :
    ∃ fs, Frames fs ∧ (Live s id ∧ notices id s.hist = .connected :: fs ∨
      ¬ Live s id ∧ notices id s.hist = .connected :: (fs ++ [.disconnected])) := by
  have hlife : Life True id s := life_of_reach (h.mono fun _ _ hok _ => hok) id
  rcases hlife with ⟨hk, -⟩ | ⟨-, hl, fs, hfs, hn⟩ | ⟨-, hl, fs, hfs, hn⟩ | ⟨hnot, -⟩
  · exact absurd hknown hk
  · exact ⟨fs, hfs, .inl ⟨hl, hn⟩⟩
  · exact ⟨fs, hfs, .inr ⟨hl, hn⟩⟩
  · exact absurd trivial hnot

/-- A client that is accepted, and closed at a worker's request. -/
theorem lifecycle_of_reach_closed :
    ∃ s, (server smallConfig 0).Reach (AddsAnnounced smallConfig) s ∧
      notices 2 s.hist = [.connected, .disconnected] ∧
      ∃ fs, Frames fs ∧ (Live s 2 ∧ notices 2 s.hist = .connected :: fs ∨
        ¬ Live s 2 ∧ notices 2 s.hist = .connected :: (fs ++ [.disconnected])) := by
  have hrun : ∃ s, (server smallConfig 0).Reach (AddsAnnounced smallConfig) s ∧
      .index 2 7 2 0 ∈ s.hist ∧ notices 2 s.hist = [.connected, .disconnected] :=
    Machine.exists_reach_of_exec
      (acceptRound 7 ++ [.createCloseConnectEvent 7 2, .flush, .sysEvent]) (by decide)
  obtain ⟨s, hs, hindex, hnotices⟩ := hrun
  exact ⟨s, hs, hnotices, lifecycle_of_reach hs ⟨7, 2, 0, hindex⟩⟩

/-- **A connection is announced and gone without a word**: `epoll_ctl` does
not take it. -/
theorem lifecycle_lost :
    ∃ s, (server smallConfig 0).Reachable s ∧ Known s 2 ∧ ¬ Live s 2 ∧
      notices 2 s.hist = [.connected] := by
  have hrun : ∃ s, (server smallConfig 0).Reachable s ∧ .index 2 7 2 0 ∈ s.hist ∧
      s.socketmap.keys = [] ∧ s.pc = .accept [] ∧ notices 2 s.hist = [.connected] :=
    Machine.exists_reach_of_exec [.epollWait [⟨smallConfig.listenkey, .epollin⟩], .event {},
      .accept (.conn 7 "" 0 true true true true 0 false)] (by decide)
  obtain ⟨s, hs, hindex, hmap, hpc, hnotices⟩ := hrun
  refine ⟨s, hs, ⟨7, 2, 0, hindex⟩, ?_, hnotices⟩
  rintro (⟨fd, x, hx, -⟩ | ⟨x, hx, -⟩)
  · have hmem := AList.mem_keys.mp (IntMap.mem_of_lookup hx)
    rw [hmap] at hmem
    cases hmem
  · rw [hpc] at hx
    cases hx

end Epoll

end EupuServer
