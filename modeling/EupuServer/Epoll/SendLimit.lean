import EupuServer.Common.Machine
import EupuServer.Epoll.Effect
/-!
# The limit of the send lists

`addMsgToSendList` keeps every list within `m_nMaxSendList`, and so would
`switchSendMap` if the overflow branch counted what it moves. It does not:
either nothing is moved or everything is. `switchSendMap_withinLimit_iff`
says of which maps that leaves the limit kept.
-/

namespace EupuServer

namespace Network

open Bytes

variable {α : Type*} {maxSendList : ℤ} {cur bak : SendMap α}

/-- **Every list holds at most `maxSendList` messages.** -/
def WithinLimit (maxSendList : ℤ) (m : SendMap α) : Prop :=
  ∀ fd l, m.lookup fd = some (some l) → (l.length : ℤ) ≤ maxSendList

/-- **The two lists of a descriptor fit together**, or the current one is
full, where the overflow branch moves nothing. -/
def FitsOrFull (maxSendList : ℤ) (cur bak : SendMap α) : Prop :=
  ∀ fd c b, cur.lookup fd = some (some c) → bak.lookup fd = some (some b) →
    (c.length + b.length : ℤ) ≤ maxSendList ∨ maxSendList ≤ c.length

theorem fitsOrFull_iff_keys : FitsOrFull maxSendList cur bak ↔
    ∀ fd ∈ cur.keys, ∀ c ∈ (cur.lookup fd).join, ∀ b ∈ (bak.lookup fd).join,
      (c.length + b.length : ℤ) ≤ maxSendList ∨ maxSendList ≤ c.length := by
  constructor
  · intro h fd _ c hc b hb
    exact h fd c b (Option.join_eq_some_iff.mp hc) (Option.join_eq_some_iff.mp hb)
  · intro h fd c b hc hb
    have hkey : fd ∈ cur.keys := AList.lookup_isSome.mp (by rw [hc]; rfl)
    exact h fd hkey c (by rw [hc]; rfl) b (by rw [hb]; rfl)

instance : Decidable (FitsOrFull maxSendList cur bak) := decidable_of_iff' _ fitsOrFull_iff_keys

theorem WithinLimit.empty : WithinLimit maxSendList (∅ : SendMap α) := by
  intro fd l h
  rw [AList.lookup_empty] at h
  cases h

theorem WithinLimit.erase {m : SendMap α} (h : WithinLimit maxSendList m) (fd : ℤ) :
    WithinLimit maxSendList (m.erase fd) := by
  intro k l hl
  exact h k l (IntMap.lookup_of_erase hl)

theorem WithinLimit.insert {m : SendMap α} {l : List α} (h : WithinLimit maxSendList m) (fd : ℤ)
    (hl : (l.length : ℤ) ≤ maxSendList) : WithinLimit maxSendList (m.insert fd (some l)) := by
  intro k l' hl'
  rw [IntMap.lookup_insert_eq] at hl'
  split at hl'
  · rw [Option.some.injEq, Option.some.injEq] at hl'
    exact hl' ▸ hl
  · exact h k l' hl'

theorem WithinLimit.listAt {m : SendMap α} (h : WithinLimit maxSendList m) (h0 : 0 ≤ maxSendList)
    (fd : ℤ) : ((listAt m fd).length : ℤ) ≤ maxSendList := by
  rcases hl : m.lookup fd with _ | _ | l
  · simpa [Network.listAt, hl] using h0
  · simpa [Network.listAt, hl] using h0
  · rw [listAt_of_lookup hl]
    exact h fd l hl

/-- **Adding keeps the limit.** -/
theorem addMsgToSendList_withinLimit (hmax : 1 ≤ maxSendList) (hint : maxSendList < 2 ^ 31)
    (h : WithinLimit maxSendList cur) (fd : ℤ) (msg : α) :
    WithinLimit maxSendList (addMsgToSendList maxSendList cur fd msg).2 := by
  have hu : (uint32 maxSendList : ℤ) = maxSendList := cast_uint32 (by omega) (by omega)
  unfold addMsgToSendList
  split
  · exact h.insert fd (by simpa using hmax)
  · split
    · rename_i lst _ hroom
      refine h.insert fd ?_
      rw [List.length_append, List.length_singleton]
      omega
    · exact h
  · exact h.erase fd

/-- **When the merge of two lists keeps the limit.** -/
theorem mergeLists_length_le_iff (hmax : 1 ≤ maxSendList) (hint : maxSendList < 2 ^ 31)
    {c b : List α} (hc : (c.length : ℤ) ≤ maxSendList) :
    ((mergeLists maxSendList (some (some c)) b).length : ℤ) ≤ maxSendList ↔
      (c.length + b.length : ℤ) ≤ maxSendList ∨ maxSendList ≤ c.length := by
  have hu : (uint32 maxSendList : ℤ) = maxSendList := cast_uint32 (by omega) (by omega)
  have hmove : needMove maxSendList c = maxSendList - c.length := int32_of_lt (by omega) (by omega)
  simp only [mergeLists, overflowLoop_eq, hmove]
  split
  · split
    · omega
    · rw [List.length_append]
      omega
  · rw [List.length_append]
    omega

/-- **When a switch keeps the limit**: where the two lists of every
descriptor fit together or the current one is full. -/
theorem switchSendMap_withinLimit_iff (hmax : 1 ≤ maxSendList) (hint : maxSendList < 2 ^ 31)
    (hcur : WithinLimit maxSendList cur) (hbak : WithinLimit maxSendList bak) :
    WithinLimit maxSendList (switchSendMap maxSendList cur bak).1 ∧
        WithinLimit maxSendList (switchSendMap maxSendList cur bak).2 ↔
      FitsOrFull maxSendList cur bak := by
  by_cases hempty : cur.keys.length = 0
  · -- an empty current map: nothing is merged, and no descriptor has two lists
    have hfits : FitsOrFull maxSendList cur bak :=
      fun _ _ _ hc _ => absurd hempty (keys_length_ne_zero hc)
    rw [switchSendMap, if_pos hempty]
    exact ⟨fun _ => hfits, fun _ => ⟨hcur, hbak⟩⟩
  · have hfst : (switchSendMap maxSendList cur bak).1 = ∅ := by rw [switchSendMap, if_neg hempty]
    constructor
    · rintro ⟨-, hafter⟩ fd c b hc hb
      rw [← mergeLists_length_le_iff hmax hint (hcur fd c hc)]
      refine hafter fd _ ?_
      rw [switchSendMap_lookup hempty, hb, hc]
    · intro hfits
      refine ⟨hfst ▸ .empty, fun fd l hl => ?_⟩
      rw [switchSendMap_lookup hempty] at hl
      rcases hb : bak.lookup fd with _ | _ | b
      · rw [hb] at hl
        exact hcur fd l hl
      · rw [hb] at hl
        exact hcur fd l hl
      · rw [hb] at hl
        simp only [Option.some.injEq] at hl
        subst hl
        rcases hc : cur.lookup fd with _ | _ | c
        · exact hbak fd b hb
        · exact hbak fd b hb
        · exact (mergeLists_length_le_iff hmax hint (hcur fd c hc)).mpr (hfits fd c b hc hb)

end Network

namespace Epoll

open Network

/-! ## Sending makes no list longer -/

theorem sendLoop_left_length (key : SocketKey) (sends : List SendResult) (lst : List NetDataPtr) :
    (sendLoop key sends lst).left.length ≤ lst.length := by
  induction lst generalizing sends with
  | nil => exact Nat.le_refl _
  | cons p ps ih =>
    rw [sendLoop]
    split
    · exact Nat.le_succ_of_le (ih sends)
    · simp only
      split
      · exact Nat.le_refl _
      · split
        · split
          · exact Nat.le_refl _
          · exact Nat.le_succ _
        · exact Nat.le_succ_of_le (ih _)

variable (cfg : Config) (s : Sys)

/-- **Both send maps are within the limit.** -/
structure SendLimit : Prop where
  cur : WithinLimit cfg.maxSendList s.cur
  bak : WithinLimit cfg.maxSendList s.bak

variable {cfg s}

theorem deleteSendMsg_sendLimit (h : SendLimit cfg s) (fd : ℤ) :
    SendLimit cfg (deleteSendMsgFromSendMap s fd) := by
  rcases deleteSendMsg_cases s fd with heq | heq <;> rw [heq]
  · exact h
  · exact ⟨h.cur, h.bak.erase fd⟩

theorem doSendMessage_sendLimit (h : SendLimit cfg s) (key : SocketKey) (sends : List SendResult) :
    SendLimit cfg (doSendMessage s key sends).2 := by
  unfold doSendMessage
  split
  · rename_i sock _
    split
    · exact h
    · exact ⟨h.cur, h.bak.erase _⟩
    · rename_i lst hlst
      have hsent : SendLimit cfg (sentFrom s key.fdkey (sendLoop sock.key sends lst)) := by
        refine ⟨h.cur, h.bak.insert _ ?_⟩
        have hlen := sendLoop_left_length sock.key sends lst
        have hlim := h.bak _ _ hlst
        omega
      simp only
      split
      · exact deleteSendMsg_sendLimit hsent _
      · split
        · exact ⟨hsent.cur, hsent.bak.erase _⟩
        · exact hsent
  · exact deleteSendMsg_sendLimit h _

/-! ## The runs of the four operations -/

/-- The operations on the send maps. `doSendMessage` finds the connections
`socketmap` when it is called. -/
inductive SendOp
  | addMsgToSendList (d : NetData)
  | switchSendMap
  | doSendMessage (socketmap : IntMap (Option SocketSet)) (key : SocketKey)
      (sends : List SendResult)
  | deleteSendMsgFromSendMap (fd : ℤ)

variable (cfg) in
/-- One operation on the send maps. -/
def sendOp (s : Sys) : SendOp → Sys
  | .addMsgToSendList d => (addMsg cfg s d).2
  | .switchSendMap => switchSendMap cfg s
  | .doSendMessage socketmap key sends =>
    (doSendMessage { s with socketmap := socketmap } key sends).2
  | .deleteSendMsgFromSendMap fd => deleteSendMsgFromSendMap s fd

variable (cfg) in
/-- The runs of the operations from the empty maps. -/
def sendMaps (now : ℤ) : Machine Sys SendOp where
  init := Sys.init cfg now
  next s op := some (sendOp cfg s op)

/-- Where a switch merges two lists, they fit or the newer one is full. -/
def MergesWithin (cfg : Config) (s : Sys) (op : SendOp) : Prop :=
  op = .switchSendMap → FitsOrFull cfg.maxSendList s.cur s.bak

instance (op : SendOp) : Decidable (MergesWithin cfg s op) :=
  match op with
  | .switchSendMap => decidable_of_iff _ (forall_prop_of_true rfl).symm
  | .addMsgToSendList _ => .isTrue nofun
  | .doSendMessage _ _ _ => .isTrue nofun
  | .deleteSendMsgFromSendMap _ => .isTrue nofun

/-- **An operation keeps the limit**, a switch where the lists fit. -/
theorem sendOp_sendLimit (hmax : 1 ≤ cfg.maxSendList) (hint : cfg.maxSendList < 2 ^ 31)
    (h : SendLimit cfg s) {op : SendOp} (hfits : MergesWithin cfg s op) :
    SendLimit cfg (sendOp cfg s op) := by
  cases op with
  | addMsgToSendList d =>
    exact ⟨addMsgToSendList_withinLimit hmax hint h.cur d.fddat _, h.bak⟩
  | switchSendMap =>
    obtain ⟨hcur, hbak⟩ := (switchSendMap_withinLimit_iff hmax hint h.cur h.bak).mpr (hfits rfl)
    exact ⟨hcur, hbak⟩
  | doSendMessage socketmap key sends =>
    have hmaps : SendLimit cfg { s with socketmap := socketmap } := ⟨h.cur, h.bak⟩
    exact doSendMessage_sendLimit hmaps key sends
  | deleteSendMsgFromSendMap fd => exact deleteSendMsg_sendLimit h fd

/-- **A switch of lists that do not fit breaks the limit.** -/
theorem not_sendLimit_of_not_mergesWithin (hmax : 1 ≤ cfg.maxSendList)
    (hint : cfg.maxSendList < 2 ^ 31) (h : SendLimit cfg s) {op : SendOp}
    (hfits : ¬ MergesWithin cfg s op) : ¬ SendLimit cfg (sendOp cfg s op) := by
  unfold MergesWithin at hfits
  obtain ⟨rfl, hnot⟩ := Classical.not_imp.mp hfits
  intro hafter
  exact hnot ((switchSendMap_withinLimit_iff hmax hint h.cur h.bak).mp ⟨hafter.cur, hafter.bak⟩)

variable {now : ℤ}

/-- **The send limit is kept in every run whose switches merge lists that
fit together, or into a full list.** -/
theorem sendLimit_of_mergesWithin (hmax : 1 ≤ cfg.maxSendList) (hint : cfg.maxSendList < 2 ^ 31)
    (h : (sendMaps cfg now).Reach (MergesWithin cfg) s) : SendLimit cfg s := by
  refine h.invariant ⟨.empty, .empty⟩ ?_
  intro s op s' _ hfits hnext hs
  rw [← Option.some.inj hnext]
  exact sendOp_sendLimit hmax hint hs hfits

/-- A server with a limit of three. -/
def limitConfig : Config := { smallConfig with maxSendList := 3 }

/-- Two messages and a third are merged to a list of three. -/
theorem sendLimit_of_mergesWithin_three : ∃ s, (sendMaps limitConfig 0).Reach
    (MergesWithin limitConfig) s ∧ (listAt s.bak 7).length = 3 ∧ SendLimit limitConfig s := by
  have hrun : ∃ s, (sendMaps limitConfig 0).Reach (MergesWithin limitConfig) s ∧
      (listAt s.bak 7).length = 3 :=
    Machine.exists_reach_of_exec
      [.addMsgToSendList (reply 7 2 [0]), .addMsgToSendList (reply 7 2 [1]), .switchSendMap,
        .addMsgToSendList (reply 7 2 [2]), .switchSendMap] (by decide)
  obtain ⟨s, hs, hlen⟩ := hrun
  exact ⟨s, hs, hlen, sendLimit_of_mergesWithin (by decide) (by decide) hs⟩

/-- **Two lists of two under a limit of three are merged to a list of
four.** -/
theorem not_sendLimit_of_merge :
    ¬ ∀ (cfg : Config) (now : ℤ), 1 ≤ cfg.maxSendList → cfg.maxSendList < 2 ^ 31 →
      ∀ s, (sendMaps cfg now).Reachable s → SendLimit cfg s := by
  intro hall
  have hrun : ∃ s, (sendMaps limitConfig 0).Reachable s ∧ (listAt s.bak 7).length = 4 :=
    Machine.exists_reach_of_exec
      [.addMsgToSendList (reply 7 2 [0]), .addMsgToSendList (reply 7 2 [1]), .switchSendMap,
        .addMsgToSendList (reply 7 2 [2]), .addMsgToSendList (reply 7 2 [3]), .switchSendMap]
      (by decide)
  obtain ⟨s, hs, hlen⟩ := hrun
  have hlim : ((listAt s.bak 7).length : ℤ) ≤ 3 :=
    (hall limitConfig 0 (by decide) (by decide) s hs).bak.listAt (by decide) 7
  rw [hlen] at hlim
  exact absurd hlim (by decide)

end Epoll

end EupuServer
