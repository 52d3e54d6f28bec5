import EupuServer.Common.Bytes
import EupuServer.Common.FiniteMap
/-!
# The two send maps

Messages to send wait in two maps from descriptors to lists: producers add
to the current one, and the epoll thread sends from the backup one.
`switchSendMap` merges the backup map into the current one and swaps the
two. What it leaves for a descriptor depends on that descriptor's two lists
alone (`switchSendMap_lookup`): without overflow the older list in front of
the newer one, and with overflow something else.
-/

namespace EupuServer

namespace Network

open Bytes

/-- A send map. A descriptor may be mapped to a null list. -/
abbrev SendMap (α : Type*) := IntMap (Option (List α))

variable {α : Type*}

/-- The messages under a descriptor: none where its list is missing or null. -/
def listAt (m : SendMap α) (fd : ℤ) : List α := (m.lookup fd).join.getD []

/-! ## `addMsgToSendList` -/

/-- `addMsgToSendList`: the result and the current map. -/
def addMsgToSendList (maxSendList : ℤ) (cur : SendMap α) (fd : ℤ) (msg : α) :
    Bool × SendMap α :=
  match cur.lookup fd with
  | none => (true, cur.insert fd (some [msg]))
  | some (some lst) =>
    if lst.length < uint32 maxSendList then (true, cur.insert fd (some (lst ++ [msg])))
    else (false, cur)
  | some none => (false, cur.erase fd)

/-! ## `switchSendMap` -/

/-- The overflow branch: the loop over the backup list. The counter `idx` is
compared in every round, and no round changes it. -/
def overflowLoop (needmove idx : ℤ) (cur : List α) : List α → List α
  | [] => cur
  | x :: bak =>
    if idx ≥ needmove then overflowLoop needmove idx cur bak
    else overflowLoop needmove idx (cur ++ [x]) bak

/-- The room the overflow branch reckons with. -/
def needMove (maxSendList : ℤ) (cur : List α) : ℤ := int32 (maxSendList - cur.length)

/-- What a descriptor of the backup map is merged to. -/
def mergeLists (maxSendList : ℤ) (cur : Option (Option (List α))) (bak : List α) : List α :=
  match cur with
  | some (some cur) =>
    if cur.length + bak.length > uint32 maxSendList then
      overflowLoop (needMove maxSendList cur) 0 cur bak
    else bak ++ cur
  | _ => bak

/-- One round of the loop of `switchSendMap`. -/
def mergeStep (maxSendList : ℤ) (cur : SendMap α) (e : Σ _ : ℤ, Option (List α)) : SendMap α :=
  match e.2 with
  | none => cur
  | some bak => cur.insert e.1 (some (mergeLists maxSendList (cur.lookup e.1) bak))

/-- `switchSendMap`: the current and the backup map after it. -/
def switchSendMap (maxSendList : ℤ) (cur bak : SendMap α) : SendMap α × SendMap α :=
  if cur.keys.length = 0 then (cur, bak)
  else (∅, bak.ascending.foldl (mergeStep maxSendList) cur)

variable {maxSendList : ℤ} {cur bak : SendMap α} {fd : ℤ} {c b : List α}

theorem overflowLoop_eq (needmove idx : ℤ) (c b : List α) :
    overflowLoop needmove idx c b = if idx ≥ needmove then c else c ++ b := by
  induction b generalizing c with
  | nil => simp [overflowLoop]
  | cons x b ih =>
    rw [overflowLoop]
    by_cases h : idx ≥ needmove
    · rw [if_pos h, if_pos h, ih, if_pos h]
    · rw [if_neg h, if_neg h, ih, if_neg h]
      simp

/-- **What is left for a descriptor** depends on its two lists alone. -/
theorem switchSendMap_lookup (h : cur.keys.length ≠ 0) (fd : ℤ) :
    (switchSendMap maxSendList cur bak).2.lookup fd =
      match bak.lookup fd with
      | some (some b) => some (some (mergeLists maxSendList (cur.lookup fd) b))
      | _ => cur.lookup fd := by
  rw [switchSendMap, if_neg h]
  rw [IntMap.lookup_foldl_ascending (g := fun c e => match e with
    | none => c
    | some b => some (some (mergeLists maxSendList c b)))]
  · rcases bak.lookup fd with _ | _ | b <;> rfl
  · intro m k e
    rcases e with _ | b
    · rfl
    · exact AList.lookup_insert m
  · intro m k e k' hk
    rcases e with _ | b
    · rfl
    · exact AList.lookup_insert_ne hk

/-- A map with an entry is not empty. -/
theorem keys_length_ne_zero {β : Type*} {m : IntMap β} {x : β} (h : m.lookup fd = some x) :
    m.keys.length ≠ 0 := by
  intro h0
  rw [IntMap.keys_length_eq_zero.mp h0 fd] at h
  cases h

/-- **Without overflow the switch keeps the order**: the older messages
stand in front of the newer ones. -/
theorem switchSendMap_merge (hc : cur.lookup fd = some (some c))
    (hb : bak.lookup fd = some (some b))
    (hfit : c.length + b.length ≤ uint32 maxSendList) :
    (switchSendMap maxSendList cur bak).2.lookup fd = some (some (b ++ c)) := by
  rw [switchSendMap_lookup (keys_length_ne_zero hc), hb, hc]
  simp only [mergeLists]
  rw [if_neg (by omega)]

/-- With overflow, the switch drops the older messages or puts them behind
the newer ones. -/
theorem switchSendMap_overflow (hc : cur.lookup fd = some (some c))
    (hb : bak.lookup fd = some (some b)) (hover : c.length + b.length > uint32 maxSendList) :
    (switchSendMap maxSendList cur bak).2.lookup fd =
      some (some (if needMove maxSendList c ≤ 0 then c else c ++ b)) := by
  rw [switchSendMap_lookup (keys_length_ne_zero hc), hb, hc]
  simp only [mergeLists]
  rw [if_pos hover, overflowLoop_eq]

@[simp] theorem listAt_empty : listAt (∅ : SendMap α) fd = [] := rfl

theorem listAt_of_lookup {l : List α} (h : cur.lookup fd = some (some l)) : listAt cur fd = l := by
  rw [listAt, h]
  rfl

@[simp] theorem listAt_insert (k : ℤ) (l : List α) :
    listAt (cur.insert k (some l)) fd = if fd = k then l else listAt cur fd := by
  rw [listAt, IntMap.lookup_insert_eq]
  split <;> rfl

@[simp] theorem listAt_erase (k : ℤ) :
    listAt (cur.erase k) fd = if fd = k then [] else listAt cur fd := by
  rw [listAt, IntMap.lookup_erase_eq]
  split <;> rfl

variable (maxSendList cur fd) in
/-- `addMsgToSendList` appends its message, or leaves the lists. -/
theorem addMsgToSendList_listAt (k : ℤ) (msg : α) :
    listAt (addMsgToSendList maxSendList cur k msg).2 fd = listAt cur fd ++
      if (addMsgToSendList maxSendList cur k msg).1 = true ∧ fd = k then [msg] else [] := by
  unfold addMsgToSendList
  rcases hk : cur.lookup k with _ | _ | l
  · by_cases hfd : fd = k
    · subst hfd
      simp [listAt, hk]
    · simp [hfd]
  · by_cases hfd : fd = k
    · subst hfd
      simp [listAt, hk]
    · simp [hfd]
  · simp only
    split
    · by_cases hfd : fd = k
      · subst hfd
        simp [listAt_of_lookup hk]
      · simp [hfd]
    · simp

/-- **Without overflow the switch loses nothing and keeps the order**, also
where a descriptor has only one list, or none. -/
theorem switchSendMap_listAt
    (hfit : (listAt cur fd).length + (listAt bak fd).length ≤ uint32 maxSendList) :
    listAt (switchSendMap maxSendList cur bak).2 fd ++
        listAt (switchSendMap maxSendList cur bak).1 fd = listAt bak fd ++ listAt cur fd := by
  by_cases hempty : cur.keys.length = 0
  · rw [switchSendMap, if_pos hempty]
  · have hcur : (switchSendMap maxSendList cur bak).1 = ∅ := by rw [switchSendMap, if_neg hempty]
    rw [hcur, listAt_empty, List.append_nil, listAt, switchSendMap_lookup hempty]
    rcases hb : bak.lookup fd with _ | _ | b
    · simp [listAt, hb]
    · simp [listAt, hb]
    · rcases hc : cur.lookup fd with _ | _ | c
      · simp [listAt, hb, hc, mergeLists]
      · simp [listAt, hb, hc, mergeLists]
      · rw [listAt_of_lookup hc, listAt_of_lookup hb] at hfit
        simp only [mergeLists]
        rw [if_neg (by omega), listAt_of_lookup hc, listAt_of_lookup hb]
        rfl

/-- **The switch makes up no message.** -/
theorem mem_of_switchSendMap {x : α}
    (h : x ∈ listAt (switchSendMap maxSendList cur bak).2 fd ++
      listAt (switchSendMap maxSendList cur bak).1 fd) : x ∈ listAt bak fd ++ listAt cur fd := by
  by_cases hempty : cur.keys.length = 0
  · rwa [switchSendMap, if_pos hempty] at h
  · have hcur : (switchSendMap maxSendList cur bak).1 = ∅ := by rw [switchSendMap, if_neg hempty]
    rw [hcur, listAt_empty, List.append_nil, listAt, switchSendMap_lookup hempty] at h
    rcases hb : bak.lookup fd with _ | _ | b <;> rw [hb] at h
    · exact List.mem_append_right _ h
    · exact List.mem_append_right _ h
    · rw [listAt_of_lookup hb]
      rcases hc : cur.lookup fd with _ | _ | c <;> rw [hc] at h
      · exact List.mem_append_left _ h
      · exact List.mem_append_left _ h
      · rw [listAt_of_lookup hc]
        simp only [mergeLists, overflowLoop_eq, Option.join_some, Option.getD_some] at h
        split at h
        · split at h
          · exact List.mem_append_right _ h
          · exact List.mem_append.mpr (List.mem_append.mp h).symm
        · exact h

/-- **What an overflow should leave**: of the messages, the older ones in
front, a part that begins with the first. -/
def KeepsOrder (b c l : List α) : Prop := l.Sublist (b ++ c) ∧ l.head? = b.head?

instance [DecidableEq α] (b c l : List α) : Decidable (KeepsOrder b c l) :=
  inferInstanceAs (Decidable (_ ∧ _))

/-- **When an overflow keeps the order**: only if the first of the newer
messages is the first of the older ones, which is so of no two lists of
different messages. -/
theorem switchSendMap_keepsOrder_iff (hmax : 1 ≤ maxSendList) (hint : maxSendList < 2 ^ 31)
    (hc : cur.lookup fd = some (some c)) (hb : bak.lookup fd = some (some b)) (hcne : c ≠ [])
    (hover : (c.length + b.length : ℤ) > maxSendList) :
    (∃ l, (switchSendMap maxSendList cur bak).2.lookup fd = some (some l) ∧ KeepsOrder b c l) ↔
      c.head? = b.head? ∧ (needMove maxSendList c ≤ 0 ∨ c ++ b = b ++ c) := by
  have hu : (uint32 maxSendList : ℤ) = maxSendList := cast_uint32 (by omega) (by omega)
  rw [switchSendMap_overflow hc hb (by omega)]
  by_cases hmove : needMove maxSendList c ≤ 0
  · rw [if_pos hmove]
    constructor
    · rintro ⟨l, hl, -, hhead⟩
      rw [Option.some.injEq, Option.some.injEq] at hl
      exact ⟨hl ▸ hhead, .inl hmove⟩
    · rintro ⟨hhead, -⟩
      exact ⟨c, rfl, List.sublist_append_right _ _, hhead⟩
  · rw [if_neg hmove]
    have hfront : (c ++ b).head? = c.head? := List.head?_append_of_ne_nil _ hcne
    constructor
    · rintro ⟨l, hl, hsub, hhead⟩
      rw [Option.some.injEq, Option.some.injEq] at hl
      subst hl
      refine ⟨hfront ▸ hhead, .inr (hsub.eq_of_length ?_)⟩
      rw [List.length_append, List.length_append, Nat.add_comm]
    · rintro ⟨hhead, hmove' | heq⟩
      · exact absurd hmove' hmove
      · exact ⟨c ++ b, rfl, heq ▸ List.Sublist.refl _, hfront.trans hhead⟩

/-- One message that waits in both lists. -/
theorem switchSendMap_keepsOrder_iff_same :
    (∃ l, (switchSendMap 1 (AList.singleton 7 (some [0])) (AList.singleton 7 (some [0]))).2.lookup 7
      = some (some l) ∧ KeepsOrder [0] [0] l) ↔
      ([0] : List ℕ).head? = [0].head? ∧ (needMove 1 [0] ≤ 0 ∨ [0] ++ [0] = [0] ++ [0]) :=
  switchSendMap_keepsOrder_iff (by decide) (by decide) rfl rfl (by decide) (by decide)

/-- **An overflow reorders**: of two lists of two, with room for three, the
older messages come out behind the newer ones, and none is dropped. -/
theorem switchSendMap_reorders :
    (switchSendMap 3 (AList.singleton 7 (some [2, 3])) (AList.singleton 7 (some [0, 1]))).2.lookup 7
      = some (some [2, 3, 0, 1]) ∧ ¬ KeepsOrder [0, 1] [2, 3] [2, 3, 0, 1] := by
  decide

/-- **Two lists of different messages never come through an overflow in
order.** -/
theorem switchSendMap_not_keepsOrder (hmax : 1 ≤ maxSendList) (hint : maxSendList < 2 ^ 31)
    (hc : cur.lookup fd = some (some c)) (hb : bak.lookup fd = some (some b)) (hcne : c ≠ [])
    (hdisj : c.Disjoint b) (hover : (c.length + b.length : ℤ) > maxSendList) :
    ¬ ∃ l, (switchSendMap maxSendList cur bak).2.lookup fd = some (some l) ∧ KeepsOrder b c l := by
  have hu : (uint32 maxSendList : ℤ) = maxSendList := cast_uint32 (by omega) (by omega)
  rw [switchSendMap_overflow hc hb (by omega)]
  rintro ⟨l, hl, -, hhead⟩
  rw [Option.some.injEq, Option.some.injEq] at hl
  obtain ⟨x, c', rfl⟩ := List.exists_cons_of_ne_nil hcne
  have hfront : b.head? = some x := by
    rw [← hhead, ← hl]
    split <;> rfl
  exact hdisj List.mem_cons_self (List.mem_of_mem_head? hfront)

end Network

end EupuServer
