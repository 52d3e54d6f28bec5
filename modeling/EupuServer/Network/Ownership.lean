import EupuServer.Network.SendHeap
import Mathlib.Data.List.ReduceOption
import Mathlib.Data.Multiset.Bind
/-!
# Who owns the lists and the messages to send

`Owns` says what is owned in the middle of a function: the pointers to lists
that stand in maps, the lists that were taken out, whose messages count
apart, and the messages that stand in no list of a map. Each function on the
objects has a rule from what is owned before it to what is owned after it,
which says as well that it uses no object that was deleted.
-/

namespace EupuServer

namespace Network

open Bytes IntMap

/-- The messages that the pointers of a list point to. -/
def ptrs (ps : List Ptr) : Multiset ℕ := ↑ps.reduceOption

/-- The messages in the list that a pointer points to. -/
def content (lists : Heap (List Ptr)) (p : Ptr) : Multiset ℕ :=
  ((p.bind lists.get).map ptrs).getD 0

section Pointers

variable {lists : Heap (List Ptr)} {p : Ptr} {ps qs : List Ptr} {l a : ℕ}

@[simp] theorem ptrs_nil : ptrs [] = 0 := rfl

@[simp] theorem ptrs_none : ptrs (none :: ps) = ptrs ps := rfl

@[simp] theorem ptrs_some : ptrs (some a :: ps) = a ::ₘ ptrs ps := rfl

@[simp] theorem ptrs_append : ptrs (ps ++ qs) = ptrs ps + ptrs qs := by
  rw [ptrs, List.reduceOption_append, ← Multiset.coe_add]
  rfl

theorem mem_ptrs : a ∈ ptrs ps ↔ ∃ i : ℕ, ps[i]? = some (some a) := by
  rw [ptrs, Multiset.mem_coe, List.reduceOption_mem_iff, List.mem_iff_getElem?]

/-- A message that a list points to once stands at one place of it. -/
theorem index_unique {i j : ℕ} (hnodup : (ptrs ps).Nodup) (hi : ps[i]? = some (some a))
    (hj : ps[j]? = some (some a)) : i = j := by
  induction ps generalizing i j with
  | nil => cases hi
  | cons p ps ih =>
    -- the front is not found again behind it
    have hfront : ∀ k : ℕ, p = some a → ps[k]? ≠ some (some a) := by
      rintro k rfl hk
      rw [ptrs_some, Multiset.nodup_cons] at hnodup
      exact hnodup.1 (mem_ptrs.mpr ⟨k, hk⟩)
    have hrest : (ptrs ps).Nodup := by
      rcases p with _ | b
      · exact hnodup
      · rw [ptrs_some, Multiset.nodup_cons] at hnodup
        exact hnodup.2
    rcases i with _ | i <;> rcases j with _ | j
    · rfl
    · exact absurd hj (hfront j (Option.some.inj hi))
    · exact absurd hi (hfront i (Option.some.inj hj))
    · exact congrArg (· + 1) (ih hrest hi hj)

@[simp] theorem content_none : content lists none = 0 := rfl

theorem content_some (h : lists.get l = some ps) : content lists (some l) = ptrs ps := by
  rw [content, Option.bind_some, h]
  rfl

end Pointers

/-! ## The maps read as lists -/

/-- What is under a descriptor, read from the lists. -/
def shown (lists : Heap (List Ptr)) (m : IntMap Ptr) (fd : ℤ) : Option (Option (List Ptr)) :=
  (m.lookup fd).map fun p => p.bind lists.get

/-- The pointers `S` are read as before. -/
def Same (lists lists' : Heap (List Ptr)) (S : Multiset Ptr) : Prop :=
  ∀ p ∈ S, p.bind lists'.get = p.bind lists.get

/-- What `switchSendMap` makes of what the two maps have under a
descriptor. -/
def mergedAt (maxSendList : ℤ) (c b : Option (Option (List Ptr))) : Option (Option (List Ptr)) :=
  match b with
  | some (some b) => some (some (mergeLists maxSendList c b))
  | _ => c

section Shown

variable {lists lists' : Heap (List Ptr)} {S : Multiset Ptr} {m : IntMap Ptr} {fd k : ℤ} {p : Ptr}

theorem shown_of_lookup (h : m.lookup fd = some p) :
    shown lists m fd = some (p.bind lists.get) := by
  rw [shown, h]
  rfl

theorem shown_of_lookup_none (h : m.lookup fd = none) : shown lists m fd = none := by
  rw [shown, h]
  rfl

theorem shown_insert (p : Ptr) :
    shown lists (m.insert k p) fd =
      if fd = k then some (p.bind lists.get) else shown lists m fd := by
  rw [shown, lookup_insert_eq]
  split <;> rfl

theorem shown_erase :
    shown lists (m.erase k) fd = if fd = k then none else shown lists m fd := by
  rw [shown, lookup_erase_eq]
  split <;> rfl

theorem Same.content (h : Same lists lists' S) :
    S.bind (content lists') = S.bind (content lists) :=
  Multiset.bind_congr fun p hp => by rw [Network.content, Network.content, h p hp]

/-- An entry is read as before, where its pointer is. -/
theorem Same.shown (h : Same lists lists' S) (hmem : ∀ p, m.lookup fd = some p → p ∈ S) :
    shown lists' m fd = shown lists m fd := by
  unfold Network.shown
  rcases hlookup : m.lookup fd with _ | p
  · rfl
  · exact congrArg some (h p (hmem p hlookup))

/-- **A round of the loop of `switchSendMap`** that changes its own descriptor
only: what the rounds after it merge is what the loop merges from this one
on. -/
theorem mergedAt_round {maxSendList fd₀ : ℤ} {es : List (Σ _ : ℤ, Ptr)}
    {f g : ℤ → Option (Option (List Ptr))} (hnotin : fd₀ ∉ es.keys)
    (hat : g fd₀ = mergedAt maxSendList (f fd₀) (some (p.bind lists.get)))
    (hother : ∀ fd ≠ fd₀, g fd = f fd) (hsame : Same lists lists' ↑(es.map Sigma.snd)) (fd : ℤ) :
    mergedAt maxSendList (g fd) ((es.dlookup fd).map fun p => p.bind lists'.get) =
      mergedAt maxSendList (f fd)
        ((List.dlookup fd (⟨fd₀, p⟩ :: es)).map fun p => p.bind lists.get) := by
  by_cases hfd : fd = fd₀
  · subst hfd
    rw [List.dlookup_eq_none.mpr hnotin, List.dlookup_cons_eq]
    exact hat
  · rw [List.dlookup_cons_ne _ _ hfd, hother fd hfd]
    rcases hq : es.dlookup fd with _ | q
    · rfl
    · have hmem : q ∈ es.map Sigma.snd := List.mem_map.mpr ⟨⟨fd, q⟩, List.of_mem_dlookup hq, rfl⟩
      rw [Option.map_some, Option.map_some, hsame q hmem]

end Shown

namespace SendObjs

/-- **What is owned**: the lists that the pointers `S` of maps point to with
their messages, the lists `L` that were taken out, and the messages `H`. -/
structure Owns (o : SendObjs) (S : Multiset Ptr) (L H : Multiset ℕ) : Prop where
  lists : o.lists.Owned (L + S.filterMap id)
  msgs : o.msgs.Owned (H + S.bind (content o.lists))

/-! ## The rules for the objects -/

namespace Owns

variable {o : SendObjs} {S : Multiset Ptr} {L H : Multiset ℕ} {l a : ℕ} {p : Ptr}
  {ps : List Ptr}

/-- A null pointer owns nothing. -/
theorem null : o.Owns (none ::ₘ S) L H ↔ o.Owns S L H := by
  have hlists : (none ::ₘ S).filterMap id = S.filterMap id := Multiset.filterMap_cons_none _ _ rfl
  have hmsgs : (none ::ₘ S).bind (content o.lists) = S.bind (content o.lists) := by
    rw [Multiset.cons_bind, content_none, zero_add]
  constructor
  · intro ho
    exact ⟨hlists ▸ ho.lists, hmsgs ▸ ho.msgs⟩
  · intro ho
    exact ⟨hlists.symm ▸ ho.lists, hmsgs.symm ▸ ho.msgs⟩

theorem lists_cons : L + (some l ::ₘ S).filterMap id = l ::ₘ L + S.filterMap id := by
  rw [Multiset.filterMap_cons_some id (some l) S rfl, Multiset.add_cons, Multiset.cons_add]

theorem mem_cons_add {T : Multiset ℕ} : a ∈ a ::ₘ L + T :=
  Multiset.mem_add.mpr (.inl (Multiset.mem_cons_self a L))

/-- **A list is taken out of a map.** -/
theorem detach (ho : o.Owns (some l ::ₘ S) L H) :
    ∃ ps, o.lists.get l = some ps ∧ o.Owns S (l ::ₘ L) (ptrs ps + H) := by
  have hlists := lists_cons ▸ ho.lists
  obtain ⟨ps, hps⟩ := hlists.get mem_cons_add
  refine ⟨ps, hps, hlists, ?_⟩
  have hmsgs := ho.msgs
  rw [Multiset.cons_bind, content_some hps] at hmsgs
  rwa [add_assoc, add_left_comm]

/-- **A list is put into a map.** -/
theorem attach (ho : o.Owns S (l ::ₘ L) (ptrs ps + H)) (hps : o.lists.get l = some ps) :
    o.Owns (some l ::ₘ S) L H where
  lists := lists_cons ▸ ho.lists
  msgs := by
    rw [Multiset.cons_bind, content_some hps, add_left_comm, ← add_assoc]
    exact ho.msgs

/-- A list that was taken out stands in no map. -/
theorem ne_of_detached (ho : o.Owns S (l ::ₘ L) H) (hp : p ∈ S) : p ≠ some l := by
  rintro rfl
  have hnodup := ho.lists.nodup
  rw [Multiset.cons_add, Multiset.nodup_cons, Multiset.mem_add, not_or] at hnodup
  exact hnodup.1.2 (Multiset.mem_filterMap id S |>.mpr ⟨some l, hp, rfl⟩)

/-- What happens to a list that was taken out is nothing to the maps. -/
theorem same (ho : o.Owns S (l ::ₘ L) H) {lists' : Heap (List Ptr)}
    (hsame : ∀ k ≠ l, lists'.get k = o.lists.get k) : Same o.lists lists' S := by
  intro p hp
  rcases p with _ | k
  · rfl
  · have hk : k ≠ l := fun heq => ho.ne_of_detached hp (congrArg some heq)
    exact hsame k hk

/-- A list that was taken out is written. -/
theorem setList (ho : o.Owns S (l ::ₘ L) H) (ps : List Ptr) :
    ∃ o', o.setList l ps = some o' ∧ o'.Owns S (l ::ₘ L) H ∧ o'.lists.get l = some ps ∧
      (∀ k ≠ l, o'.lists.get k = o.lists.get k) := by
  obtain ⟨lists', hset, howned, hget, hsame⟩ := ho.lists.set mem_cons_add ps
  refine ⟨{ o with lists := lists' }, ?_, ⟨howned, ?_⟩, hget, hsame⟩
  · rw [SendObjs.setList, hset]
    rfl
  · rw [(ho.same hsame).content]
    exact ho.msgs

/-- A list that was taken out is deleted. -/
theorem deleteList (ho : o.Owns S (l ::ₘ L) H) :
    ∃ o', o.deleteList l = some o' ∧ o'.Owns S L H ∧
      (∀ k ≠ l, o'.lists.get k = o.lists.get k) := by
  have hlists := ho.lists
  rw [Multiset.cons_add] at hlists
  obtain ⟨lists', hfree, howned, -, hsame⟩ := hlists.free
  refine ⟨{ o with lists := lists' }, ?_, ⟨howned, ?_⟩, hsame⟩
  · rw [SendObjs.deleteList, hfree]
    rfl
  · rw [(ho.same hsame).content]
    exact ho.msgs

/-- The lists of maps are there when another is made. -/
theorem same_newList (ho : o.Owns S L H) : Same o.lists o.newList.2.lists S := by
  intro p hp
  rcases p with _ | k
  · rfl
  · have hlive : (o.lists.objs k).isSome :=
      (ho.lists.mem k).mp (Multiset.mem_add.mpr
        (.inr ((Multiset.mem_filterMap id S).mpr ⟨some k, hp, rfl⟩)))
    exact Heap.get_alloc_of_live [] hlive

/-- A list is made. -/
theorem newList (ho : o.Owns S L H) : o.newList.2.Owns S (o.newList.1 ::ₘ L) H where
  lists := by
    rw [Multiset.cons_add]
    exact ho.lists.alloc []
  msgs := by
    rw [ho.same_newList.content]
    exact ho.msgs

/-- A message that is held is there to be read. -/
theorem getMsg (ho : o.Owns S L (a ::ₘ H)) : ∃ d, o.msgs.get a = some d :=
  ho.msgs.get mem_cons_add

/-- A message that is held is written. -/
theorem setMsg (ho : o.Owns S L (a ::ₘ H)) (d : NetData) :
    ∃ o', o.setMsg a d = some o' ∧ o'.Owns S L (a ::ₘ H) ∧ o'.lists = o.lists := by
  obtain ⟨msgs', hset, howned, -, -⟩ := ho.msgs.set mem_cons_add d
  refine ⟨{ o with msgs := msgs' }, ?_, ⟨ho.lists, howned⟩, rfl⟩
  rw [SendObjs.setMsg, hset]
  rfl

/-- A message that is held is deleted. -/
theorem deleteMsg (ho : o.Owns S L (a ::ₘ H)) :
    ∃ o', o.deleteMsg (some a) = some o' ∧ o'.Owns S L H ∧ o'.lists = o.lists := by
  have hmsgs := ho.msgs
  rw [Multiset.cons_add] at hmsgs
  obtain ⟨msgs', hfree, howned, -, -⟩ := hmsgs.free
  refine ⟨{ o with msgs := msgs' }, ?_, ⟨ho.lists, howned⟩, rfl⟩
  rw [SendObjs.deleteMsg, hfree]
  rfl

/-- What a pointer points to is deleted, if anything. -/
theorem deletePtr (ho : o.Owns S L (ptrs (p :: ps) + H)) :
    ∃ o', o.deleteMsg p = some o' ∧ o'.Owns S L (ptrs ps + H) ∧ o'.lists = o.lists := by
  rcases p with _ | a
  · exact ⟨o, rfl, ho, rfl⟩
  · rw [ptrs_some, Multiset.cons_add] at ho
    exact ho.deleteMsg

/-- Two lists that were taken out are two. -/
theorem detached_ne {k : ℕ} (ho : o.Owns S (l ::ₘ k ::ₘ L) H) : l ≠ k := by
  have hnodup := ho.lists.nodup
  rw [Multiset.cons_add, Multiset.nodup_cons] at hnodup
  rintro rfl
  exact hnodup.1 mem_cons_add

/-! ## The rules for the functions -/

/-- The messages that a list pointed to are deleted. -/
theorem deleteMsgs (ho : o.Owns S L (ptrs ps + H)) :
    ∃ o', o.deleteMsgs ps = some o' ∧ o'.Owns S L H ∧ o'.lists = o.lists := by
  induction ps generalizing o with
  | nil =>
    rw [ptrs_nil, zero_add] at ho
    exact ⟨o, rfl, ho, rfl⟩
  | cons p ps ih =>
    obtain ⟨o₁, hdelete, ho₁, hlists₁⟩ := ho.deletePtr
    obtain ⟨o₂, hrest, ho₂, hlists₂⟩ := ih ho₁
    refine ⟨o₂, ?_, ho₂, hlists₂.trans hlists₁⟩
    rw [SendObjs.deleteMsgs, hdelete, Option.bind_some, hrest]

/-- **A list is deleted with its messages.** -/
theorem dropList (ho : o.Owns (some l ::ₘ S) L H) :
    ∃ o', o.dropList l = some o' ∧ o'.Owns S L H ∧ Same o.lists o'.lists S := by
  obtain ⟨ps, hps, ho₀⟩ := ho.detach
  obtain ⟨o₁, hdelete, ho₁, hlists⟩ := ho₀.deleteMsgs
  obtain ⟨o₂, hset, ho₂, -, hsame₂⟩ := ho₁.setList []
  obtain ⟨o₃, hfree, ho₃, hsame₃⟩ := ho₂.deleteList
  have hsame : ∀ k ≠ l, o₃.lists.get k = o.lists.get k := by
    intro k hk
    rw [hsame₃ k hk, hsame₂ k hk, hlists]
  refine ⟨o₃, ?_, ho₃, ho₀.same hsame⟩
  simp only [SendObjs.dropList, hps, hdelete, hset, hfree, Option.bind_eq_bind, Option.bind_some]

/-- The lists of a map are deleted. -/
theorem dropLists {ls : List Ptr} (ho : o.Owns (↑ls + S) L H) :
    ∃ o', o.dropLists ls = some o' ∧ o'.Owns S L H := by
  induction ls generalizing o with
  | nil =>
    rw [Multiset.coe_nil, zero_add] at ho
    exact ⟨o, rfl, ho⟩
  | cons p ls ih =>
    rw [← Multiset.cons_coe, Multiset.cons_add] at ho
    rcases p with _ | l
    · exact ih (null.mp ho)
    · obtain ⟨o₁, hdrop, ho₁, -⟩ := ho.dropList
      obtain ⟨o₂, hrest, ho₂⟩ := ih ho₁
      refine ⟨o₂, ?_, ho₂⟩
      rw [SendObjs.dropLists, hdrop, Option.bind_some, hrest]

/-- **The overflow branch**: each message of the backup list is deleted or
pushed to the list `l`, as the loop over lists has it. -/
theorem overflowLoop (needmove idx : ℤ) {c bak : List Ptr}
    (ho : o.Owns S (l ::ₘ L) (ptrs c + (ptrs bak + H))) (hc : o.lists.get l = some c) :
    ∃ o', o.overflowLoop needmove idx l bak = some o' ∧
      o'.Owns S (l ::ₘ L) (ptrs (Network.overflowLoop needmove idx c bak) + H) ∧
      o'.lists.get l = some (Network.overflowLoop needmove idx c bak) ∧
      ∀ k ≠ l, o'.lists.get k = o.lists.get k := by
  induction bak generalizing o c with
  | nil =>
    rw [ptrs_nil, zero_add] at ho
    exact ⟨o, rfl, ho, hc, fun _ _ => rfl⟩
  | cons p bak ih =>
    rw [SendObjs.overflowLoop, Network.overflowLoop]
    split
    · rw [add_left_comm] at ho
      obtain ⟨o₁, hdelete, ho₁, hlists⟩ := ho.deletePtr
      rw [add_left_comm] at ho₁
      rw [hdelete, Option.bind_some, ← hlists]
      exact ih ho₁ (hlists ▸ hc)
    · obtain ⟨o₁, hset, ho₁, hc₁, hsame₁⟩ := ho.setList (c ++ [p])
      have hpush : ptrs c + (ptrs (p :: bak) + H) = ptrs (c ++ [p]) + (ptrs bak + H) := by
        rw [ptrs_append, add_assoc, ← add_assoc (ptrs [p]), ← ptrs_append, List.singleton_append]
      simp only [hc, hset, Option.bind_eq_bind, Option.bind_some]
      obtain ⟨o₂, hloop, ho₂, hc₂, hsame₂⟩ := ih (hpush ▸ ho₁) hc₁
      exact ⟨o₂, hloop, ho₂, hc₂, fun k hk => (hsame₂ k hk).trans (hsame₁ k hk)⟩

/-- The emptied backup list is deleted, and the list `l` put back. -/
theorem deleteBak {bak : ℕ} {c : List Ptr} (ho : o.Owns S (l ::ₘ bak ::ₘ L) (ptrs c + H))
    (hc : o.lists.get l = some c) :
    ∃ o', ((o.setList bak []).bind fun o => o.deleteList bak) = some o' ∧
      o'.Owns (some l ::ₘ S) L H ∧ o'.lists.get l = some c ∧
      ∀ k ≠ bak, o'.lists.get k = o.lists.get k := by
  have hne := ho.detached_ne
  rw [Multiset.cons_swap] at ho
  obtain ⟨o₁, hset, ho₁, -, hsame₁⟩ := ho.setList []
  obtain ⟨o₂, hfree, ho₂, hsame₂⟩ := ho₁.deleteList
  have hsame : ∀ k ≠ bak, o₂.lists.get k = o.lists.get k := fun k hk =>
    (hsame₂ k hk).trans (hsame₁ k hk)
  have hc₂ : o₂.lists.get l = some c := (hsame l hne).trans hc
  refine ⟨o₂, ?_, ho₂.attach hc₂, hc₂, hsame⟩
  rw [hset, Option.bind_some, hfree]

/-- **Two lists are merged** as lists are, and the second is deleted. -/
theorem mergeLists (maxSendList : ℤ) {bak : ℕ} (ho : o.Owns (some l ::ₘ some bak ::ₘ S) L H) :
    ∃ o' c b, o.mergeLists maxSendList l bak = some o' ∧ o'.Owns (some l ::ₘ S) L H ∧
      o.lists.get l = some c ∧ o.lists.get bak = some b ∧
      o'.lists.get l = some (Network.mergeLists maxSendList (some (some c)) b) ∧
      Same o.lists o'.lists S := by
  obtain ⟨c, hc, hocur⟩ := ho.detach
  obtain ⟨b, hb, hobak⟩ := hocur.detach
  have hsame : ∀ o' : SendObjs, (∀ k ≠ l, k ≠ bak → o'.lists.get k = o.lists.get k) →
      Same o.lists o'.lists S := by
    rintro o' hkeep (_ | k) hk
    · rfl
    · refine hkeep k (fun heq => ?_) (fun heq => ?_)
      · exact hocur.ne_of_detached (Multiset.mem_cons_of_mem hk) (congrArg some heq)
      · exact hobak.ne_of_detached hk (congrArg some heq)
  rw [Multiset.cons_swap, add_left_comm] at hobak
  by_cases hover : c.length + b.length > uint32 maxSendList
  · obtain ⟨o₁, hloop, ho₁, hc₁, hsame₁⟩ := hobak.overflowLoop (needMove maxSendList c) 0 hc
    obtain ⟨o₂, hdelete, ho₂, hc₂, hsame₂⟩ := ho₁.deleteBak hc₁
    refine ⟨o₂, c, b, ?_, ho₂, hc, hb, ?_, hsame o₂ fun k hl hbak => ?_⟩
    · simp only [SendObjs.mergeLists, hc, hb, if_pos hover, hloop, Option.bind_eq_bind,
        Option.bind_some]
      exact hdelete
    · simp only [Network.mergeLists, if_pos hover]
      exact hc₂
    · rw [hsame₂ k hbak, hsame₁ k hl]
  · obtain ⟨o₁, hset, ho₁, hc₁, hsame₁⟩ := hobak.setList (b ++ c)
    have hmerge : ptrs c + (ptrs b + H) = ptrs (b ++ c) + H := by
      rw [ptrs_append, add_left_comm, add_assoc]
    obtain ⟨o₂, hdelete, ho₂, hc₂, hsame₂⟩ := (hmerge ▸ ho₁).deleteBak hc₁
    refine ⟨o₂, c, b, ?_, ho₂, hc, hb, ?_, hsame o₂ fun k hl hbak => ?_⟩
    · simp only [SendObjs.mergeLists, hc, hb, if_neg hover, hset, Option.bind_eq_bind,
        Option.bind_some]
      exact hdelete
    · simp only [Network.mergeLists, if_neg hover]
      exact hc₂
    · rw [hsame₂ k hbak, hsame₁ k hl]

/-- **The loop of `switchSendMap`**: what the entries of the backup map that
are left and the current map own, the current map owns at the end, and each
descriptor has its two lists merged. -/
theorem mergeLoop (maxSendList : ℤ) {cur : IntMap Ptr} {es : List (Σ _ : ℤ, Ptr)}
    (ho : o.Owns (↑(es.map Sigma.snd) + values cur) L H) (hes : es.NodupKeys) :
    ∃ r, o.mergeLoop maxSendList cur es = some r ∧ r.1.Owns (values r.2) L H ∧
      ∀ fd, shown r.1.lists r.2 fd = mergedAt maxSendList (shown o.lists cur fd)
        ((es.dlookup fd).map fun p => p.bind o.lists.get) := by
  induction es generalizing o cur with
  | nil =>
    rw [List.map_nil, Multiset.coe_nil, zero_add] at ho
    exact ⟨(o, cur), rfl, ho, fun fd => rfl⟩
  | cons e es ih =>
    obtain ⟨fd₀, p⟩ := e
    obtain ⟨hnotin, hes'⟩ := List.nodupKeys_cons.mp hes
    rw [List.map_cons, ← Multiset.cons_coe, Multiset.cons_add] at ho
    -- the rest of the loop, after a round that changed the descriptor `fd₀` only
    have hrest : ∀ (o₁ : SendObjs) (cur₁ : IntMap Ptr),
        o₁.Owns (↑(es.map Sigma.snd) + values cur₁) L H →
        shown o₁.lists cur₁ fd₀ =
          mergedAt maxSendList (shown o.lists cur fd₀) (some (p.bind o.lists.get)) →
        (∀ fd ≠ fd₀, shown o₁.lists cur₁ fd = shown o.lists cur fd) →
        Same o.lists o₁.lists ↑(es.map Sigma.snd) →
        ∃ r, o₁.mergeLoop maxSendList cur₁ es = some r ∧ r.1.Owns (values r.2) L H ∧
          ∀ fd, shown r.1.lists r.2 fd = mergedAt maxSendList (shown o.lists cur fd)
            ((List.dlookup fd (⟨fd₀, p⟩ :: es)).map fun p => p.bind o.lists.get) := by
      intro o₁ cur₁ ho₁ hat hother hsame
      obtain ⟨r, hloop, ho', hshown⟩ := ih ho₁ hes'
      exact ⟨r, hloop, ho', fun fd =>
        (hshown fd).trans (mergedAt_round hnotin hat hother hsame fd)⟩
    rcases p with _ | bak
    · exact hrest o cur (null.mp ho) rfl (fun _ _ => rfl) fun _ _ => rfl
    · obtain ⟨b, hb, -⟩ := ho.detach
      rw [SendObjs.mergeLoop]
      rcases hlookup : cur.lookup fd₀ with _ | _ | l
      · refine hrest o (cur.insert fd₀ (some bak)) ?_ ?_ ?_ fun _ _ => rfl
        · rwa [values_insert_of_lookup hlookup, Multiset.add_cons]
        · rw [shown_insert, if_pos rfl, shown_of_lookup_none hlookup, Option.bind_some, hb]
          rfl
        · intro fd hfd
          rw [shown_insert, if_neg hfd]
      · rw [values_of_lookup hlookup, Multiset.add_cons, Multiset.cons_swap] at ho
        refine hrest o (cur.insert fd₀ (some bak)) ?_ ?_ ?_ fun _ _ => rfl
        · rw [values_insert, Multiset.add_cons]
          exact null.mp ho
        · rw [shown_insert, if_pos rfl, shown_of_lookup hlookup, Option.bind_some, hb]
          rfl
        · intro fd hfd
          rw [shown_insert, if_neg hfd]
      · rw [values_of_lookup hlookup, Multiset.add_cons, Multiset.cons_swap] at ho
        obtain ⟨o₁, c, b', hmerge, ho₁, hc, hb', hc₁, hsame⟩ :=
          ho.mergeLists maxSendList
        simp only [hmerge, Option.bind_some]
        refine hrest o₁ cur ?_ ?_ ?_ ?_
        · rwa [values_of_lookup hlookup, Multiset.add_cons]
        · rw [shown_of_lookup hlookup, shown_of_lookup hlookup, Option.bind_some, Option.bind_some,
            Option.bind_some, hc₁, hc, hb']
          rfl
        · intro fd hfd
          refine hsame.shown fun q hq => Multiset.mem_add.mpr (.inr (mem_values.mpr ⟨fd, ?_⟩))
          rwa [AList.lookup_erase_ne hfd]
        · intro q hq
          exact hsame q (Multiset.mem_add.mpr (.inl hq))

/-- **The loop of `doSendMessage`**: messages are deleted as they leave the
front of the list, the others stay, and no other list changes. -/
theorem sendLoop (key : SocketKey) (script : List SendResult)
    (ho : o.Owns S (l ::ₘ L) (ptrs ps + H)) (hps : o.lists.get l = some ps) :
    ∃ r ps', o.sendLoop key l script ps = some r ∧ r.2.lists.get l = some ps' ∧ ps' <:+ ps ∧
      r.2.Owns S (l ::ₘ L) (ptrs ps' + H) ∧ ∀ k ≠ l, r.2.lists.get k = o.lists.get k := by
  induction ps generalizing o script with
  | nil => exact ⟨(false, o), [], rfl, hps, List.suffix_rfl, ho, fun _ _ => rfl⟩
  | cons p ps ih =>
    -- the rest of the loop, after a round that took the message off the list
    have hrest : ∀ (o₁ : SendObjs) (script : List SendResult),
        o₁.Owns S (l ::ₘ L) (ptrs ps + H) → o₁.lists.get l = some ps →
        (∀ k ≠ l, o₁.lists.get k = o.lists.get k) →
        ∃ r ps', o₁.sendLoop key l script ps = some r ∧ r.2.lists.get l = some ps' ∧
          ps' <:+ p :: ps ∧ r.2.Owns S (l ::ₘ L) (ptrs ps' + H) ∧
          ∀ k ≠ l, r.2.lists.get k = o.lists.get k := by
      intro o₁ script ho₁ hget hsame₁
      obtain ⟨r, ps', hloop, hps', hsuffix, ho', hsame⟩ := ih script ho₁ hget
      exact ⟨r, ps', hloop, hps', hsuffix.trans (List.suffix_cons p ps), ho',
        fun k hk => (hsame k hk).trans (hsame₁ k hk)⟩
    rcases p with _ | a
    · obtain ⟨o₁, hset, ho₁, hget, hsame₁⟩ := ho.setList ps
      simp only [SendObjs.sendLoop, hset, Option.bind_eq_bind, Option.bind_some]
      exact hrest o₁ script ho₁ hget hsame₁
    · obtain ⟨o₁, hdelete, ho₁, hlists⟩ := ho.deletePtr
      obtain ⟨o₂, hset, ho₂, hget, hsame₂⟩ := ho₁.setList ps
      rw [hlists] at hsame₂
      rw [ptrs_some, Multiset.cons_add] at ho
      obtain ⟨d, hd⟩ := ho.getMsg
      simp only [SendObjs.sendLoop, hd, hdelete, hset, Option.bind_eq_bind, Option.bind_some]
      split
      · exact hrest o₂ script ho₂ hget hsame₂
      · split
        · refine ⟨(true, o), some a :: ps, rfl, hps, List.suffix_rfl, ?_, fun _ _ => rfl⟩
          rwa [ptrs_some, Multiset.cons_add]
        · split
          · split
            · obtain ⟨o₃, hwrite, ho₃, hlists₃⟩ := ho.setMsg
                { d with
                  pdata := d.pdata.drop (sendMsg script d.bytes).sent.length
                  dataLen := d.dataLen - (sendMsg script d.bytes).sent.length }
              rw [hwrite]
              refine ⟨(false, o₃), some a :: ps, rfl, hlists₃ ▸ hps, List.suffix_rfl, ?_,
                fun k _ => ?_⟩
              · rwa [ptrs_some, Multiset.cons_add]
              · exact congrArg (fun lists => lists.get k) hlists₃
            · exact ⟨(false, o₂), ps, rfl, hget, List.suffix_cons _ ps, ho₂, hsame₂⟩
          · exact hrest o₂ _ ho₂ hget hsame₂

end Owns

end SendObjs

end Network

end EupuServer
