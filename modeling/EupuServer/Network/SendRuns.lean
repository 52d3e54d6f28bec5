import EupuServer.Network.Ownership
import Mathlib.Logic.Relation
/-!
# Runs over the send maps, with their pointers

No call uses or deletes an object that was deleted, and after each of them the
maps own the lists with their messages, and the calls of
`createMsgToSendList` under way a message each (`SendHeap.Owned`). Read as
maps of lists, the maps do what the functions on lists of `SendMap` say
(`sendHeap_refines`): for them the pointers make no difference.
-/

namespace EupuServer

namespace Network

open Protocol IntMap

/-! ## The rules for the calls -/

section Keys

variable {β : Type*} {m : AList fun _ : ℕ => β} {a : ℕ}

theorem mem_keys_of_lookup {b : β} (h : m.lookup a = some b) : a ∈ m :=
  AList.lookup_isSome.mp (by rw [h]; rfl)

theorem keys_of_mem (h : a ∈ m) : (↑m.keys : Multiset ℕ) = a ::ₘ ↑(m.erase a).keys := by
  rw [AList.keys_erase, ← Multiset.coe_erase, Multiset.cons_erase]
  exact AList.mem_keys.mp h

theorem keys_insert_of_mem (h : a ∈ m) (b : β) :
    (↑(m.insert a b).keys : Multiset ℕ) = ↑m.keys := by
  rw [keys_of_mem h, AList.keys_insert, AList.keys_erase, Multiset.cons_coe]

theorem keys_insert_of_notMem (h : a ∉ m) (b : β) :
    (↑(m.insert a b).keys : Multiset ℕ) = a ::ₘ ↑m.keys := by
  rw [AList.keys_insert, List.erase_of_not_mem fun hmem => h (AList.mem_keys.mpr hmem),
    Multiset.cons_coe]

end Keys

section Values

variable {m : IntMap Ptr} {T : Multiset Ptr} {fd : ℤ} {p : Ptr}

theorem mem_values_add (h : m.lookup fd = some p) : p ∈ values m + T :=
  Multiset.mem_add.mpr (.inl (mem_values.mpr ⟨fd, h⟩))

theorem mem_add_values (h : m.lookup fd = some p) : p ∈ T + values m :=
  Multiset.mem_add.mpr (.inr (mem_values.mpr ⟨fd, h⟩))

end Values

namespace SendHeap

/-- **The invariant of a run**: the maps own the lists with their messages,
and the calls under way own a message each. -/
def Owned (s : SendHeap) : Prop := s.objs.Owns (values s.cur + values s.bak) 0 ↑s.creating.keys

/-- The two maps, read from the objects, are the maps of lists `V` and `W`. -/
structure Shows (s : SendHeap) (V W : SendMap Ptr) : Prop where
  cur : ∀ fd, shown s.objs.lists s.cur fd = V.lookup fd
  bak : ∀ fd, shown s.objs.lists s.bak fd = W.lookup fd

/-- Messages are taken off the front of one list. -/
structure Taken (fd : ℤ) (W W' : SendMap Ptr) : Prop where
  front : listAt W' fd <:+ listAt W fd
  other : ∀ k ≠ fd, W'.lookup k = W.lookup k

/-- **A step of the maps of lists**, which knows of no objects: a message is
added, the maps are switched, messages are taken off the front of a list, or
all are dropped. -/
inductive MapsStep (maxSendList : ℤ) (V W : SendMap Ptr) : SendMap Ptr → SendMap Ptr → Prop
  | same : MapsStep maxSendList V W V W
  | addMsgToSendList (fd : ℤ) (a : ℕ) : MapsStep maxSendList V W
      (Network.addMsgToSendList maxSendList V fd (some a)).2 W
  | switchSendMap : MapsStep maxSendList V W
      (Network.switchSendMap maxSendList V W).1 (Network.switchSendMap maxSendList V W).2
  | take (fd : ℤ) (W' : SendMap Ptr) (h : Taken fd W W') : MapsStep maxSendList V W V W'
  | clean : MapsStep maxSendList V W ∅ ∅

/-- The maps of lists that steps lead to. -/
def MapsReach (maxSendList : ℤ) (V W : SendMap Ptr) : Prop :=
  Relation.ReflTransGen (fun m m' : SendMap Ptr × SendMap Ptr =>
    MapsStep maxSendList m.1 m.2 m'.1 m'.2) (∅, ∅) (V, W)

/-- **A call goes well**: it uses no object that was deleted, it keeps the
invariant, and the maps of lists take a step. -/
def Goes (maxSendList : ℤ) (s : SendHeap) (x : Option SendHeap) : Prop :=
  ∃ s', x = some s' ∧ s'.Owned ∧ ∀ V W, s.Shows V W →
    ∃ V' W', MapsStep maxSendList V W V' W' ∧ s'.Shows V' W'

variable {s : SendHeap} {a l : ℕ} {H : Multiset ℕ} {fd maxSendList : ℤ} {V W : SendMap Ptr}

theorem owned_init : init.Owned where
  lists := .empty
  msgs := .empty

theorem shows_init : init.Shows ∅ ∅ := ⟨fun _ => rfl, fun _ => rfl⟩

/-- A call that changes no map and no list. -/
theorem Goes.of_same {s' : SendHeap} {x : Option SendHeap} (hx : x = some s') (ho : s'.Owned)
    (hcur : s'.cur = s.cur) (hbak : s'.bak = s.bak) (hlists : s'.objs.lists = s.objs.lists) :
    Goes maxSendList s x := by
  refine ⟨s', hx, ho, fun V W hV => ⟨V, W, .same, fun fd => ?_, fun fd => ?_⟩⟩
  · rw [hcur, hlists, hV.cur]
  · rw [hbak, hlists, hV.bak]

/-- A call holds the message it allocated, besides the others. -/
theorem Owned.of_mem (ho : s.Owned) (ha : a ∈ s.creating) :
    s.objs.Owns (values s.cur + values s.bak) 0 (a ::ₘ ↑(s.creating.erase a).keys) :=
  keys_of_mem ha ▸ ho

theorem Owned.newMsg (ho : s.Owned) (r : SendRequest) :
    Goes maxSendList s (some (s.newMsg r)) := by
  unfold SendHeap.newMsg
  split
  · exact .of_same rfl ho rfl rfl rfl
  · have hmsgs := ho.msgs.alloc {}
    have hfresh : (s.objs.msgs.alloc {}).1 ∉ s.creating := fun hmem =>
      (Multiset.nodup_cons.mp hmsgs.nodup).1 (Multiset.mem_add.mpr (.inl (AList.mem_keys.mp hmem)))
    refine .of_same rfl ⟨ho.lists, ?_⟩ rfl rfl rfl
    rw [keys_insert_of_notMem hfresh, Multiset.cons_add]
    exact hmsgs

theorem Owned.buildMsg (ho : s.Owned) (ha : a ∈ s.creating) (host : Host) (r : SendRequest) :
    Goes maxSendList s (s.buildMsg host a r) := by
  -- the message is written, and held further
  have hwrite : ∀ d pc, ∃ o, s.objs.setMsg a d = some o ∧ o.lists = s.objs.lists ∧
      SendHeap.Owned { s with objs := o, creating := s.creating.insert a pc } := by
    intro d pc
    obtain ⟨o, hset, ho', hlists⟩ := (ho.of_mem ha).setMsg d
    refine ⟨o, hset, hlists, ?_⟩
    unfold SendHeap.Owned
    rwa [keys_insert_of_mem ha, keys_of_mem ha]
  unfold SendHeap.buildMsg
  split
  · obtain ⟨o, hset, hlists, ho'⟩ := hwrite (r.withBody.getD r.alloc) .failed
    exact .of_same (by rw [hset]; rfl) ho' rfl rfl hlists
  · rename_i d _
    obtain ⟨o, hset, hlists, ho'⟩ := hwrite d .built
    exact .of_same (by rw [hset]; rfl) ho' rfl rfl hlists

/-- The entries of the two maps are read as before, where their pointers
are. -/
theorem Shows.cur_eq {lists' : Heap (List Ptr)} {S : Multiset Ptr} (hV : s.Shows V W)
    (hsame : Same s.objs.lists lists' S) (hmem : ∀ p, s.cur.lookup fd = some p → p ∈ S) :
    shown lists' s.cur fd = V.lookup fd := (hsame.shown hmem).trans (hV.cur fd)

theorem Shows.bak_eq {lists' : Heap (List Ptr)} {S : Multiset Ptr} (hV : s.Shows V W)
    (hsame : Same s.objs.lists lists' S) (hmem : ∀ p, s.bak.lookup fd = some p → p ∈ S) :
    shown lists' s.bak fd = W.lookup fd := (hsame.shown hmem).trans (hV.bak fd)

/-- A list is put under a descriptor of the current map. -/
theorem Shows.new_cur (hV : s.Shows V W) {o : SendObjs} {ps : List Ptr}
    (hps : o.lists.get l = some ps)
    (hsame : Same s.objs.lists o.lists (values s.cur + values s.bak)) :
    SendHeap.Shows { s with objs := o, cur := s.cur.insert fd (some l) }
      (V.insert fd (some ps)) W where
  cur k := by
    rw [shown_insert, lookup_insert_eq]
    split
    · exact congrArg some hps
    · exact hV.cur_eq hsame fun p hp => mem_values_add hp
  bak k := hV.bak_eq hsame fun p hp => mem_add_values hp

/-- The list of a descriptor is written, and the others are read as before. -/
theorem Shows.insert_cur (hV : s.Shows V W) {o : SendObjs} {ps : List Ptr}
    (h : s.cur.lookup fd = some (some l)) (hps : o.lists.get l = some ps)
    (hsame : Same s.objs.lists o.lists (values (s.cur.erase fd) + values s.bak)) :
    SendHeap.Shows { s with objs := o } (V.insert fd (some ps)) W where
  cur k := by
    rw [lookup_insert_eq]
    split
    · rename_i hk
      rw [hk, shown_of_lookup h, Option.bind_some, hps]
    · rename_i hk
      exact hV.cur_eq hsame fun p hp => mem_values_add ((AList.lookup_erase_ne hk).trans hp)
  bak k := hV.bak_eq hsame fun p hp => mem_add_values hp

/-- **`addMsgToSendList`** hands the message to a list, or leaves it with its
caller; and it does to the maps what it does to maps of lists. -/
theorem addMsgToSendList_spec (maxSendList : ℤ)
    (ho : s.objs.Owns (values s.cur + values s.bak) 0 (a ::ₘ H)) :
    ∃ d r, s.objs.msgs.get a = some d ∧ s.addMsgToSendList maxSendList a = some r ∧
      r.2.creating = s.creating ∧
      r.2.objs.Owns (values r.2.cur + values r.2.bak) 0 (if r.1 then H else a ::ₘ H) ∧
      ∀ V W, s.Shows V W →
        r.1 = (Network.addMsgToSendList maxSendList V d.fddat (some a)).1 ∧
        r.2.Shows (Network.addMsgToSendList maxSendList V d.fddat (some a)).2 W := by
  obtain ⟨d, hd⟩ := ho.getMsg
  simp only [SendHeap.addMsgToSendList, Network.addMsgToSendList, hd, Option.bind_eq_bind,
    Option.bind_some]
  refine ⟨d, ?_⟩
  rcases hlookup : s.cur.lookup d.fddat with _ | _ | l
  · obtain ⟨o, hset, ho', hget, hother⟩ := ho.newList.setList [some a]
    simp only [hset, Option.bind_some]
    refine ⟨_, trivial, rfl, rfl, ?_, fun V W hV => ?_⟩
    · rw [values_insert_of_lookup hlookup, Multiset.cons_add]
      refine SendObjs.Owns.attach ?_ hget
      rwa [ptrs_some, ptrs_nil, Multiset.cons_add, zero_add]
    · have hsame : Same s.objs.lists o.lists (values s.cur + values s.bak) := fun p hp =>
        (ho.newList.same hother p hp).trans (ho.same_newList p hp)
      have hnone : V.lookup d.fddat = none := hV.cur _ ▸ shown_of_lookup_none hlookup
      rw [hnone]
      exact ⟨rfl, hV.new_cur hget hsame⟩
  · refine ⟨_, rfl, rfl, rfl, ?_, fun V W hV => ?_⟩
    · rw [values_of_lookup hlookup, Multiset.cons_add] at ho
      exact SendObjs.Owns.null.mp ho
    · have hnull : V.lookup d.fddat = some none := hV.cur _ ▸ shown_of_lookup hlookup
      rw [hnull]
      refine ⟨rfl, fun fd => ?_, hV.bak⟩
      rw [shown_erase, lookup_erase_eq, hV.cur]
  · have hdetach := ho
    rw [values_of_lookup hlookup, Multiset.cons_add] at hdetach
    obtain ⟨ps, hps, ho₀⟩ := hdetach.detach
    have hlist : ∀ V W, s.Shows V W → V.lookup d.fddat = some (some ps) := fun V W hV => by
      rw [← hV.cur, shown_of_lookup hlookup, Option.bind_some, hps]
    simp only [hps, Option.bind_some]
    by_cases hroom : ps.length < Bytes.uint32 maxSendList
    · obtain ⟨o, hset, ho', hget, hother⟩ := ho₀.setList (ps ++ [some a])
      simp only [if_pos hroom, hset, Option.bind_some]
      refine ⟨_, trivial, rfl, rfl, ?_, fun V W hV => ?_⟩
      · rw [values_of_lookup hlookup, Multiset.cons_add]
        refine SendObjs.Owns.attach ?_ hget
        rw [ptrs_append, ptrs_some, ptrs_nil, Multiset.add_cons, add_zero, Multiset.cons_add,
          ← Multiset.add_cons]
        exact ho'
      · simp only [hlist V W hV, if_pos hroom]
        exact ⟨trivial, hV.insert_cur hlookup hget (ho₀.same hother)⟩
    · simp only [if_neg hroom]
      refine ⟨_, trivial, rfl, rfl, ho, fun V W hV => ?_⟩
      simp only [hlist V W hV, if_neg hroom]
      exact ⟨trivial, hV⟩

theorem Owned.queueMsg (ho : s.Owned) (ha : a ∈ s.creating) (maxSendList : ℤ) :
    Goes maxSendList s (s.queueMsg maxSendList a) := by
  obtain ⟨d, r, -, hadd, hcreating, ho', hshows⟩ := addMsgToSendList_spec maxSendList (ho.of_mem ha)
  refine ⟨_, by rw [SendHeap.queueMsg, hadd]; rfl, ?_, fun V W hV => ?_⟩
  · unfold SendHeap.Owned
    rcases hr : r.1 with _ | _
    · rw [if_neg Bool.false_ne_true, hcreating, keys_insert_of_mem ha, keys_of_mem ha]
      rwa [hr, if_neg Bool.false_ne_true] at ho'
    · rw [if_pos rfl, hcreating]
      rwa [hr, if_pos rfl] at ho'
  · obtain ⟨-, hV'⟩ := hshows V W hV
    exact ⟨_, _, .addMsgToSendList d.fddat a, hV'.cur, hV'.bak⟩

theorem Owned.discardMsg (ho : s.Owned) (ha : a ∈ s.creating) :
    Goes maxSendList s (s.discardMsg a) := by
  obtain ⟨o, hdelete, ho', hlists⟩ := (ho.of_mem ha).deleteMsg
  have hx : s.discardMsg a = some { s with objs := o, creating := s.creating.erase a } := by
    rw [SendHeap.discardMsg, hdelete]
    rfl
  exact .of_same hx ho' rfl rfl hlists

/-- A map is empty where the map of lists is. -/
theorem Shows.keys_length_eq_zero (hV : s.Shows V W) :
    s.cur.keys.length = 0 ↔ V.keys.length = 0 := by
  rw [IntMap.keys_length_eq_zero, IntMap.keys_length_eq_zero]
  refine forall_congr' fun fd => ?_
  rw [← hV.cur, shown, Option.map_eq_none_iff]

/-- **`switchSendMap`**: what the two maps own, the backup map owns after it. -/
theorem Owned.switchSendMap (ho : s.Owned) (maxSendList : ℤ) :
    Goes maxSendList s (s.switchSendMap maxSendList) := by
  unfold SendHeap.switchSendMap
  split
  · exact .of_same rfl ho rfl rfl rfl
  · rename_i hkeys
    unfold SendHeap.Owned at ho
    rw [add_comm, ← values_ascending s.bak] at ho
    obtain ⟨r, hloop, ho', hshown⟩ := ho.mergeLoop maxSendList s.bak.nodupKeys_ascending
    refine ⟨_, by rw [hloop]; rfl, ?_, fun V W hV => ⟨_, _, .switchSendMap, ?_, ?_⟩⟩
    · unfold SendHeap.Owned
      rwa [values_empty, zero_add]
    · intro fd
      rw [Network.switchSendMap, if_neg (mt hV.keys_length_eq_zero.mpr hkeys)]
      rfl
    · intro fd
      have hbak : (s.bak.lookup fd).map (fun p => p.bind s.objs.lists.get) = W.lookup fd :=
        hV.bak fd
      rw [switchSendMap_lookup (mt hV.keys_length_eq_zero.mpr hkeys), hshown, dlookup_ascending,
        hV.cur, hbak]
      rcases W.lookup fd with _ | _ | b <;> rfl

/-- What an entry of the backup map owns, apart from the rest. -/
theorem Owned.of_lookup_bak {p : Ptr} (ho : s.Owned) (h : s.bak.lookup fd = some p) :
    s.objs.Owns (p ::ₘ (values s.cur + values (s.bak.erase fd))) 0 ↑s.creating.keys := by
  rw [← Multiset.add_cons, ← values_of_lookup h]
  exact ho

theorem Taken.erase : Taken fd W (W.erase fd) where
  front := by
    rw [listAt_erase, if_pos rfl]
    exact List.nil_suffix
  other _ hk := AList.lookup_erase_ne hk

theorem Taken.trans {W₁ W₂ : SendMap Ptr} (h₁ : Taken fd W W₁) (h₂ : Taken fd W₁ W₂) :
    Taken fd W W₂ where
  front := h₂.front.trans h₁.front
  other k hk := (h₂.other k hk).trans (h₁.other k hk)

/-- The entry of a descriptor is erased, and the others are read as before. -/
theorem Shows.erase_bak (hV : s.Shows V W) {s' : SendHeap} (hcur : s'.cur = s.cur)
    (hbak : s'.bak = s.bak.erase fd)
    (hsame : Same s.objs.lists s'.objs.lists (values s.cur + values (s.bak.erase fd))) :
    s'.Shows V (W.erase fd) where
  cur k := by
    rw [hcur]
    exact hV.cur_eq hsame fun p hp => mem_values_add hp
  bak k := by
    rw [hbak, shown_erase, lookup_erase_eq]
    split
    · rfl
    · rename_i hk
      exact hV.bak_eq hsame fun p hp => mem_add_values ((AList.lookup_erase_ne hk).trans hp)

/-- The same in the backup map. -/
theorem Shows.insert_bak (hV : s.Shows V W) {o : SendObjs} {ps : List Ptr}
    (h : s.bak.lookup fd = some (some l)) (hps : o.lists.get l = some ps)
    (hsame : Same s.objs.lists o.lists (values s.cur + values (s.bak.erase fd))) :
    SendHeap.Shows { s with objs := o } V (W.insert fd (some ps)) where
  cur k := hV.cur_eq hsame fun p hp => mem_values_add hp
  bak k := by
    rw [lookup_insert_eq]
    split
    · rename_i hk
      rw [hk, shown_of_lookup h, Option.bind_some, hps]
    · rename_i hk
      exact hV.bak_eq hsame fun p hp => mem_add_values ((AList.lookup_erase_ne hk).trans hp)

theorem deleteSendMsgFromSendMap_spec (ho : s.Owned) (fd : ℤ) :
    ∃ s', s.deleteSendMsgFromSendMap fd = some s' ∧ s'.Owned ∧
      ∀ V W, s.Shows V W → ∃ W', Taken fd W W' ∧ s'.Shows V W' := by
  have hsame : ∀ V W, s.Shows V W → ∃ W', Taken fd W W' ∧ s.Shows V W' := fun V W hV =>
    ⟨W, ⟨List.suffix_rfl, fun _ _ => rfl⟩, hV⟩
  unfold SendHeap.deleteSendMsgFromSendMap
  split
  · exact ⟨s, rfl, ho, hsame⟩
  · rcases hlookup : s.bak.lookup fd with _ | _ | l
    · exact ⟨s, rfl, ho, hsame⟩
    · refine ⟨_, rfl, SendObjs.Owns.null.mp (ho.of_lookup_bak hlookup), fun V W hV => ?_⟩
      exact ⟨W.erase fd, .erase, hV.erase_bak rfl rfl fun _ _ => rfl⟩
    · obtain ⟨o, hdrop, ho', hsame'⟩ := (ho.of_lookup_bak hlookup).dropList
      simp only [hdrop, Option.bind_eq_bind, Option.bind_some]
      refine ⟨_, rfl, ho', fun V W hV => ?_⟩
      exact ⟨W.erase fd, .erase, hV.erase_bak rfl rfl hsame'⟩

theorem Owned.deleteSendMsgFromSendMap (ho : s.Owned) (fd : ℤ) :
    Goes maxSendList s (s.deleteSendMsgFromSendMap fd) := by
  obtain ⟨s', hx, ho', hshows⟩ := deleteSendMsgFromSendMap_spec ho fd
  refine ⟨s', hx, ho', fun V W hV => ?_⟩
  obtain ⟨W', htaken, hV'⟩ := hshows V W hV
  exact ⟨V, W', .take fd W' htaken, hV'⟩

/-- **`doSendMessage`**, whatever the sends return. -/
theorem Owned.doSendMessage (ho : s.Owned) (fd : ℤ) (sock : Option SocketKey)
    (sends : List SendResult) : Goes maxSendList s (s.doSendMessage fd sock sends) := by
  rcases sock with _ | key
  · exact ho.deleteSendMsgFromSendMap fd
  · unfold SendHeap.doSendMessage
    rcases hlookup : s.bak.lookup fd with _ | _ | l
    · exact .of_same rfl ho rfl rfl rfl
    · refine ⟨_, rfl, SendObjs.Owns.null.mp (ho.of_lookup_bak hlookup), fun V W hV => ?_⟩
      exact ⟨V, W.erase fd, .take fd _ .erase, hV.erase_bak rfl rfl fun _ _ => rfl⟩
    · obtain ⟨ps, hps, ho₀⟩ := (ho.of_lookup_bak hlookup).detach
      obtain ⟨r, ps', hloop, hps', hsuffix, ho₁, hother⟩ := ho₀.sendLoop key sends hps
      have hsame := ho₀.same hother
      -- the state the loop leaves
      have hback : SendHeap.Owned { s with objs := r.2 } := by
        unfold SendHeap.Owned
        rw [values_of_lookup hlookup, Multiset.add_cons]
        exact ho₁.attach hps'
      have hshows : ∀ V W, s.Shows V W →
          ∃ W', Taken fd W W' ∧ SendHeap.Shows { s with objs := r.2 } V W' := by
        intro V W hV
        have hlist : W.lookup fd = some (some ps) := by
          rw [← hV.bak, shown_of_lookup hlookup, Option.bind_some, hps]
        refine ⟨W.insert fd (some ps'), ⟨?_, fun k hk => AList.lookup_insert_ne hk⟩,
          hV.insert_bak hlookup hps' hsame⟩
        rwa [listAt_insert, if_pos rfl, listAt_of_lookup hlist]
      simp only [hps, hloop, Option.bind_eq_bind, Option.bind_some]
      split
      · obtain ⟨s', hx, ho', hdelete⟩ := deleteSendMsgFromSendMap_spec hback fd
        refine ⟨s', hx, ho', fun V W hV => ?_⟩
        obtain ⟨W₁, htaken₁, hV₁⟩ := hshows V W hV
        obtain ⟨W₂, htaken₂, hV₂⟩ := hdelete V W₁ hV₁
        exact ⟨V, W₂, .take fd W₂ (htaken₁.trans htaken₂), hV₂⟩
      · simp only [hps', Option.bind_some]
        split
        · rename_i hempty
          have hnil : ps' = [] := List.length_eq_zero_iff.mp (Nat.le_zero.mp hempty)
          rw [hnil, ptrs_nil, zero_add] at ho₁
          obtain ⟨o, hfree, ho₂, hother₂⟩ := ho₁.deleteList
          simp only [hfree, Option.bind_some]
          refine ⟨_, rfl, ho₂, fun V W hV => ⟨V, W.erase fd, .take fd _ .erase, ?_⟩⟩
          exact hV.erase_bak rfl rfl fun p hp => (ho₁.same hother₂ p hp).trans (hsame p hp)
        · refine ⟨_, rfl, hback, fun V W hV => ?_⟩
          obtain ⟨W₁, htaken₁, hV₁⟩ := hshows V W hV
          exact ⟨V, W₁, .take fd W₁ htaken₁, hV₁⟩

theorem Owned.clean (ho : s.Owned) : Goes maxSendList s s.clean := by
  unfold SendHeap.Owned at ho
  rw [← values_ascending s.cur, ← values_ascending s.bak] at ho
  obtain ⟨o₁, hcur, ho₁⟩ := ho.dropLists
  rw [← add_zero (Multiset.ofList _)] at ho₁
  obtain ⟨o₂, hbak, ho₂⟩ := ho₁.dropLists
  simp only [SendHeap.clean, hcur, hbak, Option.bind_eq_bind, Option.bind_some]
  exact ⟨_, rfl, ho₂, fun V W _ => ⟨∅, ∅, .clean, fun _ => rfl, fun _ => rfl⟩⟩

end SendHeap

/-! ## Runs -/

variable {host : Host} {maxSendList : ℤ} {s : SendHeap} {x : Option SendHeap}

/-- **A step** keeps the invariant, and no step uses an object that was
deleted. -/
theorem sendHeapNext_goes {c : SendHeapAction} (ho : s.Owned)
    (h : sendHeapNext host maxSendList (some s) c = some x) : s.Goes maxSendList x := by
  cases c with
  | newMsg r => exact Option.some.inj h ▸ ho.newMsg r
  | buildMsg a =>
    simp only [sendHeapNext] at h
    split at h
    · rename_i r hlookup
      exact Option.some.inj h ▸ ho.buildMsg (mem_keys_of_lookup hlookup) host r
    · cases h
  | queueMsg a =>
    simp only [sendHeapNext] at h
    split at h
    · rename_i hlookup
      exact Option.some.inj h ▸ ho.queueMsg (mem_keys_of_lookup hlookup) maxSendList
    · cases h
  | discardMsg a =>
    simp only [sendHeapNext] at h
    split at h
    · rename_i hlookup
      exact Option.some.inj h ▸ ho.discardMsg (mem_keys_of_lookup hlookup)
    · cases h
  | switchSendMap => exact Option.some.inj h ▸ ho.switchSendMap maxSendList
  | doSendMessage fd sock sends => exact Option.some.inj h ▸ ho.doSendMessage fd sock sends
  | deleteSendMsgFromSendMap fd => exact Option.some.inj h ▸ ho.deleteSendMsgFromSendMap fd
  | clean => exact Option.some.inj h ▸ ho.clean

/-- What a run leaves has the invariant. -/
theorem sendHeap_owned (h : (sendHeap host maxSendList).Reachable x) :
    ∃ s, x = some s ∧ s.Owned := by
  refine h.invariant (I := fun x => ∃ s, x = some s ∧ s.Owned) ⟨_, rfl, SendHeap.owned_init⟩ ?_
  rintro x c x' - - hnext ⟨s, rfl, ho⟩
  obtain ⟨s', hx, ho', -⟩ := sendHeapNext_goes ho hnext
  exact ⟨s', hx, ho'⟩

/-- **The maps with their pointers refine the maps of lists**: what a run
leaves, read as lists, is what steps of the maps of lists lead to. -/
theorem sendHeap_refines (h : (sendHeap host maxSendList).Reachable x) :
    ∃ s V W, x = some s ∧ s.Shows V W ∧ SendHeap.MapsReach maxSendList V W := by
  refine h.invariant (I := fun x => ∃ s V W, x = some s ∧ s.Shows V W ∧
    SendHeap.MapsReach maxSendList V W) ⟨_, ∅, ∅, rfl, SendHeap.shows_init, .refl⟩ ?_
  rintro x c x' hreach - hnext ⟨s, V, W, rfl, hV, hsteps⟩
  obtain ⟨s₁, hs₁, ho⟩ := sendHeap_owned hreach
  obtain rfl := Option.some.inj hs₁
  obtain ⟨s', hx, -, hshows⟩ := sendHeapNext_goes ho hnext
  obtain ⟨V', W', hstep, hV'⟩ := hshows V W hV
  exact ⟨s', V', W', hx, hV', hsteps.tail hstep⟩

end Network

end EupuServer
