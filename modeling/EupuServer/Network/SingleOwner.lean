import EupuServer.Network.SendRuns
/-!
# One owner for each message to send

What a run leaves owns its lists and messages, so every message that was
allocated is at one place: with the call that allocated it, in one list of one
of the two maps, or deleted (`sendHeap_singleOwner`).
-/

namespace EupuServer

namespace Network

open Protocol IntMap

namespace SendHeap

/-- The two send maps. -/
inductive WhichMap
  | cur
  | bak
  deriving DecidableEq

/-- An entry: its map, and the descriptor it is under. -/
abbrev Entry := WhichMap × ℤ

/-- What an entry is mapped to, if it is there. -/
def entry (s : SendHeap) (e : Entry) : Option Ptr :=
  match e.1 with
  | .cur => s.cur.lookup e.2
  | .bak => s.bak.lookup e.2

/-- Where a message can be. -/
inductive Place
  /-- with the call that allocated it -/
  | held
  /-- at the place `i` of the list of an entry -/
  | queued (e : Entry) (i : ℕ)
  | deleted

/-- The message `a` is at a place. -/
def At (s : SendHeap) (a : ℕ) : Place → Prop
  | .held => a ∈ s.creating
  | .queued e i => ∃ l ps, s.entry e = some (some l) ∧ s.objs.lists.get l = some ps ∧
      ps[i]? = some (some a)
  | .deleted => a ∈ s.objs.msgs.freed

/-- **One owner**: every message that was allocated is at one place, no
message is anywhere that was not, and every list that is there belongs to
one entry. -/
structure SingleOwner (s : SendHeap) : Prop where
  message : ∀ a < s.objs.msgs.count, ∃! p, s.At a p
  allocated : ∀ a p, s.At a p → a < s.objs.msgs.count
  list : ∀ l, (s.objs.lists.get l).isSome → ∃! e, s.entry e = some (some l)
  entry : ∀ e l, s.entry e = some (some l) → (s.objs.lists.get l).isSome
  deletedOnce : s.objs.msgs.freed.Nodup

variable {s : SendHeap} {a l : ℕ} {e e' : Entry} {p p' : Ptr}

theorem exists_entry (h : p ∈ values s.cur + values s.bak) : ∃ e, s.entry e = some p := by
  rcases Multiset.mem_add.mp h with h | h
  · obtain ⟨fd, hfd⟩ := mem_values.mp h
    exact ⟨(.cur, fd), hfd⟩
  · obtain ⟨fd, hfd⟩ := mem_values.mp h
    exact ⟨(.bak, fd), hfd⟩

theorem mem_of_entry (h : s.entry e = some p) : p ∈ values s.cur + values s.bak := by
  obtain ⟨_ | _, fd⟩ := e
  · exact mem_values_add h
  · exact mem_add_values h

/-- Two entries are two of the pointers. -/
theorem values_of_entries (hne : e ≠ e') (h : s.entry e = some p) (h' : s.entry e' = some p') :
    ∃ T, values s.cur + values s.bak = p ::ₘ p' ::ₘ T := by
  obtain ⟨m, fd⟩ := e
  obtain ⟨m', fd'⟩ := e'
  have hfd : m = m' → fd' ≠ fd := fun hm hfd => hne (by rw [hm, hfd])
  cases m <;> cases m'
  · refine ⟨values ((s.cur.erase fd).erase fd') + values s.bak, ?_⟩
    rw [values_of_lookup h, values_of_lookup ((AList.lookup_erase_ne (hfd rfl)).trans h'),
      Multiset.cons_add, Multiset.cons_add]
  · refine ⟨values (s.cur.erase fd) + values (s.bak.erase fd'), ?_⟩
    rw [values_of_lookup h, values_of_lookup h', Multiset.cons_add, Multiset.add_cons]
  · refine ⟨values (s.cur.erase fd') + values (s.bak.erase fd), ?_⟩
    rw [values_of_lookup h, values_of_lookup h', Multiset.cons_add, Multiset.add_cons,
      Multiset.cons_swap]
  · refine ⟨values s.cur + values ((s.bak.erase fd).erase fd'), ?_⟩
    rw [values_of_lookup h, values_of_lookup ((AList.lookup_erase_ne (hfd rfl)).trans h'),
      Multiset.add_cons, Multiset.add_cons]

namespace Owned

/-- A list belongs to one entry. -/
theorem entry_unique (ho : s.Owned) (h : s.entry e = some (some l))
    (h' : s.entry e' = some (some l)) : e = e' := by
  by_contra hne
  obtain ⟨T, hT⟩ := values_of_entries hne h h'
  have hdetach := ho
  unfold SendHeap.Owned at hdetach
  rw [hT] at hdetach
  obtain ⟨_, _, hdetached⟩ := hdetach.detach
  exact hdetached.ne_of_detached (Multiset.mem_cons_self _ T) rfl

/-- The messages of two entries are not the same. -/
theorem content_disjoint (ho : s.Owned) (hne : e ≠ e') (h : s.entry e = some p)
    (h' : s.entry e' = some p') (ha : a ∈ content s.objs.lists p) :
    a ∉ content s.objs.lists p' := by
  obtain ⟨T, hT⟩ := values_of_entries hne h h'
  have hnodup := (Multiset.nodup_add.mp ho.msgs.nodup).2.1
  rw [hT, Multiset.cons_bind, Multiset.cons_bind] at hnodup
  have hdisjoint := Multiset.disjoint_left.mp (Multiset.nodup_add.mp hnodup).2.2 ha
  exact fun ha' => hdisjoint (Multiset.mem_add.mpr (.inl ha'))

/-- A message in a list of an entry is one of those that the maps own. -/
theorem mem_of_queued {i : ℕ} (h : s.At a (.queued e i)) :
    a ∈ (values s.cur + values s.bak).bind (content s.objs.lists) := by
  obtain ⟨l, ps, he, hl, hi⟩ := h
  refine Multiset.mem_bind.mpr ⟨some l, mem_of_entry he, ?_⟩
  rw [content_some hl]
  exact mem_ptrs.mpr ⟨i, hi⟩

theorem not_held_of_queued {i : ℕ} (ho : s.Owned) (h : s.At a (.queued e i)) :
    ¬ s.At a .held := fun hheld =>
  Multiset.disjoint_left.mp (Multiset.nodup_add.mp ho.msgs.nodup).2.2
    (AList.mem_keys.mp hheld) (mem_of_queued h)

/-- A message that is held or queued is there. -/
theorem live (ho : s.Owned) (h : s.At a .held ∨ ∃ e i, s.At a (.queued e i)) :
    (s.objs.msgs.objs a).isSome := by
  refine (ho.msgs.mem a).mp (Multiset.mem_add.mpr ?_)
  rcases h with h | ⟨e, i, h⟩
  · exact .inl (AList.mem_keys.mp h)
  · exact .inr (mem_of_queued h)

theorem not_deleted (ho : s.Owned) (h : s.At a .held ∨ ∃ e i, s.At a (.queued e i)) :
    ¬ s.At a .deleted := ((s.objs.msgs.live a).mp (ho.live h)).2

/-- **A message is at one place only.** -/
theorem place_unique (ho : s.Owned) {q r : Place} (hq : s.At a q) (hr : s.At a r) : q = r := by
  cases q with
  | held =>
    cases r with
    | held => rfl
    | queued e i => exact absurd hq (ho.not_held_of_queued hr)
    | deleted => exact absurd hr (ho.not_deleted (.inl hq))
  | queued e i =>
    cases r with
    | held => exact absurd hr (ho.not_held_of_queued hq)
    | queued e' j =>
      obtain ⟨l, ps, he, hl, hi⟩ := hq
      obtain ⟨l', ps', he', hl', hj⟩ := hr
      have hentry : e = e' := by
        by_contra hne
        refine ho.content_disjoint hne he he' (a := a) ?_ ?_
        · rw [content_some hl]
          exact mem_ptrs.mpr ⟨i, hi⟩
        · rw [content_some hl']
          exact mem_ptrs.mpr ⟨j, hj⟩
      subst hentry
      have hlist : l = l' := Option.some.inj (Option.some.inj (he.symm.trans he'))
      subst hlist
      have hps : ps = ps' := Option.some.inj (hl.symm.trans hl')
      subst hps
      have hnodup := (Multiset.nodup_add.mp ho.msgs.nodup).2.1
      obtain ⟨T, hT⟩ := Multiset.exists_cons_of_mem (mem_of_entry he)
      rw [hT, Multiset.cons_bind, content_some hl] at hnodup
      rw [index_unique (Multiset.nodup_add.mp hnodup).1 hi hj]
    | deleted => exact absurd hr (ho.not_deleted (.inr ⟨e, i, hq⟩))
  | deleted =>
    cases r with
    | held => exact absurd hq (ho.not_deleted (.inl hr))
    | queued e i => exact absurd hq (ho.not_deleted (.inr ⟨e, i, hr⟩))
    | deleted => rfl

/-- **A message that was allocated is somewhere.** -/
theorem exists_place (ho : s.Owned) (ha : a < s.objs.msgs.count) : ∃ q, s.At a q := by
  by_cases hfreed : a ∈ s.objs.msgs.freed
  · exact ⟨.deleted, hfreed⟩
  · have hlive := (s.objs.msgs.live a).mpr ⟨ha, hfreed⟩
    rcases Multiset.mem_add.mp ((ho.msgs.mem a).mpr hlive) with hheld | hqueued
    · exact ⟨.held, AList.mem_keys.mpr hheld⟩
    · obtain ⟨p, hp, hcontent⟩ := Multiset.mem_bind.mp hqueued
      obtain ⟨e, he⟩ := exists_entry hp
      rcases p with _ | l
      · cases hcontent
      · have hlists : l ∈ 0 + (values s.cur + values s.bak).filterMap id :=
          Multiset.mem_add.mpr (.inr ((Multiset.mem_filterMap id _).mpr ⟨some l, hp, rfl⟩))
        obtain ⟨ps, hps⟩ := ho.lists.get hlists
        rw [content_some hps] at hcontent
        obtain ⟨i, hi⟩ := mem_ptrs.mp hcontent
        exact ⟨.queued e i, l, ps, he, hps, hi⟩

end Owned

/-- **The invariant is one owner for each message and for each list.** -/
theorem Owned.singleOwner (ho : s.Owned) : s.SingleOwner where
  message a ha := by
    obtain ⟨q, hq⟩ := ho.exists_place ha
    exact ⟨q, hq, fun _ hr => ho.place_unique hr hq⟩
  allocated a q hq := by
    cases q with
    | held => exact ((s.objs.msgs.live a).mp (ho.live (.inl hq))).1
    | queued e i => exact ((s.objs.msgs.live a).mp (ho.live (.inr ⟨e, i, hq⟩))).1
    | deleted => exact s.objs.msgs.lt_count a hq
  list l hlive := by
    have hmem := (ho.lists.mem l).mpr hlive
    rw [zero_add] at hmem
    obtain ⟨p, hp, hl⟩ := (Multiset.mem_filterMap id _).mp hmem
    obtain ⟨e, he⟩ := exists_entry hp
    have hpl : p = some l := hl
    subst hpl
    exact ⟨e, he, fun _ he' => ho.entry_unique he' he⟩
  entry e l he := by
    refine (ho.lists.mem l).mp (Multiset.mem_add.mpr (.inr ?_))
    exact (Multiset.mem_filterMap id _).mpr ⟨some l, mem_of_entry he, rfl⟩
  deletedOnce := s.objs.msgs.nodup

end SendHeap

variable {host : Host} {maxSendList : ℤ} {x : Option SendHeap}

/-- **One owner, always.** No run uses or deletes a message or a list that
was deleted, and after each of its steps every message that was allocated is
held by the call that allocated it, or at one place of one list of one map,
or deleted, and every list belongs to one entry. -/
theorem sendHeap_singleOwner (h : (sendHeap host maxSendList).Reachable x) :
    ∃ s, x = some s ∧ s.SingleOwner := by
  obtain ⟨s, hx, ho⟩ := sendHeap_owned h
  exact ⟨s, hx, ho.singleOwner⟩

/-- A request for a message without a body to the descriptor 5. -/
def pingRequest : SendRequest :=
  ⟨5, 7, "", 0, 0, 3, 0, 0, 0, none, 0⟩

/-- Of three messages the first was sent and deleted, the second waits in
the backup map, and the third is held. -/
theorem sendHeap_singleOwner_three :
    ∃ s, (sendHeap .little 10).Reachable (some s) ∧ s.objs.msgs.freed = [0] ∧
      s.bak.lookup 5 = some (some 1) ∧ s.objs.lists.get 1 = some [some 1] ∧
      s.creating.keys = [2] ∧ s.SingleOwner := by
  have hrun : ∃ x, (sendHeap .little 10).Reachable x ∧
      x.map (fun s => s.objs.msgs.freed) = some [0] ∧
      (x.bind fun s => s.bak.lookup 5) = some (some 1) ∧
      (x.bind fun s => s.objs.lists.get 1) = some [some 1] ∧
      x.map (fun s => s.creating.keys) = some [2] :=
    Machine.exists_reach_of_exec
      [.newMsg pingRequest, .buildMsg 0, .queueMsg 0, .switchSendMap,
        .newMsg pingRequest, .buildMsg 1, .queueMsg 1, .newMsg pingRequest, .switchSendMap,
        .doSendMessage 5 (some ⟨5, 7, 0⟩) [.sent netHeadSize, .eagain]] (by decide +kernel)
  obtain ⟨x, hx, hfreed, hbak, hlist, hkeys⟩ := hrun
  obtain ⟨s, rfl, hs⟩ := sendHeap_singleOwner hx
  exact ⟨s, hx, Option.some.inj hfreed, hbak, hlist, Option.some.inj hkeys, hs⟩

end Network

end EupuServer
