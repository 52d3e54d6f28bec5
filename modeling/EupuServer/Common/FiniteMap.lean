import Mathlib.Data.Int.Order.Basic
import Mathlib.Data.List.AList
import Mathlib.Data.List.Sort
import Mathlib.Data.Multiset.AddSub
/-!
# Finite maps, folded and listed

A map with integer keys is an `AList`. What is added here is the listing in
ascending order, which is how an ordered map is walked, the fold of one map
into another key by key, and what values it has, each how often.
-/

namespace EupuServer

/-- A finite map with integer keys. -/
abbrev IntMap (β : Type*) := AList fun _ : ℤ => β

namespace IntMap

variable {β γ : Type*}

/-- The entries in ascending order of their keys. -/
def ascending (m : IntMap β) : List (Σ _ : ℤ, β) := m.entries.insertionSort fun a b => a.1 ≤ b.1

/-- The keys in ascending order. -/
def ascendingKeys (m : IntMap β) : List ℤ := m.keys.insertionSort (· ≤ ·)

theorem ascending_perm (m : IntMap β) : m.ascending.Perm m.entries :=
  List.perm_insertionSort _ _

theorem nodupKeys_ascending (m : IntMap β) : m.ascending.NodupKeys :=
  (List.perm_nodupKeys m.ascending_perm).mpr m.nodupKeys

theorem dlookup_ascending (m : IntMap β) (k : ℤ) : m.ascending.dlookup k = m.lookup k :=
  List.perm_dlookup k m.nodupKeys_ascending m.ascending_perm

theorem mem_ascendingKeys {m : IntMap β} {k : ℤ} : k ∈ m.ascendingKeys ↔ k ∈ m := by
  rw [ascendingKeys, List.mem_insertionSort, AList.mem_keys]

/-- The listing of the keys ascends. -/
theorem pairwise_ascendingKeys (m : IntMap β) : m.ascendingKeys.Pairwise (· < ·) := by
  have hnodup : m.ascendingKeys.Nodup := (List.perm_insertionSort _ _).nodup_iff.mpr m.keys_nodup
  have hle : m.ascendingKeys.Pairwise (· ≤ ·) := List.pairwise_insertionSort _ _
  exact (List.Pairwise.and hle hnodup).imp fun h => lt_of_le_of_ne h.1 h.2

theorem mem_of_lookup {m : IntMap β} {k : ℤ} {b : β} (h : m.lookup k = some b) : k ∈ m :=
  AList.lookup_isSome.mp (by rw [h]; rfl)

/-- A key has one object. -/
theorem eq_of_lookup {m : IntMap (Option β)} {k : ℤ} {b b' : β} (h : m.lookup k = some (some b))
    (h' : m.lookup k = some (some b')) : b = b' :=
  Option.some.inj (Option.some.inj (h.symm.trans h'))

theorem lookup_insert_eq (m : IntMap β) (k k' : ℤ) (b : β) :
    (m.insert k b).lookup k' = if k' = k then some b else m.lookup k' := by
  by_cases h : k' = k
  · subst h
    rw [AList.lookup_insert, if_pos rfl]
  · rw [AList.lookup_insert_ne h, if_neg h]

theorem lookup_erase_eq (m : IntMap β) (k k' : ℤ) :
    (m.erase k).lookup k' = if k' = k then none else m.lookup k' := by
  by_cases h : k' = k
  · subst h
    rw [AList.lookup_erase, if_pos rfl]
  · rw [AList.lookup_erase_ne h, if_neg h]

theorem lookup_singleton_eq (k k' : ℤ) (b : β) :
    AList.lookup k' (AList.singleton k b : IntMap β) = if k' = k then some b else none := by
  have hempty : AList.lookup k' (∅ : IntMap β) = none := AList.lookup_empty k'
  rw [← AList.insert_empty, lookup_insert_eq, hempty]

/-- What is left after an erasure was there. -/
theorem lookup_of_erase {m : IntMap β} {k k' : ℤ} {b : β} (h : (m.erase k).lookup k' = some b) :
    m.lookup k' = some b := by
  rw [lookup_erase_eq] at h
  split at h
  · cases h
  · exact h

theorem keys_length_erase_le (m : IntMap β) (k : ℤ) : (m.erase k).keys.length ≤ m.keys.length := by
  rw [AList.keys_erase]
  exact List.length_erase_le

theorem keys_length_insert_le (m : IntMap β) (k : ℤ) (b : β) :
    (m.insert k b).keys.length ≤ m.keys.length + 1 := by
  rw [AList.keys_insert, List.length_cons]
  have : (m.keys.erase k).length ≤ m.keys.length := List.length_erase_le
  omega

theorem keys_length_insert_of_mem (m : IntMap β) {k : ℤ} (b : β) (h : k ∈ m) :
    (m.insert k b).keys.length = m.keys.length := by
  rw [AList.keys_insert, List.length_cons, List.length_erase_of_mem (AList.mem_keys.mp h)]
  have : 0 < m.keys.length := List.length_pos_of_mem (AList.mem_keys.mp h)
  omega

/-- A map without keys has nothing under any. -/
theorem keys_length_eq_zero {m : IntMap β} : m.keys.length = 0 ↔ ∀ k, m.lookup k = none := by
  rw [List.length_eq_zero_iff, List.eq_nil_iff_forall_not_mem]
  exact forall_congr' fun k => by rw [AList.lookup_eq_none, AList.mem_keys]

/-! ## Counting entries -/

/-- How many keys are mapped to a value that `p` holds of. -/
def count (p : β → Bool) (m : IntMap β) : ℕ := m.entries.countP fun e => p e.2

variable {p : β → Bool} {m : IntMap β} {k : ℤ} {b : β}

theorem count_erase_le (m : IntMap β) (k : ℤ) : count p (m.erase k) ≤ count p m :=
  (List.kerase_sublist k m.entries).countP_le

/-- The entries are the one under `k` and the others. -/
theorem entries_perm_of_lookup (h : m.lookup k = some b) :
    m.entries.Perm (⟨k, b⟩ :: (m.erase k).entries) := by
  obtain ⟨b', l₁, l₂, hnotin, hentries, herase⟩ :=
    List.exists_of_kerase (AList.mem_keys.mp (mem_of_lookup h))
  have hb : b' = b := by
    rw [AList.lookup, hentries] at h
    have hfront : l₁.dlookup k = none := List.dlookup_eq_none.mpr hnotin
    rw [List.dlookup_append, hfront, List.dlookup_cons_eq] at h
    exact Option.some.inj h
  subst hb
  have hothers : (m.erase k).entries = l₁ ++ l₂ := herase
  rw [hothers, hentries]
  exact List.perm_middle

/-- **An entry that is erased is one less.** -/
theorem count_erase_of_lookup (h : m.lookup k = some b) :
    count p (m.erase k) + (if p b then 1 else 0) = count p m := by
  unfold count
  rw [(entries_perm_of_lookup h).countP_eq, List.countP_cons]

/-- What is put under a key takes the place of what was there. -/
theorem count_insert (m : IntMap β) (k : ℤ) (b : β) :
    count p (m.insert k b) = count p (m.erase k) + (if p b then 1 else 0) := by
  unfold count
  rw [AList.entries_insert, List.countP_cons]
  rfl

/-- An entry that is replaced by one alike changes no count. -/
theorem count_insert_of_lookup {b' : β} (h : m.lookup k = some b) (hp : p b' = p b) :
    count p (m.insert k b') = count p m := by
  rw [count_insert, hp, count_erase_of_lookup h]

/-! ## The values, with how often each is there -/

/-- The values of a map. -/
def values (m : IntMap β) : Multiset β := ↑(m.entries.map Sigma.snd)

@[simp] theorem values_empty : values (∅ : IntMap β) = 0 := rfl

theorem values_ascending (m : IntMap β) : (↑(m.ascending.map Sigma.snd) : Multiset β) = values m :=
  Multiset.coe_eq_coe.mpr (m.ascending_perm.map Sigma.snd)

theorem mem_values : b ∈ values m ↔ ∃ k, m.lookup k = some b := by
  rw [values, Multiset.mem_coe, List.mem_map]
  constructor
  · rintro ⟨⟨k, b⟩, hmem, rfl⟩
    exact ⟨k, AList.mem_lookup_iff.mpr hmem⟩
  · rintro ⟨k, hk⟩
    exact ⟨⟨k, b⟩, AList.mem_lookup_iff.mp hk, rfl⟩

/-- The values are the one under `k` and the others. -/
theorem values_of_lookup (h : m.lookup k = some b) : values m = b ::ₘ values (m.erase k) :=
  Multiset.coe_eq_coe.mpr ((entries_perm_of_lookup h).map Sigma.snd)

/-- What is put under a key takes the place of what was there. -/
theorem values_insert (m : IntMap β) (k : ℤ) (b : β) :
    values (m.insert k b) = b ::ₘ values (m.erase k) := by
  rw [values, AList.entries_insert]
  rfl

theorem values_insert_of_lookup (h : m.lookup k = none) (b : β) :
    values (m.insert k b) = b ::ₘ values m := by
  have herase : m.erase k = m :=
    AList.ext (List.kerase_of_notMem_keys (AList.lookup_eq_none.mp h))
  rw [values_insert, herase]

/-! ## Folding a map into another -/

variable {step : IntMap γ → (Σ _ : ℤ, β) → IntMap γ} {g : Option γ → β → Option γ}

/-- **A fold of steps that each change one key** changes a key by the one
step that is about it. -/
theorem lookup_foldl (hat : ∀ m k b, (step m ⟨k, b⟩).lookup k = g (m.lookup k) b)
    (hother : ∀ m k b k', k' ≠ k → (step m ⟨k, b⟩).lookup k' = m.lookup k')
    (m : IntMap γ) {es : List (Σ _ : ℤ, β)} (hes : es.NodupKeys) (k : ℤ) :
    (es.foldl step m).lookup k =
      match es.dlookup k with
      | none => m.lookup k
      | some b => g (m.lookup k) b := by
  induction es generalizing m with
  | nil => rfl
  | cons e es ih =>
    obtain ⟨k₀, b₀⟩ := e
    obtain ⟨hnotin, hes'⟩ := List.nodupKeys_cons.mp hes
    rw [List.foldl_cons, ih (step m ⟨k₀, b₀⟩) hes']
    by_cases hk : k = k₀
    · subst hk
      rw [List.dlookup_eq_none.mpr hnotin, List.dlookup_cons_eq]
      exact hat m k b₀
    · rw [List.dlookup_cons_ne _ _ hk, hother m k₀ b₀ k hk]

/-- The same for a map folded in ascending order. -/
theorem lookup_foldl_ascending (hat : ∀ m k b, (step m ⟨k, b⟩).lookup k = g (m.lookup k) b)
    (hother : ∀ m k b k', k' ≠ k → (step m ⟨k, b⟩).lookup k' = m.lookup k')
    (m : IntMap γ) (src : IntMap β) (k : ℤ) :
    (src.ascending.foldl step m).lookup k =
      match src.lookup k with
      | none => m.lookup k
      | some b => g (m.lookup k) b := by
  rw [lookup_foldl hat hother m src.nodupKeys_ascending k, dlookup_ascending]

end IntMap

end EupuServer
