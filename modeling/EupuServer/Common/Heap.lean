import Mathlib.Data.Multiset.AddSub
import Mathlib.Logic.Function.Basic
/-!
# Heaps and who owns their objects

A heap of objects that are allocated, read, written and freed. An address is
never given out twice, and a use of an object that is not there fails: a run
that does not fail uses no freed object and frees none twice. `Heap.Owned`
says that some pointers are just the live objects, each once, and each
operation has a rule for the pointers that are owned after it.
-/

namespace EupuServer

variable {α : Type*}

/-- **A heap**: the objects by their addresses, how many were allocated, and
the addresses that were freed. -/
structure Heap (α : Type*) where
  objs : ℕ → Option α
  count : ℕ
  freed : List ℕ
  nodup : freed.Nodup
  lt_count : ∀ a ∈ freed, a < count
  live : ∀ a, (objs a).isSome ↔ a < count ∧ a ∉ freed

namespace Heap

/-- The heap before anything is allocated. -/
def empty : Heap α where
  objs _ := none
  count := 0
  freed := []
  nodup := List.nodup_nil
  lt_count _ h := absurd h List.not_mem_nil
  live a := by simp

variable (h : Heap α) {a b : ℕ} {x : α}

theorem live_alloc (x : α) (a : ℕ) :
    (Function.update h.objs h.count (some x) a).isSome ↔ a < h.count + 1 ∧ a ∉ h.freed := by
  rw [Function.update_apply]
  split
  · rename_i ha
    have hnot : a ∉ h.freed := fun hmem => by
      have hlt := h.lt_count a hmem
      omega
    exact ⟨fun _ => ⟨by omega, hnot⟩, fun _ => rfl⟩
  · rename_i ha
    rw [h.live]
    refine and_congr_left fun _ => ?_
    omega

theorem live_set (hlive : (h.objs a).isSome) (x : α) (b : ℕ) :
    (Function.update h.objs a (some x) b).isSome ↔ b < h.count ∧ b ∉ h.freed := by
  rw [Function.update_apply]
  split
  · rename_i hb
    exact ⟨fun _ => hb ▸ (h.live a).mp hlive, fun _ => rfl⟩
  · exact h.live b

theorem live_free (a b : ℕ) :
    (Function.update h.objs a none b).isSome ↔ b < h.count ∧ b ∉ h.freed ++ [a] := by
  rw [Function.update_apply, List.mem_append, List.mem_singleton]
  split
  · rename_i hb
    exact ⟨fun hsome => (by cases hsome), fun hnot => absurd (.inr hb) hnot.2⟩
  · rename_i hb
    rw [h.live, not_or]
    exact ⟨fun hlt => ⟨hlt.1, hlt.2, hb⟩, fun hlt => ⟨hlt.1, hlt.2.1⟩⟩

theorem nodup_free (hlive : (h.objs a).isSome) : (h.freed ++ [a]).Nodup :=
  List.nodup_append.mpr ⟨h.nodup, List.nodup_singleton a, fun _ hb _ hc heq =>
    ((h.live a).mp hlive).2 (List.mem_singleton.mp hc ▸ heq ▸ hb)⟩

theorem lt_count_free (hlive : (h.objs a).isSome) : ∀ b ∈ h.freed ++ [a], b < h.count := by
  intro b hb
  rcases List.mem_append.mp hb with hb | hb
  · exact h.lt_count b hb
  · rw [List.mem_singleton.mp hb]
    exact ((h.live a).mp hlive).1

/-- `new`: the address, and the heap. -/
def alloc (x : α) : ℕ × Heap α :=
  (h.count, {
    objs := Function.update h.objs h.count (some x)
    count := h.count + 1
    freed := h.freed
    nodup := h.nodup
    lt_count := fun a ha => Nat.lt_succ_of_lt (h.lt_count a ha)
    live := h.live_alloc x })

/-- An object is read. -/
def get (a : ℕ) : Option α := h.objs a

/-- An object is written; `none` where it is not there. -/
def set (a : ℕ) (x : α) : Option (Heap α) :=
  if hlive : (h.objs a).isSome then
    some {
      objs := Function.update h.objs a (some x)
      count := h.count
      freed := h.freed
      nodup := h.nodup
      lt_count := h.lt_count
      live := h.live_set hlive x }
  else none

/-- `delete`; `none` where the object is not there. -/
def free (a : ℕ) : Option (Heap α) :=
  if hlive : (h.objs a).isSome then
    some {
      objs := Function.update h.objs a none
      count := h.count
      freed := h.freed ++ [a]
      nodup := h.nodup_free hlive
      lt_count := h.lt_count_free hlive
      live := h.live_free a }
  else none

/-! ## Ownership -/

/-- **The pointers `P` are the live objects**, each once. -/
structure Owned (h : Heap α) (P : Multiset ℕ) : Prop where
  nodup : P.Nodup
  mem : ∀ a, a ∈ P ↔ (h.objs a).isSome

variable {h} {P : Multiset ℕ}

theorem get_alloc_of_live (x : α) (hlive : (h.objs a).isSome) :
    (h.alloc x).2.get a = h.get a := by
  have hlt := ((h.live a).mp hlive).1
  exact Function.update_of_ne (by omega) _ _

namespace Owned

theorem empty : (Heap.empty : Heap α).Owned 0 where
  nodup := Multiset.nodup_zero
  mem a := by simp [Heap.empty]

/-- What is owned is there to be read. -/
theorem get (ho : h.Owned P) (ha : a ∈ P) : ∃ x, h.get a = some x :=
  Option.isSome_iff_exists.mp ((ho.mem a).mp ha)

/-- **The rule for `new`**: the new object is owned as well. -/
theorem alloc (ho : h.Owned P) (x : α) : (h.alloc x).2.Owned ((h.alloc x).1 ::ₘ P) where
  nodup := by
    refine Multiset.nodup_cons.mpr ⟨fun hmem => ?_, ho.nodup⟩
    exact Nat.lt_irrefl _ ((h.live h.count).mp ((ho.mem h.count).mp hmem)).1
  mem b := by
    change b ∈ h.count ::ₘ P ↔ (Function.update h.objs h.count (some x) b).isSome
    rw [Multiset.mem_cons, ho.mem, Function.update_apply]
    split
    · rename_i hb
      exact ⟨fun _ => rfl, fun _ => .inl hb⟩
    · rename_i hb
      exact ⟨fun hor => hor.resolve_left hb, .inr⟩

/-- **The rule for a write**: an object that is owned is written, and the
others stay. -/
theorem set (ho : h.Owned P) (ha : a ∈ P) (x : α) :
    ∃ h', h.set a x = some h' ∧ h'.Owned P ∧ h'.get a = some x ∧
      ∀ b, b ≠ a → h'.get b = h.get b := by
  have hlive := (ho.mem a).mp ha
  refine ⟨_, dif_pos hlive, ⟨ho.nodup, fun b => ?_⟩, Function.update_self _ _ _,
    fun b hb => Function.update_of_ne hb _ _⟩
  change b ∈ P ↔ (Function.update h.objs a (some x) b).isSome
  rw [ho.mem, Function.update_apply]
  split
  · rename_i hb
    exact ⟨fun _ => rfl, fun _ => hb ▸ hlive⟩
  · exact Iff.rfl

/-- **The rule for `delete`**: an object that is owned is freed, and owned no
more. -/
theorem free (ho : h.Owned (a ::ₘ P)) :
    ∃ h', h.free a = some h' ∧ h'.Owned P ∧ h'.freed = h.freed ++ [a] ∧
      ∀ b, b ≠ a → h'.get b = h.get b := by
  obtain ⟨hnot, hnodup⟩ := Multiset.nodup_cons.mp ho.nodup
  have hlive := (ho.mem a).mp (Multiset.mem_cons_self a P)
  refine ⟨_, dif_pos hlive, ⟨hnodup, fun b => ?_⟩, rfl, fun b hb => Function.update_of_ne hb _ _⟩
  change b ∈ P ↔ (Function.update h.objs a none b).isSome
  rw [Function.update_apply]
  split
  · rename_i hb
    subst hb
    exact ⟨fun hmem => absurd hmem hnot, fun hsome => (by cases hsome)⟩
  · rename_i hb
    rw [← ho.mem, Multiset.mem_cons]
    exact ⟨.inr, fun hor => hor.resolve_left hb⟩

end Owned

end Heap

end EupuServer
