import Mathlib.Data.List.Infix
/-!
# Substitution

`substitute old new` scans a list from its front: where `old` begins, it
puts `new` and goes on behind the occurrence, and every other element it
keeps. So occurrences are taken leftmost and without overlap, and what was
put in is not looked at. `Replaced` says the same of the occurrences alone:
the first is replaced, and then the first behind it.
-/

namespace EupuServer

variable {α : Type*} [DecidableEq α]

/-- Where `old` first occurs. -/
def indexOf (old : List α) : List α → Option ℕ
  | [] => if old = [] then some 0 else none
  | c :: s => if old <+: c :: s then some 0 else (indexOf old s).map (· + 1)

/-- The substitution, with `skip` elements of an occurrence to pass over. -/
def substituteFrom (old new : List α) : ℕ → List α → List α
  | _, [] => []
  | skip + 1, _ :: s => substituteFrom old new skip s
  | 0, c :: s =>
    if old <+: c :: s then new ++ substituteFrom old new (old.length - 1) s
    else c :: substituteFrom old new 0 s

/-- **`s` with `new` for the leftmost occurrences of `old`** that do not
overlap. -/
def substitute (old new s : List α) : List α := substituteFrom old new 0 s

variable {old new s : List α} {c : α} {k : ℕ}

/-- An element at which `old` does not begin is kept. -/
theorem substitute_cons (h : ¬ old <+: c :: s) :
    substitute old new (c :: s) = c :: substitute old new s := by
  rw [substitute, substituteFrom, if_neg h, substitute]

/-- Passing over elements drops them. -/
theorem substituteFrom_eq (skip : ℕ) (s : List α) :
    substituteFrom old new skip s = substitute old new (s.drop skip) := by
  induction skip generalizing s with
  | zero => rfl
  | succ skip ih =>
    cases s with
    | nil => rfl
    | cons c s => exact ih s

/-- **An occurrence is replaced**, and the scan goes on behind it. -/
theorem substitute_append (hold : old ≠ []) (s : List α) :
    substitute old new (old ++ s) = new ++ substitute old new s := by
  obtain ⟨c, tail, rfl⟩ := List.exists_cons_of_ne_nil hold
  have hhere : c :: tail <+: c :: (tail ++ s) := List.prefix_append (c :: tail) s
  rw [List.cons_append, substitute, substituteFrom, if_pos hhere, substituteFrom_eq,
    List.length_cons, Nat.add_sub_cancel, List.drop_left]

/-! ## From occurrence to occurrence -/

/-- `old` occurs in `s` at `k`. -/
def OccursAt (old s : List α) (k : ℕ) : Prop := k ≤ s.length ∧ old <+: s.drop k

/-- **`s'` is `s` with each occurrence of `old` replaced** that is the first
behind the one before. -/
inductive Replaced (old new : List α) : List α → List α → Prop
  | done {s : List α} (hnone : ∀ j, ¬ OccursAt old s j) : Replaced old new s s
  | next {s s' : List α} {k : ℕ} (hk : OccursAt old s k) (hfirst : ∀ j, OccursAt old s j → k ≤ j)
      (hrest : Replaced old new (s.drop (k + old.length)) s') :
      Replaced old new s (s.take k ++ new ++ s')

omit [DecidableEq α] in
/-- An occurrence further on is one in the tail. -/
theorem occursAt_succ : OccursAt old (c :: s) (k + 1) ↔ OccursAt old s k := by
  rw [OccursAt, OccursAt, List.length_cons, List.drop_succ_cons, Nat.add_le_add_iff_right]

/-- The empty list occurs at once. -/
theorem indexOf_nil (s : List α) : indexOf [] s = some 0 := by
  cases s with
  | nil => rfl
  | cons c s => exact if_pos List.nil_prefix

/-- **What is found is the first occurrence.** -/
theorem occursAt_of_indexOf (h : indexOf old s = some k) :
    OccursAt old s k ∧ ∀ j, OccursAt old s j → k ≤ j := by
  induction s generalizing k with
  | nil =>
    rw [indexOf] at h
    split_ifs at h with hnil
    cases h
    exact ⟨⟨le_rfl, hnil ▸ List.nil_prefix⟩, fun _ _ => Nat.zero_le _⟩
  | cons c s ih =>
    rw [indexOf] at h
    split_ifs at h with hhere
    · cases h
      exact ⟨⟨Nat.zero_le _, hhere⟩, fun _ _ => Nat.zero_le _⟩
    · obtain ⟨i, hi, rfl⟩ := Option.map_eq_some_iff.mp h
      obtain ⟨hocc, hfirst⟩ := ih hi
      refine ⟨occursAt_succ.mpr hocc, fun j hj => ?_⟩
      cases j with
      | zero => exact absurd hj.2 hhere
      | succ j => exact Nat.succ_le_succ (hfirst j (occursAt_succ.mp hj))

/-- Where nothing is found there is no occurrence. -/
theorem not_occursAt_of_indexOf (h : indexOf old s = none) (j : ℕ) : ¬ OccursAt old s j := by
  induction s generalizing j with
  | nil =>
    rw [indexOf] at h
    split_ifs at h with hnil
    rintro ⟨-, hhere⟩
    rw [List.drop_nil, List.prefix_nil] at hhere
    exact hnil hhere
  | cons c s ih =>
    rw [indexOf] at h
    split_ifs at h with hhere
    cases j with
    | zero => exact fun hj => hhere hj.2
    | succ j => exact fun hj => ih (Option.map_eq_none_iff.mp h) j (occursAt_succ.mp hj)

omit [DecidableEq α] in
/-- What occurs at `k` ends inside. -/
theorem OccursAt.le (h : OccursAt old s k) : k + old.length ≤ s.length := by
  obtain ⟨hk, hhere⟩ := h
  have hlen := hhere.length_le
  rw [List.length_drop] at hlen
  omega

/-- Where `old` does not occur nothing is replaced. -/
theorem substitute_of_indexOf_none (h : indexOf old s = none) : substitute old new s = s := by
  induction s with
  | nil => rfl
  | cons c s ih =>
    rw [indexOf] at h
    split_ifs at h with hhere
    rw [substitute_cons hhere, ih (Option.map_eq_none_iff.mp h)]

/-- **The first occurrence is replaced**, and the scan goes on behind it. -/
theorem substitute_of_indexOf (hold : old ≠ []) (h : indexOf old s = some k) :
    substitute old new s = s.take k ++ new ++ substitute old new (s.drop (k + old.length)) := by
  induction s generalizing k with
  | nil =>
    rw [indexOf, if_neg hold] at h
    cases h
  | cons c s ih =>
    rw [indexOf] at h
    split_ifs at h with hhere
    · cases h
      obtain ⟨rest, hrest⟩ := hhere
      rw [← hrest, substitute_append hold, Nat.zero_add, List.drop_left]
      rfl
    · obtain ⟨j, hj, rfl⟩ := Option.map_eq_some_iff.mp h
      rw [substitute_cons hhere, ih hj, Nat.add_right_comm, List.drop_succ_cons]
      rfl

/-- **The scan replaces each first occurrence behind the one before.** -/
theorem replaced_substitute (hold : old ≠ []) (s : List α) :
    Replaced old new s (substitute old new s) := by
  have hpos : 0 < old.length := List.length_pos_iff.mpr hold
  induction hn : s.length using Nat.strong_induction_on generalizing s with
  | h n ih =>
    cases hk : indexOf old s with
    | none =>
      rw [substitute_of_indexOf_none hk]
      exact .done (not_occursAt_of_indexOf hk)
    | some k =>
      obtain ⟨hocc, hfirst⟩ := occursAt_of_indexOf hk
      have hle := hocc.le
      rw [substitute_of_indexOf hold hk]
      refine .next hocc hfirst (ih _ ?_ _ rfl)
      rw [List.length_drop]
      omega

end EupuServer
