import EupuServer.Common.Substitute
/-!
# `ReplaceAll`

The loop replaces in place and goes on behind what it has put in. What is
behind that point is the original string still, so each round does what the
scan does at its next occurrence (`replaceAll_eq`). Behind an empty
occurrence, though, the string is as long as before (`replaceAll_iff`).
-/

namespace EupuServer

namespace Utility

/-- `std::string::find(s, pos)`; `none` is `npos`. -/
def find (str s : List UInt8) (pos : ℕ) : Option ℕ :=
  if pos ≤ str.length then (indexOf s (str.drop pos)).map (pos + ·) else none

/-- `std::string::replace(pos, n, s)`. -/
def replace (str : List UInt8) (pos n : ℕ) (s : List UInt8) : List UInt8 :=
  str.take pos ++ s ++ str.drop (pos + n)

/-- The `do` loop, where `old_value` was found at `pos`; `none` where it
takes more than `fuel` rounds. A C string is its characters up to the NUL. -/
def replaceLoop (oldValue newValue : List UInt8) : ℕ → List UInt8 → ℕ → Option (List UInt8)
  | 0, _, _ => none
  | fuel + 1, str, pos =>
    let str := replace str pos oldValue.length newValue
    match find str oldValue (pos + newValue.length) with
    | some pos => replaceLoop oldValue newValue fuel str pos
    | none => some str

/-- `ReplaceAll`; `none` where its loop takes more than `fuel` rounds. -/
def replaceAll (fuel : ℕ) (str oldValue newValue : List UInt8) : Option (List UInt8) :=
  match find str oldValue 0 with
  | some pos => replaceLoop oldValue newValue fuel str pos
  | none => some str

variable {oldValue : List UInt8} (newValue : List UInt8) {k fuel : ℕ}

/-- What is found behind `front`. -/
theorem find_append (front s : List UInt8) :
    find (front ++ s) oldValue front.length = (indexOf oldValue s).map (front.length + ·) := by
  rw [find, if_pos (by rw [List.length_append]; omega), List.drop_left]

/-- **One round** at the first occurrence behind `front`. -/
theorem replace_append (front s : List UInt8) (k n : ℕ) :
    replace (front ++ s) (front.length + k) n newValue =
      (front ++ s.take k ++ newValue) ++ s.drop (k + n) := by
  rw [replace, List.take_length_add_append, Nat.add_assoc, List.drop_length_add_append]

/-- **The loop does what the scan does** with what is behind `front`. -/
theorem replaceLoop_eq (hold : oldValue ≠ []) (front s : List UInt8)
    (hk : indexOf oldValue s = some k) (hfuel : s.length ≤ fuel) :
    replaceLoop oldValue newValue fuel (front ++ s) (front.length + k) =
      some (front ++ substitute oldValue newValue s) := by
  induction fuel generalizing front s k with
  | zero =>
    rw [List.length_eq_zero_iff.mp (Nat.le_zero.mp hfuel), indexOf, if_neg hold] at hk
    cases hk
  | succ fuel ih =>
    have hpos : 0 < oldValue.length := List.length_pos_iff.mpr hold
    have hle := (occursAt_of_indexOf hk).1.le
    have hend : front.length + k + newValue.length = (front ++ s.take k ++ newValue).length := by
      rw [List.length_append, List.length_append, List.length_take_of_le (by omega)]
    rw [replaceLoop, replace_append, hend]
    simp only [find_append, substitute_of_indexOf hold hk]
    cases hnext : indexOf oldValue (s.drop (k + oldValue.length)) with
    | none =>
      rw [substitute_of_indexOf_none hnext, ← List.append_assoc, ← List.append_assoc]
      rfl
    | some j =>
      have hrest : (s.drop (k + oldValue.length)).length ≤ fuel := by
        rw [List.length_drop]
        omega
      rw [← List.append_assoc, ← List.append_assoc, ← ih _ _ hnext hrest]
      rfl

/-- The search at the front. -/
theorem find_zero (s : List UInt8) : find s oldValue 0 = indexOf oldValue s := by
  rw [find, if_pos (Nat.zero_le _), List.drop_zero]
  cases indexOf oldValue s with
  | none => rfl
  | some k => exact congrArg some (Nat.zero_add k)

/-- So does the function, in no more rounds than there are characters. -/
theorem replaceAll_eq (hold : oldValue ≠ []) {str : List UInt8} (hfuel : str.length ≤ fuel) :
    replaceAll fuel str oldValue newValue = some (substitute oldValue newValue str) := by
  rw [replaceAll, find_zero]
  cases hk : indexOf oldValue str with
  | none => exact congrArg some (substitute_of_indexOf_none hk).symm
  | some k =>
    have hloop := replaceLoop_eq newValue hold [] str hk hfuel
    rwa [List.length_nil, Nat.zero_add] at hloop

/-- **`ReplaceAll` is the substitution**, of any string and by any string:
in no more rounds than the string has characters it ends, and has replaced
each leftmost occurrence behind the one before. -/
theorem replaceAll_substitutes (str : List UInt8) (hold : oldValue ≠ [])
    (hfuel : str.length ≤ fuel) :
    replaceAll fuel str oldValue newValue = some (substitute oldValue newValue str) ∧
      Replaced oldValue newValue str (substitute oldValue newValue str) :=
  ⟨replaceAll_eq newValue hold hfuel, replaced_substitute hold str⟩

/-- `aa` in `aaaab` by `ba`: what is put in makes no occurrence. -/
theorem replaceAll_substitutes_two :
    replaceAll 5 [97, 97, 97, 97, 98] [97, 97] [98, 97] = some [98, 97, 98, 97, 98] :=
  (replaceAll_substitutes [98, 97] [97, 97, 97, 97, 98] (by decide) (by decide)).1

/-! ## Termination -/

/-- **An empty occurrence is found again** behind what was put in, and no
number of rounds is enough. -/
theorem replaceLoop_nil (front s : List UInt8) :
    replaceLoop [] newValue fuel (front ++ s) front.length = none := by
  induction fuel generalizing front with
  | zero => rfl
  | succ fuel ih =>
    have hround := replace_append newValue front s 0 0
    have hend : front.length + newValue.length = (front ++ newValue).length :=
      List.length_append.symm
    rw [List.take_zero, List.append_nil, Nat.add_zero, Nat.add_zero, List.drop_zero] at hround
    rw [replaceLoop, List.length_nil, hround, hend]
    simp only [find_append, indexOf_nil]
    exact ih (front ++ newValue)

/-- **`ReplaceAll` ends unless `old_value` is empty**; then it never does,
whatever the string and the replacement. -/
theorem replaceAll_iff (str oldValue newValue : List UInt8) :
    (∃ fuel, (replaceAll fuel str oldValue newValue).isSome) ↔ oldValue ≠ [] := by
  refine ⟨?_, fun hold => ⟨str.length, by rw [replaceAll_eq newValue hold le_rfl]; rfl⟩⟩
  rintro ⟨fuel, hsome⟩ rfl
  rw [replaceAll, find_zero, indexOf_nil] at hsome
  have hloop : replaceLoop [] newValue fuel str 0 = none := replaceLoop_nil newValue [] str
  change (replaceLoop [] newValue fuel str 0).isSome = true at hsome
  rw [hloop] at hsome
  cases hsome

/-- All three empty: the string stays as it is, and the loop goes on. -/
theorem not_replaceAll : ¬ ∀ str oldValue newValue : List UInt8,
    ∃ fuel, (replaceAll fuel str oldValue newValue).isSome := by
  intro h
  obtain ⟨fuel, hsome⟩ := h [] [] []
  rw [show replaceAll fuel [] [] [] = none from replaceLoop_nil [] [] []] at hsome
  cases hsome

end Utility

end EupuServer
