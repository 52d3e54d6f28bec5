import EupuServer.Common.Bytes
import Mathlib.Data.List.Infix
/-!
# `CCounter`

A counter that is set, raised, lowered and taken, and that is meant to stop
at zero. The count is unsigned, so the test `m_count < 0` that should hold it
there never holds: what the calls compute is the count modulo `2 ^ 32`, and
what they return is that number read as an `int`. Beside it stands the
counter that does stop at zero (`reference`); the two show the same for as
long as no call takes the total below zero, and no longer (`saturates_iff`).
-/

namespace EupuServer

namespace Network

open Bytes

/-- `CCounter`. -/
structure CCounter where
  count : UInt32 := 0
  deriving DecidableEq, Repr

/-- A call that changes the counter. -/
inductive CounterCall
  | setvalue (nvalue : Int32)
  | increase (n : Int32)
  | decrease (n : Int32)
  | resetWithoutLock
  deriving DecidableEq, Repr

namespace CCounter

variable (c : CCounter)

/-- `if (m_count < 0) m_count = 0`. -/
def clamp : CCounter := if c.count < 0 then { c with count := 0 } else c

/-- `setvalue`. -/
def setvalue (c : CCounter) (nvalue : Int32) : CCounter := clamp { c with count := nvalue.toUInt32 }

/-- `resetWithoutLock`, which returns what it takes. -/
def resetWithoutLock : CCounter × Int32 :=
  let nret := c.count.toInt32
  ({ c with count := 0 }, nret)

/-- `value`. -/
def value : Int32 := c.count.toInt32

/-- `valueWithoutLock`. -/
def valueWithoutLock : Int32 := c.count.toInt32

/-- `increase`. -/
def increase (n : Int32) : CCounter × Int32 :=
  let c := clamp { c with count := c.count + n.toUInt32 }
  (c, c.count.toInt32)

/-- `decrease`. -/
def decrease (n : Int32) : CCounter × Int32 :=
  let c := clamp { c with count := c.count - n.toUInt32 }
  (c, c.count.toInt32)

/-- The counter after a call. -/
def after : CounterCall → CCounter
  | .setvalue nvalue => c.setvalue nvalue
  | .increase n => (c.increase n).1
  | .decrease n => (c.decrease n).1
  | .resetWithoutLock => c.resetWithoutLock.1

/-- What a call returns. -/
def returned : CounterCall → Option Int32
  | .setvalue _ => none
  | .increase n => some (c.increase n).2
  | .decrease n => some (c.decrease n).2
  | .resetWithoutLock => some c.resetWithoutLock.2

/-- The counter after the calls, from a new one on. -/
def run (calls : List CounterCall) : CCounter := calls.foldl after {}

end CCounter

/-! ## The counter that stops at zero -/

namespace CounterCall

/-- The total a call makes of the total `r`, without the stop at zero. -/
def exact (r : ℤ) : CounterCall → ℤ
  | .setvalue nvalue => nvalue.toInt
  | .increase n => r + n.toInt
  | .decrease n => r - n.toInt
  | .resetWithoutLock => 0

/-- What it should return. -/
def expected (r : ℤ) (call : CounterCall) : Option ℤ :=
  match call with
  | .setvalue _ => none
  | .increase _ => some (max 0 (call.exact r))
  | .decrease _ => some (max 0 (call.exact r))
  | .resetWithoutLock => some r

end CounterCall

/-- **The reference counter** after the calls: it is held at zero after each
of them. -/
def reference (calls : List CounterCall) : ℤ :=
  calls.foldl (fun r call => max 0 (call.exact r)) 0

/-- No call takes the total below zero. -/
def NeverBelow (calls : List CounterCall) : Prop :=
  ∀ pre call, pre ++ [call] <+: calls → 0 ≤ call.exact (reference pre)

/-- The exact total stays below `2 ^ 31`, up to a call that takes it below
zero: from there on the reference counter counts something else. -/
def StaysInt (calls : List CounterCall) : Prop :=
  ∀ pre call, pre ++ [call] <+: calls → NeverBelow pre → call.exact (reference pre) < 2 ^ 31

/-- What is said of every call and the calls before it, by its place. -/
theorem forall_prefix_iff {α : Type*} {P : List α → α → Prop} {l : List α} :
    (∀ pre a, pre ++ [a] <+: l → P pre a) ↔ ∀ i : Fin l.length, P (l.take i) l[i] := by
  constructor
  · intro h i
    refine h _ _ ?_
    rw [Fin.getElem_fin, List.take_append_getElem i.isLt]
    exact List.take_prefix _ _
  · rintro h pre a ⟨post, rfl⟩
    have hat := h ⟨pre.length, by simp⟩
    simpa using hat

instance (calls : List CounterCall) : Decidable (NeverBelow calls) :=
  decidable_of_iff' _ forall_prefix_iff

instance (calls : List CounterCall) : Decidable (StaysInt calls) :=
  decidable_of_iff' _ (forall_prefix_iff
    (P := fun pre call => NeverBelow pre → call.exact (reference pre) < 2 ^ 31))

/-- **The counter saturates at zero** along the calls: what can be read after
each of them, and what each of them returns, is what the reference counter
has, and not negative. -/
structure Saturates (calls : List CounterCall) : Prop where
  reads : ∀ pre, pre <+: calls →
    (CCounter.run pre).value.toInt = reference pre ∧
      (CCounter.run pre).valueWithoutLock.toInt = reference pre ∧
      0 ≤ (CCounter.run pre).value.toInt ∧ 0 ≤ (CCounter.run pre).valueWithoutLock.toInt
  returns : ∀ pre call, pre ++ [call] <+: calls →
    ((CCounter.run pre).returned call).map Int32.toInt = call.expected (reference pre) ∧
      ∀ v ∈ (CCounter.run pre).returned call, 0 ≤ v.toInt

/-! ## What the calls compute -/

namespace CCounter

/-- The test on the unsigned count never holds. -/
theorem clamp_eq (c : CCounter) : c.clamp = c :=
  if_neg (UInt32.not_lt_zero)

/-- **A call on the count is the same call on an `int`**, modulo `2 ^ 32`. -/
theorem value_after (c : CCounter) (call : CounterCall) :
    (c.after call).value.toInt = int32 (call.exact c.value.toInt) := by
  cases call with
  | setvalue nvalue =>
    rw [after, setvalue, clamp_eq, value, Int32.toInt32_toUInt32]
    exact (int32_of_lt nvalue.le_toInt nvalue.toInt_lt).symm
  | increase n =>
    rw [after, increase]
    simp only [clamp_eq, value, UInt32.toInt32_add, Int32.toInt32_toUInt32]
    exact Int32.toInt_add _ _
  | decrease n =>
    rw [after, decrease]
    simp only [clamp_eq, value, UInt32.toInt32_sub, Int32.toInt32_toUInt32]
    exact Int32.toInt_sub _ _
  | resetWithoutLock => rfl

/-- A call that changes the count by what it was given returns it. -/
theorem returned_eq (c : CCounter) (call : CounterCall) :
    c.returned call = match call with
      | .setvalue _ => none
      | .increase _ => some (c.after call).value
      | .decrease _ => some (c.after call).value
      | .resetWithoutLock => some c.value := by
  cases call <;> rfl

theorem run_concat (calls : List CounterCall) (call : CounterCall) :
    run (calls ++ [call]) = (run calls).after call := by
  rw [run, run, List.foldl_concat]

end CCounter

/-! ## How long it agrees with the reference counter -/

namespace CounterCall

variable {r : ℤ}

/-- A counter that is not negative is lowered by an `int` at most to the
least `int`. -/
theorem le_exact (hr : 0 ≤ r) (call : CounterCall) : -2 ^ 31 ≤ call.exact r := by
  cases call with
  | setvalue nvalue => exact nvalue.le_toInt
  | increase n =>
    have := n.le_toInt
    simp only [exact]
    omega
  | decrease n =>
    have := n.toInt_lt
    simp only [exact]
    omega
  | resetWithoutLock =>
    simp only [exact]
    norm_num

end CounterCall

theorem reference_concat (calls : List CounterCall) (call : CounterCall) :
    reference (calls ++ [call]) = max 0 (call.exact (reference calls)) := by
  rw [reference, List.foldl_concat, reference]

theorem reference_nonneg (calls : List CounterCall) : 0 ≤ reference calls := by
  induction calls using List.reverseRecOn with
  | nil => exact le_rfl
  | append_singleton calls call _ =>
    rw [reference_concat]
    exact le_max_left _ _

namespace NeverBelow

variable {calls : List CounterCall} {call : CounterCall}

theorem of_prefix {pre : List CounterCall} (h : NeverBelow calls) (hpre : pre <+: calls) :
    NeverBelow pre := fun q call hq => h q call (hq.trans hpre)

theorem nil : NeverBelow [] := by
  intro pre call hpre
  have := hpre.length_le
  simp at this

theorem concat (h : NeverBelow calls) (hcall : 0 ≤ call.exact (reference calls)) :
    NeverBelow (calls ++ [call]) := by
  intro pre call' hpre
  rcases List.prefix_concat_iff.mp hpre with heq | hshort
  · obtain ⟨rfl, hlast⟩ := List.append_inj' heq rfl
    injection hlast with hlast
    exact hlast ▸ hcall
  · exact h pre call' hshort

end NeverBelow

theorem StaysInt.of_prefix {pre calls : List CounterCall} (h : StaysInt calls)
    (hpre : pre <+: calls) : StaysInt pre := fun q call hq => h q call (hq.trans hpre)

/-- **One call more**: where the count was the reference counter's, what can
be read after it is the exact total. -/
theorem value_of_concat {calls : List CounterCall} {call : CounterCall}
    (hlim : StaysInt (calls ++ [call])) (hnever : NeverBelow calls)
    (hvalue : (CCounter.run calls).value.toInt = reference calls) :
    (CCounter.run (calls ++ [call])).value.toInt = call.exact (reference calls) := by
  have hlow : -2 ^ 31 ≤ call.exact (reference calls) := call.le_exact (reference_nonneg calls)
  have hhigh : call.exact (reference calls) < 2 ^ 31 := hlim calls call List.prefix_rfl hnever
  rw [CCounter.run_concat, CCounter.value_after, hvalue]
  exact int32_of_lt hlow hhigh

/-- **A run that stays above zero** shows the reference counter. -/
theorem value_of_neverBelow {calls : List CounterCall} (hlim : StaysInt calls)
    (hnever : NeverBelow calls) : (CCounter.run calls).value.toInt = reference calls := by
  induction calls using List.reverseRecOn with
  | nil => rfl
  | append_singleton calls call ih =>
    have hpre : calls <+: calls ++ [call] := List.prefix_append _ _
    have hbefore := ih (hlim.of_prefix hpre) (hnever.of_prefix hpre)
    rw [value_of_concat hlim (hnever.of_prefix hpre) hbefore, reference_concat,
      max_eq_right (hnever calls call List.prefix_rfl)]

/-- **The counter saturates** along a run that never has to. -/
theorem saturates_of_neverBelow {calls : List CounterCall} (hlim : StaysInt calls)
    (hnever : NeverBelow calls) : Saturates calls := by
  have hvalue : ∀ pre, pre <+: calls → (CCounter.run pre).value.toInt = reference pre :=
    fun pre hpre => value_of_neverBelow (hlim.of_prefix hpre) (hnever.of_prefix hpre)
  refine ⟨fun pre hpre => ?_, fun pre call hpre => ?_⟩
  · have hpos : 0 ≤ (CCounter.run pre).value.toInt := hvalue pre hpre ▸ reference_nonneg pre
    exact ⟨hvalue pre hpre, hvalue pre hpre, hpos, hpos⟩
  · have hbefore := hvalue pre ((List.prefix_append _ _).trans hpre)
    have hafter := hvalue _ hpre
    rw [CCounter.run_concat, reference_concat] at hafter
    rw [CCounter.returned_eq]
    cases call with
    | setvalue nvalue => exact ⟨rfl, by simp⟩
    | increase n | decrease n =>
      refine ⟨congrArg some hafter, ?_⟩
      intro v hv
      obtain rfl := Option.mem_some.mp hv
      exact hafter ▸ le_max_left _ _
    | resetWithoutLock =>
      refine ⟨congrArg some hbefore, ?_⟩
      intro v hv
      obtain rfl := Option.mem_some.mp hv
      exact hbefore ▸ reference_nonneg pre

/-- **The first call that takes the total below zero shows it.** -/
theorem neverBelow_of_saturates {calls : List CounterCall} (hlim : StaysInt calls)
    (hsat : Saturates calls) : NeverBelow calls := by
  have hpre : ∀ pre, pre <+: calls → NeverBelow pre := by
    intro pre
    induction pre using List.reverseRecOn with
    | nil => exact fun _ => .nil
    | append_singleton pre call ih =>
      intro hpre
      have hshort : pre <+: calls := (List.prefix_append _ _).trans hpre
      obtain ⟨hread, -, hpos, -⟩ := hsat.reads _ hpre
      rw [value_of_concat (hlim.of_prefix hpre) (ih hshort) (hsat.reads pre hshort).1] at hpos
      exact (ih hshort).concat hpos
  exact hpre calls List.prefix_rfl

/-- **Where the exact total stays an `int`, the counter saturates at zero if
and only if it never has to**: no call takes the total below zero. -/
theorem saturates_iff {calls : List CounterCall} (hlim : StaysInt calls) :
    Saturates calls ↔ NeverBelow calls :=
  ⟨neverBelow_of_saturates hlim, saturates_of_neverBelow hlim⟩

/-- A counter that is lowered to zero, and one that is lowered further. -/
theorem saturates_iff_lowered :
    Saturates [.setvalue 3, .decrease 2, .increase 4, .decrease 5] ∧
      ¬ Saturates [.setvalue 3, .decrease 2, .increase 4, .decrease 6] :=
  ⟨(saturates_iff (by decide)).mpr (by decide), fun hsat =>
    absurd ((saturates_iff (by decide)).mp hsat) (by decide)⟩

/-- **It shows `-1`** where the reference counter has zero. -/
theorem decrease_not_saturates : StaysInt [.decrease 1] ∧ ¬ Saturates [.decrease 1] := by
  refine ⟨by decide, fun hsat => ?_⟩
  have hread := (hsat.reads [.decrease 1] List.prefix_rfl).1
  exact absurd hread (by decide)

end Network

end EupuServer
