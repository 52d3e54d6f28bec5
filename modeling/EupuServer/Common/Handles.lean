import Mathlib.Data.Finset.Basic
/-!
# Programs that hold handles

A program acquires handles, uses them and gives them back. `run` is what
is held after its operations, and has no value where one of them uses or
releases what is not held, or acquires what is. A program that uses only
what it holds leaves it as it is (`run_uses`); one that acquires a handle,
uses it and releases it leaves no trace (`run_scoped`). `tryAll` is a
program that goes on for as long as nothing fails.
-/

namespace EupuServer

variable {α : Type*}

/-- What a program does with a handle. -/
inductive HandleOp (α : Type*)
  | acquire (a : α)
  | use (a : α)
  | release (a : α)
  deriving DecidableEq, Repr

namespace Handles

variable [DecidableEq α]

/-- What is held after one operation. -/
def step (held : Finset α) : HandleOp α → Option (Finset α)
  | .acquire a => if a ∈ held then none else some (insert a held)
  | .use a => if a ∈ held then some held else none
  | .release a => if a ∈ held then some (held.erase a) else none

/-- **What is held after the operations**, in order. -/
def run (held : Finset α) (ops : List (HandleOp α)) : Option (Finset α) := ops.foldlM step held

variable {held held' : Finset α} {a : α} {ops ops' : List (HandleOp α)}

@[simp] theorem run_nil : run held [] = some held := rfl

theorem run_cons (op : HandleOp α) : run held (op :: ops) = (step held op).bind (run · ops) := rfl

theorem run_append : run held (ops ++ ops') = (run held ops).bind (run · ops') :=
  List.foldlM_append

/-- One program behind another. -/
theorem run_trans {held'' : Finset α} (h : run held ops = some held')
    (h' : run held' ops' = some held'') : run held (ops ++ ops') = some held'' := by
  rw [run_append, h, Option.bind_some, h']

theorem run_acquire (ha : a ∉ held) : run held [.acquire a] = some (insert a held) := by
  rw [run_cons, step, if_neg ha, Option.bind_some, run_nil]

theorem run_release (ha : a ∈ held) : run held [.release a] = some (held.erase a) := by
  rw [run_cons, step, if_pos ha, Option.bind_some, run_nil]

/-- **Using what is held changes nothing.** -/
theorem run_uses (h : ∀ op ∈ ops, ∃ a ∈ held, op = .use a) : run held ops = some held := by
  induction ops with
  | nil => exact run_nil
  | cons op ops ih =>
    obtain ⟨⟨a, ha, rfl⟩, hrest⟩ := List.forall_mem_cons.mp h
    rw [run_cons, step, if_pos ha, Option.bind_some]
    exact ih hrest

/-- A handle that is acquired and used is held. -/
theorem run_kept (ha : a ∉ held) (h : ∀ op ∈ ops, op = .use a) :
    run held (.acquire a :: ops) = some (insert a held) :=
  run_trans (run_acquire ha) (run_uses fun op hop => ⟨a, Finset.mem_insert_self a held, h op hop⟩)

/-- **A handle that is acquired, used and released leaves no trace.** -/
theorem run_scoped (ha : a ∉ held) (h : ∀ op ∈ ops, op = .use a) :
    run held (.acquire a :: ops ++ [.release a]) = some held := by
  have hrelease := run_release (Finset.mem_insert_self a held)
  rw [Finset.erase_insert ha] at hrelease
  exact run_trans (run_kept ha h) hrelease

end Handles

/-! ## Until one fails -/

/-- Whether all the steps succeed, and the calls made up to the one that
fails. A step has its calls and whether it succeeds. -/
def tryAll : List (List α × Bool) → Bool × List α
  | [] => (true, [])
  | (calls, ok) :: steps =>
    if ok then ((tryAll steps).1, calls ++ (tryAll steps).2) else (false, calls)

section

variable {steps : List (List α × Bool)}

/-- It succeeds where every step does. -/
theorem tryAll_fst : (tryAll steps).1 = true ↔ ∀ step ∈ steps, step.2 = true := by
  induction steps with
  | nil => simp [tryAll]
  | cons step steps ih =>
    obtain ⟨calls, ok⟩ := step
    rw [List.forall_mem_cons, ← ih, tryAll]
    cases ok <;> simp

/-- What it calls, one of the steps does. -/
theorem forall_mem_tryAll {P : α → Prop} (h : ∀ step ∈ steps, ∀ a ∈ step.1, P a) :
    ∀ a ∈ (tryAll steps).2, P a := by
  induction steps with
  | nil => simp [tryAll]
  | cons step steps ih =>
    obtain ⟨hstep, hrest⟩ := List.forall_mem_cons.mp h
    obtain ⟨calls, ok⟩ := step
    rw [tryAll]
    split
    · intro a ha
      rcases List.mem_append.mp ha with ha | ha
      · exact hstep a ha
      · exact ih hrest a ha
    · exact hstep

end

end EupuServer
