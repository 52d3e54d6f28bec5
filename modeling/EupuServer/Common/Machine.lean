import Mathlib.Data.List.Basic
/-!
# Machines and their runs

A machine takes a state and a label to the next state, where the label
carries every choice the state leaves open: which thread moves, what the
environment answers. `Reach ok` holds of the states of the runs all of
whose steps meet `ok`, so a condition on a run is a condition on its
steps, and the rule for invariants (`Reach.invariant`) may use it.
-/

namespace EupuServer

variable {σ α : Type*}

/-- **A machine.** `next s a` is `none` where `a` cannot happen in `s`. -/
structure Machine (σ α : Type*) where
  init : σ
  next : σ → α → Option σ

namespace Machine

variable (M : Machine σ α)

/-- The states of the runs whose steps all meet `ok`. -/
inductive Reach (ok : σ → α → Prop) : σ → Prop
  | start : Reach ok M.init
  | step {s s' : σ} {a : α} : Reach ok s → ok s a → M.next s a = some s' → Reach ok s'

/-- A step that a run takes. -/
def Takes (s : σ) (a : α) (s' : σ) : Prop := M.Reach (fun _ _ => True) s ∧ M.next s a = some s'

/-- The states of all runs. -/
abbrev Reachable : σ → Prop := M.Reach fun _ _ => True

variable {M} {ok ok' : σ → α → Prop} {s s' : σ}

/-- A weaker condition reaches more states. -/
theorem Reach.mono (h : ∀ s a, ok s a → ok' s a) (hs : M.Reach ok s) : M.Reach ok' s := by
  induction hs with
  | start => exact .start
  | step _ hok hnext ih => exact .step ih (h _ _ hok) hnext

/-- A run under a condition is a run. -/
theorem Reach.reachable (hs : M.Reach ok s) : M.Reachable s :=
  hs.mono fun _ _ _ => trivial

/-- **The rule for invariants.** What holds at the start and is kept by
every step that meets `ok` holds in every state reached. The step may use
that its source is itself reached. -/
theorem Reach.invariant {I : σ → Prop} (hinit : I M.init)
    (hstep : ∀ s a s', M.Reach ok s → ok s a → M.next s a = some s' → I s → I s')
    (hs : M.Reach ok s) : I s := by
  induction hs with
  | start => exact hinit
  | step hs hok hnext ih => exact hstep _ _ _ hs hok hnext ih

/-- **The rule for simulations.** Where every step that meets `ok` is for the
other machine a step that meets `okN`, or none, what a run reaches is for it
what a run reaches. -/
theorem Reach.simulates {τ β : Type*} {N : Machine τ β} {okN : τ → β → Prop} {f : σ → τ}
    (hinit : f M.init = N.init)
    (hstep : ∀ s a s', M.Reach ok s → N.Reach okN (f s) → ok s a → M.next s a = some s' →
      f s' = f s ∨ ∃ b, okN (f s) b ∧ N.next (f s) b = some (f s'))
    (hs : M.Reach ok s) : N.Reach okN (f s) := by
  refine hs.invariant (I := fun s => N.Reach okN (f s)) (hinit ▸ .start) ?_
  intro s a s' hs hok hnext hreach
  rcases hstep s a s' hs hreach hok hnext with heq | ⟨b, hb, hnext'⟩
  · rw [heq]
    exact hreach
  · exact .step hreach hb hnext'

/-! ## Executing a run -/

/-- The state after the labels `as`, where every step can happen and
meets `ok`. -/
def exec (M : Machine σ α) (ok : σ → α → Prop) [∀ s a, Decidable (ok s a)] :
    σ → List α → Option σ
  | s, [] => some s
  | s, a :: as => if ok s a then (M.next s a).bind fun s' => exec M ok s' as else none

variable [∀ s a, Decidable (ok s a)]

/-- A step that can happen and meets `ok`, executed first. -/
theorem exec_cons {a : α} (as : List α) (hok : ok s a) (hnext : M.next s a = some s') :
    M.exec ok s (a :: as) = M.exec ok s' as := by
  rw [Machine.exec, if_pos hok, hnext, Option.bind_some]

/-- What a run executes to from a reached state is reached. -/
theorem Reach.exec {as : List α} (hs : M.Reach ok s) (h : M.exec ok s as = some s') :
    M.Reach ok s' := by
  induction as generalizing s with
  | nil =>
    rw [Machine.exec, Option.some.injEq] at h
    exact h ▸ hs
  | cons a as ih =>
    rw [Machine.exec] at h
    by_cases hok : ok s a
    · rw [if_pos hok, Option.bind_eq_some_iff] at h
      obtain ⟨s₁, hnext, hrest⟩ := h
      exact ih (.step hs hok hnext) hrest
    · rw [if_neg hok] at h
      cases h

/-- **Where a run got what it has.** What no step brings was there before
it, so what a run has at its end and not at its start a step of it brought. -/
theorem exec_origin {P : σ → Prop} {B : σ → α → σ → Prop}
    (hstep : ∀ s a s', M.next s a = some s' → P s' → P s ∨ B s a s') {as : List α}
    (h : M.exec ok s as = some s') (hstart : ¬ P s) (hend : P s') :
    ∃ before a after s₁ s₂, as = before ++ a :: after ∧ M.exec ok s before = some s₁ ∧
      M.next s₁ a = some s₂ ∧ B s₁ a s₂ := by
  induction as generalizing s with
  | nil =>
    rw [Machine.exec, Option.some.injEq] at h
    exact absurd (h ▸ hend) hstart
  | cons a as ih =>
    rw [Machine.exec] at h
    by_cases hok : ok s a
    · rw [if_pos hok, Option.bind_eq_some_iff] at h
      obtain ⟨s₁, hnext, hrest⟩ := h
      by_cases hP : P s₁
      · exact ⟨[], a, as, s, s₁, rfl, rfl, hnext, (hstep s a s₁ hnext hP).resolve_left hstart⟩
      · obtain ⟨before, b, after, s₂, s₃, has, hexec, hb, hB⟩ := ih hrest hP
        exact ⟨a :: before, b, after, s₂, s₃, by rw [has]; rfl,
          (exec_cons before hok hnext).trans hexec, hb, hB⟩
    · rw [if_neg hok] at h
      cases h

/-- **A run from the start, executed.** -/
theorem reach_of_exec {as : List α} (h : M.exec ok M.init as = some s) : M.Reach ok s :=
  Reach.exec .start h

/-- The same, where only a property of the end is wanted. -/
theorem exists_reach_of_exec (as : List α) {Q : σ → Prop} [DecidablePred Q]
    (h : (M.exec ok M.init as).any (fun s => decide (Q s)) = true) : ∃ s, M.Reach ok s ∧ Q s := by
  obtain ⟨s, hs, hQ⟩ := (Option.any_eq_true _ _).mp h
  exact ⟨s, reach_of_exec hs, of_decide_eq_true hQ⟩

/-- The same for a run and one step more. -/
theorem exists_takes_of_exec (as : List α) {a : α} {Q : σ → σ → Prop} [∀ s s', Decidable (Q s s')]
    (h : (M.exec (fun _ _ => True) M.init as).any
      (fun s => (M.next s a).any fun s' => decide (Q s s')) = true) :
    ∃ s s', M.Takes s a s' ∧ Q s s' := by
  obtain ⟨s, hs, hany⟩ := (Option.any_eq_true _ _).mp h
  obtain ⟨s', hs', hQ⟩ := (Option.any_eq_true _ _).mp hany
  exact ⟨s, s', ⟨reach_of_exec hs, hs'⟩, of_decide_eq_true hQ⟩

end Machine

end EupuServer
