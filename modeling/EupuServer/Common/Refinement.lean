import Mathlib.Data.List.Basic
/-!
# Objects and what they refine

An object takes operations one after the other and answers each, and may
fault. Its specification answers every operation from an abstract state.
The object refines it where a relation between the two states holds at the
start and every operation, from related states, does not fault, is
answered alike and leads to related states (`runOps_refines`). A
specification may also leave answers open; then the object chooses, and
each of its choices is one that is allowed (`runOps_conforms`).
-/

namespace EupuServer

variable {σ τ ι ο : Type*}

/-- The answers of an object to the operations `is`, and its state then;
`none` where one of them faults. -/
def runOps (step : σ → ι → Option (ο × σ)) : σ → List ι → Option (List ο × σ)
  | s, [] => some ([], s)
  | s, i :: is => do
    let (o, s') ← step s i
    let (os, s'') ← runOps step s' is
    return (o :: os, s'')

/-- The answers a specification gives to the operations `is`, and its
state then. -/
def runSpec (spec : τ → ι → ο × τ) : τ → List ι → List ο × τ
  | t, [] => ([], t)
  | t, i :: is =>
    ((spec t i).1 :: (runSpec spec (spec t i).2 is).1, (runSpec spec (spec t i).2 is).2)

variable {step : σ → ι → Option (ο × σ)} {spec : τ → ι → ο × τ} {R : σ → τ → Prop}

/-- **The rule for refinement.** What every operation keeps is kept by any
number of them, and no answer differs from the specified one. -/
theorem runOps_refines
    (hstep : ∀ s t i, R s t → ∃ s', step s i = some ((spec t i).1, s') ∧ R s' (spec t i).2)
    {s : σ} {t : τ} (h : R s t) (is : List ι) :
    ∃ s', runOps step s is = some ((runSpec spec t is).1, s') ∧ R s' (runSpec spec t is).2 := by
  induction is generalizing s t with
  | nil => exact ⟨s, rfl, h⟩
  | cons i is ih =>
    obtain ⟨s₁, hs₁, h₁⟩ := hstep s t i h
    obtain ⟨s₂, hs₂, h₂⟩ := ih h₁
    refine ⟨s₂, ?_, h₂⟩
    simp only [runOps, hs₁, hs₂, Option.bind_eq_bind, Option.bind_some]
    rfl

/-- What a specification that leaves choices open allows as answers to the
operations `is`. -/
inductive Allows (rel : τ → ι → ο → τ → Prop) : τ → List ι → List ο → τ → Prop
  | nil {t : τ} : Allows rel t [] [] t
  | cons {t t' t'' : τ} {i : ι} {is : List ι} {o : ο} {os : List ο} (h : rel t i o t')
      (hrest : Allows rel t' is os t'') : Allows rel t (i :: is) (o :: os) t''

/-- **The rule for refinement** of such a specification. -/
theorem runOps_conforms {rel : τ → ι → ο → τ → Prop}
    (hstep : ∀ s t i, R s t → ∃ o s' t', step s i = some (o, s') ∧ rel t i o t' ∧ R s' t')
    {s : σ} {t : τ} (h : R s t) (is : List ι) :
    ∃ os s' t', runOps step s is = some (os, s') ∧ Allows rel t is os t' ∧ R s' t' := by
  induction is generalizing s t with
  | nil => exact ⟨[], s, t, rfl, .nil, h⟩
  | cons i is ih =>
    obtain ⟨o, s₁, t₁, hs₁, hrel, h₁⟩ := hstep s t i h
    obtain ⟨os, s₂, t₂, hs₂, hrest, h₂⟩ := ih h₁
    refine ⟨o :: os, s₂, t₂, ?_, .cons hrel hrest, h₂⟩
    simp only [runOps, hs₁, hs₂, Option.bind_eq_bind, Option.bind_some]
    rfl

end EupuServer
