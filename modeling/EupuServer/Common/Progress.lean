import EupuServer.Common.Machine
import Mathlib.Order.Monotone.Basic
import Mathlib.Order.WellFounded
/-!
# Runs that go on for ever

A run without end takes a step for each number. What happens again and
again in it (`Often`) is shown with a rank: a rank that no step raises but a
reset either is reset again and again or settles (`Run.settles`), and where
it has settled no step that lowers it is taken any more.
-/

namespace EupuServer

namespace Machine

variable {σ α β : Type*} {M : Machine σ α}

/-- **A run without end.** -/
structure Run (M : Machine σ α) where
  state : ℕ → σ
  label : ℕ → α
  start : state 0 = M.init
  step : ∀ n, M.next (state n) (label n) = some (state (n + 1))

namespace Run

variable (r : M.Run)

/-- Every state of it is reached. -/
theorem reachable (n : ℕ) : M.Reachable (r.state n) := by
  induction n with
  | zero => exact r.start ▸ .start
  | succ n ih => exact .step ih trivial (r.step n)

theorem takes (n : ℕ) : M.Takes (r.state n) (r.label n) (r.state (n + 1)) :=
  ⟨r.reachable n, r.step n⟩

/-- What happens again and again. -/
def Often (P : σ → α → Prop) : Prop := ∀ m, ∃ n, m ≤ n ∧ P (r.state n) (r.label n)

variable {r}

/-- **A rank that is not raised any more settles.** -/
theorem settles_from [PartialOrder β] [WellFoundedLT β] (rank : σ → β) {m : ℕ}
    (hrank : ∀ n, m ≤ n → rank (r.state (n + 1)) ≤ rank (r.state n)) :
    ∃ k, m ≤ k ∧ ∀ n, k ≤ n → rank (r.state n) = rank (r.state k) := by
  -- from `m` on the ranks descend, and a chain that descends is constant
  have hanti : Antitone fun k => rank (r.state (m + k)) :=
    antitone_nat_of_succ_le fun k => hrank (m + k) (Nat.le_add_right m k)
  obtain ⟨_, ⟨k, rfl⟩, hmin⟩ := wellFounded_lt.has_min
    (Set.range fun k => rank (r.state (m + k))) ⟨_, 0, rfl⟩
  refine ⟨m + k, Nat.le_add_right m k, fun n hn => ?_⟩
  have hle : rank (r.state (m + (n - m))) ≤ rank (r.state (m + k)) := hanti (by omega)
  have heq := eq_of_le_of_not_lt hle (hmin _ ⟨n - m, rfl⟩)
  rwa [Nat.add_sub_cancel' (by omega)] at heq

/-- **A rank is reset again and again, or it settles.** -/
theorem settles [PartialOrder β] [WellFoundedLT β] (rank : σ → β) (reset : σ → α → Prop)
    (hrank : ∀ s a s', M.Takes s a s' → ¬ reset s a → rank s' ≤ rank s) :
    r.Often reset ∨ ∃ m, ∀ n, m ≤ n →
      ¬ reset (r.state n) (r.label n) ∧ rank (r.state n) = rank (r.state m) := by
  by_cases hoften : r.Often reset
  · exact .inl hoften
  · unfold Often at hoften
    push Not at hoften
    obtain ⟨m, hm⟩ := hoften
    obtain ⟨k, hmk, hk⟩ := r.settles_from rank fun n hn => hrank _ _ _ (r.takes n) (hm n hn)
    exact .inr ⟨k, fun n hn => ⟨hm n (by omega), hk n hn⟩⟩

/-- A run that is out of `P` and was in it has left it on the way. -/
theorem exists_leaves {P : σ → Prop} {m k : ℕ} (hmk : m ≤ k) (hm : P (r.state m))
    (hk : ¬ P (r.state k)) : ∃ n, m ≤ n ∧ n < k ∧ P (r.state n) ∧ ¬ P (r.state (n + 1)) := by
  induction k, hmk using Nat.le_induction with
  | base => exact absurd hm hk
  | succ k hmk ih =>
    by_cases hP : P (r.state k)
    · exact ⟨k, hmk, Nat.lt_succ_self k, hP, hk⟩
    · obtain ⟨n, hmn, hnk, hleave⟩ := ih hP
      exact ⟨n, hmn, by omega, hleave⟩

/-! ## Going on from a state -/

/-- What a list of labels executes to, one label at a time. -/
theorem exec_take_succ {s s' : σ} {as : List α} (h : M.exec (fun _ _ => True) s as = some s')
    {k : ℕ} (hk : k < as.length) :
    ∃ s₁ s₂, M.exec (fun _ _ => True) s (as.take k) = some s₁ ∧ M.next s₁ as[k] = some s₂ ∧
      M.exec (fun _ _ => True) s (as.take (k + 1)) = some s₂ := by
  induction as generalizing s k with
  | nil => cases hk
  | cons a as ih =>
    rw [Machine.exec, if_pos trivial, Option.bind_eq_some_iff] at h
    obtain ⟨s₁, hnext, hrest⟩ := h
    cases k with
    | zero =>
      refine ⟨s, s₁, rfl, hnext, ?_⟩
      rw [List.take_succ_cons, exec_cons _ trivial hnext]
      rfl
    | succ k =>
      obtain ⟨t, t', ht, hstep, ht'⟩ := ih hrest (Nat.lt_of_succ_lt_succ hk)
      refine ⟨t, t', ?_, hstep, ?_⟩
      · rw [List.take_succ_cons, exec_cons _ trivial hnext, ht]
      · rw [List.take_succ_cons, exec_cons _ trivial hnext, ht']

/-- The states that labels lead through, and from there on those given. -/
def followState (M : Machine σ α) (as : List α) (state : ℕ → σ) (n : ℕ) : σ :=
  if n < as.length then (M.exec (fun _ _ => True) M.init (as.take n)).getD M.init
  else state (n - as.length)

/-- These labels, and from there on those given. -/
def followLabel (as : List α) (label : ℕ → α) (n : ℕ) : α :=
  if hn : n < as.length then as.get ⟨n, hn⟩ else label (n - as.length)

theorem followState_zero {as : List α} {s : σ}
    (h : M.exec (fun _ _ => True) M.init as = some s) {state : ℕ → σ} (hstart : state 0 = s) :
    followState M as state 0 = M.init := by
  unfold followState
  split
  · rfl
  · rename_i hn
    have hnil : as = [] := List.length_eq_zero_iff.mp (by omega)
    subst hnil
    rw [Machine.exec, Option.some.injEq] at h
    exact hstart.trans h.symm

theorem followState_succ {as : List α} {s : σ}
    (h : M.exec (fun _ _ => True) M.init as = some s) {state : ℕ → σ} {label : ℕ → α}
    (hstart : state 0 = s) (hstep : ∀ n, M.next (state n) (label n) = some (state (n + 1)))
    (n : ℕ) :
    M.next (followState M as state n) (followLabel as label n) =
      some (followState M as state (n + 1)) := by
  unfold followState followLabel
  rcases Nat.lt_or_ge n as.length with hn | hn
  · obtain ⟨s₁, s₂, hs₁, hstep', hs₂⟩ := exec_take_succ h hn
    rw [if_pos hn, dif_pos hn, hs₁, Option.getD_some, List.get_eq_getElem, hstep']
    congr 1
    split
    · rw [hs₂, Option.getD_some]
    · -- the last of the labels leads to where the others start
      have hlast : n + 1 = as.length := by omega
      rw [hlast, List.take_length, h, Option.some.injEq] at hs₂
      rw [hlast, Nat.sub_self, hstart, ← hs₂]
  · rw [if_neg (by omega), dif_neg (by omega), if_neg (by omega), hstep,
      Nat.sub_add_comm hn]

/-- **The run that goes on from a state**: labels that lead to it, and from
there on the states and labels given. -/
def follow (M : Machine σ α) (as : List α) {s : σ}
    (h : M.exec (fun _ _ => True) M.init as = some s) (state : ℕ → σ) (label : ℕ → α)
    (hstart : state 0 = s) (hstep : ∀ n, M.next (state n) (label n) = some (state (n + 1))) :
    M.Run :=
  ⟨followState M as state, followLabel as label, followState_zero h hstart,
    followState_succ h hstart hstep⟩

section

variable {as : List α} {s : σ} {h : M.exec (fun _ _ => True) M.init as = some s}
  {state : ℕ → σ} {label : ℕ → α} {hstart : state 0 = s}
  {hstep : ∀ n, M.next (state n) (label n) = some (state (n + 1))} {n : ℕ}

theorem follow_state (hn : as.length ≤ n) :
    (follow M as h state label hstart hstep).state n = state (n - as.length) :=
  if_neg (by omega)

theorem follow_label (hn : as.length ≤ n) :
    (follow M as h state label hstart hstep).label n = label (n - as.length) :=
  dif_neg (by omega)

end

/-- **The run that comes to rest**: labels that lead to a state, and one that
leaves it as it is from there on. -/
def rest (M : Machine σ α) (as : List α) {s : σ}
    (h : M.exec (fun _ _ => True) M.init as = some s) {a : α} (ha : M.next s a = some s) :
    M.Run :=
  follow M as h (fun _ => s) (fun _ => a) rfl fun _ => ha

/-- It rests behind the labels. -/
theorem rest_state {as : List α} {s : σ} {h : M.exec (fun _ _ => True) M.init as = some s} {a : α}
    {ha : M.next s a = some s} {n : ℕ} (hn : as.length ≤ n) : (rest M as h ha).state n = s :=
  follow_state hn

end Run

end Machine

end EupuServer
