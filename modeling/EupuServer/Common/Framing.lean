import Mathlib.Data.List.Basic
/-!
# Framing a stream by length headers

A framing reads off the first elements of a stream how long the frame
they begin is, or that no frame can begin so. `split` cuts a stream into
its frames, the tail that has not become one yet, and whether it stopped
at elements that begin no frame. What a stream splits into does not
depend on where it is cut: the split of `xs ++ ys` is the split of `xs`
followed by that of its tail and `ys` (`split_append`).
-/

namespace EupuServer

/-- **A framing.** `header xs` is `none` while `xs` is too short to tell,
`some none` where no frame begins so, and `some (some n)` where the frame
has `n` elements. More elements change no answer. -/
structure Framing (α : Type*) where
  header : List α → Option (Option ℕ)
  header_append : ∀ xs ys v, header xs = some v → header (xs ++ ys) = some v
  header_nil : header [] = none
  pos : ∀ xs n, header xs = some (some n) → 0 < n

namespace Framing

variable {α : Type*} (F : Framing α)

/-- What can be said of the frame that begins a stream. -/
inductive Verdict
  | pending
  | rejected
  | frame (n : ℕ)
  deriving DecidableEq, Repr

/-- The verdict on the first frame of `xs`. -/
def verdict (xs : List α) : Verdict :=
  match F.header xs with
  | none => .pending
  | some none => .rejected
  | some (some n) => if n ≤ xs.length then .frame n else .pending

/-- A stream cut up: its frames, the tail, and whether the tail begins no
frame. -/
@[ext] structure Split (α : Type*) where
  frames : List (List α)
  rest : List α
  rejected : Bool
  deriving DecidableEq, Repr

/-- The frames of one stream in front of the cut of another. -/
def Split.prepend (fs : List (List α)) (r : Split α) : Split α :=
  { r with frames := fs ++ r.frames }

@[simp] theorem Split.prepend_frames (fs : List (List α)) (r : Split α) :
    (r.prepend fs).frames = fs ++ r.frames := rfl

@[simp] theorem Split.prepend_rest (fs : List (List α)) (r : Split α) :
    (r.prepend fs).rest = r.rest := rfl

@[simp] theorem Split.prepend_rejected (fs : List (List α)) (r : Split α) :
    (r.prepend fs).rejected = r.rejected := rfl

theorem Split.prepend_prepend (fs gs : List (List α)) (r : Split α) :
    (r.prepend gs).prepend fs = r.prepend (fs ++ gs) := by
  simp [Split.prepend]

theorem Split.prepend_nil (r : Split α) : r.prepend [] = r := rfl

/-- Cutting at most `k` frames off `xs`. -/
def splitAtMost : ℕ → List α → Split α
  | 0, xs => ⟨[], xs, false⟩
  | k + 1, xs =>
    match F.verdict xs with
    | .pending => ⟨[], xs, false⟩
    | .rejected => ⟨[], xs, true⟩
    | .frame n => (splitAtMost k (xs.drop n)).prepend [xs.take n]

/-- **The reference cut of a stream**: frames have at least one element,
so `xs` has at most `xs.length` of them. -/
def split (xs : List α) : Split α := F.splitAtMost xs.length xs

variable {F} {xs ys : List α} {n k : ℕ}

/-! ## The verdict -/

theorem verdict_frame (h : F.verdict xs = .frame n) :
    F.header xs = some (some n) ∧ 0 < n ∧ n ≤ xs.length := by
  unfold verdict at h
  split at h
  · cases h
  · cases h
  · rename_i m hm
    split at h
    · injection h with h
      subst h
      exact ⟨hm, F.pos _ _ hm, ‹_›⟩
    · cases h

theorem verdict_nil : F.verdict [] = .pending := by
  simp [verdict, F.header_nil]

/-- **A verdict stands**, whatever arrives after it. -/
theorem verdict_append (h : F.verdict xs ≠ .pending) :
    F.verdict (xs ++ ys) = F.verdict xs := by
  unfold verdict at h ⊢
  cases hh : F.header xs with
  | none => simp [hh] at h
  | some v =>
    rw [F.header_append xs ys v hh]
    cases v with
    | none => rfl
    | some m =>
      by_cases hm : m ≤ xs.length
      · simp [hm, Nat.le_trans hm (Nat.le_add_right _ _)]
      · simp [hh, hm] at h

/-- A frame of `xs` is cut from the front of `xs ++ ys` as well. -/
theorem take_of_verdict_frame (h : F.verdict xs = .frame n) (ys : List α) :
    (xs ++ ys).take n = xs.take n ∧ (xs ++ ys).drop n = xs.drop n ++ ys := by
  obtain ⟨-, -, hle⟩ := verdict_frame h
  exact ⟨List.take_append_of_le_length hle, List.drop_append_of_le_length hle⟩

/-! ## The cut -/

theorem splitAtMost_eq : ∀ (k : ℕ) (xs : List α), xs.length ≤ k →
    F.splitAtMost k xs = F.split xs := by
  intro k
  induction k using Nat.strongRecOn with
  | ind k ih =>
    intro xs hk
    unfold split
    match k, hl : xs.length with
    | 0, 0 => rfl
    | 0, l + 1 => omega
    | k + 1, 0 =>
      rw [List.length_eq_zero_iff] at hl
      subst hl
      simp [splitAtMost, verdict_nil]
    | k + 1, l + 1 =>
      rw [splitAtMost, splitAtMost]
      cases hv : F.verdict xs with
      | pending => rfl
      | rejected => rfl
      | frame n =>
        obtain ⟨-, hpos, hle⟩ := verdict_frame hv
        have hd : (xs.drop n).length ≤ l := by rw [List.length_drop]; omega
        simp only
        rw [ih k (by omega) _ (by omega), ih l (by omega) _ hd]

theorem split_of_pending (h : F.verdict xs = .pending) : F.split xs = ⟨[], xs, false⟩ := by
  rw [← splitAtMost_eq (xs.length + 1) xs (by omega), splitAtMost, h]

theorem split_of_rejected (h : F.verdict xs = .rejected) : F.split xs = ⟨[], xs, true⟩ := by
  rw [← splitAtMost_eq (xs.length + 1) xs (by omega), splitAtMost, h]

theorem split_of_frame (h : F.verdict xs = .frame n) :
    F.split xs = (F.split (xs.drop n)).prepend [xs.take n] := by
  rw [← splitAtMost_eq (xs.length + 1) xs (by omega), splitAtMost, h]
  simp only
  rw [splitAtMost_eq _ _ (by rw [List.length_drop]; omega)]

theorem split_nil : F.split [] = ⟨[], [], false⟩ := split_of_pending verdict_nil

/-- **The induction the cut goes by**: on the first verdict, and past a
frame on what follows it. -/
theorem split_induction {P : List α → Prop}
    (pending : ∀ xs, F.verdict xs = .pending → P xs)
    (rejected : ∀ xs, F.verdict xs = .rejected → P xs)
    (frame : ∀ xs n, F.verdict xs = .frame n → P (xs.drop n) → P xs) (xs : List α) : P xs := by
  induction hl : xs.length using Nat.strongRecOn generalizing xs with
  | ind l ih =>
    cases hv : F.verdict xs with
    | pending => exact pending xs hv
    | rejected => exact rejected xs hv
    | frame n =>
      obtain ⟨-, hpos, hle⟩ := verdict_frame hv
      exact frame xs n hv (ih (xs.drop n).length (by rw [List.length_drop]; omega) _ rfl)

/-- The tail of a stream that was not rejected waits for more. -/
theorem verdict_rest (h : (F.split xs).rejected = false) :
    F.verdict (F.split xs).rest = .pending := by
  induction xs using split_induction (F := F) with
  | pending xs hv => rw [split_of_pending hv]; exact hv
  | rejected xs hv => rw [split_of_rejected hv] at h; cases h
  | frame xs n hv ih =>
    rw [split_of_frame hv] at h ⊢
    exact ih h

/-- Frames and tail are the stream. -/
theorem split_flatten (xs : List α) : (F.split xs).frames.flatten ++ (F.split xs).rest = xs := by
  induction xs using split_induction (F := F) with
  | pending xs hv => simp [split_of_pending hv]
  | rejected xs hv => simp [split_of_rejected hv]
  | frame xs n hv ih =>
    rw [split_of_frame hv]
    simp only [Split.prepend_frames, Split.prepend_rest, List.singleton_append,
      List.flatten_cons, List.append_assoc]
    rw [ih, List.take_append_drop]

/-- **A frame is a piece of the stream**, cut where the verdict names it. -/
theorem verdict_of_mem_frames {f : List α} (h : f ∈ (F.split xs).frames) :
    ∃ k n, F.verdict (xs.drop k) = .frame n ∧ f = (xs.drop k).take n := by
  induction xs using split_induction (F := F) with
  | pending xs hv => simp [split_of_pending hv] at h
  | rejected xs hv => simp [split_of_rejected hv] at h
  | frame xs n hv ih =>
    rw [split_of_frame hv] at h
    simp only [Split.prepend_frames, List.singleton_append, List.mem_cons] at h
    rcases h with rfl | h
    · exact ⟨0, n, by rwa [List.drop_zero], by rw [List.drop_zero]⟩
    · obtain ⟨k, m, hk, hf⟩ := ih h
      rw [List.drop_drop] at hk hf
      exact ⟨n + k, m, hk, hf⟩

/-- **Frames one after the other are cut into these frames.** -/
theorem split_of_frames {fs : List (List α)} (h : ∀ f ∈ fs, F.verdict f = .frame f.length) :
    F.split fs.flatten = ⟨fs, [], false⟩ := by
  induction fs with
  | nil => exact split_nil
  | cons f fs ih =>
    have hf : F.verdict f = .frame f.length := h f List.mem_cons_self
    have hv : F.verdict (f ++ fs.flatten) = .frame f.length := by
      rw [verdict_append (by rw [hf]; simp), hf]
    rw [List.flatten_cons, split_of_frame hv, List.drop_left, List.take_left,
      ih fun g hg => h g (List.mem_cons_of_mem _ hg)]
    rfl

/-- **Cutting is independent of where the stream is cut.** -/
theorem split_append (h : (F.split xs).rejected = false) (ys : List α) :
    F.split (xs ++ ys) = (F.split ((F.split xs).rest ++ ys)).prepend (F.split xs).frames := by
  induction xs using split_induction (F := F) with
  | pending xs hv => rw [split_of_pending hv, Split.prepend_nil]
  | rejected xs hv => rw [split_of_rejected hv] at h; cases h
  | frame xs n hv ih =>
    obtain ⟨htake, hdrop⟩ := take_of_verdict_frame hv ys
    have hv' : F.verdict (xs ++ ys) = .frame n := by rw [verdict_append (by rw [hv]; simp), hv]
    rw [split_of_frame hv] at h ⊢
    rw [split_of_frame hv', htake, hdrop, ih h]
    simp [Split.prepend_prepend]

/-- A rejected stream stays rejected, with the same frames. -/
theorem split_append_of_rejected (h : (F.split xs).rejected = true) (ys : List α) :
    (F.split (xs ++ ys)).frames = (F.split xs).frames ∧
      (F.split (xs ++ ys)).rejected = true := by
  induction xs using split_induction (F := F) with
  | pending xs hv => rw [split_of_pending hv] at h; cases h
  | rejected xs hv =>
    have hv' : F.verdict (xs ++ ys) = .rejected := by rw [verdict_append (by rw [hv]; simp), hv]
    rw [split_of_rejected hv, split_of_rejected hv']
    exact ⟨rfl, rfl⟩
  | frame xs n hv ih =>
    obtain ⟨htake, hdrop⟩ := take_of_verdict_frame hv ys
    have hv' : F.verdict (xs ++ ys) = .frame n := by rw [verdict_append (by rw [hv]; simp), hv]
    rw [split_of_frame hv] at h ⊢
    rw [split_of_frame hv', htake, hdrop]
    simp only [Split.prepend_frames, Split.prepend_rejected] at h ⊢
    exact ⟨by rw [(ih h).1], (ih h).2⟩

/-- **What a stream begins with is cut off it first**: where frames and a
tail that waits for more are the front of other frames, they are the first of
these, and all of them where nothing else follows. -/
theorem frames_of_append {fs gs : List (List α)} (ys zs : List α)
    (hfs : ∀ f ∈ fs, F.verdict f = .frame f.length) (hgs : ∀ g ∈ gs, F.verdict g = .frame g.length)
    (h : fs.flatten ++ ys ++ zs = gs.flatten) :
    fs <+: gs ∧ (F.verdict ys = .pending → zs = [] → fs = gs) := by
  have hcut : F.split (fs.flatten ++ (ys ++ zs)) = (F.split (ys ++ zs)).prepend fs := by
    have hsplit := split_of_frames hfs
    rw [split_append (by rw [hsplit]) (ys ++ zs), hsplit, List.nil_append]
  rw [← List.append_assoc, h, split_of_frames hgs] at hcut
  have hframes : gs = fs ++ (F.split (ys ++ zs)).frames := congrArg Split.frames hcut
  refine ⟨⟨_, hframes.symm⟩, ?_⟩
  rintro hpending rfl
  rw [List.append_nil, split_of_pending hpending, List.append_nil] at hframes
  exact hframes.symm

end Framing

end EupuServer
