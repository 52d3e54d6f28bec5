import EupuServer.Common.Memory
/-!
# Transfer loops

A loop that moves a block of memory by calls that may move a part of it:
each call is made at the position reached, with what is left of the block,
and its answer moves some of it, asks for the call to be made again, or ends
the loop with a result. `Runs` lists what a run of the loop can be, with the
calls it made. From it follow the account of what was moved, for a block
that is read and for one that is written, and how a run ended.
-/

namespace EupuServer

namespace Transfer

open Bytes

variable {ρ : Type*}

/-- What the loop makes of an answer. -/
inductive Reaction
  | retry
  | moved (k : ℕ)
  | stop (result : ℤ)
  deriving DecidableEq, Repr

/-- How much an answer moves. -/
def Reaction.size : Reaction → ℕ
  | .moved k => k
  | _ => 0

/-- A call that was made, and its answer. -/
structure Call (ρ : Type*) where
  pos : ℕ
  room : ℤ
  answer : ρ
  deriving DecidableEq, Repr

/-- **What a run leaves**: the calls it made, what is left of the block, its
result, and the answers it did not come to. -/
structure Outcome (ρ : Type*) where
  calls : List (Call ρ)
  room : ℤ
  result : ℤ
  rest : List ρ
  deriving DecidableEq, Repr

/-- A call that was made before. -/
def Outcome.after (c : Call ρ) (o : Outcome ρ) : Outcome ρ := { o with calls := c :: o.calls }

/-- The last call was answered `a`. -/
def Outcome.StoppedBy (o : Outcome ρ) (a : ρ) : Prop :=
  ∃ c, o.calls.getLast? = some c ∧ c.answer = a

variable (react : ρ → Reaction) (full : ℤ)

/-- **The loop** at position `pos`, with `room` left of the block; `none`
where the answers run out first. -/
def loop : List ρ → ℕ → ℤ → Option (Outcome ρ)
  | [], _, room => if room > 0 then none else some ⟨[], room, full, []⟩
  | a :: answers, pos, room =>
    if room > 0 then
      match react a with
      | .retry => (loop answers pos room).map (.after ⟨pos, room, a⟩)
      | .moved k => (loop answers (pos + k) (room - k)).map (.after ⟨pos, room, a⟩)
      | .stop result => some ⟨[⟨pos, room, a⟩], room, result, answers⟩
    else some ⟨[], room, full, a :: answers⟩

/-- **The runs of the loop.** -/
inductive Runs : ℕ → ℤ → Outcome ρ → Prop
  | full {pos room answers} (hroom : room ≤ 0) : Runs pos room ⟨[], room, full, answers⟩
  | stop {pos room a result answers} (hroom : 0 < room) (ha : react a = .stop result) :
    Runs pos room ⟨[⟨pos, room, a⟩], room, result, answers⟩
  | retry {pos room a o} (hroom : 0 < room) (ha : react a = .retry) (hrest : Runs pos room o) :
    Runs pos room (o.after ⟨pos, room, a⟩)
  | moved {pos room a k o} (hroom : 0 < room) (ha : react a = .moved k)
      (hrest : Runs (pos + k) (room - k) o) :
    Runs pos room (o.after ⟨pos, room, a⟩)

variable {react full} {answers : List ρ} {pos : ℕ} {room : ℤ} {o : Outcome ρ}

/-- What the loop comes to is a run of it. -/
theorem runs_of_loop (h : loop react full answers pos room = some o) :
    Runs react full pos room o := by
  induction answers generalizing pos room o with
  | nil =>
    rw [loop] at h
    split at h
    · cases h
    · injection h with h
      exact h ▸ .full (by omega)
  | cons a answers ih =>
    rw [loop] at h
    split at h
    · rename_i hroom
      rcases ha : react a with _ | k | result
      · rw [ha] at h
        obtain ⟨o', ho', rfl⟩ := Option.map_eq_some_iff.mp h
        exact .retry hroom ha (ih ho')
      · rw [ha] at h
        obtain ⟨o', ho', rfl⟩ := Option.map_eq_some_iff.mp h
        exact .moved hroom ha (ih ho')
      · rw [ha] at h
        injection h with h
        exact h ▸ .stop hroom ha
    · injection h with h
      exact h ▸ .full (by omega)

/-- Where an answer ends the loop, the answers do not run out. -/
theorem exists_loop (hstop : ∃ a ∈ answers, ∃ result, react a = .stop result) (pos : ℕ)
    (room : ℤ) : ∃ o, loop react full answers pos room = some o := by
  induction answers generalizing pos room with
  | nil =>
    obtain ⟨_, h, -⟩ := hstop
    cases h
  | cons a answers ih =>
    have hrest (hgo : ∀ result, react a ≠ .stop result) :
        ∃ b ∈ answers, ∃ result, react b = .stop result := by
      obtain ⟨b, hb, result, hr⟩ := hstop
      rcases List.mem_cons.mp hb with rfl | hb
      · exact absurd hr (hgo result)
      · exact ⟨b, hb, result, hr⟩
    rw [loop]
    split
    · rcases ha : react a with _ | k | result
      · obtain ⟨o, ho⟩ := ih (hrest (by simp [ha])) pos room
        exact ⟨o.after ⟨pos, room, a⟩, by simp only [ho, Option.map_some]⟩
      · obtain ⟨o, ho⟩ := ih (hrest (by simp [ha])) (pos + k) (room - k)
        exact ⟨o.after ⟨pos, room, a⟩, by simp only [ho, Option.map_some]⟩
      · exact ⟨_, rfl⟩
    · exact ⟨_, rfl⟩

/-! ## What was moved -/

variable (react) in
/-- The answer moves no more than the call asked for. -/
def Fits (c : Call ρ) : Prop := ((react c.answer).size : ℤ) ≤ c.room

instance (c : Call ρ) : Decidable (Fits react c) := inferInstanceAs (Decidable (_ ≤ _))

variable (react) in
/-- How much the calls moved. -/
def total (calls : List (Call ρ)) : ℕ := (calls.map fun c => (react c.answer).size).sum

variable (react) in
/-- What the calls took from a block that is read. -/
def taken (mem : ℕ → UInt8) (calls : List (Call ρ)) : List UInt8 :=
  calls.flatMap fun c => bytesAt mem c.pos (react c.answer).size

/-- What calls that bring the bytes `data` leave of a block that is written. -/
def stored (data : ρ → List UInt8) (mem : ℕ → UInt8) (calls : List (Call ρ)) : ℕ → UInt8 :=
  calls.foldl (fun mem c => writeAt mem c.pos (data c.answer)) mem

variable (react) in
/-- Each call goes on where the one before it stopped. -/
def Contiguous : ℕ → List (Call ρ) → Prop
  | _, [] => True
  | pos, c :: calls => c.pos = pos ∧ Contiguous (pos + (react c.answer).size) calls

variable {calls : List (Call ρ)} {data : ρ → List UInt8}

theorem total_cons (c : Call ρ) (calls : List (Call ρ)) :
    total react (c :: calls) = (react c.answer).size + total react calls := by
  rw [total, List.map_cons, List.sum_cons, total]

/-- **What is taken is the front of the block**, in order. -/
theorem Contiguous.taken_eq (h : Contiguous react pos calls) (mem : ℕ → UInt8) :
    taken react mem calls = bytesAt mem pos (total react calls) := by
  induction calls generalizing pos with
  | nil => rfl
  | cons c calls ih =>
    obtain ⟨hpos, hrest⟩ := h
    rw [total_cons, bytesAt_add, ← ih hrest, ← hpos]
    rfl

/-- **What is brought stands at the front of the block**, in order, and
nothing else is written. -/
theorem Contiguous.stored_eq (h : Contiguous react pos calls)
    (hdata : ∀ c ∈ calls, (data c.answer).length = (react c.answer).size) (mem : ℕ → UInt8) :
    stored data mem calls = writeAt mem pos (calls.flatMap fun c => data c.answer) := by
  induction calls generalizing pos mem with
  | nil => rw [List.flatMap_nil, writeAt_nil, stored, List.foldl_nil]
  | cons c calls ih =>
    obtain ⟨hpos, hrest⟩ := h
    obtain ⟨hc, hcs⟩ := List.forall_mem_cons.mp hdata
    have hstep : stored data mem (c :: calls) =
        stored data (writeAt mem pos (data c.answer)) calls := by
      rw [stored, List.foldl_cons, hpos, stored]
    rw [hstep, ih hrest hcs, ← hc, writeAt_writeAt, List.flatMap_cons]

/-- What is brought is as much as is moved. -/
theorem length_data (hdata : ∀ c ∈ calls, (data c.answer).length = (react c.answer).size) :
    (calls.flatMap fun c => data c.answer).length = total react calls := by
  rw [List.length_flatMap, total, List.map_congr_left hdata]

namespace Runs

/-- **What is left is what was not moved.** -/
theorem room_eq (h : Runs react full pos room o) : o.room = room - total react o.calls := by
  induction h with
  | full hroom => exact (sub_zero _).symm
  | stop hroom ha =>
    rw [total_cons, ha]
    exact (sub_zero _).symm
  | retry hroom ha hrest ih =>
    simp only [Outcome.after, total_cons, ha, Reaction.size]
    omega
  | moved hroom ha hrest ih =>
    simp only [Outcome.after, total_cons, ha, Reaction.size]
    omega

theorem contiguous (h : Runs react full pos room o) : Contiguous react pos o.calls := by
  induction h with
  | full hroom => trivial
  | stop hroom ha => exact ⟨rfl, trivial⟩
  | retry hroom ha hrest ih => exact ⟨rfl, by rw [ha]; exact ih⟩
  | moved hroom ha hrest ih => exact ⟨rfl, by rw [ha]; exact ih⟩

end Runs

/-! ## How a run ends -/

variable (react full) in
/-- **A run ends in one of two ways**: nothing is left and no call ended it,
or something is left and the last call ended it. -/
inductive Ends (o : Outcome ρ) : Prop
  | full (hroom : o.room = 0) (hresult : o.result = full)
      (hgo : ∀ c ∈ o.calls, ∀ result, react c.answer ≠ .stop result)
  | stop {a} (hroom : 0 < o.room) (ha : react a = .stop o.result) (hlast : o.StoppedBy a)

/-- A call that did not end the run does not change how it ended. -/
theorem Ends.after {c : Call ρ} (h : Ends react full o)
    (hgo : ∀ result, react c.answer ≠ .stop result) : Ends react full (o.after c) := by
  cases h with
  | full hroom hresult hcalls => exact .full hroom hresult (List.forall_mem_cons.mpr ⟨hgo, hcalls⟩)
  | stop hroom ha hlast =>
    obtain ⟨d, hd, hanswer⟩ := hlast
    refine .stop hroom ha ⟨d, ?_, hanswer⟩
    rw [Outcome.after, List.getLast?_cons, hd, Option.getD_some]

theorem Runs.ends (h : Runs react full pos room o) (hroom : 0 ≤ room)
    (hfits : ∀ c ∈ o.calls, Fits react c) : Ends react full o := by
  induction h with
  | full hempty => exact .full (le_antisymm hempty hroom) rfl (by simp)
  | stop hmore ha => exact .stop hmore ha ⟨_, rfl, rfl⟩
  | retry hmore ha hrest ih =>
    obtain ⟨-, hfits⟩ := List.forall_mem_cons.mp hfits
    exact (ih hroom hfits).after (by simp [ha])
  | moved hmore ha hrest ih =>
    obtain ⟨hfit, hfits⟩ := List.forall_mem_cons.mp hfits
    rw [Fits, ha] at hfit
    exact (ih (sub_nonneg.mpr hfit) hfits).after (by simp [ha])

/-- A run that was not ended by a call was not stopped by an answer that
ends it. -/
theorem Outcome.StoppedBy.mem {a : ρ} (h : o.StoppedBy a) : ∃ c ∈ o.calls, c.answer = a := by
  obtain ⟨c, hc, hanswer⟩ := h
  exact ⟨c, List.mem_of_getLast? hc, hanswer⟩

/-- Only one answer is the last. -/
theorem Outcome.StoppedBy.unique {a b : ρ} (h : o.StoppedBy a) (h' : o.StoppedBy b) : a = b := by
  obtain ⟨c, hc, rfl⟩ := h
  obtain ⟨d, hd, rfl⟩ := h'
  rw [Option.some.inj (hc.symm.trans hd)]

/-- **The result says whether everything was moved**, where no answer ends
the loop with the same. -/
theorem Ends.result_eq_full_iff (h : Ends react full o) (hfull : ∀ a, react a ≠ .stop full) :
    o.result = full ↔ o.room = 0 := by
  cases h with
  | full hroom hresult hgo => exact iff_of_true hresult hroom
  | stop hroom ha hlast => exact iff_of_false (fun h => hfull _ (h ▸ ha)) hroom.ne'

/-- **And otherwise which answer ended it**, where it is the only one with
that result. -/
theorem Ends.result_eq_iff {a : ρ} {result : ℤ} (h : Ends react full o)
    (ha : ∀ b, react b = .stop result ↔ b = a) (hne : full ≠ result) :
    o.result = result ↔ o.StoppedBy a := by
  have hstop : react a = .stop result := (ha a).mpr rfl
  cases h with
  | full hroom hresult hgo =>
    refine iff_of_false (fun h => hne (hresult.symm.trans h)) fun hlast => ?_
    obtain ⟨c, hc, rfl⟩ := hlast.mem
    exact hgo c hc result hstop
  | stop hroom hb hlast =>
    constructor
    · intro hresult
      obtain rfl := (ha _).mp (hresult ▸ hb)
      exact hlast
    · intro hlast'
      obtain rfl := hlast.unique hlast'
      rw [hstop] at hb
      injection hb with hb
      exact hb.symm

end Transfer

end EupuServer
