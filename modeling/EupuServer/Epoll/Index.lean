import Mathlib.Data.Set.Function
import Mathlib.Order.Interval.Set.Defs
import EupuServer.Epoll.Wf
/-!
# Indices over long runs

What `getIndex` returns call after call. It counts from `1` on and starts
over before the 32-bit truncation of the counter is all ones, so the index of
a call is the number of the call in a cycle of `2 ^ 32 - 2` (`indexOf_succ`),
and no index comes twice within so many calls. A step of the server gives at
most one index (`Step.indices`), so every connection has the index of its
call (`Cycled`), and connections given theirs within one cycle are told apart
by their descriptor and their index.
-/

namespace EupuServer

namespace Epoll

open Network

/-! ## The sequence of indices -/

/-- `getIndex`, as it changes `m_index`. -/
def nextIndex (index : ℤ) : ℤ :=
  let i := index + 1
  if Bytes.uint32 i = 0xFFFFFFFF then 1 else i

/-- What the `k`-th call of `getIndex` returns, where `m_index` is `0` before
the first. -/
def indexOf (k : ℕ) : ℤ := nextIndex^[k] 0

/-- After how many calls the indices start over. -/
def indexCycle : ℕ := 2 ^ 32 - 2

theorem nextIndex_indexOf (k : ℕ) : nextIndex (indexOf k) = indexOf (k + 1) :=
  (Function.iterate_succ_apply' nextIndex k 0).symm

/-- Inside the cycle it counts, and at the end of it it starts over. -/
theorem nextIndex_of_lt {i : ℕ} (hi : i < indexCycle) :
    nextIndex (i + 1) = if i + 1 = indexCycle then 1 else (i : ℤ) + 2 := by
  unfold indexCycle at hi ⊢
  have hu : Bytes.uint32 ((i : ℤ) + 1 + 1) = i + 2 :=
    Bytes.uint32_of_lt (n := i + 2) (by omega)
  simp only [nextIndex, hu]
  split <;> split <;> omega

/-- **The index of a call is its number in the cycle.** -/
theorem indexOf_succ (k : ℕ) : indexOf (k + 1) = (k % indexCycle : ℕ) + 1 := by
  induction k with
  | zero => rfl
  | succ k ih =>
    have hpos : 0 < indexCycle := by decide
    have hlt : k % indexCycle < indexCycle := Nat.mod_lt k hpos
    rw [← nextIndex_indexOf, ih, nextIndex_of_lt hlt]
    unfold indexCycle at hlt ⊢
    split <;> omega

/-- An index is never zero, nor the value that is skipped. -/
theorem indexOf_mem {k : ℕ} (hk : 1 ≤ k) : 1 ≤ indexOf k ∧ indexOf k ≤ 2 ^ 32 - 2 := by
  obtain ⟨k, rfl⟩ := Nat.exists_eq_add_of_le' hk
  rw [indexOf_succ]
  unfold indexCycle
  omega

/-- Calls that are less than a cycle apart return different indices. -/
theorem indexOf_inj {j k : ℕ} (hj : 1 ≤ j) (hk : 1 ≤ k) (hjk : j < k + indexCycle)
    (hkj : k < j + indexCycle) (heq : indexOf j = indexOf k) : j = k := by
  obtain ⟨j, rfl⟩ := Nat.exists_eq_add_of_le' hj
  obtain ⟨k, rfl⟩ := Nat.exists_eq_add_of_le' hk
  rw [indexOf_succ, indexOf_succ] at heq
  unfold indexCycle at *
  omega

/-- **Within a cycle no index comes twice.** -/
theorem indexOf_injOn {first : ℕ} (hfirst : 1 ≤ first) :
    Set.InjOn indexOf (Set.Ico first (first + indexCycle)) := by
  intro j hj k hk
  obtain ⟨hj, hj'⟩ := hj
  obtain ⟨hk, hk'⟩ := hk
  exact indexOf_inj (hfirst.trans hj) (hfirst.trans hk) (by omega) (by omega)

variable {cfg : Config} {s s' : Sys} {a : Action}

/-! ## The indices of a run -/

/-- **Every connection has the index of its call**, and the next call goes on
from there. -/
structure Cycled (s : Sys) : Prop where
  next : s.index = indexOf s.calls
  given : ∀ id fd t l, .index id fd t l ∈ s.hist → t = indexOf id

namespace Cycled

theorem same (h : Cycled s) (hsame : SameIndices s s') : Cycled s' where
  next := by rw [hsame.next, hsame.calls, h.next]
  given id fd t l hi := h.given id fd t l ((hsame.hist id fd t l).mp hi)

theorem getIndex (h : Cycled s) (fd : ℤ) (l : ℕ) : Cycled (getIndex s fd l) := by
  have hnext : (Epoll.getIndex s fd l).index = indexOf (s.calls + 1) := by
    rw [← nextIndex_indexOf, ← h.next]
    rfl
  refine ⟨hnext, ?_⟩
  intro id k t l' hi
  rcases List.mem_append.mp hi with hi | hi
  · exact h.given id k t l' hi
  · obtain ⟨rfl, -, rfl, -⟩ := Record.index.inj (List.mem_singleton.mp hi)
    exact hnext

/-- A step keeps it. -/
theorem step (h : Cycled s) (hstep : Step cfg s a s') : Cycled s' := by
  cases hstep.indices with
  | none hsame => exact h.same hsame
  | one s₁ fd l hsame hsame' => exact ((h.same hsame).getIndex fd l).same hsame'

/-- In every state reached the indices are those of the calls. -/
theorem reachable {now : ℤ} (h : (server cfg now).Reachable s) : Cycled s :=
  h.invariant ⟨rfl, fun _ _ _ _ h => by cases h⟩
    fun _ _ _ _ _ hnext hs => hs.step (step_of_next hnext)

end Cycled

/-- Connection `id` was created on `fd` with the index `t`. -/
def Created (s : Sys) (id : ℕ) (fd t : ℤ) : Prop := ∃ l, .index id fd t l ∈ s.hist

/-- A connection in the socket map was created with what its key says. -/
theorem Wf.created (h : Wf s) {fd : ℤ} {sock : SocketSet}
    (hsock : s.socketmap.lookup fd = some (some sock)) :
    Created s sock.key.id fd sock.key.connectTime := by
  obtain ⟨rfl, -, hindexed⟩ := h.conn hsock
  exact ⟨_, hindexed⟩

/-- **The descriptor and the index identify a connection** among those whose
indices come from one cycle of calls. -/
theorem Cycled.eq_of_created (h : Cycled s) (hwf : Wf s) {id id' : ℕ} {fd t : ℤ}
    (hid : Created s id fd t) (hid' : Created s id' fd t) (hlt : id < id' + indexCycle)
    (hlt' : id' < id + indexCycle) : id = id' := by
  obtain ⟨l, hl⟩ := hid
  obtain ⟨l', hl'⟩ := hid'
  have heq : indexOf id = indexOf id' := (h.given _ _ _ _ hl).symm.trans (h.given _ _ _ _ hl')
  exact indexOf_inj (hwf.called _ _ _ _ hl).1.le (hwf.called _ _ _ _ hl').1.le hlt hlt' heq

/-- **Indices are distinct over long runs.** An index lies between `1` and
`2 ^ 32 - 2`; any `2 ^ 32 - 2` calls in a row return different ones; and in
every state reached, of the connections that were created by so many calls in
a row no two have one descriptor and one index. -/
theorem indices_distinct (cfg : Config) (now : ℤ) :
    (∀ k, 1 ≤ k → 1 ≤ indexOf k ∧ indexOf k ≤ 2 ^ 32 - 2) ∧
    (∀ first, 1 ≤ first → Set.InjOn indexOf (Set.Ico first (first + (2 ^ 32 - 2)))) ∧
    ∀ s, (server cfg now).Reachable s →
      (∀ fd sock, s.socketmap.lookup fd = some (some sock) →
        Created s sock.key.id fd sock.key.connectTime) ∧
      (∀ id fd t, Created s id fd t → t = indexOf id) ∧
      ∀ first id id' fd t, Created s id fd t → Created s id' fd t →
        id ∈ Set.Ico first (first + (2 ^ 32 - 2)) → id' ∈ Set.Ico first (first + (2 ^ 32 - 2)) →
          id = id' := by
  refine ⟨fun k hk => indexOf_mem hk, fun first hfirst => indexOf_injOn hfirst, ?_⟩
  intro s hs
  have hwf := Wf.reachable hs
  have hcycled := Cycled.reachable hs
  refine ⟨fun fd sock hsock => hwf.created hsock,
    fun id fd t ⟨l, hl⟩ => hcycled.given _ _ _ _ hl, ?_⟩
  rintro first id id' fd t hid hid' ⟨hlow, hhigh⟩ ⟨hlow', hhigh'⟩
  exact hcycled.eq_of_created hwf hid hid' (by unfold indexCycle; omega)
    (by unfold indexCycle; omega)

end Epoll

end EupuServer
