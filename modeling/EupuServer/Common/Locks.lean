import EupuServer.Common.Machine
import Mathlib.Data.List.Nodup
import Mathlib.Logic.Function.Basic
import Mathlib.Order.WellFounded
/-!
# Threads and locks

A program of one thread takes locks, gives them back, and accesses data that
all threads share. Threads that run such programs are a machine. Its locks
are not recursive: a thread that takes a lock it holds waits for itself.
Where the locks are ranked and every program takes them in ascending order,
no threads wait for each other (`Threads.no_deadlock`).
-/

namespace EupuServer

/-- **A program of one thread** over the locks `ℓ` and the shared data `σ`.
An access changes the data and goes on with what they were before. -/
inductive LockProg (ℓ σ : Type*) (α : Type)
  | ret (a : α)
  | take (l : ℓ) (k : LockProg ℓ σ α)
  | give (l : ℓ) (k : LockProg ℓ σ α)
  | access (f : σ → σ) (k : σ → LockProg ℓ σ α)

namespace LockProg

variable {ℓ σ : Type*} {α β : Type}

/-- One program after another. -/
def bind (p : LockProg ℓ σ α) (f : α → LockProg ℓ σ β) : LockProg ℓ σ β :=
  match p with
  | .ret a => f a
  | .take l k => .take l (k.bind f)
  | .give l k => .give l (k.bind f)
  | .access g k => .access g fun s => (k s).bind f

instance : Monad (LockProg ℓ σ) where
  pure := .ret
  bind := .bind

def lock (l : ℓ) : LockProg ℓ σ Unit := .take l (.ret ())

def unlock (l : ℓ) : LockProg ℓ σ Unit := .give l (.ret ())

/-- The data are changed. -/
def modify (f : σ → σ) : LockProg ℓ σ Unit := .access f fun _ => .ret ()

/-- Something is read of the data, and they are changed. -/
def modifyGet (f : σ → α × σ) : LockProg ℓ σ α := .access (fun s => (f s).2) fun s => .ret (f s).1

/-! ## A program that runs alone -/

/-- What a program returns and leaves where no other thread runs. -/
def run : LockProg ℓ σ α → σ → α × σ
  | .ret a, s => (a, s)
  | .take _ k, s => k.run s
  | .give _ k, s => k.run s
  | .access f k, s => (k s).run (f s)

@[simp] theorem run_pure (a : α) (s : σ) : (pure a : LockProg ℓ σ α).run s = (a, s) := rfl

@[simp] theorem run_lock (l : ℓ) (s : σ) : (lock l).run s = ((), s) := rfl

@[simp] theorem run_unlock (l : ℓ) (s : σ) : (unlock l).run s = ((), s) := rfl

@[simp] theorem run_modify (f : σ → σ) (s : σ) :
    (modify f : LockProg ℓ σ Unit).run s = ((), f s) := rfl

@[simp] theorem run_modifyGet (f : σ → α × σ) (s : σ) :
    (modifyGet f : LockProg ℓ σ α).run s = f s := rfl

@[simp] theorem run_bind (p : LockProg ℓ σ α) (f : α → LockProg ℓ σ β) (s : σ) :
    (p >>= f).run s = (f (p.run s).1).run (p.run s).2 := by
  show (p.bind f).run s = _
  induction p generalizing s with
  | ret a => rfl
  | take l k ih => exact ih s
  | give l k ih => exact ih s
  | access g k ih => exact ih s (g s)

/-- The same, where it is known what the first program returns. -/
theorem run_bind_of {p : LockProg ℓ σ α} {f : α → LockProg ℓ σ β} {s s' : σ} {a : α}
    (h : p.run s = (a, s')) : (p >>= f).run s = (f a).run s' := by
  rw [run_bind, h]

/-! ## The order of the locks -/

variable {ρ : Type*} [Preorder ρ] [DecidableEq ℓ] (rank : ℓ → ρ)

/-- **A program keeps the order**: with the locks `held` it takes each lock
above those it holds, gives back only what it holds, and ends with the locks
`after`, whatever the data are. -/
def Orderly : LockProg ℓ σ α → List ℓ → List ℓ → Prop
  | .ret _, held, after => held = after
  | .take l k, held, after => (∀ m ∈ held, rank m < rank l) ∧ k.Orderly (l :: held) after
  | .give l k, held, after => l ∈ held ∧ k.Orderly (held.erase l) after
  | .access _ k, held, after => ∀ s, (k s).Orderly held after

variable {rank} {held mid after : List ℓ} {l : ℓ}

namespace Orderly

theorem pure (a : α) (held : List ℓ) : (Pure.pure a : LockProg ℓ σ α).Orderly rank held held := rfl

/-- **The rule for one program after another.** -/
theorem bind {p : LockProg ℓ σ α} {f : α → LockProg ℓ σ β} (hp : p.Orderly rank held mid)
    (hf : ∀ a, (f a).Orderly rank mid after) : (p >>= f).Orderly rank held after := by
  show (p.bind f).Orderly rank held after
  induction p generalizing held with
  | ret a =>
    cases hp
    exact hf a
  | take l k ih => exact ⟨hp.1, ih hp.2⟩
  | give l k ih => exact ⟨hp.1, ih hp.2⟩
  | access g k ih => exact fun s => ih s (hp s)

theorem lock (hl : ∀ m ∈ held, rank m < rank l) :
    (LockProg.lock l : LockProg ℓ σ Unit).Orderly rank held (l :: held) := ⟨hl, rfl⟩

/-- The lock that was taken last is given back. -/
theorem unlock : (LockProg.unlock l : LockProg ℓ σ Unit).Orderly rank (l :: held) held :=
  ⟨List.mem_cons_self, List.erase_cons_head l held⟩

theorem modify (f : σ → σ) (held : List ℓ) :
    (LockProg.modify f : LockProg ℓ σ Unit).Orderly rank held held := fun _ => rfl

theorem modifyGet (f : σ → α × σ) (held : List ℓ) :
    (LockProg.modifyGet f : LockProg ℓ σ α).Orderly rank held held := fun _ => rfl

/-- A loop whose rounds give back what they take. -/
theorem forM {γ : Type*} {f : γ → LockProg ℓ σ Unit} (hf : ∀ c, (f c).Orderly rank held held)
    (cs : List γ) : (cs.forM f).Orderly rank held held := by
  induction cs with
  | nil => exact rfl
  | cons c cs ih => exact bind (hf c) fun _ => ih

end Orderly

end LockProg

/-! ## Threads -/

/-- **The state of the threads**: the shared data, who holds each lock, and
what is left of the program each thread runs. -/
structure Threads (ι ℓ σ : Type*) where
  data : σ
  owner : ℓ → Option ι
  running : ι → Option (LockProg ℓ σ Unit)

/-- What happens next: a thread that runs nothing starts an operation, or a
thread takes a step in the one it runs. -/
inductive ThreadAction (ι Op : Type*)
  | start (i : ι) (op : Op)
  | step (i : ι)

namespace Threads

variable {ι ℓ σ Op : Type*} [DecidableEq ι]

/-- The thread `i` goes on with `p`. -/
def goes (t : Threads ι ℓ σ) (i : ι) (p : Option (LockProg ℓ σ Unit)) : Threads ι ℓ σ :=
  { t with running := Function.update t.running i p }

@[simp] theorem goes_running (t : Threads ι ℓ σ) (i j : ι) (p : Option (LockProg ℓ σ Unit)) :
    (t.goes i p).running j = if j = i then p else t.running j := Function.update_apply _ _ _ _

variable [DecidableEq ℓ]

/-- **A step.** Who takes a lock that is held waits, also where it holds it
itself. -/
def next (body : Op → LockProg ℓ σ Unit) (t : Threads ι ℓ σ) :
    ThreadAction ι Op → Option (Threads ι ℓ σ)
  | .start i op =>
    match t.running i with
    | none => some (t.goes i (some (body op)))
    | some _ => none
  | .step i =>
    match t.running i with
    | none => none
    | some (.ret _) => some (t.goes i none)
    | some (.take l k) =>
      match t.owner l with
      | none => some ({ t with owner := Function.update t.owner l (some i) }.goes i (some k))
      | some _ => none
    | some (.give l k) =>
      some ({ t with owner := Function.update t.owner l none }.goes i (some k))
    | some (.access f k) => some ({ t with data := f t.data }.goes i (some (k t.data)))

/-- The machine of threads that each run any operations one after the other,
from the data `s`. -/
def machine (ι : Type*) [DecidableEq ι] (body : Op → LockProg ℓ σ Unit) (s : σ) :
    Machine (Threads ι ℓ σ) (ThreadAction ι Op) where
  init := ⟨s, fun _ => none, fun _ => none⟩
  next := next body

/-- The thread `i` waits for the lock `l`. -/
def Waits (t : Threads ι ℓ σ) (i : ι) (l : ℓ) : Prop :=
  ∃ k, t.running i = some (.take l k) ∧ t.owner l ≠ none

/-- **A deadlock**: each thread of the set waits for a lock that a thread of
the set holds. -/
def Deadlocked (t : Threads ι ℓ σ) (S : Set ι) : Prop :=
  S.Nonempty ∧ ∀ i ∈ S, ∃ l, t.Waits i l ∧ ∃ j ∈ S, t.owner l = some j

variable {ρ : Type*} [Preorder ρ] (rank : ℓ → ρ)

/-- **What every thread keeps**: it holds the locks `held`, and the rest of
its program is in order. -/
structure InOrder (t : Threads ι ℓ σ) (held : ι → List ℓ) : Prop where
  nodup : ∀ i, (held i).Nodup
  owner : ∀ i l, t.owner l = some i ↔ l ∈ held i
  idle : ∀ i, t.running i = none → held i = []
  prog : ∀ i p, t.running i = some p → p.Orderly rank (held i) []

variable {rank} {body : Op → LockProg ℓ σ Unit} {s : σ} {t t' : Threads ι ℓ σ}
  {held : ι → List ℓ} {a : ThreadAction ι Op}

namespace InOrder

/-- The thread `i` goes on, with the locks `ls`; the others hold what they
held. -/
theorem goes (h : InOrder rank t held) {i : ι} {ls : List ℓ} {p : Option (LockProg ℓ σ Unit)}
    {owner : ℓ → Option ι} {data : σ} (hnodup : ls.Nodup)
    (howner : ∀ l, owner l = some i ↔ l ∈ ls)
    (hother : ∀ l j, j ≠ i → (owner l = some j ↔ t.owner l = some j))
    (hidle : p = none → ls = []) (hprog : ∀ q, p = some q → q.Orderly rank ls []) :
    InOrder rank ({ t with data := data, owner := owner }.goes i p)
      (Function.update held i ls) where
  nodup := fun j => by
    rw [Function.update_apply]
    split
    · exact hnodup
    · exact h.nodup j
  owner := fun j l => by
    rw [Function.update_apply]
    split
    · rename_i hj
      exact hj ▸ howner l
    · rename_i hj
      exact (hother l j hj).trans (h.owner j l)
  idle := fun j hj => by
    rw [goes_running] at hj
    rw [Function.update_apply]
    split
    · rename_i heq
      rw [if_pos heq] at hj
      exact hidle hj
    · rename_i hne
      rw [if_neg hne] at hj
      exact h.idle j hj
  prog := fun j q hq => by
    rw [goes_running] at hq
    rw [Function.update_apply]
    split
    · rename_i heq
      rw [if_pos heq] at hq
      exact hprog q hq
    · rename_i hne
      rw [if_neg hne] at hq
      exact h.prog j q hq

/-- **A step keeps the threads in order.** -/
theorem step (h : InOrder rank t held) (hbody : ∀ op, (body op).Orderly rank [] [])
    (hnext : next body t a = some t') : ∃ held', InOrder rank t' held' := by
  cases a with
  | start i op =>
    simp only [next] at hnext
    split at hnext
    · rename_i hidle
      injection hnext with hnext
      subst hnext
      refine ⟨_, h.goes List.nodup_nil (fun l => ?_) (fun _ _ _ => Iff.rfl) (fun _ => rfl) ?_⟩
      · rw [h.owner, h.idle i hidle]
      · rintro q ⟨⟩
        exact hbody op
    · cases hnext
  | step i =>
    simp only [next] at hnext
    split at hnext
    · cases hnext
    · -- the operation returns
      rename_i a hrun
      injection hnext with hnext
      subst hnext
      have hnil : held i = [] := h.prog i _ hrun
      refine ⟨_, h.goes List.nodup_nil (fun l => ?_) (fun _ _ _ => Iff.rfl) (fun _ => rfl) ?_⟩
      · rw [h.owner, hnil]
      · rintro q ⟨⟩
    · rename_i l k hrun
      split at hnext
      · rename_i hfree
        injection hnext with hnext
        subst hnext
        obtain ⟨-, hk⟩ := h.prog i _ hrun
        have hnew : l ∉ held i := by
          rw [← h.owner, hfree]
          rintro ⟨⟩
        refine ⟨_, h.goes (List.nodup_cons.mpr ⟨hnew, h.nodup i⟩) (fun m => ?_) (fun m j hj => ?_)
          ?_ ?_⟩
        · rw [Function.update_apply, List.mem_cons, ← h.owner]
          split <;> simp_all
        · rw [Function.update_apply]
          split
          · rename_i hm
            rw [hm, hfree, Option.some.injEq]
            exact ⟨fun heq => absurd heq.symm hj, fun heq => by cases heq⟩
          · exact Iff.rfl
        · rintro ⟨⟩
        · rintro q ⟨⟩
          exact hk
      · cases hnext
    · rename_i l k hrun
      injection hnext with hnext
      subst hnext
      obtain ⟨hmem, hk⟩ := h.prog i _ hrun
      have hown : t.owner l = some i := (h.owner i l).mpr hmem
      refine ⟨_, h.goes ((h.nodup i).erase l) (fun m => ?_) (fun m j hj => ?_) ?_ ?_⟩
      · rw [Function.update_apply, (h.nodup i).mem_erase_iff, ← h.owner]
        split <;> simp_all
      · rw [Function.update_apply]
        split
        · rename_i hm
          rw [hm, hown, Option.some.injEq]
          exact ⟨fun heq => (by cases heq), fun heq => absurd heq.symm hj⟩
        · exact Iff.rfl
      · rintro ⟨⟩
      · rintro q ⟨⟩
        exact hk
    · rename_i f k hrun
      injection hnext with hnext
      subst hnext
      refine ⟨_, h.goes (h.nodup i) (h.owner i) (fun _ _ _ => Iff.rfl) ?_ ?_⟩
      · rintro ⟨⟩
      · rintro q ⟨⟩
        exact h.prog i _ hrun t.data

end InOrder

/-- **In every run** of operations that keep the order and end without a
lock, every thread keeps it. -/
theorem inOrder_of_reachable (hbody : ∀ op, (body op).Orderly rank [] [])
    (ht : (machine ι body s).Reachable t) : ∃ held, InOrder rank t held := by
  refine ht.invariant (I := fun t => ∃ held, InOrder rank t held) ?_ ?_
  · exact ⟨fun _ => [], fun _ => List.nodup_nil, fun i l => by simp [machine], fun _ _ => rfl,
      fun i p hp => by cases hp⟩
  · rintro t a t' - - hnext ⟨held, h⟩
    exact h.step hbody hnext

/-- **A thread gives back only locks it holds.** -/
theorem owner_of_give (hbody : ∀ op, (body op).Orderly rank [] [])
    (ht : (machine ι body s).Reachable t) {i : ι} {l : ℓ} {k : LockProg ℓ σ Unit}
    (hrun : t.running i = some (.give l k)) : t.owner l = some i := by
  obtain ⟨held, h⟩ := inOrder_of_reachable hbody ht
  exact (h.owner i l).mpr (h.prog i _ hrun).1

/-- **A thread holds no lock** when its operation returns, and before it
starts the next. -/
theorem owner_of_ret (hbody : ∀ op, (body op).Orderly rank [] [])
    (ht : (machine ι body s).Reachable t) {i : ι}
    (hrun : t.running i = none ∨ t.running i = some (.ret ())) (l : ℓ) : t.owner l ≠ some i := by
  obtain ⟨held, h⟩ := inOrder_of_reachable hbody ht
  have hnil : held i = [] := by
    rcases hrun with hrun | hrun
    · exact h.idle i hrun
    · exact h.prog i _ hrun
  rw [ne_eq, h.owner, hnil]
  exact List.not_mem_nil

/-- **No threads wait for each other.** Of the locks a deadlocked set waits
for take one of the highest rank: its holder waits for one above it. -/
theorem no_deadlock [WellFoundedGT ρ] (hbody : ∀ op, (body op).Orderly rank [] [])
    (ht : (machine ι body s).Reachable t) (S : Set ι) : ¬ t.Deadlocked S := by
  obtain ⟨held, h⟩ := inOrder_of_reachable hbody ht
  rintro ⟨⟨i, hi⟩, hwait⟩
  -- the ranks of the locks that are waited for
  let awaited : Set ρ := {r | ∃ j ∈ S, ∃ l, t.Waits j l ∧ rank l = r}
  have hne : awaited.Nonempty := by
    obtain ⟨l, hl, -⟩ := hwait i hi
    exact ⟨rank l, i, hi, l, hl, rfl⟩
  obtain ⟨r, ⟨j, hj, l, hl, rfl⟩, hmax⟩ := wellFounded_gt.has_min awaited hne
  obtain ⟨l', ⟨k', hrun', -⟩, j', hj', hown⟩ := hwait j hj
  have hsame : l' = l := by
    obtain ⟨k, hrun, -⟩ := hl
    rw [hrun', Option.some.injEq] at hrun
    exact (LockProg.take.inj hrun).1
  subst hsame
  obtain ⟨m, ⟨k, hrun, hheld⟩, -⟩ := hwait j' hj'
  have hlt : rank l' < rank m := (h.prog j' _ hrun).1 l' ((h.owner j' l').mp hown)
  exact hmax (rank m) ⟨j', hj', m, ⟨k, hrun, hheld⟩, rfl⟩ hlt

end Threads

end EupuServer
