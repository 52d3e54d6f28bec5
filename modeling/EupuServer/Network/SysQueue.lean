import EupuServer.Common.Bytes
/-!
# The bounded queue

`SysQueue` is a list behind a lock with a bound on its length. An element
is put at one end or taken from one end; `bhead` says which. The operations
that lock are the ones that do not, between a `Lock` and an `UnLock`.
-/

namespace EupuServer

namespace Network

open Bytes

variable {α : Type*}

/-- `SysQueue`. -/
structure SysQueue (α : Type*) where
  datalst : List α
  maxSize : ℤ

namespace SysQueue

variable (q : SysQueue α)

/-- `SysQueue()`. -/
def new : SysQueue α := ⟨[], 15000⟩

def setQueueSize (nsize : ℤ) : SysQueue α := { q with maxSize := nsize }

/-- `inQueueWithoutLock`, which `inQueue` does under the lock. The argument
may be a null pointer. -/
def inQueueWithoutLock (arg : Option α) (bhead : Bool) : Bool × SysQueue α :=
  match arg with
  | none => (false, q)
  | some x =>
    if q.datalst.length ≥ uint32 q.maxSize then (false, q)
    else if bhead then (true, { q with datalst := x :: q.datalst })
    else (true, { q with datalst := q.datalst ++ [x] })

/-- `outQueueWithoutLock`, which `outQueue` does under the lock: the element
taken, where there is one. -/
def outQueueWithoutLock (bhead : Bool) : Option α × SysQueue α :=
  if bhead then (q.datalst.head?, { q with datalst := q.datalst.tail })
  else (q.datalst.getLast?, { q with datalst := q.datalst.dropLast })

variable {q}

/-- **What is put in is there**, and where it is refused nothing changes. -/
theorem inQueueWithoutLock_tail (x : α) :
    q.inQueueWithoutLock (some x) false =
      if q.datalst.length ≥ uint32 q.maxSize then (false, q)
      else (true, { q with datalst := q.datalst ++ [x] }) := rfl

end SysQueue

end Network

end EupuServer
