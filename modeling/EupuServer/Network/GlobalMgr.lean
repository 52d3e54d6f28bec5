import EupuServer.Network.CreateMsg
/-!
# The manager's server keys and its events

`CGlobalMgr` keeps one key for each kind of server this one connects to:
the descriptor and the time a message to that server is addressed with.
The four setters are one assignment at four fields. Beside them stand the
events the epoll thread is sent.
-/

namespace EupuServer

namespace Network

open Bytes Protocol

/-- A message that waits to be sent: the object, and the address it was
allocated at, which tells it from every other. -/
structure NetDataPtr where
  addr : ℕ
  obj : NetData
  deriving DecidableEq, Repr

/-- `NET_EVENT`, with the data its identifier stands for. -/
inductive NetEvent
  | closeClient (fd conntime : ℤ)
  | addClient (sock : SocketSet)
  deriving DecidableEq, Repr

/-- A server key. `attempt` and `indexed` are not in the source: they say
which connect the key was last set for, and whether the epoll thread set it,
which it does once it has given the connection an index. -/
structure ServerKey where
  data : NetData := {}
  attempt : ℕ := 0
  indexed : Bool := false
  deriving DecidableEq, Repr

/-- The keys of the manager. -/
structure ServerKeys where
  main : ServerKey := {}
  distribute : ServerKey := {}
  usercenter : ServerKey := {}
  log : ServerKey := {}
  deriving DecidableEq, Repr

/-- What the four setters assign. -/
def ServerKey.assign (k : ServerKey) (fd conntime : ℤ) (ip : String) (port : UInt16) (ntype : ℤ)
    (attempt : ℕ) (indexed : Bool) : ServerKey where
  data := { k.data with
    fddat := fd, connectTime := conntime, peerIp := ip, peerPort := port, type := ntype }
  attempt := attempt
  indexed := indexed

namespace ServerKeys

variable (ks : ServerKeys) (fd conntime : ℤ) (ip : String) (port : UInt16) (ntype : ℤ)
  (attempt : ℕ) (indexed : Bool)

def setMainSocket : ServerKeys :=
  { ks with main := ks.main.assign fd conntime ip port ntype attempt indexed }

def setDistributeSocket : ServerKeys :=
  { ks with distribute := ks.distribute.assign fd conntime ip port ntype attempt indexed }

def setUserCenterSocket : ServerKeys :=
  { ks with usercenter := ks.usercenter.assign fd conntime ip port ntype attempt indexed }

def setLogSocket : ServerKeys :=
  { ks with log := ks.log.assign fd conntime ip port ntype attempt indexed }

/-- `setServerSocket`: a type that names no server sets no key. -/
def setServerSocket : ServerKeys :=
  if ntype = mainsvrType then ks.setMainSocket fd conntime ip port ntype attempt indexed
  else if ntype = dissvrType then ks.setDistributeSocket fd conntime ip port ntype attempt indexed
  else if ntype = usercentersvrType then
    ks.setUserCenterSocket fd conntime ip port ntype attempt indexed
  else if ntype = logsvrType then ks.setLogSocket fd conntime ip port ntype attempt indexed
  else ks

/-- The key of a server type, as the switches of `sendMsgToServer` and
`createServerConnect` choose it. -/
def ofType (ntype : ℤ) : Option ServerKey :=
  if ntype = mainsvrType then some ks.main
  else if ntype = dissvrType then some ks.distribute
  else if ntype = usercentersvrType then some ks.usercenter
  else if ntype = logsvrType then some ks.log
  else none

end ServerKeys

/-- The types that name a server. -/
def IsServerType (ntype : ℤ) : Prop :=
  ntype = mainsvrType ∨ ntype = dissvrType ∨ ntype = usercentersvrType ∨ ntype = logsvrType

instance (ntype : ℤ) : Decidable (IsServerType ntype) :=
  inferInstanceAs (Decidable (_ ∨ _ ∨ _ ∨ _))

variable {ks : ServerKeys} {fd conntime : ℤ} {ip : String} {port : UInt16} {ntype ty : ℤ}
  {attempt : ℕ} {indexed : Bool}

theorem clientType_lt_of_isServerType (h : IsServerType ntype) : clientType < ntype := by
  rcases h with rfl | rfl | rfl | rfl <;> decide

/-- **A setter changes the key of its own type alone.** -/
theorem ofType_setServerSocket :
    (ks.setServerSocket fd conntime ip port ntype attempt indexed).ofType ty =
      if ty = ntype then
        (ks.ofType ty).map fun k => k.assign fd conntime ip port ntype attempt indexed
      else ks.ofType ty := by
  have hdis : dissvrType ≠ mainsvrType := by decide
  have huser : usercentersvrType ≠ mainsvrType ∧ usercentersvrType ≠ dissvrType := by decide
  have hlog : logsvrType ≠ mainsvrType ∧ logsvrType ≠ dissvrType ∧
      logsvrType ≠ usercentersvrType := by decide
  unfold ServerKeys.setServerSocket
  -- one case for each server, and one for the types that name none
  by_cases hm : ntype = mainsvrType
  · rw [if_pos hm, hm]
    unfold ServerKeys.setMainSocket ServerKeys.ofType
    by_cases hty : ty = mainsvrType
    · simp only [if_pos hty, Option.map_some]
    · simp only [if_neg hty]
  rw [if_neg hm]
  by_cases hd : ntype = dissvrType
  · rw [if_pos hd, hd]
    unfold ServerKeys.setDistributeSocket ServerKeys.ofType
    by_cases hty : ty = dissvrType
    · simp only [hty, if_neg hdis, if_true, Option.map_some]
    · simp only [if_neg hty]
  rw [if_neg hd]
  by_cases hu : ntype = usercentersvrType
  · rw [if_pos hu, hu]
    unfold ServerKeys.setUserCenterSocket ServerKeys.ofType
    by_cases hty : ty = usercentersvrType
    · simp only [hty, if_neg huser.1, if_neg huser.2, if_true, Option.map_some]
    · simp only [if_neg hty]
  rw [if_neg hu]
  by_cases hl : ntype = logsvrType
  · rw [if_pos hl, hl]
    unfold ServerKeys.setLogSocket ServerKeys.ofType
    by_cases hty : ty = logsvrType
    · simp only [hty, if_neg hlog.1, if_neg hlog.2.1, if_neg hlog.2.2, if_true, Option.map_some]
    · simp only [if_neg hty]
  rw [if_neg hl]
  by_cases hty : ty = ntype
  · simp only [hty, ServerKeys.ofType, if_neg hm, if_neg hd, if_neg hu, if_neg hl, if_true,
      Option.map_none]
  · rw [if_neg hty]

/-- **A key after a setter** is the one there was, or the one that was set. -/
theorem ofType_setServerSocket_cases {k : ServerKey}
    (h : (ks.setServerSocket fd conntime ip port ntype attempt indexed).ofType ty = some k) :
    ty ≠ ntype ∧ ks.ofType ty = some k ∨
      ty = ntype ∧ k.data.fddat = fd ∧ k.data.connectTime = conntime ∧ k.attempt = attempt ∧
        k.indexed = indexed := by
  rw [ofType_setServerSocket] at h
  split at h
  · obtain ⟨k₀, -, rfl⟩ := Option.map_eq_some_iff.mp h
    exact .inr ⟨‹_›, rfl, rfl, rfl, rfl⟩
  · exact .inl ⟨‹_›, h⟩

end Network

end EupuServer
