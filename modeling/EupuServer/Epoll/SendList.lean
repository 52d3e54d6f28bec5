import EupuServer.Epoll.Effect
/-!
# The list of messages of one connection

A list under a descriptor may hold messages for several connections that
had the descriptor one after the other. What counts for the connection
`(fd, t)` are the bytes addressed to it (`pendingBytes`), what the history
says was accepted for it (`acceptedBytes`) and what was written to it
(`writtenBytes`). The loop of `doSendMessage` moves bytes from the first to
the last, in order (`sendLoop_bytes`).
-/

namespace EupuServer

namespace Epoll

open Network Protocol

/-- A message addressed to `(fd, t)`. -/
def Addressed (fd t : ℤ) (p : NetDataPtr) : Prop := p.obj.fddat = fd ∧ p.obj.connectTime = t

instance (fd t : ℤ) (p : NetDataPtr) : Decidable (Addressed fd t p) :=
  inferInstanceAs (Decidable (_ ∧ _))

variable (fd t : ℤ)

/-- The bytes of a message that are for `(fd, t)`: all of them or none. -/
def bytesFor (p : NetDataPtr) : List UInt8 := if Addressed fd t p then p.obj.bytes else []

/-- The bytes for `(fd, t)` that wait in a list. -/
def pendingBytes (ps : List NetDataPtr) : List UInt8 := ps.flatMap (bytesFor fd t)

/-- The bytes for `(fd, t)` that were accepted. -/
def acceptedBytes (hist : List Record) : List UInt8 :=
  hist.flatMap fun r =>
    match r with
    | .accepted p => bytesFor fd t p
    | _ => []

/-- The bytes that were written to the connection `(fd, t)`. -/
def writtenBytes (hist : List Record) : List UInt8 :=
  hist.flatMap fun r =>
    match r with
    | .sent via _ bs => if via.fdkey = fd ∧ via.connectTime = t then bs else []
    | _ => []

variable {fd t} {key : SocketKey} {sends : List SendResult} {lst : List NetDataPtr} {r : Record}

@[simp] theorem pendingBytes_append (ps qs : List NetDataPtr) :
    pendingBytes fd t (ps ++ qs) = pendingBytes fd t ps ++ pendingBytes fd t qs :=
  List.flatMap_append

@[simp] theorem pendingBytes_cons (p : NetDataPtr) (ps : List NetDataPtr) :
    pendingBytes fd t (p :: ps) = bytesFor fd t p ++ pendingBytes fd t ps := rfl

@[simp] theorem acceptedBytes_append (h h' : List Record) :
    acceptedBytes fd t (h ++ h') = acceptedBytes fd t h ++ acceptedBytes fd t h' :=
  List.flatMap_append

@[simp] theorem writtenBytes_append (h h' : List Record) :
    writtenBytes fd t (h ++ h') = writtenBytes fd t h ++ writtenBytes fd t h' :=
  List.flatMap_append

theorem acceptedBytes_eq_nil {recs : List Record} (h : ∀ p, .accepted p ∉ recs) :
    acceptedBytes fd t recs = [] := by
  refine List.flatMap_eq_nil_iff.mpr ?_
  rintro (_ | _ | p | _ | _ | _ | _) hr
  · rfl
  · rfl
  · exact absurd hr (h p)
  · rfl
  · rfl
  · rfl
  · rfl

theorem writtenBytes_eq_nil {recs : List Record}
    (h : ∀ via p bs, .sent via p bs ∈ recs → ¬ (via.fdkey = fd ∧ via.connectTime = t)) :
    writtenBytes fd t recs = [] := by
  refine List.flatMap_eq_nil_iff.mpr ?_
  rintro (_ | _ | _ | _ | ⟨via, p, bs⟩ | _ | _) hr
  · rfl
  · rfl
  · rfl
  · rfl
  · exact if_neg (h via p bs hr)
  · rfl
  · rfl

/-- **What the loop records**: it sends messages that match the connection
over it, and deletes messages of the list, as a mismatch only those that do
not match. -/
theorem sendLoop_recs (h : r ∈ (sendLoop key sends lst).recs) :
    (∃ p bs, r = .sent key p bs ∧ Addressed key.fdkey key.connectTime p) ∨
      ∃ p ∈ lst, (r = .deleted .sent p ∧ Addressed key.fdkey key.connectTime p) ∨
        r = .deleted .mismatch p ∧ ¬ Addressed key.fdkey key.connectTime p := by
  induction lst generalizing sends with
  | nil => simp [sendLoop] at h
  | cons p ps ih =>
    have hrest : ∀ {sends}, r ∈ (sendLoop key sends ps).recs →
        (∃ p bs, r = .sent key p bs ∧ Addressed key.fdkey key.connectTime p) ∨
          ∃ q ∈ p :: ps, (r = .deleted .sent q ∧ Addressed key.fdkey key.connectTime q) ∨
            r = .deleted .mismatch q ∧ ¬ Addressed key.fdkey key.connectTime q := by
      intro sends h
      rcases ih h with hsent | ⟨q, hq, hdel⟩
      · exact .inl hsent
      · exact .inr ⟨q, List.mem_cons_of_mem _ hq, hdel⟩
    rw [sendLoop] at h
    by_cases hmatch : key.fdkey = p.obj.fddat ∧ key.connectTime = p.obj.connectTime
    · have haddr : Addressed key.fdkey key.connectTime p := ⟨hmatch.1.symm, hmatch.2.symm⟩
      have hsent : r = .sent key p (sendMsg sends p.obj.bytes).sent →
          (∃ p bs, r = .sent key p bs ∧ Addressed key.fdkey key.connectTime p) ∨
            ∃ q ∈ p :: ps, (r = .deleted .sent q ∧ Addressed key.fdkey key.connectTime q) ∨
              r = .deleted .mismatch q ∧ ¬ Addressed key.fdkey key.connectTime q :=
        fun h => .inl ⟨p, _, h, haddr⟩
      rw [if_neg (not_not.mpr hmatch)] at h
      simp only at h
      split at h
      · exact hsent (List.mem_singleton.mp h)
      · split at h
        · split at h
          · exact hsent (List.mem_singleton.mp h)
          · rcases List.mem_cons.mp h with h | h
            · exact hsent h
            · exact .inr ⟨p, List.mem_cons_self, .inl ⟨List.mem_singleton.mp h, haddr⟩⟩
        · rcases List.mem_cons.mp h with h | h
          · exact hsent h
          · rcases List.mem_cons.mp h with h | h
            · exact .inr ⟨p, List.mem_cons_self, .inl ⟨h, haddr⟩⟩
            · exact hrest h
    · rw [if_pos hmatch] at h
      rcases List.mem_cons.mp h with h | h
      · refine .inr ⟨p, List.mem_cons_self, .inr ⟨h, ?_⟩⟩
        rintro ⟨h₁, h₂⟩
        exact hmatch ⟨h₁.symm, h₂.symm⟩
      · exact hrest h

/-- What is left of a message sent in part. -/
theorem bytes_drop (d : NetData) (k : ℕ) :
    NetData.bytes { d with pdata := d.pdata.drop k, dataLen := d.dataLen - k } =
      d.bytes.drop k := by
  simp only [NetData.bytes]
  rw [List.drop_take]

/-- **The loop writes the bytes for its connection in order**: what it wrote
and what is left are what there was, and where a `send` fails what it wrote
is a prefix of that. -/
theorem sendLoop_bytes (sends : List SendResult) (lst : List NetDataPtr) (hfd : key.fdkey = fd)
    (ht : key.connectTime = t) :
    ∃ rest, writtenBytes fd t (sendLoop key sends lst).recs ++ rest = pendingBytes fd t lst ∧
      ((sendLoop key sends lst).failed = false →
        rest = pendingBytes fd t (sendLoop key sends lst).left) := by
  induction lst generalizing sends with
  | nil => exact ⟨[], rfl, fun _ => rfl⟩
  | cons p ps ih =>
    rw [sendLoop]
    by_cases hmatch : key.fdkey = p.obj.fddat ∧ key.connectTime = p.obj.connectTime
    · have haddr : Addressed fd t p := ⟨by rw [← hfd, hmatch.1], by rw [← ht, hmatch.2]⟩
      have hp : bytesFor fd t p = p.obj.bytes := if_pos haddr
      obtain ⟨⟨tail, htail⟩, hret⟩ := sendMsg_spec sends p.obj.bytes
      rw [if_neg (not_not.mpr hmatch), pendingBytes_cons, hp]
      simp only
      rcases hret with ⟨h1, hall⟩ | ⟨h0, hlt⟩ | ⟨he, hlt⟩
      · -- all of the message is sent, and the loop goes on
        obtain ⟨rest, hrest, hleft⟩ := ih (sendMsg sends p.obj.bytes).rest
        rw [if_neg (by omega), if_neg (by omega), hall]
        refine ⟨rest, ?_, hleft⟩
        simp only [writtenBytes, List.flatMap_cons, hfd, ht, and_self, if_true] at hrest ⊢
        rw [List.nil_append, List.append_assoc, hrest]
      · -- a part of it is sent: the rest stays in front
        have hlen : (sendMsg sends p.obj.bytes).sent.length < p.obj.dataLen := by
          have : p.obj.bytes.length ≤ p.obj.dataLen := List.length_take_le _ _
          omega
        rw [if_neg (by omega), if_pos h0, if_pos (by omega)]
        have hdrop : tail = p.obj.bytes.drop (sendMsg sends p.obj.bytes).sent.length := by
          have := congrArg (List.drop (sendMsg sends p.obj.bytes).sent.length) htail
          rwa [List.drop_left] at this
        refine ⟨tail ++ pendingBytes fd t ps, ?_, fun _ => ?_⟩
        · simp only [writtenBytes, List.flatMap_cons, List.flatMap_nil, hfd, ht, and_self, if_true]
          rw [List.append_nil, ← List.append_assoc, htail]
        · rw [pendingBytes_cons, hdrop, ← bytes_drop]
          exact congrArg (· ++ pendingBytes fd t ps) (if_pos haddr).symm
      · rw [if_pos (by omega)]
        refine ⟨tail ++ pendingBytes fd t ps, ?_, by simp⟩
        simp only [writtenBytes, List.flatMap_cons, List.flatMap_nil, hfd, ht, and_self, if_true]
        rw [List.append_nil, ← List.append_assoc, htail]
    · have haddr : ¬ Addressed fd t p := by
        rintro ⟨h₁, h₂⟩
        exact hmatch ⟨by rw [hfd, h₁], by rw [ht, h₂]⟩
      obtain ⟨rest, hrest, hleft⟩ := ih sends
      rw [if_pos hmatch, pendingBytes_cons, bytesFor, if_neg haddr]
      exact ⟨rest, hrest, hleft⟩

theorem bytesFor_drop (p : NetDataPtr) (k : ℕ) :
    bytesFor fd t { p with
      obj := { p.obj with pdata := p.obj.pdata.drop k, dataLen := p.obj.dataLen - k } } =
      (bytesFor fd t p).drop k := by
  by_cases h : Addressed fd t p
  · rw [bytesFor, bytesFor, if_pos h, ← bytes_drop]
    exact if_pos h
  · rw [bytesFor, bytesFor, if_neg h, List.drop_nil]
    exact if_neg h

/-- The loop leaves no bytes in the list that were not in it. -/
theorem sendLoop_left :
    pendingBytes fd t (sendLoop key sends lst).left <:+ pendingBytes fd t lst := by
  induction lst generalizing sends with
  | nil => exact List.suffix_rfl
  | cons p ps ih =>
    rw [sendLoop, pendingBytes_cons]
    have htail : pendingBytes fd t ps <:+ bytesFor fd t p ++ pendingBytes fd t ps :=
      List.suffix_append _ _
    by_cases hmatch : key.fdkey = p.obj.fddat ∧ key.connectTime = p.obj.connectTime
    · rw [if_neg (not_not.mpr hmatch)]
      simp only
      split
      · exact List.suffix_rfl
      · split
        · split
          · -- the message in front has lost the bytes that were sent
            rw [pendingBytes_cons, bytesFor_drop]
            exact List.suffix_append_self_iff.mpr (List.drop_suffix _ _)
          · exact htail
        · exact ih.trans htail
    · rw [if_pos hmatch]
      exact ih.trans htail

/-- A loop for another connection writes nothing to this one. -/
theorem sendLoop_written (h : ¬ (key.fdkey = fd ∧ key.connectTime = t)) :
    writtenBytes fd t (sendLoop key sends lst).recs = [] := by
  refine writtenBytes_eq_nil ?_
  intro via p bs hr
  rcases sendLoop_recs hr with ⟨_, _, heq, -⟩ | ⟨_, -, ⟨heq, -⟩ | ⟨heq, -⟩⟩
  · injection heq with hvia
    exact hvia ▸ h
  · cases heq
  · cases heq

/-- The loop accepts nothing. -/
theorem sendLoop_accepted : acceptedBytes fd t (sendLoop key sends lst).recs = [] := by
  refine acceptedBytes_eq_nil ?_
  intro p hr
  rcases sendLoop_recs hr with ⟨_, _, heq, -⟩ | ⟨_, -, ⟨heq, -⟩ | ⟨heq, -⟩⟩ <;> cases heq

end Epoll

end EupuServer
