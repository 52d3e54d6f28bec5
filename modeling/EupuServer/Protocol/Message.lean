import EupuServer.Protocol.Stream
/-!
# The messages the server itself builds

The header every frame begins with, and the two notifications the network
thread sends to the workers. Each is a chain of `OutputValue` calls over
one buffer, and of `InputValue` calls back; `outputFields` and
`inputFields` are that chain.
-/

namespace EupuServer

namespace Protocol

open Bytes

/-- The bytes of a frame's header. -/
def netHeadSize : ℕ := 8

/-- The largest frame. -/
def maxSendSize : ℕ := 2048

/-- The message identifiers of `sprotocol.h` the code below uses. -/
def rsConnected : UInt16 := 11
def rsDisconnected : UInt16 := 12
def keepAlivePing : UInt16 := 20

variable (h : Host)

/-- A chain of `OutputValue` calls: a field is written `ntmp` bytes into
the buffer of length `nLen`, and the room left is computed in 32 bits. -/
def outputFields (nLen : ℕ) : ℕ → List (ℕ × ℕ) → Option (List UInt8)
  | _, [] => some []
  | ntmp, (n, v) :: fs => do
    let b ← outputValue h n (int32 (nLen - ntmp)) v
    let bs ← outputFields nLen (ntmp + b.length) fs
    return b ++ bs

/-- A chain of `InputValue` calls. -/
def inputFields (nLen : ℕ) (buf : List UInt8) : ℕ → List ℕ → Option (List ℕ)
  | _, [] => some []
  | ntmp, n :: ns => do
    let v ← inputValue h n (buf.drop ntmp) (int32 (nLen - ntmp))
    let vs ← inputFields nLen buf (ntmp + n) ns
    return v :: vs

/-- `NetMessageHead`. -/
structure NetMessageHead where
  uMessageSize : UInt16 := 0
  uMainID : UInt16 := 0
  bAssistantID : UInt16 := 0
  bHandleCode : UInt8 := 0
  bReserve : UInt8 := 0
  deriving DecidableEq, Repr

namespace NetMessageHead

/-- The fields in the order they go over the wire. -/
def fields (m : NetMessageHead) : List (ℕ × ℕ) :=
  [(2, m.uMessageSize.toNat), (2, m.uMainID.toNat), (2, m.bAssistantID.toNat),
    (1, m.bHandleCode.toNat), (1, m.bReserve.toNat)]

/-- `NetMessageHead::Out`: the bytes written at `pDest`, whose number
becomes `nLen`; `none` where it returns false. -/
def out (m : NetMessageHead) (nLen : ℕ) : Option (List UInt8) :=
  outputFields h nLen 0 m.fields

/-- `NetMessageHead::In`: the fields read at `pSrc`; `none` where it
returns false. -/
def input (pSrc : List UInt8) (nLen : ℕ) : Option NetMessageHead := do
  let vs ← inputFields h nLen pSrc 0 [2, 2, 2, 1, 1]
  match vs with
  | [size, main, assistant, code, reserve] =>
    some ⟨.ofNat size, .ofNat main, .ofNat assistant, .ofNat code, .ofNat reserve⟩
  | _ => none

end NetMessageHead

/-- `MP_Server_Connected` and `MP_Server_DisConnected`: a header and the
type of the connection. -/
structure ServerMessage where
  msgHead : NetMessageHead
  nServer : ℤ
  deriving DecidableEq, Repr

/-- `MP_Server_Connected()`, with `m_nServer` set to `n`. -/
def mpServerConnected (n : ℤ) : ServerMessage where
  msgHead := { uMainID := rsConnected, uMessageSize := 12 }
  nServer := n

/-- `MP_Server_DisConnected()`, with `m_nServer` set to `n`. -/
def mpServerDisConnected (n : ℤ) : ServerMessage where
  msgHead := { uMainID := rsDisconnected, uMessageSize := 12 }
  nServer := n

namespace ServerMessage

/-- `Out` of either message. -/
def out (m : ServerMessage) (nlen : ℕ) : Option (List UInt8) := do
  let b ← m.msgHead.out h nlen
  let c ← outputValue h 4 (int32 (nlen - b.length)) (uint32 m.nServer)
  return b ++ c

/-- `In` of either message. -/
def input (pSrc : List UInt8) (nlen : ℕ) : Option ServerMessage := do
  let head ← NetMessageHead.input h pSrc nlen
  let v ← inputValue h 4 (pSrc.drop netHeadSize) (int32 (nlen - netHeadSize))
  return ⟨head, int32 v⟩

end ServerMessage

/-! ## What the chains write and read -/

variable {h} {nLen ntmp : ℕ} {fs : List (ℕ × ℕ)} {ns : List ℕ} {buf : List UInt8}

/-- The widths the codec knows. -/
def IsWidth (n : ℕ) : Prop := n = 1 ∨ n = 2 ∨ n = 4 ∨ n = 8

/-- The fields of a record fit their widths. -/
def FieldsFit (fs : List (ℕ × ℕ)) : Prop := ∀ f ∈ fs, IsWidth f.1 ∧ f.2 < 256 ^ f.1

/-- **A chain writes the record**, where the record fits in the buffer,
and fails where it does not. -/
theorem outputFields_eq (hlen : nLen < 2 ^ 31) (hfs : FieldsFit fs) (htmp : ntmp ≤ nLen) :
    outputFields h nLen ntmp fs =
      if ntmp + (fs.map Prod.fst).sum ≤ nLen then some (encodeFields fs) else none := by
  induction fs generalizing ntmp with
  | nil => simp [outputFields, htmp]
  | cons f fs ih =>
    obtain ⟨n, v⟩ := f
    obtain ⟨hn, hv⟩ := hfs (n, v) (by simp)
    have hroom : int32 ((nLen : ℤ) - ntmp) = nLen - ntmp := int32_of_lt (by omega) (by omega)
    have hrest : FieldsFit fs := fun g hg => hfs g (by simp [hg])
    rw [outputFields, hroom, outputValue_eq h hn hv]
    by_cases hfit : ntmp + n ≤ nLen
    · have hnot : ¬ ((n : ℤ) > (nLen : ℤ) - ntmp) := by omega
      rw [if_neg hnot, Option.bind_eq_bind, Option.bind_some, length_toBE, ih hrest hfit]
      simp only [List.map_cons, List.sum_cons, encodeFields_cons, ← Nat.add_assoc]
      split <;> simp
    · have hgt : (n : ℤ) > (nLen : ℤ) - ntmp := by omega
      have hsum : ¬ ntmp + (((n, v) :: fs).map Prod.fst).sum ≤ nLen := by
        rw [List.map_cons, List.sum_cons]
        omega
      rw [if_pos hgt, if_neg hsum]
      rfl

/-- **A chain reads the record**, where the buffer holds one. -/
theorem inputFields_eq (hlen : nLen < 2 ^ 31) (hns : ∀ n ∈ ns, IsWidth n)
    (hfit : ntmp + ns.sum ≤ nLen) (hbuf : ntmp + ns.sum ≤ buf.length) :
    inputFields h nLen buf ntmp ns = some (decodeFields ns (buf.drop ntmp)) := by
  induction ns generalizing ntmp with
  | nil => rfl
  | cons n ns ih =>
    rw [List.sum_cons] at hfit hbuf
    have hroom : int32 ((nLen : ℤ) - ntmp) = nLen - ntmp := int32_of_lt (by omega) (by omega)
    have hnot : ¬ ((n : ℤ) > (nLen : ℤ) - ntmp) := by omega
    have hlong : n ≤ (buf.drop ntmp).length := by rw [List.length_drop]; omega
    rw [inputFields, hroom, inputValue_eq h (hns n (by simp)) hlong, if_neg hnot,
      ih (fun m hm => hns m (by simp [hm])) (by omega) (by omega)]
    simp [decodeFields, List.drop_drop]

namespace NetMessageHead

variable (m : NetMessageHead)

theorem fieldsFit : FieldsFit m.fields := by
  intro f hf
  simp only [fields, List.mem_cons, List.not_mem_nil, or_false] at hf
  rcases hf with rfl | rfl | rfl | rfl | rfl
  · exact ⟨by simp [IsWidth], m.uMessageSize.toNat_lt⟩
  · exact ⟨by simp [IsWidth], m.uMainID.toNat_lt⟩
  · exact ⟨by simp [IsWidth], m.bAssistantID.toNat_lt⟩
  · exact ⟨by simp [IsWidth], m.bHandleCode.toNat_lt⟩
  · exact ⟨by simp [IsWidth], m.bReserve.toNat_lt⟩

theorem length_encode : (encodeFields m.fields).length = netHeadSize := by
  rw [length_encodeFields]
  rfl

/-- **The header is written where eight bytes fit.** -/
theorem out_eq (hlen : nLen < 2 ^ 31) :
    m.out h nLen = if netHeadSize ≤ nLen then some (encodeFields m.fields) else none := by
  rw [out, outputFields_eq hlen m.fieldsFit (Nat.zero_le _), Nat.zero_add]
  rfl

/-- **The header is read back**, whatever follows it. -/
theorem input_encode (hle : netHeadSize ≤ nLen) (hlen : nLen < 2 ^ 31) (tail : List UInt8) :
    input h (encodeFields m.fields ++ tail) nLen = some m := by
  have hlong : netHeadSize ≤ (encodeFields m.fields ++ tail).length := by
    rw [List.length_append, m.length_encode]
    omega
  have hread : inputFields h nLen (encodeFields m.fields ++ tail) 0 [2, 2, 2, 1, 1] =
      some (m.fields.map Prod.snd) := by
    rw [inputFields_eq hlen (by simp [IsWidth]) hle hlong, List.drop_zero]
    exact congrArg some (decodeFields_encodeFields (fun f hf => (m.fieldsFit f hf).2) tail)
  rw [input, hread]
  simp [fields]

end NetMessageHead

/-- **A notification is written where twelve bytes fit.** -/
theorem ServerMessage.out_eq (m : ServerMessage) (hle : 12 ≤ nLen) (hlen : nLen < 2 ^ 31) :
    m.out h nLen = some (encodeFields m.msgHead.fields ++ toBE 4 (uint32 m.nServer)) := by
  have hhead : netHeadSize ≤ nLen := by unfold netHeadSize; omega
  have hval : uint32 m.nServer < 256 ^ 4 := by unfold uint32; omega
  have hroom : int32 ((nLen : ℤ) - netHeadSize) = nLen - netHeadSize := by
    refine int32_of_lt ?_ ?_ <;> unfold netHeadSize <;> omega
  have hnot : ¬ (((4 : ℕ) : ℤ) > (nLen : ℤ) - netHeadSize) := by unfold netHeadSize; omega
  rw [ServerMessage.out, m.msgHead.out_eq hlen, if_pos hhead, Option.bind_eq_bind,
    Option.bind_some, m.msgHead.length_encode, hroom, outputValue_eq h (by simp) hval, if_neg hnot]
  rfl

end Protocol

end EupuServer
