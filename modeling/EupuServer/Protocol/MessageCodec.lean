import EupuServer.Protocol.Message
import EupuServer.Common.Memory
/-!
# The message codecs at a pointer

`Out` and `In` as their callers see them: `pDest` and `pSrc` are pointers
that may be null, `nLen` is the room behind them and is replaced by the
number of bytes written or read. A chain of calls goes from field to field
with `ntmp`, and the room that is left is an unsigned difference passed as
a signed number. `outputFields` and `inputFields` are the same chains by
what they write and read (`outputChain_of_some`, `inputChain_eq`), and a
record is one of eight or twelve bytes however it is cut into calls.
-/

namespace EupuServer

namespace Protocol

open Bytes

variable (h : Host)

/-! ## The chains -/

/-- The calls of `OutputValue` in an `Out`: whether none of them failed,
`ntmp`, and the memory at `pDest`. -/
def outputChain (nLen : ℕ) :
    ℕ → (ℕ → UInt8) → List (ℕ × ℕ) → Bool × ℕ × (ℕ → UInt8)
  | ntmp, mem, [] => (true, ntmp, mem)
  | ntmp, mem, (n, v) :: fs =>
    match outputValue h n (int32 (nLen - ntmp)) v with
    | none => (false, ntmp, mem)
    | some bs => outputChain nLen (ntmp + bs.length) (writeAt mem ntmp bs) fs

/-- The calls of `InputValue` in an `In`: the values and `ntmp`; `none`
where one of them failed. -/
def inputChain (nLen : ℕ) (mem : ℕ → UInt8) : ℕ → List ℕ → Option (List ℕ × ℕ)
  | ntmp, [] => some ([], ntmp)
  | ntmp, n :: ns => do
    let v ← inputValue h n (bytesAt mem ntmp n) (int32 (nLen - ntmp))
    let (vs, ntmp') ← inputChain nLen mem (ntmp + n) ns
    return (v :: vs, ntmp')

/-- What a call of `Out` leaves: its result, `nLen`, and the memory at
`pDest`. -/
structure OutCall where
  ok : Bool
  nLen : UInt32
  dest : Option (ℕ → UInt8)

/-- An `Out` that is a null test and a chain. -/
def outRecord (fs : List (ℕ × ℕ)) (pDest : Option (ℕ → UInt8)) (nLen : UInt32) : OutCall :=
  match pDest with
  | none => ⟨false, nLen, none⟩
  | some mem =>
    match outputChain h nLen.toNat 0 mem fs with
    | (true, ntmp, mem') => ⟨true, .ofNat ntmp, some mem'⟩
    -- `nLen` is set at the end, and the fields in front have been written
    | (false, _, mem') => ⟨false, nLen, some mem'⟩

/-- `NetMessageHead::Out`. -/
def NetMessageHead.outAt (m : NetMessageHead) (pDest : Option (ℕ → UInt8)) (nLen : UInt32) :
    OutCall :=
  outRecord h m.fields pDest nLen

/-- `NetMessageHead::In`: the object and `nLen` after it; `none` where it
returns false. -/
def NetMessageHead.inAt (pSrc : Option (ℕ → UInt8)) (nLen : UInt32) :
    Option (NetMessageHead × UInt32) := do
  let mem ← pSrc
  let (vs, ntmp) ← inputChain h nLen.toNat mem 0 [2, 2, 2, 1, 1]
  match vs with
  | [size, main, assistant, code, reserve] =>
    some (⟨.ofNat size, .ofNat main, .ofNat assistant, .ofNat code, .ofNat reserve⟩, .ofNat ntmp)
  | _ => none

/-- `MP_Server_Connected::Out` and `MP_Server_DisConnected::Out`. -/
def ServerMessage.outAt (m : ServerMessage) (pDest : Option (ℕ → UInt8)) (nlen : UInt32) :
    OutCall :=
  let head := m.msgHead.outAt h pDest nlen
  match head.ok, head.dest with
  | true, some mem =>
    let ntmp := head.nLen.toNat
    match outputValue h 4 (int32 (nlen.toNat - ntmp)) (uint32 m.nServer) with
    | none => ⟨false, nlen, some mem⟩
    | some bs => ⟨true, .ofNat (ntmp + bs.length), some (writeAt mem ntmp bs)⟩
  | _, dest => ⟨false, nlen, dest⟩

/-- `MP_Server_Connected::In` and `MP_Server_DisConnected::In`. -/
def ServerMessage.inAt (pSrc : Option (ℕ → UInt8)) (nlen : UInt32) :
    Option (ServerMessage × UInt32) := do
  let (head, nbuflen) ← NetMessageHead.inAt h pSrc nlen
  let mem ← pSrc
  let ntmp := nbuflen.toNat
  let v ← inputValue h 4 (bytesAt mem ntmp 4) (int32 (nlen.toNat - ntmp))
  return (⟨head, int32 v⟩, .ofNat (ntmp + 4))

/-! ## What the chains write -/

variable {h} {nLen ntmp : ℕ} {mem : ℕ → UInt8} {fs : List (ℕ × ℕ)} {ns : List ℕ}
  {bs buf : List UInt8}

/-- A chain that gets through has written its record. -/
theorem outputChain_of_some (hbs : outputFields h nLen ntmp fs = some bs) :
    outputChain h nLen ntmp mem fs = (true, ntmp + bs.length, writeAt mem ntmp bs) := by
  induction fs generalizing ntmp mem bs with
  | nil =>
    rw [outputFields, Option.some.injEq] at hbs
    subst hbs
    rw [outputChain, writeAt_nil]
    rfl
  | cons f fs ih =>
    obtain ⟨n, v⟩ := f
    rw [outputFields] at hbs
    obtain ⟨b, hb, hbs⟩ := Option.bind_eq_some_iff.mp hbs
    obtain ⟨bs', hbs', heq⟩ := Option.bind_eq_some_iff.mp hbs
    cases heq
    rw [outputChain, hb]
    simp only
    rw [ih hbs', writeAt_writeAt, List.length_append, Nat.add_assoc]

/-- And one that does not fails. -/
theorem outputChain_of_none (hnone : outputFields h nLen ntmp fs = none) :
    (outputChain h nLen ntmp mem fs).1 = false := by
  induction fs generalizing ntmp mem with
  | nil => cases hnone
  | cons f fs ih =>
    obtain ⟨n, v⟩ := f
    rw [outputFields] at hnone
    rw [outputChain]
    cases hb : outputValue h n (int32 ((nLen : ℤ) - ntmp)) v with
    | none => rfl
    | some b =>
      rw [hb, Option.bind_eq_bind, Option.bind_some] at hnone
      simp only
      refine ih ?_
      cases hrest : outputFields h nLen (ntmp + b.length) fs with
      | none => rfl
      | some bs' =>
        rw [hrest] at hnone
        cases hnone

/-- **A chain writes inside its record**, whether it gets through or not. -/
theorem outputChain_frame (hfs : FieldsFit fs) {i : ℕ}
    (hi : ntmp + (fs.map Prod.fst).sum ≤ i) : (outputChain h nLen ntmp mem fs).2.2 i = mem i := by
  induction fs generalizing ntmp mem with
  | nil => rfl
  | cons f fs ih =>
    obtain ⟨n, v⟩ := f
    obtain ⟨hn, hv⟩ := hfs (n, v) (by simp)
    rw [List.map_cons, List.sum_cons] at hi
    rw [outputChain, outputValue_eq h hn hv]
    by_cases hgt : (n : ℤ) > int32 ((nLen : ℤ) - ntmp)
    · rw [if_pos hgt]
    · rw [if_neg hgt]
      simp only
      rw [ih (fun g hg => hfs g (by simp [hg])) (by rw [length_toBE]; omega),
        writeAt_of_ge (by rw [length_toBE]; omega)]

/-- A length from `2 ^ 31` on is negative, and no field fits. -/
theorem int32_neg (hlarge : 2 ^ 31 ≤ nLen) (hlen : nLen < 2 ^ 32) : int32 nLen < 0 := by
  rw [int32_of_ge (by omega) (by omega)]
  omega

/-- **When a record is written**: where it fits, and the length is one an
`int` can hold. -/
theorem outputFields_record (hfs : FieldsFit fs) (hne : fs ≠ []) (hlen : nLen < 2 ^ 32) :
    outputFields h nLen 0 fs =
      if (fs.map Prod.fst).sum ≤ nLen ∧ nLen ≤ 2 ^ 31 - 1 then some (encodeFields fs)
      else none := by
  rcases Nat.lt_or_ge nLen (2 ^ 31) with hsmall | hlarge
  · rw [outputFields_eq hsmall hfs (Nat.zero_le _), Nat.zero_add]
    by_cases hfit : (fs.map Prod.fst).sum ≤ nLen
    · rw [if_pos hfit, if_pos ⟨hfit, by omega⟩]
    · rw [if_neg hfit, if_neg (fun hboth => hfit hboth.1)]
  · obtain ⟨⟨n, v⟩, fs', rfl⟩ := List.exists_cons_of_ne_nil hne
    obtain ⟨hn, hv⟩ := hfs (n, v) (by simp)
    have hneg := int32_neg hlarge hlen
    rw [if_neg (by omega), outputFields, outputValue_eq h hn hv, if_pos]
    · rfl
    · push_cast
      rw [sub_zero]
      omega

/-! ## What the chains read -/

/-- The chain at a pointer reads what the chain over the bytes does. -/
theorem inputChain_eq (htmp : ntmp ≤ nLen) :
    inputChain h nLen mem ntmp ns =
      (inputFields h nLen (bytesAt mem 0 nLen) ntmp ns).map fun vs => (vs, ntmp + ns.sum) := by
  induction ns generalizing ntmp with
  | nil => rfl
  | cons n ns ih =>
    by_cases hgt : (n : ℤ) > int32 ((nLen : ℤ) - ntmp)
    · rw [inputChain, inputFields, inputValue, inputValue]
      simp only [if_pos hgt]
      rfl
    · have hle : int32 ((nLen : ℤ) - ntmp) ≤ nLen - ntmp := int32_le (by omega)
      have hsame : inputValue h n (bytesAt mem ntmp n) (int32 ((nLen : ℤ) - ntmp)) =
          inputValue h n ((bytesAt mem 0 nLen).drop ntmp) (int32 ((nLen : ℤ) - ntmp)) := by
        have hcut : ((bytesAt mem 0 nLen).drop ntmp).take n = (bytesAt mem ntmp n).take n := by
          rw [drop_bytesAt htmp, take_bytesAt (by omega), Nat.zero_add,
            List.take_of_length_le (length_bytesAt ..).le]
        rw [inputValue, inputValue, hcut]
      rw [inputChain, inputFields, hsame]
      cases inputValue h n ((bytesAt mem 0 nLen).drop ntmp) (int32 ((nLen : ℤ) - ntmp)) with
      | none => rfl
      | some v =>
        simp only [Option.bind_eq_bind, Option.bind_some, ih (show ntmp + n ≤ nLen by omega)]
        cases inputFields h nLen (bytesAt mem 0 nLen) (ntmp + n) ns with
        | none => rfl
        | some vs => simp [Nat.add_assoc]

/-- A record that does not fit is not read. -/
theorem inputFields_short (hlen : nLen < 2 ^ 31) (htmp : ntmp ≤ nLen)
    (hshort : nLen < ntmp + ns.sum) : inputFields h nLen buf ntmp ns = none := by
  induction ns generalizing ntmp with
  | nil => simp at hshort; omega
  | cons n ns ih =>
    have hroom : int32 ((nLen : ℤ) - ntmp) = nLen - ntmp := int32_of_lt (by omega) (by omega)
    rw [List.sum_cons] at hshort
    rw [inputFields, hroom]
    by_cases hgt : (n : ℤ) > (nLen : ℤ) - ntmp
    · rw [inputValue, if_pos hgt]
      rfl
    · rw [ih (by omega) (by omega)]
      cases inputValue h n (buf.drop ntmp) ((nLen : ℤ) - ntmp) <;> rfl

/-- **When a record is read**: where it is all there, and the length is one
an `int` can hold. -/
theorem inputFields_record (hns : ∀ n ∈ ns, IsWidth n) (hne : ns ≠ []) (hlen : nLen < 2 ^ 32)
    (hbuf : nLen ≤ buf.length) :
    inputFields h nLen buf 0 ns =
      if ns.sum ≤ nLen ∧ nLen ≤ 2 ^ 31 - 1 then some (decodeFields ns buf) else none := by
  rcases Nat.lt_or_ge nLen (2 ^ 31) with hsmall | hlarge
  · by_cases hfit : ns.sum ≤ nLen
    · rw [if_pos ⟨hfit, by omega⟩, inputFields_eq hsmall hns (by omega) (by omega), List.drop_zero]
    · rw [if_neg (fun hboth => hfit hboth.1), inputFields_short hsmall (Nat.zero_le _) (by omega)]
  · obtain ⟨n, ns', rfl⟩ := List.exists_cons_of_ne_nil hne
    have hneg := int32_neg hlarge hlen
    rw [if_neg (by omega), inputFields, inputValue, if_pos]
    · rfl
    · push_cast
      rw [sub_zero]
      omega

/-! ## Records at a pointer -/

variable {nlen : UInt32}

/-- A chain in two parts. -/
theorem outputChain_append (nLen ntmp : ℕ) (mem : ℕ → UInt8) (fs gs : List (ℕ × ℕ)) :
    outputChain h nLen ntmp mem (fs ++ gs) =
    match outputChain h nLen ntmp mem fs with
    | (true, ntmp', mem') => outputChain h nLen ntmp' mem' gs
    | r => r := by
  induction fs generalizing ntmp mem with
  | nil => rfl
  | cons f fs ih =>
    rw [List.cons_append, outputChain, outputChain]
    cases outputValue h f.1 (int32 ((nLen : ℤ) - ntmp)) f.2 with
    | none => rfl
    | some b => exact ih _ _

/-- **A record that fits is written** at the front of the memory. -/
theorem outRecord_eq (hfs : FieldsFit fs) (hne : fs ≠ [])
    (hfit : (fs.map Prod.fst).sum ≤ nlen.toNat ∧ nlen.toNat ≤ 2 ^ 31 - 1) :
    outRecord h fs (some mem) nlen =
      ⟨true, .ofNat (fs.map Prod.fst).sum, some (writeAt mem 0 (encodeFields fs))⟩ := by
  have hbs := outputFields_record (h := h) hfs hne nlen.toNat_lt
  rw [if_pos hfit] at hbs
  simp only [outRecord, outputChain_of_some hbs, Nat.zero_add, length_encodeFields]

/-- **One that does not fit is refused.** -/
theorem outRecord_fails (hfs : FieldsFit fs) (hne : fs ≠ [])
    (hfit : ¬ ((fs.map Prod.fst).sum ≤ nlen.toNat ∧ nlen.toNat ≤ 2 ^ 31 - 1)) :
    ∃ mem', outRecord h fs (some mem) nlen = ⟨false, nlen, some mem'⟩ := by
  have hnone := outputFields_record (h := h) hfs hne nlen.toNat_lt
  rw [if_neg hfit] at hnone
  have hfails : (outputChain h nlen.toNat 0 mem fs).1 = false := outputChain_of_none hnone
  rcases hchain : outputChain h nlen.toNat 0 mem fs with ⟨ok, n, mem'⟩
  rw [hchain] at hfails
  simp only at hfails
  subst hfails
  exact ⟨mem', by simp only [outRecord, hchain]⟩

/-- **When a record is accepted.** -/
theorem outRecord_ok_iff (hfs : FieldsFit fs) (hne : fs ≠ []) :
    (outRecord h fs (some mem) nlen).ok = true ↔
      (fs.map Prod.fst).sum ≤ nlen.toNat ∧ nlen.toNat ≤ 2 ^ 31 - 1 := by
  by_cases hfit : (fs.map Prod.fst).sum ≤ nlen.toNat ∧ nlen.toNat ≤ 2 ^ 31 - 1
  · rw [outRecord_eq hfs hne hfit]
    exact ⟨fun _ => hfit, fun _ => rfl⟩
  · obtain ⟨mem', heq⟩ : ∃ mem', outRecord h fs (some mem) nlen = ⟨false, nlen, some mem'⟩ :=
      outRecord_fails hfs hne hfit
    rw [heq]
    exact ⟨fun hfalse => Bool.noConfusion hfalse, fun hboth => absurd hboth hfit⟩

/-- `nLen` is set where the record is accepted, and only there. -/
theorem outRecord_nLen (hfs : FieldsFit fs) (hne : fs ≠ []) :
    (outRecord h fs (some mem) nlen).nLen =
      if (outRecord h fs (some mem) nlen).ok then .ofNat (fs.map Prod.fst).sum else nlen := by
  by_cases hfit : (fs.map Prod.fst).sum ≤ nlen.toNat ∧ nlen.toNat ≤ 2 ^ 31 - 1
  · rw [outRecord_eq hfs hne hfit]
    rfl
  · obtain ⟨mem', heq⟩ : ∃ mem', outRecord h fs (some mem) nlen = ⟨false, nlen, some mem'⟩ :=
      outRecord_fails hfs hne hfit
    rw [heq]
    rfl

/-- Either way only its own bytes are touched. -/
theorem outRecord_frame (hfs : FieldsFit fs) :
    ∃ mem', (outRecord h fs (some mem) nlen).dest = some mem' ∧
      ∀ i, (fs.map Prod.fst).sum ≤ i → mem' i = mem i := by
  refine ⟨(outputChain h nlen.toNat 0 mem fs).2.2, ?_, fun i hi => ?_⟩
  · simp only [outRecord]
    split <;> rename_i heq <;> rw [heq]
  · exact outputChain_frame hfs (by omega)

namespace ServerMessage

/-- The fields in the order they go over the wire. -/
def fields (m : ServerMessage) : List (ℕ × ℕ) := m.msgHead.fields ++ [(4, uint32 m.nServer)]

theorem fieldsFit (m : ServerMessage) : FieldsFit m.fields := by
  intro f hf
  rcases List.mem_append.mp hf with hf | hf
  · exact m.msgHead.fieldsFit f hf
  · rw [List.mem_singleton.mp hf]
    refine ⟨by simp [IsWidth], ?_⟩
    simp only [uint32]
    omega

/-- **The call behind the header is one more of its chain.** -/
theorem outAt_eq (m : ServerMessage) :
    m.outAt h (some mem) nlen = outRecord h m.fields (some mem) nlen := by
  have hne : m.msgHead.fields ≠ [] := List.cons_ne_nil _ _
  have hchain := outputChain_append (h := h) nlen.toNat 0 mem m.msgHead.fields
    [(4, uint32 m.nServer)]
  by_cases hfit : (m.msgHead.fields.map Prod.fst).sum ≤ nlen.toNat ∧ nlen.toNat ≤ 2 ^ 31 - 1
  · have hbs := outputFields_record (h := h) m.msgHead.fieldsFit hne nlen.toNat_lt
    rw [if_pos hfit] at hbs
    have hhead : outRecord h m.msgHead.fields (some mem) nlen = _ :=
      outRecord_eq m.msgHead.fieldsFit hne hfit
    rw [outputChain_of_some hbs, m.msgHead.length_encode, Nat.zero_add] at hchain
    rw [outAt, NetMessageHead.outAt, hhead, outRecord, fields, hchain]
    have hlen : (UInt32.ofNat (m.msgHead.fields.map Prod.fst).sum).toNat = netHeadSize := rfl
    simp only [outputChain, hlen]
    cases outputValue h 4 (int32 ((nlen.toNat : ℤ) - netHeadSize)) (uint32 m.nServer) with
    | none => rfl
    | some bs => rfl
  · have hnone := outputFields_record (h := h) m.msgHead.fieldsFit hne nlen.toNat_lt
    rw [if_neg hfit] at hnone
    have hfails : (outputChain h nlen.toNat 0 mem m.msgHead.fields).1 = false :=
      outputChain_of_none hnone
    rw [outAt, NetMessageHead.outAt, outRecord, outRecord, fields, hchain]
    rcases hcalls : outputChain h nlen.toNat 0 mem m.msgHead.fields with ⟨ok, n, mem'⟩
    rw [hcalls] at hfails
    cases hfails
    rfl

end ServerMessage

/-! ## What eight and twelve bytes spell -/

/-- The header at the front of `bs`. -/
def NetMessageHead.ofBytes (bs : List UInt8) : NetMessageHead where
  uMessageSize := .ofNat (ofBE (bs.take 2))
  uMainID := .ofNat (ofBE ((bs.drop 2).take 2))
  bAssistantID := .ofNat (ofBE ((bs.drop 4).take 2))
  bHandleCode := .ofNat (ofBE ((bs.drop 6).take 1))
  bReserve := .ofNat (ofBE ((bs.drop 7).take 1))

/-- The notification at the front of `bs`. -/
def ServerMessage.ofBytes (bs : List UInt8) : ServerMessage where
  msgHead := .ofBytes bs
  nServer := int32 (ofBE ((bs.drop 8).take 4))

/-- The widths of a header's fields. -/
def headWidths : List ℕ := [2, 2, 2, 1, 1]

namespace NetMessageHead

variable (m : NetMessageHead)

/-- **At a pointer, `Out` writes the bytes of `out`.** -/
theorem outAt_of_out (hbs : m.out h nlen.toNat = some bs) :
    m.outAt h (some mem) nlen = ⟨true, .ofNat bs.length, some (writeAt mem 0 bs)⟩ := by
  have hchain : outputChain h nlen.toNat 0 mem m.fields = _ := outputChain_of_some hbs
  rw [Nat.zero_add] at hchain
  rw [outAt, outRecord]
  simp only [hchain]

/-- **And `In` reads what `input` does.** -/
theorem inAt_eq_input : inAt h (some mem) nlen =
    (input h (bytesAt mem 0 nlen.toNat) nlen.toNat).map fun m => (m, .ofNat netHeadSize) := by
  rw [inAt, Option.bind_eq_bind, Option.bind_some, inputChain_eq (Nat.zero_le _), input]
  cases inputFields h nlen.toNat (bytesAt mem 0 nlen.toNat) 0 [2, 2, 2, 1, 1] with
  | none => rfl
  | some vs =>
    rcases vs with _ | ⟨_, _ | ⟨_, _ | ⟨_, _ | ⟨_, _ | ⟨_, _ | _⟩⟩⟩⟩⟩ <;> rfl

theorem decodeFields_head (bs : List UInt8) :
    decodeFields headWidths bs =
      [ofBE (bs.take 2), ofBE ((bs.drop 2).take 2), ofBE ((bs.drop 4).take 2),
        ofBE ((bs.drop 6).take 1), ofBE ((bs.drop 7).take 1)] := by
  simp only [headWidths, decodeFields, List.drop_drop]

/-- The fields of the header that bytes spell are those they hold. -/
theorem fields_ofBytes (bs : List UInt8) :
    (ofBytes bs).fields = headWidths.zip (decodeFields headWidths bs) := by
  have htwo : ∀ xs : List UInt8, (UInt16.ofNat (ofBE (xs.take 2))).toNat = ofBE (xs.take 2) :=
    fun xs => UInt16.toNat_ofNat_of_lt' (ofBE_take_lt xs 2)
  have hone : ∀ xs : List UInt8, (UInt8.ofNat (ofBE (xs.take 1))).toNat = ofBE (xs.take 1) :=
    fun xs => UInt8.toNat_ofNat_of_lt' (ofBE_take_lt xs 1)
  rw [decodeFields_head, fields, ofBytes]
  simp only [htwo, hone]
  rfl

/-- **Bytes that spell a header are the header's.** -/
theorem encode_ofBytes {bs : List UInt8} (hlen : netHeadSize ≤ bs.length) :
    encodeFields (ofBytes bs).fields = bs.take netHeadSize := by
  rw [fields_ofBytes]
  exact encodeFields_decodeFields hlen

/-- **A header is what its bytes spell**, whatever follows them. -/
theorem ofBytes_encode (tail : List UInt8) : ofBytes (encodeFields m.fields ++ tail) = m := by
  have hread := decodeFields_encodeFields (fun f hf => (m.fieldsFit f hf).2) tail
  have hwidths : m.fields.map Prod.fst = headWidths := rfl
  rw [hwidths, decodeFields_head] at hread
  simp only [fields, List.map_cons, List.map_nil, List.cons.injEq, and_true] at hread
  obtain ⟨hsize, hmain, hassistant, hcode, hreserve⟩ := hread
  simp only [fields, ofBytes, hsize, hmain, hassistant, hcode, hreserve, UInt16.ofNat_toNat,
    UInt8.ofNat_toNat]

/-- **`In` reads eight bytes**, where they are there. -/
theorem inAt_eq : inAt h (some mem) nlen =
    if netHeadSize ≤ nlen.toNat ∧ nlen.toNat ≤ 2 ^ 31 - 1 then
      some (ofBytes (bytesAt mem 0 nlen.toNat), .ofNat netHeadSize)
    else none := by
  have hread : inputFields h nlen.toNat (bytesAt mem 0 nlen.toNat) 0 headWidths = _ :=
    inputFields_record (by simp [headWidths, IsWidth]) (List.cons_ne_nil _ _) nlen.toNat_lt
      (length_bytesAt ..).ge
  have hsum : headWidths.sum = netHeadSize := rfl
  rw [hsum] at hread
  rw [inAt, Option.bind_eq_bind, Option.bind_some]
  change (inputChain h nlen.toNat mem 0 headWidths).bind _ = _
  rw [inputChain_eq (Nat.zero_le _), hread, hsum]
  by_cases hfit : netHeadSize ≤ nlen.toNat ∧ nlen.toNat ≤ 2 ^ 31 - 1
  · rw [if_pos hfit, if_pos hfit, decodeFields_head]
    rfl
  · rw [if_neg hfit, if_neg hfit]
    rfl

end NetMessageHead

namespace ServerMessage

variable (m : ServerMessage)

/-- The bytes of a notification. -/
theorem encode_eq :
    encodeFields m.fields = encodeFields m.msgHead.fields ++ toBE 4 (uint32 m.nServer) := by
  simp [fields, encodeFields]

theorem encode_ofBytes {bs : List UInt8} (hlen : 12 ≤ bs.length) :
    encodeFields (ofBytes bs).fields = bs.take 12 := by
  have hhead : encodeFields (NetMessageHead.ofBytes bs).fields = bs.take 8 :=
    NetMessageHead.encode_ofBytes (by unfold netHeadSize; omega)
  have hfour : ((bs.drop 8).take 4).length = 4 := by
    rw [List.length_take, List.length_drop]
    omega
  have hlt : ofBE ((bs.drop 8).take 4) < 2 ^ 32 := ofBE_take_lt (bs.drop 8) 4
  have htail : toBE 4 (ofBE ((bs.drop 8).take 4)) = (bs.drop 8).take 4 := by
    have h := toBE_ofBE ((bs.drop 8).take 4)
    rw [hfour] at h
    exact h
  rw [encode_eq, ofBytes, hhead, uint32_int32 hlt, htail, ← List.take_add]

/-- What is read is an `int`. -/
theorem int32_ofBytes (bs : List UInt8) : int32 (ofBytes bs).nServer = (ofBytes bs).nServer := by
  simp only [ofBytes, int32_int32]

theorem ofBytes_encode (hint : int32 m.nServer = m.nServer) (tail : List UInt8) :
    ofBytes (encodeFields m.fields ++ tail) = m := by
  have hlen : (encodeFields m.msgHead.fields).length = 8 := m.msgHead.length_encode
  have hval : uint32 m.nServer < 256 ^ 4 := by
    unfold uint32
    omega
  rw [encode_eq, List.append_assoc, ofBytes, NetMessageHead.ofBytes_encode,
    List.drop_left' hlen, List.take_left' (length_toBE ..), ofBE_toBE hval, int32_uint32, hint]

/-- **`In` reads twelve bytes**, where they are there. -/
theorem inAt_eq : inAt h (some mem) nlen =
    if 12 ≤ nlen.toNat ∧ nlen.toNat ≤ 2 ^ 31 - 1 then
      some (ofBytes (bytesAt mem 0 nlen.toNat), .ofNat 12)
    else none := by
  rw [inAt, NetMessageHead.inAt_eq]
  by_cases hhead : netHeadSize ≤ nlen.toNat ∧ nlen.toNat ≤ 2 ^ 31 - 1
  · have hlen : (UInt32.ofNat netHeadSize).toNat = 8 := rfl
    have hroom : int32 ((nlen.toNat : ℤ) - (8 : ℕ)) = nlen.toNat - (8 : ℕ) := by
      unfold netHeadSize at hhead
      exact int32_of_lt (by omega) (by omega)
    simp only [if_pos hhead, Option.bind_eq_bind, Option.bind_some, hlen, hroom]
    rw [inputValue_eq h (by simp) (length_bytesAt ..).ge]
    by_cases hfit : 12 ≤ nlen.toNat
    · have hcut : ((bytesAt mem 0 nlen.toNat).drop 8).take 4 = (bytesAt mem 8 4).take 4 := by
        rw [drop_bytesAt (by omega), take_bytesAt (by omega),
          List.take_of_length_le (length_bytesAt ..).le]
      rw [if_neg (by omega), if_pos ⟨hfit, hhead.2⟩, Option.bind_some, ofBytes, hcut]
      rfl
    · rw [if_pos (by omega), if_neg (fun hboth => hfit hboth.1)]
      rfl
  · rw [if_neg hhead, if_neg]
    · rfl
    · unfold netHeadSize at hhead
      omega

end ServerMessage

/-! ## The two codecs -/

variable {α : Type*} {size : ℕ} {valid : α → Prop}
  {out : α → Option (ℕ → UInt8) → UInt32 → OutCall}
  {inp : Option (ℕ → UInt8) → UInt32 → Option (α × UInt32)}

/-- **A codec that is inverse and length-exact**, for records of `size`
bytes: `Out` succeeds where a record fits in a buffer whose claimed length
an `int` can hold, touches no byte behind the record, and sets `nLen` where
it succeeds and only there; `In` gives back what `Out` wrote, of a buffer
claimed to be as long or longer, and what `In` made of any bytes, `Out`
writes as these bytes. -/
structure ExactCodec (size : ℕ) (valid : α → Prop)
    (out : α → Option (ℕ → UInt8) → UInt32 → OutCall)
    (inp : Option (ℕ → UInt8) → UInt32 → Option (α × UInt32)) : Prop where
  out_ok : ∀ m mem nLen,
    (out m (some mem) nLen).ok = true ↔ size ≤ nLen.toNat ∧ nLen.toNat ≤ 2 ^ 31 - 1
  out_dest : ∀ m mem nLen, ∃ mem', (out m (some mem) nLen).dest = some mem' ∧
    ∀ i, size ≤ i → mem' i = mem i
  out_nLen : ∀ m mem nLen, (out m (some mem) nLen).nLen.toNat =
    if (out m (some mem) nLen).ok then size else nLen.toNat
  in_out : ∀ m mem nLen, valid m → (out m (some mem) nLen).ok = true →
    ∀ nLen', size ≤ nLen'.toNat → nLen'.toNat ≤ 2 ^ 31 - 1 →
      ∃ k, inp (out m (some mem) nLen).dest nLen' = some (m, k) ∧ k.toNat = size
  out_in : ∀ m mem nLen k, inp (some mem) nLen = some (m, k) →
    valid m ∧ k.toNat = size ∧ ∀ mem' nLen', (out m (some mem') nLen').ok = true →
      (out m (some mem') nLen').dest.map (bytesAt · 0 size) = some (bytesAt mem 0 size)

/-- A codec that writes and reads a record as a whole: the fields of an
object, and the object some bytes spell. -/
structure RecordCodec (h : Host) (size : ℕ) (valid : α → Prop)
    (out : α → Option (ℕ → UInt8) → UInt32 → OutCall)
    (inp : Option (ℕ → UInt8) → UInt32 → Option (α × UInt32)) where
  fields : α → List (ℕ × ℕ)
  ofBytes : List UInt8 → α
  fieldsFit : ∀ m, FieldsFit (fields m)
  width : ∀ m, ((fields m).map Prod.fst).sum = size
  size_pos : 0 < size
  size_lt : size < 2 ^ 31
  out_eq : ∀ m mem nLen, out m (some mem) nLen = outRecord h (fields m) (some mem) nLen
  inp_eq : ∀ mem nLen, inp (some mem) nLen =
    if size ≤ nLen.toNat ∧ nLen.toNat ≤ 2 ^ 31 - 1 then
      some (ofBytes (bytesAt mem 0 nLen.toNat), .ofNat size)
    else none
  ofBytes_encode : ∀ m, valid m → ∀ tail, ofBytes (encodeFields (fields m) ++ tail) = m
  valid_ofBytes : ∀ bs, valid (ofBytes bs)
  encode_ofBytes : ∀ bs : List UInt8, size ≤ bs.length →
    encodeFields (fields (ofBytes bs)) = bs.take size

namespace RecordCodec

variable (c : RecordCodec h size valid out inp)

include c

theorem fields_ne_nil (m : α) : c.fields m ≠ [] := by
  intro hnil
  have hzero := c.width m
  have hpos := c.size_pos
  rw [hnil] at hzero
  simp at hzero
  omega

theorem length_encode (m : α) : (encodeFields (c.fields m)).length = size := by
  rw [length_encodeFields, c.width m]

/-- The size of a record fits into `nLen`. -/
theorem toNat_size : (UInt32.ofNat size).toNat = size := by
  have hlt := c.size_lt
  refine UInt32.toNat_ofNat_of_lt' ?_
  rw [UInt32.size]
  omega

/-- `Out` succeeds where the record fits. -/
theorem out_ok_iff (m : α) (mem : ℕ → UInt8) (nLen : UInt32) :
    (out m (some mem) nLen).ok = true ↔ size ≤ nLen.toNat ∧ nLen.toNat ≤ 2 ^ 31 - 1 := by
  rw [c.out_eq, outRecord_ok_iff (c.fieldsFit m) (c.fields_ne_nil m), c.width m]

/-- Then the record is what is written. -/
theorem dest_of_ok {m : α} {nLen : UInt32} (hok : (out m (some mem) nLen).ok = true) :
    (out m (some mem) nLen).dest = some (writeAt mem 0 (encodeFields (c.fields m))) := by
  rw [c.out_eq] at hok ⊢
  have hfit := (outRecord_ok_iff (c.fieldsFit m) (c.fields_ne_nil m)).mp hok
  rw [outRecord_eq (c.fieldsFit m) (c.fields_ne_nil m) hfit]

/-- `In` gives back what `Out` wrote. -/
theorem inp_of_ok {m : α} {nLen nLen' : UInt32} (hm : valid m)
    (hok : (out m (some mem) nLen).ok = true) (hle : size ≤ nLen'.toNat)
    (hmax : nLen'.toNat ≤ 2 ^ 31 - 1) :
    inp (out m (some mem) nLen).dest nLen' = some (m, .ofNat size) := by
  rw [c.dest_of_ok hok, c.inp_eq, if_pos ⟨hle, hmax⟩,
    show nLen'.toNat = size + (nLen'.toNat - size) by omega, bytesAt_add,
    bytesAt_writeAt mem 0 (c.length_encode m), c.ofBytes_encode m hm]

/-- What `In` made of some bytes is written as these bytes. -/
theorem dest_of_inp {m : α} {nLen nLen' k : UInt32} {mem' : ℕ → UInt8}
    (hread : inp (some mem) nLen = some (m, k)) (hok : (out m (some mem') nLen').ok = true) :
    (out m (some mem') nLen').dest.map (bytesAt · 0 size) = some (bytesAt mem 0 size) := by
  rw [c.inp_eq] at hread
  split at hread
  · rename_i hroom
    cases hread
    have hsame : encodeFields (c.fields (c.ofBytes (bytesAt mem 0 nLen.toNat))) =
        bytesAt mem 0 size := by
      rw [c.encode_ofBytes _ (by rw [length_bytesAt]; exact hroom.1), take_bytesAt hroom.1]
    rw [c.dest_of_ok hok, Option.map_some, hsame, bytesAt_writeAt mem' 0 (length_bytesAt ..)]
  · cases hread

/-- What `In` gives is valid, and it has consumed the record. -/
theorem of_inp {m : α} {nLen k : UInt32} (hread : inp (some mem) nLen = some (m, k)) :
    valid m ∧ k.toNat = size := by
  rw [c.inp_eq] at hread
  split at hread
  · cases hread
    exact ⟨c.valid_ofBytes _, c.toNat_size⟩
  · cases hread

/-- **Such a codec is inverse and length-exact.** -/
theorem exactCodec : ExactCodec size valid out inp where
  out_ok := c.out_ok_iff
  out_dest m mem nLen := by
    rw [c.out_eq]
    obtain ⟨mem', hdest, hframe⟩ := outRecord_frame (c.fieldsFit m)
    exact ⟨mem', hdest, fun i hi => hframe i (by rw [c.width m]; exact hi)⟩
  out_nLen m mem nLen := by
    rw [c.out_eq, outRecord_nLen (c.fieldsFit m) (c.fields_ne_nil m), c.width m]
    split
    · exact c.toNat_size
    · rfl
  in_out _ _ _ hm hok _ hle hmax := ⟨_, c.inp_of_ok hm hok hle hmax, c.toNat_size⟩
  out_in _ _ _ _ hread :=
    ⟨(c.of_inp hread).1, (c.of_inp hread).2, fun _ _ hok => c.dest_of_inp hread hok⟩

end RecordCodec

/-- The header. -/
def NetMessageHead.codec (h : Host) : RecordCodec h netHeadSize (fun _ => True)
    (NetMessageHead.outAt h) (NetMessageHead.inAt h) where
  fields := NetMessageHead.fields
  ofBytes := NetMessageHead.ofBytes
  fieldsFit := NetMessageHead.fieldsFit
  width _ := rfl
  size_pos := by decide
  size_lt := by decide
  out_eq _ _ _ := rfl
  inp_eq _ _ := NetMessageHead.inAt_eq
  ofBytes_encode m _ := m.ofBytes_encode
  valid_ofBytes _ := trivial
  encode_ofBytes _ := NetMessageHead.encode_ofBytes

/-- The two notifications. -/
def ServerMessage.codec (h : Host) : RecordCodec h 12 (fun m => int32 m.nServer = m.nServer)
    (ServerMessage.outAt h) (ServerMessage.inAt h) where
  fields := ServerMessage.fields
  ofBytes := ServerMessage.ofBytes
  fieldsFit := ServerMessage.fieldsFit
  width _ := rfl
  size_pos := by decide
  size_lt := by decide
  out_eq m _ _ := m.outAt_eq
  inp_eq _ _ := ServerMessage.inAt_eq
  ofBytes_encode m hint := m.ofBytes_encode hint
  valid_ofBytes := ServerMessage.int32_ofBytes
  encode_ofBytes _ := ServerMessage.encode_ofBytes

/-- **The message codecs are inverse and length-exact**: the header, in
eight bytes, and the two notifications, in twelve, for every value of their
fields. -/
theorem messageCodecs_exact (h : Host) :
    ExactCodec netHeadSize (fun _ => True) (NetMessageHead.outAt h) (NetMessageHead.inAt h) ∧
      ExactCodec 12 (fun m => int32 m.nServer = m.nServer) (ServerMessage.outAt h)
        (ServerMessage.inAt h) :=
  ⟨(NetMessageHead.codec h).exactCodec, (ServerMessage.codec h).exactCodec⟩

end Protocol

end EupuServer
