import EupuServer.Common.Memory
import EupuServer.Protocol.Stream
/-!
# The templates of the value codec

`OutputValue` and `InputValue` at the integer types they are instantiated
with, at a buffer in memory. A type is its width and whether it is signed; a
value of it carries that it is in range, and a conversion is to the value of
the type that is congruent. What goes over the wire is the bit pattern of
the value, most significant byte first (`outputValueAt_eq`), and either
machine reads the value back from it (`inputValueAt_eq`).
-/

namespace EupuServer

namespace Protocol

open Bytes

/-! ## Integer types -/

/-- **An integer type** the templates know. -/
structure IntType where
  size : ℕ
  signed : Bool
  size_eq : size = 1 ∨ size = 2 ∨ size = 4 ∨ size = 8
  deriving DecidableEq, Repr

namespace IntType

variable (T : IntType)

/-- How many values it has. -/
def card : ℤ := 256 ^ T.size

/-- Its least value. -/
def least : ℤ := if T.signed then -(T.card / 2) else 0

/-- **A value of the type**, in its range. -/
@[ext]
structure Value where
  val : ℤ
  least_le : T.least ≤ val
  lt_greatest : val < T.least + T.card
  deriving DecidableEq, Repr

variable {T}

theorem card_pos (T : IntType) : 0 < T.card := Int.pow_pos (by decide)

/-- The conversion `(T)x`: the value that is congruent to `x`. -/
def convert (T : IntType) (x : ℤ) : T.Value where
  val := (x - T.least) % T.card + T.least
  least_le := by
    have := Int.emod_nonneg (x - T.least) T.card_pos.ne'
    omega
  lt_greatest := by
    have := Int.emod_lt_of_pos (x - T.least) T.card_pos
    omega

/-- The conversion to an unsigned integer of `n` bytes. -/
def unsigned (n : ℕ) (x : ℤ) : ℕ := (x % 256 ^ n).toNat

/-- The bit pattern of a value in memory: its own where it is not negative,
and its two's complement. -/
def Value.bits (v : T.Value) : ℕ := unsigned T.size v.val

theorem Value.cast_bits (v : T.Value) : (v.bits : ℤ) = v.val % T.card :=
  Int.toNat_of_nonneg (Int.emod_nonneg _ T.card_pos.ne')

theorem Value.bits_lt (v : T.Value) : v.bits < 256 ^ T.size := by
  have hlt : (v.bits : ℤ) < T.card := v.cast_bits ▸ Int.emod_lt_of_pos _ T.card_pos
  unfold card at hlt
  exact_mod_cast hlt

/-- **The bit pattern determines the value.** -/
theorem convert_bits (v : T.Value) : T.convert v.bits = v := by
  have hcong : ((v.bits : ℤ) - T.least) % T.card = v.val - T.least := by
    rw [v.cast_bits, Int.emod_sub_emod]
    exact Int.emod_eq_of_lt (by have := v.least_le; omega) (by have := v.lt_greatest; omega)
  refine Value.ext ?_
  show ((v.bits : ℤ) - T.least) % T.card + T.least = v.val
  rw [hcong]
  omega

end IntType

open IntType

variable (h : Host) {T : IntType} {mem : ℕ → UInt8} {buflen : ℤ}

/-- `OutputValue`: what it returns, and the memory it leaves at `buf`. -/
def outputValueAt (T : IntType) (mem : ℕ → UInt8) (buflen : ℤ) (value : T.Value) :
    ℤ × (ℕ → UInt8) :=
  let nLen : ℤ := T.size
  if nLen > buflen then (-1, mem)
  else if nLen = 1 then (nLen, writeAt mem 0 (h.store T.size value.bits))
  else if nLen = 2 then
    let tmp := h.hton 2 (unsigned 2 value.val)
    (nLen, writeAt mem 0 (h.store 2 tmp))
  else if nLen = 4 then
    let tmp := h.hton 4 (unsigned 4 value.val)
    (nLen, writeAt mem 0 (h.store 4 tmp))
  else if nLen = 8 then
    if h.isBigEndian then (nLen, writeAt mem 0 (h.store T.size value.bits))
    else
      let tmp := h.hl64ton (unsigned 8 value.val)
      (nLen, writeAt mem 0 (h.store 8 tmp))
  else (-1, mem)

/-- `InputValue`: what it returns, and what is then in `value`. Bytes that
are copied over a value leave the one with their bit pattern. -/
def inputValueAt (T : IntType) (mem : ℕ → UInt8) (buflen : ℤ) (value : T.Value) : ℤ × T.Value :=
  let nLen : ℤ := T.size
  if nLen > buflen then (-1, value)
  else if nLen = 1 then (nLen, T.convert (h.load (bytesAt mem 0 T.size)))
  else if nLen = 2 then
    let tmp := h.load (bytesAt mem 0 2)
    (nLen, T.convert (h.hton 2 tmp))
  else if nLen = 4 then
    let tmp := h.load (bytesAt mem 0 4)
    (nLen, T.convert (h.hton 4 tmp))
  else if nLen = 8 then
    if h.isBigEndian then (nLen, T.convert (h.load (bytesAt mem 0 T.size)))
    else
      let tmp := h.load (bytesAt mem 0 8)
      (nLen, T.convert (h.hl64ton tmp))
  else (-1, value)

/-- `is_big_endian` looks at the first byte of `0x01020304` in memory. -/
theorem isBigEndian_eq : h.isBigEndian = ((h.store 4 0x01020304).head? == some 0x01) := by
  cases h <;> decide

/-! ## The templates and the codec of bit patterns -/

/-- **`OutputValue` writes what the codec makes of the bit pattern.** -/
theorem outputValueAt_refines (value : T.Value) :
    outputValueAt h T mem buflen value = match outputValue h T.size buflen value.bits with
      | some bs => ((T.size : ℤ), writeAt mem 0 bs)
      | none => (-1, mem) := by
  obtain ⟨size, signed, hsize⟩ := T
  unfold outputValueAt outputValue
  by_cases hroom : (size : ℤ) > buflen
  · simp only [if_pos hroom]
  · simp only [if_neg hroom]
    rcases hsize with rfl | rfl | rfl | rfl
    · rfl
    · rfl
    · rfl
    · cases h <;> rfl

/-- **`InputValue` converts the bit pattern the codec reads.** -/
theorem inputValueAt_refines (value : T.Value) :
    inputValueAt h T mem buflen value = match inputValue h T.size (bytesAt mem 0 T.size) buflen with
      | some u => ((T.size : ℤ), T.convert u)
      | none => (-1, value) := by
  obtain ⟨size, signed, hsize⟩ := T
  have hall : (bytesAt mem 0 size).take size = bytesAt mem 0 size :=
    List.take_of_length_le (length_bytesAt ..).le
  unfold inputValueAt inputValue
  rw [hall]
  by_cases hroom : (size : ℤ) > buflen
  · simp only [if_pos hroom]
  · simp only [if_neg hroom]
    rcases hsize with rfl | rfl | rfl | rfl
    · rfl
    · rfl
    · rfl
    · cases h <;> rfl

/-! ## One wire format -/

/-- The bytes of a value on the wire, most significant first. -/
def IntType.Value.wire (v : T.Value) : List UInt8 := toBE T.size v.bits

theorem outputValueAt_eq (hroom : (T.size : ℤ) ≤ buflen) (v : T.Value) :
    outputValueAt h T mem buflen v = ((T.size : ℤ), writeAt mem 0 v.wire) := by
  rw [outputValueAt_refines, outputValue_eq h T.size_eq v.bits_lt, if_neg (not_lt.mpr hroom)]
  rfl

theorem inputValueAt_eq (hroom : (T.size : ℤ) ≤ buflen) {v : T.Value}
    (hmem : bytesAt mem 0 T.size = v.wire) (old : T.Value) :
    inputValueAt h T mem buflen old = ((T.size : ℤ), v) := by
  have hread : ofBE ((bytesAt mem 0 T.size).take T.size) = v.bits := by
    rw [List.take_of_length_le (length_bytesAt ..).le, hmem, Value.wire, ofBE_toBE v.bits_lt]
  rw [inputValueAt_refines, inputValue_eq h T.size_eq (length_bytesAt ..).ge,
    if_neg (not_lt.mpr hroom), hread]
  exact congrArg (((T.size : ℤ), ·)) (convert_bits v)

/-- **A buffer that is too short is left alone**, and so is the value. -/
theorem valueAt_of_short (hshort : buflen < (T.size : ℤ)) (v : T.Value) :
    outputValueAt h T mem buflen v = (-1, mem) ∧ inputValueAt h T mem buflen v = (-1, v) := by
  unfold outputValueAt inputValueAt
  simp only [if_pos (gt_iff_lt.mpr hshort), and_self]

/-- **The value codec is big-endian and invertible on every host.** Whatever
machine `h` writes, it writes exactly the big-endian bytes of the value, and
whatever machine `h'` reads them gets the value; without the room neither
does anything. -/
theorem value_codec (h h' : Host) (T : IntType) (v old : T.Value) (mem : ℕ → UInt8)
    (buflen buflen' : ℤ) :
    ((T.size : ℤ) ≤ buflen →
      outputValueAt h T mem buflen v = ((T.size : ℤ), writeAt mem 0 v.wire)) ∧
    ((T.size : ℤ) ≤ buflen' → bytesAt mem 0 T.size = v.wire →
      inputValueAt h' T mem buflen' old = ((T.size : ℤ), v)) ∧
    (buflen < (T.size : ℤ) → outputValueAt h T mem buflen v = (-1, mem)) ∧
    (buflen' < (T.size : ℤ) → inputValueAt h' T mem buflen' old = (-1, old)) :=
  ⟨fun hroom => outputValueAt_eq h hroom v, fun hroom hmem => inputValueAt_eq h' hroom hmem old,
    fun hshort => (valueAt_of_short h hshort v).1,
    fun hshort => (valueAt_of_short h' hshort old).2⟩

end Protocol

end EupuServer
