import EupuServer.Protocol.Stream
import EupuServer.Common.Memory
/-!
# The string codec

`OutputString` puts a string into a buffer: four bytes that spell its
length, then its bytes. `InputString` copies it out again. The memory it
reads goes on behind the buffer, and the result says how far it was read
and what was stored. Both of its guards compare a number they first put
into a signed 32-bit integer, so they stop a length only where it is still
positive there (`inputString_inBounds_iff`). They are right about what
`OutputString` wrote (`outputString_inputString`).
-/

namespace EupuServer

namespace Protocol

open Bytes

/-- What a call of `InputString` returns, how many bytes from `buf` on it
read, what it stored from `szDst` on, and the length it leaves in
`dstbuflen`. -/
structure StringInput where
  ret : ℤ
  read : ℕ
  stored : List UInt8
  dstbuflen : ℤ

/-- What a call of `OutputString` returns, and what it stored from `buf`
on. -/
structure StringOutput where
  ret : ℤ
  stored : List UInt8

variable (h : Host) (buf : ℕ → UInt8) (buflen dstbuflen : ℤ)

/-- `OutputString`; `szSrc` is the memory at the string, its NUL in it. -/
def outputString (szSrc : List UInt8) : StringOutput :=
  let nStrLen := int32 (strlen szSrc)
  if int32 (sizeT (nStrLen + 4)) > buflen then { ret := -1, stored := [] }
  else
    let tmp := h.hton 4 (uint32 nStrLen)
    { ret := int32 (4 + nStrLen)
      stored := h.store 4 tmp ++ szSrc.take (sizeT nStrLen) }

/-- `InputString`. -/
def inputString : StringInput :=
  if 4 > buflen then
    { ret := -1, read := 0, stored := [], dstbuflen := dstbuflen }
  else
    let nStrLen := h.load (bytesAt buf 0 4)
    let tmp := h.hton 4 nStrLen
    if int32 (4 + tmp) > buflen then
      { ret := -1, read := 4, stored := [], dstbuflen := dstbuflen }
    else if int32 (uint32 (tmp + 1)) > dstbuflen then
      { ret := -2, read := 4, stored := [], dstbuflen := dstbuflen }
    else
      { ret := int32 (uint32 (4 + tmp))
        read := 4 + tmp
        stored := bytesAt buf 4 tmp ++ [0]
        dstbuflen := int32 (uint32 (tmp + 1)) }

/-- The number the first four bytes spell. -/
def lenPrefix : ℕ := ofBE (bytesAt buf 0 4)

/-- **The call stays in bounds.** It refuses and stores nothing, or it
stays inside the two buffers and returns the length of what it read. -/
def InBounds (res : StringInput) : Prop :=
  (res.ret < 0 ∧ res.stored = []) ∨
    ((res.read : ℤ) ≤ buflen ∧ (res.stored.length : ℤ) ≤ dstbuflen ∧ 4 ≤ res.ret ∧
      res.ret ≤ buflen)

variable {h buf buflen dstbuflen}

theorem lenPrefix_lt (buf : ℕ → UInt8) : lenPrefix buf < 2 ^ 32 := by
  have hlt := ofBE_lt (bytesAt buf 0 4)
  rw [length_bytesAt] at hlt
  exact hlt

/-- `InputString`, by the number the prefix spells. -/
theorem inputString_eq (h : Host) (hbuf : 4 ≤ buflen) : inputString h buf buflen dstbuflen =
    if int32 (4 + lenPrefix buf) > buflen then
      { ret := -1, read := 4, stored := [], dstbuflen := dstbuflen }
    else if int32 (uint32 (lenPrefix buf + 1)) > dstbuflen then
      { ret := -2, read := 4, stored := [], dstbuflen := dstbuflen }
    else
      { ret := int32 (uint32 (4 + lenPrefix buf))
        read := 4 + lenPrefix buf
        stored := bytesAt buf 4 (lenPrefix buf) ++ [0]
        dstbuflen := int32 (uint32 (lenPrefix buf + 1)) } := by
  have htmp : h.hton 4 (h.load (bytesAt buf 0 4)) = lenPrefix buf :=
    hton_load h (length_bytesAt buf 0 4)
  rw [inputString, if_neg (by omega)]
  simp only [htmp]

/-! ## Where the guards hold -/

/-- A length below `2 ^ 31 - 4` is guarded. -/
theorem inBounds_of_short (hshort : lenPrefix buf + 4 < 2 ^ 31) :
    InBounds buflen dstbuflen (inputString h buf buflen dstbuflen) := by
  rcases Int.lt_or_le buflen 4 with hlt | hbuf
  · rw [inputString, if_pos (by omega)]
    exact .inl ⟨by norm_num, rfl⟩
  have hall : int32 (4 + lenPrefix buf) = 4 + lenPrefix buf := int32_of_lt (by omega) (by omega)
  have hret : int32 (uint32 (4 + lenPrefix buf)) = 4 + lenPrefix buf := by
    rw [cast_uint32 (by omega) (by omega), hall]
  have hdst : int32 (uint32 (lenPrefix buf + 1)) = lenPrefix buf + 1 := by
    rw [cast_uint32 (by omega) (by omega), int32_of_lt (by omega) (by omega)]
  rw [inputString_eq h hbuf, hall, hdst, hret]
  split
  · exact .inl ⟨by norm_num, rfl⟩
  · split
    · exact .inl ⟨by norm_num, rfl⟩
    · rename_i hfirst hsecond
      refine .inr ⟨?_, ?_, ?_, ?_⟩ <;>
        simp only [List.length_append, length_bytesAt, List.length_singleton] <;> omega

/-- A longer one passes the first guard, -/
theorem int32_le_of_long (hlong : 2 ^ 31 ≤ lenPrefix buf + 4) (hbuf : 4 ≤ buflen) :
    int32 (4 + lenPrefix buf) ≤ buflen := by
  have hlt := lenPrefix_lt buf
  rw [int32_of_ge (by omega) (by omega)]
  omega

/-- and leads out of the buffer where it also passes the second. -/
theorem not_inBounds_of_long (hbuf : 4 ≤ buflen) (hbuf' : buflen < 2 ^ 31)
    (hlong : 2 ^ 31 ≤ lenPrefix buf + 4)
    (hpass : int32 (uint32 (lenPrefix buf + 1)) ≤ dstbuflen) :
    ¬ InBounds buflen dstbuflen (inputString h buf buflen dstbuflen) := by
  have hfirst := int32_le_of_long hlong hbuf
  rw [inputString_eq h hbuf, if_neg (by omega), if_neg (by omega)]
  rintro (⟨-, hstored⟩ | ⟨hread, -, -, -⟩)
  · exact absurd hstored (by simp)
  · simp only at hread
    omega

/-- **When `InputString` stays in bounds**: exactly where the length is
below `2 ^ 31 - 4`, where the buffer does not even hold it, and where it is
one of the three lengths from there on whose successor is still positive
and the destination is too short for it. -/
theorem inputString_inBounds_iff (h : Host) (buf : ℕ → UInt8)
    (hbuf : buflen < 2 ^ 31) (hdst : 0 ≤ dstbuflen) (hdst' : dstbuflen < 2 ^ 31) :
    InBounds buflen dstbuflen (inputString h buf buflen dstbuflen) ↔
      buflen < 4 ∨ lenPrefix buf + 4 < 2 ^ 31 ∨
        (lenPrefix buf + 1 < 2 ^ 31 ∧ dstbuflen < lenPrefix buf + 1) := by
  have hlt := lenPrefix_lt buf
  constructor
  · intro hin
    by_contra hnot
    push Not at hnot
    obtain ⟨hlen, hlong, hsecond⟩ := hnot
    refine not_inBounds_of_long hlen hbuf hlong ?_ hin
    rcases Nat.lt_or_ge (lenPrefix buf + 1) (2 ^ 31) with hpos | hneg
    · rw [cast_uint32 (by omega) (by omega), int32_of_lt (by omega) (by omega)]
      exact hsecond hpos
    · rcases Nat.lt_or_ge (lenPrefix buf + 1) (2 ^ 32) with hfit | hwrap
      · rw [cast_uint32 (by omega) (by omega), int32_of_ge (by omega) (by omega)]
        omega
      -- the successor of the largest length is zero
      · have hzero : uint32 (lenPrefix buf + 1) = 0 := by
          have heq : lenPrefix buf = 2 ^ 32 - 1 := by omega
          rw [heq]
          rfl
        rw [hzero]
        exact hdst
  · rintro (hlen | hshort | ⟨hpos, hsecond⟩)
    · rw [inputString, if_pos (by omega)]
      exact .inl ⟨by norm_num, rfl⟩
    · exact inBounds_of_short hshort
    · rcases Nat.lt_or_ge (lenPrefix buf + 4) (2 ^ 31) with hshort | hlong
      · exact inBounds_of_short hshort
      rcases Int.lt_or_le buflen 4 with hlen | hlen
      · rw [inputString, if_pos (by omega)]
        exact .inl ⟨by norm_num, rfl⟩
      have hval : int32 (uint32 (lenPrefix buf + 1)) = lenPrefix buf + 1 := by
        rw [cast_uint32 (by omega) (by omega), int32_of_lt (by omega) (by omega)]
      have hfirst := int32_le_of_long hlong hlen
      rw [inputString_eq h hlen, if_neg (by omega), if_pos (by omega)]
      exact .inl ⟨by norm_num, rfl⟩

/-- A buffer of zeros behind the four bytes of a prefix. -/
def prefixed (bs : List UInt8) : ℕ → UInt8 := fun i => bs.getD i 0

/-- `2 ^ 31 - 3` passes the first test and fails the second, `2 ^ 31` passes
both. -/
theorem inputString_inBounds_iff_prefix :
    InBounds 16 16 (inputString .little (prefixed [127, 255, 255, 253]) 16 16) ∧
      ¬ InBounds 16 16 (inputString .little (prefixed [128, 0, 0, 0]) 16 16) := by
  refine ⟨?_, fun hin => ?_⟩
  · exact (inputString_inBounds_iff .little _ (by omega) (by omega) (by omega)).mpr (by decide)
  · have hcase := (inputString_inBounds_iff .little _ (by omega) (by omega) (by omega)).mp hin
    exact absurd hcase (by decide)

/-- **Four bytes of `0xff` lead out of every buffer.** -/
theorem inputString_out_of_bounds :
    ¬ ∀ (h : Host) (buf : ℕ → UInt8) (buflen dstbuflen : ℤ), 0 ≤ buflen → buflen < 2 ^ 31 →
      0 ≤ dstbuflen → dstbuflen < 2 ^ 31 →
        InBounds buflen dstbuflen (inputString h buf buflen dstbuflen) := by
  intro hall
  have hlen255 : lenPrefix (fun _ => 255) = 2 ^ 32 - 1 := by decide
  refine not_inBounds_of_long (by omega) (by omega) (by rw [hlen255]; omega) ?_
    (hall .little (fun _ => 255) 4 1 (by omega) (by omega) (by omega) (by omega))
  rw [hlen255]
  decide

/-! ## The round trip -/

variable {s : List UInt8}

/-- **What `OutputString` does** with a string whose record is none too
long for its arithmetic. -/
theorem outputString_eq (h : Host) (buflen : ℤ) (hs : (0 : UInt8) ∉ s)
    (hlen : 4 + s.length < 2 ^ 31) : outputString h buflen (s ++ [0]) =
      if (4 + s.length : ℤ) > buflen then { ret := -1, stored := [] }
      else { ret := 4 + s.length, stored := toBE 4 s.length ++ s } := by
  have hstr : int32 (strlen (s ++ [0])) = s.length := by
    rw [strlen_append_nul hs]
    exact int32_of_lt (by omega) (by omega)
  have hsize : sizeT s.length = s.length := sizeT_natCast (by omega)
  have hroom : int32 (sizeT ((s.length : ℤ) + 4)) = 4 + s.length := by
    rw [show ((s.length : ℤ) + 4) = ((4 + s.length : ℕ) : ℤ) by push_cast; ring,
      sizeT_natCast (by omega)]
    exact int32_of_lt (by omega) (by omega)
  have hret : int32 (4 + (s.length : ℤ)) = 4 + s.length := int32_of_lt (by omega) (by omega)
  simp only [outputString, hstr, hsize, hroom, hret, uint32_of_lt (show s.length < 2 ^ 32 by omega),
    store_hton, List.take_left']

/-- A record at the front of the memory. -/
theorem front_record (hrec : bytesAt buf 0 (4 + s.length) = toBE 4 s.length ++ s)
    (hlen : s.length < 2 ^ 32) : lenPrefix buf = s.length ∧ bytesAt buf 4 s.length = s := by
  rw [bytesAt_add, Nat.zero_add] at hrec
  obtain ⟨hfour, hbytes⟩ := List.append_inj hrec (by rw [length_bytesAt, length_toBE])
  refine ⟨?_, hbytes⟩
  rw [lenPrefix, hfour]
  exact ofBE_toBE (by omega)

/-- **What `InputString` does with a record.** -/
theorem inputString_record (h : Host) (hlen : 4 + s.length < 2 ^ 31)
    (hrec : bytesAt buf 0 (4 + s.length) = toBE 4 s.length ++ s)
    (hbuf : (4 + s.length : ℤ) ≤ buflen) : inputString h buf buflen dstbuflen =
      if (s.length + 1 : ℤ) ≤ dstbuflen then
        { ret := 4 + s.length, read := 4 + s.length, stored := s ++ [0], dstbuflen := s.length + 1 }
      else { ret := -2, read := 4, stored := [], dstbuflen := dstbuflen } := by
  obtain ⟨hsize, hbytes⟩ := front_record hrec (by omega)
  have hall : int32 (4 + (s.length : ℤ)) = 4 + s.length := int32_of_lt (by omega) (by omega)
  have hret : int32 (uint32 (4 + (s.length : ℤ))) = 4 + s.length := by
    rw [cast_uint32 (by omega) (by omega), hall]
  have hdst : int32 (uint32 ((s.length : ℤ) + 1)) = s.length + 1 := by
    rw [cast_uint32 (by omega) (by omega), int32_of_lt (by omega) (by omega)]
  rw [inputString_eq h (by omega), hsize, hall, hret, hdst, hbytes, if_neg (by omega)]
  by_cases hfit : (s.length + 1 : ℤ) ≤ dstbuflen
  · rw [if_neg (by omega), if_pos hfit]
  · rw [if_pos (by omega), if_neg hfit]

/-- **A string goes out and comes in again**, between any two machines:
`OutputString` fails exactly where the record does not fit, and
`InputString` gives the string back from a buffer that begins with its
record, or refuses it and changes nothing where the destination is too
short for the string and its NUL. -/
theorem outputString_inputString (h h' : Host) (hs : (0 : UInt8) ∉ s)
    (hlen : 4 + s.length < 2 ^ 31 - 1) :
    (∀ buflen : ℤ,
      ((outputString h buflen (s ++ [0])).ret = -1 ↔ (4 + s.length : ℤ) > buflen) ∧
      ((4 + s.length : ℤ) ≤ buflen →
        (outputString h buflen (s ++ [0])).ret = 4 + s.length ∧
          (outputString h buflen (s ++ [0])).stored.length = 4 + s.length)) ∧
    ∀ (outlen buflen dstbuflen : ℤ) (buf : ℕ → UInt8), (4 + s.length : ℤ) ≤ outlen →
      bytesAt buf 0 (4 + s.length) = (outputString h outlen (s ++ [0])).stored →
      (4 + s.length : ℤ) ≤ buflen → buflen ≤ 2 ^ 31 - 1 → 0 ≤ dstbuflen →
      inputString h' buf buflen dstbuflen =
        if (s.length + 1 : ℤ) ≤ dstbuflen then
          { ret := 4 + s.length, read := 4 + s.length, stored := s ++ [0],
            dstbuflen := s.length + 1 }
        else { ret := -2, read := 4, stored := [], dstbuflen := dstbuflen } := by
  constructor
  · intro buflen
    rw [outputString_eq h buflen hs (by omega)]
    by_cases hfit : (4 + s.length : ℤ) > buflen
    · rw [if_pos hfit]
      exact ⟨⟨fun _ => hfit, fun _ => rfl⟩, fun hle => absurd hle (by omega)⟩
    · rw [if_neg hfit]
      refine ⟨⟨fun hret => ?_, fun hgt => absurd hgt hfit⟩, fun _ => ⟨rfl, ?_⟩⟩
      · simp only at hret
        omega
      · rw [List.length_append, length_toBE]
  · intro outlen buflen dstbuflen buf hout hrec hbuf _ _
    rw [outputString_eq h outlen hs (by omega), if_neg (by omega)] at hrec
    exact inputString_record h' (by omega) hrec hbuf

/-- Two letters, from a little-endian machine to a big-endian one. -/
theorem outputString_inputString_two :
    inputString .big (fun i => [0, 0, 0, 2, 104, 105].getD i 0) 6 3 =
      { ret := 6, read := 6, stored := [104, 105, 0], dstbuflen := 3 } := by
  have hs : (0 : UInt8) ∉ [104, 105] := by decide
  have h := (outputString_inputString .little .big hs (by decide)).2 6 6 3
    (fun i => [0, 0, 0, 2, 104, 105].getD i 0) (by decide) (by decide) (by decide) (by decide)
    (by decide)
  exact h

end Protocol

end EupuServer
