import EupuServer.Common.Base64
import EupuServer.Common.Memory
/-!
# `Base64Decode`

The loop takes four characters at a time up to the size it is given, and
the padding is counted apart, from the back of the string. Of an encoding
both are right (`base64Decode_encode`). Of other text the last group may
lie behind the terminator, and the padding may be more than was written
(`safe_iff`).
-/

namespace EupuServer

namespace Utility

open Bytes Base64

/-- `base64_decode_map`. -/
def base64DecodeMap : List UInt8 :=
  [255, 255, 255, 255, 255, 255, 255, 255, 255, 255,
    255, 255, 255, 255, 255, 255, 255, 255, 255, 255,
    255, 255, 255, 255, 255, 255, 255, 255, 255, 255,
    255, 255, 255, 255, 255, 255, 255, 255, 255, 255,
    255, 255, 255, 62,  255, 255, 255, 63,  52,  53,
    54,  55,  56,  57,  58,  59,  60,  61,  255, 255,
    255, 0,   255, 255, 255, 0,   1,   2,   3,   4,
    5,   6,   7,   8,   9,   10,  11,  12,  13,  14,
    15,  16,  17,  18,  19,  20,  21,  22,  23,  24,
    25,  255, 255, 255, 255, 255, 255, 26,  27,  28,
    29,  30,  31,  32,  33,  34,  35,  36,  37,  38,
    39,  40,  41,  42,  43,  44,  45,  46,  47,  48,
    49,  50,  51,  255, 255, 255, 255, 255, 255, 255,
    255, 255, 255, 255, 255, 255, 255, 255, 255, 255,
    255, 255, 255, 255, 255, 255, 255, 255, 255, 255,
    255, 255, 255, 255, 255, 255, 255, 255, 255, 255,
    255, 255, 255, 255, 255, 255, 255, 255, 255, 255,
    255, 255, 255, 255, 255, 255, 255, 255, 255, 255,
    255, 255, 255, 255, 255, 255, 255, 255, 255, 255,
    255, 255, 255, 255, 255, 255, 255, 255, 255, 255,
    255, 255, 255, 255, 255, 255, 255, 255, 255, 255,
    255, 255, 255, 255, 255, 255, 255, 255, 255, 255,
    255, 255, 255, 255, 255, 255, 255, 255, 255, 255,
    255, 255, 255, 255, 255, 255, 255, 255, 255, 255,
    255, 255, 255, 255, 255, 255, 255, 255, 255, 255,
    255, 255, 255, 255, 255, 255]

/-- It has an entry for every byte. -/
theorem length_base64DecodeMap : base64DecodeMap.length = 256 := by decide +kernel

/-- `base64_decode_map[c]`. -/
def sixBits (c : UInt8) : UInt8 :=
  base64DecodeMap.get ⟨c.toNat, by rw [length_base64DecodeMap]; exact c.toNat_lt⟩

/-- The backward loop, from `i - 1` on: how many characters in front of `i`
are `'='` before one is not; `none` where one of them is outside. -/
def countFinal (szSrc : List UInt8) : ℕ → Option ℕ
  | 0 => some 0
  | i + 1 => do
    let c ← szSrc[i]?
    if c = 61 then return (← countFinal szSrc i) + 1 else return 0

/-- The three bytes written for four characters. -/
def decodeGroup (c₀ c₁ c₂ c₃ : UInt8) : List UInt8 :=
  [sixBits c₀ <<< 2 ||| sixBits c₁ >>> 4, sixBits c₁ <<< 4 ||| sixBits c₂ >>> 2,
    sixBits c₂ <<< 6 ||| sixBits c₃]

/-- The loop over the groups, from `i` on, where `count` bytes are counted
and `szDst` is what was written so far. It has no result where it reads
outside of `szSrc` or `i` overflows; then `count` and `j`, which are
smaller, do not. -/
def decodeLoop (szSrc : List UInt8) (srcSize : ℤ) (i : ℕ) (count : ℤ) (szDst : List UInt8) :
    Option (ℤ × List UInt8) :=
  if (i : ℤ) < srcSize then do
    let c₀ ← szSrc[i]?
    let c₁ ← szSrc[i + 1]?
    let c₂ ← szSrc[i + 2]?
    let c₃ ← szSrc[i + 3]?
    if i + 4 < 2 ^ 31 then
      decodeLoop szSrc srcSize (i + 4) (count + 3) (szDst ++ decodeGroup c₀ c₁ c₂ c₃)
    else none
  else some (count, szDst)
termination_by (srcSize - i).toNat

/-- `Base64Decode`, with what it writes to `szDst`; `none` where it reads
outside of `szSrc` or a number overflows. -/
def base64Decode (szSrc : List UInt8) (srcSize : ℤ) : Option (ℤ × List UInt8) := do
  let nLen := int32 (strlen szSrc)
  -- `nLen - 1`
  if nLen = -2 ^ 31 then none
  else do
    let nFinal ← countFinal szSrc nLen.toNat
    let (count, szDst) ← decodeLoop szSrc srcSize 0 0 []
    return (count - nFinal, szDst)

variable {szSrc szDst : List UInt8} {srcSize count : ℤ} {i g : ℕ}

/-- The backward loop counts the padding in front of `i`. -/
theorem countFinal_eq (hi : i ≤ szSrc.length) :
    countFinal szSrc i = some (trailing (szSrc.take i)) := by
  induction i with
  | zero => rfl
  | succ i ih =>
    have hlt : i < szSrc.length := hi
    rw [countFinal, List.getElem?_eq_getElem hlt, Option.bind_eq_bind, Option.bind_some,
      List.take_succ_eq_append_getElem hlt]
    by_cases hpad : szSrc[i] = 61
    · rw [if_pos hpad, ih hlt.le, hpad]
      exact congrArg some (trailing_append_pad (szSrc.take i)).symm
    · rw [if_neg hpad, trailing_append _ hpad]
      rfl

/-! ## The loop over the groups -/

theorem decodeLoop_of_ge (hsize : srcSize ≤ i) :
    decodeLoop szSrc srcSize i count szDst = some (count, szDst) := by
  rw [decodeLoop, if_neg (by omega)]

/-- A group that is all there is read, and `i` goes on. -/
theorem decodeLoop_read (hsize : (i : ℤ) < srcSize) (hread : i + 4 ≤ szSrc.length) :
    decodeLoop szSrc srcSize i count szDst =
      if i + 4 < 2 ^ 31 then
        decodeLoop szSrc srcSize (i + 4) (count + 3)
          (szDst ++ decodeGroup szSrc[i] szSrc[i + 1] szSrc[i + 2] szSrc[i + 3])
      else none := by
  rw [decodeLoop, if_pos hsize, List.getElem?_eq_getElem (by omega),
    List.getElem?_eq_getElem (by omega), List.getElem?_eq_getElem (by omega),
    List.getElem?_eq_getElem (by omega)]
  simp only [Option.bind_eq_bind, Option.bind_some]

/-- Inside the range it is decoded. -/
theorem decodeLoop_group (hsize : (i : ℤ) < srcSize) (hread : i + 4 ≤ szSrc.length)
    (hmax : i + 4 < 2 ^ 31) :
    decodeLoop szSrc srcSize i count szDst =
      decodeLoop szSrc srcSize (i + 4) (count + 3)
        (szDst ++ decodeGroup szSrc[i] szSrc[i + 1] szSrc[i + 2] szSrc[i + 3]) := by
  rw [decodeLoop_read hsize hread, if_pos hmax]

/-- A group that is not all there is not, and neither is one at the end of
the range. -/
theorem decodeLoop_outside (hsize : (i : ℤ) < srcSize)
    (hout : szSrc.length < i + 4 ∨ 2 ^ 31 ≤ i + 4) :
    decodeLoop szSrc srcSize i count szDst = none := by
  by_cases hread : i + 4 ≤ szSrc.length
  · rw [decodeLoop_read hsize hread, if_neg (by omega)]
  · have hlast : szSrc[i + 3]? = none := List.getElem?_eq_none (by omega)
    rw [decodeLoop, if_pos hsize]
    simp only [hlast, Option.bind_eq_bind, Option.bind_none, Option.bind_fun_none]

/-- **Groups that are there give three bytes each.** -/
theorem decodeLoop_inside (szSrc szDst : List UInt8) (count : ℤ) (hsize : srcSize ≤ i + 4 * g)
    (hgroups : 0 < g → (i + 4 * g : ℤ) < srcSize + 4)
    (hread : i + 4 * g ≤ szSrc.length) (hmax : i + 4 * g < 2 ^ 31) :
    ∃ out, out.length = 3 * g ∧
      decodeLoop szSrc srcSize i count szDst = some (count + 3 * g, szDst ++ out) := by
  induction g generalizing i count szDst with
  | zero =>
    refine ⟨[], rfl, ?_⟩
    rw [decodeLoop_of_ge (by omega), List.append_nil, Nat.cast_zero, mul_zero, add_zero]
  | succ g ih =>
    rw [decodeLoop_group (by omega) (by omega) (by omega)]
    obtain ⟨out, hlen, heq⟩ := ih (i := i + 4)
      (szDst ++ decodeGroup szSrc[i] szSrc[i + 1] szSrc[i + 2] szSrc[i + 3]) (count + 3)
      (by push_cast at *; omega) (by push_cast at *; omega) (by omega) (by omega)
    refine ⟨decodeGroup szSrc[i] szSrc[i + 1] szSrc[i + 2] szSrc[i + 3] ++ out, ?_, ?_⟩
    · rw [List.length_append, hlen, decodeGroup]
      simp only [List.length_cons, List.length_nil]
      omega
    · rw [heq, List.append_assoc]
      push_cast
      congr 2
      ring

/-- Where one of them is not, there is no result. -/
theorem decodeLoop_eq_none (szSrc szDst : List UInt8) (count : ℤ) (hsize : srcSize ≤ i + 4 * g)
    (hgroups : 0 < g → (i + 4 * g : ℤ) < srcSize + 4) (hi : i ≤ szSrc.length) (hi' : i < 2 ^ 31)
    (hout : szSrc.length < i + 4 * g ∨ 2 ^ 31 ≤ i + 4 * g) :
    decodeLoop szSrc srcSize i count szDst = none := by
  induction g generalizing i count szDst with
  | zero => omega
  | succ g ih =>
    by_cases hfirst : szSrc.length < i + 4 ∨ 2 ^ 31 ≤ i + 4
    · exact decodeLoop_outside (by omega) hfirst
    · rw [decodeLoop_group (by omega) (by omega) (by omega)]
      exact ih _ _ (by push_cast at *; omega) (by push_cast at *; omega) (by omega) (by omega)
        (by omega)

/-! ## Encodings -/

/-- The table reads a digit back. -/
theorem sixBits_digit {v : ℕ} (hv : v < 64) : sixBits (digit v) = UInt8.ofNat v := by
  have hall : ∀ w : Fin 64, sixBits (digit w) = UInt8.ofNat w := by decide +kernel
  exact hall ⟨v, hv⟩

/-- It reads padding as zero. -/
theorem sixBits_pad : sixBits pad = sixBits (digit 0) := by decide +kernel

/-- **The four digits of three bytes give the bytes.** -/
theorem decodeGroup_sextets (a b c : UInt8) :
    decodeGroup (digit (sextet a b c 0)) (digit (sextet a b c 1)) (digit (sextet a b c 2))
      (digit (sextet a b c 3)) = [a, b, c] := by
  obtain ⟨ha, hb, hc⟩ := bytes_of_sextets a b c
  rw [decodeGroup, sixBits_digit (sextet_lt a b c 0), sixBits_digit (sextet_lt a b c 1),
    sixBits_digit (sextet_lt a b c 2), sixBits_digit (sextet_lt a b c 3), ha, hb, hc]

/-- The digit of a group's missing bits is zero. -/
theorem sextet_eq_zero (a b : UInt8) :
    sextet a 0 0 2 = 0 ∧ sextet a 0 0 3 = 0 ∧ sextet a b 0 3 = 0 := by
  have hone : bits a 0 0 = (a.toNat * 256 + 0) * 256 + 0 := rfl
  have htwo : bits a b 0 = (a.toNat * 256 + b.toNat) * 256 + 0 := rfl
  refine ⟨?_, ?_, ?_⟩
  · change bits a 0 0 / 64 % 64 = 0
    omega
  · change bits a 0 0 / 1 % 64 = 0
    omega
  · change bits a b 0 / 1 % 64 = 0
    omega

/-- A group of two digits gives one byte. -/
theorem decodeGroup_one (a : UInt8) :
    decodeGroup (digit (sextet a 0 0 0)) (digit (sextet a 0 0 1)) pad pad = [a, 0, 0] := by
  obtain ⟨htwo, hthree, -⟩ := sextet_eq_zero a 0
  have hgroup := decodeGroup_sextets a 0 0
  rwa [htwo, hthree, decodeGroup, ← sixBits_pad] at hgroup

/-- A group of three digits gives two. -/
theorem decodeGroup_two (a b : UInt8) :
    decodeGroup (digit (sextet a b 0 0)) (digit (sextet a b 0 1)) (digit (sextet a b 0 2)) pad =
      [a, b, 0] := by
  obtain ⟨-, -, hthree⟩ := sextet_eq_zero a b
  have hgroup := decodeGroup_sextets a b 0
  rwa [hthree, decodeGroup, ← sixBits_pad] at hgroup

/-- The group behind `front`. -/
theorem decodeLoop_cons {front : List UInt8} (c₀ c₁ c₂ c₃ : UInt8) (rest : List UInt8)
    (hsize : (front.length : ℤ) < srcSize) (hmax : front.length + 4 < 2 ^ 31) :
    decodeLoop (front ++ ([c₀, c₁, c₂, c₃] ++ rest)) srcSize front.length count szDst =
      decodeLoop ((front ++ [c₀, c₁, c₂, c₃]) ++ rest) srcSize (front ++ [c₀, c₁, c₂, c₃]).length
        (count + 3) (szDst ++ decodeGroup c₀ c₁ c₂ c₃) := by
  rw [decodeLoop_group hsize (by simp) hmax]
  simp

/-- **The loop decodes an encoding**, and gives a zero for each padding. -/
theorem decodeLoop_encode (xs tail front szDst : List UInt8) (count : ℤ)
    (hsize : srcSize = front.length + (encode xs).length) (hmax : srcSize < 2 ^ 31) :
    decodeLoop (front ++ (encode xs ++ tail)) srcSize front.length count szDst =
      some (count + (3 * ((xs.length + 2) / 3) : ℕ),
        szDst ++ (xs ++ List.replicate (pads xs) 0)) := by
  induction xs using encode.induct generalizing front count szDst with
  | case1 =>
    rw [decodeLoop_of_ge (by rw [hsize]; exact le_of_eq (add_zero _))]
    exact congrArg some (Prod.ext (add_zero count).symm (List.append_nil szDst).symm)
  | case2 a =>
    have hlen : (encode [a]).length = 4 := rfl
    rw [encode, decodeLoop_cons _ _ _ _ tail (by omega) (by omega), decodeGroup_one,
      decodeLoop_of_ge (by rw [hsize, hlen, List.length_append]; rfl)]
    simp [pads]
  | case3 a b =>
    have hlen : (encode [a, b]).length = 4 := rfl
    rw [encode, decodeLoop_cons _ _ _ _ tail (by omega) (by omega), decodeGroup_two,
      decodeLoop_of_ge (by rw [hsize, hlen, List.length_append]; rfl)]
    simp [pads]
  | case4 a b c xs ih =>
    have hlen : (encode (a :: b :: c :: xs)).length = (encode xs).length + 4 := rfl
    have hpads : pads (a :: b :: c :: xs) = pads xs := by
      simp only [pads, List.length_cons]
      omega
    have hgroups : ((a :: b :: c :: xs).length + 2) / 3 = (xs.length + 2) / 3 + 1 := by
      simp only [List.length_cons]
      omega
    have hrest := ih
      (front ++ [digit (sextet a b c 0), digit (sextet a b c 1), digit (sextet a b c 2),
        digit (sextet a b c 3)]) (szDst ++ [a, b, c]) (count + 3)
      (by rw [hsize, hlen, List.length_append]; push_cast; simp; ring)
    have hsplit : encode (a :: b :: c :: xs) ++ tail =
        [digit (sextet a b c 0), digit (sextet a b c 1), digit (sextet a b c 2),
          digit (sextet a b c 3)] ++ (encode xs ++ tail) := rfl
    rw [hsplit, decodeLoop_cons _ _ _ _ (encode xs ++ tail) (by omega) (by omega),
      decodeGroup_sextets, hrest, hpads, hgroups, List.append_assoc szDst]
    push_cast
    congr 2
    ring

/-- **`Base64Decode` inverts the encoding.** Of the encoding of any bytes,
up to the longest string an `int32_t` counts, it returns how many there
are, and they are the first it has written. -/
theorem base64Decode_encode (xs tail : List UInt8) (hlen : (encode xs).length < 2 ^ 31) :
    ∃ szDst, base64Decode (encode xs ++ 0 :: tail) (encode xs).length =
        some ((xs.length : ℤ), szDst) ∧ szDst.take xs.length = xs := by
  refine ⟨xs ++ List.replicate (pads xs) 0, ?_, List.take_left' rfl⟩
  have hstrlen := strlen_append_nul (zero_notMem_encode xs) tail
  have hcount : countFinal (encode xs ++ 0 :: tail) (encode xs).length = some (pads xs) := by
    rw [countFinal_eq (by simp), List.take_left' rfl, trailing_encode]
  have hpads := length_add_pads xs
  have hloop : decodeLoop (encode xs ++ 0 :: tail) (encode xs).length 0 0 [] =
      some (((3 * ((xs.length + 2) / 3) : ℕ) : ℤ), xs ++ List.replicate (pads xs) 0) := by
    have hfront := decodeLoop_encode xs (0 :: tail) [] [] 0
      (by rw [List.length_nil, Nat.cast_zero, zero_add]) (by omega : ((encode xs).length : ℤ) < _)
    rwa [zero_add] at hfront
  have hreturn : ((3 * ((xs.length + 2) / 3) : ℕ) : ℤ) - (pads xs : ℕ) = xs.length := by omega
  rw [base64Decode, hstrlen, int32_of_lt (by omega) (by omega)]
  simp only [Int.toNat_natCast]
  rw [if_neg (by omega), hcount, Option.bind_eq_bind, Option.bind_some, hloop,
    Option.bind_eq_bind, Option.bind_some, hreturn]
  rfl

/-- The two bytes of `QUI=`. -/
theorem base64Decode_encode_two : ∃ szDst,
    base64Decode [81, 85, 73, 61, 0] 4 = some (2, szDst) ∧ szDst.take 2 = [65, 66] := by
  have hlen : (encode [65, 66]).length < 2 ^ 31 := by decide
  have heq : encode [65, 66] = [81, 85, 73, 61] := by decide
  obtain ⟨szDst, hdecode, htake⟩ := base64Decode_encode [65, 66] [] hlen
  rw [heq] at hdecode
  exact ⟨szDst, hdecode, htake⟩

/-! ## Other text -/

/-- **`Base64Decode` is safe on `s`**: given `s` and its terminator it reads
nothing else, and it returns a number of bytes that were written. -/
def Safe (s : List UInt8) : Prop :=
  ∃ count szDst, base64Decode (s ++ [0]) (int32 s.length) = some (count, szDst) ∧
    0 ≤ count ∧ count ≤ szDst.length

/-- The number an `int32_t` holds of the length of `s`; none below zero. -/
def counted (s : List UInt8) : ℕ := (int32 s.length).toNat

/-- The groups of four it takes to cover them. -/
def groups (s : List UInt8) : ℕ := (counted s + 3) / 4

/-- The two loops, of a string and its terminator. -/
theorem base64Decode_append_nul {s : List UInt8} (hs : (0 : UInt8) ∉ s)
    (hmin : int32 s.length ≠ -2 ^ 31) :
    base64Decode (s ++ [0]) (int32 s.length) =
      (decodeLoop (s ++ [0]) (int32 s.length) 0 0 []).map
        fun r : ℤ × List UInt8 => (r.1 - trailing (s.take (counted s)), r.2) := by
  have hle : counted s ≤ s.length := by
    have hint := int32_le (x := s.length) (Int.natCast_nonneg _)
    unfold counted
    omega
  have hcount : countFinal (s ++ [0]) (counted s) = some (trailing (s.take (counted s))) := by
    rw [countFinal_eq (by rw [List.length_append]; omega), List.take_append_of_le_length hle]
  rw [base64Decode, strlen_append_nul hs []]
  change (if _ then none else do
    let nFinal ← countFinal (s ++ [0]) (counted s)
    let (count, szDst) ← decodeLoop (s ++ [0]) (int32 s.length) 0 0 []
    return (count - nFinal, szDst)) = _
  rw [if_neg hmin, hcount, Option.bind_eq_bind, Option.bind_some]
  rcases decodeLoop (s ++ [0]) (int32 s.length) 0 0 [] with _ | ⟨count, szDst⟩
  · rfl
  · rfl

/-- **When `Base64Decode` is safe**: the groups end at the terminator or
before it and inside the range of `int32_t`, where the length of `s` is
not its least value, and the padding is no longer than what they give. -/
theorem safe_iff (s : List UInt8) (hs : (0 : UInt8) ∉ s) :
    Safe s ↔ int32 s.length ≠ -2 ^ 31 ∧ 4 * groups s ≤ s.length + 1 ∧ 4 * groups s < 2 ^ 31 ∧
      trailing (s.take (counted s)) ≤ 3 * groups s := by
  by_cases hmin : int32 s.length = -2 ^ 31
  -- `nLen - 1` overflows
  · refine iff_of_false ?_ fun h => h.1 hmin
    rintro ⟨count, szDst, hdecode, -⟩
    rw [base64Decode, strlen_append_nul hs [], if_pos hmin] at hdecode
    cases hdecode
  have hsize : int32 s.length ≤ (0 : ℕ) + 4 * groups s := by
    unfold groups counted
    omega
  have hgroups : 0 < groups s → ((0 : ℕ) + 4 * groups s : ℤ) < int32 s.length + 4 := by
    unfold groups counted
    omega
  have hlen : (s ++ [0]).length = s.length + 1 := List.length_append
  rw [Safe, base64Decode_append_nul hs hmin]
  by_cases hinside : 4 * groups s ≤ s.length + 1 ∧ 4 * groups s < 2 ^ 31
  · obtain ⟨out, hout, hloop⟩ := decodeLoop_inside (s ++ [0]) [] 0
      hsize hgroups (by omega) (by omega)
    rw [hloop]
    refine ⟨?_, fun ⟨_, _, _, hpad⟩ => ⟨_, _, rfl, ?_, ?_⟩⟩
    · rintro ⟨count, szDst, hdecode, hpos, -⟩
      rw [Option.map_some, Option.some.injEq, Prod.mk.injEq] at hdecode
      exact ⟨hmin, hinside.1, hinside.2, by omega⟩
    · omega
    · rw [List.nil_append, hout]
      omega
  -- a group is outside
  · have hloop := decodeLoop_eq_none (s ++ [0]) [] 0 hsize hgroups (Nat.zero_le _) (by norm_num)
      (by omega)
    rw [hloop]
    refine iff_of_false ?_ fun h => hinside ⟨h.2.1, h.2.2.1⟩
    rintro ⟨count, szDst, hdecode, -⟩
    cases hdecode

/-- `QUI`, without its padding: the terminator is the fourth character. -/
theorem safe_iff_three : Safe [81, 85, 73] := (safe_iff _ (by decide)).mpr (by decide)

/-- Of `A` the loop reads four characters. -/
theorem not_safe : ¬ ∀ s : List UInt8, (0 : UInt8) ∉ s → Safe s := by
  intro h
  obtain ⟨count, szDst, hdecode, -⟩ := h [65] (by decide)
  have hnone : base64Decode ([65] ++ [0]) (int32 ([65] : List UInt8).length) = none := by
    simp [base64Decode, strlen, int32, countFinal, decodeLoop]
  rw [hnone] at hdecode
  cases hdecode

/-- Of `====` it writes three bytes, and four are taken off. -/
example : base64Decode ([61, 61, 61, 61] ++ [0]) 4 = some (-1, [0, 0, 0]) := by
  simp [base64Decode, strlen, int32, countFinal, decodeLoop]
  decide +kernel

end Utility

end EupuServer
