import Mathlib.Data.List.DropRight
import Mathlib.Data.Nat.Bitwise
import Mathlib.Tactic.NormNum
/-!
# Base64

The encoding of RFC 4648. Three bytes are a group of 24 bits, written as
four digits of six bits each; where the bytes end inside a group, the rest
of it is zero and the digits that hold none of their bits are written as
padding.
-/

namespace EupuServer

namespace Base64

/-- The digits: the capital letters, the small ones, the ten digits, `+`
and `/`. -/
def digit (v : ℕ) : UInt8 :=
  if v < 26 then UInt8.ofNat (65 + v)
  else if v < 52 then UInt8.ofNat (97 + (v - 26))
  else if v < 62 then UInt8.ofNat (48 + (v - 52))
  else if v = 62 then 43
  else 47

/-- The padding, `=`. -/
def pad : UInt8 := 61

/-- The 24 bits of three bytes. -/
def bits (a b c : UInt8) : ℕ := (a.toNat * 256 + b.toNat) * 256 + c.toNat

/-- The `i`-th of their four digits. -/
def sextet (a b c : UInt8) (i : ℕ) : ℕ := bits a b c / 64 ^ (3 - i) % 64

/-- The encoding of RFC 4648, with padding. -/
def encode : List UInt8 → List UInt8
  | [] => []
  | [a] => [digit (sextet a 0 0 0), digit (sextet a 0 0 1), pad, pad]
  | [a, b] => [digit (sextet a b 0 0), digit (sextet a b 0 1), digit (sextet a b 0 2), pad]
  | a :: b :: c :: xs =>
    digit (sextet a b c 0) :: digit (sextet a b c 1) :: digit (sextet a b c 2) ::
      digit (sextet a b c 3) :: encode xs

/-- How many digits are padding. -/
def pads (xs : List UInt8) : ℕ := (3 - xs.length % 3) % 3

/-- How many characters of padding `s` ends with. -/
def trailing (s : List UInt8) : ℕ := (s.rtakeWhile (· == pad)).length

variable {v : ℕ} {xs : List UInt8}

theorem sextet_lt (a b c : UInt8) (i : ℕ) : sextet a b c i < 64 := Nat.mod_lt _ (by norm_num)

/-- A digit is a character, and not the padding. -/
theorem digit_ne (hv : v < 64) : digit v ≠ 0 ∧ digit v ≠ pad := by
  have hall : ∀ w : Fin 64, digit w ≠ 0 ∧ digit w ≠ pad := by decide
  exact hall ⟨v, hv⟩

/-- The encoding and its padding fill whole groups. -/
theorem length_add_pads (xs : List UInt8) : xs.length + pads xs = 3 * ((xs.length + 2) / 3) := by
  unfold pads
  omega

/-- **The padding is at the end and nowhere else.** -/
theorem encode_eq_append (xs : List UInt8) :
    ∃ body, encode xs = body ++ List.replicate (pads xs) pad ∧ ∀ c ∈ body, c ≠ 0 ∧ c ≠ pad := by
  have hdigit : ∀ a b c i, digit (sextet a b c i) ≠ 0 ∧ digit (sextet a b c i) ≠ pad :=
    fun a b c i => digit_ne (sextet_lt a b c i)
  induction xs using encode.induct with
  | case1 => exact ⟨[], rfl, nofun⟩
  | case2 a => exact ⟨[digit (sextet a 0 0 0), digit (sextet a 0 0 1)], rfl, by simp [hdigit]⟩
  | case3 a b =>
    exact ⟨[digit (sextet a b 0 0), digit (sextet a b 0 1), digit (sextet a b 0 2)], rfl,
      by simp [hdigit]⟩
  | case4 a b c xs ih =>
    obtain ⟨body, heq, hbody⟩ := ih
    have hpads : pads (a :: b :: c :: xs) = pads xs := by
      simp only [pads, List.length_cons]
      omega
    refine ⟨digit (sextet a b c 0) :: digit (sextet a b c 1) :: digit (sextet a b c 2) ::
      digit (sextet a b c 3) :: body, ?_, ?_⟩
    · rw [encode, heq, hpads]
      rfl
    · simpa [hdigit] using hbody

/-- Padding at the end counts. -/
theorem trailing_append_pad (s : List UInt8) : trailing (s ++ [pad]) = trailing s + 1 := by
  rw [trailing, List.rtakeWhile_concat, if_pos (beq_self_eq_true pad), List.length_append]
  rfl

/-- Another character at the end does not. -/
theorem trailing_append {c : UInt8} (s : List UInt8) (hc : c ≠ pad) : trailing (s ++ [c]) = 0 := by
  have hneg : ¬ (c == pad) = true := fun hbeq => hc (beq_iff_eq.mp hbeq)
  rw [trailing, List.rtakeWhile_concat, if_neg hneg, List.length_nil]

/-- An encoding ends with its padding. -/
theorem trailing_encode (xs : List UInt8) : trailing (encode xs) = pads xs := by
  obtain ⟨body, heq, hbody⟩ := encode_eq_append xs
  have hnone : trailing body = 0 := by
    rcases List.eq_nil_or_concat' body with rfl | ⟨front, c, rfl⟩
    · rfl
    · exact trailing_append front (hbody c (by simp)).2
  have hrepeat : ∀ k, trailing (body ++ List.replicate k pad) = k := by
    intro k
    induction k with
    | zero => rw [List.replicate_zero, List.append_nil, hnone]
    | succ k ih => rw [List.replicate_succ', ← List.append_assoc, trailing_append_pad, ih]
  rw [heq, hrepeat]

/-- No character of an encoding is NUL. -/
theorem zero_notMem_encode (xs : List UInt8) : (0 : UInt8) ∉ encode xs := by
  obtain ⟨body, heq, hbody⟩ := encode_eq_append xs
  rw [heq, List.mem_append, List.mem_replicate]
  rintro (hmem | ⟨-, hpad⟩)
  · exact (hbody 0 hmem).1 rfl
  · exact absurd hpad (by decide)

/-! ## Bytes of digits -/

/-- Bits put in front of others are added. -/
theorem toNat_shiftLeft_or {x y k : UInt8} (hk : k.toNat < 8) (hy : y.toNat < 2 ^ k.toNat) :
    (x <<< k ||| y).toNat = x.toNat * 2 ^ k.toNat % 256 + y.toNat := by
  have hpow : 2 ^ k.toNat * 2 ^ (8 - k.toNat) = 256 := by
    rw [← pow_add, Nat.add_sub_cancel' hk.le]
    rfl
  have hshift : x.toNat * 2 ^ k.toNat % 256 = 2 ^ k.toNat * (x.toNat % 2 ^ (8 - k.toNat)) := by
    rw [Nat.mul_comm, ← hpow, Nat.mul_mod_mul_left]
  rw [UInt8.toNat_or, UInt8.toNat_shiftLeft, Nat.mod_eq_of_lt hk, Nat.shiftLeft_eq,
    show (2 : ℕ) ^ 8 = 256 from rfl, hshift, Nat.two_pow_add_eq_or_of_lt hy]

/-- **Three bytes are put together from their four digits.** -/
theorem bytes_of_sextets (a b c : UInt8) :
    UInt8.ofNat (sextet a b c 0) <<< 2 ||| UInt8.ofNat (sextet a b c 1) >>> 4 = a ∧
      UInt8.ofNat (sextet a b c 1) <<< 4 ||| UInt8.ofNat (sextet a b c 2) >>> 2 = b ∧
      UInt8.ofNat (sextet a b c 2) <<< 6 ||| UInt8.ofNat (sextet a b c 3) = c := by
  have ha := a.toNat_lt
  have hb := b.toNat_lt
  have hc := c.toNat_lt
  have hval : ∀ i, (UInt8.ofNat (sextet a b c i)).toNat = sextet a b c i := by
    intro i
    have hlt := sextet_lt a b c i
    rw [UInt8.toNat_ofNat', Nat.mod_eq_of_lt (by omega)]
  have hright : ∀ i (k : UInt8), k.toNat < 8 →
      (UInt8.ofNat (sextet a b c i) >>> k).toNat = sextet a b c i / 2 ^ k.toNat := by
    intro i k hk
    rw [UInt8.toNat_shiftRight, hval, Nat.mod_eq_of_lt hk, Nat.shiftRight_eq_div_pow]
  have h1 : (UInt8.ofNat (sextet a b c 1) >>> 4).toNat = sextet a b c 1 / 16 :=
    hright 1 4 (by decide)
  have h2 : (UInt8.ofNat (sextet a b c 2) >>> 2).toNat = sextet a b c 2 / 4 :=
    hright 2 2 (by decide)
  have hlt1 := sextet_lt a b c 1
  have hlt2 := sextet_lt a b c 2
  have hlt3 := sextet_lt a b c 3
  have hbound1 : sextet a b c 1 / 16 < 4 := by omega
  have hbound2 : sextet a b c 2 / 4 < 16 := by omega
  have hdigits : sextet a b c 0 = bits a b c / 262144 % 64 ∧
      sextet a b c 1 = bits a b c / 4096 % 64 ∧ sextet a b c 2 = bits a b c / 64 % 64 ∧
      sextet a b c 3 = bits a b c / 1 % 64 := ⟨rfl, rfl, rfl, rfl⟩
  have hbits : bits a b c = (a.toNat * 256 + b.toNat) * 256 + c.toNat := rfl
  refine ⟨UInt8.toNat_inj.mp ?_, UInt8.toNat_inj.mp ?_, UInt8.toNat_inj.mp ?_⟩
  · rw [toNat_shiftLeft_or (k := 2) (by decide) (h1 ▸ hbound1), hval, h1]
    change sextet a b c 0 * 4 % 256 + _ = _
    omega
  · rw [toNat_shiftLeft_or (k := 4) (by decide) (h2 ▸ hbound2), hval, h2]
    change sextet a b c 1 * 16 % 256 + _ = _
    omega
  · rw [toNat_shiftLeft_or (k := 6) (by decide) ((hval 3).symm ▸ hlt3), hval, hval]
    change sextet a b c 2 * 64 % 256 + _ = _
    omega

end Base64

end EupuServer
