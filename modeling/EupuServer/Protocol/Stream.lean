import EupuServer.Common.Bytes
/-!
# The value codec

`CEupuStream` writes integers to the wire and reads them back. An integer
is a number below `256 ^ n`, the bit pattern of the `n` bytes it takes in
memory, so the signed and the unsigned instances of the templates are one
definition. `Host` is the byte order of the machine, which the conversion
functions and the 64-bit branch depend on; what goes over the wire does
not (`outputValue_eq`, `inputValue_eq`).
-/

namespace EupuServer

namespace Protocol

open Bytes

/-- The byte order of the machine. -/
inductive Host
  | little
  | big
  deriving DecidableEq, Repr

namespace Host

variable (h : Host)

/-- The bytes an `n`-byte integer takes in memory. -/
def store (n v : ℕ) : List UInt8 :=
  match h with
  | .little => toLE n v
  | .big => toBE n v

/-- The integer that bytes in memory hold. -/
def load (bs : List UInt8) : ℕ :=
  match h with
  | .little => ofLE bs
  | .big => ofBE bs

/-- `htons` and `htonl`, and their inverses: the bytes are reversed where
the machine is not big-endian. -/
def hton (n v : ℕ) : ℕ :=
  match h with
  | .little => ofBE (toLE n v)
  | .big => v

/-- `is_big_endian`. -/
def isBigEndian : Bool :=
  match h with
  | .little => false
  | .big => true

/-- `hl64ton` and `ntohl64`: the two halves are converted and change
places. -/
def hl64ton (v : ℕ) : ℕ :=
  let low := h.hton 4 (v % 2 ^ 32)
  let high := h.hton 4 (v / 2 ^ 32 % 2 ^ 32)
  (low <<< 32 ||| high) % 2 ^ 64

end Host

variable (h : Host) {n v : ℕ} {buflen : ℤ} {bs : List UInt8}

/-- `OutputValue`: the bytes written at `buf`, whose number it returns;
`none` for the result `-1`. -/
def outputValue (n : ℕ) (buflen : ℤ) (v : ℕ) : Option (List UInt8) :=
  if (n : ℤ) > buflen then none
  else if n = 1 then some (h.store n v)
  else if n = 2 then some (h.store n (h.hton 2 v))
  else if n = 4 then some (h.store n (h.hton 4 v))
  else if n = 8 then
    if h.isBigEndian then some (h.store n v) else some (h.store n (h.hl64ton v))
  else none

/-- `InputValue`: the value read at `buf`; `none` for the result `-1`. -/
def inputValue (n : ℕ) (buf : List UInt8) (buflen : ℤ) : Option ℕ :=
  let tmp := h.load (buf.take n)
  if (n : ℤ) > buflen then none
  else if n = 1 then some tmp
  else if n = 2 then some (h.hton 2 tmp)
  else if n = 4 then some (h.hton 4 tmp)
  else if n = 8 then
    if h.isBigEndian then some tmp else some (h.hl64ton tmp)
  else none

/-! ## Either byte order writes the same bytes -/

/-- A converted integer is stored most significant byte first. -/
theorem store_hton : h.store n (h.hton n v) = toBE n v := by
  cases h with
  | little => exact toLE_ofBE_toLE n v
  | big => rfl

/-- Bytes read from memory and converted spell their number most
significant byte first. -/
theorem hton_load (hn : bs.length = n) : h.hton n (h.load bs) = ofBE bs := by
  cases h with
  | little =>
    subst hn
    show ofBE (toLE bs.length (ofLE bs)) = ofBE bs
    rw [toLE_ofLE]
  | big => rfl

/-- Conversion does not leave the range. -/
theorem hton_lt (hv : v < 256 ^ n) : h.hton n v < 256 ^ n := by
  cases h with
  | little =>
    have hlt := ofBE_lt (toLE n v)
    rw [length_toLE] at hlt
    exact hlt
  | big => exact hv

/-- `hl64ton` puts the converted low half in front of the converted high
half. -/
theorem hl64ton_eq (v : ℕ) : h.hl64ton v =
    h.hton 4 (v % 256 ^ 4) * 256 ^ 4 + h.hton 4 (v / 256 ^ 4 % 256 ^ 4) := by
  have hpow : (2 : ℕ) ^ 32 = 256 ^ 4 := by norm_num
  have hlow : h.hton 4 (v % 256 ^ 4) < 256 ^ 4 := hton_lt _ (Nat.mod_lt _ (by norm_num))
  have hhigh : h.hton 4 (v / 256 ^ 4 % 256 ^ 4) < 256 ^ 4 :=
    hton_lt _ (Nat.mod_lt _ (by norm_num))
  have hfit : h.hton 4 (v % 256 ^ 4) * 256 ^ 4 + h.hton 4 (v / 256 ^ 4 % 256 ^ 4) < 2 ^ 64 := by
    omega
  simp only [Host.hl64ton, hpow]
  rw [← Nat.shiftLeft_add_eq_or_of_lt (by rw [hpow]; exact hhigh), Nat.shiftLeft_eq, hpow,
    Nat.mod_eq_of_lt hfit]

/-- On a little-endian machine that is the reversal of all eight bytes. -/
theorem toLE_hl64ton (v : ℕ) : toLE 8 (Host.little.hl64ton v) = toBE 8 v := by
  have hlow : toLE 4 (Host.little.hton 4 (v % 256 ^ 4)) = toBE 4 v := by
    rw [Host.hton, toLE_ofBE_toLE, toBE_mod]
  have hhigh : toLE 4 (Host.little.hton 4 (v / 256 ^ 4 % 256 ^ 4)) = toBE 4 (v / 256 ^ 4) := by
    rw [Host.hton, toLE_ofBE_toLE, toBE_mod]
  have hlt : Host.little.hton 4 (v / 256 ^ 4 % 256 ^ 4) < 256 ^ 4 :=
    hton_lt _ (Nat.mod_lt _ (by norm_num))
  have hdiv : ∀ x y : ℕ, y < 256 ^ 4 → (x * 256 ^ 4 + y) / 256 ^ 4 = x := by
    intro x y hy
    omega
  have hmod : ∀ x y : ℕ, y < 256 ^ 4 → (x * 256 ^ 4 + y) % 256 ^ 4 = y := by
    intro x y hy
    omega
  rw [hl64ton_eq, toLE_add 4 4, hdiv _ _ hlt, hlow, ← toLE_mod 4, hmod _ _ hlt, hhigh,
    ← toBE_add]

/-- So it is what the reversed bytes spell. -/
theorem hl64ton_little (v : ℕ) : Host.little.hl64ton v = ofBE (toLE 8 v) := by
  have hlt : Host.little.hl64ton v < 256 ^ 8 := by
    have hlow : Host.little.hton 4 (v % 256 ^ 4) < 256 ^ 4 :=
      hton_lt _ (Nat.mod_lt _ (by norm_num))
    have hhigh : Host.little.hton 4 (v / 256 ^ 4 % 256 ^ 4) < 256 ^ 4 :=
      hton_lt _ (Nat.mod_lt _ (by norm_num))
    rw [hl64ton_eq]
    omega
  rw [← ofLE_toLE 8 _ hlt, toLE_hl64ton, ofBE, toBE]

/-- **`OutputValue` writes the value most significant byte first**, on
either machine. -/
theorem outputValue_eq (hn : n = 1 ∨ n = 2 ∨ n = 4 ∨ n = 8) (hv : v < 256 ^ n) :
    outputValue h n buflen v = if (n : ℤ) > buflen then none else some (toBE n v) := by
  unfold outputValue
  split
  · rfl
  · rcases hn with rfl | rfl | rfl | rfl
    · cases h <;> rfl
    · exact congrArg some (store_hton h)
    · exact congrArg some (store_hton h)
    · cases h with
      | little =>
        exact congrArg some (toLE_hl64ton v)
      | big => rfl

/-- **`InputValue` reads the value most significant byte first**, on
either machine. -/
theorem inputValue_eq (hn : n = 1 ∨ n = 2 ∨ n = 4 ∨ n = 8) (hlen : n ≤ bs.length) :
    inputValue h n bs buflen = if (n : ℤ) > buflen then none else some (ofBE (bs.take n)) := by
  have htake : (bs.take n).length = n := by rw [List.length_take]; omega
  unfold inputValue
  split
  · rfl
  · rcases hn with rfl | rfl | rfl | rfl
    · obtain ⟨b, hb⟩ := List.length_eq_one_iff.mp htake
      rw [hb]
      cases h <;> rfl
    · exact congrArg some (hton_load h htake)
    · exact congrArg some (hton_load h htake)
    · cases h with
      | little =>
        have hs : Host.little.hl64ton (ofLE (bs.take 8)) = ofBE (bs.take 8) := by
          rw [hl64ton_little]
          exact hton_load .little htake
        exact congrArg some hs
      | big => rfl

end Protocol

end EupuServer
