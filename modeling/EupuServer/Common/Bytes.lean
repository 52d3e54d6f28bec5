import Mathlib.Data.Nat.Bitwise
import Mathlib.Data.Int.ModEq
import Mathlib.Data.List.Basic
import Mathlib.Tactic.Ring
/-!
# Byte strings and machine integers

The `n` low bytes of a number, in either byte order, and the number a
byte string spells. The two directions invert each other on numbers below
`256 ^ n` and on strings of length `n`. `blit` is the copy of a block
into a buffer, and `int32` what is left of a number that is put into a
signed 32-bit integer.
-/

namespace EupuServer

namespace Bytes

/-- The `n` low bytes of `v`, least significant first. -/
def toLE : ℕ → ℕ → List UInt8
  | 0, _ => []
  | n + 1, v => UInt8.ofNat v :: toLE n (v / 256)

/-- The number a byte string spells, least significant byte first. -/
def ofLE : List UInt8 → ℕ
  | [] => 0
  | b :: bs => b.toNat + 256 * ofLE bs

/-- The `n` low bytes of `v`, most significant first. -/
def toBE (n v : ℕ) : List UInt8 := (toLE n v).reverse

/-- The number a byte string spells, most significant byte first. -/
def ofBE (bs : List UInt8) : ℕ := ofLE bs.reverse

@[simp] theorem length_toLE (n v : ℕ) : (toLE n v).length = n := by
  induction n generalizing v with
  | zero => rfl
  | succ n ih => simp [toLE, ih]

@[simp] theorem length_toBE (n v : ℕ) : (toBE n v).length = n := by
  simp [toBE]

/-- Writing and reading back, least significant byte first. -/
theorem ofLE_toLE : ∀ (n v : ℕ), v < 256 ^ n → ofLE (toLE n v) = v := by
  intro n
  induction n with
  | zero => intro v hv; simp [toLE, ofLE] at hv ⊢; omega
  | succ n ih =>
    intro v hv
    have hq : v / 256 < 256 ^ n := by
      rw [Nat.div_lt_iff_lt_mul (by decide), ← pow_succ]
      exact hv
    have hb : (UInt8.ofNat v).toNat = v % 256 := by simp
    rw [toLE, ofLE, ih _ hq, hb]
    omega

/-- Reading and writing back, least significant byte first. -/
theorem toLE_ofLE (bs : List UInt8) : toLE bs.length (ofLE bs) = bs := by
  induction bs with
  | nil => rfl
  | cons b bs ih =>
    have hb := b.toNat_lt
    have hmod : (b.toNat + 256 * ofLE bs) % 256 = b.toNat := by omega
    have hdiv : (b.toNat + 256 * ofLE bs) / 256 = ofLE bs := by omega
    rw [List.length_cons, ofLE, toLE, hdiv, ih]
    congr 1
    apply UInt8.toNat_inj.mp
    rw [UInt8.toNat_ofNat', hmod]

/-- A string of `n` bytes spells a number below `256 ^ n`. -/
theorem ofLE_lt (bs : List UInt8) : ofLE bs < 256 ^ bs.length := by
  induction bs with
  | nil => simp [ofLE]
  | cons b bs ih =>
    have hb := b.toNat_lt
    rw [ofLE, List.length_cons, pow_succ]
    omega

theorem ofBE_toBE {n v : ℕ} (hv : v < 256 ^ n) : ofBE (toBE n v) = v := by
  rw [ofBE, toBE, List.reverse_reverse, ofLE_toLE n v hv]

theorem toBE_ofBE (bs : List UInt8) : toBE bs.length (ofBE bs) = bs := by
  have h := toLE_ofLE bs.reverse
  rw [List.length_reverse] at h
  rw [toBE, ofBE, h, List.reverse_reverse]

theorem ofBE_lt (bs : List UInt8) : ofBE bs < 256 ^ bs.length := by
  simpa [ofBE] using ofLE_lt bs.reverse

/-- The number the bytes spell in one order has them in the other. -/
theorem toLE_ofBE_toLE (n v : ℕ) : toLE n (ofBE (toLE n v)) = toBE n v := by
  have h := toLE_ofLE (toBE n v)
  rw [length_toBE] at h
  exact h

/-- The low `a` bytes come first. -/
theorem toLE_add (a b v : ℕ) : toLE (a + b) v = toLE a v ++ toLE b (v / 256 ^ a) := by
  induction a generalizing v with
  | zero => simp [toLE]
  | succ a ih =>
    rw [Nat.succ_add, toLE, toLE, ih, Nat.div_div_eq_div_mul, pow_succ, mul_comm 256,
      List.cons_append]

/-- Only the low `n` bytes are written. -/
theorem toLE_mod (n v : ℕ) : toLE n (v % 256 ^ n) = toLE n v := by
  induction n generalizing v with
  | zero => rfl
  | succ n ih =>
    have hpow : 256 ^ (n + 1) = 256 * 256 ^ n := by rw [pow_succ, mul_comm]
    have hdiv : v % 256 ^ (n + 1) / 256 = v / 256 % 256 ^ n := by
      rw [hpow, Nat.mod_mul_right_div_self]
    have hmod : v % 256 ^ (n + 1) % 256 = v % 256 := by
      rw [hpow, Nat.mod_mul_right_mod]
    rw [toLE, toLE, hdiv, ih]
    congr 1
    apply UInt8.toNat_inj.mp
    rw [UInt8.toNat_ofNat', UInt8.toNat_ofNat', hmod]

/-- The high bytes come first in the other order. -/
theorem toBE_add (a b v : ℕ) : toBE (a + b) v = toBE b (v / 256 ^ a) ++ toBE a v := by
  rw [toBE, toLE_add, List.reverse_append]
  rfl

theorem toBE_mod (n v : ℕ) : toBE n (v % 256 ^ n) = toBE n v := by
  rw [toBE, toLE_mod, toBE]

/-! ## Records of fixed-width fields

A field is its width and its value; a record is written field after
field, each most significant byte first. -/

/-- The bytes of a record. -/
def encodeFields (fs : List (ℕ × ℕ)) : List UInt8 := fs.flatMap fun f => toBE f.1 f.2

/-- The values a byte string holds of fields of the given widths. -/
def decodeFields : List ℕ → List UInt8 → List ℕ
  | [], _ => []
  | n :: ns, bs => ofBE (bs.take n) :: decodeFields ns (bs.drop n)

@[simp] theorem encodeFields_nil : encodeFields [] = [] := rfl

@[simp] theorem encodeFields_cons (f : ℕ × ℕ) (fs : List (ℕ × ℕ)) :
    encodeFields (f :: fs) = toBE f.1 f.2 ++ encodeFields fs := rfl

theorem length_encodeFields (fs : List (ℕ × ℕ)) :
    (encodeFields fs).length = (fs.map Prod.fst).sum := by
  induction fs with
  | nil => rfl
  | cons f fs ih => simp [ih]

/-- **Writing a record and reading it back**, whatever follows it. -/
theorem decodeFields_encodeFields {fs : List (ℕ × ℕ)} (hfs : ∀ f ∈ fs, f.2 < 256 ^ f.1)
    (tail : List UInt8) :
    decodeFields (fs.map Prod.fst) (encodeFields fs ++ tail) = fs.map Prod.snd := by
  induction fs with
  | nil => rfl
  | cons f fs ih =>
    have hf : f.2 < 256 ^ f.1 := hfs f (by simp)
    have htake : (toBE f.1 f.2 ++ encodeFields fs ++ tail).take f.1 = toBE f.1 f.2 := by
      rw [List.append_assoc, List.take_left' (length_toBE _ _)]
    have hdrop : (toBE f.1 f.2 ++ encodeFields fs ++ tail).drop f.1 = encodeFields fs ++ tail := by
      rw [List.append_assoc, List.drop_left' (length_toBE _ _)]
    rw [List.map_cons, List.map_cons, encodeFields_cons, decodeFields, htake, hdrop,
      ofBE_toBE hf, ih fun g hg => hfs g (by simp [hg])]

/-- A number read from `n` bytes fits them. -/
theorem ofBE_take_lt (bs : List UInt8) (n : ℕ) : ofBE (bs.take n) < 256 ^ n :=
  (ofBE_lt _).trans_le (Nat.pow_le_pow_right (by norm_num) (List.length_take_le ..))

/-- **Reading a record and writing it back**, where it is all there. -/
theorem encodeFields_decodeFields {ns : List ℕ} {bs : List UInt8} (hlen : ns.sum ≤ bs.length) :
    encodeFields (ns.zip (decodeFields ns bs)) = bs.take ns.sum := by
  induction ns generalizing bs with
  | nil => rfl
  | cons n ns ih =>
    rw [List.sum_cons] at hlen
    have hfirst : toBE n (ofBE (bs.take n)) = bs.take n := by
      have h := toBE_ofBE (bs.take n)
      rw [List.length_take, Nat.min_eq_left (by omega)] at h
      exact h
    have hrest : ns.sum ≤ (bs.drop n).length := by
      rw [List.length_drop]
      omega
    rw [decodeFields, List.zip_cons_cons, encodeFields_cons, ih hrest, hfirst, List.sum_cons,
      List.take_add]

/-! ## Copying a block -/

/-- `dst` with the block `src` copied over its bytes from `off` on. -/
def blit (dst : List UInt8) (off : ℕ) (src : List UInt8) : List UInt8 :=
  dst.take off ++ src ++ dst.drop (off + src.length)

/-- A copy inside the buffer keeps the buffer's length. -/
theorem length_blit {dst src : List UInt8} {off : ℕ} (h : off + src.length ≤ dst.length) :
    (blit dst off src).length = dst.length := by
  simp only [blit, List.length_append, List.length_take, List.length_drop]
  omega

/-- What was copied to the front is what is read from the front. -/
theorem take_blit_zero {dst src : List UInt8} {k : ℕ} (hk : k = src.length) :
    (blit dst 0 src).take k = src := by
  subst hk
  simp [blit]

/-! ## Machine integers -/

/-- What a signed 32-bit integer holds of `x`. -/
def int32 (x : ℤ) : ℤ := Int.bmod x (2 ^ 32)

/-- What an unsigned 32-bit integer holds of `x`. -/
def uint32 (x : ℤ) : ℕ := (x % 2 ^ 32).toNat

/-- A number in range is kept. -/
theorem int32_of_lt {x : ℤ} (h : -2 ^ 31 ≤ x) (h' : x < 2 ^ 31) : int32 x = x := by
  unfold int32
  rw [Int.bmod_eq_iff (by norm_num)]
  norm_num at h h' ⊢
  omega

/-- A number above the range comes out one turn lower. -/
theorem int32_of_ge {x : ℤ} (h : 2 ^ 31 ≤ x) (h' : x < 2 ^ 32 + 2 ^ 31) : int32 x = x - 2 ^ 32 := by
  unfold int32
  rw [Int.bmod_eq_iff (by norm_num)]
  norm_num at h h' ⊢
  omega

/-- No other number comes out higher. -/
theorem int32_le {x : ℤ} (h : 0 ≤ x) : int32 x ≤ x := by
  rw [int32, Int.bmod_def]
  norm_num
  split <;> omega

theorem uint32_of_lt {n : ℕ} (h : n < 2 ^ 32) : uint32 n = n := by
  unfold uint32
  omega

theorem cast_uint32 {x : ℤ} (h0 : 0 ≤ x) (h : x < 2 ^ 32) : (uint32 x : ℤ) = x := by
  unfold uint32
  omega

/-- The bit pattern of a signed number, read as one. -/
theorem int32_uint32 (x : ℤ) : int32 (uint32 x) = int32 x := by
  have hpos : (0 : ℤ) ≤ x % 2 ^ 32 := Int.emod_nonneg x (by norm_num)
  rw [int32, uint32, Int.toNat_of_nonneg hpos, int32]
  exact Int.emod_bmod ..

theorem int32_int32 (x : ℤ) : int32 (int32 x) = int32 x := Int.bmod_bmod ..

/-- A bit pattern, read as a signed number and stored again. -/
theorem uint32_int32 {n : ℕ} (h : n < 2 ^ 32) : uint32 (int32 n) = n := by
  have hmod : int32 n % 2 ^ 32 = n % 2 ^ 32 := Int.bmod_emod ..
  rw [uint32, hmod]
  omega

end Bytes

end EupuServer
