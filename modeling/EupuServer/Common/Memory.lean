import EupuServer.Common.Bytes
/-!
# Copies between buffers

`memcpy` with the bounds of both buffers checked: a copy that reads or
writes outside of them has no result. A function written with it says by
returning something that all its copies were inside. A length is what
`size_t` holds of it, so a negative one is outside of every buffer. Where
a function is given a pointer and a length that need not be the buffer's,
the memory at the pointer has no end: it is a function of the offset, read
by `bytesAt` and written by `writeAt`.
-/

namespace EupuServer

namespace Bytes

variable {dst src : List UInt8} {doff soff n : ℕ}

/-- `strlen` of the string at the front of `s`. -/
def strlen (s : List UInt8) : ℕ := (s.takeWhile (· ≠ 0)).length

/-- What a `size_t` holds of `x`. -/
def sizeT (x : ℤ) : ℕ := (x % 2 ^ 64).toNat

/-- `memcpy(dst + doff, src + soff, n)`; `none` where it leaves a buffer. -/
def memcpy (dst : List UInt8) (doff : ℕ) (src : List UInt8) (soff n : ℕ) : Option (List UInt8) :=
  if doff + n ≤ dst.length ∧ soff + n ≤ src.length then
    some (blit dst doff ((src.drop soff).take n))
  else none

/-- `memset(dst, 0, n)`; `none` where it leaves the buffer. -/
def memset (dst : List UInt8) (n : ℕ) : Option (List UInt8) :=
  if n ≤ dst.length then some (blit dst 0 (List.replicate n 0)) else none

/-- The `n` bytes at `src + soff`; `none` where they are not all in the buffer. -/
def readAt (src : List UInt8) (soff n : ℕ) : Option (List UInt8) :=
  if soff + n ≤ src.length then some ((src.drop soff).take n) else none

/-- A string ends at its NUL, whatever follows it. -/
theorem strlen_append_nul (hs : (0 : UInt8) ∉ src) (tail : List UInt8) :
    strlen (src ++ 0 :: tail) = src.length := by
  have hall : ∀ b ∈ src, decide (b ≠ 0) = true := by
    intro b hb
    exact decide_eq_true fun hzero => hs (hzero ▸ hb)
  rw [strlen, List.takeWhile_append_of_pos hall, List.takeWhile_cons_of_neg (by simp),
    List.append_nil]

/-- A length that is none too large for a `size_t` is kept. -/
theorem sizeT_natCast (h : n < 2 ^ 64) : sizeT n = n := by
  unfold sizeT
  omega

/-- A copy inside both buffers is made. -/
theorem memcpy_eq (hdst : doff + n ≤ dst.length) (hsrc : soff + n ≤ src.length) :
    memcpy dst doff src soff n = some (blit dst doff ((src.drop soff).take n)) :=
  if_pos ⟨hdst, hsrc⟩

theorem memset_eq (h : n ≤ dst.length) :
    memset dst n = some (blit dst 0 (List.replicate n 0)) := if_pos h

theorem readAt_eq (h : soff + n ≤ src.length) : readAt src soff n = some ((src.drop soff).take n) :=
  if_pos h

/-- Copying nothing changes nothing. -/
theorem blit_nil (dst : List UInt8) (doff : ℕ) : blit dst doff [] = dst := by
  simp [blit]

/-- Two blocks copied one behind the other are one. -/
theorem blit_blit (bs cs : List UInt8) (h : doff ≤ dst.length) :
    blit (blit dst doff bs) (doff + bs.length) cs = blit dst doff (bs ++ cs) := by
  have hfront : (dst.take doff).length = doff := List.length_take_of_le h
  have hlen : (dst.take doff ++ bs).length = doff + bs.length := by
    rw [List.length_append, hfront]
  have hdrop : (dst.take doff ++ bs ++ dst.drop (doff + bs.length)).drop
      (doff + bs.length + cs.length) = dst.drop (doff + (bs.length + cs.length)) := by
    rw [List.drop_append, hlen, List.drop_eq_nil_of_le (by omega), List.nil_append, List.drop_drop]
    congr 1
    omega
  simp only [blit, List.length_append]
  rw [List.take_left' hlen, hdrop, List.append_assoc _ bs cs]

/-- A block copied in front of another: both are read from the front. -/
theorem take_blit_blit (dst bs cs : List UInt8) (h : bs.length + cs.length ≤ dst.length) :
    (blit (blit dst bs.length cs) 0 bs).take (bs.length + cs.length) = bs ++ cs := by
  have hfront : (dst.take bs.length).length = bs.length := List.length_take_of_le (by omega)
  simp only [blit, List.take_zero, List.nil_append, Nat.zero_add]
  rw [List.append_assoc (dst.take bs.length), List.drop_left' hfront, ← List.append_assoc,
    List.take_left' List.length_append]

/-! ## Memory at a pointer -/

/-- The bytes `mem[off..off + n)`. -/
def bytesAt (mem : ℕ → UInt8) (off n : ℕ) : List UInt8 := (List.range n).map fun i => mem (off + i)

/-- The memory once `bs` is written from `off` on. -/
def writeAt (mem : ℕ → UInt8) (off : ℕ) (bs : List UInt8) : ℕ → UInt8 :=
  fun i => if off ≤ i then (bs[i - off]?).getD (mem i) else mem i

variable {mem : ℕ → UInt8} {off i : ℕ} {bs cs : List UInt8}

@[simp] theorem length_bytesAt (mem : ℕ → UInt8) (off n : ℕ) : (bytesAt mem off n).length = n := by
  simp [bytesAt]

/-- Two pieces of memory one behind the other are one. -/
theorem bytesAt_add (mem : ℕ → UInt8) (off m n : ℕ) :
    bytesAt mem off (m + n) = bytesAt mem off m ++ bytesAt mem (off + m) n := by
  simp only [bytesAt, List.range_add, List.map_append, List.map_map, Function.comp_def,
    Nat.add_assoc]

theorem bytesAt_succ (mem : ℕ → UInt8) (off n : ℕ) :
    bytesAt mem off (n + 1) = mem off :: bytesAt mem (off + 1) n := by
  rw [Nat.add_comm, bytesAt_add]
  rfl

@[simp] theorem writeAt_nil (mem : ℕ → UInt8) (off : ℕ) : writeAt mem off [] = mem := by
  funext i
  simp [writeAt]

theorem take_bytesAt {n k : ℕ} (hk : k ≤ n) : (bytesAt mem off n).take k = bytesAt mem off k := by
  rw [show n = k + (n - k) by omega, bytesAt_add, List.take_left' (length_bytesAt ..)]

theorem drop_bytesAt {n k : ℕ} (hk : k ≤ n) :
    (bytesAt mem off n).drop k = bytesAt mem (off + k) (n - k) := by
  conv_lhs => rw [show n = k + (n - k) by omega, bytesAt_add]
  exact List.drop_left' (length_bytesAt ..)

/-- A write leaves what is behind it. -/
theorem writeAt_of_ge (hi : off + bs.length ≤ i) : writeAt mem off bs i = mem i := by
  rw [writeAt, if_pos (by omega), List.getElem?_eq_none (by omega), Option.getD_none]

/-- **What was written is what is read.** -/
theorem bytesAt_writeAt {n : ℕ} (mem : ℕ → UInt8) (off : ℕ) (hn : bs.length = n) :
    bytesAt (writeAt mem off bs) off n = bs := by
  subst hn
  refine List.ext_getElem (length_bytesAt ..) fun i hi hi' => ?_
  simp only [bytesAt, List.getElem_map, List.getElem_range, writeAt]
  rw [if_pos (by omega), Nat.add_sub_cancel_left, List.getElem?_eq_getElem hi', Option.getD_some]

/-- Two writes one behind the other are one. -/
theorem writeAt_writeAt (mem : ℕ → UInt8) (off : ℕ) (bs cs : List UInt8) :
    writeAt (writeAt mem off bs) (off + bs.length) cs = writeAt mem off (bs ++ cs) := by
  funext i
  simp only [writeAt]
  by_cases hfront : off ≤ i
  · rw [if_pos hfront, if_pos hfront]
    by_cases hback : off + bs.length ≤ i
    · rw [if_pos hback, List.getElem?_append_right (by omega),
        List.getElem?_eq_none (by omega : bs.length ≤ i - off), Option.getD_none]
      congr 2
      omega
    · rw [if_neg hback, List.getElem?_append_left (by omega)]
  · rw [if_neg hfront, if_neg (by omega), if_neg hfront]

end Bytes

end EupuServer
