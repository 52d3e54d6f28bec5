import EupuServer.Common.Circular
import EupuServer.Common.Memory
import EupuServer.Common.Refinement
/-!
# The ring buffer

`RingBuffer` keeps a queue of bytes in an array one byte longer than its
capacity. `h` is where the queue begins and `r` where the next byte goes;
`get` takes `h` back to the front of the array as soon as it reaches the
end, `put` leaves `r` there. So a queue is held in more than one way, and
`Holds` fixes `r` only up to a whole turn.
-/

namespace EupuServer

namespace Utility

open Bytes

/-- `RingBuffer`. -/
structure RingBuffer where
  buf : List UInt8
  bufsize : UInt32
  h : UInt32
  r : UInt32
  deriving DecidableEq, Repr

namespace RingBuffer

/-- `init`. -/
def init (bfsz : UInt32) : RingBuffer where
  buf := List.replicate (bfsz + 1).toNat 0
  bufsize := bfsz + 1
  h := 0
  r := 0

variable (rb : RingBuffer)

/-- `getsize`. -/
def getsize : UInt32 := (rb.r + rb.bufsize - rb.h) % rb.bufsize

/-- `getfree`. -/
def getfree : UInt32 := rb.bufsize - rb.getsize - 1

/-- `reset`; `none` where `memset` leaves the array. -/
def reset : Option RingBuffer :=
  if rb.bufsize.toNat ≤ rb.buf.length then
    some { rb with
      h := 0
      r := 0
      buf := blit rb.buf 0 (List.replicate rb.bufsize.toNat 0) }
  else none

/-- `put`; `none` where a copy leaves a buffer. -/
def put (p : List UInt8) (len : UInt32) : Option (Bool × RingBuffer) :=
  if len ≤ rb.getfree then
    if len ≤ rb.bufsize - rb.r then do
      let buf ← memcpy rb.buf rb.r.toNat p 0 len.toNat
      return (true, { rb with buf := buf, r := rb.r + len })
    else do
      let buf ← memcpy rb.buf rb.r.toNat p 0 (rb.bufsize - rb.r).toNat
      let buf' ← memcpy buf 0 p (rb.bufsize - rb.r).toNat (len - (rb.bufsize - rb.r)).toNat
      return (true, { rb with buf := buf', r := len - (rb.bufsize - rb.r) })
  else some (false, rb)

/-- `get`, with what it leaves in `dst`; `none` where a copy leaves a
buffer. -/
def get (len : UInt32) (dst : List UInt8) : Option (Bool × List UInt8 × RingBuffer) :=
  if len = 0 then some (false, dst, rb)
  else if len ≤ rb.getsize then
    if len ≤ rb.bufsize - rb.h then do
      let dst' ← memcpy dst 0 rb.buf rb.h.toNat len.toNat
      return (true, dst', { rb with h := (rb.h + len) % rb.bufsize })
    else do
      let h' := len - (rb.bufsize - rb.h)
      let dst' ← memcpy dst 0 rb.buf rb.h.toNat (rb.bufsize - rb.h).toNat
      let dst'' ← memcpy dst' (rb.bufsize - rb.h).toNat rb.buf 0 h'.toNat
      return (true, dst'', { rb with h := h' })
  else some (false, dst, rb)

/-- A call of `put`, `get` or `reset`. The buffer a caller passes is as
long as the length it passes with it. -/
inductive Call
  | put (p : List UInt8) (len : UInt32) (hlen : len.toNat ≤ p.length)
  | get (len : UInt32) (dst : List UInt8) (hlen : len.toNat ≤ dst.length)
  | reset

/-- What a call gives its caller: the result, and for `get` the buffer. -/
inductive Answer
  | put (ret : Bool)
  | get (ret : Bool) (dst : List UInt8)
  | reset
  deriving DecidableEq, Repr

/-- A call, `none` where it faults. -/
def step : Call → Option (Answer × RingBuffer)
  | .put p len _ => (rb.put p len).map fun (ret, rb') => (.put ret, rb')
  | .get len dst _ => (rb.get len dst).map fun (ret, dst', rb') => (.get ret dst', rb')
  | .reset => rb.reset.map fun rb' => (.reset, rb')

/-! ## The queue a buffer holds -/

/-- The calls on a bounded queue of bytes. -/
def spec (bfsz : ℕ) (q : List UInt8) : Call → Answer × List UInt8
  | .put p len _ =>
    let (ret, q') := BoundedFifo.put bfsz q (p.take len.toNat)
    (.put ret, q')
  | .get len dst _ =>
    match BoundedFifo.get q len.toNat with
    | some (bs, q') => (.get true (blit dst 0 bs), q')
    | none => (.get false dst, q)
  | .reset => (.reset, [])

/-- **The indices of `rb` are those of `n` bytes**: `r` is `n` places behind
`h`, up to a whole turn. -/
structure Indices (bfsz : ℕ) (rb : RingBuffer) (n : ℕ) : Prop where
  size : rb.bufsize.toNat = bfsz + 1
  head : rb.h.toNat < bfsz + 1
  tail : rb.r.toNat ≤ bfsz + 1
  fits : n ≤ bfsz
  index : rb.r.toNat = rb.h.toNat + n ∨ rb.r.toNat + (bfsz + 1) = rb.h.toNat + n ∨
    rb.r.toNat = rb.h.toNat + n + (bfsz + 1)

/-- **When `getsize` is the number of bytes**: where the sum it takes the
remainder of does not leave 32 bits, or the array is half their range. -/
theorem Indices.toNat_getsize_iff {bfsz n : ℕ} {rb : RingBuffer} (hx : Indices bfsz rb n) :
    rb.getsize.toNat = n ↔
      rb.r.toNat + (bfsz + 1) < rb.h.toNat + 2 ^ 32 ∨ bfsz + 1 = 2 ^ 31 := by
  obtain ⟨hsize, hhead, htail, hfits, hindex⟩ := hx
  have hlt := rb.bufsize.toNat_lt
  have hsum : (rb.r + rb.bufsize - rb.h).toNat =
      (rb.r.toNat + (bfsz + 1) - rb.h.toNat) % 2 ^ 32 := by
    rw [UInt32.toNat_sub, UInt32.toNat_add, hsize]
    omega
  rw [getsize, UInt32.toNat_mod, hsum, hsize]
  rcases Nat.lt_or_ge (rb.r.toNat + (bfsz + 1) - rb.h.toNat) (2 ^ 32) with hsmall | hlarge
  · rw [Nat.mod_eq_of_lt hsmall]
    refine ⟨fun _ => .inl (by omega), fun _ => ?_⟩
    rcases hindex with heq | heq | heq
    · rw [show rb.r.toNat + (bfsz + 1) - rb.h.toNat = n + (bfsz + 1) by omega,
        Nat.add_mod_right, Nat.mod_eq_of_lt (by omega)]
    · rw [show rb.r.toNat + (bfsz + 1) - rb.h.toNat = n by omega, Nat.mod_eq_of_lt (by omega)]
    · rw [show rb.r.toNat + (bfsz + 1) - rb.h.toNat = n + (bfsz + 1) + (bfsz + 1) by omega,
        Nat.add_mod_right, Nat.add_mod_right, Nat.mod_eq_of_lt (by omega)]
  -- the sum has lost `2 ^ 32`, which is no multiple of the array
  · have hmod : (rb.r.toNat + (bfsz + 1) - rb.h.toNat) % 2 ^ 32 % (bfsz + 1) =
        rb.r.toNat + (bfsz + 1) - rb.h.toNat - 2 ^ 32 := by
      rw [Nat.mod_eq_sub_mod hlarge, Nat.mod_eq_of_lt (by omega), Nat.mod_eq_of_lt (by omega)]
    rw [hmod]
    omega

/-- Then `getfree` is the rest of the capacity. -/
theorem Indices.toNat_getfree {bfsz n : ℕ} {rb : RingBuffer} (hx : Indices bfsz rb n)
    (hexact : rb.getsize.toNat = n) : rb.getfree.toNat = bfsz - n := by
  have hfits := hx.fits
  have hlt := rb.bufsize.toNat_lt
  have hsize := hx.size
  have hone : (1 : UInt32).toNat = 1 := rfl
  rw [getfree, UInt32.toNat_sub, UInt32.toNat_sub, hexact, hsize, hone]
  omega

/-- The room behind `r`. -/
theorem Indices.toNat_behind {bfsz n : ℕ} {rb : RingBuffer} (hx : Indices bfsz rb n) :
    (rb.bufsize - rb.r).toNat = bfsz + 1 - rb.r.toNat := by
  have htail := hx.tail
  rw [UInt32.toNat_sub_of_le _ _ (by rw [UInt32.le_iff_toNat_le, hx.size]; exact htail), hx.size]

/-- The bytes behind `h`. -/
theorem Indices.toNat_ahead {bfsz n : ℕ} {rb : RingBuffer} (hx : Indices bfsz rb n) :
    (rb.bufsize - rb.h).toNat = bfsz + 1 - rb.h.toNat := by
  have hhead := hx.head
  rw [UInt32.toNat_sub_of_le _ _ (by rw [UInt32.le_iff_toNat_le, hx.size]; omega), hx.size]

/-- Where `r` goes on by `k`, there are `k` bytes more. -/
theorem Indices.behind {bfsz n k : ℕ} {rb : RingBuffer} (hx : Indices bfsz rb n)
    (hfit : n + k ≤ bfsz) (buf : List UInt8) {r' : UInt32} (htail : r'.toNat ≤ bfsz + 1)
    (hr' : r'.toNat = rb.r.toNat + k ∨ r'.toNat + (bfsz + 1) = rb.r.toNat + k) :
    Indices bfsz { rb with buf := buf, r := r' } (n + k) := by
  have hindex := hx.index
  have hhead := hx.head
  refine ⟨hx.size, hhead, htail, hfit, ?_⟩
  dsimp only
  omega

/-- Where `h` goes on by `k`, there are `k` bytes fewer. -/
theorem Indices.ahead {bfsz n k : ℕ} {rb : RingBuffer} (hx : Indices bfsz rb n) (hk : k ≤ n)
    {h' : UInt32} (hhead : h'.toNat < bfsz + 1)
    (hh' : h'.toNat = rb.h.toNat + k ∨ h'.toNat + (bfsz + 1) = rb.h.toNat + k) :
    Indices bfsz { rb with h := h' } (n - k) := by
  have hindex := hx.index
  have hfits := hx.fits
  have htail := hx.tail
  refine ⟨hx.size, hhead, htail, by omega, ?_⟩
  dsimp only
  omega

/-- **`rb` counts right**: it holds `n` bytes, and `getsize` says so. What
`put` and `get` do depends on no more than this. -/
structure Counts (bfsz : ℕ) (rb : RingBuffer) (n : ℕ) : Prop extends Indices bfsz rb n where
  alloc : rb.buf.length = bfsz + 1
  counted : rb.getsize.toNat = n

/-- **`rb` holds the queue `q`.** -/
structure Holds (bfsz : ℕ) (rb : RingBuffer) (q : List UInt8) : Prop where
  room : bfsz + 1 < 2 ^ 31
  size : rb.bufsize.toNat = bfsz + 1
  alloc : rb.buf.length = bfsz + 1
  head : rb.h.toNat < bfsz + 1
  tail : rb.r.toNat ≤ bfsz + 1
  fits : q.length ≤ bfsz
  index : rb.r.toNat = rb.h.toNat + q.length ∨ rb.r.toNat + (bfsz + 1) = rb.h.toNat + q.length ∨
    rb.r.toNat = rb.h.toNat + q.length + (bfsz + 1)
  stored : Circular.read rb.buf rb.h.toNat q.length = q

variable {rb} {bfsz : ℕ} {q p dst : List UInt8} {len : UInt32}

namespace Counts

variable {n : ℕ}

theorem toNat_getfree (hc : Counts bfsz rb n) : rb.getfree.toNat = bfsz - n :=
  hc.toIndices.toNat_getfree hc.counted

/-- A block that fits behind `r` is written there. -/
theorem put_behind (hc : Counts bfsz rb n) (hlen : len.toNat ≤ p.length)
    (hfit : n + len.toNat ≤ bfsz) (hone : len.toNat ≤ bfsz + 1 - rb.r.toNat) :
    rb.put p len = some (true, { rb with
      buf := Circular.write rb.buf rb.r.toNat (p.take len.toNat), r := rb.r + len }) := by
  have halloc := hc.alloc
  have htail := hc.tail
  have hblock : (p.take len.toNat).length = len.toNat := by
    rw [List.length_take]
    omega
  have hwrite : Circular.write rb.buf rb.r.toNat (p.take len.toNat) =
      blit rb.buf rb.r.toNat ((p.drop 0).take len.toNat) := by
    rw [Circular.write, if_pos (by rw [hblock, halloc]; omega)]
    rfl
  rw [RingBuffer.put]
  simp only [UInt32.le_iff_toNat_le, hc.toNat_getfree, hc.toNat_behind]
  rw [if_pos (by omega), if_pos hone, memcpy_eq (by omega) (by omega), Option.bind_eq_bind,
    Option.bind_some, ← hwrite]
  rfl

/-- One that does not goes on at the front. -/
theorem put_around (hc : Counts bfsz rb n) (hlen : len.toNat ≤ p.length)
    (hfit : n + len.toNat ≤ bfsz) (hone : ¬ len.toNat ≤ bfsz + 1 - rb.r.toNat) :
    rb.put p len = some (true, { rb with
      buf := Circular.write rb.buf rb.r.toNat (p.take len.toNat),
      r := len - (rb.bufsize - rb.r) }) ∧
    (len - (rb.bufsize - rb.r)).toNat = len.toNat - (bfsz + 1 - rb.r.toNat) := by
  have halloc := hc.alloc
  have htail := hc.tail
  have hblock : (p.take len.toNat).length = len.toNat := by
    rw [List.length_take]
    omega
  have hr' : (len - (rb.bufsize - rb.r)).toNat = len.toNat - (bfsz + 1 - rb.r.toNat) := by
    rw [UInt32.toNat_sub_of_le _ _ (by rw [UInt32.le_iff_toNat_le, hc.toNat_behind]; omega),
      hc.toNat_behind]
  have hfirst : (((p.drop 0).take (bfsz + 1 - rb.r.toNat))).length = bfsz + 1 - rb.r.toNat := by
    rw [List.length_take, List.drop_zero]
    omega
  have hwrite : Circular.write rb.buf rb.r.toNat (p.take len.toNat) =
      blit (blit rb.buf rb.r.toNat ((p.drop 0).take (bfsz + 1 - rb.r.toNat))) 0
        ((p.drop (bfsz + 1 - rb.r.toNat)).take (len.toNat - (bfsz + 1 - rb.r.toNat))) := by
    rw [Circular.write, if_neg (by rw [hblock, halloc]; omega), halloc, List.drop_take,
      List.take_take, Nat.min_eq_left (by omega)]
    rfl
  have hsecond : 0 + (len.toNat - (bfsz + 1 - rb.r.toNat)) ≤
      (blit rb.buf rb.r.toNat ((p.drop 0).take (bfsz + 1 - rb.r.toNat))).length := by
    rw [length_blit (by rw [hfirst, halloc]; omega), halloc]
    omega
  refine ⟨?_, hr'⟩
  rw [RingBuffer.put]
  simp only [UInt32.le_iff_toNat_le, hc.toNat_getfree, hc.toNat_behind]
  rw [if_pos (by omega), if_neg hone, hr', memcpy_eq (by omega) (by omega), Option.bind_eq_bind,
    Option.bind_some, memcpy_eq hsecond (by omega), Option.bind_some, ← hwrite]
  rfl

/-- **A block that fits is written at `r`**, around the end of the array. -/
theorem put_of_fits (hc : Counts bfsz rb n) (hlen : len.toNat ≤ p.length)
    (hfit : n + len.toNat ≤ bfsz) :
    ∃ r', rb.put p len = some (true,
        { rb with buf := Circular.write rb.buf rb.r.toNat (p.take len.toNat), r := r' }) ∧
      r'.toNat ≤ bfsz + 1 ∧
      (r'.toNat = rb.r.toNat + len.toNat ∨
        r'.toNat + (bfsz + 1) = rb.r.toNat + len.toNat) := by
  have hsize := hc.size
  have htail := hc.tail
  have hlt := rb.bufsize.toNat_lt
  by_cases hone : len.toNat ≤ bfsz + 1 - rb.r.toNat
  · have hr' : (rb.r + len).toNat = rb.r.toNat + len.toNat := by
      rw [UInt32.toNat_add]
      omega
    exact ⟨_, hc.put_behind hlen hfit hone, by omega, .inl hr'⟩
  · obtain ⟨hput, hr'⟩ := hc.put_around hlen hfit hone
    exact ⟨_, hput, by omega, .inr (by omega)⟩

/-- A block that does not fit is refused. -/
theorem put_of_not_fits (hc : Counts bfsz rb n) (hfit : ¬ n + len.toNat ≤ bfsz) :
    rb.put p len = some (false, rb) := by
  have hfits := hc.fits
  have hfree : ¬ len ≤ rb.getfree := by
    rw [UInt32.le_iff_toNat_le, hc.toNat_getfree]
    omega
  rw [RingBuffer.put, if_neg hfree]

/-- Bytes that lie in one piece behind `h` are read there. -/
theorem get_ahead (hc : Counts bfsz rb n) (hdst : len.toNat ≤ dst.length)
    (hpos : 0 < len.toNat) (hmany : len.toNat ≤ n) (hone : len.toNat ≤ bfsz + 1 - rb.h.toNat) :
    rb.get len dst = some (true, blit dst 0 (Circular.read rb.buf rb.h.toNat len.toNat),
      { rb with h := (rb.h + len) % rb.bufsize }) := by
  have halloc := hc.alloc
  have hhead := hc.head
  have hzero : ¬ len = 0 := by
    rintro rfl
    exact absurd hpos (by decide)
  have hread : Circular.read rb.buf rb.h.toNat len.toNat =
      (rb.buf.drop rb.h.toNat).take len.toNat := Circular.read_eq_take_drop (by omega)
  rw [RingBuffer.get, if_neg hzero]
  simp only [UInt32.le_iff_toNat_le, hc.counted, hc.toNat_ahead]
  rw [if_pos hmany, if_pos hone, memcpy_eq (by omega) (by omega), hread]
  rfl

/-- Bytes that do not go on at the front. -/
theorem get_around (hc : Counts bfsz rb n) (hdst : len.toNat ≤ dst.length)
    (hpos : 0 < len.toNat) (hmany : len.toNat ≤ n) (hone : ¬ len.toNat ≤ bfsz + 1 - rb.h.toNat) :
    rb.get len dst = some (true, blit dst 0 (Circular.read rb.buf rb.h.toNat len.toNat),
      { rb with h := len - (rb.bufsize - rb.h) }) ∧
    (len - (rb.bufsize - rb.h)).toNat = len.toNat - (bfsz + 1 - rb.h.toNat) := by
  have halloc := hc.alloc
  have hhead := hc.head
  have hfits := hc.fits
  have hzero : ¬ len = 0 := by
    rintro rfl
    exact absurd hpos (by decide)
  have hh' : (len - (rb.bufsize - rb.h)).toNat = len.toNat - (bfsz + 1 - rb.h.toNat) := by
    rw [UInt32.toNat_sub_of_le _ _ (by rw [UInt32.le_iff_toNat_le, hc.toNat_ahead]; omega),
      hc.toNat_ahead]
  have hbehind : (rb.buf.drop rb.h.toNat).take (bfsz + 1 - rb.h.toNat) =
      rb.buf.drop rb.h.toNat :=
    List.take_of_length_le (by rw [List.length_drop, halloc])
  have hbehindLen : (rb.buf.drop rb.h.toNat).length = bfsz + 1 - rb.h.toNat := by
    rw [List.length_drop, halloc]
  have hread : Circular.read rb.buf rb.h.toNat len.toNat = rb.buf.drop rb.h.toNat ++
      rb.buf.take (len.toNat - (bfsz + 1 - rb.h.toNat)) := by
    rw [Circular.read_eq_append (by omega) (by omega) (by omega), halloc]
  have hsecond : bfsz + 1 - rb.h.toNat + (len.toNat - (bfsz + 1 - rb.h.toNat)) ≤
      (blit dst 0 (rb.buf.drop rb.h.toNat)).length := by
    rw [length_blit (by rw [hbehindLen]; omega)]
    omega
  refine ⟨?_, hh'⟩
  rw [RingBuffer.get, if_neg hzero]
  simp only [UInt32.le_iff_toNat_le, hc.counted, hc.toNat_ahead]
  rw [if_pos hmany, if_neg hone, hh', memcpy_eq (by omega) (by omega), Option.bind_eq_bind,
    Option.bind_some, hbehind, memcpy_eq hsecond (by omega), Option.bind_some, List.drop_zero,
    hread, ← blit_blit _ _ (Nat.zero_le _), Nat.zero_add, hbehindLen]
  rfl

/-- **Bytes that are there are read at `h`**, around the end of the array. -/
theorem get_of_holds (hc : Counts bfsz rb n) (hdst : len.toNat ≤ dst.length)
    (hpos : 0 < len.toNat) (hmany : len.toNat ≤ n) :
    ∃ h', rb.get len dst = some (true, blit dst 0 (Circular.read rb.buf rb.h.toNat len.toNat),
        { rb with h := h' }) ∧
      h'.toNat < bfsz + 1 ∧
      (h'.toNat = rb.h.toNat + len.toNat ∨
        h'.toNat + (bfsz + 1) = rb.h.toNat + len.toNat) := by
  have hsize := hc.size
  have hhead := hc.head
  have hfits := hc.fits
  have hlt := rb.bufsize.toNat_lt
  by_cases hone : len.toNat ≤ bfsz + 1 - rb.h.toNat
  · have hmod : ((rb.h + len) % rb.bufsize).toNat = (rb.h.toNat + len.toNat) % (bfsz + 1) := by
      rw [UInt32.toNat_mod, UInt32.toNat_add, hsize,
        Nat.mod_eq_of_lt (a := rb.h.toNat + len.toNat) (b := 2 ^ 32) (by omega)]
    refine ⟨_, hc.get_ahead hdst hpos hmany hone, ?_, ?_⟩
    · rw [hmod]
      exact Nat.mod_lt _ (by omega)
    · rw [hmod]
      rcases Nat.lt_or_ge (rb.h.toNat + len.toNat) (bfsz + 1) with hbelow | hend
      · exact .inl (Nat.mod_eq_of_lt hbelow)
      -- `get` goes to the front as soon as it comes to the end
      · have heq : rb.h.toNat + len.toNat = bfsz + 1 := by omega
        exact .inr (by rw [heq, Nat.mod_self, Nat.zero_add])
  · obtain ⟨hget, hh'⟩ := hc.get_around hdst hpos hmany hone
    exact ⟨_, hget, by omega, .inr (by omega)⟩

/-- Where fewer are there, or none is asked for, nothing is read. -/
theorem get_of_not_holds (hc : Counts bfsz rb n) (hmany : ¬ (0 < len.toNat ∧ len.toNat ≤ n)) :
    rb.get len dst = some (false, dst, rb) := by
  rw [RingBuffer.get]
  by_cases hzero : len = 0
  · rw [if_pos hzero]
  · have hpos : len.toNat ≠ 0 := fun h => hzero (UInt32.toNat_inj.mp h)
    have hsize : ¬ len ≤ rb.getsize := by
      rw [UInt32.le_iff_toNat_le, hc.counted]
      omega
    rw [if_neg hzero, if_neg hsize]

end Counts

/-- A new buffer holds nothing. -/
theorem holds_init {bfsz : UInt32} (h : bfsz.toNat + 1 < 2 ^ 31) :
    Holds bfsz.toNat (init bfsz) [] := by
  have hsize : (bfsz + 1).toNat = bfsz.toNat + 1 := by
    rw [UInt32.toNat_add]
    exact Nat.mod_eq_of_lt (by simp; omega)
  exact
    { room := h
      size := hsize
      alloc := by rw [init, List.length_replicate, hsize]
      head := by simp [init]
      tail := by simp [init]
      fits := Nat.zero_le _
      index := .inl rfl
      stored := rfl }

namespace Holds

theorem indices (h : Holds bfsz rb q) : Indices bfsz rb q.length :=
  ⟨h.size, h.head, h.tail, h.fits, h.index⟩

theorem toNat_getsize (h : Holds bfsz rb q) : rb.getsize.toNat = q.length := by
  have hroom := h.room
  have htail := h.tail
  exact h.indices.toNat_getsize_iff.mpr (.inl (by omega))

theorem counts (h : Holds bfsz rb q) : Counts bfsz rb q.length :=
  ⟨h.indices, h.alloc, h.toNat_getsize⟩

/-- **A block written at `r` is appended.** -/
theorem append (h : Holds bfsz rb q) (hfit : q.length + p.length ≤ bfsz) {r' : UInt32}
    (htail : r'.toNat ≤ bfsz + 1)
    (hr' : r'.toNat = rb.r.toNat + p.length ∨ r'.toNat + (bfsz + 1) = rb.r.toNat + p.length) :
    Holds bfsz { rb with buf := Circular.write rb.buf rb.r.toNat p, r := r' } (q ++ p) := by
  have hle : rb.r.toNat ≤ rb.buf.length := by rw [h.alloc]; exact h.tail
  have hblock : p.length ≤ rb.buf.length := by rw [h.alloc]; omega
  have hturn : rb.r.toNat ≡ rb.h.toNat + q.length [MOD rb.buf.length] := by
    rw [h.alloc]
    rcases h.index with heq | heq | heq
    · rw [heq]
    · exact (Nat.add_modEq_right).symm.trans (by rw [heq])
    · rw [heq]
      exact Nat.add_modEq_right
  have hx := h.indices.behind hfit (Circular.write rb.buf rb.r.toNat p) htail hr'
  rw [← List.length_append] at hx
  refine
    { room := h.room
      size := hx.size
      alloc := (Circular.length_write hle hblock).trans h.alloc
      head := hx.head
      tail := hx.tail
      fits := hx.fits
      index := hx.index
      stored := ?_ }
  rw [List.length_append, Circular.read_write hle hturn (by rw [h.alloc]; omega), h.stored]

/-- **Where `h` goes on by `k`, the first `k` bytes are gone.** -/
theorem drop (h : Holds bfsz rb q) {k : ℕ} (hk : k ≤ q.length) {h' : UInt32}
    (hhead : h'.toNat < bfsz + 1)
    (hh' : h'.toNat = rb.h.toNat + k ∨ h'.toNat + (bfsz + 1) = rb.h.toNat + k) :
    Holds bfsz { rb with h := h' } (q.drop k) := by
  have hfits := h.fits
  have hturn : rb.h.toNat + k ≡ h'.toNat [MOD rb.buf.length] := by
    rw [h.alloc]
    rcases hh' with heq | heq
    · rw [heq]
    · rw [← heq]
      exact Nat.add_modEq_right
  have hx := h.indices.ahead hk hhead hh'
  rw [← List.length_drop] at hx
  refine
    { room := h.room
      size := hx.size
      alloc := h.alloc
      head := hx.head
      tail := hx.tail
      fits := hx.fits
      index := hx.index
      stored := ?_ }
  rw [List.length_drop, ← Circular.read_congr hturn,
    ← Circular.drop_read hk (by rw [h.alloc]; omega), h.stored]

/-- **`put` appends the block where it fits**, and does nothing where it
does not. -/
theorem put (h : Holds bfsz rb q) (hlen : len.toNat ≤ p.length) :
    ∃ rb', rb.put p len = some ((BoundedFifo.put bfsz q (p.take len.toNat)).1, rb') ∧
      Holds bfsz rb' (BoundedFifo.put bfsz q (p.take len.toNat)).2 := by
  have hblock : (p.take len.toNat).length = len.toNat := by
    rw [List.length_take]
    omega
  rw [BoundedFifo.put, hblock]
  by_cases hfit : q.length + len.toNat ≤ bfsz
  · obtain ⟨r', hput, htail, hr'⟩ := h.counts.put_of_fits hlen hfit
    rw [if_pos hfit]
    exact ⟨_, hput, h.append (by rw [hblock]; exact hfit) htail (by rw [hblock]; exact hr')⟩
  · rw [if_neg hfit]
    exact ⟨rb, h.counts.put_of_not_fits hfit, h⟩

/-- **`get` gives back the first bytes where there are as many as asked
for**, and does nothing where there are not. -/
theorem get (h : Holds bfsz rb q) (hdst : len.toNat ≤ dst.length) :
    ∃ rb', match BoundedFifo.get q len.toNat with
      | some (bs, q') => rb.get len dst = some (true, blit dst 0 bs, rb') ∧ Holds bfsz rb' q'
      | none => rb.get len dst = some (false, dst, rb') ∧ Holds bfsz rb' q := by
  rw [BoundedFifo.get]
  by_cases hmany : 0 < len.toNat ∧ len.toNat ≤ q.length
  · obtain ⟨h', hget, hhead, hh'⟩ := h.counts.get_of_holds hdst hmany.1 hmany.2
    rw [← Circular.take_read hmany.2, h.stored] at hget
    rw [if_pos hmany]
    exact ⟨_, hget, h.drop hmany.2 hhead hh'⟩
  · rw [if_neg hmany]
    exact ⟨rb, h.counts.get_of_not_holds hmany, h⟩

/-- `reset` empties the buffer. -/
theorem reset (h : Holds bfsz rb q) : ∃ rb', rb.reset = some rb' ∧ Holds bfsz rb' [] := by
  have hsize := h.size
  have halloc := h.alloc
  rw [RingBuffer.reset, if_pos (by omega)]
  refine ⟨_, rfl, ?_⟩
  exact
    { room := h.room
      size := hsize
      alloc := by rw [length_blit (by rw [List.length_replicate]; omega), halloc]
      head := by simp
      tail := by simp
      fits := Nat.zero_le _
      index := .inl rfl
      stored := rfl }

/-- **Every call does what the queue does**, and no copy leaves the array. -/
theorem step (h : Holds bfsz rb q) (call : Call) :
    ∃ rb', rb.step call = some ((spec bfsz q call).1, rb') ∧
      Holds bfsz rb' (spec bfsz q call).2 := by
  cases call with
  | put p len hlen =>
    obtain ⟨rb', hput, hholds⟩ := h.put hlen
    exact ⟨rb', by rw [RingBuffer.step, hput]; rfl, hholds⟩
  | get len dst hlen =>
    obtain ⟨rb', hget⟩ := h.get hlen
    refine ⟨rb', ?_⟩
    rw [RingBuffer.step, spec]
    split at hget
    · rw [hget.1]
      exact ⟨rfl, hget.2⟩
    · rw [hget.1]
      exact ⟨rfl, hget.2⟩
  | reset =>
    obtain ⟨rb', hreset, hholds⟩ := h.reset
    exact ⟨rb', by rw [RingBuffer.step, hreset]; rfl, hholds⟩

end Holds

/-- An answer that refuses the call. -/
def Answer.refuses : Answer → Bool
  | .put ret => !ret
  | .get ret _ => !ret
  | .reset => false

/-- **A refused call changes nothing.** -/
theorem step_refuses {call : Call} {answer : Answer} {rb' : RingBuffer}
    (h : rb.step call = some (answer, rb')) (hrefuses : answer.refuses = true) : rb' = rb := by
  cases call with
  | put p len hlen =>
    obtain ⟨⟨ret, rb₁⟩, hput, heq⟩ := Option.map_eq_some_iff.mp h
    cases heq
    unfold RingBuffer.put at hput
    split_ifs at hput with hfree hone
    · obtain ⟨buf, -, hbuf⟩ := Option.bind_eq_some_iff.mp hput
      cases hbuf
      cases hrefuses
    · obtain ⟨buf, -, hbuf⟩ := Option.bind_eq_some_iff.mp hput
      obtain ⟨buf', -, hbuf'⟩ := Option.bind_eq_some_iff.mp hbuf
      cases hbuf'
      cases hrefuses
    · cases hput
      rfl
  | get len dst hlen =>
    obtain ⟨⟨ret, dst₁, rb₁⟩, hget, heq⟩ := Option.map_eq_some_iff.mp h
    cases heq
    unfold RingBuffer.get at hget
    split_ifs at hget with hzero hmany hone
    · cases hget
      rfl
    · obtain ⟨dst', -, hdst'⟩ := Option.bind_eq_some_iff.mp hget
      cases hdst'
      cases hrefuses
    · obtain ⟨dst', -, hdst'⟩ := Option.bind_eq_some_iff.mp hget
      obtain ⟨dst'', -, hdst''⟩ := Option.bind_eq_some_iff.mp hdst'
      cases hdst''
      cases hrefuses
    · cases hget
      rfl
  | reset =>
    obtain ⟨rb₁, -, heq⟩ := Option.map_eq_some_iff.mp h
    cases heq
    cases hrefuses

/-- **The ring buffer is a bounded queue of bytes.** Over any calls, from a
new buffer of any capacity, every copy lies inside the array, every answer
is the queue's, the two sizes are those of the queue, and a further call
that is refused leaves the buffer as it is. -/
theorem ringBuffer_refines_fifo {bfsz : UInt32} (hbfsz : bfsz.toNat + 1 < 2 ^ 31)
    (calls : List Call) :
    ∃ rb, runOps step (init bfsz) calls = some ((runSpec (spec bfsz.toNat) [] calls).1, rb) ∧
      rb.getsize.toNat = (runSpec (spec bfsz.toNat) [] calls).2.length ∧
      rb.getfree.toNat + (runSpec (spec bfsz.toNat) [] calls).2.length = bfsz.toNat ∧
      ∀ call answer rb', rb.step call = some (answer, rb') → answer.refuses = true → rb' = rb := by
  obtain ⟨rb, hrun, hholds⟩ := runOps_refines (R := Holds bfsz.toNat)
    (fun s t i hR => hR.step i) (holds_init hbfsz) calls
  have hfree := hholds.counts.toNat_getfree
  have hfits := hholds.fits
  exact ⟨rb, hrun, hholds.toNat_getsize, by omega,
    fun _ _ _ hstep hrefuses => step_refuses hstep hrefuses⟩

/-- At capacity three: a block, one byte back, two more around the end, one
byte refused, and everything read. -/
theorem ringBuffer_refines_fifo_three :
    ∃ rb, runOps step (init 3) [.put [1, 2, 3] 3 (by decide), .get 1 [0] (by decide),
        .get 1 [0] (by decide), .put [4, 5] 2 (by decide), .put [6] 1 (by decide),
        .get 3 [0, 0, 0] (by decide)] =
      some ([.put true, .get true [1], .get true [2], .put true, .put false,
        .get true [3, 4, 5]], rb) := by
  have hbfsz : (3 : UInt32).toNat + 1 < 2 ^ 31 := by decide
  obtain ⟨rb, hrun, -, -, -⟩ := ringBuffer_refines_fifo hbfsz
    [.put [1, 2, 3] 3 (by decide), .get 1 [0] (by decide), .get 1 [0] (by decide),
      .put [4, 5] 2 (by decide), .put [6] 1 (by decide), .get 3 [0, 0, 0] (by decide)]
  exact ⟨rb, hrun⟩

end RingBuffer

end Utility

end EupuServer
