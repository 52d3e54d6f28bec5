import EupuServer.Common.Memory
import EupuServer.Common.Refinement
import EupuServer.Common.Region
/-!
# The circular buffer

`CircularBuffer` keeps a queue of bytes in one block, in two regions: `A`
with the older bytes, and `B` in front of it, which is allocated where it
has more room than there is behind `A`. When `A` is read to its end, `B` is
moved to the front and becomes `A`. The space the buffer reports depends on
where its regions lie, so as a queue it leaves that open; what it promises
is that the space is there for the next writes and that reading takes none
of it away (`Queue.Answers`).
-/

namespace EupuServer

namespace Utility

open Bytes

/-- `CircularBuffer`. Pointers are offsets into the block `m_buffer`. -/
structure CircularBuffer where
  buffer : Option (List UInt8)
  bufferEnd : ℕ
  regionAPointer : ℕ
  regionASize : ℕ
  regionBPointer : Option ℕ
  regionBSize : ℕ
  deriving DecidableEq, Repr

namespace CircularBuffer

/-- The constructor. -/
def new : CircularBuffer := ⟨none, 0, 0, 0, none, 0⟩

variable (b : CircularBuffer)

/-- `Allocate`, where `malloc` returns the block `mem`. -/
def allocate (mem : List UInt8) : CircularBuffer :=
  { b with buffer := some mem, bufferEnd := mem.length, regionAPointer := 0 }

/-- `GetAFreeSpace`, which `GetSpaceAfterA` repeats. -/
def getAFreeSpace : ℕ := sizeT (b.bufferEnd - b.regionAPointer - b.regionASize)

/-- `GetSpaceBeforeA`. -/
def getSpaceBeforeA : ℕ := sizeT b.regionAPointer

/-- `GetBFreeSpace`. -/
def getBFreeSpace : ℕ :=
  match b.regionBPointer with
  | none => 0
  | some p => sizeT (b.regionAPointer - p - b.regionBSize)

/-- `AllocateB`. -/
def allocateB : CircularBuffer := { b with regionBPointer := some 0 }

/-! ## Taking from the front -/

/-- How much of `cnt` bytes is taken from `A`. -/
def fromA (cnt : ℕ) : ℕ :=
  if b.regionASize > 0 then if cnt > b.regionASize then b.regionASize else cnt else 0

/-- `A` without its first `n` bytes. -/
def cutA (n : ℕ) : CircularBuffer :=
  { b with regionASize := b.regionASize - n, regionAPointer := b.regionAPointer + n }

/-- How much of the `cnt` bytes that are left is taken from `B`. -/
def fromB (cnt : ℕ) : ℕ :=
  if cnt > 0 ∧ b.regionBSize > 0 then if cnt > b.regionBSize then b.regionBSize else cnt else 0

/-- `B` without its first `n` bytes. -/
def cutB (n : ℕ) : CircularBuffer :=
  { b with regionBSize := b.regionBSize - n, regionBPointer := b.regionBPointer.map (· + n) }

/-- `memmove` to the front of the block, where `B` is not there yet. -/
def pushToStart (mem : List UInt8) (p : ℕ) : Option (List UInt8) :=
  if p ≠ 0 then memcpy mem 0 mem p b.regionBSize else some mem

/-- The end of `Read` and of `Remove`: where `A` is empty `B` becomes `A`.
`none` where `memmove` leaves the block. -/
def moveBToA : Option CircularBuffer :=
  if b.regionASize = 0 then
    if b.regionBSize > 0 then do
      let p ← b.regionBPointer
      let mem ← b.buffer
      let mem' ← b.pushToStart mem p
      return { b with
        buffer := some mem', regionAPointer := 0, regionASize := b.regionBSize,
        regionBPointer := none, regionBSize := 0 }
    else
      some { b with
        regionBPointer := none, regionBSize := 0, regionAPointer := 0, regionASize := 0 }
  else some b

/-- The copy of `n` bytes of `A` to the front of `destination`. -/
def copyA (mem destination : List UInt8) (n : ℕ) : Option (List UInt8) :=
  if b.regionASize > 0 then memcpy destination 0 mem b.regionAPointer n else some destination

/-- The copy of `n` bytes of `B` behind them. -/
def copyB (mem destination : List UInt8) (aRead n : ℕ) : Option (List UInt8) :=
  if n > 0 then b.regionBPointer.bind fun p => memcpy destination aRead mem p n
  else some destination

/-- `Read`, with what it leaves in `destination`; `none` where a copy leaves
a buffer. -/
def read (destination : List UInt8) (bytes : ℕ) : Option (Bool × List UInt8 × CircularBuffer) :=
  match b.buffer with
  | none => some (false, destination, b)
  | some mem =>
    if sizeT (b.regionASize + b.regionBSize) < bytes then some (false, destination, b)
    else do
      let aRead := b.fromA bytes
      let dst ← b.copyA mem destination aRead
      let b₁ := b.cutA aRead
      let bRead := b₁.fromB (bytes - aRead)
      let dst' ← b₁.copyB mem dst aRead bRead
      let b₂ ← (b₁.cutB bRead).moveBToA
      return (true, dst', b₂)

/-- `Remove`. -/
def remove (len : ℕ) : Option CircularBuffer :=
  let b₁ := b.cutA (b.fromA len)
  (b₁.cutB (b₁.fromB (len - b.fromA len))).moveBToA

/-! ## Adding at the end -/

/-- A write to `B`. -/
def writeB (mem data : List UInt8) : Option (Bool × CircularBuffer) :=
  if b.getBFreeSpace < data.length then some (false, b)
  else do
    let p ← b.regionBPointer
    let mem' ← memcpy mem (p + b.regionBSize) data 0 data.length
    return (true, { b with
      buffer := some mem', regionBSize := sizeT (b.regionBSize + data.length) })

/-- `Write`. -/
def write (data : List UInt8) : Option (Bool × CircularBuffer) :=
  match b.buffer with
  | none => some (false, b)
  | some mem =>
    match b.regionBPointer with
    | some _ => b.writeB mem data
    | none =>
      if b.getAFreeSpace < b.getSpaceBeforeA then b.allocateB.writeB mem data
      else if b.getAFreeSpace < data.length then some (false, b)
      else do
        let mem' ← memcpy mem (b.regionAPointer + b.regionASize) data 0 data.length
        return (true, { b with
          buffer := some mem', regionASize := sizeT (b.regionASize + data.length) })

/-- `GetSpace`, which may allocate `B`. -/
def getSpace : ℕ × CircularBuffer :=
  match b.regionBPointer with
  | some _ => (b.getBFreeSpace, b)
  | none =>
    if b.getAFreeSpace < b.getSpaceBeforeA then (b.allocateB.getBFreeSpace, b.allocateB)
    else (b.getAFreeSpace, b)

/-- `GetSize`. -/
def getSize : ℕ := sizeT (b.regionASize + b.regionBSize)

/-- `GetContiguiousBytes`. -/
def getContiguousBytes : ℕ := if b.regionASize ≠ 0 then b.regionASize else b.regionBSize

/-- `GetBufferStart`. -/
def getBufferStart : Option ℕ :=
  if b.regionASize > 0 then some b.regionAPointer else b.regionBPointer

/-- `GetBuffer`. -/
def getBuffer : ℕ :=
  match b.regionBPointer with
  | some p => p + b.regionBSize
  | none => b.regionAPointer + b.regionASize

/-- `IncrementWritten`. -/
def incrementWritten (len : ℕ) : CircularBuffer :=
  match b.regionBPointer with
  | some _ => { b with regionBSize := sizeT (b.regionBSize + len) }
  | none => { b with regionASize := sizeT (b.regionASize + len) }

/-! ## The calls -/

/-- A call. The buffer that is passed to `read` is as long as is said with
it. `commit` is what `GetSpace`, `GetBuffer` and `IncrementWritten` are for:
where the space is enough, the caller puts its bytes behind the end. `peek`
reads what `GetBufferStart` points at. -/
inductive Call
  | read (destination : List UInt8) (bytes : ℕ) (hbytes : bytes ≤ destination.length)
  | write (data : List UInt8)
  | getSpace
  | getSize
  | peek
  | remove (len : ℕ)
  | commit (data : List UInt8)

/-- What a call gives its caller. -/
inductive Answer
  | read (ret : Bool) (destination : List UInt8)
  | write (ret : Bool)
  | size (n : ℕ)
  | peek (bytes : List UInt8)
  | remove
  deriving DecidableEq, Repr

/-- The caller's bytes at `GetBuffer`, and the commit. -/
def commit (data : List UInt8) : Option (Bool × CircularBuffer) :=
  let (space, b') := b.getSpace
  if space < data.length then some (false, b')
  else do
    let mem ← b'.buffer
    let mem' ← memcpy mem b'.getBuffer data 0 data.length
    return (true, ({ b' with buffer := some mem' }).incrementWritten data.length)

/-- The bytes that can be pushed out in one operation. -/
def peek : Option (List UInt8) :=
  if b.getContiguousBytes = 0 then some []
  else do
    let mem ← b.buffer
    let p ← b.getBufferStart
    readAt mem p b.getContiguousBytes

/-- A call, `none` where it faults. -/
def step : Call → Option (Answer × CircularBuffer)
  | .read destination bytes _ =>
    (b.read destination bytes).map fun (ret, dst, b') => (.read ret dst, b')
  | .write data => (b.write data).map fun (ret, b') => (.write ret, b')
  | .getSpace => some (.size b.getSpace.1, b.getSpace.2)
  | .getSize => some (.size b.getSize, b)
  | .peek => b.peek.map fun bs => (.peek bs, b)
  | .remove len => (b.remove len).map fun b' => (.remove, b')
  | .commit data => (b.commit data).map fun (ret, b') => (.write ret, b')

/-! ## The queue a buffer holds -/

/-- **The regions of a buffer** of `size` bytes: `A` lies in the block, `B`
in front of it, and where `A` is empty it is at the front and there is no
`B`. -/
structure Regions (size : ℕ) (mem : List UInt8) (b : CircularBuffer) : Prop where
  buffer : b.buffer = some mem
  length : mem.length = size
  bufferEnd : b.bufferEnd = size
  bounded : size < 2 ^ 64
  regionA : b.regionAPointer + b.regionASize ≤ size
  regionB : b.regionBPointer = none ∧ b.regionBSize = 0 ∨
    b.regionBPointer = some 0 ∧ b.regionBSize ≤ b.regionAPointer
  emptyA : b.regionASize = 0 → b.regionAPointer = 0 ∧ b.regionBPointer = none

/-- The bytes of both regions, the older ones first. -/
def contents (mem : List UInt8) : List UInt8 :=
  region mem b.regionAPointer b.regionASize ++ region mem 0 b.regionBSize

/-- The space behind what is stored: that of `B`, or the larger one where
`B` is still to be allocated. -/
def room (size : ℕ) : ℕ :=
  match b.regionBPointer with
  | some _ => b.regionAPointer - b.regionBSize
  | none => max (size - b.regionAPointer - b.regionASize) b.regionAPointer

/-- **A queue of bytes with the space it promises**, which an empty queue has
all of. -/
@[ext]
structure Queue (size : ℕ) where
  contents : List UInt8
  room : ℕ
  fits : contents.length + room ≤ size
  empty : contents = [] → room = size

/-- **The answers of a queue.** A write succeeds where the promised space is
enough for it, and uses up no more of it than it is long; taking bytes off
the front uses up none. -/
inductive Queue.Answers {size : ℕ} : Queue size → Call → Answer → Queue size → Prop
  | read {q q' : Queue size} {dst : List UInt8} {n : ℕ} (hn : n ≤ dst.length)
      (hle : n ≤ q.contents.length) (hq : q'.contents = q.contents.drop n)
      (hroom : q.room ≤ q'.room) :
    Answers q (.read dst n hn) (.read true (blit dst 0 (q.contents.take n))) q'
  | readNot {q : Queue size} {dst : List UInt8} {n : ℕ} (hn : n ≤ dst.length)
      (hlt : q.contents.length < n) : Answers q (.read dst n hn) (.read false dst) q
  | write {q q' : Queue size} {data : List UInt8} (hle : data.length ≤ q.room)
      (hq : q'.contents = q.contents ++ data) (hroom : q.room ≤ q'.room + data.length) :
    Answers q (.write data) (.write true) q'
  | writeNot {q : Queue size} {data : List UInt8} (hlt : q.room < data.length) :
    Answers q (.write data) (.write false) q
  | getSpace {q : Queue size} : Answers q .getSpace (.size q.room) q
  | getSize {q : Queue size} : Answers q .getSize (.size q.contents.length) q
  | peek {q : Queue size} {n : ℕ} (hle : n ≤ q.contents.length) (hpos : q.contents ≠ [] → 0 < n) :
    Answers q .peek (.peek (q.contents.take n)) q
  | remove {q q' : Queue size} {len : ℕ} (hq : q'.contents = q.contents.drop len)
      (hroom : q.room ≤ q'.room) : Answers q (.remove len) .remove q'
  | commit {q q' : Queue size} {data : List UInt8} (hle : data.length ≤ q.room)
      (hq : q'.contents = q.contents ++ data) (hroom : q.room ≤ q'.room + data.length) :
    Answers q (.commit data) (.write true) q'
  | commitNot {q : Queue size} {data : List UInt8} (hlt : q.room < data.length) :
    Answers q (.commit data) (.write false) q

variable {b} {size : ℕ} {mem data : List UInt8}

namespace Regions

/-- What is stored, in numbers. -/
theorem length_contents (h : Regions size mem b) :
    (b.contents mem).length = b.regionASize + b.regionBSize := by
  obtain ⟨-, hlen, -, -, hA, hB, -⟩ := h
  rw [contents, List.length_append, length_region (by omega), length_region (by omega)]

/-- **The queue that the regions are.** -/
def queue (h : Regions size mem b) : Queue size where
  contents := b.contents mem
  room := b.room size
  fits := by
    rw [h.length_contents]
    obtain ⟨-, -, -, -, hA, hB, -⟩ := h
    rcases hB with ⟨hp, hs⟩ | ⟨hp, hs⟩ <;> simp only [room, hp] <;> omega
  empty hnil := by
    have hlen := h.length_contents
    rw [hnil, List.length_nil] at hlen
    obtain ⟨hzero, hnone⟩ := h.emptyA (by omega)
    simp only [room, hnone, hzero]
    omega

theorem getAFreeSpace (h : Regions size mem b) :
    b.getAFreeSpace = size - b.regionAPointer - b.regionASize := by
  obtain ⟨-, -, hend, hsize, hA, -, -⟩ := h
  unfold CircularBuffer.getAFreeSpace sizeT
  omega

theorem getSpaceBeforeA (h : Regions size mem b) : b.getSpaceBeforeA = b.regionAPointer := by
  obtain ⟨-, -, -, hsize, hA, -, -⟩ := h
  unfold CircularBuffer.getSpaceBeforeA sizeT
  omega

theorem getBFreeSpace (h : Regions size mem b) {p : ℕ} (hp : b.regionBPointer = some p) :
    b.getBFreeSpace = b.regionAPointer - b.regionBSize := by
  obtain ⟨-, -, -, hsize, hA, hB, -⟩ := h
  unfold CircularBuffer.getBFreeSpace sizeT
  rcases hB with ⟨hp', -⟩ | ⟨hp', hs⟩
  · rw [hp'] at hp
    cases hp
  · simp only [hp']
    omega

/-- `B` is allocated where it has more room. -/
theorem allocateB (h : Regions size mem b) (hnone : b.regionBPointer = none)
    (hlt : b.getAFreeSpace < b.getSpaceBeforeA) : Regions size mem b.allocateB := by
  have hfree := h.getAFreeSpace
  have hbefore := h.getSpaceBeforeA
  obtain ⟨hbuf, hlen, hend, hsize, hA, hB, hempty⟩ := h
  refine ⟨hbuf, hlen, hend, hsize, hA, .inr ⟨rfl, ?_⟩, fun hzero => ?_⟩
  · rcases hB with ⟨-, hs⟩ | ⟨hp, -⟩
    · exact hs.trans_le (Nat.zero_le _)
    · rw [hnone] at hp
      cases hp
  · have hzero : b.regionASize = 0 := hzero
    have := (hempty hzero).1
    omega

/-- **`GetSpace`** answers with the room, and changes nothing of it. -/
theorem getSpace (h : Regions size mem b) :
    ∃ h' : Regions size mem b.getSpace.2, b.getSpace.1 = b.room size ∧ h'.queue = h.queue ∧
      (b.getSpace.2.regionBPointer = none → b.getSpace.1 = size - b.regionAPointer - b.regionASize ∧
        b.getSpace.2 = b) := by
  have hfree := h.getAFreeSpace
  have hbefore := h.getSpaceBeforeA
  rcases hp : b.regionBPointer with _ | p
  · by_cases hlt : b.getAFreeSpace < b.getSpaceBeforeA
    · have heq : b.getSpace = (b.allocateB.getBFreeSpace, b.allocateB) := by
        simp only [CircularBuffer.getSpace, hp, if_pos hlt]
      have h' := h.allocateB hp hlt
      have hzero : b.regionBSize = 0 := by
        rcases h.regionB with ⟨-, hs⟩ | ⟨hp', -⟩
        · exact hs
        · rw [hp] at hp'
          cases hp'
      have hB : b.allocateB.getBFreeSpace = b.regionAPointer - b.regionBSize :=
        h'.getBFreeSpace rfl
      have hroom : b.room size = b.regionAPointer - b.regionBSize := by
        simp only [room, hp]
        omega
      rw [heq]
      refine ⟨h', by rw [hB, hroom], Queue.ext rfl hroom.symm, nofun⟩
    · have heq : b.getSpace = (b.getAFreeSpace, b) := by
        simp only [CircularBuffer.getSpace, hp, if_neg hlt]
      rw [heq]
      refine ⟨h, ?_, rfl, fun _ => ⟨hfree, rfl⟩⟩
      simp only [room, hp]
      omega
  · have heq : b.getSpace = (b.getBFreeSpace, b) := by
      simp only [CircularBuffer.getSpace, hp]
    rw [heq]
    refine ⟨h, ?_, rfl, fun hnone => ?_⟩
    · rw [h.getBFreeSpace hp]
      simp only [room, hp]
    · rw [hp] at hnone
      cases hnone

end Regions

/-! ## Adding bytes -/

/-- **`Write` is `GetSpace`, `GetBuffer` and `IncrementWritten`**, where
there is a block. -/
theorem write_eq_commit (hbuf : b.buffer = some mem) (data : List UInt8) :
    b.write data = b.commit data := by
  rcases hp : b.regionBPointer with _ | p
  · by_cases hlt : b.getAFreeSpace < b.getSpaceBeforeA
    · have hspace : b.getSpace = (b.allocateB.getBFreeSpace, b.allocateB) := by
        simp only [getSpace, hp, if_pos hlt]
      have hbuf' : b.allocateB.buffer = some mem := hbuf
      simp only [write, hbuf, hp, if_pos hlt, commit, hspace, writeB, hbuf']
      rfl
    · have hspace : b.getSpace = (b.getAFreeSpace, b) := by
        simp only [getSpace, hp, if_neg hlt]
      simp only [write, hbuf, hp, if_neg hlt, commit, hspace, getBuffer, incrementWritten]
      rfl
  · have hspace : b.getSpace = (b.getBFreeSpace, b) := by
      simp only [getSpace, hp]
    simp only [write, hbuf, hp, commit, hspace, writeB, getBuffer, incrementWritten]
    rfl

/-- Bytes that fit behind the end are appended, and use up no more than
their own space. -/
theorem Regions.append (h : Regions size mem b) (data : List UInt8) (hfit : data.length ≤
      match b.regionBPointer with
      | some _ => b.regionAPointer - b.regionBSize
      | none => size - b.regionAPointer - b.regionASize)
    (hroom : b.room size =
      match b.regionBPointer with
      | some _ => b.regionAPointer - b.regionBSize
      | none => size - b.regionAPointer - b.regionASize) :
    memcpy mem b.getBuffer data 0 data.length = some (blit mem b.getBuffer data) ∧
      ∃ h' : Regions size (blit mem b.getBuffer data)
          (({ b with buffer := some (blit mem b.getBuffer data) }).incrementWritten data.length),
        h'.queue.contents = h.queue.contents ++ data ∧
          h.queue.room ≤ h'.queue.room + data.length := by
  obtain ⟨-, hlen, hend, hsize, hA, hB, hempty⟩ := id h
  have htake : (data.drop 0).take data.length = data := by
    rw [List.drop_zero, List.take_length]
  rcases hp : b.regionBPointer with _ | p
  · simp only [hp] at hfit hroom
    have hBzero : b.regionBSize = 0 := by
      rcases hB with ⟨-, hs⟩ | ⟨hp', -⟩
      · exact hs
      · rw [hp] at hp'
        cases hp'
    have hbuf : b.getBuffer = b.regionAPointer + b.regionASize := by
      simp only [getBuffer, hp]
    have hnew : sizeT ((b.regionASize : ℤ) + data.length) = b.regionASize + data.length := by
      unfold sizeT
      omega
    rw [hbuf, memcpy_eq (by omega) (by omega), htake]
    refine ⟨rfl, ?_⟩
    simp only [incrementWritten, hnew]
    refine ⟨⟨rfl, ?_, hend, hsize, by simp only; omega, .inl ⟨rfl, hBzero⟩, fun hzero => ?_⟩,
      ?_, ?_⟩
    · rw [length_blit (by omega), hlen]
    · simp only at hzero
      exact ⟨(hempty (by omega)).1, rfl⟩
    · simp only [Regions.queue, contents, hBzero, region_zero, List.append_nil]
      rw [region_add, region_blit_of_disjoint (by omega) (by omega), region_blit (by omega)]
    · have hold : h.queue.room = size - b.regionAPointer - b.regionASize := hroom
      rw [hold]
      simp only [Regions.queue, room]
      omega
  · simp only [hp] at hfit hroom
    obtain ⟨hp', hs⟩ := hB.resolve_left (by rw [hp]; simp)
    rw [hp'] at hp
    injection hp with hp
    subst hp
    have hbuf : b.getBuffer = b.regionBSize := by
      simp only [getBuffer, hp', Nat.zero_add]
    have hnew : sizeT ((b.regionBSize : ℤ) + data.length) = b.regionBSize + data.length := by
      unfold sizeT
      omega
    rw [hbuf, memcpy_eq (by omega) (by omega), htake]
    refine ⟨rfl, ?_⟩
    simp only [incrementWritten, hnew]
    refine ⟨⟨rfl, ?_, hend, hsize, hA, .inr ⟨rfl, by simp only; omega⟩, fun hzero => ?_⟩, ?_, ?_⟩
    · rw [length_blit (by omega), hlen]
    · have hnone := (hempty hzero).2
      rw [hp'] at hnone
      cases hnone
    · have hback : region (blit mem b.regionBSize data) 0 (b.regionBSize + data.length) =
          region mem 0 b.regionBSize ++ data := by
        rw [region_add, region_blit_of_disjoint (by omega) (by omega), Nat.zero_add,
          region_blit (by omega)]
      simp only [Regions.queue, contents]
      rw [region_blit_of_disjoint (by omega) (by omega), hback, List.append_assoc]
    · have hold : h.queue.room = b.regionAPointer - b.regionBSize := hroom
      rw [hold]
      simp only [Regions.queue, room]
      omega

/-- **`commit`** takes what `GetSpace` has the space for. -/
theorem Regions.commit (h : Regions size mem b) (data : List UInt8) :
    (h.queue.room < data.length ∧ ∃ h' : Regions size mem b.getSpace.2,
        b.commit data = some (false, b.getSpace.2) ∧ h'.queue = h.queue) ∨
      data.length ≤ h.queue.room ∧ ∃ mem' b', ∃ h' : Regions size mem' b',
        b.commit data = some (true, b') ∧ h'.queue.contents = h.queue.contents ++ data ∧
          h.queue.room ≤ h'.queue.room + data.length := by
  obtain ⟨h', hspace, hqueue, hnone⟩ := h.getSpace
  have hroom : b.getSpace.1 = h.queue.room := hspace
  by_cases hlt : b.getSpace.1 < data.length
  · refine .inl ⟨by omega, h', ?_, hqueue⟩
    simp only [CircularBuffer.commit, if_pos hlt]
  · have hgap : b.getSpace.1 =
        match b.getSpace.2.regionBPointer with
        | some _ => b.getSpace.2.regionAPointer - b.getSpace.2.regionBSize
        | none => size - b.getSpace.2.regionAPointer - b.getSpace.2.regionASize := by
      have hroom' : b.getSpace.1 = b.getSpace.2.room size := by
        rw [hroom, ← hqueue]
        rfl
      rcases hp : b.getSpace.2.regionBPointer with _ | p
      · obtain ⟨hfree, heq⟩ := hnone hp
        simp only [hfree, heq]
      · rw [hroom', room, hp]
    have hroom' : b.getSpace.2.room size = b.getSpace.1 := by
      rw [hroom, ← hqueue]
      rfl
    obtain ⟨hcopy, h'', hcontents, hleft⟩ :=
      h'.append data (by rw [← hgap]; omega) (by rw [hroom', hgap])
    refine .inr ⟨by omega, _, _, h'', ?_, ?_, ?_⟩
    · simp only [CircularBuffer.commit, if_neg hlt, h'.buffer, hcopy, Option.bind_eq_bind,
        Option.bind_some]
      rfl
    · rw [hcontents, hqueue]
    · rwa [hqueue] at hleft

/-! ## Taking bytes -/

theorem fromA_eq (cnt : ℕ) : b.fromA cnt = min cnt b.regionASize := by
  unfold fromA
  split_ifs <;> omega

theorem fromB_eq (cnt : ℕ) : b.fromB cnt = min cnt b.regionBSize := by
  unfold fromB
  split_ifs <;> omega

/-- What is left of `B`, at the front of the block. -/
theorem pushToStart_spec (b : CircularBuffer) (mem : List UInt8) (p : ℕ)
    (h : p + b.regionBSize ≤ mem.length) :
    ∃ mem', b.pushToStart mem p = some mem' ∧ mem'.length = mem.length ∧
      region mem' 0 b.regionBSize = region mem p b.regionBSize := by
  unfold pushToStart
  by_cases hzero : p = 0
  · exact ⟨mem, by rw [if_neg (not_not.mpr hzero)], rfl, by rw [hzero]⟩
  · have hlen : (region mem p b.regionBSize).length = b.regionBSize := length_region h
    have hin : 0 + (region mem p b.regionBSize).length ≤ mem.length := by omega
    have hread := region_blit hin
    rw [hlen] at hread
    exact ⟨_, by rw [if_pos hzero, memcpy_eq (by omega) h]; rfl, length_blit hin, hread⟩

/-- **`Remove`** drops bytes from the front, as many as there are. -/
theorem Regions.remove (h : Regions size mem b) (len : ℕ) :
    ∃ mem' b', b.remove len = some b' ∧ ∃ h' : Regions size mem' b',
      h'.queue.contents = h.queue.contents.drop len ∧ h.queue.room ≤ h'.queue.room := by
  obtain ⟨hbuf, hlen, hend, hsize, hA, hB, hempty⟩ := id h
  have hlenA : (region mem b.regionAPointer b.regionASize).length = b.regionASize :=
    length_region (by omega)
  have holdroom : h.queue.room = b.room size := rfl
  have hold : h.queue.contents.drop len =
      region mem (b.regionAPointer + len) (b.regionASize - len) ++
      region mem (len - b.regionASize) (b.regionBSize - (len - b.regionASize)) := by
    show (region mem b.regionAPointer b.regionASize ++ region mem 0 b.regionBSize).drop len = _
    rw [List.drop_append, hlenA, drop_region, drop_region, Nat.zero_add]
  unfold CircularBuffer.remove
  simp only [fromA_eq, fromB_eq, cutA, cutB]
  by_cases hless : len < b.regionASize
  · -- `A` is shortened, and nothing else
    have hmin : min len b.regionASize = len := by omega
    have hnot : ¬ b.regionASize - len = 0 := by omega
    have hmap : b.regionBPointer.map (· + 0) = b.regionBPointer := by simp
    have hnone : region mem (len - b.regionASize) (b.regionBSize - (len - b.regionASize)) =
        region mem 0 b.regionBSize := by
      rw [Nat.sub_eq_zero_of_le (by omega), Nat.sub_zero]
    simp only [hmin, Nat.sub_self, Nat.zero_min, Nat.sub_zero, hmap, moveBToA, if_neg hnot]
    refine ⟨mem, _, rfl, ⟨hbuf, hlen, hend, hsize, ?_, ?_, fun hzero => ?_⟩, ?_, ?_⟩
    · show b.regionAPointer + len + (b.regionASize - len) ≤ size
      omega
    · rcases hB with hB | ⟨hp, hs⟩
      · exact .inl hB
      · exact .inr ⟨hp, by simp only; omega⟩
    · simp only at hzero
      omega
    · rw [hold, hnone]
      rfl
    · rw [holdroom]
      simp only [Regions.queue, room]
      rcases hB with ⟨hp, hs⟩ | ⟨hp, hs⟩ <;> simp only [hp] <;> omega
  · have hmin : min len b.regionASize = b.regionASize := by omega
    have hnone : region mem (b.regionAPointer + len) (b.regionASize - len) = [] := by
      rw [Nat.sub_eq_zero_of_le (by omega), region_zero]
    rw [hnone, List.nil_append] at hold
    simp only [hmin, moveBToA, Nat.sub_self, if_true]
    by_cases hmore : len - b.regionASize < b.regionBSize
    · -- what is left of `B` is moved to the front
      obtain ⟨hp, hs⟩ := hB.resolve_left (by omega)
      have hcut : min (len - b.regionASize) b.regionBSize = len - b.regionASize := by omega
      have hpos : b.regionBSize - (len - b.regionASize) > 0 := by omega
      obtain ⟨mem', hmem', hlen', hread⟩ := pushToStart_spec
        { b with
          regionASize := 0, regionAPointer := b.regionAPointer + b.regionASize,
          regionBSize := b.regionBSize - (len - b.regionASize),
          regionBPointer := some (len - b.regionASize) } mem (len - b.regionASize)
        (by simp only; omega)
      simp only [hcut, if_pos hpos, hp, hbuf, Option.map_some, Option.bind_eq_bind,
        Option.bind_some, Nat.zero_add]
      rw [← hbuf, hmem']
      refine ⟨mem', _, rfl, ⟨rfl, hlen'.trans hlen, hend, hsize, ?_, .inl ⟨rfl, rfl⟩,
        fun _ => ⟨rfl, rfl⟩⟩, ?_, ?_⟩
      · show 0 + (b.regionBSize - (len - b.regionASize)) ≤ size
        omega
      · rw [hold, ← hread]
        exact List.append_nil _
      · rw [holdroom]
        simp only [Regions.queue, room, hp]
        omega
    · -- nothing is left
      have hcut : min (len - b.regionASize) b.regionBSize = b.regionBSize := by omega
      have hnot : ¬ b.regionBSize - b.regionBSize > 0 := by omega
      simp only [hcut, if_neg hnot]
      refine ⟨mem, _, rfl, ⟨hbuf, hlen, hend, hsize, Nat.zero_le _, .inl ⟨rfl, rfl⟩,
        fun _ => ⟨rfl, rfl⟩⟩, ?_, ?_⟩
      · have hnil : b.regionBSize - (len - b.regionASize) = 0 := by omega
        rw [hold, hnil, region_zero]
        simp [Regions.queue, contents]
      · rw [holdroom]
        simp only [Regions.queue, room]
        rcases hB with ⟨hp, hs⟩ | ⟨hp, hs⟩ <;> simp only [hp] <;> omega

/-- **`Read`** copies what `Remove` drops. -/
theorem Regions.read (h : Regions size mem b) {dst : List UInt8} {n : ℕ} (hn : n ≤ dst.length) :
    b.read dst n =
      if h.queue.contents.length < n then some (false, dst, b)
      else (b.remove n).map fun b' => (true, blit dst 0 (h.queue.contents.take n), b') := by
  have hcontents : h.queue.contents.length = b.regionASize + b.regionBSize := h.length_contents
  obtain ⟨hbuf, hlen, -, hsize, hA, hB, -⟩ := id h
  have hsum : sizeT ((b.regionASize : ℤ) + b.regionBSize) = b.regionASize + b.regionBSize := by
    unfold sizeT
    omega
  have hlenA : (region mem b.regionAPointer b.regionASize).length = b.regionASize :=
    length_region (by omega)
  have htake : h.queue.contents.take n = region mem b.regionAPointer (min n b.regionASize) ++
      region mem 0 (min (n - b.regionASize) b.regionBSize) := by
    show (region mem b.regionAPointer b.regionASize ++ region mem 0 b.regionBSize).take n = _
    rw [List.take_append, hlenA]
    refine congrArg₂ _ ?_ ?_
    · rw [region, List.take_take]
      rfl
    · rw [region, List.take_take]
      rfl
  simp only [CircularBuffer.read, hbuf, hsum, hcontents]
  split
  · rfl
  · rename_i hle
    -- the two copies, one behind the other
    have hfirst : b.copyA mem dst (b.fromA n) =
        some (blit dst 0 (region mem b.regionAPointer (min n b.regionASize))) := by
      rw [fromA_eq]
      unfold copyA
      split
      · exact memcpy_eq (by omega) (by omega)
      · rw [show min n b.regionASize = 0 by omega, region_zero, blit_nil]
    have hsub : n - min n b.regionASize = n - b.regionASize := by omega
    have hlenTake : (region mem b.regionAPointer (min n b.regionASize)).length =
        min n b.regionASize := length_region (by omega)
    have hsecond : (b.cutA (b.fromA n)).copyB mem
        (blit dst 0 (region mem b.regionAPointer (min n b.regionASize))) (b.fromA n)
        ((b.cutA (b.fromA n)).fromB (n - b.fromA n)) =
        some (blit dst 0 (h.queue.contents.take n)) := by
      rw [htake, fromB_eq, fromA_eq, hsub]
      have hBsize : (b.cutA (min n b.regionASize)).regionBSize = b.regionBSize := rfl
      have hBptr : (b.cutA (min n b.regionASize)).regionBPointer = b.regionBPointer := rfl
      unfold copyB
      rw [hBsize, hBptr]
      split
      · obtain ⟨hp, -⟩ := hB.resolve_left (by omega)
        rw [hp, Option.bind_some, memcpy_eq (by rw [length_blit (by omega)]; omega) (by omega)]
        have hjoin := blit_blit (region mem b.regionAPointer (min n b.regionASize))
          (region mem 0 (min (n - b.regionASize) b.regionBSize)) (Nat.zero_le dst.length)
        rw [Nat.zero_add, hlenTake] at hjoin
        exact congrArg some hjoin
      · rw [show min (n - b.regionASize) b.regionBSize = 0 by omega, region_zero, List.append_nil]
    simp only [hfirst, Option.bind_eq_bind, Option.bind_some, hsecond]
    unfold CircularBuffer.remove
    rcases ((b.cutA (b.fromA n)).cutB ((b.cutA (b.fromA n)).fromB (n - b.fromA n))).moveBToA with
      _ | b' <;> rfl

/-- **`GetBufferStart`** points at the first bytes. -/
theorem Regions.peek (h : Regions size mem b) :
    ∃ n, b.peek = some (h.queue.contents.take n) ∧ n ≤ h.queue.contents.length ∧
      (h.queue.contents ≠ [] → 0 < n) := by
  have hcontents : h.queue.contents.length = b.regionASize + b.regionBSize := h.length_contents
  obtain ⟨hbuf, hlen, -, -, hA, hB, hempty⟩ := id h
  have hlenA : (region mem b.regionAPointer b.regionASize).length = b.regionASize :=
    length_region (by omega)
  refine ⟨b.regionASize, ?_, by omega, fun hne => ?_⟩
  · have htake : h.queue.contents.take b.regionASize = region mem b.regionAPointer b.regionASize :=
      List.take_left' hlenA
    rw [htake]
    unfold CircularBuffer.peek getContiguousBytes getBufferStart
    by_cases hzero : b.regionASize = 0
    · have hBzero : b.regionBSize = 0 := by
        rcases hB with ⟨-, hs⟩ | ⟨hp, -⟩
        · exact hs
        · rw [(hempty hzero).2] at hp
          cases hp
      simp [hzero, hBzero]
    · have hpos : b.regionASize > 0 := by omega
      simp only [hzero, ne_eq, not_false_eq_true, if_true, if_false, if_pos hpos, hbuf,
        Option.bind_eq_bind, Option.bind_some]
      exact readAt_eq (by omega)
  · by_contra hzero
    have hzero : b.regionASize = 0 := by omega
    have hBzero : b.regionBSize = 0 := by
      rcases hB with ⟨-, hs⟩ | ⟨hp, -⟩
      · exact hs
      · rw [(hempty hzero).2] at hp
        cases hp
    exact hne (List.eq_nil_of_length_eq_zero (by omega))

/-! ## Every run of calls -/

/-- **The buffer `b` holds the queue `q`.** -/
def Holds (size : ℕ) (b : CircularBuffer) (q : Queue size) : Prop :=
  ∃ mem, ∃ h : Regions size mem b, q = h.queue

/-- **A call is answered as the queue allows**, and does not fault. -/
theorem Holds.step {q : Queue size} (h : Holds size b q) (c : Call) :
    ∃ o b' q', b.step c = some (o, b') ∧ q.Answers c o q' ∧ Holds size b' q' := by
  obtain ⟨mem, h, rfl⟩ := h
  have hsame : Holds size b h.queue := ⟨mem, h, rfl⟩
  cases c with
  | read dst n hn =>
    have hread := h.read hn
    obtain ⟨mem', b', hremove, h', hcontents, hroom⟩ := h.remove n
    simp only [CircularBuffer.step]
    by_cases hlt : h.queue.contents.length < n
    · rw [if_pos hlt] at hread
      exact ⟨_, b, _, by rw [hread, Option.map_some], .readNot hn hlt, hsame⟩
    · rw [if_neg hlt, hremove] at hread
      exact ⟨_, b', _, by rw [hread, Option.map_some, Option.map_some],
        .read hn (by omega) hcontents hroom, mem', h', rfl⟩
  | write data =>
    simp only [CircularBuffer.step, write_eq_commit h.buffer]
    rcases h.commit data with
      ⟨hlt, h', hcommit, hqueue⟩ | ⟨hle, mem', b', h', hcommit, hcontents, hroom⟩
    · exact ⟨_, _, _, by rw [hcommit, Option.map_some], .writeNot hlt, mem, h', hqueue.symm⟩
    · exact ⟨_, _, _, by rw [hcommit, Option.map_some], .write hle hcontents hroom, mem', h', rfl⟩
  | getSpace =>
    obtain ⟨h', hspace, hqueue, -⟩ := h.getSpace
    refine ⟨_, _, _, rfl, ?_, mem, h', hqueue.symm⟩
    rw [hspace]
    exact .getSpace
  | getSize =>
    have hsize : b.getSize = h.queue.contents.length := by
      obtain ⟨-, -, -, hbounded, hA, hB, -⟩ := id h
      have hcontents : h.queue.contents.length = b.regionASize + b.regionBSize := h.length_contents
      rw [hcontents]
      unfold CircularBuffer.getSize sizeT
      omega
    refine ⟨_, b, _, rfl, ?_, hsame⟩
    rw [hsize]
    exact .getSize
  | peek =>
    obtain ⟨n, hpeek, hle, hpos⟩ := h.peek
    exact ⟨_, b, _, by rw [CircularBuffer.step, hpeek, Option.map_some], .peek hle hpos, hsame⟩
  | remove len =>
    obtain ⟨mem', b', hremove, h', hcontents, hroom⟩ := h.remove len
    exact ⟨_, b', _, by rw [CircularBuffer.step, hremove, Option.map_some],
      .remove hcontents hroom, mem', h', rfl⟩
  | commit data =>
    simp only [CircularBuffer.step]
    rcases h.commit data with
      ⟨hlt, h', hcommit, hqueue⟩ | ⟨hle, mem', b', h', hcommit, hcontents, hroom⟩
    · exact ⟨_, _, _, by rw [hcommit, Option.map_some], .commitNot hlt, mem, h', hqueue.symm⟩
    · exact ⟨_, _, _, by rw [hcommit, Option.map_some], .commit hle hcontents hroom, mem', h', rfl⟩

/-- The queue of a buffer that was just allocated. -/
def Queue.new (size : ℕ) : Queue size := ⟨[], size, by simp, fun _ => rfl⟩

theorem holds_allocate (hmem : mem.length < 2 ^ 64) :
    Holds mem.length (new.allocate mem) (.new mem.length) := by
  refine ⟨mem, ⟨rfl, rfl, rfl, hmem, Nat.zero_le _, .inl ⟨rfl, rfl⟩, fun _ => ⟨rfl, rfl⟩⟩, ?_⟩
  refine Queue.ext ?_ ?_
  · simp [Queue.new, Regions.queue, contents, new, allocate]
  · simp [Queue.new, Regions.queue, room, new, allocate]

/-- **The circular buffer is a queue that keeps its promises.** Whatever is
called on a buffer once it has its block, no access leaves the block or the
caller's buffer, every byte is read once and in the order of writing, and a
write succeeds exactly where the space that `GetSpace` reports is enough for
it. -/
theorem runOps_circularBuffer (hmem : mem.length < 2 ^ 64) (calls : List Call) :
    ∃ answers b' q', runOps step (new.allocate mem) calls = some (answers, b') ∧
      Allows Queue.Answers (Queue.new mem.length) calls answers q' ∧ Holds mem.length b' q' :=
  runOps_conforms (R := Holds mem.length) (fun _ _ c h => h.step c) (holds_allocate hmem) calls

/-- A block of four bytes, with a second region while the first is read. -/
theorem runOps_circularBuffer_wrap :
    ∃ answers b' q', runOps step (new.allocate [0, 0, 0, 0])
        [.write [1, 2, 3], .remove 2, .write [4, 5], .read [0, 0, 0] 3 (by decide)] =
          some (answers, b') ∧
      Allows Queue.Answers (Queue.new 4)
        [.write [1, 2, 3], .remove 2, .write [4, 5], .read [0, 0, 0] 3 (by decide)] answers q' ∧
      Holds 4 b' q' :=
  @runOps_circularBuffer [0, 0, 0, 0] (by decide) _

end CircularBuffer

end Utility

end EupuServer
