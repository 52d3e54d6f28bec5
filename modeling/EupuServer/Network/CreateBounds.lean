import EupuServer.Common.Memory
import EupuServer.Network.CreateMsg
/-!
# Where a message is written

`createMsgToSendList` adds the header to the size it is given before it
allocates, and takes it off again for the room of the body. Where the sum
leaves 32 bits the room is still the size that was given, and the
allocation is less than a header (`createFrameAt_isSome_iff`).
-/

namespace EupuServer

namespace Network

open Bytes Protocol

/-- A `CEupuStream` with what it writes: `Out` with room for `n` bytes
writes at most `n` of them, also where it fails. -/
structure BodyWriter where
  out : ℕ → Bool × List UInt8
  out_le : ∀ n, (out n).2.length ≤ n

/-- What the caller sees of it. -/
def BodyWriter.stream (w : BodyWriter) : BodyStream where
  out n := if (w.out n).1 then some (w.out n).2 else none
  out_le := by
    intro n bs h
    split at h
    · exact Option.some.inj h ▸ w.out_le n
    · cases h

/-- The request with `w` for its stream. -/
def SendRequest.through (r : SendRequest) (w : Option BodyWriter) : SendRequest :=
  { r with pstream := w.map BodyWriter.stream }

/-- A write of `bs` at `pdata + off`; `none` where a byte of it lies outside
of the allocation. -/
def writeIn (pdata : List UInt8) (off : ℕ) (bs : List UInt8) : Option (List UInt8) :=
  if bs = [] ∨ off + bs.length ≤ pdata.length then some (blit pdata off bs) else none

/-- `withBody` with the write checked; `none` where the body is written
outside of the allocation. -/
def withBodyAt (r : SendRequest) (w : Option BodyWriter) : Option (Option NetData) :=
  let d := (r.through w).alloc
  match w with
  | none => some (some d)
  | some stream =>
    let body := stream.out (uint32 (d.dataLen - netHeadSize))
    (writeIn d.pdata netHeadSize body.2).map fun pdata =>
      if body.1 then
        some { d with pdata := pdata, dataLen := uint32 (body.2.length + netHeadSize) }
      else none

variable (host : Host)

/-- What is done to the `NET_DATA` once the body is in it; `none` where the
header is written outside of the allocation. -/
def putHead (r : SendRequest) (d : NetData) : Option (Option NetData) :=
  if d.dataLen > maxSendSize then some none
  -- a size of zero leaves a null pointer, and `Out` refuses it
  else if r.alloc.dataLen = 0 then some none
  else
    match (r.head d.dataLen).out host netHeadSize with
    | none => some none
    | some hd => (writeIn d.pdata 0 hd).map fun pdata => some { d with pdata := pdata }

/-- `createFrame` with every write checked: its result, `none` where a byte
is written outside of what `NET_DATA::init` allocated. -/
def createFrameAt (r : SendRequest) (w : Option BodyWriter) : Option (Option NetData) :=
  if r.fd < 0 then some none
  else
    match withBodyAt r w with
    | none => none
    | some none => some none
    | some (some d) => putHead host (r.through w) d

variable {host} {r : SendRequest} {w : Option BodyWriter} {d : NetData} {o : Option NetData}

theorem writeIn_eq_some {pdata bs pdata' : List UInt8} {off : ℕ}
    (h : writeIn pdata off bs = some pdata') : pdata' = blit pdata off bs := by
  unfold writeIn at h
  split_ifs at h
  exact (Option.some.inj h).symm

/-! ## The frame is the one that is built -/

/-- Inside, the body is put in as `withBody` does. -/
theorem withBodyAt_eq (h : withBodyAt r w = some o) : o = (r.through w).withBody := by
  cases w with
  | none => exact (Option.some.inj h).symm
  | some stream =>
    obtain ⟨pdata, hwrite, rfl⟩ := Option.map_eq_some_iff.mp h
    rw [writeIn_eq_some hwrite]
    change _ = (stream.stream.out _).map _
    rw [BodyWriter.stream]
    by_cases hok : (stream.out (uint32 ((r.through (some stream)).alloc.dataLen -
        netHeadSize))).1 = true
    · simp only [hok, if_true]
      rfl
    · simp only [hok]
      rfl

/-- Inside, the header is put in as the frame is built. -/
theorem putHead_eq (h : putHead host r d = some o) :
    o = if d.dataLen > maxSendSize then none
      else if r.alloc.dataLen = 0 then none
      else ((r.head d.dataLen).out host netHeadSize).map fun hd =>
        { d with pdata := blit d.pdata 0 hd } := by
  unfold putHead at h
  split_ifs at h ⊢ with hbig hnull
  · exact (Option.some.inj h).symm
  · exact (Option.some.inj h).symm
  · cases hout : (r.head d.dataLen).out host netHeadSize with
    | none =>
      rw [hout] at h
      exact (Option.some.inj h).symm
    | some hd =>
      rw [hout] at h
      obtain ⟨pdata, hwrite, rfl⟩ := Option.map_eq_some_iff.mp h
      rw [writeIn_eq_some hwrite]
      rfl

/-- **Where nothing is written outside, the frame is the one that is built.** -/
theorem createFrameAt_eq (h : createFrameAt host r w = some o) :
    o = createFrame host (r.through w) := by
  unfold createFrameAt at h
  have hfd : (r.through w).fd = r.fd := rfl
  by_cases hneg : r.fd < 0
  · rw [if_pos hneg] at h
    rw [createFrame, hfd, if_pos hneg]
    exact (Option.some.inj h).symm
  · rw [if_neg hneg] at h
    rw [createFrame, hfd, if_neg hneg]
    rcases hbody : withBodyAt r w with _ | _ | d
    · rw [hbody] at h
      cases h
    · rw [hbody] at h
      rw [← withBodyAt_eq hbody]
      exact (Option.some.inj h).symm
    · rw [hbody] at h
      rw [← withBodyAt_eq hbody]
      exact putHead_eq h

/-! ## When nothing is written outside -/

/-- What `init` allocates. -/
theorem length_alloc (r : SendRequest) : r.alloc.pdata.length = r.alloc.dataLen :=
  List.length_replicate

/-- The room of the body is the size that was given, also where the sum
leaves 32 bits. -/
theorem uint32_room {stream : BodyWriter} (hlen : r.nlen < 2 ^ 32) :
    uint32 ((r.through (some stream)).alloc.dataLen - netHeadSize) = r.nlen := by
  have halloc : (r.through (some stream)).alloc.dataLen = uint32 ((r.nlen : ℤ) + netHeadSize) := rfl
  rw [halloc]
  unfold uint32 netHeadSize
  omega

/-- **The header is written inside** where there is room for it, or it is
not written: the message is too long, or nothing was allocated. -/
theorem putHead_isSome_iff : (putHead host r d).isSome ↔
    maxSendSize < d.dataLen ∨ r.alloc.dataLen = 0 ∨ netHeadSize ≤ d.pdata.length := by
  by_cases hbig : d.dataLen > maxSendSize
  · rw [putHead, if_pos hbig]
    exact iff_of_true rfl (.inl hbig)
  rw [putHead, if_neg hbig, or_iff_right hbig,
    NetMessageHead.out_eq _ (by unfold netHeadSize; omega), if_pos (le_refl _)]
  by_cases hnull : r.alloc.dataLen = 0
  · rw [if_pos hnull]
    exact iff_of_true rfl (.inl hnull)
  · have hhead := (r.head d.dataLen).length_encode
    have hne : encodeFields (r.head d.dataLen).fields ≠ [] := by
      intro hnil
      rw [hnil] at hhead
      cases hhead
    rw [if_neg hnull, or_iff_right hnull]
    simp only [writeIn, hne, false_or, hhead, Nat.zero_add]
    split_ifs with hroom
    · exact iff_of_true rfl hroom
    · exact iff_of_false nofun hroom

/-- Without a stream there is room for the header alone. -/
theorem createFrameAt_none : (createFrameAt host r none).isSome := by
  by_cases hneg : r.fd < 0
  · rw [createFrameAt, if_pos hneg]
    rfl
  · rw [createFrameAt, if_neg hneg]
    exact putHead_isSome_iff.mpr (.inr (.inr (by rw [length_alloc]; exact le_refl _)))

/-- With one the body is written first, and then the header where `Out`
succeeds. -/
theorem createFrameAt_some (stream : BodyWriter) (hfd : ¬ r.fd < 0) (hlen : r.nlen < 2 ^ 32) :
    (createFrameAt host r (some stream)).isSome ↔
      ((stream.out r.nlen).2 = [] ∨
        netHeadSize + (stream.out r.nlen).2.length ≤ uint32 (r.nlen + netHeadSize)) ∧
      ((stream.out r.nlen).1 = false ∨
        maxSendSize < uint32 ((stream.out r.nlen).2.length + netHeadSize) ∨
        uint32 (r.nlen + netHeadSize) = 0 ∨ netHeadSize ≤ uint32 (r.nlen + netHeadSize)) := by
  have halloc : (r.through (some stream)).alloc.dataLen = uint32 (r.nlen + netHeadSize) := rfl
  have hpdata := length_alloc (r.through (some stream))
  rw [createFrameAt, if_neg hfd, withBodyAt, uint32_room hlen]
  by_cases hin : (stream.out r.nlen).2 = [] ∨
      netHeadSize + (stream.out r.nlen).2.length ≤ uint32 (r.nlen + netHeadSize)
  · have hwrite : writeIn (r.through (some stream)).alloc.pdata netHeadSize (stream.out r.nlen).2 =
        some (blit (r.through (some stream)).alloc.pdata netHeadSize (stream.out r.nlen).2) := by
      rw [writeIn, hpdata, halloc, if_pos hin]
    have hlength : (blit (r.through (some stream)).alloc.pdata netHeadSize
        (stream.out r.nlen).2).length = uint32 (r.nlen + netHeadSize) := by
      rcases hin with hnil | hle
      · rw [hnil, blit_nil, hpdata, halloc]
      · rw [length_blit (by rw [hpdata, halloc]; exact hle), hpdata, halloc]
    rw [and_iff_right hin, hwrite]
    cases hok : (stream.out r.nlen).1 with
    | false => exact iff_of_true rfl (.inl rfl)
    | true =>
      simp only [Option.map_some, if_true]
      rw [putHead_isSome_iff, hlength, halloc]
      simp
  -- the body is written outside
  · have hwrite : writeIn (r.through (some stream)).alloc.pdata netHeadSize (stream.out r.nlen).2 =
        none := by
      rw [writeIn, hpdata, halloc, if_neg hin]
    rw [hwrite]
    exact iff_of_false nofun fun h => hin h.1

/-- Where the sum stays within 32 bits there is room for both. -/
theorem createFrameAt_of_fits (stream : BodyWriter) (hfd : ¬ r.fd < 0) (hlen : r.nlen < 2 ^ 32)
    (hfit : r.nlen + netHeadSize < 2 ^ 32) : (createFrameAt host r (some stream)).isSome := by
  have hle := stream.out_le r.nlen
  have hsum : uint32 ((r.nlen : ℤ) + netHeadSize) = r.nlen + netHeadSize :=
    uint32_of_lt (n := r.nlen + netHeadSize) hfit
  rw [createFrameAt_some stream hfd hlen, hsum]
  exact ⟨.inr (by omega), .inr (.inr (.inr (by omega)))⟩

/-- Where it does not, what is left of the sum is less than a header. -/
theorem createFrameAt_of_wraps (stream : BodyWriter) (hfd : ¬ r.fd < 0) (hlen : r.nlen < 2 ^ 32)
    (hwrap : 2 ^ 32 ≤ r.nlen + netHeadSize) :
    (createFrameAt host r (some stream)).isSome ↔ (stream.out r.nlen).2 = [] ∧
      ((stream.out r.nlen).1 = false ∨ r.nlen + netHeadSize = 2 ^ 32) := by
  have hhead : netHeadSize = 8 := rfl
  have hsum : uint32 ((r.nlen : ℤ) + netHeadSize) = r.nlen + netHeadSize - 2 ^ 32 := by
    unfold uint32
    omega
  have hempty : (stream.out r.nlen).2 = [] ↔ (stream.out r.nlen).2.length = 0 :=
    List.length_eq_zero_iff.symm
  rw [createFrameAt_some stream hfd hlen, hsum, hempty]
  refine ⟨fun ⟨hbody, hput⟩ => ?_, fun ⟨hnil, hput⟩ => ⟨.inl hnil, ?_⟩⟩
  · have hnil : (stream.out r.nlen).2.length = 0 := by omega
    have hshort : ¬ maxSendSize < uint32 ((stream.out r.nlen).2.length + netHeadSize) := by
      rw [hnil]
      decide
    refine ⟨hnil, ?_⟩
    rcases hput with hfails | hbig | hnull | hroom
    · exact .inl hfails
    · exact absurd hbig hshort
    · exact .inr (by omega)
    · omega
  · rcases hput with hfails | hnull
    · exact .inl hfails
    · exact .inr (.inr (.inl (by omega)))

/-- **When no byte is written outside.** Where the size and the header stay
within 32 bits none is, and where they do not, only a stream that writes
nothing leaves none: it fails, or there is no allocation for a header. -/
theorem createFrameAt_isSome_iff (host : Host) (r : SendRequest) (w : Option BodyWriter)
    (hlen : r.nlen < 2 ^ 32) :
    (createFrameAt host r w).isSome ↔ r.fd < 0 ∨ r.nlen + netHeadSize < 2 ^ 32 ∨
      ∀ stream ∈ w, (stream.out r.nlen).2 = [] ∧
        ((stream.out r.nlen).1 = false ∨ r.nlen + netHeadSize = 2 ^ 32) := by
  by_cases hfd : r.fd < 0
  · rw [createFrameAt, if_pos hfd]
    exact iff_of_true rfl (.inl hfd)
  rw [or_iff_right hfd]
  cases w with
  | none => exact iff_of_true createFrameAt_none (.inr nofun)
  | some stream =>
    by_cases hfit : r.nlen + netHeadSize < 2 ^ 32
    · exact iff_of_true (createFrameAt_of_fits stream hfd hlen hfit) (.inl hfit)
    · rw [createFrameAt_of_wraps stream hfd hlen (Nat.le_of_not_lt hfit), or_iff_right hfit]
      simp only [Option.mem_some_iff, forall_eq']

/-- A stream that writes three bytes where there is room for them. -/
def threeByteWriter : BodyWriter where
  out n := if 3 ≤ n then (true, [1, 2, 3]) else (false, [])
  out_le := by
    intro n
    split
    · assumption
    · exact Nat.zero_le n

/-- With room for five bytes they are written inside. -/
theorem createFrameAt_isSome_iff_five :
    (createFrameAt .little ⟨7, 1, "", 0, 2, 30, 0, 0, 0, none, 5⟩
      (some threeByteWriter)).isSome = true :=
  (createFrameAt_isSome_iff .little ⟨7, 1, "", 0, 2, 30, 0, 0, 0, none, 5⟩ (some threeByteWriter)
    (by decide)).mpr (.inr (.inl (by decide)))

/-- With the largest size the allocation is seven bytes, and the body begins
at the eighth. -/
theorem not_createFrameAt_isSome : ¬ ∀ (host : Host) (r : SendRequest) (w : Option BodyWriter),
    r.nlen < 2 ^ 32 → (createFrameAt host r w).isSome := by
  intro h
  have hsome := h .little ⟨7, 1, "", 0, 2, 30, 0, 0, 0, none, 2 ^ 32 - 1⟩ (some threeByteWriter)
    (by decide)
  revert hsome
  decide

end Network

end EupuServer
