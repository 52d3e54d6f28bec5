import EupuServer.Common.Framing
import EupuServer.Network.NetCommon
/-!
# The receive path of one connection

`parsePacketToRecvQueue` cuts a buffer into frames and keeps the tail in
the connection; `doRecvMessage` fills the buffer and parses it, round
after round, until the socket has nothing more to give. Both are the loops
of `epollthread.cpp`. The parser's result is that of `netFraming` on the
buffer, but for the bytes it keeps: of a tail shorter than a header it
keeps the front of the whole buffer (`savedTail`).
-/

namespace EupuServer

namespace Network

open Bytes Protocol

/-! ## The frame format -/

/-- The length a frame's header announces, where it is one the server
takes. -/
def frameHeader (xs : List UInt8) : Option (Option ℕ) :=
  if xs.length < netHeadSize then none
  else if ofBE (xs.take 2) < netHeadSize ∨ ofBE (xs.take 2) > maxSendSize then some none
  else some (some (ofBE (xs.take 2)))

theorem frameHeader_append (xs ys : List UInt8) (v : Option ℕ) (h : frameHeader xs = some v) :
    frameHeader (xs ++ ys) = some v := by
  unfold frameHeader at h ⊢
  by_cases hlen : xs.length < netHeadSize
  · rw [if_pos hlen] at h
    cases h
  · have htake : (xs ++ ys).take 2 = xs.take 2 := by
      refine List.take_append_of_le_length ?_
      unfold netHeadSize at hlen
      omega
    have hlen' : ¬ (xs ++ ys).length < netHeadSize := by
      rw [List.length_append]
      omega
    rw [if_neg hlen] at h
    rw [if_neg hlen', htake]
    exact h

theorem frameHeader_pos (xs : List UInt8) (n : ℕ) (h : frameHeader xs = some (some n)) : 0 < n := by
  unfold frameHeader at h
  split at h
  · cases h
  · split at h
    · cases h
    · rename_i hrange
      injection h with h
      injection h with h
      unfold netHeadSize at hrange
      omega

/-- **The wire format**: a frame begins with a header of eight bytes, whose
first two are the length of the whole frame, most significant byte first. -/
def netFraming : Framing UInt8 where
  header := frameHeader
  header_append := frameHeader_append
  header_nil := rfl
  pos := frameHeader_pos

/-! ## `parsePacketToRecvQueue` -/

/-- What the parser leaves: its result, the connection, and the messages
appended to `m_recvtmplst`. -/
structure ParseOut where
  ok : Bool
  sock : SocketSet
  msgs : List NetData
  deriving DecidableEq, Repr

/-- `memcpy` of `k` bytes from `src` into `part_buf`, and `part_len`. -/
def SocketSet.savePart (s : SocketSet) (src : List UInt8) (k : ℕ) : SocketSet :=
  { s with partBuf := blit s.partBuf 0 (src.take k), partLen := k }

variable (host : Host)

/-- The parser's loop at position `curpos` of `buf`. -/
def parseLoop (s : SocketSet) (buf : List UInt8) : ℕ → ℕ → ParseOut
  | 0, _ => ⟨true, s, []⟩
  | fuel + 1, curpos =>
    if curpos < buf.length then
      if buf.length - curpos < netHeadSize then
        -- the source copies from `buf` here, and from `buf + curpos` below
        ⟨true, s.savePart buf (buf.length - curpos), []⟩
      else
        let nlen := host.hton 2 (host.load ((buf.drop curpos).take 2))
        if nlen > maxSendSize ∨ nlen < netHeadSize then ⟨false, s, []⟩
        else if nlen > buf.length - curpos then
          ⟨true, s.savePart (buf.drop curpos) (buf.length - curpos), []⟩
        else
          let r := parseLoop s buf fuel (curpos + nlen)
          { r with msgs := NetData.ofSocket s ((buf.drop curpos).take nlen) :: r.msgs }
    else ⟨true, s, []⟩

/-- `parsePacketToRecvQueue`. -/
def parsePacketToRecvQueue (s : SocketSet) (buf : List UInt8) : ParseOut :=
  if buf = [] then ⟨false, s, []⟩ else parseLoop host s buf buf.length 0

/-! ## `doRecvMessage` -/

/-- `m_recvbuflen`, as `startup` computes it from the two socket buffer
sizes. -/
def recvBufLen (sendbufsize readbufsize : ℤ) : ℕ :=
  let len := if sendbufsize < readbufsize then readbufsize else sendbufsize
  let len := if len < maxSendSize then (maxSendSize : ℤ) else len
  (len + maxSendSize).toNat

/-- How a call of `doRecvMessage` ends: the socket is drained, or the
connection is closed because the peer ended the stream, because the parser
refused it, or because `recv` failed. -/
inductive RecvEnding
  | again
  | closed
  | rejected
  | error
  deriving DecidableEq, Repr

/-- What the receive loop leaves: the connection, the messages appended,
how it ended, and the results of the `recv` calls that follow. -/
structure RecvOutcome where
  sock : SocketSet
  msgs : List NetData
  ending : RecvEnding
  rest : List RecvResult
  deriving DecidableEq, Repr

/-- The loop of `doRecvMessage`: fill the buffer behind the tail kept from
before, and parse what it then holds. -/
def recvLoop (recvbuflen : ℕ) (now : ℤ) : ℕ → SocketSet → List RecvResult → RecvOutcome
  | 0, s, script => ⟨s, [], .again, script⟩
  | fuel + 1, s, script =>
    let r := recvMsg script (recvbuflen - s.partLen)
    if r.nret < 0 then ⟨s, [], .error, r.rest⟩
    else
      let s := { s with refreshTime := now }
      let p :=
        if r.bytes.length > 0 then
          parsePacketToRecvQueue host { s with partLen := 0 }
            (s.partBuf.take s.partLen ++ r.bytes)
        else ⟨true, s, []⟩
      if r.nret = 0 ∨ p.ok = false then
        ⟨p.sock, p.msgs, if p.ok then .closed else .rejected, r.rest⟩
      else if r.nret = 1 then ⟨p.sock, p.msgs, .again, r.rest⟩
      else
        let o := recvLoop recvbuflen now fuel p.sock r.rest
        { o with msgs := p.msgs ++ o.msgs }

/-- One call of `doRecvMessage` on a connection it found. Every round but
the last takes bytes, so the script bounds their number. -/
def recvMessage (recvbuflen : ℕ) (now : ℤ) (s : SocketSet) (script : List RecvResult) :
    RecvOutcome :=
  recvLoop host recvbuflen now (scriptWeight script + 1) s script

/-- Calls of `doRecvMessage`, until the connection is closed or nothing
more arrives. -/
def recvCalls (recvbuflen : ℕ) (now : ℤ) : ℕ → SocketSet → List RecvResult → RecvOutcome
  | 0, s, script => ⟨s, [], .again, script⟩
  | fuel + 1, s, script =>
    let o := recvMessage host recvbuflen now s script
    if o.ending = .again ∧ o.rest ≠ [] then
      let o' := recvCalls recvbuflen now fuel o.sock o.rest
      { o' with msgs := o.msgs ++ o'.msgs }
    else o

/-- All calls a script can give rise to: each of them but the last takes a
result off it. -/
def recvStream (recvbuflen : ℕ) (now : ℤ) (s : SocketSet) (script : List RecvResult) :
    RecvOutcome :=
  recvCalls host recvbuflen now (scriptWeight script + 1) s script

/-! ## What the parser computes -/

variable {host} {s : SocketSet} {buf rest : List UInt8}

theorem le_recvBufLen (sendbufsize readbufsize : ℤ) :
    2 * maxSendSize ≤ recvBufLen sendbufsize readbufsize := by
  unfold recvBufLen maxSendSize
  simp only
  split <;> split <;> omega

/-- A pending stream is shorter than the largest frame. -/
theorem length_lt_of_pending (h : netFraming.verdict buf = .pending) :
    buf.length < maxSendSize := by
  unfold Framing.verdict at h
  simp only [netFraming, frameHeader] at h
  by_cases hlen : buf.length < netHeadSize
  · unfold netHeadSize at hlen
    unfold maxSendSize
    omega
  · rw [if_neg hlen] at h
    by_cases hrange : ofBE (buf.take 2) < netHeadSize ∨ ofBE (buf.take 2) > maxSendSize
    · rw [if_pos hrange] at h
      cases h
    · rw [if_neg hrange] at h
      simp only at h
      split at h
      · cases h
      · omega

/-- Fewer bytes than a header say nothing. -/
theorem verdict_of_short (h : buf.length < netHeadSize) :
    netFraming.verdict buf = .pending := by
  unfold Framing.verdict
  simp only [netFraming, frameHeader, if_pos h]

/-- Past the header, the verdict is the parser's three-way test. -/
theorem verdict_of_long (h : ¬ buf.length < netHeadSize) :
    netFraming.verdict buf =
      if ofBE (buf.take 2) < netHeadSize ∨ ofBE (buf.take 2) > maxSendSize then .rejected
      else if ofBE (buf.take 2) ≤ buf.length then .frame (ofBE (buf.take 2)) else .pending := by
  unfold Framing.verdict
  simp only [netFraming, frameHeader, if_neg h]
  split
  · rename_i hh
    split at hh <;> cases hh
  · rename_i hh
    split at hh
    · rw [if_pos ‹_›]
    · cases hh
  · rename_i n hh
    split at hh
    · cases hh
    · rename_i hrange
      injection hh with hh
      injection hh with hh
      subst hh
      rw [if_neg hrange]

/-- **A frame is as long as its header says**, and that is a length the
server takes. -/
theorem frame_range {n : ℕ} (h : netFraming.verdict buf = .frame n) :
    ofBE (buf.take 2) = n ∧ netHeadSize ≤ n ∧ n ≤ maxSendSize ∧ n ≤ buf.length := by
  obtain ⟨hheader, -, hle⟩ := Framing.verdict_frame h
  simp only [netFraming, frameHeader] at hheader
  split at hheader
  · cases hheader
  · split at hheader
    · cases hheader
    · injection hheader with hheader
      injection hheader with hheader
      omega

/-- **The bytes the parser keeps** of a buffer whose tail is `rest`: of a
tail shorter than a header, the front of the buffer. -/
def savedTail (buf rest : List UInt8) : List UInt8 :=
  if rest.length < netHeadSize then buf.take rest.length else rest

theorem length_savedTail (h : rest.length ≤ buf.length) :
    (savedTail buf rest).length = rest.length := by
  unfold savedTail
  split
  · rw [List.length_take]
    omega
  · rfl

/-- Where nothing was cut off, the front of the buffer is its tail. -/
theorem savedTail_self : savedTail buf buf = buf := by
  unfold savedTail
  split
  · rw [List.take_length]
  · rfl

theorem verdict_savedTail (hrest : netFraming.verdict rest = .pending) :
    netFraming.verdict (savedTail buf rest) = .pending := by
  unfold savedTail
  split
  · refine verdict_of_short ?_
    rw [List.length_take]
    omega
  · exact hrest

/-- The connection with the tail of `buf` saved in it. -/
def SocketSet.keep (s : SocketSet) (buf rest : List UInt8) : SocketSet :=
  if rest = [] then s else s.savePart (savedTail buf rest) rest.length

/-- Two ways to name the bytes of a copy. -/
theorem savePart_savedTail (hne : rest ≠ []) :
    s.keep buf rest = if rest.length < netHeadSize then s.savePart buf rest.length
      else s.savePart rest rest.length := by
  unfold SocketSet.keep
  rw [if_neg hne]
  unfold savedTail
  split
  · unfold SocketSet.savePart
    rw [List.take_take, Nat.min_self]
  · rfl

/-- **The parser's loop is the reference cut of what is left of the
buffer**: the same frames, refused where it is rejected, and the tail saved
as `savedTail` has it. -/
theorem parseLoop_eq : ∀ (fuel curpos : ℕ), curpos ≤ buf.length →
    buf.length - curpos ≤ fuel →
    parseLoop host s buf fuel curpos =
      ⟨!(netFraming.split (buf.drop curpos)).rejected,
        if (netFraming.split (buf.drop curpos)).rejected then s
        else s.keep buf (netFraming.split (buf.drop curpos)).rest,
        (netFraming.split (buf.drop curpos)).frames.map (NetData.ofSocket s)⟩ := by
  intro fuel
  -- a round that cuts a frame moves `curpos` on, so the bytes left bound the fuel
  induction fuel with
  | zero =>
    intro curpos hle hfuel
    have hnil : buf.drop curpos = [] := List.drop_eq_nil_of_le (by omega)
    rw [parseLoop, hnil, Framing.split_nil]
    simp [SocketSet.keep]
  | succ fuel ih =>
    intro curpos hle hfuel
    have hlen : (buf.drop curpos).length = buf.length - curpos := List.length_drop
    by_cases hcur : curpos < buf.length
    · have hne : buf.drop curpos ≠ [] := by
        intro h
        rw [h] at hlen
        simp only [List.length_nil] at hlen
        omega
      rw [parseLoop, if_pos hcur]
      by_cases hshort : buf.length - curpos < netHeadSize
      · -- the tail has no whole header
        have hv : netFraming.verdict (buf.drop curpos) = .pending :=
          verdict_of_short (by rw [hlen]; exact hshort)
        rw [if_pos hshort, Framing.split_of_pending hv]
        simp only [Bool.not_false, List.map_nil, Bool.false_eq_true, if_false]
        rw [savePart_savedTail hne, hlen, if_pos hshort]
      · have hlong : ¬ (buf.drop curpos).length < netHeadSize := by rw [hlen]; exact hshort
        have htake : ((buf.drop curpos).take 2).length = 2 := by
          rw [List.length_take]
          unfold netHeadSize at hlong
          omega
        have hload : host.hton 2 (host.load ((buf.drop curpos).take 2)) =
            ofBE ((buf.drop curpos).take 2) := hton_load host htake
        have hv := verdict_of_long hlong
        rw [if_neg hshort]
        simp only [hload]
        by_cases hrange : ofBE ((buf.drop curpos).take 2) < netHeadSize ∨
            ofBE ((buf.drop curpos).take 2) > maxSendSize
        · rw [if_pos hrange] at hv
          rw [if_pos hrange.symm, Framing.split_of_rejected hv]
          simp
        · rw [if_neg hrange] at hv
          rw [if_neg fun h => hrange h.symm]
          by_cases hfit : ofBE ((buf.drop curpos).take 2) ≤ (buf.drop curpos).length
          · -- a whole frame: the rest of the loop parses what follows it
            rw [if_pos hfit] at hv
            obtain ⟨-, hpos, -⟩ := Framing.verdict_frame hv
            rw [if_neg (by rw [← hlen]; omega), ih _ (by omega) (by omega),
              Framing.split_of_frame hv]
            simp [List.drop_drop]
          · -- the header is whole and its frame is not
            rw [if_neg hfit] at hv
            rw [if_pos (by rw [← hlen]; omega), Framing.split_of_pending hv]
            simp only [Bool.not_false, List.map_nil, Bool.false_eq_true, if_false]
            rw [savePart_savedTail hne, hlen, if_neg hshort]
    · have hnil : buf.drop curpos = [] := List.drop_eq_nil_of_le (by omega)
      rw [parseLoop, if_neg hcur, hnil, Framing.split_nil]
      simp [SocketSet.keep]

/-- **What `parsePacketToRecvQueue` computes.** -/
theorem parsePacketToRecvQueue_eq (hne : buf ≠ []) :
    parsePacketToRecvQueue host s buf =
      ⟨!(netFraming.split buf).rejected,
        if (netFraming.split buf).rejected then s else s.keep buf (netFraming.split buf).rest,
        (netFraming.split buf).frames.map (NetData.ofSocket s)⟩ := by
  rw [parsePacketToRecvQueue, if_neg hne, parseLoop_eq _ _ (Nat.zero_le _) (by omega)]
  simp

/-- **What the parser appends is a frame** it cut from the buffer. -/
theorem frame_of_parse {d : NetData} (h : d ∈ (parsePacketToRecvQueue host s buf).msgs) :
    ∃ pos n, netFraming.verdict (buf.drop pos) = .frame n ∧
      d = NetData.ofSocket s ((buf.drop pos).take n) := by
  have hne : buf ≠ [] := by
    rintro rfl
    cases h
  rw [parsePacketToRecvQueue_eq hne] at h
  obtain ⟨f, hf, rfl⟩ := List.mem_map.mp h
  obtain ⟨pos, n, hverdict, rfl⟩ := Framing.verdict_of_mem_frames hf
  exact ⟨pos, n, hverdict, rfl⟩

end Network

end EupuServer
