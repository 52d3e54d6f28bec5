import EupuServer.Common.Memory
import EupuServer.Network.RecvEnding
import EupuServer.Network.Reassembly
/-!
# The receive path in memory

`doRecvMessage`, `recv_msg` and `parsePacketToRecvQueue` on the buffers the
source gives them, with every access checked: a `recv` that asks for no
bytes, a `recv` or a copy that leaves its buffer and a loop that does not
end have no result. They have one for every connection whose `part_buf`
holds a pending tail (`PartFits`), and it is what the model of the receive
path computes. Beside it stand the answers the `recv` calls got, the front
of the script that was used (`RecvGives`).
-/

namespace EupuServer

namespace Network

open Bytes Protocol

/-! ## `m_recvbuflen` -/

/-- `m_recvbuflen`, as `startup` computes it in an `int`. -/
def startupBufLen (sendbufsize readbufsize : ℤ) : ℤ :=
  let recvbuflen := if sendbufsize < readbufsize then readbufsize else sendbufsize
  let recvbuflen := if recvbuflen < maxSendSize then (maxSendSize : ℤ) else recvbuflen
  int32 (recvbuflen + maxSendSize)

/-! ## `recv_msg` -/

/-- What `recv_msg` leaves: the buffer, the room that is left in it, its
result, the results of the calls that follow, and the answers it got. -/
structure RecvMem where
  buf : List UInt8
  n : ℤ
  nret : ℤ
  rest : List RecvResult
  answers : List RecvResult
  deriving DecidableEq, Repr

/-- An answer that `recv_msg` got before. -/
def RecvMem.after (r : RecvResult) (o : RecvMem) : RecvMem := { o with answers := r :: o.answers }

/-- Whether `recv(fd, buf + p, n)` asks for bytes, and stays in `buf`. -/
def RecvFits (buf : List UInt8) (p n : ℤ) : Prop := 0 < n ∧ 0 ≤ p ∧ p + n ≤ buf.length

instance (buf : List UInt8) (p n : ℤ) : Decidable (RecvFits buf p n) :=
  inferInstanceAs (Decidable (_ ∧ _ ∧ _))

/-- The loop of `recv_msg` at `buf + p`, with room for `n` bytes. -/
def recvMsgAt (script : List RecvResult) (buf : List UInt8) (p n : ℤ) : Option RecvMem :=
  if n ≤ 0 then some ⟨buf, n, 2, script, []⟩
  else if ¬ RecvFits buf p n then none
  else
    match script with
    | [] => some ⟨buf, n, 1, [], [.eagain]⟩
    | .eintr :: r => (recvMsgAt r buf p n).map (.after .eintr)
    | .eagain :: r => some ⟨buf, n, 1, r, [.eagain]⟩
    | .error :: r => some ⟨buf, n, -1, r, [.error]⟩
    | .data bs :: r =>
      let nread := min bs.length n.toNat
      if nread = 0 then some ⟨buf, n, 0, r, [.data []]⟩
      else
        let buf' := blit buf p.toNat (bs.take nread)
        if nread < bs.length then
          -- the room is used up, and the rest of the piece answers the next call
          some ⟨buf', n - nread, 2, .data (bs.drop nread) :: r, [.data (bs.take nread)]⟩
        else (recvMsgAt r buf' (p + nread) (n - nread)).map (.after (.data bs))

/-! ## `parsePacketToRecvQueue` -/

variable (host : Host)

/-- `memcpy` of `n` bytes at `buf + curpos` into `part_buf`, and `part_len`. -/
def SocketSet.savePartAt (s : SocketSet) (buf : List UInt8) (curpos n : ℤ) : Option SocketSet :=
  (memcpy s.partBuf 0 buf (sizeT curpos) (sizeT n)).map fun part =>
    { s with partBuf := part, partLen := n.toNat }

/-- A `NET_DATA` of `nlen` bytes for `s`, filled by `memcpy` from
`buf + curpos`. -/
def NetData.copyAt (s : SocketSet) (buf : List UInt8) (curpos : ℤ) (nlen : ℕ) : Option NetData :=
  let d := NetData.init s.key.fdkey s.key.connectTime s.peerIp s.peerPort s.type nlen
  (memcpy d.pdata 0 buf (sizeT curpos) nlen).map fun pdata =>
    { d with pdata := pdata, dataLen := nlen }

/-- The parser's loop at position `curpos` of the `buflen` bytes in `buf`. -/
def parseLoopAt (s : SocketSet) (buf : List UInt8) (buflen : ℤ) : ℕ → ℤ → Option ParseOut
  | 0, _ => none
  | fuel + 1, curpos =>
    if curpos < buflen then
      if buflen - curpos < netHeadSize then
        (s.savePartAt buf 0 (buflen - curpos)).map fun s => ⟨true, s, []⟩
      else do
        let nmsgsize ← readAt buf (sizeT curpos) 2
        let nlen := host.hton 2 (host.load nmsgsize)
        if nlen > maxSendSize ∨ nlen < netHeadSize then some ⟨false, s, []⟩
        else if nlen > buflen - curpos then
          (s.savePartAt buf curpos (buflen - curpos)).map fun s => ⟨true, s, []⟩
        else do
          let pdata ← NetData.copyAt s buf curpos nlen
          let r ← parseLoopAt s buf buflen fuel (curpos + nlen)
          some { r with msgs := pdata :: r.msgs }
    else some ⟨true, s, []⟩

/-- `parsePacketToRecvQueue`. A message takes at least one byte, so the
bytes bound the rounds. -/
def parsePacketAt (s : SocketSet) (buf : List UInt8) (buflen : ℤ) : Option ParseOut :=
  if buflen ≤ 0 then some ⟨false, s, []⟩
  else parseLoopAt host s buf buflen (buflen.toNat + 1) 0

/-! ## `doRecvMessage` -/

/-- What a round makes of the `buflen` bytes that `recv_msg` stored behind
the tail. -/
def recvRoundAt (now : ℤ) (s : SocketSet) (buf : List UInt8) (buflen : ℤ) :
    Option (List UInt8 × ParseOut) :=
  let s := { s with refreshTime := now }
  if buflen > 0 then do
    let buf ← memcpy buf 0 s.partBuf 0 s.partLen
    let p ← parsePacketAt host { s with partLen := 0 } buf (buflen + s.partLen)
    some (buf, p)
  else some (buf, ⟨true, s, []⟩)

/-- The loop of `doRecvMessage` on `m_recvbuffer`: what it leaves, and the
answers it got. -/
def recvLoopAt (recvbuflen now : ℤ) :
    ℕ → List UInt8 → SocketSet → List RecvResult → Option (RecvOutcome × List RecvResult)
  | 0, _, _, _ => none
  | fuel + 1, recvbuffer, s, script => do
    let recvbuffer ← memset recvbuffer (sizeT recvbuflen)
    let r ← recvMsgAt script recvbuffer s.partLen (recvbuflen - s.partLen)
    if r.nret < 0 then some (⟨s, [], .error, r.rest⟩, r.answers)
    else do
      let (recvbuffer, p) ← recvRoundAt host now s r.buf (recvbuflen - s.partLen - r.n)
      if r.nret = 0 ∨ p.ok = false then
        some (⟨p.sock, p.msgs, if p.ok then .closed else .rejected, r.rest⟩, r.answers)
      else if r.nret = 1 then some (⟨p.sock, p.msgs, .again, r.rest⟩, r.answers)
      else do
        let (o, answers) ← recvLoopAt recvbuflen now fuel recvbuffer p.sock r.rest
        some ({ o with msgs := p.msgs ++ o.msgs }, r.answers ++ answers)

/-- `doRecvMessage` on a connection it found. Every round but the last takes
bytes, so the script bounds their number. -/
def recvMessageAt (recvbuflen now : ℤ) (recvbuffer : List UInt8) (s : SocketSet)
    (script : List RecvResult) : Option (RecvOutcome × List RecvResult) :=
  recvLoopAt host recvbuflen now (scriptWeight script + 1) recvbuffer s script

/-! ## The size of `m_recvbuffer` -/

/-- Where it can be added up, it is what the model takes it for. -/
theorem startupBufLen_eq {sendbufsize readbufsize : ℤ} (hsend : sendbufsize ≤ 2 ^ 31 - 1 - 2048)
    (hread : readbufsize ≤ 2 ^ 31 - 1 - 2048) :
    startupBufLen sendbufsize readbufsize = recvBufLen sendbufsize readbufsize ∧
      recvBufLen sendbufsize readbufsize < 2 ^ 31 := by
  unfold startupBufLen recvBufLen
  simp only
  generalize hlen : (if sendbufsize < readbufsize then readbufsize else sendbufsize) = len
  have hle : len ≤ 2 ^ 31 - 1 - 2048 := by
    rw [← hlen]
    split <;> assumption
  generalize hmax : (if len < maxSendSize then (maxSendSize : ℤ) else len) = len'
  have hrange : (maxSendSize : ℤ) ≤ len' ∧ len' ≤ 2 ^ 31 - 1 - 2048 := by
    rw [← hmax]
    unfold maxSendSize at *
    split <;> omega
  unfold maxSendSize at hrange ⊢
  rw [int32_of_lt (by omega) (by omega)]
  omega

/-! ## The answers of the `recv` calls -/

/-- **A script gives these answers**, and `rest` is what it has left. A
piece longer than the room answers in parts, and behind the script there is
no more data. -/
inductive RecvGives : List RecvResult → List RecvResult → List RecvResult → Prop
  | nil (script : List RecvResult) : RecvGives script [] script
  | next {r : RecvResult} {script answers rest : List RecvResult} :
    RecvGives script answers rest → RecvGives (r :: script) (r :: answers) rest
  | part {bs : List UInt8} {n : ℕ} {script answers rest : List RecvResult} :
    0 < n → n < bs.length → RecvGives (.data (bs.drop n) :: script) answers rest →
      RecvGives (.data bs :: script) (.data (bs.take n) :: answers) rest
  | drained {answers rest : List RecvResult} :
    RecvGives [] answers rest → RecvGives [] (.eagain :: answers) rest

/-- One call after another. -/
theorem RecvGives.append {script answers rest more rest' : List RecvResult}
    (h : RecvGives script answers rest) (hmore : RecvGives rest more rest') :
    RecvGives script (answers ++ more) rest' := by
  induction h with
  | nil => exact hmore
  | next _ ih => exact .next (ih hmore)
  | part hpos hlt _ ih => exact .part hpos hlt (ih hmore)
  | drained _ ih => exact .drained (ih hmore)

/-! ## The accesses of `recv_msg` -/

variable (host : Host) {cap : ℕ} {s : SocketSet}

/-- Where the room ends inside the buffer, the loop's test and the call pass. -/
theorem recvFits_of_le {buf : List UInt8} {p n : ℕ} (hfit : p + (n + 1) ≤ buf.length) :
    ¬ ((n + 1 : ℕ) : ℤ) ≤ 0 ∧ ¬ ¬ RecvFits buf p ((n + 1 : ℕ) : ℤ) :=
  ⟨by omega, not_not.mpr ⟨by omega, by omega, by omega⟩⟩

/-- **`recv_msg` stays in its buffer**: it stores what the model reads, and
where it reports that nothing more is there, the last `recv` said so. -/
theorem recvMsgAt_eq (script : List RecvResult) (n p : ℕ) (buf : List UInt8)
    (hfit : p + n ≤ buf.length) :
    ∃ answers, recvMsgAt script buf p n =
        some ⟨blit buf p (recvMsg script n).bytes, n - (recvMsg script n).bytes.length,
          (recvMsg script n).nret, (recvMsg script n).rest, answers⟩ ∧
      RecvGives script answers (recvMsg script n).rest ∧
      ((recvMsg script n).nret = 1 → answers.getLast? = some .eagain) := by
  induction script, n using recvMsg.induct generalizing p buf with
  | case1 script =>
    rw [recvMsgAt.eq_def, if_pos (by simp)]
    exact ⟨[], by simp [recvMsg, blit_nil], by simpa [recvMsg] using .nil script,
      by simp [recvMsg]⟩
  | case2 n =>
    rw [recvMsgAt, if_neg (recvFits_of_le hfit).1, if_neg (recvFits_of_le hfit).2]
    exact ⟨[.eagain], by simp [recvMsg, blit_nil], .drained (.nil []), by simp⟩
  | case3 r n ih =>
    obtain ⟨answers, heq, hgives, hlast⟩ := ih p buf hfit
    rw [recvMsgAt, if_neg (recvFits_of_le hfit).1, if_neg (recvFits_of_le hfit).2]
    simp only [heq, recvMsg]
    refine ⟨.eintr :: answers, rfl, .next hgives, fun h => ?_⟩
    rw [List.getLast?_cons, hlast h]
    rfl
  | case4 r n =>
    rw [recvMsgAt, if_neg (recvFits_of_le hfit).1, if_neg (recvFits_of_le hfit).2]
    exact ⟨[.eagain], by simp [recvMsg, blit_nil], .next (.nil r), by simp⟩
  | case5 r n =>
    rw [recvMsgAt, if_neg (recvFits_of_le hfit).1, if_neg (recvFits_of_le hfit).2]
    exact ⟨[.error], by simp [recvMsg, blit_nil], .next (.nil r), by simp [recvMsg]⟩
  | case6 r n =>
    rw [recvMsgAt, if_neg (recvFits_of_le hfit).1, if_neg (recvFits_of_le hfit).2]
    exact ⟨[.data []], by simp [recvMsg, blit_nil], .next (.nil r), by simp [recvMsg]⟩
  | case7 b bs r n hle ih =>
    -- the whole piece is stored, and the loop goes on behind it
    have hread : min (b :: bs).length ((n + 1 : ℕ) : ℤ).toNat = (b :: bs).length := by omega
    have hbuf : (blit buf p (b :: bs)).length = buf.length := length_blit (by omega)
    obtain ⟨answers, heq, hgives, hlast⟩ := ih (p + (b :: bs).length) (blit buf p (b :: bs))
      (by rw [hbuf]; omega)
    have hroom : ((n + 1 : ℕ) : ℤ) - ((b :: bs).length : ℕ) =
        ((n + 1 - (b :: bs).length : ℕ) : ℤ) := by omega
    rw [recvMsgAt, if_neg (recvFits_of_le hfit).1, if_neg (recvFits_of_le hfit).2]
    simp only [hread, recvMsg, if_pos hle, List.take_length, lt_irrefl, if_false]
    rw [if_neg (by simp), hroom, ← Nat.cast_add, Int.toNat_natCast, heq]
    refine ⟨.data (b :: bs) :: answers, ?_, .next hgives, fun h => ?_⟩
    · simp only [Option.map_some, RecvMem.after, blit_blit _ _ (by omega : p ≤ buf.length),
        List.length_append]
      congr 2
      omega
    · rw [List.getLast?_cons, hlast h]
      rfl
  | case8 b bs r n hgt =>
    -- the piece is longer than the room
    have hread : min (b :: bs).length ((n + 1 : ℕ) : ℤ).toNat = n + 1 := by omega
    rw [recvMsgAt, if_neg (recvFits_of_le hfit).1, if_neg (recvFits_of_le hfit).2]
    simp only [hread, recvMsg, if_neg hgt]
    rw [if_neg (by omega), if_pos (by omega), Int.toNat_natCast]
    refine ⟨[.data ((b :: bs).take (n + 1))], ?_, .part n.succ_pos (by omega) (.nil _), by simp⟩
    rw [List.length_take_of_le (by omega)]

/-! ## The accesses of the parser -/

section Parser

variable {buf : List UInt8} {n : ℕ} (curpos k : ℕ)

/-- A tail no longer than `part_buf` is copied into it. -/
theorem savePartAt_eq (hcap : buf.length < 2 ^ 64) (hsize : k ≤ s.partBuf.length)
    (hfit : curpos + k ≤ buf.length) :
    s.savePartAt buf curpos k = some (s.savePart (buf.drop curpos) k) := by
  unfold SocketSet.savePartAt
  rw [sizeT_natCast (by omega), sizeT_natCast (by omega), memcpy_eq (by omega) hfit]
  rfl

/-- A frame of the buffer is copied into a `NET_DATA` of its length. -/
theorem copyAt_eq (hcap : buf.length < 2 ^ 64) (hfit : curpos + k ≤ buf.length) :
    NetData.copyAt s buf curpos k = some (NetData.ofSocket s ((buf.drop curpos).take k)) := by
  have hlen : ((buf.drop curpos).take k).length = k := by
    rw [List.length_take, List.length_drop]
    omega
  unfold NetData.copyAt
  simp only [NetData.ofSocket, NetData.copyOf, hlen]
  rw [sizeT_natCast (by omega), memcpy_eq (by simp [NetData.init]) hfit]
  rfl

/-- **The parser stays in its buffers**, and computes what the model does. -/
theorem parseLoopAt_eq (hcap : buf.length < 2 ^ 64) (hn : n ≤ buf.length)
    (hsize : s.partBuf.length = maxSendSize) : ∀ (fuel curpos : ℕ), curpos ≤ n →
    n - curpos < fuel →
    parseLoopAt host s buf n fuel curpos = some (parseLoop host s (buf.take n) fuel curpos) := by
  intro fuel
  induction fuel with
  | zero =>
    intro curpos _ hfuel
    omega
  | succ fuel ih =>
    intro curpos hle hfuel
    have hlen : (buf.take n).length = n := List.length_take_of_le hn
    have hdrop : (buf.take n).drop curpos = (buf.drop curpos).take (n - curpos) := List.drop_take
    have hcast : (n : ℤ) - (curpos : ℤ) = ((n - curpos : ℕ) : ℤ) := by omega
    rw [parseLoopAt, parseLoop, hlen]
    by_cases hcur : curpos < n
    · rw [if_pos (by omega), if_pos hcur]
      by_cases hshort : n - curpos < netHeadSize
      · -- fewer bytes than a header: the front of the buffer, as many as are left
        have hsave := savePartAt_eq 0 (n - curpos) hcap
          (by rw [hsize]; unfold netHeadSize at hshort; unfold maxSendSize; omega) (by omega)
        rw [if_pos (by omega), if_pos hshort, hcast, ← Nat.cast_zero (R := ℤ), hsave]
        simp only [Option.map_some, List.drop_zero, SocketSet.savePart, List.take_take]
        rw [Nat.min_eq_left (by omega)]
      · have htwo : ((buf.take n).drop curpos).take 2 = (buf.drop curpos).take 2 := by
          rw [hdrop, List.take_take, Nat.min_eq_left (by unfold netHeadSize at hshort; omega)]
        rw [if_neg (by omega), if_neg hshort, sizeT_natCast (by omega),
          readAt_eq (by unfold netHeadSize at hshort; omega), Option.bind_eq_bind,
          Option.bind_some, ← htwo]
        simp only
        generalize host.hton 2 (host.load (((buf.take n).drop curpos).take 2)) = nlen
        by_cases hrange : nlen > maxSendSize ∨ nlen < netHeadSize
        · rw [if_pos hrange, if_pos hrange]
        · rw [if_neg hrange, if_neg hrange]
          by_cases hmore : nlen > n - curpos
          · -- the frame is not complete: what there is of it is shorter than a frame can be
            rw [if_pos (by omega), if_pos hmore, hcast,
              savePartAt_eq curpos (n - curpos) hcap (by rw [hsize]; omega) (by omega)]
            simp only [Option.map_some, SocketSet.savePart]
            rw [hdrop, List.take_take, Nat.min_self]
          · have hframe : ((buf.take n).drop curpos).take nlen = (buf.drop curpos).take nlen := by
              rw [hdrop, List.take_take, Nat.min_eq_left (by omega)]
            have hpos : 0 < nlen := by
              unfold netHeadSize at hrange
              omega
            rw [if_neg (by omega), if_neg hmore, copyAt_eq curpos nlen hcap (by omega),
              Option.bind_eq_bind,
              Option.bind_some, ← Nat.cast_add, ih (curpos + nlen) (by omega) (by omega),
              Option.bind_eq_bind, Option.bind_some, hframe]
    · rw [if_neg (by omega), if_neg hcur]

/-- `parsePacketToRecvQueue` on the first `n` bytes of a buffer. -/
theorem parsePacketAt_eq (hcap : buf.length < 2 ^ 64) (hn : n ≤ buf.length)
    (hsize : s.partBuf.length = maxSendSize) :
    parsePacketAt host s buf n = some (parsePacketToRecvQueue host s (buf.take n)) := by
  have hlen : (buf.take n).length = n := List.length_take_of_le hn
  unfold parsePacketAt parsePacketToRecvQueue
  by_cases h0 : n = 0
  · rw [if_pos (by omega), if_pos (by rw [h0, List.take_zero])]
  · have hne : buf.take n ≠ [] := by
      intro h
      rw [h] at hlen
      exact h0 hlen.symm
    have hloop := parseLoopAt_eq host hcap hn hsize (n + 1) 0 (Nat.zero_le _) (by omega)
    rw [if_neg (by omega), if_neg hne, Int.toNat_natCast, ← Nat.cast_zero (R := ℤ), hloop, hlen,
      parseLoop_eq _ _ (Nat.zero_le _) (by omega), parseLoop_eq _ _ (Nat.zero_le _) (by omega)]

end Parser

/-! ## The tail in `part_buf` -/

/-- **`part_buf` holds a pending tail**: the array has its size, `part_len`
does not pass its end, and what it holds waits for more bytes. -/
structure SocketSet.PartFits (s : SocketSet) : Prop where
  size : s.partBuf.length = maxSendSize
  le : s.partLen ≤ maxSendSize
  pending : netFraming.verdict (s.partBuf.take s.partLen) = .pending

namespace SocketSet.PartFits

/-- The bytes of the tail are as many as `part_len` says. -/
theorem length_part (h : s.PartFits) : (s.partBuf.take s.partLen).length = s.partLen :=
  List.length_take_of_le (by rw [h.size]; exact h.le)

/-- **The tail is shorter than a frame can be.** -/
theorem lt (h : s.PartFits) : s.partLen < maxSendSize := by
  have hlt := length_lt_of_pending h.pending
  rwa [h.length_part] at hlt

/-- A connection holds the tail it was left with. -/
theorem of_holds {p : List UInt8} {s₀ : SocketSet} (h : s.Holds s₀ p)
    (hp : netFraming.verdict p = .pending) : s.PartFits := by
  refine ⟨h.room, ?_, by rw [h.part]; exact hp⟩
  rw [h.len]
  exact (length_lt_of_pending hp).le

/-- And the other way round. -/
theorem holds (h : s.PartFits) : s.Holds s (s.partBuf.take s.partLen) :=
  ⟨rfl, h.size, h.length_part.symm, rfl⟩

/-- Only the tail matters. -/
theorem of_eq (h : s.PartFits) {s' : SocketSet} (hbuf : s'.partBuf = s.partBuf)
    (hlen : s'.partLen = s.partLen) : s'.PartFits := by
  refine ⟨hbuf ▸ h.size, hlen ▸ h.le, ?_⟩
  rw [hbuf, hlen]
  exact h.pending

/-- A connection without a tail. -/
theorem of_empty (hsize : s.partBuf.length = maxSendSize) (hlen : s.partLen = 0) :
    s.PartFits := by
  refine ⟨hsize, by omega, ?_⟩
  rw [hlen, List.take_zero]
  exact Framing.verdict_nil

theorem initSocketset (key : SocketKey) (ip : String) (port : UInt16) (ntype t : ℤ) :
    (initSocketset key ip port ntype t).PartFits := .of_empty List.length_replicate rfl

/-- **A round keeps it**, whether the parser takes what was read or not. -/
theorem recvRound (h : s.PartFits) (now : ℤ) (bytes : List UInt8) :
    (recvRound host now s bytes).sock.PartFits := by
  have hnow : SocketSet.PartFits { s with refreshTime := now } := h.of_eq rfl rfl
  obtain ⟨o, ho, hok, -, hsock⟩ := parse_spec host h.pending hnow.holds bytes
  change Network.recvRound host now s bytes = o at ho
  rw [ho]
  rcases hrej : o.ok with _ | _
  · -- a refused buffer leaves the connection without a tail
    by_cases hb : bytes.length > 0
    · have hne : s.partBuf.take s.partLen ++ bytes ≠ [] := by
        intro hnil
        rw [(List.append_eq_nil_iff.mp hnil).2] at hb
        exact absurd hb (by simp)
      rw [hrej, eq_comm, Bool.not_eq_false_eq_eq_true] at hok
      rw [Network.recvRound, if_pos hb, parsePacketToRecvQueue_eq hne, if_pos hok] at ho
      rw [← ho]
      exact .of_empty h.size rfl
    · rw [Network.recvRound, if_neg hb] at ho
      rw [← ho] at hrej
      cases hrej
  · rw [hrej, eq_comm, Bool.not_eq_true_eq_eq_false] at hok
    exact .of_holds (hsock hrej) (verdict_savedTail (Framing.verdict_rest hok))

/-- **A call of `doRecvMessage` keeps it.** -/
theorem recvLoop (h : s.PartFits) (cap : ℕ) (now : ℤ) (fuel : ℕ) (script : List RecvResult) :
    (recvLoop host cap now fuel s script).sock.PartFits := by
  induction fuel generalizing s script with
  | zero => exact h
  | succ fuel ih =>
    have hround := h.recvRound host now (recvMsg script (cap - s.partLen)).bytes
    rw [recvLoop_succ]
    split
    · exact h
    · simp only
      split
      · exact hround
      · split
        · exact hround
        · exact ih hround _

end SocketSet.PartFits

/-! ## The accesses of `doRecvMessage` -/

/-- A round: the tail is copied in front of what was read, and parsed. -/
theorem recvRoundAt_eq (now : ℤ) (h : s.PartFits) (z bytes : List UInt8) (hcap : z.length < 2 ^ 64)
    (hfit : s.partLen + bytes.length ≤ z.length) :
    ∃ buf, buf.length = z.length ∧
      recvRoundAt host now s (blit z s.partLen bytes) bytes.length =
        some (buf, recvRound host now s bytes) := by
  have hbuf : (blit z s.partLen bytes).length = z.length := length_blit hfit
  unfold recvRoundAt recvRound
  simp only
  by_cases hb : bytes.length > 0
  · have hpart : (s.partBuf.take s.partLen).length = s.partLen := h.length_part
    have hle : s.partLen ≤ s.partBuf.length := by
      rw [h.size]
      exact h.le
    have hcopy :
        (blit (blit z s.partLen bytes) 0 (s.partBuf.take s.partLen)).length = z.length := by
      rw [length_blit (by omega), hbuf]
    have hfront : (blit (blit z s.partLen bytes) 0 (s.partBuf.take s.partLen)).take
        (bytes.length + s.partLen) = s.partBuf.take s.partLen ++ bytes := by
      have htake := take_blit_blit z (s.partBuf.take s.partLen) bytes (by omega)
      rwa [hpart, add_comm] at htake
    have hparse := parsePacketAt_eq host
      (s := { s with refreshTime := now, partLen := 0 }) (n := bytes.length + s.partLen)
      (by rw [hcopy]; exact hcap) (by rw [hcopy]; omega) h.size
    rw [hfront, Nat.cast_add] at hparse
    rw [if_pos (by omega), if_pos hb, memcpy_eq (by omega) (by omega), Option.bind_eq_bind,
      Option.bind_some, List.drop_zero, hparse]
    exact ⟨_, hcopy, rfl⟩
  · rw [if_neg (by omega), if_neg hb]
    exact ⟨_, hbuf, rfl⟩

/-- **`doRecvMessage` stays in its buffers and returns**, with what the
model computes; the answers it got are those of the script, and it goes back
to `epoll_wait` on an `EAGAIN` only. -/
theorem recvLoopAt_eq (now : ℤ) (hcap : maxSendSize ≤ cap) (hmax : cap < 2 ^ 64) {fuel : ℕ}
    {recvbuffer : List UInt8} (hlen : recvbuffer.length = cap) (h : s.PartFits)
    {script : List RecvResult} (hfuel : scriptWeight script < fuel) :
    ∃ answers, recvLoopAt host cap now fuel recvbuffer s script =
        some (recvLoop host cap now fuel s script, answers) ∧
      RecvGives script answers (recvLoop host cap now fuel s script).rest ∧
      ((recvLoop host cap now fuel s script).ending = .again →
        answers.getLast? = some .eagain) := by
  -- from round to round the connection holds a pending tail, which leaves room to read
  induction fuel generalizing recvbuffer s script with
  | zero => omega
  | succ fuel ih =>
    have hlt := h.lt
    have hzero : (blit recvbuffer 0 (List.replicate cap 0)).length = cap := by
      rw [length_blit (by rw [List.length_replicate]; omega), hlen]
    have hroom : (cap : ℤ) - (s.partLen : ℤ) = ((cap - s.partLen : ℕ) : ℤ) := by omega
    obtain ⟨answers, hrecv, hgives, hlast⟩ := recvMsgAt_eq script (cap - s.partLen) s.partLen
      (blit recvbuffer 0 (List.replicate cap 0)) (by rw [hzero]; omega)
    have hbytes := recvMsg_length script (cap - s.partLen)
    have hstored : ((cap - s.partLen : ℕ) : ℤ) - (((cap - s.partLen : ℕ) : ℤ) -
        ((recvMsg script (cap - s.partLen)).bytes.length : ℤ)) =
        ((recvMsg script (cap - s.partLen)).bytes.length : ℤ) := by omega
    obtain ⟨buf, hbuf, hparse⟩ := recvRoundAt_eq host now h
      (blit recvbuffer 0 (List.replicate cap 0)) (recvMsg script (cap - s.partLen)).bytes
      (by omega) (by omega)
    rw [recvLoopAt, recvLoop_succ, sizeT_natCast hmax, memset_eq (by omega), Option.bind_eq_bind,
      Option.bind_some, hroom, hrecv, Option.bind_eq_bind, Option.bind_some]
    by_cases hfail : (recvMsg script (cap - s.partLen)).nret < 0
    · rw [if_pos hfail, if_pos hfail]
      exact ⟨answers, rfl, hgives, by simp⟩
    · rw [if_neg hfail, if_neg hfail]
      simp only [hstored, hparse, Option.bind_eq_bind, Option.bind_some]
      by_cases hstop : (recvMsg script (cap - s.partLen)).nret = 0 ∨
          (recvRound host now s (recvMsg script (cap - s.partLen)).bytes).ok = false
      · rw [if_pos hstop, if_pos hstop]
        refine ⟨answers, rfl, hgives, fun hend => ?_⟩
        split at hend <;> cases hend
      · rw [if_neg hstop, if_neg hstop]
        by_cases hagain : (recvMsg script (cap - s.partLen)).nret = 1
        · rw [if_pos hagain, if_pos hagain]
          exact ⟨answers, rfl, hgives, fun _ => hlast hagain⟩
        · -- the buffer was filled, and the script is shorter for the rounds that follow
          have hnret := recvMsg_nret script (cap - s.partLen)
          have hless := (recvMsg_weight script (cap - s.partLen)).2 (by omega) (by omega)
          obtain ⟨more, heq, hgivesMore, hmore⟩ := ih (by rw [hbuf, hzero] : buf.length = cap)
            (h.recvRound host now (recvMsg script (cap - s.partLen)).bytes)
            (by omega : scriptWeight (recvMsg script (cap - s.partLen)).rest < fuel)
          rw [if_neg hagain, if_neg hagain, heq, Option.bind_some]
          refine ⟨answers ++ more, rfl, hgives.append hgivesMore, fun hend => ?_⟩
          rw [List.getLast?_append, hmore hend]
          rfl

end Network

end EupuServer
