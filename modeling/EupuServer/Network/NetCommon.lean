import EupuServer.Protocol.Message
/-!
# Connections, messages and the socket loops

The records `netcommon.h` declares and the two loops of `netcommon.cpp`
that move bytes over a socket. What the kernel answers is an argument:
`recvMsg` and `sendMsg` take the results of the successive system calls,
and where these run out the socket has nothing more to give or to take,
which is `EAGAIN`. A `recv` may ask for less than the next piece that
arrived; the rest of the piece then answers the next call.
-/

namespace EupuServer

namespace Network

open Bytes Protocol

/-! ## Connection types -/

def clientType : ℤ := 1
def mainsvrType : ℤ := 2
def dissvrType : ℤ := 3
def usercentersvrType : ℤ := 4
def logsvrType : ℤ := 6

/-! ## Records -/

/-- `SOCKET_KEY`. `id` tells the objects apart: it is the number of the
`getIndex` call that gave the key its index, which is made before the
address of the key is first stored or compared, and `0` until then. -/
structure SocketKey where
  fdkey : ℤ := -1
  connectTime : ℤ := 0
  id : ℕ := 0
  deriving DecidableEq, Repr

/-- `SOCKET_SET`, with the key it owns. `attempt` is not in the source: it
numbers the connects of `createServerConnect`, and is `0` for a connection
that was accepted. -/
structure SocketSet where
  key : SocketKey
  partBuf : List UInt8 := List.replicate maxSendSize 0
  partLen : ℕ := 0
  peerIp : String
  peerPort : UInt16
  refreshTime : ℤ
  type : ℤ
  attempt : ℕ := 0
  deriving DecidableEq, Repr

/-- `initSocketset`. -/
def initSocketset (key : SocketKey) (peerip : String) (peerport : UInt16) (ntype now : ℤ) :
    SocketSet where
  key := key
  peerIp := peerip
  peerPort := peerport
  refreshTime := now
  type := ntype

/-- `NET_DATA`. -/
structure NetData where
  fddat : ℤ := -1
  connectTime : ℤ := 0
  peerIp : String := ""
  peerPort : UInt16 := 0
  type : ℤ := 0
  pdata : List UInt8 := []
  dataLen : ℕ := 0
  deriving DecidableEq, Repr

namespace NetData

/-- `NET_DATA::init`: a zeroed buffer of `nlen` bytes. -/
def init (fd conntime : ℤ) (ip : String) (port : UInt16) (ntype : ℤ) (nlen : ℕ) : NetData where
  fddat := fd
  connectTime := conntime
  peerIp := ip
  peerPort := port
  type := ntype
  pdata := List.replicate nlen 0
  dataLen := nlen

/-- The message a `NET_DATA` holds. -/
def bytes (d : NetData) : List UInt8 := d.pdata.take d.dataLen

/-- A fresh `NET_DATA` for `src`, filled by `memcpy`. -/
def copyOf (fd conntime : ℤ) (ip : String) (port : UInt16) (ntype : ℤ) (src : List UInt8) :
    NetData :=
  { init fd conntime ip port ntype src.length with
    pdata := blit (init fd conntime ip port ntype src.length).pdata 0 src }

/-- What a connection calls itself in the messages about it. -/
def ofSocket (s : SocketSet) (src : List UInt8) : NetData :=
  copyOf s.key.fdkey s.key.connectTime s.peerIp s.peerPort s.type src

@[simp] theorem copyOf_bytes {fd conntime : ℤ} {ip : String} {port : UInt16} {ntype : ℤ}
    (src : List UInt8) : (copyOf fd conntime ip port ntype src).bytes = src :=
  take_blit_zero rfl

@[simp] theorem ofSocket_bytes (s : SocketSet) (src : List UInt8) :
    (ofSocket s src).bytes = src := copyOf_bytes src

end NetData

/-! ## `recv_msg` -/

/-- The result of one `recv`: bytes (none at all is the orderly end of the
stream), or one of the errors the loop tells apart. -/
inductive RecvResult
  | data (bs : List UInt8)
  | eintr
  | eagain
  | error
  deriving DecidableEq, Repr

/-- What `recv_msg` leaves: the bytes stored, its result, and the results
of the calls that follow. -/
structure RecvOut where
  bytes : List UInt8
  nret : ℤ
  rest : List RecvResult
  deriving DecidableEq, Repr

/-- `recv_msg` with room for `n` bytes. -/
def recvMsg : List RecvResult → ℕ → RecvOut
  | script, 0 => ⟨[], 2, script⟩
  | [], _ + 1 => ⟨[], 1, []⟩
  | .eintr :: r, n + 1 => recvMsg r (n + 1)
  | .eagain :: r, _ + 1 => ⟨[], 1, r⟩
  | .error :: r, _ + 1 => ⟨[], -1, r⟩
  | .data [] :: r, _ + 1 => ⟨[], 0, r⟩
  | .data (b :: bs) :: r, n + 1 =>
    if (b :: bs).length ≤ n + 1 then
      let o := recvMsg r (n + 1 - (b :: bs).length)
      { o with bytes := (b :: bs) ++ o.bytes }
    else ⟨(b :: bs).take (n + 1), 2, .data ((b :: bs).drop (n + 1)) :: r⟩

/-- The bytes that arrive over a socket before it ends or fails. -/
def arrives : List RecvResult → List UInt8
  | [] => []
  | .eintr :: r => arrives r
  | .eagain :: r => arrives r
  | .error :: _ => []
  | .data [] :: _ => []
  | .data (b :: bs) :: r => (b :: bs) ++ arrives r

/-- A measure that every round of `recv_msg` lowers. -/
def scriptWeight : List RecvResult → ℕ
  | [] => 0
  | .data bs :: r => bs.length + 1 + scriptWeight r
  | _ :: r => 1 + scriptWeight r

/-- Whether a `recv` of the script fails. -/
def NoError (script : List RecvResult) : Prop := RecvResult.error ∉ script

theorem NoError.tail {r : RecvResult} {script : List RecvResult} (h : NoError (r :: script)) :
    NoError script := fun hmem => h (List.mem_cons_of_mem r hmem)

/-- A piece that is longer than the room leaves a rest for the next call. -/
theorem exists_rest {bs : List UInt8} {n : ℕ} (h : n < bs.length) :
    ∃ c cs, bs.drop n = c :: cs ∧ bs.take n ++ (c :: cs) = bs ∧
      (c :: cs).length = bs.length - n := by
  have hpos : 0 < (bs.drop n).length := by
    rw [List.length_drop]
    omega
  obtain ⟨c, cs, hdrop⟩ := List.exists_cons_of_length_pos hpos
  refine ⟨c, cs, hdrop, ?_, ?_⟩
  · rw [← hdrop, List.take_append_drop]
  · rw [← hdrop, List.length_drop]

/-- **What one call of `recv_msg` does**: it takes the bytes it stores off
the front of what arrives, and says how it came to stop. -/
theorem recvMsg_spec {script : List RecvResult} {n : ℕ} (herr : NoError script) (hn : 0 < n) :
    (recvMsg script n).bytes.length ≤ n ∧ NoError (recvMsg script n).rest ∧
      scriptWeight (recvMsg script n).rest ≤ scriptWeight script ∧
      arrives script = (recvMsg script n).bytes ++
        (if (recvMsg script n).nret = 0 then [] else arrives (recvMsg script n).rest) ∧
      ((recvMsg script n).nret = 2 ∧ (recvMsg script n).bytes.length = n ∧
          scriptWeight (recvMsg script n).rest < scriptWeight script ∨
        (recvMsg script n).nret = 1 ∧
          (script ≠ [] → scriptWeight (recvMsg script n).rest < scriptWeight script) ∨
        (recvMsg script n).nret = 0) := by
  induction script, n using recvMsg.induct with
  | case1 script => omega
  | case2 n => simp [recvMsg, arrives, scriptWeight, NoError]
  | case3 r n ih =>
    obtain ⟨hlen, hrest, hw, harr, hret⟩ := ih herr.tail hn
    simp only [recvMsg, arrives, scriptWeight]
    refine ⟨hlen, hrest, by omega, harr, ?_⟩
    rcases hret with ⟨h2, hfull, hlt⟩ | ⟨h1, -⟩ | h0
    · exact .inl ⟨h2, hfull, by omega⟩
    · exact .inr (.inl ⟨h1, fun _ => by omega⟩)
    · exact .inr (.inr h0)
  | case4 r n =>
    simp [recvMsg, arrives, scriptWeight, herr.tail]
  | case5 r n => exact absurd (by simp) herr
  | case6 r n =>
    simp [recvMsg, arrives, scriptWeight, herr.tail]
  | case7 b bs r n hle ih =>
    rw [recvMsg, if_pos hle]
    rcases Nat.eq_zero_or_pos (n + 1 - (b :: bs).length) with hz | hpos
    · -- the piece fills the buffer exactly, and the loop ends
      rw [hz]
      simp only [List.length_cons] at hle hz
      simp only [recvMsg, arrives, scriptWeight, List.append_nil, List.length_cons, true_and]
      refine ⟨by omega, herr.tail, by omega, by simp, .inl ⟨by omega, by omega⟩⟩
    · obtain ⟨hlen, hrest, hw, harr, hret⟩ := ih herr.tail hpos
      simp only [arrives, scriptWeight, List.length_append]
      refine ⟨by omega, hrest, by omega, by rw [harr, List.append_assoc], ?_⟩
      rcases hret with ⟨h2, hfull, hlt⟩ | ⟨h1, -⟩ | h0
      · exact .inl ⟨h2, by omega, by omega⟩
      · exact .inr (.inl ⟨h1, fun _ => by omega⟩)
      · exact .inr (.inr h0)
  | case8 b bs r n hgt =>
    rw [recvMsg, if_neg hgt]
    obtain ⟨c, cs, hdrop, hsplit, hlen⟩ := exists_rest (Nat.lt_of_not_le hgt)
    simp only [List.length_cons] at hgt hlen
    rw [hdrop]
    refine ⟨?_, ?_, ?_, ?_, ?_⟩
    · rw [List.length_take]
      omega
    · intro h
      rcases List.mem_cons.mp h with h | h
      · cases h
      · exact herr.tail h
    · simp only [scriptWeight, List.length_cons]
      omega
    · show (b :: bs) ++ arrives r = (b :: bs).take (n + 1) ++ ((c :: cs) ++ arrives r)
      rw [← List.append_assoc, hsplit]
    · refine .inl ⟨rfl, ?_, ?_⟩
      · rw [List.length_take, List.length_cons]
        omega
      · simp only [scriptWeight, List.length_cons]
        omega

/-! ## `send_msg` -/

/-- The result of one `send`: how many bytes the kernel took, or one of
the errors the loop tells apart. -/
inductive SendResult
  | sent (k : ℕ)
  | eintr
  | eagain
  | error
  deriving DecidableEq, Repr

/-- What `send_msg` leaves: the bytes handed to the kernel, its result,
and the results of the calls that follow. -/
structure SendOut where
  sent : List UInt8
  nret : ℤ
  rest : List SendResult
  deriving DecidableEq, Repr

/-- `send_msg` on the bytes `p`. -/
def sendMsg : List SendResult → List UInt8 → SendOut
  | script, [] => ⟨[], 1, script⟩
  | [], _ :: _ => ⟨[], 0, []⟩
  | .eintr :: r, b :: bs => sendMsg r (b :: bs)
  | .eagain :: r, _ :: _ => ⟨[], 0, r⟩
  | .error :: r, _ :: _ => ⟨[], -1, r⟩
  | .sent k :: r, b :: bs =>
    let o := sendMsg r ((b :: bs).drop k)
    { o with sent := (b :: bs).take k ++ o.sent }

/-- **What one call of `send_msg` does**: it hands over a prefix, and the
whole of it where it returns `1`. -/
theorem sendMsg_spec (script : List SendResult) (p : List UInt8) :
    (sendMsg script p).sent <+: p ∧
      ((sendMsg script p).nret = 1 ∧ (sendMsg script p).sent = p ∨
        (sendMsg script p).nret = 0 ∧ (sendMsg script p).sent.length < p.length ∨
        (sendMsg script p).nret = -1 ∧ (sendMsg script p).sent.length < p.length) := by
  induction script, p using sendMsg.induct with
  | case1 script => simp [sendMsg]
  | case2 b bs => simp [sendMsg]
  | case3 r b bs ih => simpa only [sendMsg] using ih
  | case4 r b bs => simp [sendMsg]
  | case5 r b bs => simp [sendMsg]
  | case6 k r b bs ih =>
    obtain ⟨⟨t, ht⟩, hret⟩ := ih
    have hjoin : (b :: bs).take k ++ (b :: bs).drop k = b :: bs := List.take_append_drop _ _
    have hlen : ((b :: bs).take k).length + ((b :: bs).drop k).length = (b :: bs).length := by
      rw [← List.length_append, hjoin]
    simp only [sendMsg, List.length_append]
    refine ⟨⟨t, by rw [List.append_assoc, ht, hjoin]⟩, ?_⟩
    rcases hret with ⟨h1, hall⟩ | ⟨h0, hlt⟩ | ⟨he, hlt⟩
    · exact .inl ⟨h1, by rw [hall, hjoin]⟩
    · exact .inr (.inl ⟨h0, by omega⟩)
    · exact .inr (.inr ⟨he, by omega⟩)

end Network

end EupuServer
