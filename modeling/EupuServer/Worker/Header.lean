import EupuServer.Worker.Origin
/-!
# The header of a message

Three producers fill the receive queue. The parser takes the length of a
message from the header in it; the two notifications take it from what
`Out` wrote, and their header carries the constant of the constructor. The
two agree in each, so `processMessage` always reads a header, and the size
in it is `data_len` (`headed_of_reachable`).
-/

namespace EupuServer

namespace Worker

open Bytes Protocol Network Epoll

/-- **A message with a consistent header**: its length is one of a frame,
all of it is allocated, and its first two bytes say the length again. -/
structure Headed (d : NetData) : Prop where
  alloc : d.pdata.length = d.dataLen
  lower : netHeadSize ≤ d.dataLen
  upper : d.dataLen ≤ maxSendSize
  size : ofBE (d.pdata.take 2) = d.dataLen

variable {host : Host} {sock : SocketSet} {bs : List UInt8} {d : NetData}

/-- What is copied into a message for a connection is consistent where it
is as long as it says. -/
theorem Headed.ofSocket (hsize : ofBE (bs.take 2) = bs.length) (hmin : netHeadSize ≤ bs.length)
    (hmax : bs.length ≤ maxSendSize) : Headed (NetData.ofSocket sock bs) where
  alloc := congrArg List.length ofSocket_pdata
  lower := hmin
  upper := hmax
  size := by
    rw [ofSocket_pdata]
    exact hsize

/-- A frame is cut as long as its header says. -/
theorem headed_of_parse {buf : List UInt8}
    (h : d ∈ (parsePacketToRecvQueue host sock buf).msgs) : Headed d := by
  obtain ⟨pos, n, hverdict, rfl⟩ := frame_of_parse h
  obtain ⟨hsize, hmin, hmax, hle⟩ := frame_range hverdict
  have hlen : ((buf.drop pos).take n).length = n := by
    rw [List.length_take]
    omega
  have hfront : ((buf.drop pos).take n).take 2 = (buf.drop pos).take 2 := by
    rw [List.take_take, Nat.min_eq_left]
    unfold netHeadSize at hmin
    omega
  refine .ofSocket ?_ ?_ ?_
  · rw [hfront, hlen, hsize]
  · rw [hlen]
    exact hmin
  · rw [hlen]
    exact hmax

/-- A notification is as long as its constructor says. -/
theorem headed_of_out {m : ServerMessage} (hsize : m.msgHead.uMessageSize = 12)
    (h : m.out host maxSendSize = some bs) : Headed (NetData.ofSocket sock bs) := by
  rw [serverMessage_out, Option.some.injEq] at h
  subst h
  have hlen : (encodeFields m.msgHead.fields ++ toBE 4 (uint32 m.nServer)).length = 12 := by
    rw [List.length_append, m.msgHead.length_encode, length_toBE]
    rfl
  have hfront : (encodeFields m.msgHead.fields ++ toBE 4 (uint32 m.nServer)).take 2 =
      toBE 2 m.msgHead.uMessageSize.toNat := rfl
  refine .ofSocket ?_ ?_ ?_
  · rw [hfront, hlen, hsize]
    rfl
  · rw [hlen]
    decide
  · rw [hlen]
    decide

/-- **Every producer's message is consistent.** -/
theorem headed_of_builtBy {cfg : Config} {s s' : Sys} {a : Action} (h : BuiltBy cfg s a s' d) :
    Headed d := by
  rcases h with ⟨sock, buf, -, hout, rfl⟩ | ⟨fd, sock, buf, -, -, hout, rfl⟩ |
    ⟨buf, id, sock, io, y, left, -, -, -, hparse⟩
  · exact headed_of_out rfl hout
  · exact headed_of_out rfl hout
  · exact headed_of_parse hparse

/-- **The header of a consistent message is read**, and its size is the
length of the message. -/
theorem Headed.input (h : Headed d) (host : Host) :
    ∃ header, NetMessageHead.input host d.pdata d.dataLen = some header ∧
      header.uMessageSize.toNat = d.dataLen := by
  obtain ⟨halloc, hmin, hmax, hsize⟩ := h
  have hlen : d.dataLen < UInt16.size := by
    unfold maxSendSize at hmax
    unfold UInt16.size
    omega
  obtain ⟨header, hread, -, hhead⟩ :=
    header_of_long host hmin (by unfold UInt16.size at hlen; omega) (Nat.le_of_eq halloc.symm)
  refine ⟨header, hread, ?_⟩
  rw [hhead, hsize, UInt16.toNat_ofNat_of_lt' hlen]

variable {cfg : Config} {s : Sys} {now : ℤ}

/-- **Every message on its way to the workers has a consistent header**, in
every state of every run: `In` reads it, with the message's length for its
size, and `processMessage` does not return in front of the switch. -/
theorem headed_of_reachable (h : (server cfg now).Reachable s)
    (hd : d ∈ s.recvtmplst ++ s.recvlist) :
    (netHeadSize ≤ d.dataLen ∧ d.dataLen ≤ maxSendSize ∧
        d.pdata.length = d.dataLen ∧ ofBE (d.pdata.take 2) = d.dataLen) ∧
      (∃ header, NetMessageHead.input cfg.host d.pdata d.dataLen = some header ∧
        header.uMessageSize.toNat = d.dataLen) ∧
      branch cfg.host d ≠ .parseFailed := by
  have hheaded : Headed d :=
    built_of_reachable (fun _ _ _ _ _ hbuilt => headed_of_builtBy hbuilt) h d hd
  obtain ⟨header, hread, hsize⟩ := hheaded.input cfg.host
  refine ⟨⟨hheaded.lower, hheaded.upper, hheaded.alloc, hheaded.size⟩,
    ⟨header, hread, hsize⟩, ?_⟩
  rw [branch, hread, Branch.ofHeader]
  unfold switchMainID
  split_ifs <;> simp

/-- A frame of nine bytes that a client sent, behind the notification. -/
theorem headed_of_reachable_accepted :
    ∃ s d, (server smallConfig 0).Reachable s ∧ d ∈ s.recvtmplst ∧
      d.bytes = [0, 9, 0, 30, 0, 0, 0, 0, 65] ∧
      ∃ header, NetMessageHead.input .little d.pdata d.dataLen = some header ∧
        header.uMessageSize.toNat = d.dataLen := by
  have hrun : ∃ s, (server smallConfig 0).Reachable s ∧ ∃ d ∈ s.recvtmplst,
      d.bytes = [0, 9, 0, 30, 0, 0, 0, 0, 65] :=
    Machine.exists_reach_of_exec (acceptAndRead [0, 9, 0, 30, 0, 0, 0, 0, 65]) (by decide)
  obtain ⟨s, hs, d, hd, hbytes⟩ := hrun
  exact ⟨s, d, hs, hd, hbytes, (headed_of_reachable hs (List.mem_append_left _ hd)).2.1⟩

end Worker

end EupuServer
