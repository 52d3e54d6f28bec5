import EupuServer.Epoll.Effect
/-!
# What a worker does with a message

`processMessage` reads the header of a message and goes by its main id. A
notification about a connection and a frame of its peer come through the
same queue and carry the id in the same place, so the branch is chosen by
two bytes of the message: the server's own in a notification
(`branch_of_out`), and the peer's in a frame (`branch_of_parse`).
-/

namespace EupuServer

namespace Worker

open Bytes Protocol Network Epoll

/-! ## `CWorkThread` -/

/-- `C2S_DATA`. -/
def c2sData : UInt16 := 30

/-- The branches of the switch of `processMessage`, and the return in front
of it. -/
inductive Branch
  | parseFailed
  | connected
  | disconnected
  | c2sData
  | keepAlivePing
  | invalid
  deriving DecidableEq, Repr

/-- The switch over `header.uMainID`. -/
def switchMainID (uMainID : UInt16) : Branch :=
  if uMainID = rsConnected then .connected
  else if uMainID = rsDisconnected then .disconnected
  else if uMainID = c2sData then .c2sData
  else if uMainID = keepAlivePing then .keepAlivePing
  else .invalid

/-- The branch for what `header.In` gave. -/
def Branch.ofHeader : Option NetMessageHead → Branch
  | none => .parseFailed
  | some header => switchMainID header.uMainID

/-- The branch `processMessage` takes for `pdata`. -/
def branch (host : Host) (pdata : NetData) : Branch :=
  .ofHeader (NetMessageHead.input host pdata.pdata pdata.dataLen)

variable (cfg : Config) (s : Sys) (pdata : NetData)

/-- The message `ProcessKeepalive` answers with. -/
def keepaliveReply : SendRequest where
  fd := pdata.fddat
  conntime := pdata.connectTime
  ip := pdata.peerIp
  port := pdata.peerPort
  ntype := pdata.type
  mainid := keepAlivePing
  assistantid := 0
  code := 0
  reserve := 0
  pstream := none
  nlen := 0

/-- `ProcessKeepalive`. -/
def processKeepalive : ℤ × Sys :=
  match createFrame cfg.host (keepaliveReply pdata) with
  | none => (0, s)
  | some d => (if (addMsg cfg s d).1 then 1 else 0, (addMsg cfg s d).2)

/-- `processMessage`. -/
def processMessage : ℤ × Sys :=
  match branch cfg.host pdata with
  | .parseFailed => (-1, s)
  | .connected => if pdata.type = clientType then processKeepalive cfg s pdata else (-1, s)
  | .disconnected => if pdata.type = clientType then (0, s) else (-1, s)
  | .c2sData => (-1, s)
  | .keepAlivePing => if pdata.type = clientType then processKeepalive cfg s pdata else (-1, s)
  | .invalid => (-1, s)

/-! ## The main id of a message -/

/-- The two bytes of the message `bs` behind its length. -/
def mainID (bs : List UInt8) : List UInt8 := (bs.drop 2).take 2

variable {host : Host} {bs : List UInt8} {sock : SocketSet}

/-- The two notifications have main ids of their own. -/
theorem switchMainID_connected_iff (u : UInt16) :
    switchMainID u = .connected ↔ u = rsConnected := by
  have hdis : rsDisconnected ≠ rsConnected := by decide
  have hdata : c2sData ≠ rsConnected := by decide
  have hping : keepAlivePing ≠ rsConnected := by decide
  unfold switchMainID
  split_ifs with h₁ h₂ h₃ h₄ <;> simp_all

theorem switchMainID_disconnected_iff (u : UInt16) :
    switchMainID u = .disconnected ↔ u = rsDisconnected := by
  have hdis : rsConnected ≠ rsDisconnected := by decide
  have hdata : c2sData ≠ rsDisconnected := by decide
  have hping : keepAlivePing ≠ rsDisconnected := by decide
  unfold switchMainID
  split_ifs with h₁ h₂ h₃ h₄ <;> simp_all

/-- **The header is read where eight bytes are there**, and its main id and
its size are those of the message. -/
theorem header_of_long (host : Host) {nLen : ℕ} (hle : netHeadSize ≤ nLen) (hlen : nLen < 2 ^ 31)
    (hbuf : nLen ≤ bs.length) :
    ∃ header, NetMessageHead.input host bs nLen = some header ∧
      header.uMainID = .ofNat (ofBE (mainID bs)) ∧
      header.uMessageSize = .ofNat (ofBE (bs.take 2)) := by
  have hsum : 0 + [2, 2, 2, 1, 1].sum = netHeadSize := rfl
  have hread : inputFields host nLen bs 0 [2, 2, 2, 1, 1] =
      some (decodeFields [2, 2, 2, 1, 1] (bs.drop 0)) := by
    refine inputFields_eq hlen (by simp [IsWidth]) ?_ ?_ <;> omega
  rw [List.drop_zero] at hread
  exact ⟨_, by rw [NetMessageHead.input, hread]; rfl, rfl, rfl⟩

theorem ofSocket_pdata : (NetData.ofSocket sock bs).pdata = bs := by
  show blit (List.replicate bs.length 0) 0 bs = bs
  unfold blit
  rw [Nat.zero_add, List.drop_eq_nil_of_le (by simp), List.append_nil]
  rfl

/-- **The branch of a message is that of its main id.** -/
theorem branch_ofSocket (host : Host) (sock : SocketSet) (hle : netHeadSize ≤ bs.length)
    (hlen : bs.length < 2 ^ 31) :
    branch host (NetData.ofSocket sock bs) = switchMainID (.ofNat (ofBE (mainID bs))) := by
  obtain ⟨header, hread, hid, -⟩ := header_of_long host hle hlen (Nat.le_refl bs.length)
  have hdata : (NetData.ofSocket sock bs).dataLen = bs.length := rfl
  rw [branch, ofSocket_pdata, hdata, hread]
  exact congrArg switchMainID hid

/-- Two bytes are read as `u` where they are those of `u`. -/
theorem ofBE_mainID_iff (hle : netHeadSize ≤ bs.length) (u : UInt16) :
    UInt16.ofNat (ofBE (mainID bs)) = u ↔ mainID bs = toBE 2 u.toNat := by
  have hlen : (mainID bs).length = 2 := by
    unfold netHeadSize at hle
    rw [mainID, List.length_take, List.length_drop]
    omega
  have hlt : ofBE (mainID bs) < UInt16.size := by
    have h := ofBE_lt (mainID bs)
    rw [hlen] at h
    exact h
  constructor
  · rintro rfl
    rw [UInt16.toNat_ofNat_of_lt' hlt, ← hlen, toBE_ofBE]
  · intro h
    rw [h, ofBE_toBE u.toNat_lt, UInt16.ofNat_toNat]

/-- **The branch of a frame** is that of the two bytes its peer put behind
the length. -/
theorem branch_of_parse {buf : List UInt8} {d : NetData}
    (h : d ∈ (parsePacketToRecvQueue host sock buf).msgs) :
    ∃ pos n, d.bytes = (buf.drop pos).take n ∧ netHeadSize ≤ n ∧ pos + n ≤ buf.length ∧
      (branch host d = .connected ↔ mainID (buf.drop pos) = toBE 2 rsConnected.toNat) ∧
      (branch host d = .disconnected ↔ mainID (buf.drop pos) = toBE 2 rsDisconnected.toNat) := by
  obtain ⟨pos, n, hverdict, rfl⟩ := frame_of_parse h
  obtain ⟨-, hmin, hmax, hle⟩ := frame_range hverdict
  rw [List.length_drop] at hle
  have hrange : netHeadSize ≤ n ∧ n ≤ maxSendSize := ⟨hmin, hmax⟩
  have hlen : ((buf.drop pos).take n).length = n := by
    rw [List.length_take, List.length_drop]
    unfold netHeadSize at hrange
    omega
  have hid : mainID ((buf.drop pos).take n) = mainID (buf.drop pos) := by
    unfold netHeadSize at hrange
    rw [mainID, List.drop_take, List.take_take, Nat.min_eq_left (by omega), mainID]
  have hlong : netHeadSize ≤ ((buf.drop pos).take n).length := by omega
  have hbranch := branch_ofSocket host sock hlong
    (by unfold maxSendSize at hrange; omega)
  refine ⟨pos, n, NetData.ofSocket_bytes _ _, hrange.1, ?_, ?_, ?_⟩
  · unfold netHeadSize at hrange
    omega
  · rw [hbranch, switchMainID_connected_iff, ofBE_mainID_iff hlong, hid]
  · rw [hbranch, switchMainID_disconnected_iff, ofBE_mainID_iff hlong, hid]

/-- **The branch of a notification** is the one it was built for. -/
theorem branch_of_out {m : ServerMessage} {buf : List UInt8}
    (h : m.out host maxSendSize = some buf) :
    branch host (NetData.ofSocket sock buf) = switchMainID m.msgHead.uMainID := by
  rw [serverMessage_out, Option.some.injEq] at h
  subst h
  have hlen : (encodeFields m.msgHead.fields ++ toBE 4 (uint32 m.nServer)).length = 12 := by
    rw [List.length_append, m.msgHead.length_encode, length_toBE]
    rfl
  have hlong :
      netHeadSize ≤ (encodeFields m.msgHead.fields ++ toBE 4 (uint32 m.nServer)).length := by
    rw [hlen]
    decide
  have hid : mainID (encodeFields m.msgHead.fields ++ toBE 4 (uint32 m.nServer)) =
      toBE 2 m.msgHead.uMainID.toNat := rfl
  rw [branch_ofSocket _ _ hlong (by rw [hlen]; decide), (ofBE_mainID_iff hlong _).mpr hid]

end Worker

end EupuServer
