import EupuServer.Network.Receive
import EupuServer.Network.SendMap
/-!
# Building a message to send

`createMsgToSendList` builds a frame from a header and a body and queues it.
What it queues is a frame of the wire format (`createFrame_frame`), so a
receiver that parses a run of such frames gets each of them back, header
fields and body (`parse_createMsg`).
-/

namespace EupuServer

namespace Network

open Bytes Protocol

/-- A `CEupuStream` with a body to write: `Out` with room for `n` bytes
writes at most `n` of them and reports how many, or fails. -/
structure BodyStream where
  out : ℕ → Option (List UInt8)
  out_le : ∀ n bs, out n = some bs → bs.length ≤ n

/-- The arguments of `createMsgToSendList`. -/
structure SendRequest where
  fd : ℤ
  conntime : ℤ
  ip : String
  port : UInt16
  ntype : ℤ
  mainid : UInt16
  assistantid : UInt16
  code : UInt8
  reserve : UInt8
  pstream : Option BodyStream
  nlen : ℕ

namespace SendRequest

variable (r : SendRequest)

/-- The room left for the body: none without a stream. -/
def room : ℕ := if r.pstream.isSome then r.nlen else 0

/-- The `NET_DATA` that is allocated. -/
def alloc : NetData :=
  NetData.init r.fd r.conntime r.ip r.port r.ntype (uint32 (r.room + netHeadSize))

/-- The `NET_DATA` with the body in it; `none` where `Out` fails. -/
def withBody : Option NetData :=
  match r.pstream with
  | none => some r.alloc
  | some stream =>
    (stream.out (uint32 (r.alloc.dataLen - netHeadSize))).map fun bs =>
      { r.alloc with
        pdata := blit r.alloc.pdata netHeadSize bs, dataLen := uint32 (bs.length + netHeadSize) }

/-- The header of a message of `len` bytes. -/
def head (len : ℕ) : NetMessageHead where
  uMessageSize := .ofNat len
  uMainID := r.mainid
  bAssistantID := r.assistantid
  bHandleCode := r.code
  bReserve := r.reserve

/-- The body the stream writes into the room it is given. -/
def body : List UInt8 :=
  match r.pstream with
  | none => []
  | some stream => (stream.out r.nlen).getD []

theorem room_le : r.room ≤ r.nlen := by
  unfold SendRequest.room
  split <;> omega

/-- Below the range the size is the one asked for. -/
theorem alloc_dataLen (hlen : r.nlen + netHeadSize < 2 ^ 32) :
    r.alloc.dataLen = r.room + netHeadSize := by
  have hroom := r.room_le
  exact uint32_of_lt (n := r.room + netHeadSize) (by omega)

end SendRequest

variable (host : Host)

/-- The message `createMsgToSendList` builds; `none` where it gives up
before it queues one. -/
def createFrame (r : SendRequest) : Option NetData :=
  if r.fd < 0 then none
  else
    match r.withBody with
    | none => none
    | some d =>
      if d.dataLen > maxSendSize then none
      -- a size of zero leaves a null pointer, and `Out` refuses it
      else if r.alloc.dataLen = 0 then none
      else ((r.head d.dataLen).out host netHeadSize).map fun hd =>
        { d with pdata := blit d.pdata 0 hd }

/-- `createMsgToSendList`: its result and the current map. `ptr` is the
pointer to the new message, which is what the map holds. -/
def createMsgToSendList {α : Type*} (maxSendList : ℤ) (cur : SendMap α) (ptr : NetData → α)
    (r : SendRequest) : Bool × SendMap α :=
  match createFrame host r with
  | none => (false, cur)
  | some d => addMsgToSendList maxSendList cur d.fddat (ptr d)

variable {host} {r : SendRequest} {d : NetData}

/-- What is built of a body: a message as long as header and body, with the
body behind room for the header. -/
theorem withBody_eq (hlen : r.nlen + netHeadSize < 2 ^ 32) (h : r.withBody = some d) :
    d.dataLen = r.body.length + netHeadSize ∧ d.fddat = r.fd ∧
      ∃ pre tail, d.pdata = pre ++ r.body ++ tail ∧ pre.length = netHeadSize := by
  have hroom := r.room_le
  have halloc := r.alloc_dataLen hlen
  have hpdata : r.alloc.pdata.length = r.room + netHeadSize := by
    rw [← halloc]
    exact List.length_replicate
  rcases hs : r.pstream with _ | stream
  · have hzero : r.room = 0 := by simp [SendRequest.room, hs]
    have hbody : r.body = [] := by simp [SendRequest.body, hs]
    simp only [SendRequest.withBody, hs, Option.some.injEq] at h
    subst h
    rw [hbody]
    refine ⟨by simp [halloc, hzero], rfl, r.alloc.pdata, [], by simp, by omega⟩
  · have hfull : r.room = r.nlen := by simp [SendRequest.room, hs]
    have harg : uint32 ((r.alloc.dataLen : ℤ) - netHeadSize) = r.nlen := by
      rw [halloc, hfull]
      push_cast
      rw [Int.add_sub_cancel]
      exact uint32_of_lt (by omega)
    simp only [SendRequest.withBody, hs, harg, Option.map_eq_some_iff] at h
    obtain ⟨bs, hbs, rfl⟩ := h
    have hbody : r.body = bs := by simp [SendRequest.body, hs, hbs]
    have hle := stream.out_le _ _ hbs
    have hlen32 : uint32 ((bs.length : ℤ) + netHeadSize) = bs.length + netHeadSize :=
      uint32_of_lt (n := bs.length + netHeadSize) (by omega)
    rw [hbody]
    refine ⟨hlen32, rfl, r.alloc.pdata.take netHeadSize, _, rfl, ?_⟩
    rw [List.length_take]
    omega

/-- What is built is addressed as the request says. -/
theorem createFrame_address (h : createFrame host r = some d) :
    d.fddat = r.fd ∧ d.connectTime = r.conntime := by
  have hbody : ∀ d₀, r.withBody = some d₀ → d₀.fddat = r.fd ∧ d₀.connectTime = r.conntime := by
    intro d₀ hd₀
    unfold SendRequest.withBody at hd₀
    split at hd₀
    · injection hd₀ with hd₀
      exact hd₀ ▸ ⟨rfl, rfl⟩
    · obtain ⟨bs, -, rfl⟩ := Option.map_eq_some_iff.mp hd₀
      exact ⟨rfl, rfl⟩
  unfold createFrame at h
  split at h
  · cases h
  · split at h
    · cases h
    · rename_i d₀ hd₀
      split at h
      · cases h
      · split at h
        · cases h
        · obtain ⟨hd, -, rfl⟩ := Option.map_eq_some_iff.mp h
          exact hbody d₀ hd₀

/-- **The frame that is built** is its header and its body, no shorter than
a header and no longer than the largest frame. -/
theorem createFrame_bytes (hlen : r.nlen + netHeadSize < 2 ^ 32) (h : createFrame host r = some d) :
    d.fddat = r.fd ∧ d.dataLen = netHeadSize + r.body.length ∧
      netHeadSize + r.body.length ≤ maxSendSize ∧
      d.bytes = encodeFields (r.head (netHeadSize + r.body.length)).fields ++ r.body := by
  unfold createFrame at h
  by_cases hfd : r.fd < 0
  · rw [if_pos hfd] at h
    cases h
  · rw [if_neg hfd] at h
    rcases hb : r.withBody with _ | d₀
    · rw [hb] at h
      cases h
    · obtain ⟨hdl, hfd₀, pre, tail, hdata, hpre⟩ := withBody_eq hlen hb
      rw [hb] at h
      simp only at h
      by_cases hbig : d₀.dataLen > maxSendSize
      · rw [if_pos hbig] at h
        cases h
      · have halloc : r.alloc.dataLen ≠ 0 := by
          rw [r.alloc_dataLen hlen]
          exact Nat.succ_ne_zero _
        rw [if_neg hbig, if_neg halloc, NetMessageHead.out_eq _ (by unfold netHeadSize; omega),
          if_pos (le_refl _), Option.map_some, Option.some.injEq] at h
        subst h
        rw [Nat.add_comm] at hdl
        refine ⟨hfd₀, hdl, by omega, ?_⟩
        have hhead := (r.head d₀.dataLen).length_encode
        rw [← hdl]
        simp only [NetData.bytes, blit, List.take_zero, List.nil_append, Nat.zero_add, hhead]
        rw [hdata, ← hpre, List.append_assoc, List.drop_left, List.take_append, hhead,
          List.take_of_length_le (by omega), List.take_append_of_le_length (by omega),
          List.take_of_length_le (by omega)]

/-- The length in a header that is built is the one it is built for. -/
theorem ofBE_head {len : ℕ} (hmax : len ≤ maxSendSize) (tail : List UInt8) :
    ofBE ((encodeFields (r.head len).fields ++ tail).take 2) = len := by
  have hlt : len < 256 ^ 2 := by unfold maxSendSize at hmax; omega
  have hsize : (UInt16.ofNat len).toNat = len := by
    rw [UInt16.toNat_ofNat']
    exact Nat.mod_eq_of_lt (by omega)
  simp only [SendRequest.head, NetMessageHead.fields, encodeFields_cons, hsize, List.append_assoc]
  rw [List.take_append_of_le_length (by rw [length_toBE]),
    List.take_of_length_le (by rw [length_toBE]), ofBE_toBE hlt]

/-- **What is built is a frame of the wire format**, and nothing more. -/
theorem createFrame_frame (hlen : r.nlen + netHeadSize < 2 ^ 32) (h : createFrame host r = some d) :
    netFraming.verdict d.bytes = .frame d.bytes.length := by
  obtain ⟨-, -, hmax, hbytes⟩ := createFrame_bytes hlen h
  have hl : d.bytes.length = netHeadSize + r.body.length := by
    rw [hbytes, List.length_append, NetMessageHead.length_encode]
  have hread : ofBE (d.bytes.take 2) = d.bytes.length := by rw [hl, hbytes, ofBE_head hmax]
  rw [verdict_of_long (by omega), hread, if_neg (by omega), if_pos (le_refl _)]

/-! ## Sender and receiver -/

/-- **A message is queued**: a call of `createMsgToSendList` for `r`
returns true, and `d` is then the last message under its descriptor. -/
def Queues (host : Host) (r : SendRequest) (d : NetData) : Prop :=
  ∃ (maxSendList : ℤ) (cur cur' : SendMap NetData) (old : List NetData),
    createMsgToSendList host maxSendList cur id r = (true, cur') ∧
      cur'.lookup r.fd = some (some (old ++ [d]))

variable {α : Type*} {maxSendList fd : ℤ} {cur cur' : SendMap α} {lst : List α} {x : α}

/-- Where `addMsgToSendList` returns true, the message is the last under
its descriptor. -/
theorem addMsgToSendList_true (h : addMsgToSendList maxSendList cur fd x = (true, cur')) :
    ∃ old, cur'.lookup fd = some (some (old ++ [x])) ∧
      (cur.lookup fd = none ∧ old = [] ∨ cur.lookup fd = some (some old)) ∧
      cur' = cur.insert fd (some (old ++ [x])) := by
  unfold addMsgToSendList at h
  rcases hl : cur.lookup fd with _ | _ | lst
  · simp only [hl, Prod.mk.injEq, true_and] at h
    subst h
    exact ⟨[], AList.lookup_insert cur, .inl ⟨rfl, rfl⟩, rfl⟩
  · simp [hl] at h
  · simp only [hl] at h
    split at h
    · simp only [Prod.mk.injEq, true_and] at h
      subst h
      exact ⟨lst, AList.lookup_insert cur, .inr rfl, rfl⟩
    · simp at h

/-- Where it returns false, it adds nothing. -/
theorem addMsgToSendList_false (h : addMsgToSendList maxSendList cur fd x = (false, cur')) (k : ℤ)
    (hk : cur'.lookup k = some (some lst)) : cur.lookup k = some (some lst) := by
  unfold addMsgToSendList at h
  rcases hl : cur.lookup fd with _ | _ | old
  · simp [hl] at h
  · simp only [hl, Prod.mk.injEq, true_and] at h
    subst h
    rw [IntMap.lookup_erase_eq] at hk
    split at hk
    · cases hk
    · exact hk
  · simp only [hl] at h
    split at h
    · simp at h
    · simp only [Prod.mk.injEq, true_and] at h
      exact h ▸ hk

/-- What is queued is what was built. -/
theorem Queues.createFrame (hfit : r.nlen + netHeadSize < 2 ^ 32) (h : Queues host r d) :
    createFrame host r = some d := by
  obtain ⟨maxSendList, cur, cur', old, hrun, hlast⟩ := h
  unfold createMsgToSendList at hrun
  rcases hd : Network.createFrame host r with _ | d'
  · simp [hd] at hrun
  · rw [hd] at hrun
    obtain ⟨old', hlast', -, -⟩ := addMsgToSendList_true hrun
    obtain ⟨hfd, -⟩ := createFrame_bytes hfit hd
    rw [hfd, hlast] at hlast'
    simp only [Option.some.injEq] at hlast'
    have hsame : d = d' := List.singleton_inj.mp (List.append_inj_right' hlast' rfl)
    rw [hsame]

/-- **What a receiver makes of a request**: one message, whose header reads
back as the one asked for and whose rest is the body. -/
def Decoded (host : Host) (s : SocketSet) (r : SendRequest) (m : NetData) : Prop :=
  m = NetData.ofSocket s m.bytes ∧
    m.bytes.length = netHeadSize + r.body.length ∧
    NetMessageHead.input host m.bytes m.bytes.length =
      some ⟨.ofNat m.bytes.length, r.mainid, r.assistantid, r.code, r.reserve⟩ ∧
    (NetMessageHead.input host m.bytes m.bytes.length).map (·.uMessageSize.toNat) =
      some m.bytes.length ∧
    m.bytes.drop netHeadSize = r.body

/-- A frame that was built decodes to its request. -/
theorem decoded_of_createFrame (s : SocketSet) (hfit : r.nlen + netHeadSize < 2 ^ 32)
    (h : createFrame host r = some d) : Decoded host s r (NetData.ofSocket s d.bytes) := by
  obtain ⟨-, -, hmax, hbytes⟩ := createFrame_bytes hfit h
  have hlen : d.bytes.length = netHeadSize + r.body.length := by
    rw [hbytes, List.length_append, NetMessageHead.length_encode]
  have hread : NetMessageHead.input host d.bytes d.bytes.length =
      some (r.head d.bytes.length) := by
    rw [hlen, hbytes]
    exact NetMessageHead.input_encode _ (by omega) (by unfold maxSendSize at hmax; omega) _
  unfold Decoded
  rw [NetData.ofSocket_bytes]
  refine ⟨rfl, hlen, hread, ?_, ?_⟩
  · rw [hread, Option.map_some, SendRequest.head, UInt16.toNat_ofNat', Nat.mod_eq_of_lt]
    unfold maxSendSize at hmax
    omega
  · rw [hbytes, List.drop_left' (NetMessageHead.length_encode _)]

/-- A parse of messages one after the other appends them one by one. -/
theorem parse_frames (host : Host) (s : SocketSet) {fs : List (List UInt8)} (hne : fs ≠ [])
    (hfs : ∀ f ∈ fs, netFraming.verdict f = .frame f.length) :
    parsePacketToRecvQueue host s fs.flatten = ⟨true, s, fs.map (NetData.ofSocket s)⟩ := by
  obtain ⟨f, fs', rfl⟩ := List.exists_cons_of_ne_nil hne
  have hflat : (f :: fs').flatten ≠ [] := by
    obtain ⟨-, hpos, -⟩ := Framing.verdict_frame (hfs f List.mem_cons_self)
    intro hnil
    rw [List.flatten_cons, List.append_eq_nil_iff] at hnil
    rw [hnil.1] at hpos
    exact absurd hpos (by simp)
  rw [parsePacketToRecvQueue_eq hflat, Framing.split_of_frames hfs]
  rfl

/-- Queued messages, one after the other, are what their requests built. -/
theorem forall₂_created {reqs : List SendRequest} {msgs : List NetData}
    (hqueues : List.Forall₂ (Queues host) reqs msgs)
    (hfit : ∀ r ∈ reqs, r.nlen + netHeadSize < 2 ^ 32) :
    List.Forall₂ (fun r d => r.nlen + netHeadSize < 2 ^ 32 ∧ createFrame host r = some d)
      reqs msgs := by
  induction hqueues with
  | nil => exact .nil
  | cons h _ ih =>
    have hfit₀ := hfit _ List.mem_cons_self
    exact .cons ⟨hfit₀, h.createFrame hfit₀⟩ (ih fun r hr => hfit r (List.mem_cons_of_mem _ hr))

/-- Messages that were built are frames. -/
theorem frames_of_created {reqs : List SendRequest} {msgs : List NetData}
    (h : List.Forall₂ (fun r d => r.nlen + netHeadSize < 2 ^ 32 ∧ createFrame host r = some d)
      reqs msgs) : ∀ d ∈ msgs, netFraming.verdict d.bytes = .frame d.bytes.length := by
  induction h with
  | nil => simp
  | cons h _ ih =>
    intro d hd
    rcases List.mem_cons.mp hd with rfl | hd
    · exact createFrame_frame h.1 h.2
    · exact ih d hd

/-- What a call puts into the send map beyond what was there is the message
it built. -/
theorem createMsgToSendList_new {cur : SendMap NetData} {lst : List NetData}
    (hlst : (createMsgToSendList host maxSendList cur id r).2.lookup fd = some (some lst))
    (hd : d ∈ lst) :
    (∃ old, cur.lookup fd = some (some old) ∧ d ∈ old) ∨ createFrame host r = some d := by
  unfold createMsgToSendList at hlst
  rcases hf : createFrame host r with _ | d'
  · rw [hf] at hlst
    exact .inl ⟨lst, hlst, hd⟩
  · simp only [hf, id] at hlst
    rcases hadd : addMsgToSendList maxSendList cur d'.fddat d' with ⟨_ | _, cur'⟩
    · rw [hadd] at hlst
      exact .inl ⟨lst, addMsgToSendList_false hadd fd hlst, hd⟩
    · obtain ⟨old, -, hold, rfl⟩ := addMsgToSendList_true hadd
      rw [hadd, IntMap.lookup_insert_eq] at hlst
      split at hlst
      · rename_i hfd
        rw [Option.some.injEq, Option.some.injEq] at hlst
        subst hlst hfd
        rcases List.mem_append.mp hd with hmem | hmem
        · rcases hold with ⟨-, rfl⟩ | hold
          · cases hmem
          · exact .inl ⟨old, hold, hmem⟩
        · rw [List.mem_singleton.mp hmem]
          exact .inr rfl
      · exact .inl ⟨lst, hlst, hd⟩

/-- **Sender and receiver agree on the frame format.** A receiver with no
tail in hand that parses messages which were queued one after the other
takes them all, keeps no tail, and appends one message for each, which
decodes to the request; and whatever a call puts into the send map, the
receiver takes. -/
theorem createMsg_parse (host : Host) (s : SocketSet) (hs : s.partLen = 0)
    (reqs : List SendRequest) {msgs : List NetData} (hne : reqs ≠ [])
    (hfit : ∀ r ∈ reqs, r.nlen + netHeadSize < 2 ^ 32)
    (hqueues : List.Forall₂ (Queues host) reqs msgs) :
    (∃ out, parsePacketToRecvQueue host s (msgs.flatMap NetData.bytes) = ⟨true, s, out⟩ ∧
        s.partLen = 0 ∧ List.Forall₂ (Decoded host s) reqs out) ∧
      ∀ (maxSendList : ℤ) (cur : SendMap NetData), ∀ r ∈ reqs, ∀ fd lst,
        (createMsgToSendList host maxSendList cur id r).2.lookup fd = some (some lst) →
        ∀ d ∈ lst, (∃ old, cur.lookup fd = some (some old) ∧ d ∈ old) ∨
          parsePacketToRecvQueue host s d.bytes = ⟨true, s, [NetData.ofSocket s d.bytes]⟩ := by
  have hcreated := forall₂_created hqueues hfit
  refine ⟨⟨(msgs.map NetData.bytes).map (NetData.ofSocket s), ?_, hs, ?_⟩, ?_⟩
  · rw [List.flatMap_def]
    refine parse_frames host s ?_ ?_
    · rintro hnil
      rw [List.map_eq_nil_iff] at hnil
      subst hnil
      cases hqueues
      exact hne rfl
    · intro f hf
      obtain ⟨d, hd, rfl⟩ := List.mem_map.mp hf
      exact frames_of_created hcreated d hd
  · rw [List.map_map, List.forall₂_map_right_iff]
    exact hcreated.imp fun r d h => decoded_of_createFrame s h.1 h.2
  · intro maxSendList cur r hr fd lst hlst d hd
    rcases createMsgToSendList_new hlst hd with hold | hnew
    · exact .inl hold
    · refine .inr ?_
      have hv := createFrame_frame (hfit r hr) hnew
      have hall : ∀ f ∈ [d.bytes], netFraming.verdict f = .frame f.length := by simpa using hv
      simpa using parse_frames host s (by simp) hall

/-- A stream that writes a body of three bytes. -/
def threeBytes : BodyStream where
  out n := if 3 ≤ n then some [1, 2, 3] else none
  out_le := by
    intro n bs h
    split at h
    · rw [Option.some.injEq] at h
      subst h
      assumption
    · cases h

/-- A ping and a message with a body of three bytes, parsed together. -/
theorem createMsg_parse_two :
    ∃ out, parsePacketToRecvQueue .little (initSocketset ⟨9, 5, 5⟩ "" 0 1 0)
        [0, 8, 0, 20, 0, 0, 0, 0, 0, 11, 0, 30, 0, 1, 2, 3, 1, 2, 3] =
          ⟨true, initSocketset ⟨9, 5, 5⟩ "" 0 1 0, out⟩ ∧
      List.Forall₂ (Decoded .little (initSocketset ⟨9, 5, 5⟩ "" 0 1 0))
        [⟨4, 3, "", 0, 2, keepAlivePing, 0, 0, 0, none, 0⟩,
          ⟨4, 3, "", 0, 2, 30, 1, 2, 3, some threeBytes, 5⟩] out := by
  have h := createMsg_parse .little (initSocketset ⟨9, 5, 5⟩ "" 0 1 0) rfl
    [⟨4, 3, "", 0, 2, keepAlivePing, 0, 0, 0, none, 0⟩,
      ⟨4, 3, "", 0, 2, 30, 1, 2, 3, some threeBytes, 5⟩] (by simp)
    (by
      intro r hr
      rcases List.mem_cons.mp hr with rfl | hr
      · decide
      · rw [List.mem_singleton.mp hr]
        decide)
    (.cons ⟨5, ∅, _, [], rfl, rfl⟩ (.cons ⟨5, ∅, _, [], rfl, rfl⟩ .nil))
  exact h.1.imp fun _ ho => ⟨ho.1, ho.2.2⟩

end Network

end EupuServer
