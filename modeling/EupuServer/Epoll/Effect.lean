import EupuServer.Epoll.Step
import Mathlib.Logic.Relation
/-!
# What the handlers do to the state

A handler of the epoll thread that adds no connection is a sequence of
effects: a connection is closed, a connection is read from, messages are
sent or dropped, a registration is changed. `Effect` lists them with what
holds where they happen, so an invariant has to be checked for the effects
and not for the handlers.
-/

namespace EupuServer

namespace Epoll

open Network Protocol Bytes

/-! ## The connection a handler reads from -/

/-- Two states of one connection: reading changes neither its key nor what
it is called. -/
structure SameConn (x y : SocketSet) : Prop where
  key : y.key = x.key
  type : y.type = x.type
  attempt : y.attempt = x.attempt
  ofSocket : NetData.ofSocket y = NetData.ofSocket x

namespace SameConn

variable {x y z : SocketSet}

theorem rfl' : SameConn x x := ⟨rfl, rfl, rfl, rfl⟩

theorem trans (h : SameConn x y) (h' : SameConn y z) : SameConn x z :=
  ⟨h'.key.trans h.key, h'.type.trans h.type, h'.attempt.trans h.attempt,
    h'.ofSocket.trans h.ofSocket⟩

end SameConn

variable {host : Host}

theorem parseLoop_same (x : SocketSet) (buf : List UInt8) (fuel curpos : ℕ) :
    SameConn x (parseLoop host x buf fuel curpos).sock := by
  induction fuel generalizing curpos with
  | zero => exact .rfl'
  | succ fuel ih =>
    rw [parseLoop]
    split
    · split
      · exact ⟨rfl, rfl, rfl, rfl⟩
      · simp only
        split
        · exact .rfl'
        · split
          · exact ⟨rfl, rfl, rfl, rfl⟩
          · exact ih _
    · exact .rfl'

theorem parsePacketToRecvQueue_same (x : SocketSet) (buf : List UInt8) :
    SameConn x (parsePacketToRecvQueue host x buf).sock := by
  unfold parsePacketToRecvQueue
  split
  · exact .rfl'
  · exact parseLoop_same _ _ _ _

/-- **Reading leaves the connection what it is.** -/
theorem recvLoop_same (cap : ℕ) (now : ℤ) (fuel : ℕ) (x : SocketSet) (script : List RecvResult) :
    SameConn x (recvLoop host cap now fuel x script).sock := by
  induction fuel generalizing x script with
  | zero => exact .rfl'
  | succ fuel ih =>
    rw [recvLoop]
    simp only
    split
    · exact .rfl'
    · obtain ⟨po, hpo, hsame⟩ : ∃ po : ParseOut,
          (if (recvMsg script (cap - x.partLen)).bytes.length > 0 then
            parsePacketToRecvQueue host { x with refreshTime := now, partLen := 0 }
              (x.partBuf.take x.partLen ++ (recvMsg script (cap - x.partLen)).bytes)
          else ⟨true, { x with refreshTime := now }, []⟩) = po ∧ SameConn x po.sock := by
        refine ⟨_, rfl, ?_⟩
        have hstart : SameConn x { x with refreshTime := now, partLen := 0 } := ⟨rfl, rfl, rfl, rfl⟩
        split
        · exact hstart.trans (parsePacketToRecvQueue_same _ _)
        · exact ⟨rfl, rfl, rfl, rfl⟩
      rw [hpo]
      split
      · exact hsame
      · split
        · exact hsame
        · exact hsame.trans (ih _ _)

/-! ## Closing -/

variable (cfg : Config) (s : Sys)

/-- The connection that closing `fd` deletes. -/
def closing (fd : ℤ) : Option SocketSet :=
  if fd < 0 then none else (s.socketmap.lookup fd).join

/-- The keys after it: that of the deleted connection's server is reset. -/
def closeKeys (fd : ℤ) : ServerKeys :=
  match closing s fd with
  | none => s.keys
  | some sock =>
    if sock.type > clientType then s.keys.setServerSocket (-1) 0 "" 0 sock.type 0 false else s.keys

/-- The bytes of the message `createClientCloseMsg` builds. -/
def closeBytes (sock : SocketSet) : List UInt8 :=
  encodeFields (mpServerDisConnected sock.type).msgHead.fields ++ toBE 4 (uint32 sock.type)

/-- The bytes of the message `createConnectServerMsg` builds. -/
def connectBytes (sock : SocketSet) : List UInt8 :=
  encodeFields (mpServerConnected sock.type).msgHead.fields ++ toBE 4 (uint32 sock.type)

/-- The messages it appends to `m_recvtmplst`. -/
def closeMsgs (fd : ℤ) : List NetData :=
  (closing s fd).toList.map fun sock => NetData.ofSocket sock (closeBytes sock)

/-- The notifications it records. -/
def closeNotes (fd : ℤ) : List Record :=
  (closing s fd).toList.map fun sock => .note sock.key.id .disconnected

/-- A notification fits the buffer it is built in. -/
theorem serverMessage_out (h : Host) (m : ServerMessage) :
    m.out h maxSendSize = some (encodeFields m.msgHead.fields ++ toBE 4 (uint32 m.nServer)) := by
  refine m.out_eq ?_ ?_ <;> unfold maxSendSize <;> omega

theorem createClientCloseMsg_eq (sock : SocketSet) :
    createClientCloseMsg cfg s sock =
      s.push sock.key.id .disconnected (NetData.ofSocket sock (closeBytes sock)) := by
  unfold createClientCloseMsg
  simp only [serverMessage_out]
  rfl

theorem createConnectServerMsg_eq (sock : SocketSet) :
    createConnectServerMsg cfg s sock =
      some (s.push sock.key.id .connected (NetData.ofSocket sock (connectBytes sock))) := by
  unfold createConnectServerMsg
  simp only [serverMessage_out]
  rfl

/-- **Closing, as one update.** -/
theorem closeClient_eq (fd conntime : ℤ) :
    closeClient cfg s fd conntime = { s with
      openfds := if fd < 0 then s.openfds else s.openfds.erase fd
      epollset := if fd < 0 then s.epollset else s.epollset.erase fd
      socketmap := if fd < 0 then s.socketmap else s.socketmap.erase fd
      keys := closeKeys s fd
      recvtmplst := s.recvtmplst ++ closeMsgs s fd
      hist := s.hist ++ closeNotes s fd } := by
  unfold closeClient closeClientCalls Sys.closeCall closeKeys closeMsgs closeNotes closing
  by_cases hfd : fd < 0
  · simp [hfd]
  · simp only [hfd, if_false]
    rcases hl : s.socketmap.lookup fd with _ | _ | sock
    · have hnot : fd ∉ s.socketmap := AList.lookup_eq_none.mp hl
      have herase : s.socketmap.erase fd = s.socketmap := by
        refine AList.ext ?_
        exact List.kerase_of_notMem_keys hnot
      simp [Sys.close, herase]
    · simp [Sys.close]
    · simp only [createClientCloseMsg_eq, Option.join_some]
      split <;> simp [Sys.close, Sys.push, Sys.setServerSocket]

/-- One call of `close`, but for a descriptor that is none. -/
theorem closeClientCalls_snd (fd conntime : ℤ) :
    (closeClientCalls cfg s fd conntime).2 = if fd < 0 then [] else [fd] := by
  unfold closeClientCalls Sys.closeCall
  by_cases hfd : fd < 0
  · rw [if_pos hfd, if_pos hfd]
  · rw [if_neg hfd, if_neg hfd]
    rcases s.socketmap.lookup fd with _ | _ | sock <;> rfl

variable {cfg s} in
/-- Closing leaves the entries that stay what they are. -/
theorem lookup_of_closeClient {fd conntime k : ℤ} {v : Option SocketSet}
    (h : (closeClient cfg s fd conntime).socketmap.lookup k = some v) :
    s.socketmap.lookup k = some v := by
  rw [closeClient_eq] at h
  simp only at h
  split at h
  · exact h
  · exact IntMap.lookup_of_erase h

variable {cfg s} in
/-- The connection that closing `fd` deletes is the one under `fd`. -/
theorem closing_eq_some {fd : ℤ} {sock : SocketSet} (h : closing s fd = some sock) :
    ¬ fd < 0 ∧ s.socketmap.lookup fd = some (some sock) := by
  unfold closing at h
  split at h
  · cases h
  · rename_i hfd
    exact ⟨hfd, Option.join_eq_some_iff.mp h⟩

/-- **Closing resets no key**, or that of the connection it deletes. -/
theorem closeKeys_cases (fd : ℤ) :
    closeKeys s fd = s.keys ∨ ∃ sock, closing s fd = some sock ∧
      closeKeys s fd = s.keys.setServerSocket (-1) 0 "" 0 sock.type 0 false := by
  unfold closeKeys
  split
  · exact .inl rfl
  · rename_i sock hclosing
    split
    · exact .inr ⟨sock, hclosing, rfl⟩
    · exact .inl rfl

/-! ## Adding -/

/-- A connection is announced to the workers. -/
def announce (sock : SocketSet) : Sys :=
  s.push sock.key.id .connected (NetData.ofSocket sock (connectBytes sock))

/-- The connection `sock` once it has its index. -/
def newConn (sock : SocketSet) : SocketSet :=
  indexed (getIndex s sock.key.fdkey sock.attempt) sock

/-- **A connection comes up**: it has its index, is announced and goes on to
be added. -/
def born (sock : SocketSet) : Sys :=
  (announce (getIndex s sock.key.fdkey sock.attempt) (newConn s sock)).goto
    (.adding (newConn s sock))

/-- What `doAccept` makes of descriptor `fd`, but for the index. -/
def newClient (fd : ℤ) (ip : String) (port : UInt16) (now : ℤ) : SocketSet :=
  initSocketset ⟨fd, 0, 0⟩ ip port clientType now

/-- **What `addClientToEpoll` needs**: a descriptor that is open and not in
epoll, room in the map, and that the kernel agrees. -/
def Addable (fd : ℤ) (ctlOk : Bool) : Prop :=
  ctlOk = true ∧ 0 ≤ fd ∧ fd ∈ s.openfds ∧ fd ∉ s.epollset ∧
    s.socketmap.keys.length < cfg.maxepollsize

instance (fd : ℤ) (ctlOk : Bool) : Decidable (Addable cfg s fd ctlOk) :=
  inferInstanceAs (Decidable (_ ∧ _))

/-- **`addClientToEpoll`, by its result**: the descriptor is closed, or the
connection is registered and in the map. -/
theorem addClientToEpoll_cases (sock : SocketSet) (ctlOk : Bool) :
    (¬ Addable cfg s sock.key.fdkey ctlOk ∧
      ∃ es : IntMap Registration, addClientToEpoll cfg s sock ctlOk =
          { s with openfds := s.openfds.erase sock.key.fdkey, epollset := es } ∧
        ∀ k, es.lookup k = if k = sock.key.fdkey then none else s.epollset.lookup k) ∨
    Addable cfg s sock.key.fdkey ctlOk ∧
      addClientToEpoll cfg s sock ctlOk = { s with
        epollset := s.epollset.insert sock.key.fdkey ⟨sock.key, false⟩
        socketmap := s.socketmap.insert sock.key.fdkey (some sock) } := by
  unfold addClientToEpoll addClientToEpollCalls Sys.closeCall epollAdd addSocketToMap Addable
  by_cases hadd : ctlOk ∧ sock.key.fdkey ∈ s.openfds ∧ sock.key.fdkey ∉ s.epollset
  · obtain ⟨hok, hopen, hnew⟩ := id hadd
    rw [if_pos hadd]
    simp only
    by_cases hneg : sock.key.fdkey < 0
    · rw [if_pos hneg]
      refine .inl ⟨fun h => by omega, _, rfl, ?_⟩
      intro k
      simp only [IntMap.lookup_erase_eq, IntMap.lookup_insert_eq]
      split <;> rfl
    · rw [if_neg hneg]
      by_cases hfull : cfg.maxepollsize ≤ s.socketmap.keys.length
      · rw [if_pos hfull]
        refine .inl ⟨fun h => by omega, _, rfl, ?_⟩
        intro k
        simp only [IntMap.lookup_erase_eq, IntMap.lookup_insert_eq]
        split <;> rfl
      · rw [if_neg hfull]
        exact .inr ⟨⟨hok, by omega, hopen, hnew, by omega⟩, rfl⟩
  · rw [if_neg hadd]
    exact .inl ⟨fun h => hadd ⟨h.1, h.2.2.1, h.2.2.2.1⟩, _, rfl, IntMap.lookup_erase_eq _ _⟩

/-- Where the epoll thread is does not matter to it. -/
theorem addClientToEpoll_goto (sock : SocketSet) (ctlOk : Bool) (pc : Pc) :
    addClientToEpoll cfg (s.goto pc) sock ctlOk = (addClientToEpoll cfg s sock ctlOk).goto pc := by
  unfold addClientToEpoll addClientToEpollCalls Sys.closeCall epollAdd addSocketToMap
  by_cases hadd : ctlOk ∧ sock.key.fdkey ∈ s.openfds ∧ sock.key.fdkey ∉ s.epollset
  · have hadd' : ctlOk ∧ sock.key.fdkey ∈ (s.goto pc).openfds ∧
        sock.key.fdkey ∉ (s.goto pc).epollset := hadd
    rw [if_pos hadd, if_pos hadd']
    simp only
    by_cases hneg : sock.key.fdkey < 0
    · rw [if_pos hneg, if_pos hneg]
      rfl
    · rw [if_neg hneg, if_neg hneg]
      by_cases hfull : cfg.maxepollsize ≤ s.socketmap.keys.length
      · have hfull' : cfg.maxepollsize ≤ (s.goto pc).socketmap.keys.length := hfull
        rw [if_pos hfull, if_pos hfull']
        rfl
      · have hfull' : ¬ cfg.maxepollsize ≤ (s.goto pc).socketmap.keys.length := hfull
        rw [if_neg hfull, if_neg hfull']
        rfl
  · have hadd' : ¬ (ctlOk ∧ sock.key.fdkey ∈ (s.goto pc).openfds ∧
        sock.key.fdkey ∉ (s.goto pc).epollset) := hadd
    rw [if_neg hadd, if_neg hadd']
    rfl

/-- It gives no index. -/
theorem addClientToEpoll_calls (sock : SocketSet) (ctlOk : Bool) :
    (addClientToEpoll cfg s sock ctlOk).calls = s.calls := by
  rcases addClientToEpoll_cases cfg s sock ctlOk with ⟨-, es, heq, -⟩ | ⟨-, heq⟩ <;> rw [heq]

/-- **A round of `doAccept`, by its result**: the descriptor is closed
before it has an index, or the new connection comes up and is added. -/
theorem acceptConn_cases (fd : ℤ) (ip : String) (port : UInt16)
    (nonBlock sndBuf rcvBuf noDelay : Bool) (now : ℤ) (ctlOk : Bool) :
    acceptConn cfg s fd ip port nonBlock sndBuf rcvBuf noDelay now ctlOk =
        { s with openfds := (insert fd s.openfds).erase fd, epollset := s.epollset.erase fd } ∨
    (nonBlock = true ∧ sndBuf = true ∧ rcvBuf = true ∧ noDelay = true) ∧
      acceptConn cfg s fd ip port nonBlock sndBuf rcvBuf noDelay now ctlOk =
        (addClientToEpoll cfg (born (s.opened fd) (newClient fd ip port now))
          (newConn (s.opened fd) (newClient fd ip port now)) ctlOk).goto s.pc := by
  unfold acceptConn acceptConnCalls
  simp only
  by_cases h₁ : nonBlock = true
  · by_cases h₂ : sndBuf = true
    · by_cases h₃ : rcvBuf = true
      · by_cases h₄ : noDelay = true
        · rw [if_neg (not_not.mpr h₁), if_neg (not_not.mpr h₂), if_neg (not_not.mpr h₃),
            if_neg (not_not.mpr h₄), createConnectServerMsg_eq]
          refine .inr ⟨⟨h₁, h₂, h₃, h₄⟩, ?_⟩
          rw [born, addClientToEpoll_goto]
          exact addClientToEpoll_goto cfg (announce (getIndex (s.opened fd) fd 0)
            (newConn (s.opened fd) (newClient fd ip port now))) _ ctlOk s.pc
        · rw [if_neg (not_not.mpr h₁), if_neg (not_not.mpr h₂), if_neg (not_not.mpr h₃), if_pos h₄]
          exact .inl rfl
      · rw [if_neg (not_not.mpr h₁), if_neg (not_not.mpr h₂), if_pos h₃]
        exact .inl rfl
    · rw [if_neg (not_not.mpr h₁), if_pos h₂]
      exact .inl rfl
  · rw [if_pos h₁]
    exact .inl rfl

/-- The keys once an `ADD_CLIENT` event has set its own. -/
def addedKeys (sock : SocketSet) : ServerKeys :=
  s.keys.setServerSocket sock.key.fdkey (newConn s sock).key.connectTime sock.peerIp
    sock.peerPort sock.type sock.attempt true

/-- **An `ADD_CLIENT` event**: its connection comes up, and the key of its
server is set. -/
theorem addClientEvent_eq (sock : SocketSet) :
    addClientEvent cfg s sock = { born s sock with keys := addedKeys s sock } := by
  unfold addClientEvent
  simp only [createConnectServerMsg_eq]
  rfl

/-! ## Messages -/

/-- A record of a message that was accepted. -/
def Record.IsAccept : Record → Prop
  | .accepted _ => True
  | .toServer _ _ => True
  | _ => False

/-- **Adding a message** changes the current map, the count of messages and
the history, and nothing else. -/
theorem addMsg_frame (d : NetData) : ∃ cur allocs recs, (∀ r ∈ recs, r.IsAccept) ∧
    (addMsg cfg s d).2 = { s with cur := cur, allocs := allocs, hist := s.hist ++ recs } := by
  unfold addMsg
  simp only
  split
  · exact ⟨_, _, [_], by simp [Record.IsAccept], rfl⟩
  · exact ⟨_, _, [], by simp, by rw [List.append_nil]⟩

/-- And so does sending to a server. -/
theorem sendMsgToServer_frame (ntype : ℤ) (m : ServerMsg) :
    ∃ cur allocs recs, (∀ r ∈ recs, r.IsAccept) ∧
      sendMsgToServer cfg s ntype m =
        { s with cur := cur, allocs := allocs, hist := s.hist ++ recs } := by
  have hsame : ∃ cur allocs recs, (∀ r ∈ recs, r.IsAccept) ∧
      s = { s with cur := cur, allocs := allocs, hist := s.hist ++ recs } :=
    ⟨s.cur, s.allocs, [], by simp, by rw [List.append_nil]⟩
  unfold sendMsgToServer
  split
  · exact hsame
  · split
    · split
      · exact hsame
      · rename_i k _ _ _ d _
        obtain ⟨cur, allocs, recs, hrecs, heq⟩ := addMsg_frame cfg s d
        simp only
        rw [heq]
        split
        · refine ⟨cur, allocs, recs ++ [.toServer k.attempt (s.allocs + 1)], ?_, ?_⟩
          · intro r hr
            rcases List.mem_append.mp hr with hr | hr
            · exact hrecs r hr
            · rw [List.mem_singleton.mp hr]
              trivial
          · rw [Sys.record, List.append_assoc]
        · exact ⟨cur, allocs, recs, hrecs, rfl⟩
    · exact hsame

/-- **`deleteSendMsgFromSendMap`, by its result**: nothing happens, or the
list is deleted with its messages. -/
theorem deleteSendMsg_cases (fd : ℤ) :
    deleteSendMsgFromSendMap s fd = s ∨
      deleteSendMsgFromSendMap s fd = { s with
        bak := s.bak.erase fd
        hist := s.hist ++ (listAt s.bak fd).map (.deleted .dropped) } := by
  unfold deleteSendMsgFromSendMap
  by_cases hfd : fd < 0
  · rw [if_pos hfd]
    exact .inl rfl
  · rw [if_neg hfd]
    rcases hl : s.bak.lookup fd with _ | _ | lst
    · exact .inl rfl
    · refine .inr ?_
      simp [listAt, hl]
    · refine .inr ?_
      simp [listAt_of_lookup hl]

theorem deleteSendMsg_pc (fd : ℤ) : (deleteSendMsgFromSendMap s fd).pc = s.pc := by
  rcases deleteSendMsg_cases s fd with heq | heq <;> rw [heq]

/-- What dropping one list keeps, dropping those of `m_delsendfdlist` keeps. -/
theorem deleteSendMsgs_invariant {I : Sys → Prop} {s : Sys} (del : List ℤ)
    (hI : ∀ s, ∀ fd ∈ del, I s → I (deleteSendMsgFromSendMap s fd)) (hs : I s) :
    I (del.foldl deleteSendMsgFromSendMap s) := by
  induction del generalizing s with
  | nil => exact hs
  | cons fd fds ih =>
    refine ih (fun s₀ k hk => hI s₀ k (List.mem_cons_of_mem _ hk)) ?_
    exact hI s fd List.mem_cons_self hs

theorem deleteSendMsgs_pc (del : List ℤ) :
    (del.foldl deleteSendMsgFromSendMap s).pc = s.pc :=
  deleteSendMsgs_invariant (I := fun s₁ => s₁.pc = s.pc) del
    (fun s₁ fd _ hs => (deleteSendMsg_pc s₁ fd).trans hs) rfl

/-- Dropping a list touches neither the socket map nor epoll. -/
theorem deleteSendMsg_maps (fd : ℤ) : (deleteSendMsgFromSendMap s fd).socketmap = s.socketmap ∧
    (deleteSendMsgFromSendMap s fd).epollset = s.epollset := by
  rcases deleteSendMsg_cases s fd with heq | heq <;> rw [heq] <;> exact ⟨rfl, rfl⟩

theorem deleteSendMsgs_maps (del : List ℤ) :
    (del.foldl deleteSendMsgFromSendMap s).socketmap = s.socketmap ∧
      (del.foldl deleteSendMsgFromSendMap s).epollset = s.epollset := by
  refine deleteSendMsgs_invariant
    (I := fun s₁ => s₁.socketmap = s.socketmap ∧ s₁.epollset = s.epollset) del ?_ ⟨rfl, rfl⟩
  rintro s₁ fd - ⟨hmap, hset⟩
  obtain ⟨hmap', hset'⟩ := deleteSendMsg_maps s₁ fd
  exact ⟨hmap'.trans hmap, hset'.trans hset⟩

/-! ## Effects -/

/-- **What a handler does**, with what holds where it does it. -/
inductive Effect (s : Sys) : Sys → Prop
  | close (fd conntime : ℤ) : Effect s (closeClient cfg s fd conntime)
  | recv {fd : ℤ} {sock : SocketSet} (now : ℤ) (recvs : List RecvResult)
      (hsock : s.socketmap.lookup fd = some (some sock)) (hkey : sock.key.fdkey = fd) :
    Effect s (received s fd sock (recvMessage cfg.host cfg.recvbuflen now sock recvs))
  | send {fd : ℤ} {sock : SocketSet} {lst : List NetDataPtr} (sends : List SendResult)
      (hsock : s.socketmap.lookup fd = some (some sock))
      (hlst : s.bak.lookup fd = some (some lst)) (hleft : (sendLoop sock.key sends lst).left ≠ [])
      (hok : (sendLoop sock.key sends lst).failed = false) :
    Effect s (sentFrom s fd (sendLoop sock.key sends lst))
  | sendAll {fd : ℤ} {sock : SocketSet} {lst : List NetDataPtr} (sends : List SendResult)
      (hsock : s.socketmap.lookup fd = some (some sock))
      (hlst : s.bak.lookup fd = some (some lst)) (hleft : (sendLoop sock.key sends lst).left = [])
      (hok : (sendLoop sock.key sends lst).failed = false) :
    Effect s { sentFrom s fd (sendLoop sock.key sends lst) with
      bak := (sentFrom s fd (sendLoop sock.key sends lst)).bak.erase fd }
  | sendFail {fd : ℤ} {sock : SocketSet} {lst : List NetDataPtr} (sends : List SendResult)
      (conntime : ℤ) (hsock : s.socketmap.lookup fd = some (some sock))
      (hlst : s.bak.lookup fd = some (some lst))
      (hfail : (sendLoop sock.key sends lst).failed = true) :
    Effect s (closeClient cfg
      (deleteSendMsgFromSendMap (sentFrom s fd (sendLoop sock.key sends lst)) fd) fd conntime)
  | drop {fd : ℤ} (hgone : ∀ sock, s.socketmap.lookup fd ≠ some (some sock)) :
    Effect s (deleteSendMsgFromSendMap s fd)
  | dropNull {fd : ℤ} (hnull : s.bak.lookup fd = some none) :
    Effect s { s with bak := s.bak.erase fd }
  | mod (fd : ℤ) (reg : Registration) (hfd : fd ∈ s.epollset) :
    Effect s { s with epollset := s.epollset.insert fd reg }
  | endDeref (fd : ℤ) : Effect s (s.record (.endDeref fd))
  | closeNull {fd : ℤ} (hnull : s.socketmap.lookup fd = some none) :
    Effect s { s.close fd with socketmap := s.socketmap.erase fd }

/-- A sequence of effects. -/
abbrev Effects : Sys → Sys → Prop := Relation.ReflTransGen (Effect cfg)

variable {cfg s} {s' : Sys}

theorem Effect.effects (h : Effect cfg s s') : Effects cfg s s' := .single h

/-- The epoll thread stays where it is. -/
theorem Effect.pc_eq (h : Effect cfg s s') : s'.pc = s.pc := by
  cases h with
  | close =>
    rw [closeClient_eq]
  | sendFail sends conntime =>
    rw [closeClient_eq]
    exact deleteSendMsg_pc _ _
  | drop => exact deleteSendMsg_pc _ _
  | recv | send | sendAll | dropNull | mod | endDeref | closeNull => rfl

/-- What each effect keeps, a sequence of them keeps. -/
theorem Effects.invariant {I : Sys → Prop} (hI : ∀ s s', Effect cfg s s' → I s → I s')
    (h : Effects cfg s s') (hs : I s) : I s' := by
  induction h with
  | refl => exact hs
  | tail _ heff ih => exact hI _ _ heff ih

theorem Effects.pc_eq (h : Effects cfg s s') : s'.pc = s.pc :=
  h.invariant (I := fun s₁ => s₁.pc = s.pc) (fun _ _ heff hs => heff.pc_eq.trans hs) rfl

/-- **What the handlers leave alone**: what a thread that connects or sends
changes. -/
structure Keeps (s s' : Sys) : Prop where
  eventlist : s'.eventlist = s.eventlist
  connecting : s'.connecting = s.connecting
  attempts : s'.attempts = s.attempts
  allocs : s'.allocs = s.allocs
  cur : s'.cur = s.cur

theorem Keeps.refl : Keeps s s := ⟨rfl, rfl, rfl, rfl, rfl⟩

theorem closeClient_keeps (fd conntime : ℤ) : Keeps s (closeClient cfg s fd conntime) := by
  rw [closeClient_eq]
  exact ⟨rfl, rfl, rfl, rfl, rfl⟩

theorem deleteSendMsg_keeps (fd : ℤ) : Keeps s (deleteSendMsgFromSendMap s fd) := by
  rcases deleteSendMsg_cases s fd with heq | heq <;> rw [heq] <;> exact ⟨rfl, rfl, rfl, rfl, rfl⟩

theorem Keeps.trans {s'' : Sys} (h : Keeps s s') (h' : Keeps s' s'') : Keeps s s'' :=
  ⟨h'.eventlist.trans h.eventlist, h'.connecting.trans h.connecting, h'.attempts.trans h.attempts,
    h'.allocs.trans h.allocs, h'.cur.trans h.cur⟩

theorem deleteSendMsgs_keeps (del : List ℤ) :
    Keeps s (del.foldl deleteSendMsgFromSendMap s) :=
  deleteSendMsgs_invariant (I := Keeps s) del (fun _ fd _ hs => hs.trans (deleteSendMsg_keeps fd))
    .refl

theorem Effect.keeps (h : Effect cfg s s') : Keeps s s' := by
  cases h with
  | close fd conntime => exact closeClient_keeps fd conntime
  | @sendFail fd sock lst sends conntime =>
    have hsent : Keeps s (sentFrom s fd (sendLoop sock.key sends lst)) := ⟨rfl, rfl, rfl, rfl, rfl⟩
    exact (hsent.trans (deleteSendMsg_keeps fd)).trans (closeClient_keeps fd conntime)
  | drop => exact deleteSendMsg_keeps _
  | recv | send | sendAll | dropNull | mod | endDeref | closeNull =>
    exact ⟨rfl, rfl, rfl, rfl, rfl⟩

theorem Effects.keeps (h : Effects cfg s s') : Keeps s s' :=
  h.invariant (I := Keeps s) (fun _ _ heff hs => hs.trans heff.keeps) .refl

theorem epollMod_eq_some {fd : ℤ} {reg : Registration} {ctlOk : Bool}
    (h : epollMod s fd reg ctlOk = some s') :
    fd ∈ s.epollset ∧ s' = { s with epollset := s.epollset.insert fd reg } := by
  unfold epollMod at h
  split at h
  · rename_i hok
    injection h with h
    exact ⟨hok.2, h.symm⟩
  · cases h

variable (s) in
/-- **`doRecvMessage` reads, and closes what it must.** -/
theorem doRecvMessage_effects (key : SocketKey) (io : Io) :
    Effects cfg s (doRecvMessage cfg s key io) := by
  unfold doRecvMessage
  split
  · rename_i sock hsock
    split
    · exact (Effect.close _ _).effects
    · rename_i hkey
      rw [not_not] at hkey
      have hrecv : Effect cfg s (received s key.fdkey sock
          (recvMessage cfg.host cfg.recvbuflen io.now sock io.recvs)) :=
        .recv io.now io.recvs hsock (by rw [hkey])
      simp only
      split
      · exact hrecv.effects
      · exact hrecv.effects.tail (.close _ _)
  · exact (Effect.close _ _).effects

variable (s) in
/-- **An event of the batch.** -/
theorem handleEvent_effects (e : EpollEvent) (io : Io) :
    Effects cfg s (handleEvent cfg s e io) := by
  unfold handleEvent
  split
  · exact doRecvMessage_effects s e.key io
  · obtain ⟨r, hr, hfail, hok⟩ : ∃ r, doSendMessage s e.key io.sends = r ∧
        (r.1 = true → Effect cfg s (closeClient cfg r.2 e.key.fdkey e.key.connectTime)) ∧
        (r.1 = false → Effects cfg s r.2) := by
      refine ⟨_, rfl, ?_⟩
      unfold doSendMessage
      split
      · rename_i sock hsock
        split
        · exact ⟨by simp, fun _ => .refl⟩
        · rename_i hnull
          exact ⟨by simp, fun _ => (Effect.dropNull hnull).effects⟩
        · rename_i lst hlst
          simp only
          split
          · rename_i hfail
            exact ⟨fun _ => .sendFail io.sends _ hsock hlst hfail, by simp⟩
          · rename_i hok
            rw [Bool.not_eq_true] at hok
            split
            · rename_i hleft
              exact ⟨by simp, fun _ => (Effect.sendAll io.sends hsock hlst hleft hok).effects⟩
            · rename_i hleft
              exact ⟨by simp, fun _ => (Effect.send io.sends hsock hlst hleft hok).effects⟩
      · rename_i hgone
        exact ⟨by simp, fun _ => (Effect.drop fun sock h => hgone sock h).effects⟩
    rw [hr]
    simp only
    split
    · exact (hfail ‹_›).effects
    · rename_i hnot
      rw [Bool.not_eq_true] at hnot
      split
      · rename_i s' hmod
        obtain ⟨hfd, rfl⟩ := epollMod_eq_some hmod
        exact (hok hnot).tail (.mod _ _ hfd)
      · exact (hok hnot).tail (.close _ _)
  · exact (Effect.close _ _).effects

variable (s) in
/-- **A round of the scan.** -/
theorem scanFd_effects (fd : ℤ) (ctlOk : Bool) : Effects cfg s (scanFd cfg s fd ctlOk).1 := by
  unfold scanFd
  split
  · exact (Effect.endDeref fd).effects
  · exact .refl
  · rename_i sock hsock
    split
    · rename_i s' hmod
      obtain ⟨hfd, rfl⟩ := epollMod_eq_some hmod
      exact (Effect.mod _ _ hfd).effects
    · exact (Effect.close _ sock.key.connectTime).effects

variable (s) in
/-- **A round of the sweep.** -/
theorem sweepFd_effects (fd : ℤ) : Effects cfg s (sweepFd cfg s fd) := by
  unfold sweepFd sweepFdCalls
  split
  · exact .refl
  · exact (Effect.closeNull ‹_›).effects
  · exact (Effect.close _ _).effects

end Epoll

end EupuServer
