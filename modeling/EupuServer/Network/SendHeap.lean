import EupuServer.Common.Heap
import EupuServer.Common.Machine
import EupuServer.Network.CreateMsg
/-!
# The send maps, with their pointers

The functions on the send maps once more, now with the objects that the
pointers point to: a map holds pointers to lists, a list holds pointers to
messages, and `new` and `delete` are operations of a heap. A function that
uses an object which was deleted has no result. The calls of
`createMsgToSendList` are under way side by side; the functions that hold
`m_sendmaplock`, and those of the epoll thread, are one step each.
-/

namespace EupuServer

namespace Network

open Bytes Protocol

/-- A pointer, which may be null. -/
abbrev Ptr := Option ℕ

/-- The objects: `NET_DATA`, and the lists of pointers to them. -/
structure SendObjs where
  msgs : Heap NetData
  lists : Heap (List Ptr)

namespace SendObjs

variable (o : SendObjs)

/-- `delete` of a message, which a null pointer is nothing to. -/
def deleteMsg : Ptr → Option SendObjs
  | none => some o
  | some a => (o.msgs.free a).map fun msgs => { o with msgs := msgs }

/-- A message is written. -/
def setMsg (a : ℕ) (d : NetData) : Option SendObjs :=
  (o.msgs.set a d).map fun msgs => { o with msgs := msgs }

/-- `new std::list<NET_DATA*>`. -/
def newList : ℕ × SendObjs :=
  let r := o.lists.alloc []
  (r.1, { o with lists := r.2 })

/-- A list is written. -/
def setList (l : ℕ) (ps : List Ptr) : Option SendObjs :=
  (o.lists.set l ps).map fun lists => { o with lists := lists }

/-- `delete` of a list; what it points to stays. -/
def deleteList (l : ℕ) : Option SendObjs :=
  (o.lists.free l).map fun lists => { o with lists := lists }

/-- The loop that deletes the messages of a list. -/
def deleteMsgs (o : SendObjs) : List Ptr → Option SendObjs
  | [] => some o
  | p :: ps => (o.deleteMsg p).bind fun o => deleteMsgs o ps

/-- A list is deleted with its messages. -/
def dropList (l : ℕ) : Option SendObjs := do
  let ps ← o.lists.get l
  let o ← o.deleteMsgs ps
  let o ← o.setList l []
  o.deleteList l

/-- The loop of `clean` over a map. -/
def dropLists (o : SendObjs) : List Ptr → Option SendObjs
  | [] => some o
  | none :: ls => dropLists o ls
  | some l :: ls => (o.dropList l).bind fun o => dropLists o ls

/-! ## `switchSendMap` -/

/-- The overflow branch: the loop over the backup list, which pushes to the
list `cur`. -/
def overflowLoop (needmove idx : ℤ) (cur : ℕ) (o : SendObjs) : List Ptr → Option SendObjs
  | [] => some o
  | p :: bak =>
    if idx ≥ needmove then (o.deleteMsg p).bind fun o => overflowLoop needmove idx cur o bak
    else do
      let c ← o.lists.get cur
      let o ← o.setList cur (c ++ [p])
      overflowLoop needmove idx cur o bak

/-- The list `bak` is merged into the list `cur`, and deleted. -/
def mergeLists (maxSendList : ℤ) (cur bak : ℕ) : Option SendObjs := do
  let c ← o.lists.get cur
  let b ← o.lists.get bak
  if c.length + b.length > uint32 maxSendList then
    let o ← overflowLoop (needMove maxSendList c) 0 cur o b
    let o ← o.setList bak []
    o.deleteList bak
  else
    let o ← o.setList cur (b ++ c)
    let o ← o.setList bak []
    o.deleteList bak

/-- The loop of `switchSendMap` over the entries of the backup map. -/
def mergeLoop (maxSendList : ℤ) (o : SendObjs) (cur : IntMap Ptr) :
    List (Σ _ : ℤ, Ptr) → Option (SendObjs × IntMap Ptr)
  | [] => some (o, cur)
  | ⟨_, none⟩ :: es => mergeLoop maxSendList o cur es
  | ⟨fd, some bak⟩ :: es =>
    match cur.lookup fd with
    | some (some lst) =>
      (o.mergeLists maxSendList lst bak).bind fun o => mergeLoop maxSendList o cur es
    -- the list itself changes the map
    | _ => mergeLoop maxSendList o (cur.insert fd (some bak)) es

/-! ## `doSendMessage` -/

/-- The loop of `doSendMessage` for the connection with key `key`, over the
list `l`, which holds `ps`; and whether a `send` failed. -/
def sendLoop (key : SocketKey) (l : ℕ) (o : SendObjs) :
    List SendResult → List Ptr → Option (Bool × SendObjs)
  | _, [] => some (false, o)
  | script, none :: ps => do
    let o ← o.setList l ps
    sendLoop key l o script ps
  | script, some a :: ps => do
    let d ← o.msgs.get a
    if ¬ (key.fdkey = d.fddat ∧ key.connectTime = d.connectTime) then
      let o ← o.deleteMsg (some a)
      let o ← o.setList l ps
      sendLoop key l o script ps
    else
      let r := sendMsg script d.bytes
      if r.nret < 0 then some (true, o)
      else if r.nret = 0 then
        let num := d.dataLen - r.sent.length
        if num > 0 then
          let o ← o.setMsg a { d with pdata := d.pdata.drop r.sent.length, dataLen := num }
          return (false, o)
        else
          let o ← o.deleteMsg (some a)
          let o ← o.setList l ps
          return (false, o)
      else
        let o ← o.deleteMsg (some a)
        let o ← o.setList l ps
        sendLoop key l o r.rest ps

end SendObjs

/-! ## The maps -/

/-- **The place of a call of `createMsgToSendList`** that has allocated its
message. -/
inductive CreatePc
  /-- before the message is initialised and its frame written -/
  | allocated (r : SendRequest)
  /-- before `addMsgToSendList` -/
  | built
  /-- before the `delete` of the branch that failed -/
  | failed

/-- **The send maps and their objects**, and the calls of
`createMsgToSendList` by the message each allocated. -/
structure SendHeap where
  objs : SendObjs
  cur : IntMap Ptr
  bak : IntMap Ptr
  creating : AList fun _ : ℕ => CreatePc

namespace SendHeap

variable (s : SendHeap)

/-- Before anything is sent. -/
def init : SendHeap := ⟨⟨.empty, .empty⟩, ∅, ∅, ∅⟩

/-- `createMsgToSendList` as far as `new NET_DATA`. -/
def newMsg (r : SendRequest) : SendHeap :=
  if r.fd < 0 then s
  else
    let m := s.objs.msgs.alloc {}
    { s with
      objs := { s.objs with msgs := m.2 }
      creating := s.creating.insert m.1 (.allocated r) }

/-- `createMsgToSendList` from `init` to the header: the message is written,
and the call goes on to queue it or to delete it. -/
def buildMsg (host : Host) (a : ℕ) (r : SendRequest) : Option SendHeap :=
  match createFrame host r with
  | none => do
    let o ← s.objs.setMsg a (r.withBody.getD r.alloc)
    return { s with objs := o, creating := s.creating.insert a .failed }
  | some d => do
    let o ← s.objs.setMsg a d
    return { s with objs := o, creating := s.creating.insert a .built }

/-- `addMsgToSendList`. -/
def addMsgToSendList (maxSendList : ℤ) (a : ℕ) : Option (Bool × SendHeap) := do
  let d ← s.objs.msgs.get a
  match s.cur.lookup d.fddat with
  | none =>
    let r := s.objs.newList
    let o ← r.2.setList r.1 [some a]
    return (true, { s with objs := o, cur := s.cur.insert d.fddat (some r.1) })
  | some (some l) =>
    let ps ← s.objs.lists.get l
    if ps.length < uint32 maxSendList then
      let o ← s.objs.setList l (ps ++ [some a])
      return (true, { s with objs := o })
    else return (false, s)
  | some none => return (false, { s with cur := s.cur.erase d.fddat })

/-- The call of `addMsgToSendList` in `createMsgToSendList`. -/
def queueMsg (maxSendList : ℤ) (a : ℕ) : Option SendHeap := do
  let r ← s.addMsgToSendList maxSendList a
  return { r.2 with
    creating := if r.1 then r.2.creating.erase a else r.2.creating.insert a .failed }

/-- The `delete` of a branch of `createMsgToSendList` that failed. -/
def discardMsg (a : ℕ) : Option SendHeap := do
  let o ← s.objs.deleteMsg (some a)
  return { s with objs := o, creating := s.creating.erase a }

/-- `switchSendMap`. -/
def switchSendMap (maxSendList : ℤ) : Option SendHeap :=
  if s.cur.keys.length = 0 then some s
  else do
    let r ← s.objs.mergeLoop maxSendList s.cur s.bak.ascending
    -- the backup map is cleared, and the two are swapped
    return { s with objs := r.1, cur := ∅, bak := r.2 }

/-- `deleteSendMsgFromSendMap`. -/
def deleteSendMsgFromSendMap (fd : ℤ) : Option SendHeap :=
  if fd < 0 then some s
  else
    match s.bak.lookup fd with
    | none => some s
    | some none => some { s with bak := s.bak.erase fd }
    | some (some l) => do
      let o ← s.objs.dropList l
      return { s with objs := o, bak := s.bak.erase fd }

/-- `doSendMessage` for the descriptor `fd`, where `sock` is the key of the
connection that is found for it. -/
def doSendMessage (fd : ℤ) (sock : Option SocketKey) (sends : List SendResult) : Option SendHeap :=
  match sock with
  | none => s.deleteSendMsgFromSendMap fd
  | some key =>
    match s.bak.lookup fd with
    | none => some s
    | some none => some { s with bak := s.bak.erase fd }
    | some (some l) => do
      let ps ← s.objs.lists.get l
      let r ← s.objs.sendLoop key l sends ps
      let s := { s with objs := r.2 }
      if r.1 then s.deleteSendMsgFromSendMap fd
      else
        let left ← s.objs.lists.get l
        if left.length ≤ 0 then
          let o ← s.objs.deleteList l
          return { s with objs := o, bak := s.bak.erase fd }
        else return s

/-- `clean`, of the send maps. -/
def clean : Option SendHeap := do
  let o ← s.objs.dropLists (s.cur.ascending.map Sigma.snd)
  let o ← o.dropLists (s.bak.ascending.map Sigma.snd)
  return { s with objs := o, cur := ∅, bak := ∅ }

end SendHeap

/-! ## Runs -/

/-- What is done next: the calls of `createMsgToSendList` under way are named
by the message they allocated. -/
inductive SendHeapAction
  | newMsg (r : SendRequest)
  | buildMsg (a : ℕ)
  | queueMsg (a : ℕ)
  | discardMsg (a : ℕ)
  | switchSendMap
  | doSendMessage (fd : ℤ) (sock : Option SocketKey) (sends : List SendResult)
  | deleteSendMsgFromSendMap (fd : ℤ)
  | clean

variable (host : Host) (maxSendList : ℤ)

/-- **A step.** Once a deleted object was used (`none`) nothing is known. -/
def sendHeapNext : Option SendHeap → SendHeapAction → Option (Option SendHeap)
  | none, _ => none
  | some s, .newMsg r => some (some (s.newMsg r))
  | some s, .buildMsg a =>
    match s.creating.lookup a with
    | some (.allocated r) => some (s.buildMsg host a r)
    | _ => none
  | some s, .queueMsg a =>
    match s.creating.lookup a with
    | some .built => some (s.queueMsg maxSendList a)
    | _ => none
  | some s, .discardMsg a =>
    match s.creating.lookup a with
    | some .failed => some (s.discardMsg a)
    | _ => none
  | some s, .switchSendMap => some (s.switchSendMap maxSendList)
  | some s, .doSendMessage fd sock sends => some (s.doSendMessage fd sock sends)
  | some s, .deleteSendMsgFromSendMap fd => some (s.deleteSendMsgFromSendMap fd)
  | some s, .clean => some s.clean

/-- Any sequence of calls, by any threads. -/
def sendHeap : Machine (Option SendHeap) SendHeapAction where
  init := some .init
  next := sendHeapNext host maxSendList

end Network

end EupuServer
