import Skynet.Model.SocketBuffer

/-!
# The gate

`service-src/databuffer.h` and `service-src/service_gate.c`: the gate cuts the streams of
its connections into frames and passes each one on to the broker, to the agent of the
connection or to the watchdog.  The blocks of all connections are in nodes of one pool.

The table of connections is a list, the newest first, as a chain of `hashid.h` is searched.
A command of `_ctrl` is an event with its arguments; how it is read from its text is left
out, and so are the names of the remote ends beyond what is reported of them.  `none` stands
for what C leaves undefined and for a failed `assert`.
-/

namespace Skynet.Model

open Library

/-- `struct message` without its `next`, which is kept with the pool.
SRC: databuffer.h:10-14 -/
structure DataMessage where
  buffer : Bytes
  size : ℤ
  deriving DecidableEq

/-- `struct databuffer`.
SRC: databuffer.h:16-22 -/
structure DataBuffer where
  header : ℤ
  offset : ℤ
  size : ℤ
  list : HeadTail ℕ

namespace DataBuffer

/-- A buffer as `memset` leaves it. -/
def zero : DataBuffer := ⟨0, 0, 0, HeadTail.empty⟩

/-- `_return_message`.
SRC: databuffer.h:48-62 -/
def returnMessage (db : DataBuffer) (mp : NodePool DataMessage) :
    Option (NodePool DataMessage × DataBuffer) := do
  let m ← db.list.head
  match mp.next m with
  | none =>
    if db.list.tail = some m then return (mp.release m, { db with list := HeadTail.empty })
    else none
  | some next => return (mp.release m, { db with list := ⟨some next, db.list.tail⟩ })

/-- The loop of `databuffer_read`, with what was copied before and `fuel` nodes to go.
SRC: databuffer.h:68-87 -/
def readLoop : ℕ → NodePool DataMessage → DataBuffer → ℤ → Bytes →
    Option (Bytes × NodePool DataMessage × DataBuffer)
  | 0, _, _, _, _ => none
  | fuel + 1, mp, db, sz, copied => do
    let current ← db.list.head
    let m ← mp.content current
    let bsz := m.size - db.offset
    if bsz > sz then
      let s ← blockBytes m.buffer db.offset sz
      return (copied ++ s, mp, { db with offset := db.offset + sz })
    else if bsz = sz then
      let s ← blockBytes m.buffer db.offset sz
      let (mp, db) ← returnMessage { db with offset := 0 } mp
      return (copied ++ s, mp, db)
    else
      let s ← blockBytes m.buffer db.offset bsz
      let (mp, db) ← returnMessage db mp
      readLoop fuel mp { db with offset := 0 } (sz - bsz) (copied ++ s)

/-- `databuffer_read`.
SRC: databuffer.h:64-88 -/
def read (db : DataBuffer) (mp : NodePool DataMessage) (sz : ℤ) :
    Option (Bytes × NodePool DataMessage × DataBuffer) :=
  if db.size ≥ sz then readLoop (mp.count + 1) mp { db with size := toInt32 (db.size - sz) } sz []
  else none

/-- `databuffer_push`; a new page has 1023 nodes.
SRC: databuffer.h:90-123 -/
def push (db : DataBuffer) (mp : NodePool DataMessage) (data : Bytes) (sz : ℤ) :
    Option (NodePool DataMessage × DataBuffer) := do
  let mp := if mp.free = none then mp.newPage 1023 else mp
  let m ← mp.free
  let (mp, list) ← (mp.take m ⟨data, sz⟩).append db.list m
  return (mp, { db with size := toInt32 (db.size + sz), list := list })

def headerNumber (plen : Bytes) : ℤ := toInt32 (leNat plen.reverse)

/-- `databuffer_readheader`.
SRC: databuffer.h:125-145 -/
def readheader (db : DataBuffer) (mp : NodePool DataMessage) (headerSize : ℤ) :
    Option (ℤ × NodePool DataMessage × DataBuffer) := do
  if db.header = 0 ∧ db.size < headerSize then return (-1, mp, db)
  let (mp, db) ← (if db.header = 0 then
      (db.read mp headerSize).map fun (plen, mp, db) => (mp, { db with header := headerNumber plen })
    else some (mp, db))
  if db.size < db.header then return (-1, mp, db)
  return (db.header, mp, db)

/-- `databuffer_reset`.
SRC: databuffer.h:147-150 -/
def reset (db : DataBuffer) : DataBuffer := { db with header := 0 }

/-- The loop of `databuffer_clear`, with `fuel` nodes to go.
SRC: databuffer.h:154-156 -/
def clearLoop : ℕ → NodePool DataMessage → DataBuffer → Option (NodePool DataMessage)
  | 0, _, _ => none
  | fuel + 1, mp, db =>
    match db.list.head with
    | none => some mp
    | some _ => (db.returnMessage mp).bind fun (mp, db) => clearLoop fuel mp db

/-- `databuffer_clear`.
SRC: databuffer.h:152-158 -/
def clear (db : DataBuffer) (mp : NodePool DataMessage) :
    Option (NodePool DataMessage × DataBuffer) :=
  (clearLoop (mp.count + 1) mp db).map fun mp => (mp, zero)

end DataBuffer

/-! ## The service -/

/-- `struct connection`; its `remote_name` is only reported.
SRC: service_gate.c:15-21 -/
structure GateConnection where
  id : ℤ
  agent : ℕ
  client : ℕ
  buffer : DataBuffer

inductive GateEffect
  | send (source destination type : ℕ) (session : ℤ) (msg : Bytes)
  | start (id : ℤ)
  | close (id : ℤ)
  | error (text : List Char)
  deriving DecidableEq

/-- `struct gate`; `hash` and `conn` are one list.
SRC: service_gate.c:23-35 -/
structure Gate where
  listenId : ℤ
  watchdog : ℕ
  broker : ℕ
  clientTag : ℕ
  headerSize : ℤ
  maxConnection : ℕ
  conn : List (ℤ × GateConnection)
  mp : NodePool DataMessage

/-- `PTYPE_TEXT`. -/
def gatePtypeText : ℕ := 0

/-- `PTYPE_CLIENT`. -/
def gatePtypeClient : ℕ := 3

def ptypeTagDontcopy : ℕ := 0x10000

namespace Gate

def bytesOf (text : List Char) : Bytes := text.map fun c => .ofNat c.toNat

/-- An `int` as `%d` prints it. -/
def decimal (v : ℤ) : List Char :=
  if v < 0 then '-' :: Nat.toDigits 10 v.natAbs else Nat.toDigits 10 v.natAbs

/-- `hashid_lookup`, to the connection.
SRC: hashid.h:54-64 -/
def lookup (g : Gate) (id : ℤ) : Option GateConnection :=
  (g.conn.find? fun c => c.1 = id).map Prod.snd

/-- `hashid_remove`.
SRC: hashid.h:66-92 -/
def remove (g : Gate) (id : ℤ) : Gate := { g with conn := g.conn.eraseP fun c => c.1 = id }

/-- The connection that `lookup` finds is changed. -/
def setConnection (g : Gate) (id : ℤ) (c : GateConnection) : Gate :=
  { g with conn := g.conn.replaceF fun d => if d.1 = id then some (id, c) else none }

/-- `_report` of a text.
SRC: service_gate.c:153-166 -/
def report (g : Gate) (text : List Char) : List GateEffect :=
  if g.watchdog = 0 then [] else [.send 0 g.watchdog gatePtypeText 0 (bytesOf text)]

/-- `_forward`.
SRC: service_gate.c:168-193 -/
def forward (g : Gate) (c : GateConnection) (size : ℤ) :
    Option (List GateEffect × Gate × GateConnection) := do
  let fd := c.id
  if fd ≤ 0 then return ([], g, c)
  else if g.broker ≠ 0 then
    let (temp, mp, buffer) ← c.buffer.read g.mp size
    return ([.send 0 g.broker (g.clientTag ||| ptypeTagDontcopy) fd temp], { g with mp := mp },
      { c with buffer := buffer })
  else if c.agent ≠ 0 then
    let (temp, mp, buffer) ← c.buffer.read g.mp size
    return ([.send c.client c.agent (g.clientTag ||| ptypeTagDontcopy) fd temp],
      { g with mp := mp }, { c with buffer := buffer })
  else if g.watchdog ≠ 0 then
    let (temp, mp, buffer) ← c.buffer.read g.mp size
    let tmp := bytesOf (decimal c.id ++ " data ".toList) ++ temp
    return ([.send 0 g.watchdog (gatePtypeText ||| ptypeTagDontcopy) fd tmp], { g with mp := mp },
      { c with buffer := buffer })
  else return ([], g, c)

/-- The loop of `dispatch_message`, with `fuel` rounds to go; a round reads at least a
header.
SRC: service_gate.c:198-213 -/
def dispatchLoop (id : ℤ) : ℕ → Gate → GateConnection →
    Option (List GateEffect × Gate × GateConnection)
  | 0, _, _ => none
  | fuel + 1, g, c => do
    let (size, mp, buffer) ← c.buffer.readheader g.mp g.headerSize
    let g := { g with mp := mp }
    let c := { c with buffer := buffer }
    if size < 0 then return ([], g, c)
    else if size > 0 then
      if size ≥ 0x1000000 then
        let (mp, buffer) ← c.buffer.clear g.mp
        return ([.close id, .error "Recv socket message > 16M".toList], { g with mp := mp },
          { c with buffer := buffer })
      else
        let (sent, g, c) ← g.forward c size
        let (rest, g, c) ← dispatchLoop id fuel g { c with buffer := c.buffer.reset }
        return (sent ++ rest, g, c)
    else dispatchLoop id fuel g c

/-- `dispatch_message`.
SRC: service_gate.c:195-214 -/
def dispatchMessage (g : Gate) (c : GateConnection) (id : ℤ) (data : Bytes) (sz : ℤ) :
    Option (List GateEffect × Gate × GateConnection) := do
  let (mp, buffer) ← c.buffer.push g.mp data sz
  dispatchLoop id (buffer.size.toNat + 1) { g with mp := mp } { c with buffer := buffer }

end Gate

/-- The messages that the gate receives: what `dispatch_socket_message` and `_ctrl` get.
SRC: service_gate.c:79-151, 216-279 -/
inductive GateEvent
  | data (id : ℤ) (buffer : Bytes)
  | connect (id : ℤ)
  | closed (id : ℤ)
  | accept (id ud : ℤ) (remoteName : List Char)
  | kick (uid : ℤ)
  | forward (id : ℤ) (agent client : ℕ)
  | broker (handle : ℕ)
  | start (uid : ℤ)
  | closeListen

namespace Gate

/-- One message.
SRC: service_gate.c:79-151, 216-279 -/
def step (g : Gate) : GateEvent → Option (List GateEffect × Gate)
  | .data id buffer =>
    match g.lookup id with
    | some c => (g.dispatchMessage c id buffer buffer.length).map fun (out, g, c) =>
        (out, g.setConnection id c)
    | none => some ([.error ("Drop unknown connection ".toList ++ decimal id ++ " message".toList),
        .close id], g)
  | .connect id =>
    if id = g.listenId then some ([], g)
    else match g.lookup id with
      | some _ => some ([], g)
      | none => some ([.error ("Close unknown connection ".toList ++ decimal id), .close id], g)
  | .closed id =>
    match g.lookup id with
    | some c => (c.buffer.clear g.mp).map fun (mp, _) =>
        let g := { g.remove id with mp := mp }
        (g.report (decimal id ++ " close".toList), g)
    | none => some ([], g)
  | .accept id ud remoteName =>
    if g.listenId ≠ id then none
    else if g.conn.length = g.maxConnection then some ([.close ud], g)
    else
      let text := decimal ud ++ " open ".toList ++ decimal ud ++ ' ' :: remoteName.take 31 ++
        ":0".toList
      let opened := "socket open: ".toList ++ Nat.toDigits 16 (ud % 2 ^ 32).toNat
      some (g.report text ++ [.error opened], { g with conn := (ud, ⟨ud, 0, 0, .zero⟩) :: g.conn })
  | .kick uid =>
    match g.lookup uid with
    | some _ => some ([.close uid], g)
    | none => some ([], g)
  | .forward id agent client =>
    match g.lookup id with
    | some c => some ([], g.setConnection id { c with agent := agent, client := client })
    | none => some ([], g)
  | .broker handle => some ([], { g with broker := handle })
  | .start uid =>
    match g.lookup uid with
    | some _ => some ([.start uid], g)
    | none => some ([], g)
  | .closeListen =>
    if g.listenId ≥ 0 then some ([.close g.listenId], { g with listenId := -1 }) else some ([], g)

/-- The gate after `gate_init`.
SRC: service_gate.c:343-409 -/
def init (long : Bool) (watchdog clientTag maxConnection : ℕ) (listenId : ℤ) : Gate where
  listenId := listenId
  watchdog := watchdog
  broker := 0
  clientTag := if clientTag = 0 then gatePtypeClient else clientTag
  headerSize := if long then 4 else 2
  maxConnection := maxConnection
  conn := []
  mp := NodePool.empty

/-- Messages one after the other, with what the gate does. -/
def run (g : Gate) : List GateEvent → Option (List GateEffect × Gate)
  | [] => some ([], g)
  | e :: es => do
    let (out, g) ← g.step e
    let (rest, g) ← g.run es
    return (out ++ rest, g)

end Gate

end Skynet.Model
