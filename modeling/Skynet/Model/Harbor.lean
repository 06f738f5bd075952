import Skynet.Library.LittleEndian
import Skynet.Library.LuaTable
import Skynet.Model.Handle

/-!
# The harbor service

`service-src/service_harbor.c`: the service that carries messages to the other nodes of a
network.  It keeps a table of global names and, for every node, the socket to it and a
queue of the messages that wait for it.

The queues are lists: the rings of the source, which grow, hold the same messages in the
same order.  Log messages and the release of memory are left out.  The messages that come
to be routed are numbered; the numbers, what was routed, and what the service did are
records of the run.
-/

namespace Skynet.Model

open Library

/-! ## Data -/

/-- `handle >> HANDLE_REMOTE_SHIFT`. -/
def harborOf (handle : ℕ) : ℕ := handle >>> 24

def remoteMax : ℤ := 256

def globalnameLength : ℕ := 16

/-- `PTYPE_TEXT`. -/
def harborPtypeText : UInt8 := 0

/-- `PTYPE_ERROR`. -/
def harborPtypeError : UInt8 := 7

/-- `struct remote_message_header`; the type of the message is in the high 8 bits of the
destination. -/
structure RemoteHeader where
  source : ℕ
  destination : ℕ
  session : ℕ
  deriving DecidableEq

/-- `struct harbor_msg`, and the number of the message. -/
structure HarborMsg where
  header : RemoteHeader
  buffer : Bytes
  number : ℕ
  deriving DecidableEq

/-- `STATUS_*`. -/
inductive SlaveStatus
  | wait
  | handshake
  | header
  | content
  | down
  deriving DecidableEq

/-- `struct slave`: `size` and `recvBuffer` are what has been received of them, and `read`
is the length of the one that the status is about. -/
structure Slave where
  fd : ℤ
  queue : Option (List HarborMsg)
  status : SlaveStatus
  length : ℕ
  size : Bytes
  recvBuffer : Bytes
  deriving DecidableEq

/-- What `hash_search` compares: the hash, and the names as C strings. -/
abbrev NameKey := ℕ × Bytes

/-- `struct keyvalue` without its key. -/
structure NameNode where
  value : ℕ
  queue : Option (List HarborMsg)
  deriving DecidableEq

/-- What the service does: `skynet_send` (where a source 0 is the service itself),
`skynet_socket_sendbuffer`, `skynet_socket_start` and `skynet_socket_close`; the first two
with the number of the message that is passed on. -/
inductive HarborEffect
  | send (number : Option ℕ) (source destination : ℕ) (type : UInt8) (session : ℕ)
      (data : Bytes)
  | write (number : Option ℕ) (fd : ℤ) (bytes : Bytes)
  | start (fd : ℤ)
  | close (fd : ℤ)
  deriving DecidableEq

/-- The number of the message that is passed on. -/
def HarborEffect.number : HarborEffect → Option ℕ
  | .send number .. => number
  | .write number .. => number
  | _ => none

/-- A message that came to be routed: the name it was sent to, if not to a handle, and the
arguments of `remote_send_name` or `remote_send_handle`. -/
structure RoutedMsg where
  name : Option NameKey
  source : ℕ
  type : UInt8
  session : ℕ
  body : Bytes
  deriving DecidableEq

/-- `struct harbor`, and records of the run: the effects, the messages that came to be
routed, the handles they were given, the names that were bound, the harbors that have gone
down, and the messages that were queued for them when they did. -/
structure Harbor where
  id : ℕ
  slave : ℕ
  map : Table NameKey NameNode
  s : ℕ → Slave
  out : List HarborEffect
  routed : List RoutedMsg
  given : Table ℕ ℕ
  bindings : List (NameKey × ℕ)
  downs : List ℕ
  lost : List (ℕ × HarborMsg)

namespace Harbor

def unknown : Slave := ⟨0, none, .wait, 0, [], []⟩

/-- `harbor_init`. -/
def init (id slave : ℕ) : Harbor := ⟨id, slave, ∅, fun _ => unknown, [], [], ∅, [], [], []⟩

/-! ## Small steps -/

def emit (h : Harbor) (e : HarborEffect) : Harbor := { h with out := h.out ++ [e] }

/-- `h->s[id]` is changed. -/
def setSlave (h : Harbor) (id : ℕ) (s : Slave) : Harbor :=
  { h with s := fun i => if i = id then s else h.s i }

def receive (h : Harbor) (m : RoutedMsg) : Harbor := { h with routed := h.routed ++ [m] }

def give (h : Harbor) (number handle : ℕ) : Harbor :=
  { h with given := h.given.put number (some handle) }

def goDown (h : Harbor) (id : ℕ) : Harbor :=
  if id ∈ h.downs then h
  else { h with
    downs := h.downs ++ [id]
    lost := h.lost ++ ((h.s id).queue.getD []).map (id, ·) }

def toBigendian (n : ℕ) : Bytes :=
  [.ofNat (n >>> 24), .ofNat (n >>> 16), .ofNat (n >>> 8), .ofNat n]

/-- `from_bigendian` of four bytes. -/
def fromBigendian (bytes : Bytes) : ℕ := leNat bytes.reverse

/-- The bytes that `send_remote` puts together. -/
def frame (header : RemoteHeader) (buffer : Bytes) : Bytes :=
  toBigendian (buffer.length + 12) ++ buffer ++ toBigendian header.source ++
    toBigendian header.destination ++ toBigendian header.session

/-- SRC: service_harbor.c:328-348 -/
def sendRemote (h : Harbor) (fd : ℤ) (m : HarborMsg) : Harbor :=
  if m.buffer.length + 12 > 0xffffffff then h
  else h.emit (.write (some m.number) fd (frame m.header m.buffer))

/-- SRC: service_harbor.c:230-241 -/
def closeHarbor (h : Harbor) (id : ℕ) : Harbor :=
  let h := h.goDown id
  let s := h.s id
  let h := if s.fd ≠ 0 then h.emit (.close s.fd) else h
  h.setSlave id { s with status := .down, queue := none }

def text (s : List Char) : Bytes := s.map fun c => .ofNat c.toNat

/-- SRC: service_harbor.c:243-249 -/
def reportHarborDown (h : Harbor) (id : ℕ) : Harbor :=
  h.emit (.send none 0 h.slave harborPtypeText 0 (text ("D ".toList ++ Nat.toDigits 10 id)))

/-! ## Names -/

/-- The hash of the 16 bytes of a name.
SRC: service_harbor.c:155-166 -/
def nameHash (name : Bytes) : ℕ :=
  leNat (name.take 4) ^^^ leNat ((name.drop 4).take 4) ^^^ leNat ((name.drop 8).take 4) ^^^
    leNat ((name.drop 12).take 4)

/-- The bytes that `strncmp` compares. -/
def cString (name : Bytes) : Bytes := (name.take globalnameLength).takeWhile (· ≠ 0)

/-- SRC: service_harbor.c:154-166 -/
def nameKey (name : Bytes) : NameKey := (nameHash name, cString name)

/-- The node that `hash_search` finds or `hash_insert` makes. -/
def node (h : Harbor) (key : NameKey) : NameNode := (h.map.get key).getD ⟨0, none⟩

/-! ## Queues -/

/-- The messages of a queue, sent on a socket.
SRC: service_harbor.c:405-409 -/
def sendAll (h : Harbor) (fd : ℤ) (queue : List HarborMsg) : Harbor :=
  queue.foldl (fun h m => h.sendRemote fd m) h

/-- The header of a message that waited for its name is completed from the binding.
SRC: service_harbor.c:389 -/
def complete (handle : ℕ) (m : HarborMsg) : HarborMsg := { m with header :=
    { m.header with destination := m.header.destination ||| (handle &&& handleMask) } }

/-- The messages of a queue, sent to a local handle.
SRC: service_harbor.c:377-380 -/
def sendLocal (h : Harbor) (handle : ℕ) (queue : List HarborMsg) : Harbor :=
  queue.foldl (fun h m => h.emit (.send (some m.number) m.header.source handle
    (.ofNat (harborOf m.header.destination)) m.header.session m.buffer)) h

/-- The queue of a name, once the name is bound to the handle.
SRC: service_harbor.c:350-393 -/
def dispatchNameQueue (h : Harbor) (handle : ℕ) (queue : List HarborMsg) : Harbor :=
  let h := queue.foldl (fun h m => h.give m.number handle) h
  let harborId := harborOf handle
  let s := h.s harborId
  if s.fd = 0 then
    if s.status = .down then h
    else
      let joined := s.queue.getD [] ++ queue
      if harborId = harborOf h.slave then
        (h.sendLocal handle joined).setSlave harborId { s with queue := none }
      else h.setSlave harborId { s with queue := some joined }
  else h.sendAll s.fd (queue.map (complete handle))

/-- SRC: service_harbor.c:395-412 -/
def dispatchQueue (h : Harbor) (id : ℕ) : Harbor :=
  let s := h.s id
  match s.queue with
  | none => h
  | some queue => (h.sendAll s.fd queue).setSlave id { s with queue := none }

/-! ## Commands -/

/-- SRC: service_harbor.c:508-520 -/
def updateName (h : Harbor) (name : Bytes) (handle : ℕ) : Harbor :=
  let key := nameKey name
  let node := h.node key
  let h := { h with
    map := h.map.put key (some ⟨handle, none⟩)
    bindings := h.bindings ++ [(key, handle)] }
  match node.queue with
  | none => h
  | some queue => h.dispatchNameQueue handle queue

/-- The 16 bytes of the name in an `N` command.
SRC: service_harbor.c:609-611 -/
def padName (name : Bytes) : Bytes :=
  name ++ List.replicate (globalnameLength - name.length) 0

/-- The command `N`; a name that is too long is refused.
SRC: service_harbor.c:604-615 -/
def commandName (h : Harbor) (name : Bytes) (source : ℕ) : Harbor :=
  if name.length = 0 ∨ name.length ≥ globalnameLength then h
  else h.updateName (padName name) source

/-- The commands `S` and `A` with the numbers that `sscanf` read.
SRC: service_harbor.c:586-596, 616-643 -/
def commandConnect (h : Harbor) (accept : Bool) (fd id : ℤ) : Harbor :=
  if fd = 0 ∨ id ≤ 0 ∨ id ≥ remoteMax then h
  else
    let s := h.s id.toNat
    if s.fd ≠ 0 then h
    else
      let h := (h.emit (.start fd)).emit (.write none fd [.ofNat h.id])
      if accept then
        (h.setSlave id.toNat { s with fd := fd, status := .header }).dispatchQueue id.toNat
      else h.setSlave id.toNat { s with fd := fd, status := .handshake }

/-- A message at the end of the queue of a slave.
SRC: service_harbor.c:540-547 -/
def pushSlave (h : Harbor) (id : ℕ) (m : HarborMsg) : Harbor :=
  h.setSlave id { h.s id with queue := some ((h.s id).queue.getD [] ++ [m]) }

/-- SRC: service_harbor.c:522-559 -/
def remoteSendHandle (h : Harbor) (number source destination : ℕ) (type : UInt8) (session : ℕ)
    (msg : Bytes) : Harbor :=
  let harborId := harborOf destination
  let h := h.give number destination
  if harborId = h.id then h.emit (.send (some number) source destination type session msg)
  else
    let s := h.s harborId
    let header : RemoteHeader :=
      ⟨source, (type.toNat <<< 24) ||| (destination &&& handleMask), session⟩
    if s.fd = 0 ∨ s.status = .handshake then
      if s.status = .down then h.emit (.send none destination source harborPtypeError 0 [])
      else h.pushSlave harborId ⟨header, msg, number⟩
    else h.sendRemote s.fd ⟨header, msg, number⟩

/-- SRC: service_harbor.c:561-584 -/
def remoteSendName (h : Harbor) (number source : ℕ) (name : Bytes) (type : UInt8)
    (session : ℕ) (msg : Bytes) : Harbor :=
  let key := nameKey name
  let node := h.node key
  if node.value = 0 then
    let m : HarborMsg := ⟨⟨source, type.toNat <<< 24, session⟩, msg, number⟩
    let h := { h with map := h.map.put key (some ⟨0, some (node.queue.getD [] ++ [m])⟩) }
    h.emit (.send none 0 h.slave harborPtypeText 0 (text "Q ".toList ++ cString name))
  else
    let h := { h with map := h.map.put key (some node) }
    h.remoteSendHandle number source node.value type session msg

/-! ## Messages in -/

/-- A message from another harbor; `alive` tells which handles `skynet_send` finds.  What that
returns is the session as an `int`, or less than zero.  With less than a header in the buffer the
source reads in front of it: `none`.
SRC: service_harbor.c:308-326; skynet_server.c:703-747 -/
def forwardLocalMessage (h : Harbor) (alive : ℕ → Bool) (msg : Bytes) : Option Harbor :=
  if msg.length < 12 then none
  else
    let body := msg.take (msg.length - 12)
    let cookie := msg.drop (msg.length - 12)
    let source := fromBigendian (cookie.take 4)
    let destination := fromBigendian ((cookie.drop 4).take 4)
    let session := fromBigendian (cookie.drop 8)
    let type : UInt8 := .ofNat (harborOf destination)
    let destination := (destination &&& handleMask) ||| (h.id <<< 24)
    let h := h.emit (.send none source destination type session body)
    if (alive destination ∧ session < 2 ^ 31) ∨ type = harborPtypeError then some h
    else some (h.emit (.send none destination source harborPtypeError session []))

/-- One round of the loop of `push_socket_data`: the state after it, and the bytes that
the next round goes on with, or `none` when the function returns. -/
abbrev Round := Harbor × Option Bytes

/-- SRC: service_harbor.c:483-501 -/
def readContent (h : Harbor) (id : ℕ) (alive : ℕ → Bool) (buffer : Bytes) : Option Round :=
  let s := h.s id
  let need := s.length - s.recvBuffer.length
  if buffer.length < need then
    some (h.setSlave id { s with recvBuffer := s.recvBuffer ++ buffer }, none)
  else
    (h.forwardLocalMessage alive (s.recvBuffer ++ buffer.take need)).map fun h =>
      let h := h.setSlave id { s with length := 0, size := [], recvBuffer := [], status := .header }
      (h, if buffer.length = need then none else some (buffer.drop need))

/-- SRC: service_harbor.c:456-481 -/
def readHeader (h : Harbor) (id : ℕ) (alive : ℕ → Bool) (buffer : Bytes) : Option Round :=
  let s := h.s id
  let need := 4 - s.size.length
  if buffer.length < need then
    some (h.setSlave id { s with size := s.size ++ buffer }, none)
  else
    let size := s.size ++ buffer.take need
    let rest := buffer.drop need
    if size.headD 0 ≠ 0 then some (h.closeHarbor id, none)
    else
      let h := h.setSlave id
        { s with length := fromBigendian size, size := [], recvBuffer := [], status := .content }
      if rest = [] then some (h, none) else h.readContent id alive rest

/-- SRC: service_harbor.c:437-455; with no byte the source reads behind the buffer: `none`. -/
def readHandshake (h : Harbor) (id : ℕ) (alive : ℕ → Bool) (buffer : Bytes) : Option Round :=
  match buffer with
  | [] => none
  | remoteId :: rest =>
    if remoteId.toNat ≠ id then some (h.closeHarbor id, none)
    else
      let h := (h.setSlave id { h.s id with status := .header }).dispatchQueue id
      if rest = [] then some (h, some []) else h.readHeader id alive rest

/-- SRC: service_harbor.c:436-504 -/
def readRound (h : Harbor) (id : ℕ) (alive : ℕ → Bool) (buffer : Bytes) : Option Round :=
  match (h.s id).status with
  | .handshake => h.readHandshake id alive buffer
  | .header => h.readHeader id alive buffer
  | .content => h.readContent id alive buffer
  | .wait => some (h, none)
  | .down => some (h, none)

/-- The loop of `push_socket_data`, at most `fuel` rounds of it.
SRC: service_harbor.c:435-505 -/
def readLoop (fuel : ℕ) (h : Harbor) (id : ℕ) (alive : ℕ → Bool) (buffer : Bytes) : Option Harbor :=
  match fuel with
  | 0 => none
  | fuel + 1 =>
    match h.readRound id alive buffer with
    | none => none
    | some (h, none) => some h
    | some (h, some rest) => readLoop fuel h id alive rest

/-- The slave of a socket, 0 when there is none.
SRC: service_harbor.c:421-427, 650-660 -/
def harborId (h : Harbor) (fd : ℤ) : ℕ :=
  ((List.range' 1 255).find? fun i => (h.s i).fd = fd).getD 0

/-- SRC: service_harbor.c:414-506 -/
def pushSocketData (h : Harbor) (alive : ℕ → Bool) (fd : ℤ) (buffer : Bytes) : Option Harbor :=
  let id := h.harborId fd
  if id = 0 then some h else readLoop (buffer.length + 3) h id alive buffer

/-- A socket was closed; the harbors that it led to are down.
SRC: service_harbor.c:673-682 -/
def socketClosed (h : Harbor) (fd : ℤ) : Harbor :=
  let gone := (List.range' 1 255).filter fun i => (h.s i).fd = fd ∧ fd ≠ 0
  let id := h.harborId fd
  let h := gone.foldl goDown h
  if id ≠ 0 then h.reportHarborDown id else h

end Harbor

/-- The messages that the harbor service receives.  The source of the command `N` is a
handle: `skynet_send` puts the sender's handle for 0. -/
inductive HarborEvent
  | sendHandle (source destination : ℕ) (type : UInt8) (session : ℕ) (msg : Bytes)
  | sendName (source : ℕ) (name : Bytes) (type : UInt8) (session : ℕ) (msg : Bytes)
  | name (name : Bytes) (source : ℕ)
  | connect (accept : Bool) (fd id : ℤ)
  | data (alive : ℕ → Bool) (fd : ℤ) (bytes : Bytes)
  | closed (fd : ℤ)

namespace Harbor

/-- SRC: service_harbor.c:662-725 -/
def mainloop (h : Harbor) : HarborEvent → Option Harbor
  | .sendHandle source destination type session msg =>
    if destination = 0 then none
    else
      let number := h.routed.length
      let h := h.receive ⟨none, source, type, session, msg⟩
      some (h.remoteSendHandle number source destination type session msg)
  | .sendName source name type session msg =>
    let number := h.routed.length
    let h := h.receive ⟨some (nameKey name), source, type, session, msg⟩
    some (h.remoteSendName number source name type session msg)
  | .name name source => if source = 0 then none else some (h.commandName name source)
  | .connect accept fd id => some (h.commandConnect accept fd id)
  | .data alive fd bytes => if bytes = [] then none else h.pushSocketData alive fd bytes
  | .closed fd => some (h.socketClosed fd)

end Harbor

/-- The harbor service of the harbor `id`, under any order of messages.  The handle of the
slave service, which launches it, is one of this harbor.
SRC: service/cslave.lua:242 -/
def harborMachine (id : ℕ) : Machine Harbor HarborEvent where
  start h := ∃ slave, harborOf slave = id ∧ h = .init id slave
  next := Harbor.mainloop

end Skynet.Model
