import Skynet.Library.Machine
import Skynet.Model.SocketBuffer

/-!
# Reading from a socket

`lualib/skynet/socket.lua`: one connected socket, the messages `DATA`, `CLOSE` and `ERROR` that
arrive for it, and one coroutine that reads.  A handler that pauses the socket yields, and other
messages are handled before it goes on; a coroutine that has been woken goes on some steps later.

`none` stands for what C leaves undefined in a call of the driver.  What the driver is told to do is
recorded, as are, for the statements, the bytes that have arrived and what each read has returned.
-/

namespace Skynet.Model

open Library

/-- `BUFFER_LIMIT`.
SRC: socket.lua:6 -/
def bufferLimit : ℤ := 128 * 1024

/-- A call of the reading coroutine: `socket.read` with a size or without one, `socket.readall`,
`socket.readline`. -/
inductive ReadCall
  | read (sz : Option ℤ)
  | readall
  | readline (sep : Bytes)
  deriving DecidableEq

/-- What it returns: the data, `false` with the data left, or `false` or `nil` alone; or a failed
`assert`. -/
inductive ReadReturn
  | data (s : Bytes)
  | failed (s : Bytes)
  | nothing
  | raised
  deriving DecidableEq

/-- The field `read_required`: `false` or `nil`, a number, a string or `true`. -/
inductive ReadRequired
  | nothing
  | size (n : ℤ)
  | line (sep : Bytes)
  | all
  deriving DecidableEq

/-- Where the reading coroutine is.  `suspend` has `paused` if it has found the socket paused. -/
inductive ReadPc
  | idle
  | waiting (c : ReadCall) (paused : Bool)
  | woken (c : ReadCall) (paused : Bool)
  deriving DecidableEq

inductive DriverCall
  | pause
  | start
  | close
  | shutdown
  deriving DecidableEq

/-- A read that has returned, with the bytes that were there and whether the socket was still
connected. -/
structure ReadEvent where
  call : ReadCall
  result : ReadReturn
  unread : Bytes
  connected : Bool
  deriving DecidableEq

/-- The bytes that a read has taken from the stream: what it returned, and the separator. -/
def ReadEvent.taken (e : ReadEvent) : Bytes :=
  match e.call, e.result with
  | .readline sep, .data s => s ++ sep
  | _, .data s => s
  | _, .failed s => s
  | _, _ => []

/-- An entry of `socket_pool`, with the coroutine that reads. -/
structure LuaSocket where
  pool : BufferPool
  buffer : SocketBuffer
  connected : Bool
  readRequired : ReadRequired
  /-- `s.co` is the reading coroutine. -/
  co : Bool
  /-- `s.pause` is `true`; else it is `nil`. -/
  pause : Bool
  /-- `s.buffer_limit`. -/
  limit : Option ℤ
  reader : ReadPc
  /-- The handlers in the `skynet.yield` of `pause_socket` that wake the reader afterwards. -/
  pausing : ℕ
  driver : List DriverCall
  received : Bytes
  returns : List ReadEvent

namespace LuaSocket

/-- What `connect` leaves, with the limit of `socket.limit`.
SRC: socket.lua:206-234 -/
def connect (limit : Option ℤ) : LuaSocket where
  pool := emptyPool
  buffer := lnewbuffer
  connected := true
  readRequired := .nothing
  co := false
  pause := false
  limit := limit
  reader := .idle
  pausing := 0
  driver := []
  received := []
  returns := []

def taken (s : LuaSocket) : Bytes := s.returns.flatMap ReadEvent.taken

/-- The bytes that have arrived and that no read has taken. -/
def unread (s : LuaSocket) : Bytes := s.received.drop s.taken.length

/-! ## The driver -/

/-- `driver.push`. -/
def push (s : LuaSocket) (data : Bytes) : Option (ℤ × LuaSocket) :=
  (lpushbuffer s.pool s.buffer data data.length).map fun (sz, pool, buffer) =>
    (sz, { s with pool := pool, buffer := buffer, received := s.received ++ data })

/-- `driver.pop`. -/
def pop (s : LuaSocket) (sz : ℤ) : Option (Option Bytes × LuaSocket) :=
  (lpopbuffer s.pool s.buffer sz).map fun ((ret, _), pool, buffer) =>
    (ret, { s with pool := pool, buffer := buffer })

/-- `driver.readall`. -/
def readall (s : LuaSocket) : Option (Bytes × LuaSocket) :=
  (lreadall s.pool s.buffer).map fun (ret, pool, buffer) =>
    (ret, { s with pool := pool, buffer := buffer })

/-- `driver.readline`. -/
def readline (s : LuaSocket) (sep : Bytes) (check : Bool) : Option (LineResult × LuaSocket) :=
  (lreadline s.pool s.buffer sep check).map fun (ret, pool, buffer) =>
    (ret, { s with pool := pool, buffer := buffer })

/-! ## Messages -/

/-- `wakeup`.
SRC: socket.lua:22-28 -/
def wakeup (s : LuaSocket) : LuaSocket :=
  if s.co then
    { s with
      co := false
      reader := match s.reader with
        | .waiting c paused => .woken c paused
        | pc => pc }
  else s

/-- `pause_socket`, and whether it yields.
SRC: socket.lua:30-42 -/
def pauseSocket (s : LuaSocket) : LuaSocket × Bool :=
  if s.pause then (s, false)
  else ({ s with pause := true, driver := s.driver ++ [.pause] }, true)

/-- The read that is required can be answered.
SRC: socket.lua:78-82, 93-97 -/
def satisfied (s : LuaSocket) (sz : ℤ) : LuaSocket :=
  let s := { s with readRequired := .nothing }
  if sz > bufferLimit then
    match s.pauseSocket with
    | (s, true) => { s with pausing := s.pausing + 1 }
    | (s, false) => s.wakeup
  else s.wakeup

/-- `socket_message[1]`, with `sz` bytes in the buffer.
SRC: socket.lua:73-103 -/
def handleData (s : LuaSocket) (sz : ℤ) : Option LuaSocket :=
  match s.readRequired with
  | .size rr => some (if sz ≥ rr then s.satisfied sz else s)
  | rr =>
    if s.limit.any (· < sz) then some { s with driver := s.driver ++ [.close] }
    else match rr with
    | .line sep => (s.readline sep true).map fun (ret, s) =>
        if ret = .found then s.satisfied sz else s
    | _ => some (if sz > bufferLimit then s.pauseSocket.1 else s)

/-- `socket_message[1]`.
SRC: socket.lua:64-103 -/
def dataMessage (s : LuaSocket) (data : Bytes) : Option LuaSocket :=
  (s.push data).bind fun (sz, s) => s.handleData sz

/-- `socket_message[3]`.
SRC: socket.lua:119-132 -/
def closeMessage (s : LuaSocket) : LuaSocket := wakeup { s with connected := false }

/-- `socket_message[5]`.
SRC: socket.lua:145-165 -/
def errorMessage (s : LuaSocket) : LuaSocket :=
  wakeup { s with connected := false, driver := s.driver ++ [.shutdown] }

/-- The end of the `skynet.yield` of a handler that has paused the socket. -/
def yielded (s : LuaSocket) : Option LuaSocket :=
  if s.pausing = 0 then none else some (wakeup { s with pausing := s.pausing - 1 })

/-! ## Reads -/

/-- The read `c` returns. -/
def ret (s : LuaSocket) (c : ReadCall) (r : ReadReturn) : LuaSocket :=
  { s with reader := .idle, returns := s.returns ++ [⟨c, r, s.unread, s.connected⟩] }

/-- `return false, driver.readall(s.buffer, s.pool)`. -/
def retFailed (s : LuaSocket) (c : ReadCall) : Option LuaSocket :=
  s.readall.map fun (ret, s) => s.ret c (.failed ret)

/-- `s.read_required = ...`, and `suspend` up to its `skynet.wait`.
SRC: socket.lua:44-53 -/
def suspend (s : LuaSocket) (c : ReadCall) (required : ReadRequired) : LuaSocket :=
  -- assert(not s.read_required)
  if s.readRequired ≠ .nothing then s.ret c .raised
  -- assert(not s.co)
  else if s.co then { s with readRequired := required }.ret c .raised
  else { s with
    readRequired := required, co := true, reader := .waiting c s.pause
    driver := if s.pause then s.driver ++ [.start] else s.driver }

/-- `socket.read`, `socket.readall` and `socket.readline`, up to the `skynet.wait`.
SRC: socket.lua:298-374 -/
def call (s : LuaSocket) (c : ReadCall) : Option LuaSocket :=
  match c with
  | .read none => s.readall.map fun (ret, s) =>
      if ret ≠ [] then s.ret c (.data ret)
      else if !s.connected then s.ret c (.failed ret)
      else s.suspend c (.size 0)
  | .read (some sz) => (s.pop sz).bind fun (ret, s) =>
      match ret with
      | some d => some (s.ret c (.data d))
      | none => if !s.connected then s.retFailed c else some (s.suspend c (.size sz))
  | .readall =>
    if !s.connected then s.readall.map fun (r, s) =>
      s.ret c (if r ≠ [] then .data r else .nothing)
    else some (s.suspend c .all)
  | .readline sep => (s.readline sep false).bind fun (ret, s) =>
      match ret with
      | .line d => some (s.ret c (.data d))
      | _ => if !s.connected then s.retFailed c else some (s.suspend c (.line sep))

/-- The rest of the read, once the coroutine has been woken.
SRC: socket.lua:313-318, 332-338, 350-352, 368-373 -/
def answer (s : LuaSocket) (c : ReadCall) : Option LuaSocket :=
  match c with
  | .read none => s.readall.map fun (ret, s) =>
      s.ret c (if ret ≠ [] then .data ret else .failed ret)
  | .read (some sz) => (s.pop sz).bind fun (ret, s) =>
      match ret with
      | some d => some (s.ret c (.data d))
      | none => s.retFailed c
  | .readall =>
    -- assert(s.connected == false)
    if s.connected then some (s.ret c .raised)
    else s.readall.map fun (r, s) => s.ret c (.data r)
  | .readline sep =>
    if s.connected then (s.readline sep false).map fun (ret, s) =>
      s.ret c (match ret with
        | .line d => .data d
        | _ => .nothing)
    else s.retFailed c

/-- The reading coroutine goes on behind the `skynet.wait` of `suspend`.
SRC: socket.lua:50-60 -/
def resume (s : LuaSocket) : Option LuaSocket :=
  match s.reader with
  | .woken c paused => { s with pause := if paused then false else s.pause }.answer c
  | _ => none

end LuaSocket

/-- A message arrives, a handler that yielded goes on, or the reading coroutine does. -/
inductive SocketReadAction
  | data (data : Bytes)
  | close
  | error
  | yielded
  | call (c : ReadCall)
  | resume
  deriving DecidableEq

/-- One step. -/
def LuaSocket.next (s : LuaSocket) : SocketReadAction → Option LuaSocket
  | .data data => s.dataMessage data
  | .close => some s.closeMessage
  | .error => some s.errorMessage
  | .yielded => s.yielded
  | .call c => if s.reader = .idle then s.call c else none
  | .resume => s.resume

/-- A connected socket, with a limit or without one. -/
def socketReadMachine : Machine LuaSocket SocketReadAction where
  start s := ∃ limit, s = LuaSocket.connect limit
  next := LuaSocket.next

end Skynet.Model
