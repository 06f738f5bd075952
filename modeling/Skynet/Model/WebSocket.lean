import Skynet.Library.LittleEndian
import Skynet.Library.Frames
import Skynet.Model.LuaSeri

/-!
# The frames of websockets

`write_frame` and `read_frame` of `lualib/http/websocket.lua`, with the loops of
`resolve_accept` and of `websocket.read`, and `lxor_str` of `lua-crypt.c`.

A connection is open, and `self.read(n)` gives `n` bytes of what arrives, where `n` is cut to an
`int`; where fewer arrive it waits, and raises an error when the connection ends.  The handlers
of a server only look.
-/

namespace Skynet.Model

open Library

/-! ## Data -/

/-- The names in `op_code`.
SRC: websocket.lua:162-175 -/
inductive WsOp
  | frame
  | text
  | binary
  | close
  | ping
  | pong
  deriving DecidableEq

/-- `op_code[name]`. -/
def WsOp.code : WsOp → ℕ
  | .frame => 0x00
  | .text => 0x01
  | .binary => 0x02
  | .close => 0x08
  | .ping => 0x09
  | .pong => 0x0A

/-- `op_code[code]`. -/
def opOfCode : ℕ → Option WsOp
  | 0x00 => some .frame
  | 0x01 => some .text
  | 0x02 => some .binary
  | 0x08 => some .close
  | 0x09 => some .ping
  | 0x0A => some .pong
  | _ => none

def maxFrameSize : ℕ := 256 * 1024

/-- What stops a loop: there are no more bytes, an error of the code, or a counter of C that
overflows. -/
inductive WsError
  | socketError
  | payloadTooLarge
  | unknownOp
  | emptyKey
  | intOverflow
  deriving DecidableEq

/-- What a server hands to its handlers, and what a client gets from `websocket.read`. -/
inductive WsEvent
  | message (payload : Bytes) (op : WsOp)
  | ping
  | pong
  | close (code : Option ℕ) (reason : Option Bytes)
  | read (payload : Bytes)
  | readClose (payload : Bytes)
  deriving DecidableEq

/-- What has not been read, what has been written, and what was handed on. -/
structure WsState where
  pieces : List Bytes
  out : List Bytes
  events : List WsEvent

abbrev WsM := EStateM WsError WsState

namespace WebSocket

/-- `self.read(n)`, which ends in `driver.pop`: a number below zero is too long for a string, and
of no bytes there is nothing.
SRC: sockethelper.lua:45-58; lua-socket.c:242-259 -/
def read (n : ℕ) : WsM Bytes := do
  let s ← get
  let sz := toInt32 n
  if sz < 0 then throw .intOverflow
  else if sz = 0 then throw .socketError
  else
    match takeExact sz.toNat s.pieces with
    | some (bytes, pieces) =>
      set { s with pieces := pieces }
      return bytes
    | none => throw .socketError

/-- `self.write(bytes)`. -/
def write (bytes : Bytes) : WsM Unit := modify fun s => { s with out := s.out ++ [bytes] }

/-- A handler is called, or `websocket.read` returns. -/
def handOn (e : WsEvent) : WsM Unit := modify fun s => { s with events := s.events ++ [e] }

/-- `string.pack(">I" .. n, x)`. -/
def packBig (n x : ℕ) : Bytes := (leBytes n x).reverse

/-- `string.unpack(">I" .. #bytes, bytes)`; a number of eight bytes has a sign. -/
def unpackBig (bytes : Bytes) : ℤ :=
  (leNat bytes.reverse : ℤ) - if leNat bytes.reverse < 2 ^ 63 then 0 else 2 ^ 64

/-! ## Frames -/

/-- The bytes of `lxor_str`, each with its byte of the key. -/
def xorBytes (s1 s2 : Bytes) : Bytes :=
  s1.zipIdx.map fun x => x.1 ^^^ s2.getD (x.2 % s2.length) 0

/-- The counter of the loop is an `int`, and counts up to the length.
SRC: lua-crypt.c:1012-1029 -/
def lxorStr (s1 s2 : Bytes) : WsM Bytes :=
  if s2.length = 0 then throw .emptyKey
  else if 2 ^ 31 ≤ s1.length then throw .intOverflow
  else return xorBytes s1 s2

/-- `string.pack`, of the header and the length.
SRC: websocket.lua:181-191 -/
def packHeader (op : WsOp) (mask len : ℕ) : Bytes :=
  let v1 := UInt8.ofNat (0x80 ||| op.code)
  if len < 126 then [v1, UInt8.ofNat (mask ||| len)]
  else if len < 0xffff then [v1, UInt8.ofNat (mask ||| 126)] ++ packBig 2 len
  else [v1, UInt8.ofNat (mask ||| 127)] ++ packBig 8 len

/-- The masking key is written, and the payload is masked.
SRC: websocket.lua:194-199 -/
def writeKey (payload : Bytes) : Option UInt32 → WsM Bytes
  | some maskingKey => do
    let s := packBig 4 maskingKey.toNat
    write s
    lxorStr payload s
  | none => return payload

/-- SRC: websocket.lua:177-206 -/
def writeFrame (op : WsOp) (payload : Bytes) (maskingKey : Option UInt32) : WsM Unit := do
  write (packHeader op (if maskingKey.isSome then 0x80 else 0x00) payload.length)
  let data ← writeKey payload maskingKey
  if payload.length > 0 then write data

/-- `read_close`.
SRC: websocket.lua:207-215 -/
def readClose (payload : Bytes) : Option ℕ × Option Bytes :=
  if payload.length > 2 then (some (leNat (payload.take 2).reverse), some (payload.drop 2))
  else (none, none)

/-- The length of the payload, which follows if the seven bits of the header say so.
SRC: websocket.lua:231-237 -/
def readLength (short : UInt8) : WsM ℤ :=
  if short = 126 then do
    let s ← read 2
    return unpackBig s
  else if short = 127 then do
    let s ← read 8
    return unpackBig s
  else return short.toNat

/-- `payload_len>0 and self.read(payload_len) or ""`. -/
def readSized (len : ℤ) : WsM Bytes :=
  if len > 0 then read len.toNat else return []

/-- The payload, behind its key if it is masked.
SRC: websocket.lua:242-245 -/
def readPayload (mask : Bool) (len : ℤ) : WsM Bytes :=
  if mask then do
    let maskingKey ← read 4
    let payload ← readSized len
    lxorStr payload maskingKey
  else readSized len

/-- `read_frame` behind the two bytes of the header.
SRC: websocket.lua:223-245 -/
def readAfter (server : Bool) (v1 v2 : UInt8) : WsM (Bool × WsOp × Bytes) := do
  let len ← readLength (v2 &&& 0x7f)
  if server ∧ len > maxFrameSize then throw .payloadTooLarge
  else
    let payload ← readPayload (v2 &&& 0x80 ≠ 0) len
    match opOfCode (v1 &&& 0x0f).toNat with
    | some op => return (v1 &&& 0x80 ≠ 0, op, payload)
    | none => throw .unknownOp

/-- SRC: websocket.lua:220-246 -/
def readFrame (server : Bool) : WsM (Bool × WsOp × Bytes) := do
  let s ← read 2
  readAfter server (s.getD 0 0) (s.getD 1 0)

/-! ## Messages -/

/-- The loop that reads frames, with what it does with each; the loop ends where that gives
nothing.  A frame has two bytes at least, so the turns are fewer than the bytes. -/
def frameLoop {ρ : Type} (server : Bool) (body : ρ → Bool → WsOp → Bytes → WsM (Option ρ)) :
    ℕ → ρ → WsM Unit
  | 0, _ => pure ()
  | turns + 1, r => do
    let (fin, op, payload) ← readFrame server
    match ← body r fin op payload with
    | some r => frameLoop server body turns r
    | none => pure ()

/-- `recv_count`, `recv_buf` and `first_op` of `resolve_accept`. -/
structure Receiving where
  count : ℕ
  buf : List Bytes
  firstOp : Option WsOp

/-- One turn of the loop of `resolve_accept`.
SRC: websocket.lua:262-300 -/
def acceptFrame (r : Receiving) (fin : Bool) (op : WsOp) (payload : Bytes) :
    WsM (Option Receiving) :=
  match op with
  | .close => do
    writeFrame .close [] none
    handOn (.close (readClose payload).1 (readClose payload).2)
    return none
  | .ping => do
    writeFrame .pong payload none
    handOn .ping
    return some r
  | .pong => do
    handOn .pong
    return some r
  | op =>
    if fin ∧ r.buf.length = 0 then do
      handOn (.message payload op)
      return some r
    else
      let buf := r.buf ++ [payload]
      let count := r.count + payload.length
      if count > maxFrameSize then throw .payloadTooLarge
      else
        let firstOp := r.firstOp.getD op
        if fin then do
          handOn (.message buf.flatten firstOp)
          return some ⟨0, [], none⟩
        else return some ⟨count, buf, some firstOp⟩

/-- The loop of `resolve_accept`. -/
def resolveAccept : WsM Unit := do
  let s ← get
  frameLoop true acceptFrame (s.pieces.flatten.length + 1) ⟨0, [], none⟩

/-- One turn of the loop of `websocket.read`, with `recv_buf`, which is `nil` in the next call
after one that returns.
SRC: websocket.lua:456-479 -/
def readTurn (recvBuf : Option (List Bytes)) (fin : Bool) (op : WsOp)
    (payload : Bytes) : WsM (Option (Option (List Bytes))) :=
  match op with
  | .close => do
    handOn (.readClose payload)
    return none
  | .ping => do
    writeFrame .pong payload none
    return some recvBuf
  | .pong => return some recvBuf
  | _ =>
    if fin ∧ recvBuf = none then do
      handOn (.read payload)
      return some none
    else
      let buf := recvBuf.getD [] ++ [payload]
      if fin then do
        handOn (.read buf.flatten)
        return some none
      else return some (some buf)

/-- `websocket.read`, called again whenever it has returned a message. -/
def readCalls : WsM Unit := do
  let s ← get
  frameLoop false readTurn (s.pieces.flatten.length + 1) none

end WebSocket

end Skynet.Model
