import Skynet.Model.LuaSeri

/-!
# Cluster requests and responses

`lualib-src/lua-cluster.c`: the frames of a request or a response between two nodes, a
large one in several parts; `service/clusteragent.lua` puts the parts of the requests
together again.  A frame is a big-endian word with the length of the package, and the
package.

Strings and messages are lists of bytes; `msg, sz` is one of them.  Forwarding a request
once it is complete is not modelled.
-/

namespace Skynet.Model

open Library

abbrev multiPart : ℕ := 0x8000

/-! ## Frames -/

/-- The errors of `lua-cluster.c`; `assertion` is a failed `assert`. -/
inductive ClusterError
  | invalidRequestMessage
  | invalidRequestSession (session : ℤ)
  | nameIsNotString (typename : String)
  | nameIsTooLong (name : Bytes)
  | invalidMessage (size : ℕ)
  | invalidMultiSize (size : ℕ)
  | invalidMultiPart
  | emptyPackage
  | invalidType (type : ℤ)
  | assertion
  deriving DecidableEq, Repr

/-- The message of an error, up to the name that `nameIsTooLong` ends with.
SRC: lua-cluster.c:115-117, 175-181, 256-392 -/
def ClusterError.text : ClusterError → String
  | .invalidRequestMessage => "Invalid request message"
  | .invalidRequestSession session => s!"Invalid request session {session}"
  | .nameIsNotString typename => s!"name is not a string, it's a {typename}"
  | .nameIsTooLong _ => "name is too long "
  | .invalidMessage size => s!"Invalid cluster message (size={size})"
  | .invalidMultiSize size => s!"Invalid cluster message size {size} (multi req must be 13)"
  | .invalidMultiPart => "Invalid cluster multi part message"
  | .emptyPackage => "Invalid req package. size == 0"
  | .invalidType type => s!"Invalid req package type {type}"
  | .assertion => "sz < 0x10000"

def fillUint32 (n : ℕ) : Bytes := leBytes 4 n

/-- `fill_header`: the size in two bytes, the high one first. -/
def fillHeader (sz : ℕ) : Except ClusterError Bytes :=
  if sz < 0x10000 then .ok [UInt8.ofNat (sz >>> 8), UInt8.ofNat sz] else .error .assertion

/-- `unpack_uint32` at an offset. -/
def unpackUint32 (buf : Bytes) (offset : ℕ) : ℕ := leNat ((buf.drop offset).take 4)

/-- What the reader of the connection hands on of the bytes it has: the size in two
bytes, then that many bytes; with them the bytes after.
SRC: lua-socket.c (lheader), clustersender.lua:55-59 -/
def readPackage : Bytes → Option (Bytes × Bytes)
  | high :: low :: rest =>
    let sz := high.toNat <<< 8 ||| low.toNat
    if sz ≤ rest.length then some (rest.take sz, rest.drop sz) else none
  | _ => none

/-! ## Packing requests -/

/-- The address of a request in Lua: a number, a name, or a value of another type. -/
inductive ClusterAddr
  | number (n : ℤ)
  | name (s : Bytes)
  | other (typename : String)
  deriving DecidableEq, Repr

/-- `packreq_number`: the frame, and the number of parts that follow it.
SRC: lua-cluster.c:83-106 -/
def packreqNumber (addr session : ℤ) (msg : Bytes) (isPush : Bool) :
    Except ClusterError (Bytes × ℕ) := do
  let addr := (addr % 2 ^ 32).toNat
  let sz := msg.length
  if sz < multiPart then
    let header ← fillHeader (sz + 9)
    let session := if isPush then 0 else session.toNat
    return (header ++ [0] ++ fillUint32 addr ++ fillUint32 session ++ msg, 0)
  else
    let part := (sz - 1) / multiPart + 1
    let header ← fillHeader 13
    return (header ++ [if isPush then 0x41 else 1] ++ fillUint32 addr ++
      fillUint32 session.toNat ++ fillUint32 sz, part)

/-- `packreq_string`; the name is not empty and its length fits a byte.
SRC: lua-cluster.c:108-144 -/
def packreqString (addr : ClusterAddr) (session : ℤ) (msg : Bytes) (isPush : Bool) :
    Except ClusterError (Bytes × ℕ) := do
  let name ← match addr with
    | .name s => if s.length < 1 ∨ s.length > 255 then .error (.nameIsTooLong s) else .ok s
    -- `lua_tolstring` turns a number into its digits, but numbers do not come here
    | .number _ => .error (.nameIsNotString "number")
    | .other typename => .error (.nameIsNotString typename)
  let namelen := name.length
  let sz := msg.length
  if sz < multiPart then
    let header ← fillHeader (sz + 6 + namelen)
    let session := if isPush then 0 else session.toNat
    return (header ++ [0x80, UInt8.ofNat namelen] ++ name ++ fillUint32 session ++ msg, 0)
  else
    let part := (sz - 1) / multiPart + 1
    let header ← fillHeader (10 + namelen)
    return (header ++ [if isPush then 0xc1 else 0x81, UInt8.ofNat namelen] ++ name ++
      fillUint32 session.toNat ++ fillUint32 sz, part)

/-- The rounds of the loop of `packreq_multi`: as many frames as there are parts, of the
bytes from `ptr` on. -/
def packreqMultiLoop (session : ℤ) : ℕ → Bytes → Except ClusterError (List Bytes)
  | 0, _ => return []
  | part + 1, ptr => do
    let sz := ptr.length
    let (s, type) := if sz > multiPart then (multiPart, 2) else (sz, 3)
    let header ← fillHeader (s + 5)
    let frame := header ++ [type] ++ fillUint32 session.toNat ++ ptr.take s
    let frames ← packreqMultiLoop session part (ptr.drop s)
    return frame :: frames

/-- `packreq_multi`.  SRC: lua-cluster.c:146-169 -/
def packreqMulti (session : ℤ) (msg : Bytes) : Except ClusterError (List Bytes) :=
  packreqMultiLoop session ((msg.length - 1) / multiPart + 1) msg

/-- `packrequest`: the request, the next session and, of a large request, the padding.
The message is none where `lua_touserdata` gives `NULL`.
SRC: lua-cluster.c:171-204 -/
def packrequest (addr : ClusterAddr) (session : ℤ) (msg : Option Bytes) (isPush : Bool) :
    Except ClusterError (Bytes × ℤ × Option (List Bytes)) := do
  let msg ← match msg with
    | none => .error .invalidRequestMessage
    | some msg => .ok (msg.take (msg.length % 2 ^ 32))
  let session := toInt32 session
  if session ≤ 0 then
    .error (.invalidRequestSession session)
  else
    let (request, multipak) ← match addr with
      | .number n => packreqNumber n session msg isPush
      | _ => packreqString addr session msg isPush
    let newSession := if session + 1 > 2 ^ 31 - 1 then 1 else session + 1
    if multipak ≠ 0 then
      let padding ← packreqMulti session msg
      return (request, newSession, some padding)
    else
      return (request, newSession, none)

/-! ## Unpacking requests -/

/-- The third and the fourth result of `lunpackrequest`: nil and a size, or the bytes
of a buffer. -/
inductive ClusterMsg
  | size (sz : ℕ)
  | buffer (bytes : Bytes)
  deriving DecidableEq, Repr

/-- The results of `lunpackrequest`: the tag of a trace, with no session after it, or
the address (none for false), session, message, padding and is_push (false for nil). -/
inductive Unpacked
  | trace (tag : Bytes)
  | package (addr : Option ClusterAddr) (session : ℕ) (msg : ClusterMsg)
      (padding isPush : Bool)
  deriving DecidableEq, Repr

/-- `unpackreq_number`.  SRC: lua-cluster.c:255-273 -/
def unpackreqNumber (buf : Bytes) : Except ClusterError Unpacked :=
  let sz := buf.length
  if sz < 9 then .error (.invalidMessage sz)
  else
    let address := unpackUint32 buf 1
    let session := unpackUint32 buf 5
    .ok (.package (some (.number address)) session (.buffer (buf.drop 9)) false (session = 0))

/-- `unpackmreq_number`.  SRC: lua-cluster.c:275-291 -/
def unpackmreqNumber (buf : Bytes) (isPush : Bool) : Except ClusterError Unpacked :=
  let sz := buf.length
  if sz ≠ 13 then .error (.invalidMultiSize sz)
  else
    let address := unpackUint32 buf 1
    let session := unpackUint32 buf 5
    let size := unpackUint32 buf 9
    .ok (.package (some (.number address)) session (.size size) true isPush)

/-- `unpackmreq_part`: no address.  SRC: lua-cluster.c:293-306 -/
def unpackmreqPart (buf : Bytes) : Except ClusterError Unpacked :=
  if buf.length < 5 then .error .invalidMultiPart
  else
    let padding := buf.head? = some 2
    let session := unpackUint32 buf 1
    .ok (.package none session (.buffer (buf.drop 5)) padding false)

def unpacktrace (buf : Bytes) : Except ClusterError Unpacked := .ok (.trace (buf.drop 1))

/-- `unpackreq_string`.  SRC: lua-cluster.c:314-334 -/
def unpackreqString (buf : Bytes) : Except ClusterError Unpacked :=
  let sz := buf.length
  if sz < 2 then .error (.invalidMessage sz)
  else
    let namesz := (buf.getD 1 0).toNat
    if sz < namesz + 6 then .error (.invalidMessage sz)
    else
      let name := (buf.drop 2).take namesz
      let session := unpackUint32 buf (namesz + 2)
      .ok (.package (some (.name name)) session (.buffer (buf.drop (2 + namesz + 4))) false
        (session = 0))

/-- `unpackmreq_string`.  SRC: lua-cluster.c:336-355 -/
def unpackmreqString (buf : Bytes) (isPush : Bool) : Except ClusterError Unpacked :=
  let sz := buf.length
  if sz < 2 then .error (.invalidMessage sz)
  else
    let namesz := (buf.getD 1 0).toNat
    if sz < namesz + 10 then .error (.invalidMessage sz)
    else
      let name := (buf.drop 2).take namesz
      let session := unpackUint32 buf (namesz + 2)
      let size := unpackUint32 buf (namesz + 6)
      .ok (.package (some (.name name)) session (.size size) true isPush)

/-- `lunpackrequest`.  SRC: lua-cluster.c:357-392 -/
def lunpackrequest (msg : Bytes) : Except ClusterError Unpacked :=
  match msg with
  | [] => .error .emptyPackage
  | type :: _ =>
    match type.toNat with
    | 0 => unpackreqNumber msg
    | 1 => unpackmreqNumber msg false
    | 0x41 => unpackmreqNumber msg true
    | 2 => unpackmreqPart msg
    | 3 => unpackmreqPart msg
    | 4 => unpacktrace msg
    | 0x80 => unpackreqString msg
    | 0x81 => unpackmreqString msg false
    | 0xc1 => unpackmreqString msg true
    -- `msg[0]` is a signed `char`
    | t => .error (.invalidType (if t < 128 then t else t - 256))

/-! ## Putting parts together -/

/-- An entry of the array of a large message: a size, or the bytes of a part. -/
inductive LargePart
  | number (n : ℕ)
  | string (s : Bytes)
  deriving DecidableEq, Repr

/-- `lappend`.  SRC: lua-cluster.c:539-556 -/
def lappend (parts : List LargePart) : ClusterMsg → List LargePart
  | .size sz => parts ++ [.number sz]
  | .buffer bytes => parts ++ [.string bytes]

/-- What `lconcat` gives: nothing, a buffer, or what a negative size leads to. -/
inductive Concatenated
  | nothing
  | buffer (bytes : Bytes)
  | negativeSize
  deriving DecidableEq, Repr

/-- The loop of `lconcat`, with what is in the buffer; none where a part does not fit. -/
def lconcatLoop (sz : ℕ) : Bytes → List LargePart → Option Bytes
  | buff, .string s :: rest =>
    if s.length + buff.length > sz then none else lconcatLoop sz (buff ++ s) rest
  | buff, _ => some buff

/-- `lconcat`.  SRC: lua-cluster.c:558-589 -/
def lconcat : List LargePart → Concatenated
  | .number n :: rest =>
    let sz := toInt32 n
    if sz < 0 then .negativeSize
    else
      match lconcatLoop sz.toNat [] rest with
      | some buff => if buff.length ≠ sz.toNat then .nothing else .buffer buff
      | none => .nothing
  | _ => .nothing

/-! ## The agent of a connection -/

/-- An entry of `large_request`. -/
structure LargeRequest where
  addr : Option ClusterAddr
  isPush : Bool
  tracetag : Option Bytes
  parts : List LargePart
  deriving DecidableEq, Repr

/-- The locals of `clusteragent.lua` that `dispatch_request` uses. -/
structure ClusterAgent where
  largeRequest : ℕ → Option LargeRequest
  tracetag : Option Bytes

/-- What a message leads to: a request that is complete and is now forwarded, the answer
"Invalid large req", an error, or what a negative size leads to. -/
inductive Arrival
  | request (addr : Option ClusterAddr) (session : ℕ) (msg : Bytes) (isPush : Bool)
  | invalidLargeReq (session : ℕ)
  | error (e : ClusterError)
  | malformed
  | negativeSize
  deriving DecidableEq, Repr

/-- `dispatch_request`, up to the request that is complete.
SRC: clusteragent.lua:47-76 -/
def ClusterAgent.dispatchRequest (a : ClusterAgent) : Unpacked → ClusterAgent × List Arrival
  | .trace tag => ({ a with tracetag := some tag }, [])
  | .package addr session msg padding isPush =>
    if padding then
      let req := (a.largeRequest session).getD ⟨addr, isPush, a.tracetag, []⟩
      let req := { req with parts := lappend req.parts msg }
      ({ a with
          tracetag := none
          largeRequest := Function.update a.largeRequest session (some req) }, [])
    else
      match a.largeRequest session with
      | some req =>
        let a := { a with
          tracetag := req.tracetag
          largeRequest := Function.update a.largeRequest session none }
        match lconcat (lappend req.parts msg) with
        | .buffer bytes => (a, [.request req.addr session bytes req.isPush])
        | .nothing => ({ a with tracetag := none }, [.invalidLargeReq session])
        | .negativeSize => (a, [.negativeSize])
      | none =>
        match msg with
        | .buffer bytes => (a, [.request addr session bytes isPush])
        | .size _ => ({ a with tracetag := none }, [.invalidLargeReq session])

/-- A frame comes in: its package is unpacked and dispatched.  An error leaves the agent
as it is. -/
def ClusterAgent.receive (a : ClusterAgent) (frame : Bytes) : ClusterAgent × List Arrival :=
  match readPackage frame with
  | some (package, []) =>
    match lunpackrequest package with
    | .ok unpacked => a.dispatchRequest unpacked
    | .error e => (a, [.error e])
  | _ => (a, [.malformed])

/-! ## Responses -/

/-- What `lpackresponse` returns: a string, or a table of strings. -/
inductive PackedResponse
  | string (frame : Bytes)
  | table (frames : List Bytes)
  deriving DecidableEq, Repr

/-- The rounds of the loop of `lpackresponse`: as many frames as there are parts, of the
bytes from `ptr` on. -/
def lpackresponseLoop (session : ℕ) : ℕ → Bytes → Except ClusterError (List Bytes)
  | 0, _ => return []
  | part + 1, ptr => do
    let sz := ptr.length
    let (s, type) := if sz > multiPart then (multiPart, 3) else (sz, 4)
    let header ← fillHeader (s + 5)
    let frame := header ++ fillUint32 session ++ [type] ++ ptr.take s
    let frames ← lpackresponseLoop session part (ptr.drop s)
    return frame :: frames

/-- `lpackresponse`; an error text is cut if it is too long.
SRC: lua-cluster.c:418-485 -/
def lpackresponse (session : ℤ) (ok : Bool) (msg : Bytes) : Except ClusterError PackedResponse := do
  let session := (session % 2 ^ 32).toNat
  if ok ∧ msg.length > multiPart then
    let sz := msg.length
    let part := (sz - 1) / multiPart + 1
    let header ← fillHeader 9
    let first := header ++ fillUint32 session ++ [2] ++ fillUint32 sz
    let parts ← lpackresponseLoop session part msg
    return .table (first :: parts)
  else
    let sz := if msg.length > multiPart then multiPart else msg.length
    let header ← fillHeader (sz + 5)
    return .string (header ++ fillUint32 session ++ [if ok then 1 else 0] ++ msg.take sz)

/-- What `dispatch_request` writes of a response, in its order.
SRC: clusteragent.lua:111-124 -/
def PackedResponse.written : PackedResponse → List Bytes
  | .string frame => [frame]
  | .table frames => frames

/-- The results of `lunpackresponse`: the session, whether it is ok, the data, and
whether more is to come. -/
structure UnpackedResponse where
  session : ℕ
  ok : Bool
  data : LargePart
  padding : Bool
  deriving DecidableEq, Repr

/-- `lunpackresponse`; none where it returns nothing.  SRC: lua-cluster.c:494-530 -/
def lunpackresponse (buf : Bytes) : Option UnpackedResponse :=
  let sz := buf.length
  if sz < 5 then none
  else
    let session := unpackUint32 buf 0
    match (buf.getD 4 0).toNat with
    | 0 => some ⟨session, false, .string (buf.drop 5), false⟩
    | 1 => some ⟨session, true, .string (buf.drop 5), false⟩
    | 4 => some ⟨session, true, .string (buf.drop 5), false⟩
    | 2 =>
      if sz ≠ 9 then none
      else some ⟨session, true, .number (unpackUint32 buf 5), true⟩
    | 3 => some ⟨session, true, .string (buf.drop 5), true⟩
    | _ => none

end Skynet.Model
