import Mathlib.Algebra.Group.Int.Defs
import Mathlib.Algebra.Group.Nat.Defs
import Mathlib.Data.Rat.Init
import Skynet.Library.Frames
import Skynet.Library.LittleEndian
import Skynet.Library.LuaTable
import Skynet.Library.Occurrence

/-!
# Reading HTTP

`lualib/http/internal.lua`, where it reads: header sections, chunked bodies, and the response
to a request as a whole; and the requests of `lualib/http/httpd.lua`; over the read functions of
`lualib/http/sockethelper.lua`.

The bytes of a connection come in pieces, one for each `read()`; at the end of the connection
a read raises an error.  `tonumber` of a decimal is a parameter; numbers of Lua are rational,
an infinite one being any that is as far out.  What a request writes is left out.
-/

namespace Skynet.Model

open Library

/-! ## Data -/

/-- The bytes that come, piece by piece. -/
abbrev Pieces := List Bytes

/-- What a function stops with: it returns nothing, or raises an error, that of the socket, one
of its own or one of Lua. -/
inductive HttpStop
  | nothing
  | socketError
  | recvHeaderFailed
  | invalidResponseHeader
  | unsupportedEncoding
  | invalidResponseBody
  | luaError
  deriving DecidableEq

/-- The value of a field: a string, or a table of the strings if the field came more than
once. -/
inductive HeaderValue
  | one (value : Bytes)
  | many (values : List Bytes)
  deriving DecidableEq

abbrev HttpHeader := Table Bytes HeaderValue

/-- `tonumber` of a string. -/
structure HttpConf where
  tonumber : Bytes → Option ℚ

namespace Http

def limit : ℕ := 8192

def crlf : Bytes := [13, 10]

def crlf2 : Bytes := [13, 10, 13, 10]

/-! ## Lua -/

/-- `%s`, which is also what `tonumber` skips. -/
def isSpace (b : UInt8) : Bool := b = 32 ∨ 9 ≤ b ∧ b ≤ 13

def isDigit (b : UInt8) : Bool := 48 ≤ b ∧ b ≤ 57

def digitValue (b : UInt8) : Option ℕ :=
  if isDigit b then some (b.toNat - 48)
  else if 65 ≤ b ∧ b ≤ 90 then some (b.toNat - 65 + 10)
  else if 97 ≤ b ∧ b ≤ 122 then some (b.toNat - 97 + 10)
  else none

def wrap (n : ℤ) : ℤ := n.bmod (2 ^ 64)

/-- `tonumber(s, 16)`.
SRC: lbaselib.c:60-78 -/
def tonumber16 (s : Bytes) : Option ℤ :=
  let s := s.dropWhile isSpace
  let neg := s.head? = some 45
  let s := if neg ∨ s.head? = some 43 then s.drop 1 else s
  let digits := (s.takeWhile fun b => (digitValue b).isSome).filterMap digitValue
  let tail := (s.dropWhile fun b => (digitValue b).isSome).dropWhile isSpace
  if digits = [] ∨ (digits.any fun d => 16 ≤ d) ∨ tail ≠ [] then none
  else
    let n : ℕ := digits.foldl (fun n d => n * 16 + d) 0
    some (wrap (if neg then -n else n))

/-- `s:sub(i, j)`. -/
def luaSub (s : Bytes) (i j : ℤ) : Bytes :=
  let len : ℤ := s.length
  let start := if 0 < i then i else if i = 0 ∨ i < -len then 1 else len + i + 1
  let stop := if len < j then len else if 0 ≤ j then j else if j < -len then 0 else len + j + 1
  (s.drop (start - 1).toNat).take (stop + 1 - start).toNat

/-- `s:find(sep, start + 1, true)`, counted from 0. -/
def findFrom (sep : Bytes) (start : ℕ) (s : Bytes) : Option ℕ :=
  (firstAt sep (s.drop start)).map (· + start)

/-! ## Reads -/

/-- `read(n)`.
SRC: sockethelper.lua:49-57 -/
def readExact (n : ℕ) (pieces : Pieces) : Except HttpStop (Bytes × Pieces) :=
  match takeExact n pieces with
  | some r => .ok r
  | none => .error .socketError

/-- SRC: internal.lua:8-21 -/
def chunksize (body : Bytes) (pieces : Pieces) : Except HttpStop (ℤ × Bytes × Pieces) :=
  match firstAt crlf body with
  | some f =>
    match tonumber16 (body.take f) with
    | some sz => .ok (sz, body.drop (f + 2), pieces)
    | none => .error .nothing
  | none =>
    if body.length > 128 then .error .nothing
    else
      match pieces with
      | [] => .error .socketError
      | piece :: pieces => chunksize (body ++ piece) pieces

/-- The data of a chunk, and what has been read behind it.
SRC: internal.lua:120-126, 325-335 -/
def takeChunk (sz : ℤ) (body : Bytes) (pieces : Pieces) :
    Except HttpStop (Bytes × Bytes × Pieces) :=
  if (body.length : ℤ) ≥ sz then .ok (luaSub body 1 sz, luaSub body (sz + 1) (-1), pieces)
  else do
    let (bytes, pieces) ← readExact (sz - body.length).toNat pieces
    .ok (body ++ bytes, [], pieces)

/-- SRC: internal.lua:22-35 -/
def readcrln (body : Bytes) (pieces : Pieces) : Except HttpStop (Bytes × Pieces) :=
  if body.length ≥ 2 then
    if body.take 2 = crlf then .ok (body.drop 2, pieces) else .error .nothing
  else do
    let (bytes, pieces) ← readExact (2 - body.length) pieces
    if body ++ bytes = crlf then .ok ([], pieces) else .error .nothing

/-! ## Header sections -/

/-- The lines up to an empty one, by `gmatch("(.-)\r\n")`. -/
def headerLinesOf : ℕ → Bytes → List Bytes
  | 0, _ => []
  | n + 1, s =>
    match firstAt crlf s with
    | none => []
    | some i => if i = 0 then [] else s.take i :: headerLinesOf n (s.drop (i + 2))

def headerLines (header : Bytes) : List Bytes := headerLinesOf header.length header

/-- The loop of `recvheader`.
SRC: internal.lua:48-62 -/
def recvMore (header : Bytes) :
    Pieces → Except HttpStop (List Bytes × Bytes × Pieces)
  | [] => .error .socketError
  | bytes :: pieces =>
    match findFrom crlf2 (header.length - 3) (header ++ bytes) with
    | some e => .ok (headerLines (header ++ bytes), (header ++ bytes).drop (e + 4), pieces)
    | none =>
      if crlf <+: header ++ bytes then .ok ([], (header ++ bytes).drop 2, pieces)
      else if (header ++ bytes).length > limit then .error .nothing
      else recvMore (header ++ bytes) pieces

/-- The lines of a header section, and what is read behind it.
SRC: internal.lua:37-71 -/
def recvheader (header : Bytes) (pieces : Pieces) : Except HttpStop (List Bytes × Bytes × Pieces) :=
  if crlf <+: header then .ok ([], header.drop 2, pieces)
  else
    match firstAt crlf2 header with
    | some e => .ok (headerLines header, header.drop (e + 4), pieces)
    | none => recvMore header pieces

/-- `line:match "^(.-):%s*(.*)"`. -/
def matchField (line : Bytes) : Option (Bytes × Bytes) :=
  match firstAt [58] line with
  | some i => some (line.take i, (line.drop (i + 1)).dropWhile isSpace)
  | none => none

/-- `name:lower()`. -/
def lower (name : Bytes) : Bytes :=
  name.map fun b => if 65 ≤ b ∧ b ≤ 90 then b + 32 else b

/-- A field is entered. -/
def addField (header : HttpHeader) (name value : Bytes) : HttpHeader :=
  match header.get name with
  | none => header.put name (some (.one value))
  | some (.one v) => header.put name (some (.many [v, value]))
  | some (.many vs) => header.put name (some (.many (vs ++ [value])))

/-- The loop of `parseheader`, with the name of the last line: the table, and whether it is
returned.
SRC: internal.lua:73-101 -/
def parseLines : Option Bytes → List Bytes → HttpHeader →
    Except HttpStop (Bool × HttpHeader)
  | _, [], header => .ok (true, header)
  | name, line :: lines, header =>
    if line.head? = some 9 then
      match name with
      | none => .ok (false, header)
      | some n =>
        match header.get n with
        | some (.one v) =>
          parseLines name lines (header.put n (some (.one (v ++ line.drop 1))))
        | _ => .error .luaError
    else
      match matchField line with
      | none => .ok (false, header)
      | some (n, value) => parseLines (some (lower n)) lines (addField header (lower n) value)

def parseheader (lines : List Bytes) (header : HttpHeader) : Except HttpStop (Bool × HttpHeader) :=
  parseLines none lines header

/-- The loop of `recvchunkedbody`, up to the last chunk.  Every turn takes a line, so the turns
are fewer than the bytes.
SRC: internal.lua:107-131 -/
def recvChunks (bodylimit : Option ℤ) :
    ℕ → ℤ → Bytes → Bytes → Pieces → Except HttpStop (Bytes × Bytes × Pieces)
  | 0, _, _, _, _ => .error .nothing
  | turns + 1, size, result, body, pieces => do
    let (sz, body, pieces) ← chunksize body pieces
    if sz = 0 then .ok (result, body, pieces)
    else
      let size := wrap (size + sz)
      if bodylimit.any (· < size) then .error .nothing
      else
        let (data, body, pieces) ← takeChunk sz body pieces
        let (body, pieces) ← readcrln body pieces
        recvChunks bodylimit turns size (result ++ data) body pieces

/-- The body, the header table, whether it is returned, and what has not been read.
SRC: internal.lua:103-142 -/
def recvchunkedbody (bodylimit : Option ℤ) (header : HttpHeader) (body : Bytes)
    (pieces : Pieces) : Except HttpStop (Bytes × Bool × HttpHeader × Pieces) := do
  let (result, body, pieces) ←
    recvChunks bodylimit ((body ++ pieces.flatten).length + 1) 0 [] body pieces
  let (lines, _, pieces) ← recvheader body pieces
  let (returned, header) ← parseheader lines header
  .ok (result, returned, header, pieces)

/-! ## Responses -/

/-- What has not been read, and whether the end of the connection has been noticed by the
time all of it is asked for. -/
structure HttpSource where
  pieces : Pieces
  closed : Bool

/-- `"HTTP/[%d%.]+%s+([%d]+)%s+(.*)$"` at the start of a line. -/
def matchStatusAt (s : Bytes) : Option Bytes :=
  let version := s.drop 5
  let gap := version.dropWhile fun b => isDigit b ∨ b = 46
  let code := gap.dropWhile isSpace
  let rest := code.dropWhile isDigit
  if [72, 84, 84, 80, 47] <+: s ∧ gap.length < version.length ∧ code.length < gap.length ∧
      rest.length < code.length ∧ rest.head?.any isSpace then some (code.takeWhile isDigit)
  else none

/-- The code in a status line, by `match`. -/
def matchStatus : Bytes → Option Bytes
  | [] => none
  | b :: s =>
    match matchStatusAt (b :: s) with
    | some code => some code
    | none => matchStatus s

/-- `internal.request`, behind what it writes: the code, what has been read of the body, and
the header table.
SRC: internal.lua:190-204 -/
def request (conf : HttpConf) (header : HttpHeader) (pieces : Pieces) :
    Except HttpStop (ℚ × Bytes × HttpHeader × Pieces) := do
  let (lines, body, pieces) ←
    match recvheader [] pieces with
    | .error .nothing => .error .recvHeaderFailed
    | r => r
  let code ←
    match (lines.head?.bind matchStatus).bind conf.tonumber with
    | some code => .ok code
    | none => .error .luaError
  let (returned, header) ← parseheader (lines.drop 1) header
  if returned then .ok (code, body, header, pieces) else .error .invalidResponseHeader

/-- `"transfer-encoding"`, `"chunked"`, `"identity"` and `"content-length"`. -/
def transferEncoding : Bytes :=
  [116, 114, 97, 110, 115, 102, 101, 114, 45, 101, 110, 99, 111, 100, 105, 110, 103]

def chunkedMode : Bytes := [99, 104, 117, 110, 107, 101, 100]

def identityMode : Bytes := [105, 100, 101, 110, 116, 105, 116, 121]

def contentLengthName : Bytes :=
  [99, 111, 110, 116, 101, 110, 116, 45, 108, 101, 110, 103, 116, 104]

/-- Whether the body is chunked.
SRC: internal.lua:208-213, 346-351 -/
def isChunked (header : HttpHeader) : Except HttpStop Bool :=
  match header.get transferEncoding with
  | none => .ok false
  | some mode =>
    if mode = .one chunkedMode then .ok true
    else if mode = .one identityMode then .ok false
    else .error .unsupportedEncoding

/-- The length of the body, if there is a field that says it.
SRC: internal.lua:145-148, 359-362 -/
def contentLength (conf : HttpConf) (header : HttpHeader) : Option ℚ :=
  match header.get contentLengthName with
  | some (.one value) => conf.tonumber value
  | _ => none

def hasNoBody (code : ℚ) : Bool := code = 204 ∨ code = 304 ∨ code < 200

def isInteger (n : ℚ) : Bool := n.den = 1 ∧ -2 ^ 63 ≤ n.num ∧ n.num < 2 ^ 63

/-- `body:sub(1, length)`. -/
def subTo (body : Bytes) (length : ℚ) : Except HttpStop Bytes :=
  if isInteger length then .ok (luaSub body 1 length.num) else .error .luaError

/-- `readall`, where an end that is noticed already gives `false` if nothing is left, which
cannot be concatenated.
SRC: socket.lua:341-354 -/
def readall (source : HttpSource) : Except HttpStop Bytes :=
  if source.closed ∧ source.pieces = [] then .error .luaError else .ok source.pieces.flatten

/-- SRC: internal.lua:144-163 -/
def recvbody (conf : HttpConf) (code : ℚ) (header : HttpHeader) (body : Bytes)
    (source : HttpSource) : Except HttpStop Bytes :=
  match contentLength conf header with
  | some length =>
    if (body.length : ℚ) ≥ length then subTo body length
    else if isInteger (length - body.length) then do
      let (padding, _) ← readExact (length - body.length).num.toNat source.pieces
      .ok (body ++ padding)
    else .error .luaError
  | none =>
    if hasNoBody code then .ok []
    else do
      let rest ← readall source
      .ok (body ++ rest)

/-- The body, and the header table, which has the fields of a trailer then.
SRC: internal.lua:207-226 -/
def response (conf : HttpConf) (code : ℚ) (body : Bytes) (header : HttpHeader)
    (source : HttpSource) : Except HttpStop (Bytes × HttpHeader) := do
  if ← isChunked header then
    match recvchunkedbody none header body source.pieces with
    | .ok (body, _, header, _) => .ok (body, header)
    | .error .nothing => .error .invalidResponseBody
    | .error e => .error e
  else
    let body ← recvbody conf code header body source
    .ok (body, header)

/-! ## Requests -/

/-- What `read_request` returns: a request with 200, its header table being absent where a
trailer is malformed, or another code. -/
inductive HttpAnswer
  | request (url method : Bytes) (header : Option HttpHeader) (body : Bytes)
  | status (code : ℕ)

/-- `%a`. -/
def isLetter (b : UInt8) : Bool := 65 ≤ b ∧ b ≤ 90 ∨ 97 ≤ b ∧ b ≤ 122

/-- `"%s+HTTP/([%d%.]+)$"` at the start of a text. -/
def matchVersion (s : Bytes) : Option Bytes :=
  let http := s.dropWhile isSpace
  let version := http.drop 5
  if http.length < s.length ∧ [72, 84, 84, 80, 47] <+: http ∧ version ≠ [] ∧
      version.all fun b => isDigit b ∨ b = 46 then some version
  else none

/-- `"(.-)%s+HTTP/([%d%.]+)$"` behind the start of a url. -/
def matchUrl (url : Bytes) : Bytes → Option (Bytes × Bytes)
  | [] => none
  | b :: s =>
    match matchVersion (b :: s) with
    | some version => some (url, version)
    | none => matchUrl (url ++ [b]) s

/-- `request:match "^(%a+)%s+(.-)%s+HTTP/([%d%.]+)$"`: the url starts behind all blanks, or
else behind fewer. -/
def matchRequest (line : Bytes) : Option (Bytes × Bytes × Bytes) :=
  let method := line.takeWhile isLetter
  let rest := line.dropWhile isLetter
  let blanks := (rest.takeWhile isSpace).length
  if method = [] then none
  else (List.range blanks).reverse.findSome? fun n =>
    (matchUrl [] (rest.drop (n + 1))).map fun (url, version) => (method, url, version)

/-- The number `1.1`, of 53 bits. -/
def httpVersion11 : ℚ := ⟨2476979795053773, 2251799813685248, by decide, by decide +kernel⟩

/-- The body that is not chunked.
SRC: httpd.lua:84-97 -/
def identityBody (conf : HttpConf) (bodylimit : Option ℤ) (header : HttpHeader)
    (body : Bytes) (pieces : Pieces) : Except HttpStop (Option Bytes) :=
  match contentLength conf header with
  | none => .ok (some body)
  | some length =>
    if bodylimit.any fun l : ℤ => (l : ℚ) < length then .ok none
    else if (body.length : ℚ) ≥ length then (subTo body length).map some
    else if isInteger (length - body.length) then do
      let (padding, _) ← readExact (length - body.length).num.toNat pieces
      .ok (some (body ++ padding))
    else .error .luaError

/-- The method, the url and the version.
SRC: httpd.lua:57-60 -/
def requestLine (conf : HttpConf) (lines : List Bytes) : Except HttpStop (Bytes × Bytes × ℚ) :=
  match lines.head?.bind matchRequest with
  | none => .error .luaError
  | some (method, url, version) =>
    match conf.tonumber version with
    | none => .error .luaError
    | some httpver => .ok (method, url, httpver)

/-- The request behind its header section: what is read of it goes on with `body`.
SRC: httpd.lua:57-99 -/
def requestBody (conf : HttpConf) (bodylimit : Option ℤ) (lines : List Bytes)
    (body : Bytes) (pieces : Pieces) : Except HttpStop HttpAnswer := do
  let (method, url, httpver) ← requestLine conf lines
  if httpver < 1 ∨ httpVersion11 < httpver then .ok (.status 505)
  else
    let (returned, header) ← parseheader (lines.drop 1) ∅
    if !returned then .ok (.status 400)
    else
      match isChunked header with
      | .error _ => .ok (.status 501)
      | .ok true =>
        match recvchunkedbody bodylimit header body pieces with
        | .ok (body, returned, header, _) =>
          .ok (.request url method (if returned then some header else none) body)
        | .error .nothing => .ok (.status 413)
        | .error e => .error e
      | .ok false =>
        match ← identityBody conf bodylimit header body pieces with
        | some body => .ok (.request url method (some header) body)
        | none => .ok (.status 413)

/-- `httpd.read_request`, where an error is what `pcall` has caught.
SRC: httpd.lua:51-109 -/
def readRequest (conf : HttpConf) (bodylimit : Option ℤ) (pieces : Pieces) :
    Except HttpStop HttpAnswer :=
  match recvheader [] pieces with
  | .ok (lines, body, pieces) => requestBody conf bodylimit lines body pieces
  | .error .nothing => .ok (.status 413)
  | .error e => .error e

end Http

end Skynet.Model
