import Skynet.Model.LuaSeri

/-!
# Replies of the database

`lualib-src/lua-mongo.c`: `driver.length` and `driver.reply`, as `dispatch_reply` of
`lualib/skynet/db/mongo.lua` uses them.  A pointer into a reply is its offset.  A result table
is a sequence; an entry that an earlier reply left there is `none`.

`lualib/skynet/db/mongo.lua`: `auth_method:auth_scram_sha1`.  What it calls of `crypt` and `md5`
is a parameter, and so is the server, which answers each command with all the commands so far
before it.  Where Lua raises an error the result is `none`.
-/

namespace Skynet.Model

open Library

inductive ReplyError where
  | invalidDocument
deriving DecidableEq, Repr

/-- What `driver.reply` returns: `false` for a short reply, `false` with the id and the error
document, `false` with the id, or `true` with the id, the first document, the cursor and where
the documents start. -/
inductive MongoReply where
  | short
  | failure (id : ℤ) (document : ℕ)
  | mismatch (id : ℤ)
  | success (id : ℤ) (document : Option ℕ) (cursorId : Option Bytes) (startFrom : ℤ)
deriving DecidableEq, Repr

def MongoReply.document : MongoReply → Option ℕ
  | short | mismatch _ => none
  | failure _ document => some document
  | success _ document _ _ => document

/-- The `int32_t` at an offset: a field of the header, or `get_length`. -/
def int32At (data : Bytes) (off : ℕ) : ℤ := toInt32 (leNat ((data.drop off).take 4))

/-- `reply_length`, of the four bytes before a reply.
SRC: lua-mongo.c:527-535 -/
def replyLength (header : Bytes) : ℤ := toInt32 (int32At header 0 - 4)

def replyHeader : ℕ := 32

/-- `flags & REPLY_QUERYFAILURE`. -/
def queryFailure (data : Bytes) : Bool := int32At data 12 / 2 % 2 = 1

def replyNumber (data : Bytes) : ℤ := int32At data 28

/-- `lua_rawseti` at a place of the sequence, or at the next. -/
def setDocument (t : List (Option ℕ)) (i doc : ℕ) : List (Option ℕ) :=
  if i ≤ t.length then t.set (i - 1) (some doc) else t ++ [some doc]

/-- The loop of `op_reply` that fills the table, with `doc`, `sz` and `i`.
SRC: lua-mongo.c:245-258 -/
def replyDocs (data : Bytes) (doc : ℕ) (sz : ℤ) (i : ℕ) (t : List (Option ℕ)) :
    Except ReplyError (ℕ × ℤ) × List (Option ℕ) :=
  if 4 < sz then
    if int32At data doc ≤ 0 then (.error .invalidDocument, setDocument t i doc)
    else
      replyDocs data (doc + (int32At data doc).toNat) (sz - int32At data doc) (i + 1)
        (setDocument t i doc)
  else (.ok (i, sz), t)
termination_by sz.toNat

/-- What is returned when the documents were looked at, and `sz` bytes are left. -/
def replySuccess (data : Bytes) (sz : ℤ) : Except ReplyError MongoReply :=
  if sz ≠ 0 then .error .invalidDocument
  else
    let cursorId := (data.drop 16).take 8
    .ok (.success (int32At data 4) (if replyNumber data = 0 then none else some replyHeader)
      (if leNat cursorId = 0 then none else some cursorId) (int32At data 24))

/-- The branch of `op_reply` with a result table, for `sz` bytes.  Behind the entries that were
filled the table is cleared. -/
def fillTable (data : Bytes) (sz : ℤ) (t : List (Option ℕ)) :
    Except ReplyError MongoReply × List (Option ℕ) :=
  match replyDocs data replyHeader sz 1 t with
  | (.error e, t) => (.error e, t)
  | (.ok (i, sz), t) =>
    if (i : ℤ) ≠ toInt32 (replyNumber data + 1) then (.ok (.mismatch (int32At data 4)), t)
    else (replySuccess data sz, t.take (i - 1))

/-- `op_reply`, and the result table.
SRC: lua-mongo.c:214-291 -/
def opReply (data : Bytes) (result : Option (List (Option ℕ))) :
    Except ReplyError MongoReply × Option (List (Option ℕ)) :=
  if data.length < replyHeader then (.ok .short, result)
  else if queryFailure data then (.ok (.failure (int32At data 4) replyHeader), result)
  else
    let sz := toInt32 (data.length - replyHeader)
    match result with
    | some t => ((fillTable data sz t).1, some (fillTable data sz t).2)
    | none =>
      (replySuccess data (if 4 ≤ sz then toInt32 (sz - int32At data replyHeader) else sz), none)

/-- The functions of `crypt` and `md5`; `tonumber` gives the last number up to which a loop
counts. -/
structure MongoCrypt where
  base64encode : Bytes → Bytes
  base64decode : Bytes → Option Bytes
  hmacSha1 : Bytes → Bytes → Bytes
  sha1 : Bytes → Bytes
  xorStr : Bytes → Bytes → Bytes
  sumhexa : Bytes → Bytes
  tonumber : Bytes → Option ℤ

/-- A command of the conversation, `ι` being the type of its id. -/
inductive SaslCommand (ι : Type) where
  | start (payload : Bytes)
  | continue (conversationId : Option ι) (payload : Bytes)

/-- What `runCommand` returns: `ok` tells that its field is 1. -/
structure SaslReply (ι : Type) where
  ok : Bool
  conversationId : Option ι
  payload : Option Bytes
  done : Bool

structure ServerFirst where
  parsedS : Bytes
  rnonce : Bytes
  salt : Bytes
  iterations : ℤ

namespace MongoAuth

variable {ι : Type}

def ascii (s : String) : Bytes := s.toList.map fun c => .ofNat c.toNat

/-- `%w` of a Lua pattern. -/
def isAlnum (c : UInt8) : Bool :=
  (0x30 ≤ c && c ≤ 0x39) || (0x41 ≤ c && c ≤ 0x5a) || (0x61 ≤ c && c ≤ 0x7a)

/-- `string.gmatch` with `"(%w+)=([^,]*)"`. -/
def gmatchPairs : Bytes → List (Bytes × Bytes)
  | [] => []
  | c :: s =>
    let key := (c :: s).takeWhile isAlnum
    match key, (c :: s).drop key.length with
    -- 0x3d is '=', and 0x2c is ','
    | _ :: _, 0x3d :: rest =>
      let value := rest.takeWhile (· ≠ 0x2c)
      (key, value) :: gmatchPairs (s.drop (key.length + value.length))
    | _, _ => gmatchPairs s
termination_by s => s.length
decreasing_by
  all_goals
    simp only [List.length_drop, List.length_cons]
    omega

/-- `parsed_t[k]`: of two values of a key the later one is left. -/
def lastPair (parsedT : List (Bytes × Bytes)) (k : String) : Option Bytes :=
  (parsedT.reverse.find? fun p => p.1 = ascii k).map Prod.snd

/-- `not v`. -/
def luaNot : Scalar → Scalar
  | .nil | .boolean false => .boolean true
  | _ => .boolean false

/-- `string.gsub` of `'='` by `'=3D'`, and of `','` by `'=2C'` in the result. -/
def escapeUser (username : Bytes) : Bytes := username.flatMap fun c =>
    if c = 0x3d then ascii "=3D" else if c = 0x2c then ascii "=2C" else [c]

variable (c : MongoCrypt)

/-- SRC: mongo.lua:206-215 -/
def saltPassword (password salt : Bytes) (iter : ℤ) : Bytes :=
  let inter := c.hmacSha1 password (salt ++ [0, 0, 0, 1])
  let turn (p : Bytes × Bytes) :=
    let inter := c.hmacSha1 password p.1
    (inter, c.xorStr p.2 inter)
  (turn^[(iter - 1).toNat] (inter, inter)).2

def firstBare (username nonce : Bytes) : Bytes :=
  ascii "n=" ++ escapeUser username ++ ascii ",r=" ++ nonce

/-- SRC: mongo.lua:227-236 -/
def readServerFirst (r : SaslReply ι) : Option ServerFirst := do
  let parsedS ← c.base64decode (← r.payload)
  let parsedT := gmatchPairs parsedS
  let rnonce ← lastPair parsedT "r"
  let salt ← c.base64decode (← lastPair parsedT "s")
  let iterations ← c.tonumber (← lastPair parsedT "i")
  return ⟨parsedS, rnonce, salt, iterations⟩

def withoutProof (f : ServerFirst) : Bytes := ascii "c=biws,r=" ++ f.rnonce

def authMsg (username nonce : Bytes) (f : ServerFirst) : Bytes :=
  firstBare username nonce ++ ascii "," ++ f.parsedS ++ ascii "," ++ withoutProof f

def saltedPass (username password : Bytes) (f : ServerFirst) : Bytes :=
  saltPassword c (c.sumhexa (username ++ ascii ":mongo:" ++ password)) f.salt f.iterations

/-- SRC: mongo.lua:242-252 -/
def clientFinal (username password nonce : Bytes) (f : ServerFirst) : Bytes :=
  let clientKey := c.hmacSha1 (saltedPass c username password f) (ascii "Client Key")
  let storedKey := c.sha1 clientKey
  let clientSig := c.hmacSha1 storedKey (authMsg username nonce f)
  let clientProof := ascii "p=" ++ c.base64encode (c.xorStr clientKey clientSig)
  c.base64encode (withoutProof f ++ ascii "," ++ clientProof)

/-- SRC: mongo.lua:253-254 -/
def serverSig (username password nonce : Bytes) (f : ServerFirst) : Bytes :=
  let serverKey := c.hmacSha1 (saltedPass c username password f) (ascii "Server Key")
  c.base64encode (c.hmacSha1 serverKey (authMsg username nonce f))

/-- `parsed_t['v']` of the second reply.  SRC: mongo.lua:260-264 -/
def readSignature (r : SaslReply ι) : Option (Option Bytes) := do
  let parsedS ← c.base64decode (← r.payload)
  return lastPair (gmatchPairs parsedS) "v"

/-- The commands up to the first, the second and the third one. -/
def firstCommands (username nonce : Bytes) : List (SaslCommand ι) :=
  [.start (c.base64encode (ascii "n,," ++ firstBare username nonce))]

def secondCommands (username password nonce : Bytes) (r : SaslReply ι) (f : ServerFirst) :
    List (SaslCommand ι) :=
  firstCommands c username nonce ++
    [.continue r.conversationId (clientFinal c username password nonce f)]

def thirdCommands (username password nonce : Bytes) (r : SaslReply ι) (f : ServerFirst) :
    List (SaslCommand ι) :=
  secondCommands c username password nonce r f ++ [.continue r.conversationId []]

/-- `auth_method:auth_scram_sha1`.  SRC: mongo.lua:217-281 -/
def authScramSha1 (randomkey username password : Bytes)
    (server : List (SaslCommand ι) → Option (SaslReply ι)) : Option Bool := do
  let nonce := c.base64encode randomkey
  let r ← server (firstCommands c username nonce)
  if !r.ok then return false
  let f ← readServerFirst c r
  -- `not` is applied first
  if luaNot (.string (f.rnonce.take 12)) = .string nonce then return false
  let r₂ ← server (secondCommands c username password nonce r f)
  if !r₂.ok then return false
  if (← readSignature c r₂) ≠ some (serverSig c username password nonce f) then return false
  if r₂.done then return true
  let r₃ ← server (thirdCommands c username password nonce r f)
  return r₃.ok && r₃.done

end MongoAuth

end Skynet.Model
