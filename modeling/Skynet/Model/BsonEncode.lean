import Mathlib.Data.Nat.Digits.Defs
import Skynet.Model.Bson

/-!
# Encoding of BSON

`lualib-src/lua-bson.c`: `bson.encode` writes a document to a buffer that grows, and patches
the length of each document when it is complete.  A write behind the capacity is where the
model stops, with `outside`; where the capacity has wrapped around to zero, `bson_reserve`
never returns.

Tables have no metatable here, a full userdata has no bytes, and memory does not run out.
-/

namespace Skynet.Model

open Library

/-! ## The buffer -/

/-- The errors that `bson.encode` raises: "Invalid utf8 string", "Invalid object id %s",
"Invalid date", "Invalid timestamp", "Invalid int64", "Invalid subtype %d", "Bson array has a
hole (nil), Use bson.null instead", "Invalid value type : %s", "Bson dictionary's key can't be
number", "Invalid key type : %s", "Too depth while encoding bson", "stack overflow" of
`luaL_checkstack`, and a bad argument. -/
inductive BsonEncodeError where
  | utf8
  | objectid
  | date
  | timestamp
  | int64
  | subtype (subt : ℕ)
  | hole
  | valueType (typename : String)
  | numberKey
  | keyType (typename : String)
  | depth
  | stackOverflow
  | badArgument
deriving DecidableEq, Repr

/-- Where encoding stops without a document: a Lua error, an access outside of the buffer or
of a string, or a `bson_reserve` that does not return.  `userdata` belongs to the model. -/
inductive BsonEncodeStop where
  | lua (e : BsonEncodeError)
  | outside
  | endless
  | userdata
deriving DecidableEq, Repr

/-- `struct bson`: the bytes up to its size, and its capacity. -/
structure BsonBuffer where
  bytes : Bytes
  cap : ℤ
deriving DecidableEq, Repr

abbrev BsonWrite : Type → Type := EStateM BsonEncodeStop BsonBuffer

/-- The loop of `bson_reserve`.  After so many doublings the capacity stays zero. -/
def reserveLoop (need : ℤ) : ℕ → ℤ → Option ℤ
  | 0, _ => none
  | n + 1, cap =>
    if toInt32 (cap * 2) ≤ need then reserveLoop need n (toInt32 (cap * 2))
    else some (toInt32 (cap * 2))

/-- `bson_reserve`; its argument is an `int`.
SRC: lua-bson.c:80-93 -/
def bsonReserve (sz : ℤ) : BsonWrite Unit := do
  let b ← get
  let need := toInt32 (b.bytes.length + toInt32 sz)
  if need ≤ b.cap then return ()
  else
    match reserveLoop need 32 b.cap with
    | none => throw .endless
    | some cap => set { b with cap := cap }

/-- Bytes behind those that are there, and the new size. -/
def bsonPut (bytes : Bytes) : BsonWrite Unit := do
  let b ← get
  if b.bytes.length + bytes.length ≤ b.cap then set { b with bytes := b.bytes ++ bytes }
  else throw .outside

def bsonWriteBytes (bytes : Bytes) : BsonWrite Unit := do
  bsonReserve bytes.length
  bsonPut bytes

def writeByte (v : ℕ) : BsonWrite Unit := bsonWriteBytes [UInt8.ofNat v]

def writeInt32 (v : ℤ) : BsonWrite Unit := bsonWriteBytes (leBytes 4 (v % 2 ^ 32).toNat)

/-- `write_int64`, and `write_double` of the bits of the double. -/
def writeInt64 (v : BitVec 64) : BsonWrite Unit := bsonWriteBytes (leBytes 8 v.toNat)

def writeLength (v : ℤ) (off : ℕ) : BsonWrite Unit := modify fun b => { b with
    bytes := b.bytes.take off ++ leBytes 4 (v % 2 ^ 32).toNat ++ b.bytes.drop (off + 4) }

/-- `reserve_length`: where the length will be.  Its bytes are not written yet. -/
def reserveLength : BsonWrite ℕ := do
  let b ← get
  bsonWriteBytes [0, 0, 0, 0]
  return b.bytes.length

/-! ## Strings -/

/-- The loop of `utf8_copy`, with `count`, `c` and `res`, and the bytes from `s[count]` on up
to the limit. -/
def utf8Loop (count : ℕ) (c res : UInt32) : Bytes → Option (ℕ × UInt32 × UInt32)
  | [] => some (count, c, res)
  | _ :: s =>
    if c &&& 0x40 = 0 then some (count, c, res)
    else
      match s with
      | [] => none
      | b :: s =>
        if b &&& 0xc0 ≠ 0x80 then none
        else utf8Loop (count + 1) (c <<< 1) (res <<< 6 ||| (b &&& 0x3f).toUInt32) (b :: s)

/-- `utf8_copy` of a string up to the limit: how many bytes are copied, 0 for an error.  A
`char` is signed.
SRC: lua-bson.c:206-230 -/
def utf8Copy : Bytes → ℕ
  | [] => 0
  | b :: s =>
    if b < 0x80 then 1
    else
      match utf8Loop 0 (0xffffff00 ||| b.toUInt32) 0 (b :: s) with
      | none => 0
      | some (count, c, res) =>
        let res := res ||| (c &&& 0x7f) <<< UInt32.ofNat (count * 5)
        if 3 < count ∨ 0x10ffff < res ∨ res ≤ [0xff, 0x7f, 0x7ff, 0xffff].getD count 0 then 0
        else count + 1

/-- The loop of `write_string`: whether all is copied.  Each turn copies a byte at least. -/
def copiesAll : ℕ → Bytes → Bool
  | 0, s => s.isEmpty
  | n + 1, s =>
    if s.isEmpty then true
    else if utf8Copy s = 0 then false
    else copiesAll n (s.drop (utf8Copy s))

/-- `write_string`.
SRC: lua-bson.c:233-249 -/
def writeString (s : Bytes) : BsonWrite Unit := do
  bsonReserve (s.length + 1)
  if copiesAll s.length s then bsonPut (s ++ [0])
  else throw (.lua .utf8)

def appendKey (type : ℕ) (key : Bytes) : BsonWrite Unit := do
  writeByte type
  writeString key

/-! ## Values -/

/-- What `v` bytes at most behind the type are. -/
def is32bit (v : BitVec 64) : Bool := -2 ^ 31 ≤ v.toInt && v.toInt ≤ 2 ^ 31 - 1

/-- `append_number`.
SRC: lua-bson.c:295-310 -/
def appendInteger (key : Bytes) (i : BitVec 64) : BsonWrite Unit := do
  if is32bit i then
    appendKey bsonInt32 key
    writeInt32 i.toInt
  else
    appendKey bsonInt64 key
    writeInt64 i

/-- `append_number`. -/
def appendReal (key : Bytes) (d : BitVec 64) : BsonWrite Unit := do
  appendKey bsonReal key
  writeInt64 d

/-- `write_binary`: the bytes include the subtype, the length does not.
SRC: lua-bson.c:315-322 -/
def writeBinary (buffer : Bytes) : BsonWrite Unit := do
  let length ← reserveLength
  bsonWriteBytes buffer
  writeLength (buffer.length - 1) length

/-- The two parts of a regex: what is before and behind the last zero, without the byte at the
end. -/
def splitRegex (str : Bytes) : Option (Bytes × Bytes) :=
  let body := str.take (str.length - 1)
  let options := (body.reverse.takeWhile (· ≠ 0)).reverse
  if options.length < body.length then
    some (body.take (body.length - 1 - options.length), options)
  else none

/-- A regex.  Without a zero `write_string` is to copy `2^64 - 1` bytes or one less, for which
it makes no room: it stops at what is no UTF-8, or goes on behind the string. -/
def writeRegex (str : Bytes) : BsonWrite Unit :=
  match splitRegex str with
  | some (r1, r2) => do
    writeString r1
    writeString r2
  | none => if copiesAll str.length str then throw .outside else throw (.lua .utf8)

/-- The content of a string that stands for a value of a type that Lua does not have, behind
the type and the key.
SRC: lua-bson.c:349-410 -/
def writeObject (subt : ℕ) (str : Bytes) : BsonWrite Unit :=
  match subt with
  | bsonBinary => writeBinary str
  | bsonObjectid => if str.length ≠ 12 then throw (.lua .objectid) else bsonWriteBytes str
  | bsonJscode | bsonDbpointer | bsonSymbol | bsonCodews => bsonWriteBytes str
  | bsonDate =>
    if str.length ≠ 4 then throw (.lua .date)
    else writeInt64 (BitVec.ofNat 64 (leNat str * 1000))
  | bsonTimestamp =>
    if str.length ≠ 8 then throw (.lua .timestamp)
    else do
      writeInt32 (leNat (str.take 4))
      writeInt32 (leNat (str.drop 4))
  | bsonRegex => writeRegex str
  | bsonMinkey | bsonMaxkey | bsonNull => return ()
  | bsonInt64 =>
    if str.length ≠ 8 then throw (.lua .int64)
    else writeInt64 (BitVec.ofNat 64 (leNat str))
  | _ => throw (.lua (.subtype subt))

/-- A string.
SRC: lua-bson.c:342-420 -/
def appendString (key : Bytes) : Bytes → BsonWrite Unit
  | 0 :: subt :: str => do
    appendKey subt.toNat key
    writeObject subt.toNat str
  | str => do
    appendKey bsonString key
    let off ← reserveLength
    writeString str
    writeLength (str.length + 1) off

/-! ## Tables -/

/-- `bson_numstr`: an `unsigned int` as decimal text. -/
def bsonNumstr (i : ℕ) : Bytes :=
  if i % 2 ^ 32 = 0 then [0x30]
  else ((Nat.digits 10 (i % 2 ^ 32)).reverse).map fun d => UInt8.ofNat (0x30 + d)

/-- What `pack_array` and `pack_simple_dict` have around their loops. -/
def packDocument (elements : BsonWrite Unit) : BsonWrite Unit := do
  let length ← reserveLength
  elements
  writeByte 0
  let b ← get
  writeLength (toInt32 (b.bytes.length - length)) length

/-- `pack_array`, given what appends one element.
SRC: lua-bson.c:442-457 -/
def packArray (appendOne : Bytes → LuaValue ℕ → BsonWrite Unit) (len : ℕ)
    (es : LuaEntries ℕ) : BsonWrite Unit :=
  packDocument ((List.range' 1 len).forM fun i => appendOne (bsonNumstr (i - 1)) (rawgeti es i))

/-- `lua_typename` of a key or a value that is refused. -/
def refusedTypename : LuaValue ℕ → String
  | .scalar (.boolean _) => "boolean"
  | .scalar (.lightuserdata _) => "userdata"
  | .table _ _ => "table"
  | .other t => t
  | _ => ""

/-- `pack_dict_data`.
SRC: lua-bson.c:459-478 -/
def packDictData (appendOne : Bytes → LuaValue ℕ → BsonWrite Unit) :
    LuaValue ℕ × LuaValue ℕ → BsonWrite Unit
  | (.scalar (.integer _), _) | (.scalar (.real _), _) => throw (.lua .numberKey)
  | (.scalar (.string key), v) => appendOne key v
  | (k, _) => throw (.lua (.keyType (refusedTypename k)))

/-- `pack_simple_dict`.
SRC: lua-bson.c:479-488 -/
def packSimpleDict (appendOne : Bytes → LuaValue ℕ → BsonWrite Unit) (es : LuaEntries ℕ) :
    BsonWrite Unit :=
  packDocument (es.forM fun e => packDictData appendOne e)

/-- `is_rawarray`: the border is a key, and `lua_next` gives none behind it.
SRC: lua-bson.c:514-525 -/
def isRawarray (border : ℕ) (es : LuaEntries ℕ) : Bool :=
  0 < border && es.getLast?.any fun e => sameKey e.1 (.scalar (.integer (BitVec.ofInt 64 border)))

/-- `append_one` and `append_table`, with how many more tables may be inside of each other and
the slots of the stack in use.
SRC: lua-bson.c:322-432, 528-553 -/
def appendOne : ℕ → ℕ → Bytes → LuaValue ℕ → BsonWrite Unit
  | _, _, key, .scalar (.integer i) => appendInteger key i
  | _, _, key, .scalar (.real d) => appendReal key d
  | _, _, key, .scalar (.string str) => appendString key str
  | _, _, key, .scalar (.boolean b) => do
    appendKey bsonBoolean key
    writeByte b.toNat
  | _, _, _, .scalar .nil => throw (.lua .hole)
  | _, _, _, .scalar (.lightuserdata _) => throw (.lua (.valueType "userdata"))
  | _, _, _, .other t =>
    if t = "userdata" then throw .userdata else throw (.lua (.valueType t))
  | 0, _, _, .table _ _ => throw (.lua .depth)
  | room + 1, top, key, .table border es =>
    if bsonStackRoom top then
      if isRawarray border es then do
        appendKey bsonArray key
        packArray (appendOne room (top + 1)) border es
      else do
        appendKey bsonDocument key
        packSimpleDict (appendOne room (top + 2)) es
    else throw (.lua .stackOverflow)

/-- `MAX_DEPTH`. -/
abbrev bsonMaxDepth : ℕ := 128

/-- `bson_create`. -/
def BsonBuffer.create : BsonBuffer := ⟨[], 64⟩

/-- `bson.encode`, with `top` slots of the stack in use below the first key: the bytes of the
document.
SRC: lua-bson.c:949-990 -/
def bsonEncode (top : ℕ) : LuaValue ℕ → Except BsonEncodeStop Bytes
  | .table _ es =>
    match packSimpleDict (appendOne bsonMaxDepth (top + 2)) es .create with
    | .ok _ b => .ok b.bytes
    | .error e _ => .error e
  | _ => .error (.lua .badArgument)

end Skynet.Model
