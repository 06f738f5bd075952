import Skynet.Model.LuaSeri

/-!
# Decoding of BSON

`lualib-src/lua-bson.c`: `bson.decode` reads a document through a pointer and the number of
bytes left, an `int`.  The pointer is an offset in the bytes that were received; a read of
anything else is where the model stops, with `outside`.

`int` is a signed number of 32 bits that wraps around.  Every call of `unpack_dict` has a
frame of more than a kilobyte on the C stack, and nothing counts the calls: how many the
stack has room for is a parameter.
-/

namespace Skynet.Model

open Library

/-! ## The format -/

@[match_pattern] abbrev bsonReal : ℕ := 1
@[match_pattern] abbrev bsonString : ℕ := 2
@[match_pattern] abbrev bsonDocument : ℕ := 3
@[match_pattern] abbrev bsonArray : ℕ := 4
@[match_pattern] abbrev bsonBinary : ℕ := 5
@[match_pattern] abbrev bsonObjectid : ℕ := 7
@[match_pattern] abbrev bsonBoolean : ℕ := 8
@[match_pattern] abbrev bsonDate : ℕ := 9
@[match_pattern] abbrev bsonNull : ℕ := 10
@[match_pattern] abbrev bsonRegex : ℕ := 11
@[match_pattern] abbrev bsonDbpointer : ℕ := 12
@[match_pattern] abbrev bsonJscode : ℕ := 13
@[match_pattern] abbrev bsonSymbol : ℕ := 14
@[match_pattern] abbrev bsonCodews : ℕ := 15
@[match_pattern] abbrev bsonInt32 : ℕ := 16
@[match_pattern] abbrev bsonTimestamp : ℕ := 17
@[match_pattern] abbrev bsonInt64 : ℕ := 18
@[match_pattern] abbrev bsonMaxkey : ℕ := 127
@[match_pattern] abbrev bsonMinkey : ℕ := 255

/-- `luaL_checkstack(L, 16, NULL)` with `top` slots in use.
SRC: 3rd/lua/lapi.c:99-118 -/
def bsonStackRoom (top : ℕ) : Bool := top + extraStack + 16 ≤ luaiMaxStack

/-! ## Readers -/

/-- The errors that `bson.decode` raises: "Invalid bson block (%d:%d)", "Invalid bson block :
cstring", "Invalid document end", "Invalid bson string , length = %d" and "Invalid bson
type : %d" of its own, "stack overflow" of `luaL_checkstack`, and "buffer too large" or "not
enough memory" of a `luaL_Buffer` that is to take a negative number of bytes. -/
inductive BsonError where
  | block (size sz : ℤ)
  | cstring
  | documentEnd
  | stringLength (sz : ℤ)
  | type (bt : ℕ)
  | stackOverflow
  | bufferSize
deriving DecidableEq, Repr

/-- Where decoding stops without a value: a Lua error, a read outside of the bytes that were
received, or a call for which the C stack has no room.  `outOfFuel` belongs to the model: no
call ends with it. -/
inductive BsonStop where
  | lua (e : BsonError)
  | outside
  | cStack
  | outOfFuel
deriving DecidableEq, Repr

/-- `struct bson_reader`. -/
structure BsonReader where
  ptr : ℤ
  size : ℤ
deriving DecidableEq, Repr

structure BsonState where
  reader : BsonReader
deriving DecidableEq, Repr

abbrev BsonRead : Type → Type := EStateM BsonStop BsonState

def checkReader (sz : ℤ) : BsonRead Unit := do
  let s ← get
  if s.reader.size < sz then throw (.lua (.block s.reader.size sz)) else return ()

/-- `br->ptr += sz; br->size -= sz`. -/
def advance (sz : ℤ) : BsonRead Unit :=
  modify fun s => { s with reader := ⟨s.reader.ptr + sz, toInt32 (s.reader.size - sz)⟩ }

/-- `read_bytes`, which reads nothing: where the bytes lie. -/
def bsonReadBytes (sz : ℤ) : BsonRead ℤ := do
  let s ← get
  checkReader sz
  advance sz
  return s.reader.ptr

def withBsonReader {α : Type} (t : BsonReader) (m : BsonRead α) : BsonRead α := do
  let s ← get
  set { s with reader := t }
  let a ← m
  modify fun s' => { s' with reader := s.reader }
  return a

section

variable (doc : Bytes)

/-- `n` bytes at a pointer. -/
def bytesAt (p : ℤ) (n : ℕ) : BsonRead Bytes :=
  if n = 0 ∨ 0 ≤ p ∧ p + n ≤ doc.length then return (doc.drop p.toNat).take n
  else throw .outside

/-- `luaL_addlstring` of a number of bytes that is an `int`, as a `size_t`.
SRC: 3rd/lua/lauxlib.c:531-586 -/
def addLstring (p len : ℤ) : BsonRead Bytes :=
  if len < 0 then throw (.lua .bufferSize) else bytesAt doc p len.toNat

/-- A value of `n` bytes behind the pointer. -/
def readLe (n : ℕ) : BsonRead ℕ := do
  checkReader n
  let s ← get
  let b ← bytesAt doc s.reader.ptr n
  advance n
  return leNat b

/-- `read_byte`. -/
def bsonReadByte : BsonRead ℕ := readLe doc 1

def readInt32 : BsonRead ℤ := do
  let v ← readLe doc 4
  return toInt32 v

/-- `read_int64`, and `read_double` for the bits of the double. -/
def readInt64 : BsonRead (BitVec 64) := do
  let v ← readLe doc 8
  return BitVec.ofNat 64 v

/-- The loop of `read_cstring`: the bytes before the first zero among the next ones. -/
def scanCstring (p : ℤ) : ℕ → BsonRead Bytes
  | 0 => throw (.lua .cstring)
  | left + 1 => do
    let b ← bytesAt doc p 1
    if leNat b = 0 then return []
    else
      let rest ← scanCstring (p + 1) left
      return b ++ rest

/-- `read_cstring`: the counter is an `int` that wraps around until it is the size. -/
def readCstring : BsonRead Bytes := do
  let s ← get
  let r ← scanCstring doc s.reader.ptr (s.reader.size % 2 ^ 32).toNat
  advance (r.length + 1)
  return r

/-! ## Values -/

/-- The number that the decimal digits at the start of a text spell. -/
def leadingDecimal (s : Bytes) : ℕ :=
  (s.takeWhile fun b => 0x30 ≤ b && b ≤ 0x39).foldl (fun n b => 10 * n + (b.toNat - 0x30)) 0

/-- `strtol(key, NULL, 10)`, of a key without the zero at its end. -/
def strtol (key : Bytes) : ℤ :=
  match key.dropWhile fun b => b = 0x20 || 0x09 ≤ b && b ≤ 0x0d with
  | 0x2d :: s => max (-(leadingDecimal s : ℤ)) (-2 ^ 63)
  | 0x2b :: s => min (leadingDecimal s : ℤ) (2 ^ 63 - 1)
  | s => min (leadingDecimal s : ℤ) (2 ^ 63 - 1)

def entryKey (array : Bool) (key : Bytes) : LuaValue Unit :=
  if array then .scalar (.integer (BitVec.ofInt 64 (toInt32 (strtol key + 1))))
  else .scalar (.string key)

/-- A string that stands for a value of a type that Lua does not have. -/
def bsonObject (type : ℕ) (content : Bytes) : LuaValue Unit :=
  .scalar (.string (0 :: UInt8.ofNat type :: content))

def makeObject (type : ℕ) (p len : ℤ) : BsonRead (LuaValue Unit) := do
  let content ← addLstring doc p len
  return bsonObject type content

/-- The value of an element, given what unpacks a document.
SRC: lua-bson.c:627-737 -/
def unpackValue (unpackDict : Bool → BsonRead (LuaValue Unit)) (bt : ℕ) :
    BsonRead (LuaValue Unit) :=
  match bt with
  | bsonReal => do
    let v ← readInt64 doc
    return .scalar (.real v)
  | bsonBoolean => do
    let b ← bsonReadByte doc
    return .scalar (.boolean (b ≠ 0))
  | bsonString => do
    let sz ← readInt32 doc
    if sz ≤ 0 then throw (.lua (.stringLength sz))
    else
      let p ← bsonReadBytes sz
      let s ← bytesAt doc p (sz - 1).toNat
      return .scalar (.string s)
  | bsonDocument => unpackDict false
  | bsonArray => unpackDict true
  | bsonBinary => do
    let sz ← readInt32 doc
    let subtype ← bsonReadByte doc
    let p ← bsonReadBytes sz
    let content ← addLstring doc p sz
    return bsonObject bsonBinary (UInt8.ofNat subtype :: content)
  | bsonObjectid => do
    let p ← bsonReadBytes 12
    makeObject doc bsonObjectid p 12
  | bsonDate => do
    let date ← readInt64 doc
    return bsonObject bsonDate (leBytes 4 (date.toInt.tdiv 1000 % 2 ^ 32).toNat)
  | bsonMinkey | bsonMaxkey | bsonNull => return bsonObject bt []
  | bsonRegex => do
    let r1 ← readCstring doc
    let r2 ← readCstring doc
    return bsonObject bsonRegex (r1 ++ 0 :: r2 ++ [0])
  | bsonInt32 => do
    let v ← readInt32 doc
    return .scalar (.integer (BitVec.ofInt 64 v))
  | bsonTimestamp => do
    let inc ← readLe doc 4
    let ts ← readLe doc 4
    return bsonObject bsonTimestamp (leBytes 4 inc ++ leBytes 4 ts)
  | bsonInt64 => do
    let v ← readInt64 doc
    return .scalar (.integer v)
  | bsonDbpointer => do
    let s ← get
    let sz ← readInt32 doc
    let _ ← bsonReadBytes (toInt32 (sz + 12))
    makeObject doc bsonDbpointer s.reader.ptr (toInt32 (sz + 16))
  | bsonJscode | bsonSymbol => do
    let s ← get
    let sz ← readInt32 doc
    let _ ← bsonReadBytes sz
    makeObject doc bt s.reader.ptr (toInt32 (sz + 4))
  | bsonCodews => do
    let s ← get
    let sz ← readInt32 doc
    let _ ← bsonReadBytes (toInt32 (sz - 4))
    makeObject doc bt s.reader.ptr sz
  | _ => throw (.lua (.type bt))

/-! ## Documents -/

/-- `unpack_dict` around the loop over its elements, with `top` slots of the stack in use.
SRC: lua-bson.c:600-613 -/
def unpackDictWith (elements : BsonRead (LuaValue Unit)) (top : ℕ) : BsonRead (LuaValue Unit) := do
  if bsonStackRoom top then
    let sz ← readInt32 doc
    let bytes ← bsonReadBytes (toInt32 (sz - 5))
    let last ← bsonReadByte doc
    if last ≠ 0 then throw (.lua .documentEnd)
    else withBsonReader ⟨bytes, toInt32 (sz - 5)⟩ elements
  else throw (.lua .stackOverflow)

/-- A call that needs one of so many frames on the C stack; `none` are enough for all. -/
def inFrame {α : Type} (frames : Option ℕ) (m : Option ℕ → BsonRead α) : BsonRead α :=
  match frames with
  | none => m none
  | some 0 => throw .cStack
  | some (n + 1) => m (some n)

/-- The loop of `unpack_dict`, with the table among the `top` slots in use, where the C stack
has room for so many nested calls.
SRC: lua-bson.c:615-740 -/
def unpackElements : ℕ → Option ℕ → ℕ → Bool → LuaEntries Unit → BsonRead (LuaValue Unit)
  | 0, _, _, _, _ => throw .outOfFuel
  | fuel + 1, frames, top, array, entries => do
    let t ← get
    if t.reader.size = 0 then return .table () entries
    else
      let bt ← bsonReadByte doc
      let key ← readCstring doc
      -- a nested document finds the key on the stack, and puts its own table there
      let nested := fun array => inFrame frames fun frames =>
        unpackDictWith doc (unpackElements fuel frames (top + 2) array []) (top + 1)
      let v ← unpackValue doc nested bt
      unpackElements fuel frames top array (assign entries (entryKey array key) v)

/-- `ldecode`, with `top` slots of the stack in use: `get_length` reads the length of the
document first.  The argument is not NULL.
SRC: lua-bson.c:913-926 -/
def ldecode (frames : Option ℕ) (top : ℕ) : BsonRead (LuaValue Unit) := do
  let b ← bytesAt doc 0 4
  let len := toInt32 (leNat b)
  withBsonReader ⟨0, len⟩
    (unpackDictWith doc (unpackElements doc (len.toNat + 1) frames (top + 1) false []) top)

end

/-- Before `ldecode`. -/
def BsonState.init : BsonState := ⟨⟨0, 0⟩⟩

/-- `bson.decode` of the bytes that were received, with `top` slots of the stack in use, where
the C stack has room for so many nested calls of `unpack_dict`. -/
def bsonDecodeOn (frames : Option ℕ) (top : ℕ) (doc : Bytes) :
    EStateM.Result BsonStop BsonState (LuaValue Unit) :=
  ldecode doc frames top .init

/-- `bson.decode` where the C stack is large enough. -/
def bsonDecode (top : ℕ) (doc : Bytes) : EStateM.Result BsonStop BsonState (LuaValue Unit) :=
  bsonDecodeOn none top doc

end Skynet.Model
