import Skynet.Library.LittleEndian
import Skynet.Library.Outcome

/-!
# Serialized Lua values

`lualib-src/lua-seri.c`: `luaseri_pack` writes Lua values to a chain of 128-byte blocks and
copies the chain to one buffer; `luaseri_unpack` reads them back.  A table to be packed is
given by what the Lua API shows of it: the border that `lua_rawlen` returns and the entries
in the order of `lua_next`.  Tables with a `__pairs` metamethod are left out, and so is what
happens when memory or the C stack runs out; the Lua stack is counted.
-/

namespace Skynet.Model

open Library

/-! ## Lua values -/

inductive Scalar where
  | nil
  | boolean (b : Bool)
  | integer (n : BitVec 64)
  | real (d : BitVec 64)
  | lightuserdata (p : BitVec 64)
  | string (s : Bytes)
deriving DecidableEq, Repr

/-- A Lua value.  A table shows its entries in the order of `lua_next`, and `β` is what else
there is to see of it: the border of `lua_rawlen` where it is packed, nothing where it was
unpacked. -/
inductive LuaValue (β : Type) where
  | scalar (v : Scalar)
  | table (border : β) (entries : List (LuaValue β × LuaValue β))
  | other (typename : String)

/-- The entries of a table. -/
abbrev LuaEntries (β : Type) : Type := List (LuaValue β × LuaValue β)

/-- `lua_isnil`. -/
def LuaValue.isNil {β : Type} : LuaValue β → Bool
  | .scalar .nil => true
  | _ => false

/-- `luai_numisnan`, on the bits of a double. -/
def isNaN (d : BitVec 64) : Bool := d.toNat / 2 ^ 52 % 2 ^ 11 = 2047 && d.toNat % 2 ^ 52 ≠ 0

/-- The integer that a double is equal to, if it is one and fits a `lua_Integer`: a double
`(-1)^s * (2^52 + m) * 2^(e - 1075)`.
SRC: 3rd/lua/lvm.c, luaV_flttointeger with F2Ieq -/
def toInteger (d : BitVec 64) : Option (BitVec 64) :=
  let e := d.toNat / 2 ^ 52 % 2 ^ 11
  let m := d.toNat % 2 ^ 52
  let sign : ℤ := if d.msb then -1 else 1
  if e = 0 then
    if m = 0 then some 0 else none
  else if e < 1023 then none
  else if e < 1075 then
    if (2 ^ 52 + m) % 2 ^ (1075 - e) = 0 then
      some (BitVec.ofInt 64 (sign * ((2 ^ 52 + m) / 2 ^ (1075 - e) : ℕ)))
    else none
  else if e ≤ 1085 then some (BitVec.ofInt 64 (sign * ((2 ^ 52 + m) * 2 ^ (e - 1075) : ℕ)))
  else if e = 1086 ∧ m = 0 ∧ d.msb then some (BitVec.intMin 64)
  else none

/-- Two keys of one table are the same key.  A table is the same only as itself, and
the tables met here are new. -/
def sameKey {β : Type} : LuaValue β → LuaValue β → Bool
  | .scalar v, .scalar w => v = w
  | _, _ => false

/-- The value of a key; nil where the table has no entry for it. -/
def rawget {β : Type} (t : LuaEntries β) (k : LuaValue β) : LuaValue β :=
  ((t.find? fun e => sameKey e.1 k).map Prod.snd).getD (.scalar .nil)

/-- `t[k] = v` for a key that may be used as it is: nil removes the entry. -/
def assign {β : Type} (t : LuaEntries β) (k v : LuaValue β) : LuaEntries β :=
  if v.isNil then t.filter fun e => !sameKey e.1 k
  else if t.any fun e => sameKey e.1 k then
    t.map fun e => if sameKey e.1 k then (e.1, v) else e
  else t ++ [(k, v)]

/-- `lua_rawgeti`. -/
def rawgeti {β : Type} (t : LuaEntries β) (i : ℤ) : LuaValue β :=
  rawget t (.scalar (.integer (BitVec.ofInt 64 i)))

/-- `lua_rawseti`. -/
def rawseti {β : Type} (t : LuaEntries β) (i : ℤ) (v : LuaValue β) : LuaEntries β :=
  assign t (.scalar (.integer (BitVec.ofInt 64 i))) v

/-! ## The format -/

@[match_pattern] abbrev typeNil : ℕ := 0
@[match_pattern] abbrev typeBoolean : ℕ := 1
@[match_pattern] abbrev typeNumber : ℕ := 2
@[match_pattern] abbrev typeNumberZero : ℕ := 0
@[match_pattern] abbrev typeNumberByte : ℕ := 1
@[match_pattern] abbrev typeNumberWord : ℕ := 2
@[match_pattern] abbrev typeNumberDword : ℕ := 4
@[match_pattern] abbrev typeNumberQword : ℕ := 6
@[match_pattern] abbrev typeNumberReal : ℕ := 8
@[match_pattern] abbrev typeUserdata : ℕ := 3
@[match_pattern] abbrev typeShortString : ℕ := 4
@[match_pattern] abbrev typeLongString : ℕ := 5
@[match_pattern] abbrev typeTable : ℕ := 6

abbrev maxCookie : ℕ := 32
abbrev blockSize : ℕ := 128
abbrev maxDepth : ℕ := 32

/-- `COMBINE_TYPE`: the low five bits of the cookie above the three bits of the type. -/
def combineType (t : ℕ) (v : ℤ) : UInt8 := UInt8.ofNat (t ||| (v % 32).toNat <<< 3)

/-- What a 64-bit value is as an `int`. -/
@[irreducible] def toInt32 (v : ℤ) : ℤ := v.bmod (2 ^ 32)

/-- The bytes of a `v` of `k` bytes. -/
def valueBytes (k : ℕ) (v : ℤ) : Bytes := leBytes k (v % 256 ^ k).toNat

/-! ## The Lua stack -/

abbrev luaMinStack : ℕ := 20
abbrev extraStack : ℕ := 5
abbrev luaiMaxStack : ℕ := 1000000

/-- `luaL_checkstack` for `LUA_MINSTACK` slots above `top` slots in use.
SRC: 3rd/lua/lapi.c:99-118, 3rd/lua/lauxlib.c:380-387 -/
def stackRoom (top : ℕ) : Bool := top + extraStack + luaMinStack ≤ luaiMaxStack

/-! ## Packing -/

/-- A block that is full. -/
abbrev FullBlock : Type := { b : Bytes // b.length = blockSize }

/-- The chain of blocks: those before the current one, which are full, and the part of the
current one that is written, `ptr` bytes.  `len` is the `int` that counts what was
pushed. -/
structure WriteBlock where
  filled : List FullBlock
  current : Bytes
  bound : current.length ≤ blockSize
  len : ℤ

/-- The errors of `luaseri_pack`: "serialize can't pack too depth table", "Unsupport type %s
to serialize", "stack overflow", and the allocation of a negative number of bytes. -/
inductive PackError where
  | tooDepth
  | unsupportType (typename : String)
  | stackOverflow
  | outOfMemory
deriving DecidableEq, Repr

namespace WriteBlock

def ptr (b : WriteBlock) : ℕ := b.current.length

/-- `wb_init`. -/
def init : WriteBlock where
  filled := []
  current := []
  bound := by simp
  len := 0

/-- `memcpy` to the current block, and the count. -/
def store (b : WriteBlock) (buf : Bytes) (h : b.ptr + buf.length ≤ blockSize) :
    WriteBlock where
  filled := b.filled
  current := b.current ++ buf
  bound := by simpa [ptr] using h
  len := toInt32 (b.len + buf.length)

def grow (b : WriteBlock) (h : b.ptr = blockSize) : WriteBlock where
  filled := b.filled ++ [⟨b.current, h⟩]
  current := []
  bound := by simp
  len := b.len

end WriteBlock

/-- `wb_push` from the label `_again`: the current block is full.
SRC: lua-seri.c:66-85 -/
def wbPushAgain (b : WriteBlock) (h : b.ptr = blockSize) (buf : Bytes) : WriteBlock :=
  if hfit : buf.length ≤ blockSize then
    (b.grow h).store buf (by simpa [WriteBlock.grow, WriteBlock.ptr] using hfit)
  else
    have hcopy : (buf.take blockSize).length = blockSize := List.length_take_of_le (by omega)
    have hstore : (b.grow h).ptr + (buf.take blockSize).length ≤ blockSize := by
      rw [hcopy]
      simp [WriteBlock.grow, WriteBlock.ptr]
    wbPushAgain ((b.grow h).store (buf.take blockSize) hstore)
      (by simpa [WriteBlock.store, WriteBlock.grow, WriteBlock.ptr] using hcopy)
      (buf.drop blockSize)
termination_by buf.length
decreasing_by
  have hpos : 0 < blockSize := by decide
  rw [List.length_drop]
  omega

/-- `wb_push`.
SRC: lua-seri.c:65-86 -/
def wbPush (b : WriteBlock) (buf : Bytes) : WriteBlock :=
  if hfull : b.ptr = blockSize then wbPushAgain b hfull buf
  else if hfit : b.ptr + buf.length ≤ blockSize then b.store buf hfit
  else
    have hcopy : b.ptr + (buf.take (blockSize - b.ptr)).length = blockSize := by
      have hbound : b.ptr ≤ blockSize := b.bound
      rw [List.length_take]
      omega
    wbPushAgain (b.store (buf.take (blockSize - b.ptr)) (by omega))
      (by simpa [WriteBlock.store, WriteBlock.ptr] using hcopy)
      (buf.drop (blockSize - b.ptr))

def wbNil (wb : WriteBlock) : WriteBlock := wbPush wb [UInt8.ofNat typeNil]

def wbBoolean (wb : WriteBlock) (boolean : Bool) : WriteBlock :=
  wbPush wb [combineType typeBoolean (if boolean then 1 else 0)]

/-- `wb_integer`.
SRC: lua-seri.c:142-174 -/
def wbInteger (wb : WriteBlock) (v : ℤ) : WriteBlock :=
  if v = 0 then
    wbPush wb [combineType typeNumber typeNumberZero]
  else if v ≠ toInt32 v then
    wbPush (wbPush wb [combineType typeNumber typeNumberQword]) (valueBytes 8 v)
  else if v < 0 then
    wbPush (wbPush wb [combineType typeNumber typeNumberDword]) (valueBytes 4 v)
  else if v < 0x100 then
    wbPush (wbPush wb [combineType typeNumber typeNumberByte]) (valueBytes 1 v)
  else if v < 0x10000 then
    wbPush (wbPush wb [combineType typeNumber typeNumberWord]) (valueBytes 2 v)
  else
    wbPush (wbPush wb [combineType typeNumber typeNumberDword]) (valueBytes 4 v)

def wbReal (wb : WriteBlock) (v : BitVec 64) : WriteBlock :=
  wbPush (wbPush wb [combineType typeNumber typeNumberReal]) (leBytes 8 v.toNat)

def wbPointer (wb : WriteBlock) (v : BitVec 64) : WriteBlock :=
  wbPush (wbPush wb [UInt8.ofNat typeUserdata]) (leBytes 8 v.toNat)

/-- `wb_string`, called with the size of the string as an `int`.
SRC: lua-seri.c:190-215 -/
def wbString (wb : WriteBlock) (str : Bytes) (len : ℤ) : WriteBlock :=
  if len < maxCookie then
    let wb := wbPush wb [combineType typeShortString len]
    if 0 < len then wbPush wb (str.take len.toNat) else wb
  else
    let wb :=
      if len < 0x10000 then
        wbPush (wbPush wb [combineType typeLongString 2]) (valueBytes 2 len)
      else
        wbPush (wbPush wb [combineType typeLongString 4]) (valueBytes 4 len)
    wbPush wb (str.take len.toNat)

/-- What packs a value that lies on the stack, given the slots in use. -/
abbrev Packer : Type := ℕ → LuaValue ℕ → WriteBlock → Except PackError WriteBlock

/-- `array_size` of a table.
SRC: lua-seri.c:219 -/
def arraySize (border : ℕ) : ℤ := toInt32 border

/-- The header of a table, in `wb_table_array`.
SRC: lua-seri.c:219-227 -/
def wbTableHeader (wb : WriteBlock) (border : ℕ) : WriteBlock :=
  if (maxCookie : ℤ) - 1 ≤ arraySize border then
    wbInteger (wbPush wb [combineType typeTable (maxCookie - 1)]) (arraySize border)
  else
    wbPush wb [combineType typeTable (arraySize border)]

/-- `wb_table_array`.
SRC: lua-seri.c:217-237 -/
def wbTableArray (packOne : Packer) (top : ℕ) (border : ℕ) (es : LuaEntries ℕ)
    (wb : WriteBlock) : Except PackError WriteBlock :=
  (List.range' 1 (arraySize border).toNat).foldlM
    (fun wb (i : ℕ) => packOne (top + 1) (rawgeti es i) wb) (wbTableHeader wb border)

/-- The test of `wb_table_hash`: the key was written with the array part. -/
def inArray (border : ℕ) : LuaValue ℕ → Bool
  | .scalar (.integer x) => 0 < x.toInt && x.toInt ≤ arraySize border
  | _ => false

/-- `wb_table_hash`.
SRC: lua-seri.c:239-257 -/
def wbTableHash (packOne : Packer) (top : ℕ) (border : ℕ) (es : LuaEntries ℕ)
    (wb : WriteBlock) : Except PackError WriteBlock := do
  let wb ← es.foldlM (fun wb e => do
    if inArray border e.1 then return wb
    else
      let wb ← packOne (top + 2) e.1 wb
      packOne (top + 2) e.2 wb) wb
  return wbNil wb

/-- `wb_table`.
SRC: lua-seri.c:282-294 -/
def wbTable (packOne : Packer) (top : ℕ) (border : ℕ) (es : LuaEntries ℕ)
    (wb : WriteBlock) : Except PackError WriteBlock := do
  if stackRoom top then
    let wb ← wbTableArray packOne top border es wb
    wbTableHash packOne top border es wb
  else throw .stackOverflow

/-- The scalar cases of `pack_one`. -/
def packScalar (b : WriteBlock) : Scalar → WriteBlock
  | .nil => wbNil b
  | .boolean x => wbBoolean b x
  | .integer x => wbInteger b x.toInt
  | .real n => wbReal b n
  | .lightuserdata p => wbPointer b p
  | .string str => wbString b str (toInt32 str.length)

/-- `pack_one` at the depth `MAX_DEPTH + 1 - levels`.
SRC: lua-seri.c:296-340 -/
def packOne : ℕ → Packer
  | 0, _, _, _ => .error .tooDepth
  | _ + 1, _, .scalar v, b => .ok (packScalar b v)
  | levels + 1, top, .table border es, b => wbTable (packOne levels) top border es b
  | _ + 1, _, .other typename, _ => .error (.unsupportType typename)

/-- `pack_from`: the values lie on the stack above `base` slots.
SRC: lua-seri.c:342-349 -/
def packFrom (base : ℕ) (vs : List (LuaValue ℕ)) (b : WriteBlock) :
    Except PackError WriteBlock :=
  vs.foldlM (fun b v => packOne (maxDepth + 1) (base + vs.length) v b) b

/-- The copying loop of `seri`. -/
def copyBlocks : List Bytes → ℕ → Bytes
  | [], _ => []
  | b :: bs, len =>
    if blockSize ≤ len then b.take blockSize ++ copyBlocks bs (len - blockSize)
    else b.take len

/-- `seri`.
SRC: lua-seri.c:534-553 -/
def seri (b : WriteBlock) (len : ℤ) : Except PackError Bytes :=
  if len < 0 then .error .outOfMemory
  else .ok (copyBlocks (b.filled.map (·.1) ++ [b.current]) len.toNat)

/-- `luaseri_pack`, called with `vs` above `base` slots of the stack.
SRC: lua-seri.c:599-612 -/
def luaseriPack (base : ℕ) (vs : List (LuaValue ℕ)) : Except PackError Bytes := do
  let wb ← packFrom base vs .init
  seri wb wb.len

/-! ## Unpacking -/

/-- A successful `rb_read`: where it began and how far it advanced. -/
structure Read where
  ptr : ℤ
  sz : ℤ
deriving DecidableEq, Repr

structure ReadBlock where
  buffer : Bytes
  len : ℤ
  ptr : ℤ
  reads : List Read

/-- The errors that stop `luaseri_unpack`: its own "Invalid serialize stream %d (line:%d)"
and "deserialize null pointer", and those of the Lua API, "stack overflow", "memory
allocation error: block too big", "table index is NaN" and "not enough memory".  Behind
`cStack` the process crashes.  `outOfFuel` belongs to the model: no call ends with it. -/
inductive UnpackError where
  | invalidStream (len : ℤ) (line : ℕ)
  | nullPointer
  | stackOverflow
  | blockTooBig
  | indexNaN
  | notEnoughMemory
  | cStack
  | outOfFuel
deriving DecidableEq, Repr

abbrev Unpack : Type → Type := EStateM UnpackError ReadBlock

/-- What the process gives to a call besides the Lua stack: room on the C stack for so many
calls of `unpack_table` inside each other (`none` is enough for all), and memory for the
array part of a table, or not, by the bytes of the stream that are left and its size. -/
structure UnpackHost where
  frames : Option ℕ
  memory : ℕ → ℕ → Bool

namespace UnpackHost

/-- A process with more than enough of both. -/
def ample : UnpackHost := ⟨none, fun _ _ => true⟩

/-- What is left inside one more call of `unpack_table`. -/
def call (host : UnpackHost) : Option UnpackHost :=
  match host.frames with
  | none => some host
  | some 0 => none
  | some (n + 1) => some { host with frames := some n }

end UnpackHost

def rballInit (buffer : Bytes) (size : ℤ) : ReadBlock where
  buffer := buffer
  len := size
  ptr := 0
  reads := []

/-- `rb_read`: the bytes of the range, or nothing.
SRC: lua-seri.c:118-128 -/
def rbRead (sz : ℤ) : Unpack (Option Bytes) := fun rb =>
  if rb.len < sz then .ok none rb
  else .ok (some ((rb.buffer.drop rb.ptr.toNat).take sz.toNat))
    { rb with ptr := rb.ptr + sz, len := rb.len - sz, reads := rb.reads ++ [⟨rb.ptr, sz⟩] }

/-- `invalid_stream` at a line. -/
def invalidStream {α : Type} (line : ℕ) : Unpack α := do
  let rb ← get
  throw (.invalidStream rb.len line)

/-- `rb_read`, followed by `invalid_stream` where there is nothing to read. -/
def rbReadOr (sz : ℤ) (line : ℕ) : Unpack Bytes := do
  match ← rbRead sz with
  | none => invalidStream line
  | some bytes => return bytes

/-- `luaL_checkstack(L, LUA_MINSTACK, NULL)`. -/
def checkStack (top : ℕ) : Unpack Unit :=
  if stackRoom top then return () else throw .stackOverflow

/-- The frame of `unpack_table` and of what it calls, needed at the latest where the Lua stack
is checked. -/
def enterTable (host : UnpackHost) : Unpack UnpackHost :=
  match host.call with
  | none => throw .cStack
  | some inner => return inner

/-- `lua_createtable` with a size from the stream.
SRC: 3rd/lua/lapi.c lua_createtable -/
def createTable (host : UnpackHost) (arraySize : ℤ) : Unpack Unit := do
  let rb ← get
  if host.memory rb.len.toNat arraySize.toNat then return () else throw .notEnoughMemory

/-- `get_integer`.
SRC: lua-seri.c:359-400 -/
def getInteger (cookie : ℕ) : Unpack (BitVec 64) :=
  match cookie with
  | typeNumberZero => return 0
  | typeNumberByte => do
    let n ← rbReadOr 1 368
    return BitVec.ofNat 64 (leNat n)
  | typeNumberWord => do
    let n ← rbReadOr 2 376
    return BitVec.ofNat 64 (leNat n)
  | typeNumberDword => do
    let n ← rbReadOr 4 384
    return BitVec.ofInt 64 (toInt32 (leNat n))
  | typeNumberQword => do
    let n ← rbReadOr 8 392
    return BitVec.ofNat 64 (leNat n)
  | _ => invalidStream 397

def getReal : Unpack (BitVec 64) := do
  let n ← rbReadOr 8 407
  return BitVec.ofNat 64 (leNat n)

def getPointer : Unpack (BitVec 64) := do
  let v ← rbReadOr 8 417
  return BitVec.ofNat 64 (leNat v)

/-- `get_buffer`: `lua_pushlstring` takes the length as a `size_t`, so a negative one is
too big.
SRC: lua-seri.c:423-430, 3rd/lua/lstring.c luaS_newlstr -/
def getBuffer (len : ℤ) : Unpack Bytes := do
  let p ← rbReadOr len 427
  if len < 0 then throw .blockTooBig else return p

/-- `lua_rawset`: a float that is an integer becomes one, and NaN is refused.
SRC: 3rd/lua/ltable.c luaH_newkey -/
def rawset (t : LuaEntries Unit) (k v : LuaValue Unit) : Unpack (LuaEntries Unit) :=
  match k with
  | .scalar (.real d) =>
    match toInteger d with
    | some n => return assign t (.scalar (.integer n)) v
    | none => if isNaN d then throw .indexNaN else return assign t k v
  | k => return assign t k v

/-- `array_size` of a table to be unpacked.
SRC: lua-seri.c:436-448 -/
def unpackArraySize (cookie : ℕ) : Unpack ℤ := do
  if cookie = maxCookie - 1 then
    let t ← rbReadOr 1 440
    let type := leNat t
    if type &&& 7 ≠ typeNumber ∨ type >>> 3 = typeNumberReal then invalidStream 445
    else
      let n ← getInteger (type >>> 3)
      return toInt32 n.toInt
  else return cookie

/-- `push_value`, given what unpacks a table.
SRC: lua-seri.c:467-521 -/
def pushValue (unpackTable : ℕ → Unpack (LuaValue Unit)) (type cookie : ℕ) :
    Unpack (LuaValue Unit) :=
  match type with
  | typeNil => return .scalar .nil
  | typeBoolean => return .scalar (.boolean (cookie ≠ 0))
  | typeNumber => do
    if cookie = typeNumberReal then
      let n ← getReal
      return .scalar (.real n)
    else
      let n ← getInteger cookie
      return .scalar (.integer n)
  | typeUserdata => do
    let p ← getPointer
    return .scalar (.lightuserdata p)
  | typeShortString => do
    let s ← getBuffer cookie
    return .scalar (.string s)
  | typeLongString => do
    if cookie = 2 then
      let n ← rbReadOr 2 493
      let s ← getBuffer (leNat n)
      return .scalar (.string s)
    else if cookie ≠ 4 then invalidStream 500
    else
      let n ← rbReadOr 4 504
      -- `uint32_t n` becomes the `int len` of `get_buffer`
      let s ← getBuffer (toInt32 (leNat n))
      return .scalar (.string s)
  | typeTable => unpackTable cookie
  | _ => invalidStream 517

mutual

/-- `unpack_one`, with `top` slots of the stack in use.
SRC: lua-seri.c:523-532 -/
def unpackOne : ℕ → UnpackHost → ℕ → Unpack (LuaValue Unit)
  | 0, _, _ => throw .outOfFuel
  | fuel + 1, host, top => do
    let t ← rbReadOr 1 528
    pushValue (unpackTable fuel host top) (leNat t &&& 7) (leNat t >>> 3)

/-- `unpack_table`.
SRC: lua-seri.c:434-465 -/
def unpackTable : ℕ → UnpackHost → ℕ → ℕ → Unpack (LuaValue Unit)
  | 0, _, _, _ => throw .outOfFuel
  | fuel + 1, host, top, cookie => do
    let arraySize ← unpackArraySize cookie
    let inner ← enterTable host
    checkStack top
    createTable host arraySize
    let t ← unpackArray fuel inner (top + 1) 1 arraySize []
    let t ← unpackHash fuel inner (top + 1) t
    return .table () t

/-- The loop of `unpack_table` over the array part. -/
def unpackArray : ℕ → UnpackHost → ℕ → ℤ → ℤ → LuaEntries Unit → Unpack (LuaEntries Unit)
  | 0, _, _, _, _, _ => throw .outOfFuel
  | fuel + 1, host, top, i, arraySize, t => do
    if i ≤ arraySize then
      let v ← unpackOne fuel host top
      unpackArray fuel host top (i + 1) arraySize (rawseti t i v)
    else return t

/-- The loop of `unpack_table` over the other entries. -/
def unpackHash : ℕ → UnpackHost → ℕ → LuaEntries Unit → Unpack (LuaEntries Unit)
  | 0, _, _, _ => throw .outOfFuel
  | fuel + 1, host, top, t => do
    let k ← unpackOne fuel host top
    if k.isNil then return t
    else
      let v ← unpackOne fuel host (top + 1)
      let t ← rawset t k v
      unpackHash fuel host top t

end

/-- The loop of `luaseri_unpack`: `i` values lie on the stack above `top` slots.
SRC: lua-seri.c:581-593 -/
def unpackLoop :
    ℕ → UnpackHost → ℕ → ℕ → List (LuaValue Unit) → Unpack (List (LuaValue Unit))
  | 0, _, _, _, _ => throw .outOfFuel
  | fuel + 1, host, top, i, vs => do
    if i % 8 = 7 then checkStack (top + i)
    match ← rbRead 1 with
    | none => return vs
    | some t =>
      let v ← pushValue (unpackTable fuel host (top + i)) (leNat t &&& 7) (leNat t >>> 3)
      unpackLoop fuel host top (i + 1) (vs ++ [v])

/-- The argument of `luaseri_unpack`: none, a string or a buffer with its length, or a null
pointer with a length. -/
inductive UnpackArgument where
  | noneOrNil
  | buffer (bytes : Bytes)
  | null (len : ℤ)

/-- Steps enough for a buffer of `len` bytes. -/
def unpackFuel (len : ℤ) : ℕ := 3 * len.toNat + 2

/-- `luaseri_unpack`, with `top` slots of the stack in use after `lua_settop(L, 1)`.
SRC: lua-seri.c:555-597 -/
def luaseriUnpackOn (host : UnpackHost) (top : ℕ) :
    UnpackArgument → EStateM.Result UnpackError ReadBlock (List (LuaValue Unit))
  | .noneOrNil => .ok [] (rballInit [] 0)
  | .buffer bytes =>
    let len := toInt32 bytes.length
    if len = 0 then .ok [] (rballInit bytes 0)
    else unpackLoop (unpackFuel len) host top 0 [] (rballInit bytes len)
  | .null len =>
    if len = 0 then .ok [] (rballInit [] 0) else .error .nullPointer (rballInit [] len)

/-- `luaseri_unpack` where the C stack and the memory are large enough. -/
def luaseriUnpack (top : ℕ) :
    UnpackArgument → EStateM.Result UnpackError ReadBlock (List (LuaValue Unit)) :=
  luaseriUnpackOn .ample top

end Skynet.Model
