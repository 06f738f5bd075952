import Skynet.Model.LuaSeri
import Skynet.Model.SprotoSchema

/-!
# Decoding of sproto

`lualib-src/sproto/sproto.c`: `sproto_decode` reads the fields of a struct and hands each
one that the type knows to a callback.  The data is what lies at each offset, also behind
its end, and the log tells which bytes are read and what the callback is given.  The
callback answers as it likes, by all that it was given so far.

`lualib-src/sproto/lsproto.c`: `decode`, the callback that `Sproto.ldecode` gives to
`sproto_decode`, which writes what it is given into a table of Lua, and the elements of an
array that is a map into another one.  A table is its assignments, in order.

A call that does not return 0, or raises an error, ends the whole decoding with an error,
so `sproto_decode` is followed here as if each call returned 0.
-/

namespace Skynet.Model

open Library

/-- The `value` of `struct sproto_arg`: `NULL`, a pointer into the data, or a pointer to a
local variable of 64 bits. -/
inductive SprotoValue
  | null
  | data (offset : ℕ)
  | word (v : BitVec 64)
  deriving DecidableEq, Repr

/-- `struct sproto_arg`, as a callback of `sproto_decode` is given it. -/
structure SprotoArg where
  tagname : Bytes
  tagid : ℤ
  type : ℕ
  subtype : Option ℕ
  value : SprotoValue
  length : ℤ
  index : ℤ
  mainindex : ℤ
  extra : ℤ
  ktagname : Option Bytes
  vtagname : Option Bytes
  deriving DecidableEq, Repr

/-- How a part of `sproto_decode` stops: it returns `-1`, or it reads a name through `NULL`
or behind the fields of a type. -/
inductive DecodeStop
  | failed
  | noSuchName
  deriving DecidableEq, Repr

/-- A part of `sproto_decode`. -/
abbrev Decode (α : Type) : Type := Accessing DecodeStop SprotoArg α

/-- What a callback returns, by its calls up to this one. -/
abbrev SprotoCallback : Type := List SprotoArg → ℤ

/-- `cb(args)`. -/
def callback (cb : SprotoCallback) (args : SprotoArg) : Decode ℤ := do
  let calls ← noteCall args
  return cb calls

/-- `expand64`.  SRC: sproto.c:1082-1089 -/
def expand64 (v : ℕ) : BitVec 64 :=
  let value := BitVec.ofNat 64 v
  if value &&& 0x80000000 ≠ 0 then value ||| (BitVec.allOnes 64 <<< 32) else value

section

variable (cb : SprotoCallback) (mem : ℕ → UInt8)

/-- `decode_array_object`; `index` counts from 1.  SRC: sproto.c:1058-1080 -/
def decodeArrayObject (args : SprotoArg) (stream : ℕ) (sz : ℤ) (index : ℤ) : Decode Unit :=
  if sz > 0 then
    if sz < sizeofLength then throw .failed
    else do
      let hsz ← todword mem stream
      let stream := stream + sizeofLength
      if hsz > sz - sizeofLength then throw .failed
      else do
        let r ← callback cb
          { args with index := index, value := .data stream, length := toInt32 hsz }
        if r ≠ 0 then throw .failed
        else decodeArrayObject args (stream + hsz) (sz - sizeofLength - hsz) (index + 1)
  else return ()
termination_by sz.toNat
decreasing_by
  simp only [sizeofLength] at *
  omega

/-- The loop of `decode_array` over the elements of an array of 32-bit integers. -/
def decodeInt32s (args : SprotoArg) (stream i : ℕ) : ℕ → Decode Unit
  | 0 => return ()
  | n + 1 => do
    let v ← todword mem (stream + i * sizeofInt32)
    let _ ← callback cb { args with index := i + 1, value := .word (expand64 v), length := 8 }
    decodeInt32s args stream (i + 1) n

/-- The loop of `decode_array` over the elements of an array of 64-bit integers. -/
def decodeInt64s (args : SprotoArg) (stream i : ℕ) : ℕ → Decode Unit
  | 0 => return ()
  | n + 1 => do
    let low ← todword mem (stream + i * sizeofInt64)
    let hi ← todword mem (stream + i * sizeofInt64 + sizeofInt32)
    let value := BitVec.ofNat 64 low ||| BitVec.ofNat 64 hi <<< 32
    let _ ← callback cb { args with index := i + 1, value := .word value, length := 8 }
    decodeInt64s args stream (i + 1) n

/-- The loop of `decode_array` over the elements of an array of booleans. -/
def decodeBooleans (args : SprotoArg) (stream i : ℕ) : ℕ → Decode Unit
  | 0 => return ()
  | n + 1 => do
    let v ← readByte mem (stream + i)
    let value := BitVec.ofNat 64 v.toNat
    let _ ← callback cb { args with index := i + 1, value := .word value, length := 8 }
    decodeBooleans args stream (i + 1) n

/-- `decode_array`.  SRC: sproto.c:1091-1154 -/
def decodeArray (args : SprotoArg) (stream : ℕ) : Decode Unit := do
  let sz ← todword mem stream
  if sz = 0 then
    let _ ← callback cb { args with index := -1, value := .null, length := 0 }
    return ()
  else
    let stream := stream + sizeofLength
    if args.type = sprotoTDouble ∨ args.type = sprotoTInteger then
      let len ← readByte mem stream
      let stream := stream + 1
      let sz := sz - 1
      if len.toNat = sizeofInt32 then
        if sz % sizeofInt32 ≠ 0 then throw .failed
        else decodeInt32s cb mem args stream 0 (sz / sizeofInt32)
      else if len.toNat = sizeofInt64 then
        if sz % sizeofInt64 ≠ 0 then throw .failed
        else decodeInt64s cb mem args stream 0 (sz / sizeofInt64)
      else throw .failed
    else if args.type = sprotoTBoolean then
      decodeBooleans cb mem args stream 0 sz
    else if args.type = sprotoTString ∨ args.type = sprotoTStruct then
      decodeArrayObject cb mem args stream (toInt32 sz) 1
    else throw .failed

/-- The data part of a field that is no array.  SRC: sproto.c:1223-1253 -/
def decodeObject (args : SprotoArg) (currentdata : ℕ) : Decode Unit :=
  if args.type = sprotoTDouble ∨ args.type = sprotoTInteger then do
    let sz ← todword mem currentdata
    if sz = sizeofInt32 then
      let v ← todword mem (currentdata + sizeofLength)
      let _ ← callback cb { args with value := .word (expand64 v), length := 8 }
      return ()
    else if sz ≠ sizeofInt64 then throw .failed
    else
      let low ← todword mem (currentdata + sizeofLength)
      let hi ← todword mem (currentdata + sizeofLength + sizeofInt32)
      let v := BitVec.ofNat 64 low ||| BitVec.ofNat 64 hi <<< 32
      let _ ← callback cb { args with value := .word v, length := 8 }
      return ()
  else if args.type = sprotoTString ∨ args.type = sprotoTStruct then do
    let sz ← todword mem currentdata
    let r ← callback cb
      { args with value := .data (currentdata + sizeofLength), length := toInt32 sz }
    if r ≠ 0 then throw .failed else return ()
  else throw .failed

/-- `f->st->f[i].name`. -/
def fieldName (types : List SprotoType) (f : SprotoField) (i : ℕ) : Decode Bytes :=
  match (f.st.bind (types[·]?)).bind (·.f[i]?) with
  | none => throw .noSuchName
  | some f => return f.name

/-- The names of a pair, where the array is a map.  SRC: sproto.c:1215-1218 -/
def withNames (types : List SprotoType) (f : SprotoField) (args : SprotoArg) : Decode SprotoArg :=
  if f.map > 0 then do
    let ktagname ← fieldName types f 0
    let vtagname ← fieldName types f 1
    return { args with ktagname := some ktagname, vtagname := some vtagname }
  else return args

/-- A field of the type: its value is in the header, or, where it is negative, in the
data part.  SRC: sproto.c:1204-1264 -/
def decodeField (types : List SprotoType) (f : SprotoField) (value : ℤ) (currentdata : ℕ) :
    Decode Unit :=
  let args : SprotoArg :=
    { tagname := f.name, tagid := f.tag, type := f.type, subtype := f.st
      value := .null, length := 0, index := 0, mainindex := f.key, extra := f.extra
      ktagname := none, vtagname := none }
  if value < 0 then
    if f.isArray then do
      let args ← withNames types f { args with type := f.type ^^^ sprotoTArray }
      decodeArray cb mem args currentdata
    else decodeObject cb mem args currentdata
  else if f.type ≠ sprotoTInteger ∧ f.type ≠ sprotoTBoolean then throw .failed
  else do
    let _ ← callback cb { args with value := .word (BitVec.ofInt 64 value), length := 8 }
    return ()

/-- The locals of the loop of `sproto_decode`. -/
structure DecodeState where
  tag : ℤ
  datastream : ℕ
  size : ℤ

/-- The data part of a record that has one is left behind.  The sum is one of `uint32_t`. -/
def skipData (value : ℤ) (s : DecodeState) : Decode DecodeState :=
  if value < 0 then
    if s.size < sizeofLength then throw .failed
    else do
      let sz ← todword mem s.datastream
      let sum : ℕ := (sz + sizeofLength) % 2 ^ 32
      if s.size < sum then throw .failed
      else return { s with datastream := s.datastream + sum, size := s.size - sum }
  else return s

/-- A round of the loop of `sproto_decode`, with the record at an offset.
SRC: sproto.c:1179-1265 -/
def decodeRecord (types : List SprotoType) (st : SprotoType) (record : ℕ) (s : DecodeState) :
    Decode DecodeState := do
  let value ← toword mem record
  let tag := s.tag + 1
  if value &&& 1 ≠ 0 then return { s with tag := tag + value / 2 }
  else
    let value : ℤ := (value / 2 : ℕ) - 1
    let s' ← skipData mem value s
    match findtag st tag with
    | none => return { s' with tag := tag }
    | some f =>
      decodeField cb mem types f value s.datastream
      return { s' with tag := tag }

/-- The loop of `sproto_decode` from record `i` on, so many records. -/
def decodeLoop (types : List SprotoType) (st : SprotoType) (i : ℕ) :
    ℕ → DecodeState → Decode DecodeState
  | 0, s => return s
  | n + 1, s => do
    let s ← decodeRecord cb mem types st (sizeofHeader + i * sizeofField) s
    decodeLoop types st (i + 1) n s

/-- `sproto_decode` of `size` bytes, until it returns `-1` or the number of bytes that it
has used.  SRC: sproto.c:1156-1268 -/
def decodeBody (types : List SprotoType) (st : SprotoType) (size : ℤ) : Decode ℤ := do
  if size < sizeofHeader then throw .failed
  else
    let fn ← toword mem 0
    let rest := size - sizeofHeader
    if rest < fn * sizeofField then throw .failed
    else
      let s ← decodeLoop cb mem types st 0 fn
        ⟨-1, sizeofHeader + fn * sizeofField, rest - fn * sizeofField⟩
      return size - s.size

/-- `sproto_decode`: its result, if it comes to one, and what it did. -/
def sprotoDecode (types : List SprotoType) (st : SprotoType) (size : ℤ) :
    Option ℤ × AccessLog SprotoArg :=
  match decodeBody cb mem types st size AccessLog.empty with
  | .ok r log => (some r, log)
  | .error .failed log => (some (-1), log)
  | .error .noSuchName log => (none, log)

end

/-- A Lua value; `number` is an integer divided by `args->extra`. -/
inductive SprotoData
  | integer (v : BitVec 64)
  | number (v : BitVec 64) (extra : ℤ)
  | double (v : BitVec 64)
  | boolean (b : Bool)
  | string (s : Bytes)
  | table (t : List (SprotoData × SprotoData))

/-- The assignments to a table. -/
abbrev Assignments : Type := List (SprotoData × SprotoData)

def SprotoData.isName (name : Bytes) : SprotoData → Bool
  | .string s => s = name
  | _ => false

/-- `lua_getfield`: the last assignment counts. -/
def getfield (t : Assignments) (name : Bytes) : Option SprotoData :=
  (t.reverse.find? fun kv => kv.1.isName name).map Prod.snd

/-- A key that `lua_settable` refuses. -/
def SprotoData.isNaN : SprotoData → Bool
  | .double v => (v >>> 52) &&& 0x7ff = 0x7ff && v &&& 0xfffffffffffff ≠ 0
  | _ => false

inductive DecodeError
  | tooDeep
  | invalidType
  | noKeyField (tagname : Bytes)
  | noValueField (tagname : Bytes)
  | noMainIndex (tag : ℤ) (tagname : Bytes)
  | indexIsNaN
  | decodeError
  /-- A map without a main index or of a type without two fields, or a main index of no
  array: `sprotoparser.lua` makes no such field. -/
  | noSuchField
  deriving DecidableEq

/-- What changes of `struct decode_ud`, with the tables it has on the stack.  The array at
`array_index` is one of the assignments to the result.  A pointer to the name of a field
is the field. -/
structure DecodeUd where
  result : Assignments
  array : Option ℕ
  arrayTag : Option (ℤ × Bytes)
  key : Option SprotoData
  mapEntry : Option Assignments

/-- `sub`, before the fields of a struct. -/
def DecodeUd.new (result : Assignments) : DecodeUd := ⟨result, none, none, none, none⟩

/-- An assignment to the array.  `lua_settable(L, self->array_index)` -/
def DecodeUd.settable (self : DecodeUd) (k v : SprotoData) : Except DecodeError DecodeUd :=
  match self.array with
  | none => throw .noSuchField
  | some i =>
    if k.isNaN then throw .indexIsNaN
    else
      let put : SprotoData → SprotoData
        | .table t => .table (t ++ [(k, v)])
        | d => d
      return { self with result := self.result.modify i (Prod.map id put) }

/-- The first element of an array makes its table.  SRC: lsproto.c:468-484 -/
def DecodeUd.enterArray (self : DecodeUd) (args : SprotoArg) : DecodeUd :=
  if args.index ≠ 0 ∧ self.arrayTag ≠ some (args.tagid, args.tagname) then
    { self with
      result := self.result ++ [(.string args.tagname, .table [])]
      array := some self.result.length
      arrayTag := some (args.tagid, args.tagname) }
  else self

/-- The end of `decode`.  SRC: lsproto.c:581-593 -/
def DecodeUd.save (mainindexTag : ℤ) (self : DecodeUd) (args : SprotoArg) (v : SprotoData) :
    Except DecodeError DecodeUd :=
  if args.index > 0 then self.settable (.integer (BitVec.ofInt 64 args.index)) v
  else return { self with
    key := if mainindexTag = args.tagid then some v else self.key
    result := self.result ++ [(.string args.tagname, v)] }

/-- The decoding of a struct into a table, with its main index. -/
abbrev SubDecode : Type := SprotoArg → ℤ → Assignments → Except DecodeError DecodeUd

/-- A pair of the table that the elements share: its key field and its value field.
SRC: lsproto.c:546-553 -/
def pairOf (args : SprotoArg) (ktagname : Bytes) (t : Assignments) :
    Except DecodeError (SprotoData × SprotoData) :=
  match getfield t ktagname with
  | none => throw (.noKeyField args.tagname)
  | some k =>
    match args.vtagname.bind (getfield t) with
    | none => throw (.noValueField args.tagname)
    | some v => return (k, v)

/-- The value that `decode` pushes, unless it is an element of a map.
SRC: lsproto.c:485-519, 566-579 -/
def pushedValue (mem : ℕ → UInt8) (sub : SubDecode) (args : SprotoArg) :
    Except DecodeError SprotoData :=
  match args.type, args.value with
  | sprotoTInteger, .word v =>
    return if args.extra ≠ 0 then .number v args.extra else .integer v
  | sprotoTDouble, .word v => return .double v
  | sprotoTBoolean, .word v => return .boolean (v.setWidth 32 ≠ 0)
  | sprotoTString, .data off => return .string (load mem off args.length.toNat)
  | sprotoTStruct, _ =>
    if args.ktagname.isSome then throw .noSuchField
    else do
      let s ← sub args (-1) []
      return .table s.result
  | _, _ => throw .invalidType

/-- A struct that is set into a map: all pairs are decoded into one table.
SRC: lsproto.c:520-565 -/
def setIntoMap (sub : SubDecode) (self : DecodeUd) (args : SprotoArg) :
    Except DecodeError DecodeUd :=
  if args.index = 0 then throw .noSuchField
  else
    match args.ktagname with
    | some ktagname => do
      let s ← sub args args.mainindex (self.mapEntry.getD [])
      let kv ← pairOf args ktagname s.result
      { self with mapEntry := some s.result }.settable kv.1 kv.2
    | none => do
      let s ← sub args args.mainindex []
      match s.key with
      | none => throw (.noMainIndex args.mainindex args.tagname)
      | some k => self.settable k (.table s.result)

/-- `decode`.  SRC: lsproto.c:461-594 -/
def decodeCall (mem : ℕ → UInt8) (sub : SubDecode) (mainindexTag : ℤ) (self : DecodeUd)
    (args : SprotoArg) : Except DecodeError DecodeUd :=
  let self := self.enterArray args
  if args.index < 0 then return self
  else if args.type = sprotoTStruct ∧ args.mainindex ≥ 0 then setIntoMap sub self args
  else do
    let v ← pushedValue mem sub args
    self.save mainindexTag args v

/-- What `sproto_decode` of a struct gives to its callback. -/
def fieldCalls (types : List SprotoType) (mem : ℕ → UInt8) (st : SprotoType) (size : ℤ) :
    List SprotoArg :=
  (sprotoDecode (fun _ => 0) mem types st size).2.calls

def bytesFrom (mem : ℕ → UInt8) : SprotoValue → ℕ → UInt8
  | .data off => fun i => mem (off + i)
  | _ => mem

/-- The decoding of a struct of `size` bytes into a table, where a field of it is the main
index: the bytes used, and the table. -/
abbrev StructDecode : Type :=
  (ℕ → UInt8) → SprotoType → ℤ → ℤ → Assignments → Except DecodeError (ℤ × DecodeUd)

/-- `sproto_decode` of a struct that is the value of a field.  SRC: lsproto.c:540-545 -/
def decodeSub (types : List SprotoType) (decode : StructDecode) (mem : ℕ → UInt8) : SubDecode :=
  fun args mainindexTag result =>
    match args.subtype.bind (types[·]?) with
    | none => throw .decodeError
    | some st => do
      let (r, s) ← decode (bytesFrom mem args.value) st args.length mainindexTag result
      if r ≠ args.length then throw .decodeError else return s

/-- `sproto_decode` with a callback. -/
def decodeWith (types : List SprotoType) (cb : DecodeUd → SprotoArg → Except DecodeError DecodeUd)
    (mem : ℕ → UInt8) (st : SprotoType) (size : ℤ) (result : Assignments) :
    Except DecodeError (ℤ × DecodeUd) := do
  let self ← (fieldCalls types mem st size).foldlM cb (DecodeUd.new result)
  match (sprotoDecode (fun _ => 0) mem types st size).1 with
  | none => throw .noSuchField
  | some r => if r < 0 then throw .decodeError else return (r, self)

/-- `sproto_decode` with `decode`, where so many levels are left until `ENCODE_DEEPLEVEL`. -/
def decodeStruct (types : List SprotoType) : ℕ → StructDecode
  | 0 => fun mem st size _ result => decodeWith types (fun _ _ => throw .tooDeep) mem st size result
  | levels + 1 => fun mem st size mainindexTag result =>
    decodeWith types (decodeCall mem (decodeSub types (decodeStruct types levels) mem) mainindexTag)
      mem st size result

abbrev encodeDeepLevel : ℕ := 64

/-- `Sproto.ldecode`: the table that it returns and the bytes used.  SRC: lsproto.c:619-649 -/
def Sproto.ldecode (types : List SprotoType) (st : SprotoType) (mem : ℕ → UInt8) (sz : ℕ)
    (result : Assignments) : Except DecodeError (Assignments × ℤ) := do
  let (r, self) ← decodeStruct types encodeDeepLevel mem st (toInt32 sz) (-1) result
  return (self.result, r)

end Skynet.Model
