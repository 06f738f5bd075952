import Skynet.Model.LuaSeri

/-!
# Shared tables

`lualib-src/lua-sharedata.c`: `lnewconf` copies a Lua table to C tables with an array part
and a hash part, and `lindexconf` and `lnextkey` read them.  The strings are numbered in a
side list, the Lua state that belongs to the C tables.

A hash slot that was never filled is not initialized.  Memory does not run out, except for
an array part with a negative size; how many C calls may still be nested is counted.
-/

namespace Skynet.Model

open Library List

/-! ## Data -/

/-- The errors of `lnewconf`: "Invalid key %f", "Invalid key type %s", "Unsupport value type
%s", "memory error", "stack overflow" of the C stack or of the Lua stack, a bad argument, and
a failed `assert`. -/
inductive ConfError
  | invalidKey
  | invalidKeyType (typename : String)
  | unsupportValueType (typename : String)
  | memoryError
  | stackOverflow
  | badArgument
  | assertion
  deriving DecidableEq, Repr

inductive KeyType
  | integer
  | string
  deriving DecidableEq, Repr

/-- `struct node`: `key` is an integer key or the number of a string, and `next` is none for
a negative one. -/
structure ConfNode (ν : Type) where
  v : ν
  key : ℤ
  next : Option ℕ
  keyhash : UInt32
  keytype : KeyType
  nocolliding : Bool

/-- `union value` with its type.  A `struct table` has its array part and its hash part;
a slot is none while its `valuetype` is `VALUETYPE_NIL`. -/
inductive ConfValue
  | nil
  | real (n : BitVec 64)
  | string (index : ℤ)
  | boolean (b : Bool)
  | table (array : List ConfValue) (hash : List (Option (ConfNode ConfValue)))
  | integer (d : BitVec 64)

/-- `VALUETYPE_NIL`. -/
def ConfValue.isNil : ConfValue → Bool
  | .nil => true
  | _ => false

/-- `struct table`. -/
structure ConfTable where
  array : List ConfValue
  hash : List (Option (ConfNode ConfValue))

def ConfTable.value (tbl : ConfTable) : ConfValue := .table tbl.array tbl.hash

/-! ## Conversion -/

/-- What converts has the strings with a number, in the order of the numbers from 2 on. -/
abbrev Conv : Type → Type := StateT (List Bytes) (Except ConfError)

/-- `lua_typename` of a value that is no integer and no string. -/
def typename : LuaValue ℕ → String
  | .scalar .nil => "nil"
  | .scalar (.boolean _) => "boolean"
  | .scalar (.integer _) => "number"
  | .scalar (.real _) => "number"
  | .scalar (.lightuserdata _) => "userdata"
  | .scalar (.string _) => "string"
  | .table _ _ => "table"
  | .other t => t

/-- The step of `countsize`.
SRC: lua-sharedata.c:72-85 -/
def countKey (sizearray : ℤ) (n : ℕ) : LuaValue ℕ → Except ConfError ℕ
  | .scalar (.integer nkey) =>
    .ok (if 0 < nkey.toInt ∧ nkey.toInt ≤ sizearray then n else n + 1)
  | .scalar (.real _) => .error .invalidKey
  | .scalar (.string _) | .table _ _ => .ok (n + 1)
  | k => .error (.invalidKeyType (typename k))

/-- `countsize`.
SRC: lua-sharedata.c:67-89 -/
def countsize (es : LuaEntries ℕ) (sizearray : ℤ) : Except ConfError ℕ :=
  es.foldlM (fun n e => countKey sizearray n e.1) 0

/-- `calchash`; the loop runs while `l1 = l - i * step` is at least `step`.
SRC: lua-sharedata.c:91-100 -/
def calchash (str : Bytes) : UInt32 :=
  let l := str.length
  let step := l / 32 + 1
  (range (l / step)).foldl (fun h i =>
    h ^^^ ((h <<< 5) + (h >>> 2) + (str.getD (l - i * step - 1) 0).toUInt32)) (UInt32.ofNat l)

/-- `stringindex`.
SRC: lua-sharedata.c:102-121 -/
def stringindex (str : Bytes) : Conv ℤ := do
  let strs ← get
  match strs.idxOf? str with
  | some i => return (i + 2 : ℕ)
  | none =>
    set (strs ++ [str])
    return (strs.length + 2 : ℕ)

/-- `setvalue`, given what converts a table.
SRC: lua-sharedata.c:125-174 -/
def setvalue (convtable : ℕ → LuaEntries ℕ → Conv ConfTable) : LuaValue ℕ → Conv ConfValue
  | .scalar .nil => return .nil
  | .scalar (.integer d) => return .integer d
  | .scalar (.real n) => return .real n
  | .scalar (.string s) => do
    let i ← stringindex s
    return .string i
  | .scalar (.boolean b) => return .boolean b
  | .table border es => do
    let tbl ← convtable border es
    return tbl.value
  | v => throw (.unsupportValueType (typename v))

/-- `setarray`.
SRC: lua-sharedata.c:182-189 -/
def setarray (convtable : ℕ → LuaEntries ℕ → Conv ConfTable) (tbl : ConfTable)
    (v : LuaValue ℕ) (key : ℤ) : Conv ConfTable := do
  let n ← setvalue convtable v
  return { tbl with array := tbl.array.set (key - 1).toNat n }

/-- What `ishashkey` says of a key. -/
inductive KeyPlace
  | array (key : ℤ)
  | hash (key : ℤ) (keyhash : UInt32) (keytype : KeyType)
  deriving DecidableEq, Repr

/-- `ishashkey`.  An integer is narrowed to an `int`; of what is neither a number nor a
string, `lua_tolstring` gives NULL and the size 0, which is numbered as the empty string.
SRC: lua-sharedata.c:192-210 -/
def ishashkey (sizearray : ℤ) : LuaValue ℕ → Conv KeyPlace
  | .scalar (.integer n) =>
    let key := toInt32 n.toInt
    if 0 < key ∧ key ≤ sizearray then return .array key
    else return .hash key (UInt32.ofInt key) .integer
  | .scalar (.string s) => do
    let key ← stringindex s
    return .hash key (calchash s) .string
  | _ => do
    let key ← stringindex []
    return .hash key (calchash []) .string

def mainSlot (keyhash : UInt32) (sizehash : ℕ) : ℕ := keyhash.toNat % sizehash

def ConfTable.node (tbl : ConfTable) (i : ℕ) : Option (ConfNode ConfValue) := (tbl.hash[i]?).join

def ConfTable.setNode (tbl : ConfTable) (i : ℕ) (n : ConfNode ConfValue) : ConfTable :=
  { tbl with hash := tbl.hash.set i (some n) }

/-- `fillnocolliding`.
SRC: lua-sharedata.c:213-235 -/
def fillnocolliding (convtable : ℕ → LuaEntries ℕ → Conv ConfTable) (es : LuaEntries ℕ)
    (tbl : ConfTable) : Conv ConfTable :=
  es.foldlM (fun tbl e => do
    match ← ishashkey tbl.array.length e.1 with
    | .array key => setarray convtable tbl e.2 key
    | .hash key keyhash keytype =>
      match tbl.node (mainSlot keyhash tbl.hash.length) with
      | some _ => return tbl
      | none =>
        let v ← setvalue convtable e.2
        return tbl.setNode (mainSlot keyhash tbl.hash.length)
          ⟨v, key, none, keyhash, keytype, true⟩) tbl

/-- The first free slot from `i` on. -/
def ConfTable.freeSlot (tbl : ConfTable) (i : ℕ) : Option ℕ :=
  (range' i (tbl.hash.length - i)).find? fun i => (tbl.node i).isNone

/-- The step of `fillcolliding`, with `emptyslot`.  The node in the main position was put
there by `fillnocolliding`. -/
def collide (convtable : ℕ → LuaEntries ℕ → Conv ConfTable) (tbl : ConfTable) (emptyslot : ℕ)
    (v : LuaValue ℕ) (key : ℤ) (keyhash : UInt32) (keytype : KeyType) :
    Conv (ConfTable × ℕ) :=
  match tbl.node (mainSlot keyhash tbl.hash.length) with
  | none => throw .assertion
  | some mainpos =>
    if mainpos.keytype = keytype ∧ mainpos.key = key then return (tbl, emptyslot)
    else
      match tbl.freeSlot emptyslot with
      | none => throw .assertion
      | some i => do
        let v ← setvalue convtable v
        let tbl := tbl.setNode (mainSlot keyhash tbl.hash.length)
          { mainpos with next := some i, nocolliding := false }
        return (tbl.setNode i ⟨v, key, mainpos.next, keyhash, keytype, false⟩, i + 1)

/-- `fillcolliding`.
SRC: lua-sharedata.c:238-273 -/
def fillcolliding (convtable : ℕ → LuaEntries ℕ → Conv ConfTable) (es : LuaEntries ℕ)
    (tbl : ConfTable) : Conv ConfTable := do
  let (tbl, _) ← es.foldlM (fun (tbl, emptyslot) e => do
    match ← ishashkey tbl.array.length e.1 with
    | .array _ => return (tbl, emptyslot)
    | .hash key keyhash keytype =>
      collide convtable tbl emptyslot e.2 key keyhash keytype) (tbl, 0)
  return tbl

/-- `convtable`, with the C calls that may still be nested.  A negative size is a huge
`size_t` for `malloc`.
SRC: lua-sharedata.c:278-326 -/
def convtable : ℕ → ℕ → LuaEntries ℕ → Conv ConfTable
  | 0, _, _ => throw .stackOverflow
  | calls + 1, border, es => do
    let sizearray := toInt32 border
    if sizearray < 0 then throw .memoryError
    let sizehash ← countsize es sizearray
    let tbl : ConfTable := ⟨replicate sizearray.toNat .nil, replicate sizehash none⟩
    if sizehash ≠ 0 then
      let tbl ← fillnocolliding (convtable calls) es tbl
      fillcolliding (convtable calls) es tbl
    else
      (range' 1 sizearray.toNat).foldlM
        (fun tbl (i : ℕ) => setarray (convtable calls) tbl (rawgeti es i) i) tbl

structure Conf where
  root : ConfTable
  strings : List Bytes

/-- `luaL_checkstack(L, ctx->string_index + 3, NULL)` in a new state, with three slots in
use. -/
def stringRoom (strs : List Bytes) : Bool :=
  3 + extraStack + (1 + strs.length + 3) ≤ luaiMaxStack

/-- `lnewconf`.
SRC: lua-sharedata.c:406-456 -/
def lnewconf (calls : ℕ) : LuaValue ℕ → Except ConfError Conf
  | .table border es =>
    match convtable calls border es [] with
    | .error e => .error e
    | .ok (tbl, strs) => if stringRoom strs then .ok ⟨tbl, strs⟩ else .error .stackOverflow
  | _ => .error .badArgument

/-! ## Reading -/

/-- The errors of the readers: "Invalid key %f" and a bad argument; the other two belong to
the model, a slot that is not initialized and a chain that does not end. -/
inductive ConfReadError
  | invalidKey
  | badArgument
  | uninitialized
  | endless
  deriving DecidableEq, Repr

/-- What `pushvalue` pushes: a scalar or the pointer to a table. -/
inductive ConfRead
  | scalar (v : Scalar)
  | table (tbl : ConfTable)

def stringAt (strs : List Bytes) (index : ℤ) : Bytes := strs.getD (index - 2).toNat []

/-- `pushvalue`.
SRC: lua-sharedata.c:468-501 -/
def pushvalue (strs : List Bytes) : ConfValue → ConfRead
  | .real n => .scalar (.real n)
  | .integer d => .scalar (.integer d)
  | .string index => .scalar (.string (stringAt strs index))
  | .boolean b => .scalar (.boolean b)
  | .table array hash => .table ⟨array, hash⟩
  | .nil => .scalar .nil

/-- The key that is looked up: a narrowed integer, or a string. -/
inductive LookupKey
  | integer (key : ℤ)
  | string (str : Bytes)
  deriving DecidableEq, Repr

def LookupKey.hash : LookupKey → UInt32
  | .integer key => UInt32.ofInt key
  | .string str => calchash str

/-- The test in the loop of `lookup_key`. -/
def ConfNode.found (strs : List Bytes) (n : ConfNode ConfValue) (k : LookupKey) : Bool :=
  k.hash = n.keyhash &&
    match n.keytype, k with
    | .integer, .integer key => n.key = key
    | .string, .string str => str = stringAt strs n.key
    | _, _ => false

/-- The loop of `lookup_key`. -/
def lookupLoop (c : Conf) (k : LookupKey) : ℕ → ℕ → Except ConfReadError (Option ℕ)
  | 0, _ => .error .endless
  | fuel + 1, i =>
    match c.root.node i with
    | none => .error .uninitialized
    | some n =>
      if n.found c.strings k then .ok (some i)
      else
        match n.next with
        | none => .ok none
        | some j => lookupLoop c k fuel j

/-- `lookup_key`: the slot of a key.
SRC: lua-sharedata.c:502-532 -/
def lookupKey (c : Conf) (k : LookupKey) : Except ConfReadError (Option ℕ) :=
  if c.root.hash.length = 0 then .ok none
  else
    let i := mainSlot k.hash c.root.hash.length
    match c.root.node i with
    | none => .error .uninitialized
    | some n =>
      if k.hash ≠ n.keyhash ∧ n.nocolliding then .ok none
      else lookupLoop c k c.root.hash.length i

/-- The value of the node that is found, nil where there is none. -/
def valueOfSlot (c : Conf) : Option ℕ → ConfRead
  | none => .scalar .nil
  | some i => pushvalue c.strings (((c.root.node i).map ConfNode.v).getD .nil)

/-- `lindexconf`.
SRC: lua-sharedata.c:534-566 -/
def lindexconf (c : Conf) : Scalar → Except ConfReadError ConfRead
  | .integer n =>
    let key := toInt32 n.toInt
    if 0 < key ∧ key ≤ c.root.array.length then
      .ok (pushvalue c.strings (c.root.array.getD (key - 1).toNat .nil))
    else (lookupKey c (.integer key)).map (valueOfSlot c)
  | .real _ => .error .invalidKey
  | .string str => (lookupKey c (.string str)).map (valueOfSlot c)
  | _ => .error .badArgument

def pushkey (strs : List Bytes) (n : ConfNode ConfValue) : Scalar :=
  match n.keytype with
  | .integer => .integer (BitVec.ofInt 64 n.key)
  | .string => .string (stringAt strs n.key)

/-- The key in a slot, none behind the last one. -/
def keyOfSlot (c : Conf) (i : ℕ) : Except ConfReadError (Option Scalar) :=
  if i < c.root.hash.length then
    match c.root.node i with
    | none => .error .uninitialized
    | some n => .ok (some (pushkey c.strings n))
  else .ok none

/-- The first index of the array part from `i` on, counted from 0, that has a value. -/
def arrayNext (c : Conf) (i : ℕ) : Option ℕ :=
  (range' i (c.root.array.length - i)).find? fun i => !(c.root.array.getD i .nil).isNil

/-- From the index `i` of the array part on, and from there to the hash part. -/
def nextFrom (c : Conf) (i : ℕ) : Except ConfReadError (Option Scalar) :=
  match arrayNext c i with
  | some j => .ok (some (.integer (BitVec.ofInt 64 (j + 1 : ℕ))))
  | none => keyOfSlot c 0

def nextOfKey (c : Conf) (k : LookupKey) : Except ConfReadError (Option Scalar) := do
  match ← lookupKey c k with
  | none => return none
  | some i => keyOfSlot c (i + 1)

/-- `lnextkey`.
SRC: lua-sharedata.c:591-647 -/
def lnextkey (c : Conf) : Scalar → Except ConfReadError (Option Scalar)
  | .nil => nextFrom c 0
  | .integer n =>
    let key := toInt32 n.toInt
    if 0 < key ∧ key ≤ c.root.array.length then nextFrom c key.toNat
    else nextOfKey c (.integer key)
  | .real _ => .ok none
  | .string str => nextOfKey c (.string str)
  | _ => .error .badArgument

end Skynet.Model
