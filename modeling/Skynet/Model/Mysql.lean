import Skynet.Model.LuaSeri

/-!
# Statements of the MySQL client

`lualib/skynet/db/mysql.lua`: the packet of `COM_STMT_EXECUTE` with the arguments of a statement.
A double is its 8 bytes.
-/

namespace Skynet.Model.Mysql

open Library

/-! ## Executing a statement -/

/-- What the answer to `COM_STMT_PREPARE` says of a statement: `prepare_id` comes in 4 bytes,
`param_count` in 2. -/
structure Statement where
  prepare_id : BitVec 32
  param_count : BitVec 16

abbrev comStmtExecute : UInt8 := 0x17
abbrev cursorTypeNoCursor : UInt8 := 0x00

/-- `args[k]` of the table `args = {...}`. -/
def argAt (args : List Scalar) (k : ℕ) : Scalar := args.getD (k - 1) .nil

/-- SRC: 3rd/lua/ltable.c, binsearch -/
def binsearch (args : List Scalar) (i j : ℕ) : ℕ :=
  if 1 < j - i then
    if argAt args ((i + j) / 2) = .nil then binsearch args i ((i + j) / 2)
    else binsearch args ((i + j) / 2) j
  else i
termination_by j - i

/-- `#args`: the array part of `{...}` has as many slots as there are arguments, and the hash part
has none.
SRC: 3rd/lua/ltable.c, luaH_getn -/
def getn (args : List Scalar) : ℕ :=
  if 0 < args.length ∧ argAt args args.length = .nil then
    if 2 ≤ args.length ∧ argAt args (args.length - 1) ≠ .nil then args.length - 1
    else binsearch args 0 args.length
  else args.length

def setLengthCodedBin (n : ℕ) : Bytes :=
  if n < 251 then [UInt8.ofNat n]
  else if n < 1 <<< 16 then 0xfc :: leBytes 2 n
  else if n < 1 <<< 24 then 0xfd :: leBytes 3 n
  else 0xfe :: leBytes 8 n

/-- The type and the value of an argument, nothing for a type that has no entry. -/
def storeTypes : Scalar → Option (Bytes × Bytes)
  | .real d =>
    match toInteger d with
    | none => some (leBytes 2 0x05, leBytes 8 d.toNat)
    | some n => some (leBytes 2 0x08, leBytes 8 n.toNat)
  | .integer n => some (leBytes 2 0x08, leBytes 8 n.toNat)
  | .string s => some (leBytes 2 0x0f, setLengthCodedBin s.length ++ s)
  | .boolean b => some (leBytes 2 0x01, [if b then 1 else 0])
  | .nil => some (leBytes 2 0x06, [])
  | .lightuserdata _ => none

/-- The loop over the bits of one byte of the bitmap, with the index of the field. -/
def nullByte (args : List Scalar) (argNum fieldIndex bits : ℕ) : ℕ × ℕ :=
  (List.range bits).foldl (fun s j =>
    (if s.2 < argNum then
      if argAt args s.2 = .nil then s.1 ||| (1 <<< j) else s.1 ||| (0 <<< j)
    else s.1, s.2 + 1)) (0, fieldIndex)

/-- The loop over the bytes of the bitmap. -/
def nullMap (args : List Scalar) (argNum nullCount : ℕ) : Bytes × ℕ :=
  (List.range nullCount).foldl (fun s _ =>
    (s.1 ++ [UInt8.ofNat (nullByte args argNum s.2 8).1], (nullByte args argNum s.2 8).2)) ([], 1)

/-- The loop over the arguments. -/
def storeArgs : List Scalar → Bytes → Bytes → Except String (Bytes × Bytes)
  | [], typesBuf, valuesBuf => .ok (typesBuf, valuesBuf)
  | v :: args, typesBuf, valuesBuf =>
    match storeTypes v with
    -- `error` refuses its level, the name of the type
    | none => .error "bad argument #2 to 'error' (number expected, got string)"
    | some (ts, vs) => storeArgs args (typesBuf ++ ts) (valuesBuf ++ vs)

/-- `_compose_packet`, from the number of the packet before; a `<I3` of more than 3 bytes is
refused. -/
def composePacket (packetNo : ℤ) (req : Bytes) : Except String Bytes :=
  if req.length < 2 ^ 24 then
    .ok (leBytes 3 req.length ++ [UInt8.ofNat (packetNo + 1).toNat] ++ req)
  else .error "unsigned overflow"

def composeStmtExecute (stmt : Statement) (cursorType : UInt8) (args : List Scalar) :
    Except String Bytes := do
  let argNum := getn args
  if argNum ≠ stmt.param_count.toNat then
    throw ("require stmt.param_count " ++ toString stmt.param_count.toNat ++ " get arg_num "
      ++ toString argNum)
  let cmdPacket := comStmtExecute :: leBytes 4 stmt.prepare_id.toNat ++ cursorType :: leBytes 4 0x01
  if 0 < argNum then
    let nullCount := (argNum + 7) / 8
    let bufs ← storeArgs (args.take argNum) [] []
    composePacket (-1) (cmdPacket ++ (nullMap args argNum nullCount).1 ++ [0x01] ++ bufs.1 ++ bufs.2)
  else composePacket (-1) cmdPacket

end Skynet.Model.Mysql
