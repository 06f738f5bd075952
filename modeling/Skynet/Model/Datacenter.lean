import Skynet.Library.Machine
import Skynet.Model.LuaSeri

/-!
# The datacenter

`service/datacenterd.lua`: a tree of tables, and beside it a tree of the WAITs that have no
answer.  The commands are handled one after the other, none of them yields.  The arguments
come in a message, so each can be packed again as it is, and a table among them is new: as a
key it is no key that any table has.

A message that is too long for an `int` is left out.
-/

namespace Skynet.Model

open Library

/-! ## Tables -/

/-- The entry of a key that may be used as it is. -/
def entryOf {ν : Type} (t : List (LuaValue Unit × ν)) (k : LuaValue Unit) : Option ν :=
  (t.find? fun e => sameKey e.1 k).map Prod.snd

/-- Another entry for a key that may be used as it is, or none. -/
def setEntry {ν : Type} (t : List (LuaValue Unit × ν)) (k : LuaValue Unit) :
    Option ν → List (LuaValue Unit × ν)
  | none => t.filter fun e => !sameKey e.1 k
  | some v =>
    if t.any fun e => sameKey e.1 k then t.map fun e => if sameKey e.1 k then (e.1, v) else e
    else t ++ [(k, v)]

/-- A key as a table uses it: a float that is an integer becomes one. -/
def usedKey : LuaValue Unit → LuaValue Unit
  | .scalar (.real d) =>
    match toInteger d with
    | some n => .scalar (.integer n)
    | none => .scalar (.real d)
  | k => k

/-- `luai_numisnan` for a value. -/
def LuaValue.isNaN : LuaValue Unit → Bool
  | .scalar (.real d) => Model.isNaN d
  | _ => false

/-- `type(v) == "table"`. -/
def LuaValue.isTable {β : Type} : LuaValue β → Bool
  | .table _ _ => true
  | _ => false

/-- What a command raises: "attempt to index a %s value", "table index is nil", "table index
is NaN", "assertion failed!", and an error of `skynet.pack`. -/
inductive DatacenterError
  | attemptToIndex
  | indexIsNil
  | indexIsNaN
  | assertionFailed
  | cannotPack
  deriving DecidableEq, Repr

/-- The names in the table `string`, which is the `__index` of every string.
SRC: 3rd/lua/lstrlib.c, strlib -/
def stringLibrary : List String :=
  ["byte", "char", "dump", "find", "format", "gmatch", "gsub", "len", "lower", "match", "rep",
    "reverse", "sub", "upper", "pack", "packsize", "unpack"]

/-- `s[k]` for a string. -/
def stringIndex : LuaValue Unit → LuaValue Unit
  | .scalar (.string k) =>
    if stringLibrary.any fun name => name.toUTF8.toList = k then .other "function"
    else .scalar .nil
  | _ => .scalar .nil

/-- `db[k]` to read. -/
def index (db k : LuaValue Unit) : Except DatacenterError (LuaValue Unit) :=
  match db with
  | .table _ es => .ok (rawget es (usedKey k))
  | .scalar (.string _) => .ok (stringIndex k)
  | _ => .error .attemptToIndex

/-- `db[k] = v` for a table. -/
def setIndex (es : LuaEntries Unit) (k v : LuaValue Unit) :
    Except DatacenterError (LuaEntries Unit) :=
  if k.isNil then .error .indexIsNil
  else if k.isNaN then .error .indexIsNaN
  else .ok (assign es (usedKey k) v)

/-- Whether `pack_one` packs a value, at the depth `MAX_DEPTH + 1 - levels`.
SRC: lua-seri.c:296-340 -/
def packable : ℕ → LuaValue Unit → Bool
  | 0, _ => false
  | _ + 1, .scalar _ => true
  | levels + 1, .table _ es => es.all fun e => packable levels e.1 && packable levels e.2
  | _ + 1, .other _ => false

/-- `skynet.pack` of a value that is sent as it is. -/
def packed (v : LuaValue Unit) : Except DatacenterError (LuaValue Unit) :=
  if packable (maxDepth + 1) v then .ok v else .error .cannotPack

/-! ## The two trees -/

/-- A node of `wait_queue`, with its `mode`. -/
inductive WaitNode
  | queue (responses : List ℕ)
  | branch (entries : List (LuaValue Unit × WaitNode))

abbrev WaitEntries : Type := List (LuaValue Unit × WaitNode)

/-- `query`.
SRC: datacenterd.lua:8-14 -/
def query (db : LuaValue Unit) : List (LuaValue Unit) → Except DatacenterError (LuaValue Unit)
  | [] => .ok db
  | key :: rest =>
    if key.isNil then .ok db
    else do
      let v ← index db key
      query v rest

/-- `update`: the tree after it, also where it fails, and the old and the new value.  A
string cannot be assigned to, whatever indexing it gives.
SRC: datacenterd.lua:23-34 -/
def Datacenter.update (db key value : LuaValue Unit) :
    List (LuaValue Unit) → LuaValue Unit × Except DatacenterError (LuaValue Unit × LuaValue Unit)
  | [] =>
    match db with
    | .table _ es =>
      match setIndex es key value with
      | .error e => (db, .error e)
      | .ok es' => (.table () es', .ok (rawget es (usedKey key), value))
    | _ => (db, .error .attemptToIndex)
  | v :: rest =>
    match db with
    | .table _ es =>
      let child := rawget es (usedKey key)
      if child.isNil then
        match setIndex es key (.table () []) with
        | .error e => (db, .error e)
        | .ok _ =>
          let (child, r) := update (.table () []) value v rest
          (.table () (assign es (usedKey key) child), r)
      else
        let (child, r) := update child value v rest
        (.table () (assign es (usedKey key) child), r)
    | _ => (db, .error .attemptToIndex)

/-- What `wakeup` finds: nothing, a queue it answers with an error, or the queue it
returns. -/
inductive Woken
  | nobody
  | failed (responses : List ℕ)
  | ready (responses : List ℕ)
  deriving DecidableEq, Repr

/-- `wakeup`.
SRC: datacenterd.lua:36-58 -/
def Datacenter.wakeup (db : WaitEntries) : List (LuaValue Unit) → WaitEntries × Woken
  | [] => (db, .nobody)
  | key1 :: rest =>
    if key1.isNil then (db, .nobody)
    else
      match entryOf db (usedKey key1) with
      | none => (db, .nobody)
      | some (.queue q) =>
        (setEntry db (usedKey key1) none, if rest.length = 1 then .ready q else .failed q)
      | some (.branch q) =>
        let (q, r) := wakeup q rest
        (setEntry db (usedKey key1) (some (.branch q)), r)

/-- `db[k] = q` for `wait_queue` and its branches. -/
def setWait (db : WaitEntries) (k : LuaValue Unit) (q : WaitNode) :
    Except DatacenterError WaitEntries :=
  if k.isNil then .error .indexIsNil
  else if k.isNaN then .error .indexIsNaN
  else .ok (setEntry db (usedKey k) (some q))

/-- `waitfor` for the response of a number: the tree after it, also where it fails.
SRC: datacenterd.lua:73-94 -/
def Datacenter.waitfor (response : ℕ) (db : WaitEntries) :
    List (LuaValue Unit) → WaitEntries × Except DatacenterError Unit
  | [] => (db, .error .indexIsNil)
  | key1 :: rest =>
    if (rest.headD (.scalar .nil)).isNil then
      match entryOf db (usedKey key1) with
      | none =>
        match setWait db key1 (.queue [response]) with
        | .error e => (db, .error e)
        | .ok db => (db, .ok ())
      | some (.queue q) =>
        (setEntry db (usedKey key1) (some (.queue (q ++ [response]))), .ok ())
      | some (.branch _) => (db, .error .assertionFailed)
    else
      match entryOf db (usedKey key1) with
      | none =>
        match setWait db key1 (.branch []) with
        | .error e => (db, .error e)
        | .ok _ =>
          let (q, r) := waitfor response [] rest
          (setEntry db (usedKey key1) (some (.branch q)), r)
      | some (.queue _) => (db, .error .assertionFailed)
      | some (.branch q) =>
        let (q, r) := waitfor response q rest
        (setEntry db (usedKey key1) (some (.branch q)), r)

/-! ## The service -/

inductive WaitAnswer
  | value (v : LuaValue Unit)
  | error

/-- `database` and `wait_queue`, and two records: the path of every WAIT that came, whose
place there is its number, and the answers sent to them. -/
structure Datacenter where
  database : LuaValue Unit
  waitQueue : WaitEntries
  asked : List (List (LuaValue Unit))
  answers : List (ℕ × WaitAnswer)

inductive DatacenterAction
  | query (args : List (LuaValue Unit))
  | update (args : List (LuaValue Unit))
  | wait (args : List (LuaValue Unit))

def DatacenterAction.args : DatacenterAction → List (LuaValue Unit)
  | .query args | .update args | .wait args => args

/-- Argument `i`, nil where there are fewer. -/
def arg (args : List (LuaValue Unit)) (i : ℕ) : LuaValue Unit := args.getD i (.scalar .nil)

namespace Datacenter

def init : Datacenter := ⟨.table () [], [], [], []⟩

def path (args : List (LuaValue Unit)) : List (LuaValue Unit) := args.takeWhile fun k => !k.isNil

/-- `command.QUERY`.
SRC: datacenterd.lua:16-21 -/
def commandQuery (s : Datacenter) (args : List (LuaValue Unit)) :
    Except DatacenterError (LuaValue Unit) := do
  let d ← index s.database (arg args 0)
  if d.isNil then return .scalar .nil else query d (args.drop 1)

def queryReply (s : Datacenter) (args : List (LuaValue Unit)) :
    Except DatacenterError (LuaValue Unit) := do
  let ret ← s.commandQuery args
  packed ret

def answer (s : Datacenter) (responses : List ℕ) (a : WaitAnswer) : Datacenter :=
  { s with answers := s.answers ++ responses.map fun n => (n, a) }

/-- `command.UPDATE` and its reply.
SRC: datacenterd.lua:60-70 -/
def commandUpdate (s : Datacenter) (args : List (LuaValue Unit)) :
    Datacenter × Except DatacenterError (LuaValue Unit) :=
  let (db, r) := update s.database (arg args 0) (arg args 1) (args.drop 2)
  let s := { s with database := db }
  match r with
  | .error e => (s, .error e)
  | .ok (ret, value) =>
    if !ret.isNil || value.isNil then (s, packed ret)
    else
      let (q, woken) := wakeup s.waitQueue args
      let s := { s with waitQueue := q }
      match woken with
      | .nobody => (s, .ok (.scalar .nil))
      | .failed responses => (s.answer responses .error, .ok (.scalar .nil))
      | .ready responses => (s.answer responses (.value value), .ok (.scalar .nil))

/-- WAIT.  An error of the handler is the answer.
SRC: datacenterd.lua:96-102 -/
def wait (s : Datacenter) (args : List (LuaValue Unit)) : Datacenter :=
  let n := s.asked.length
  let s := { s with asked := s.asked ++ [path args] }
  match s.commandQuery args with
  | .error _ => s.answer [n] .error
  | .ok ret =>
    if !ret.isNil then
      match packed ret with
      | .error _ => s.answer [n] .error
      | .ok ret => s.answer [n] (.value ret)
    else
      let (q, r) := waitfor n s.waitQueue args
      let s := { s with waitQueue := q }
      match r with
      | .error _ => s.answer [n] .error
      | .ok _ => s

/-- The state after a message. -/
def next (s : Datacenter) (a : DatacenterAction) : Option Datacenter :=
  if a.args.all (packable (maxDepth + 1)) then
    match a with
    | .query _ => some s
    | .update args => some (s.commandUpdate args).1
    | .wait args => some (s.wait args)
  else none

/-- The WAITs without an answer: their paths and numbers. -/
def waiting (s : Datacenter) : List (List (LuaValue Unit) × ℕ) :=
  s.asked.zipIdx.filter fun w => !(s.answers.map Prod.fst).contains w.2

end Datacenter

/-- `datacenterd`. -/
def datacenterMachine : Machine Datacenter DatacenterAction where
  start s := s = .init
  next := Datacenter.next

end Skynet.Model
