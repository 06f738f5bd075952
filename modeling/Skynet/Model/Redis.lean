import Skynet.Library.Calls
import Skynet.Library.LuaTable
import Skynet.Library.Machine
import Skynet.Library.Resp
import Skynet.Model.LuaSeri

/-!
# The redis client

The requests and the response functions of `lualib/skynet/db/redis.lua`.  The channel writes the
requests of a connection one after the other and calls their response functions in the same order.

`get_connection` and `get_watch_connection` of `lualib/skynet/db/redis/cluster.lua`, for all the
objects of a service.  The calls for one node name share a task of `sync.once`, and a connect
takes any time.  A waiter takes over the result that its task has once that is over.
-/

namespace Skynet.Model

open Library

/-! ## Lua -/

/-- A table with strings at positive integers, the last of which is that of the last entry; `border`
is what the operator `#` gives. -/
structure RedisList where
  entries : List (Option Bytes)
  last : entries.getLast? ≠ some none
  border : ℕ
  isBorder : (border = 0 ∨ (entries[border - 1]?).join ≠ none) ∧ (entries[border]?).join = none

namespace Redis

/-- `t[i]`. -/
def index (t : RedisList) (i : ℕ) : Option Bytes :=
  if i = 0 then none else (t.entries[i - 1]?).join

/-- The values of `ipairs(t)`. -/
def ipairs (t : RedisList) : List Bytes := (t.entries.takeWhile Option.isSome).reduceOption

def isSpace (b : UInt8) : Bool := b = 32 || 9 ≤ b && b ≤ 13

/-- `tonumber(s)`, of the decimal numerals that stand for an integer. -/
def tonumber (s : Bytes) : Option ℤ :=
  let s := s.dropWhile isSpace
  let neg := s.head? = some 45
  let s := if neg ∨ s.head? = some 43 then s.drop 1 else s
  let digits := s.takeWhile decimalDigit
  let tail := (s.dropWhile decimalDigit).dropWhile isSpace
  let value : ℤ := if neg then -decimalValue digits else decimalValue digits
  if digits ≠ [] ∧ tail = [] ∧ -2 ^ 63 ≤ value ∧ value < 2 ^ 63 then some value else none

/-- `string.upper`. -/
def upper (s : Bytes) : Bytes := s.map fun b => if 97 ≤ b && b ≤ 122 then b - 32 else b

/-! ## Requests -/

def crlf : Bytes := [13, 10]

def headerCache (k : ℕ) : Bytes := crlf ++ 36 :: decimalBytes k ++ crlf

def commandCache (cmd : Bytes) : Bytes :=
  crlf ++ 36 :: decimalBytes cmd.length ++ crlf ++ upper cmd

def countCache (k : ℕ) : Bytes := 42 :: decimalBytes k

def commandNpCache (cmd : Bytes) : Bytes := 42 :: 49 :: commandCache cmd ++ crlf

/-- The argument `msg` of `compose_message`; `n` is `msg.n or #msg`. -/
inductive Message
  | nil
  | table (get : ℕ → Option Bytes) (n : ℕ)
  | string (s : Bytes)

def elementLines : Option Bytes → Bytes
  | none => crlf ++ [36, 45, 49]
  | some v => headerCache v.length ++ v

/-- SRC: redis.lua:111-147 -/
def composeMessage (cmd : Bytes) : Message → Bytes
  | .nil => commandNpCache cmd
  | .table get n =>
    countCache (n + 1) ++ commandCache cmd
      ++ ((List.range n).map fun i => elementLines (get (i + 1))).flatten ++ crlf
  | .string s => [42, 50] ++ commandCache cmd ++ headerCache s.length ++ s ++ crlf

/-- `table.pack(...)`. -/
def tablePack (args : List (Option Bytes)) : Message :=
  .table (fun i => if i = 0 then none else (args[i - 1]?).join) args.length

/-- SRC: redis.lua:213-223 -/
def composeTable (msg : RedisList) : Bytes :=
  countCache msg.border ++ ((ipairs msg).map fun v => headerCache v.length ++ v).flatten ++ crlf

end Redis

/-- An operation of a connection.  A command has its arguments in the call, or a table with them. -/
inductive RedisOp
  | call (name : Bytes) (args : List (Option Bytes))
  | callTable (name : Bytes) (t : RedisList) (n : Option ℕ)
  | exists (key : Option Bytes)
  | existsTable (t : RedisList) (n : Option ℕ)
  | sismember (key value : Option Bytes)
  | pipeline (ops : List RedisList) (resp : Bool)

namespace RedisOp

open Redis

/-- `"EXISTS"`. -/
def existsName : Bytes := [69, 88, 73, 83, 84, 83]

/-- `"SISMEMBER"`. -/
def sismemberName : Bytes := [83, 73, 83, 77, 69, 77, 66, 69, 82]

/-- What is written; a pipeline without operations raises an error.
SRC: redis.lua:183-211, 225-233 -/
def message : RedisOp → Option Bytes
  | call name args =>
    let cmd := upper name
    match args with
    | some v :: rest => some (composeMessage cmd (tablePack (some v :: rest)))
    | none :: _ | [] => some (composeMessage cmd .nil)
  | callTable name t n =>
    some (composeMessage (upper name) (.table (Redis.index t) (n.getD t.border)))
  | «exists» none => some (composeMessage existsName .nil)
  | «exists» (some key) => some (composeMessage existsName (.string key))
  | existsTable t n => some (composeMessage existsName (.table (Redis.index t) (n.getD t.border)))
  | sismember key value => some (composeMessage sismemberName (tablePack [key, value]))
  | pipeline ops _ => if ops = [] then none else some ((ops.map composeTable).flatten)

end RedisOp

/-! ## Responses -/

inductive RedisValue
  | nil
  | boolean (b : Bool)
  | integer (i : ℤ)
  | string (s : Bytes)
  | table (l : List RedisValue)
  /-- The tables `{ok = ok, out = out}` of a pipeline. -/
  | results (l : List (Bool × RedisValue))

namespace Redis

/-- `fd:readline "\r\n"`. -/
def readline : Bytes → Option (Bytes × Bytes)
  | [] => none
  | 13 :: 10 :: s => some ([], s)
  | b :: s => (readline s).map fun (l, rest) => (b :: l, rest)

/-- `fd:read(n)`, which counts in an `int`; `none` where that is not positive, too.
SRC: lua-socket.c:248-255 -/
def read (n : ℤ) (s : Bytes) : Option (Bytes × Bytes) :=
  let sz := (toInt32 n).toNat
  if sz ≠ 0 ∧ sz ≤ s.length then some (s.take sz, s.drop sz) else none

/-- A loop that calls a response function `n` times. -/
def readMany {α : Type} (read : Bytes → Option (α × Bytes)) :
    ℕ → Bytes → Option (List α × Bytes)
  | 0, s => some ([], s)
  | n + 1, s => do
    let (v, s) ← read s
    let (l, s) ← readMany read n s
    return (v :: l, s)

/-- `read_response`, where the stack of Lua has room for some calls within each other; `none` where
the stream is too short or the function raises an error.
SRC: redis.lua:22-69 -/
def readResponse : ℕ → Bytes → Option ((Bool × RedisValue) × Bytes)
  | 0, _ => none
  | levels + 1, s => do
    let (result, s) ← readline s
    match result with
    | 36 :: data =>
      let bytes ← tonumber data
      if bytes < 0 then return ((true, .nil), s)
      else
        let (firstline, s) ← read (bytes + 2) s
        return ((true, .string (firstline.take (firstline.length - 2))), s)
    | 43 :: data => return ((true, .string data), s)
    | 45 :: data => return ((false, .string data), s)
    | 58 :: data => return ((true, (tonumber data).elim .nil .integer), s)
    | 42 :: data =>
      let n ← tonumber data
      if n < 0 then return ((true, .nil), s)
      else
        let (bulk, s) ← readMany (readResponse levels) n.toNat s
        return ((bulk.all Prod.fst, .table (bulk.map Prod.snd)), s)
    | _ => none

/-- SRC: redis.lua:198-201 -/
def readBoolean (levels : ℕ) (s : Bytes) :
    Option ((Bool × RedisValue) × Bytes) := do
  let ((ok, result), s) ← readResponse levels s
  let zero : Bool := match result with
    | .integer 0 => true
    | _ => false
  return ((ok, .boolean !zero), s)

end Redis

namespace RedisOp

open Redis

/-- The response function of an operation.  The table `resp` of a pipeline is empty at the start.
SRC: redis.lua:234-251 -/
def response (levels : ℕ) : RedisOp → Bytes → Option ((Bool × RedisValue) × Bytes)
  | call _ _, s | callTable _ _ _, s => readResponse levels s
  | «exists» _, s | existsTable _ _, s | sismember _ _, s => readBoolean levels s
  | pipeline ops resp, s => do
    let (l, s) ← readMany (readResponse levels) ops.length s
    if resp then return ((true, .results l), s)
    else return (l.getLast?.getD (false, .nil), s)

def written (ops : List RedisOp) : Bytes := (ops.filterMap message).flatten

/-- The results of the operations of a connection that wrote a request. -/
def readAll (levels : ℕ) :
    List RedisOp → Bytes → Option (List (Bool × RedisValue) × Bytes)
  | [], s => some ([], s)
  | op :: ops, s =>
    if op.message = none then readAll levels ops s
    else do
      let (result, s) ← op.response levels s
      let (l, s) ← readAll levels ops s
      return (result :: l, s)

end RedisOp

inductive LinkKind
  /-- `redis.connect`. -/
  | ordinary
  /-- `redis.watch`. -/
  | watch
  deriving DecidableEq

/-- What a call asks for, and what a link is for; `node` is the name of the node. -/
structure LinkUse where
  object : ℕ
  node : Bytes
  kind : LinkKind
  deriving DecidableEq

structure RedisLink where
  use : LinkUse
  opened : Bool
  deriving DecidableEq

/-- A task with the call that runs its function, followed by the waiting ones. -/
structure OnceTask where
  use : LinkUse
  calls : List ℕ
  deriving DecidableEq

/-- A link is its place in `links`; the answer of a call is a link, or `none` for an error. -/
structure RedisCluster where
  maxConnections : ℕ → ℕ
  connections : ℕ → Table Bytes ℕ
  watching : ℕ → Table Bytes ℕ
  tasks : List OnceTask
  links : List RedisLink
  calls : List (Call LinkUse (Option ℕ))

inductive RedisClusterAction
  /-- A call; `next` is what `next(self.connections)` gives. -/
  | call (use : LinkUse) (next : Bytes)
  | connected (task : OnceTask)
  | failed (task : OnceTask)
  deriving DecidableEq

namespace RedisCluster

def init (maxConnections : ℕ → ℕ) : RedisCluster where
  maxConnections := maxConnections
  connections := fun _ => ∅
  watching := fun _ => ∅
  tasks := []
  links := []
  calls := []

/-- `self.connections` or `self.__watching`. -/
def cache (s : RedisCluster) (object : ℕ) : LinkKind → Table Bytes ℕ
  | .ordinary => s.connections object
  | .watch => s.watching object

/-- `conns[name] = v`, in the cache for the use. -/
def setCached (s : RedisCluster) (use : LinkUse) (v : Option ℕ) : RedisCluster :=
  match use.kind with
  | .ordinary =>
    { s with
      connections := Function.update s.connections use.object
        ((s.connections use.object).put use.node v) }
  | .watch =>
    { s with
      watching := Function.update s.watching use.object
        ((s.watching use.object).put use.node v) }

def cached (s : RedisCluster) (use : LinkUse) : Option ℕ :=
  (s.cache use.object use.kind).get use.node

/-- `tasks[id]`. -/
def taskOf (s : RedisCluster) (node : Bytes) : Option OnceTask :=
  s.tasks.find? fun task => task.use.node = node

def disconnect (s : RedisCluster) (link : ℕ) : RedisCluster :=
  { s with links := s.links.modify link fun l => { l with opened := false } }

/-- SRC: cluster.lua:205-217 -/
def closeExistingConnection (s : RedisCluster) (object : ℕ) (next : Bytes) : RedisCluster :=
  if s.maxConnections object ≤ (s.connections object).size then
    match (s.connections object).get next with
    | some link => (s.setCached ⟨object, next, .ordinary⟩ none).disconnect link
    | none => s
  else s

/-- What the function of a task does before the connect. -/
def prepare (s : RedisCluster) (use : LinkUse) (next : Bytes) : RedisCluster :=
  match use.kind with
  | .ordinary => s.closeExistingConnection use.object next
  | .watch => s

/-- `sync.once.Do`, with the functions of `get_connection` and `get_watch_connection` up to their
connect.
SRC: cluster.lua:17-27, 35-39, 230-236, 419-421 -/
def once (s : RedisCluster) (i : ℕ) (use : LinkUse) (next : Bytes) : RedisCluster :=
  match s.taskOf use.node with
  | some task =>
    { s with tasks := s.tasks.erase task ++ [{ task with calls := task.calls ++ [i] }] }
  | none =>
    match s.cached use with
    | some link => { s with calls := Calls.answer s.calls i (some link) }
    | none => { s.prepare use next with tasks := s.tasks ++ [⟨use, [i]⟩] }

/-- The end of a task.
SRC: cluster.lua:27-39 -/
def finish (s : RedisCluster) (task : OnceTask) (result : Option ℕ) : RedisCluster := { s with
    tasks := s.tasks.erase task
    calls := Calls.answerAll s.calls task.calls result }

def store (s : RedisCluster) (use : LinkUse) : RedisCluster :=
  setCached { s with links := s.links ++ [⟨use, true⟩] } use (some s.links.length)

def next (s : RedisCluster) : RedisClusterAction → Option RedisCluster
  | .call use next =>
    if (s.connections use.object).size = 0 ∨ ((s.connections use.object).get next).isSome then
      some (once { s with calls := Calls.handle (s.calls ++ [.new use]) s.calls.length }
        s.calls.length use next)
    else none
  | .connected task =>
    if task ∈ s.tasks then some ((s.store task.use).finish task (some s.links.length)) else none
  | .failed task => if task ∈ s.tasks then some (s.finish task none) else none

def machine : Machine RedisCluster RedisClusterAction where
  start s := ∃ maxConnections, s = init maxConnections
  next := next

end RedisCluster

end Skynet.Model
