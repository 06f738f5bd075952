import Skynet.Library.NodePool
import Skynet.Model.LuaSeri

/-!
# Socket buffers

`lualib-src/lua-socket.c`: the buffers in which a service keeps what its sockets have
delivered, and the pool that their nodes come from.  A buffer is a linked list of blocks
with an offset into the first one; `size` counts the bytes behind the offset.

`none` stands for what C leaves undefined: a pointer that is `NULL` or whose node is not
in use, an access outside a block, and a failed `assert`.  The warning about too many
pages is left out.
-/

namespace Skynet.Model

open Library

/-- `struct buffer_node` without its `next`, which is kept with the pool.
SRC: lua-socket.c:26-30 -/
structure BufferNode where
  msg : Bytes
  sz : ℤ
  deriving DecidableEq

/-- `struct socket_buffer`.
SRC: lua-socket.c:32-37 -/
structure SocketBuffer where
  size : ℤ
  offset : ℤ
  list : HeadTail ℕ

/-- The table of a pool: the first free node, its pages, and `lua_rawlen` of it.
SRC: lua-socket.c:90-97 -/
structure BufferPool where
  len : ℕ
  nodes : NodePool BufferNode

/-- `lnewbuffer`.
SRC: lua-socket.c:76-84 -/
def lnewbuffer : SocketBuffer := ⟨0, 0, HeadTail.empty⟩

def emptyPool : BufferPool := ⟨0, NodePool.empty⟩

/-- The nodes of a new page, with `tsz` entries in the table.
SRC: lua-socket.c:121-126 -/
def pageSize (tsz : ℕ) : ℕ :=
  if tsz ≤ 12 - 3 then 8 <<< tsz else 8 <<< (12 - 3)

/-- The `sz` bytes of a block from `off` on. -/
def blockBytes (msg : Bytes) (off sz : ℤ) : Option Bytes :=
  if 0 ≤ off ∧ 0 ≤ sz ∧ off + sz ≤ msg.length then
    some ((msg.drop off.toNat).take sz.toNat)
  else none

/-- The part of `lpushbuffer` that sees to a free node.
SRC: lua-socket.c:114-132 -/
def refillPool (pool : BufferPool) : BufferPool :=
  match pool.nodes.free with
  | none =>
    let tsz := if pool.len = 0 then 1 else pool.len
    ⟨tsz + 1, pool.nodes.newPage (pageSize tsz)⟩
  | some _ => pool

/-- `lpushbuffer`.
SRC: lua-socket.c:104-154 -/
def lpushbuffer (pool : BufferPool) (sb : SocketBuffer) (msg : Bytes) (sz : ℤ) :
    Option (ℤ × BufferPool × SocketBuffer) := do
  let sz := toInt32 sz
  let pool := refillPool pool
  let freeNode ← pool.nodes.free
  let (nodes, list) ← (pool.nodes.take freeNode ⟨msg, sz⟩).append sb.list freeNode
  let size := toInt32 (sb.size + sz)
  return (size, { pool with nodes := nodes }, { sb with size := size, list := list })

/-- `return_free_node`.
SRC: lua-socket.c:155-173 -/
def returnFreeNode (p : NodePool BufferNode) (sb : SocketBuffer) :
    Option (NodePool BufferNode × SocketBuffer) := do
  let freeNode ← sb.list.head
  let head := p.next freeNode
  let tail := if head = none then none else sb.list.tail
  return (p.release freeNode, { sb with offset := 0, list := ⟨head, tail⟩ })

/-- The loop of `pop_lstring`, with `b` in the buffer and `fuel` nodes to go.
SRC: lua-socket.c:190-213 -/
def popLoop (skip : ℤ) : ℕ → NodePool BufferNode → SocketBuffer → ℕ → ℤ → Bytes →
    Option (Bytes × NodePool BufferNode × SocketBuffer)
  | 0, _, _, _, _, _ => none
  | fuel + 1, p, sb, current, sz, b => do
    let node ← p.content current
    let bytes := node.sz - sb.offset
    if bytes ≥ sz then
      let b ← (if sz > skip then (blockBytes node.msg sb.offset (sz - skip)).map (b ++ ·) else some b)
      let sb := { sb with offset := sb.offset + sz }
      if bytes = sz then
        let (p, sb) ← returnFreeNode p sb
        return (b, p, sb)
      else return (b, p, sb)
    else
      let realSz := sz - skip
      let b ← (if realSz > 0 then
          (blockBytes node.msg sb.offset (if realSz < bytes then realSz else bytes)).map (b ++ ·)
        else some b)
      let (p, sb) ← returnFreeNode p sb
      let sz := sz - bytes
      if sz = 0 then return (b, p, sb)
      let current ← sb.list.head
      popLoop skip fuel p sb current sz b

/-- `pop_lstring`: the bytes without the last `skip`.
SRC: lua-socket.c:175-215 -/
def popLstring (p : NodePool BufferNode) (sb : SocketBuffer) (sz skip : ℤ) :
    Option (Bytes × NodePool BufferNode × SocketBuffer) := do
  let current ← sb.list.head
  let node ← p.content current
  if sz < node.sz - sb.offset then
    let s ← blockBytes node.msg sb.offset (sz - skip)
    return (s, p, { sb with offset := sb.offset + sz })
  else if sz = node.sz - sb.offset then
    let s ← blockBytes node.msg sb.offset (sz - skip)
    let (p, sb) ← returnFreeNode p sb
    return (s, p, sb)
  else popLoop skip (p.count + 1) p sb current sz []

/-- `lpopbuffer`: the bytes, or `none` for `nil`.
SRC: lua-socket.c:242-258 -/
def lpopbuffer (pool : BufferPool) (sb : SocketBuffer) (n : ℤ) :
    Option ((Option Bytes × ℤ) × BufferPool × SocketBuffer) := do
  let sz := toInt32 n
  if sb.size < sz ∨ sz = 0 then
    return ((none, sb.size), pool, sb)
  else
    let (s, nodes, sb) ← popLstring pool.nodes sb sz 0
    let size := toInt32 (sb.size - sz)
    return ((some s, size), { pool with nodes := nodes }, { sb with size := size })

/-- The loop of `lclearbuffer`, with `fuel` nodes to go.
SRC: lua-socket.c:273-275 -/
def clearLoop : ℕ → NodePool BufferNode → SocketBuffer → Option (NodePool BufferNode × SocketBuffer)
  | 0, _, _ => none
  | fuel + 1, p, sb =>
    match sb.list.head with
    | none => some (p, sb)
    | some _ => (returnFreeNode p sb).bind fun (p, sb) => clearLoop fuel p sb

/-- `lclearbuffer`.
SRC: lua-socket.c:265-279 -/
def lclearbuffer (pool : BufferPool) (sb : SocketBuffer) : Option (BufferPool × SocketBuffer) := do
  let (nodes, sb) ← clearLoop (pool.nodes.count + 1) pool.nodes sb
  return ({ pool with nodes := nodes }, { sb with size := 0 })

/-- The loop of `lreadall`, with `b` in the buffer and `fuel` nodes to go.
SRC: lua-socket.c:289-293 -/
def readallLoop : ℕ → NodePool BufferNode → SocketBuffer → Bytes →
    Option (Bytes × NodePool BufferNode × SocketBuffer)
  | 0, _, _, _ => none
  | fuel + 1, p, sb, b =>
    match sb.list.head with
    | none => some (b, p, sb)
    | some current => do
      let node ← p.content current
      let s ← blockBytes node.msg sb.offset (node.sz - sb.offset)
      let (p, sb) ← returnFreeNode p sb
      readallLoop fuel p sb (b ++ s)

/-- `lreadall`.
SRC: lua-socket.c:282-298 -/
def lreadall (pool : BufferPool) (sb : SocketBuffer) :
    Option (Bytes × BufferPool × SocketBuffer) := do
  let (s, nodes, sb) ← readallLoop (pool.nodes.count + 1) pool.nodes sb []
  return (s, { pool with nodes := nodes }, { sb with size := 0 })

/-- Whether `memcmp` of `sz` bytes from `off` on with the first ones of `sep` gives 0. -/
def memcmpEq (msg : Bytes) (off : ℤ) (sep : Bytes) (sz : ℤ) : Option Bool := do
  let s ← blockBytes msg off sz
  let t ← blockBytes sep 0 sz
  return s == t

/-- `check_sep`, with `fuel` nodes to go.
SRC: lua-socket.c:307-325 -/
def checkSep (p : NodePool BufferNode) : ℕ → ℕ → ℤ → Bytes → ℤ → Option Bool
  | 0, _, _, _, _ => none
  | fuel + 1, node, start, sep, seplen => do
    let block ← p.content node
    let sz := block.sz - start
    if sz ≥ seplen then
      memcmpEq block.msg start sep seplen
    else
      let same ← (if sz > 0 then memcmpEq block.msg start sep sz else some true)
      if same then
        let next ← p.next node
        checkSep p fuel next 0 (sep.drop sz.toNat) (seplen - sz)
      else return false

/-- The loop of `lreadline` with `rounds` to go: the `i` at which the separator is found.
SRC: lua-socket.c:349-367 -/
def readlineLoop (p : NodePool BufferNode) (sep : Bytes) (seplen : ℤ) :
    ℕ → ℕ → ℤ → ℤ → ℤ → Option (Option ℤ)
  | 0, _, _, _, _ => some none
  | rounds + 1, current, start, bytes, i => do
    if ← checkSep p (p.count + 1) current start sep seplen then
      return some i
    else if bytes - 1 = 0 then
      match p.next current with
      | none => return none
      | some next => do
        let node ← p.content next
        readlineLoop p sep seplen rounds next 0 node.sz (i + 1)
    else readlineLoop p sep seplen rounds current (start + 1) (bytes - 1) (i + 1)

/-- What `lreadline` returns: nothing, `true`, or the line. -/
inductive LineResult
  | nothing
  | found
  | line (s : Bytes)
  deriving DecidableEq

/-- `lreadline`; `check` where the second parameter is not a table.
SRC: lua-socket.c:332-369 -/
def lreadline (pool : BufferPool) (sb : SocketBuffer) (sep : Bytes) (check : Bool) :
    Option (LineResult × BufferPool × SocketBuffer) :=
  let seplen := toInt32 sep.length
  match sb.list.head with
  | none => return (.nothing, pool, sb)
  | some current => do
    let node ← pool.nodes.content current
    let rounds := (sb.size - seplen + 1).toNat
    match ← readlineLoop pool.nodes sep seplen rounds current sb.offset (node.sz - sb.offset) 0 with
    | none => return (.nothing, pool, sb)
    | some i =>
      if check then return (.found, pool, sb)
      else
        let sz := toInt32 (i + sep.length)
        let (s, nodes, sb) ← popLstring pool.nodes sb sz seplen
        return (.line s, { pool with nodes := nodes }, { sb with size := toInt32 (sb.size - sz) })

/-! ## All buffers of a service -/

inductive BufferOp
  | push (msg : Bytes)
  | pop (n : ℤ)
  | readall
  | readline (sep : Bytes) (check : Bool)
  | clear

inductive BufferResult
  | size (n : ℤ)
  | popped (s : Option Bytes) (size : ℤ)
  | all (s : Bytes)
  | line (r : LineResult)
  | cleared
  deriving DecidableEq

structure SocketBuffers where
  pool : BufferPool
  buffers : ℕ → SocketBuffer

namespace SocketBuffers

def start : SocketBuffers := ⟨emptyPool, fun _ => lnewbuffer⟩

/-- A call on a buffer. -/
def call (pool : BufferPool) (sb : SocketBuffer) :
    BufferOp → Option (BufferResult × BufferPool × SocketBuffer)
  | .push msg => (lpushbuffer pool sb msg msg.length).map fun (n, t) => (.size n, t)
  | .pop n => (lpopbuffer pool sb n).map fun ((s, size), t) => (.popped s size, t)
  | .readall => (lreadall pool sb).map fun (s, t) => (.all s, t)
  | .readline sep check => (lreadline pool sb sep check).map fun (r, t) => (.line r, t)
  | .clear => (lclearbuffer pool sb).map fun t => (.cleared, t)

/-- A call on the buffer `b`. -/
def step (st : SocketBuffers) (b : ℕ) (op : BufferOp) : Option (BufferResult × SocketBuffers) :=
  (call st.pool (st.buffers b) op).map fun (r, pool, sb) =>
    (r, ⟨pool, Function.update st.buffers b sb⟩)

/-- Calls one after the other, with what they return. -/
def run (st : SocketBuffers) : List (ℕ × BufferOp) → Option (List BufferResult × SocketBuffers)
  | [] => some ([], st)
  | (b, op) :: ops => do
    let (r, st) ← st.step b op
    let (rs, st) ← st.run ops
    return (r :: rs, st)

end SocketBuffers

end Skynet.Model
