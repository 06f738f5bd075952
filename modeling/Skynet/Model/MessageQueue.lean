import Skynet.Library.LinkedFifo
import Skynet.Library.Ring

/-!
# Message queues

`skynet-src/skynet_mq.c`: the queue of one service, a ring buffer that doubles when it
is full, and the global list that links the queues with something to do.  The two flags
of a queue, `in_global` and `release`, decide which operation links it; the functions
here are the locked sections, and the threads that run them are in the scheduler's
model.

`struct skynet_message` carries a pointer; its payload is of a type `δ`.  Memory that
`skynet_malloc` returns holds the default message until it is written.
-/

namespace Skynet.Model

open Library

def defaultQueueSize : ℕ := 64

def mqInGlobal : ℕ := 1

def mqOverload : ℕ := 1024

/-- `struct skynet_message`; `type` is the part of `sz` above `MESSAGE_TYPE_SHIFT`.
SRC: skynet_mq.h:7-12 -/
structure SkynetMessage (δ : Type) where
  source : ℕ
  session : ℤ
  data : δ
  type : ℕ
  deriving DecidableEq, Inhabited

/-- `struct message_queue` without its lock; its `next` pointer is kept with the global
list.
SRC: skynet_mq.c:21-33 -/
structure MessageQueue (δ : Type) where
  handle : ℕ
  cap : ℕ
  head : ℕ
  tail : ℕ
  release : ℕ
  inGlobal : ℕ
  overload : ℕ
  overloadThreshold : ℕ
  queue : ℕ → SkynetMessage δ

section Queue

variable {δ : Type}

/-- `skynet_mq_create`.
SRC: skynet_mq.c:78-97 -/
def skynetMqCreate [Inhabited δ] (handle : ℕ) : MessageQueue δ where
  handle := handle
  cap := defaultQueueSize
  head := 0
  tail := 0
  release := 0
  inGlobal := mqInGlobal
  overload := 0
  overloadThreshold := mqOverload
  queue := fun _ => default

/-- `skynet_mq_length`.
SRC: skynet_mq.c:112-126 -/
def skynetMqLength (q : MessageQueue δ) : ℕ :=
  if q.head ≤ q.tail then q.tail - q.head else q.tail + q.cap - q.head

/-- `skynet_mq_overload` clears the mark it returns.
SRC: skynet_mq.c:128-136 -/
def skynetMqOverload (q : MessageQueue δ) : ℕ × MessageQueue δ :=
  if q.overload ≠ 0 then (q.overload, { q with overload := 0 }) else (0, q)

/-- The `while` of `skynet_mq_pop` that marks an overload, with `n` rounds to go; the
threshold doubles each time, so `length` rounds are enough.
SRC: skynet_mq.c:158-161 -/
def overloadLoop (length : ℕ) : ℕ → ℕ → ℕ → ℕ × ℕ
  | 0, overload, threshold => (overload, threshold)
  | n + 1, overload, threshold =>
    if length > threshold then overloadLoop length n length (threshold * 2)
    else (overload, threshold)

/-- `skynet_mq_pop`: the message, or `none` and the flag `in_global` cleared.
SRC: skynet_mq.c:138-174 -/
def skynetMqPop (q : MessageQueue δ) : Option (SkynetMessage δ) × MessageQueue δ :=
  if q.head ≠ q.tail then
    let message := q.queue q.head
    let head := if q.head + 1 ≥ q.cap then 0 else q.head + 1
    let length := if q.tail < head then q.tail + q.cap - head else q.tail - head
    let marks := overloadLoop length length q.overload q.overloadThreshold
    (some message, { q with head := head, overload := marks.1, overloadThreshold := marks.2 })
  else (none, { q with overloadThreshold := mqOverload, inGlobal := 0 })

/-- `expand_queue`.
SRC: skynet_mq.c:175-187 -/
def expandQueue [Inhabited δ] (q : MessageQueue δ) : MessageQueue δ := { q with
    queue := fun i => if i < q.cap then q.queue ((q.head + i) % q.cap) else default
    head := 0
    tail := q.cap
    cap := q.cap * 2 }

/-- `skynet_mq_push` up to the test of `in_global`.
SRC: skynet_mq.c:191-204 -/
def mqStore [Inhabited δ] (q : MessageQueue δ) (message : SkynetMessage δ) : MessageQueue δ :=
  let tail := if q.tail + 1 ≥ q.cap then 0 else q.tail + 1
  let q' := { q with queue := Function.update q.queue q.tail message, tail := tail }
  if q'.head = q'.tail then expandQueue q' else q'

/-- `skynet_mq_push`, and whether it links the queue in the global list.  The capacity is an `int`;
where `cap *= 2` leaves its range the function has no result.
SRC: skynet_mq.c:191-209 -/
def skynetMqPush [Inhabited δ] (q : MessageQueue δ) (message : SkynetMessage δ) :
    Option (Bool × MessageQueue δ) :=
  let q' := mqStore q message
  if 2 ^ 31 ≤ q'.cap then none
  else if q'.inGlobal = 0 then some (true, { q' with inGlobal := mqInGlobal })
  else some (false, q')

inductive MqCall (δ : Type)
  | push (message : SkynetMessage δ)
  | pop
  | length

/-- What a call returns; a pop that finds nothing returns 1 and no message. -/
inductive MqReturn (δ : Type)
  | pushed
  | popped (message : Option (SkynetMessage δ))
  | length (n : ℕ)
  deriving DecidableEq

def mqCall [Inhabited δ] (q : MessageQueue δ) : MqCall δ → Option (MqReturn δ × MessageQueue δ)
  | .push message => (skynetMqPush q message).map fun r => (.pushed, r.2)
  | .pop => some (.popped (skynetMqPop q).1, (skynetMqPop q).2)
  | .length => some (.length (skynetMqLength q), q)

end Queue

/-- An assertion of the scheduler that fails, a queue used after `_release`, or one that has
outgrown its capacity. -/
inductive MqFault
  /-- `assert(queue->next == NULL)` of `skynet_globalmq_push` or `_release`. -/
  | linkedTwice
  /-- `assert(mq == q->tail)` of `skynet_globalmq_pop`. -/
  | lostTail
  /-- `assert(q->release == 0)` of `skynet_mq_mark_release`. -/
  | markedTwice
  /-- Any access to a queue that has been freed. -/
  | freedQueue
  /-- `assert(q == ctx->queue)` of `skynet_context_message_dispatch`. -/
  | wrongContext
  /-- `assert(ctx->init)` of `dispatch_message`. -/
  | notInit
  /-- `assert(source)` of `drop_message`. -/
  | noSource
  /-- `cap *= 2` of `expand_queue` leaves the range of an `int`. -/
  | overflow
  deriving DecidableEq, Repr

section Global

variable {ι : Type} [DecidableEq ι]

/-- `skynet_globalmq_push`.
SRC: skynet_mq.c:43-56 -/
def skynetGlobalmqPush (g : LinkedFifo ι) (q : ι) : Except MqFault (LinkedFifo ι) :=
  if g.next q = none then .ok (g.push q) else .error .linkedTwice

/-- `skynet_globalmq_pop`.
SRC: skynet_mq.c:58-76 -/
def skynetGlobalmqPop (g : LinkedFifo ι) : Except MqFault (Option ι × LinkedFifo ι) :=
  match g.pop with
  | none => .ok (none, g)
  | some (q, g') =>
    if g'.head = none ∧ g.tail ≠ some q then .error .lostTail else .ok (some q, g')

end Global

end Skynet.Model
