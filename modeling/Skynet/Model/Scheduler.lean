import Skynet.Library.Machine
import Skynet.Library.ThreadSum
import Skynet.Model.MessageQueue

/-!
# Services, senders and workers

The life of services in `skynet-src/skynet_server.c` as steps of threads: every step is
one lock-protected section of `skynet_mq.c` or of the handle table, or one atomic
operation on a reference count.  A service and its queue are one index `ι`; the handle
table is the map that `skynet_handle_grab` looks a handle up in.

What a callback or an init function does (send, kill, launch) is done by other threads
of the model, of which there are any number, while the thread that runs it stands still.
`skynet_handle_register` may return any handle that is not in the table.
-/

namespace Skynet.Model

open Library Function

/-- `PTYPE_ERROR`.
SRC: skynet.h:17 -/
def ptypeError : ℕ := 7

/-- `skynet_harbor_message_isremote`.
SRC: skynet_harbor.c:26-30 -/
def skynetHarborMessageIsremote (harbor handle : ℕ) : Bool :=
  let h := handle &&& 0xff000000
  h ≠ harbor && h ≠ 0

/-- Who runs `skynet_mq_release`: the dispatch function of a worker, or
`skynet_context_new` after a failed init. -/
inductive ReleaseCaller
  | worker
  | creator
  deriving DecidableEq

/-- What a thread goes on with after a call that may release a context. -/
inductive Cont (ι : Type)
  | stop
  /-- `return q` of the dispatch function. -/
  | workerLoop (q : Option ι)
  /-- The loop of `_drop_queue`. -/
  | dropLoop (q : ι) (handle : ℕ) (by_ : ReleaseCaller)
  /-- The successful branch of `skynet_context_new`. -/
  | created (q : ι)
  /-- The failed branch of `skynet_context_new`, before `skynet_handle_retire`. -/
  | failRetire (q : ι) (handle : ℕ)
  /-- The failed branch of `skynet_context_new`, before `skynet_mq_release`. -/
  | failRelease (q : ι) (handle : ℕ)
  deriving DecidableEq

/-- Where a thread stands: before which step. -/
inductive Pc (ι δ : Type)
  | idle
  /-- `skynet_handle_grab` of `skynet_context_push`. -/
  | grabbing (handle : ℕ) (message : SkynetMessage δ) (k : Cont ι)
  /-- `skynet_mq_push(ctx->queue, message)`. -/
  | pushing (ctx : ι) (message : SkynetMessage δ) (k : Cont ι)
  /-- `ATOM_FDEC(&ctx->ref)` of `skynet_context_release`. -/
  | releasing (ctx : ι) (k : Cont ι)
  /-- `skynet_mq_mark_release(ctx->queue)` of `delete_context`. -/
  | deleting (ctx : ι) (k : Cont ι)
  /-- The locked section of `skynet_handle_retire`. -/
  | retiring (handle : ℕ) (k : Cont ι)
  /-- The start of `skynet_context_message_dispatch(q)`; without a queue also its
  `return skynet_globalmq_pop()`, which does the same next. -/
  | worker (q : Option ι)
  /-- The locked section of `skynet_mq_release`. -/
  | mqRelease (q : ι) (handle : ℕ) (by_ : ReleaseCaller)
  /-- `skynet_mq_pop` of `_drop_queue`. -/
  | dropping (q : ι) (handle : ℕ) (by_ : ReleaseCaller)
  /-- `_release`. -/
  | freeing (q : ι) (by_ : ReleaseCaller)
  /-- `skynet_mq_pop` in round `i` of the dispatch loop. -/
  | popping (q ctx : ι) (i n : ℕ)
  /-- `skynet_mq_length` after the first pop. -/
  | measuring (q ctx : ι) (message : SkynetMessage δ)
  /-- `dispatch_message` in round `i`, until the callback returns. -/
  | dispatching (q ctx : ι) (i n : ℕ) (message : SkynetMessage δ)
  /-- `assert(q == ctx->queue)` and `skynet_globalmq_pop` after the loop. -/
  | finishing (q ctx : ι)
  /-- `skynet_globalmq_push(q)` when there is a next queue. -/
  | swapping (q nq ctx : ι)
  /-- `skynet_module_instance_init`, until it returns. -/
  | initing (ctx : ι)
  /-- `ctx->init = true`. -/
  | initialised (ctx : ι)
  /-- `skynet_globalmq_push(queue)` of `skynet_context_new`. -/
  | linking (q : ι)

inductive Popped (θ : Type)
  | dispatched (t : θ)
  | dropped (t : θ)
  deriving DecidableEq

/-- The process.  `born` marks the services whose queue `skynet_mq_create` has returned
and `freed` the queues `_release` has freed.  The last three fields record, for each
queue, the messages pushed, the messages popped and how, and the error messages sent for
dropped ones, each as (source, destination). -/
structure SchedState (θ ι δ : Type) where
  global : LinkedFifo ι
  mq : ι → MessageQueue δ
  born : ι → Bool
  freed : ι → Bool
  ref : ι → ℤ
  init : ι → Bool
  table : ℕ → Option ι
  pc : θ → Pc ι δ
  fault : Option MqFault
  pushed : ι → List (SkynetMessage δ)
  popped : ι → List (SkynetMessage δ × Popped θ)
  errors : ι → List (ℕ × ℕ)

/-- What happens next: an idle thread sends, kills, launches or takes a reference for a
while (`skynet_context_endless`, `cmd_signal`); an init function or a callback returns;
or a thread takes its next step. -/
inductive SchedAction (θ ι δ : Type)
  | send (t : θ) (handle : ℕ) (message : SkynetMessage δ)
  | kill (t : θ) (handle : ℕ)
  | borrow (t : θ) (handle : ℕ)
  | create (t : θ) (ctx : ι) (handle : ℕ)
  | initReturn (t : θ) (ok : Bool)
  | callbackReturn (t : θ) (hasCallback : Bool)
  | step (t : θ)

namespace SchedState

variable {θ ι δ : Type} [DecidableEq θ] [DecidableEq ι]

/-- Thread `t` goes to `pc`. -/
def goto (s : SchedState θ ι δ) (t : θ) (pc : Pc ι δ) : SchedState θ ι δ :=
  { s with pc := update s.pc t pc }

def halt (s : SchedState θ ι δ) (f : MqFault) : SchedState θ ι δ := { s with fault := some f }

/-- Any access to the queue `q`. -/
def touch (s : SchedState θ ι δ) (q : ι) (k : SchedState θ ι δ) : SchedState θ ι δ :=
  if s.freed q then s.halt .freedQueue else k

/-- The queue `q` becomes `m`. -/
def setMq (s : SchedState θ ι δ) (q : ι) (m : MessageQueue δ) : SchedState θ ι δ :=
  { s with mq := update s.mq q m }

/-- `skynet_globalmq_push(q)`: it reads `q` and writes the last queue of the list. -/
def globalPush (s : SchedState θ ι δ) (q : ι) (k : SchedState θ ι δ → SchedState θ ι δ) :
    SchedState θ ι δ :=
  if s.freed q ∨ s.global.tail.any (fun last => s.freed last) then s.halt .freedQueue
  else match skynetGlobalmqPush s.global q with
    | .error f => s.halt f
    | .ok g => k { s with global := g }

/-- `skynet_globalmq_pop()`: it reads and writes the first queue of the list. -/
def globalPop (s : SchedState θ ι δ) (k : Option ι → SchedState θ ι δ → SchedState θ ι δ) :
    SchedState θ ι δ :=
  if s.global.head.any (fun first => s.freed first) then s.halt .freedQueue
  else match skynetGlobalmqPop s.global with
    | .error f => s.halt f
    | .ok (q, g) => k q { s with global := g }

/-- What follows a call that may have released a context; `alive` is false when
`skynet_context_release` has returned `NULL`. -/
def resume (s : SchedState θ ι δ) (t : θ) (alive : Bool) : Cont ι → SchedState θ ι δ
  | .stop => s.goto t .idle
  | .workerLoop q => s.goto t (.worker q)
  | .dropLoop q handle by_ => s.goto t (.dropping q handle by_)
  | .created q => if alive then s.goto t (.initialised q) else s.goto t (.linking q)
  | .failRetire q handle => s.goto t (.retiring handle (.failRelease q handle))
  | .failRelease q handle => s.goto t (.mqRelease q handle .creator)

/-- What follows `skynet_mq_release`. -/
def afterRelease (s : SchedState θ ι δ) (t : θ) : ReleaseCaller → SchedState θ ι δ
  | .worker => s.goto t (.worker none)
  | .creator => s.goto t .idle

/-- `skynet_handle_grab`: the context it finds has one reference more.
SRC: skynet_handle.c:136-153 -/
def grab (s : SchedState θ ι δ) (handle : ℕ) (missing : SchedState θ ι δ)
    (found : ι → SchedState θ ι δ → SchedState θ ι δ) : SchedState θ ι δ :=
  match s.table handle with
  | none => missing
  | some ctx => found ctx { s with ref := update s.ref ctx (s.ref ctx + 1) }

/-- A message of the queue `q` is taken out of it by thread `t`. -/
def recordPop (s : SchedState θ ι δ) (q : ι) (m : SkynetMessage δ) (how : Popped θ) :
    SchedState θ ι δ :=
  { s with popped := update s.popped q (s.popped q ++ [(m, how)]) }

/-- The locked section of `skynet_mq_push`.
SRC: skynet_mq.c:190-209 -/
def mqPush [Inhabited δ] (s : SchedState θ ι δ) (q : ι) (m : SkynetMessage δ)
    (k : SchedState θ ι δ → SchedState θ ι δ) : SchedState θ ι δ :=
  match skynetMqPush (s.mq q) m with
  | none => s.halt .overflow
  | some (links, mq) =>
    let s' := { s.setMq q mq with
      pushed := update s.pushed q (s.pushed q ++ [m]) }
    if links then s'.globalPush q k else k s'

/-- `skynet_mq_mark_release`.
SRC: skynet_mq.c:220-228 -/
def markRelease (s : SchedState θ ι δ) (q : ι) (k : SchedState θ ι δ → SchedState θ ι δ) :
    SchedState θ ι δ :=
  if (s.mq q).release ≠ 0 then s.halt .markedTwice
  else
    let s' := s.setMq q { s.mq q with release := 1 }
    if (s.mq q).inGlobal ≠ mqInGlobal then s'.globalPush q k else k s'

/-- `skynet_send(NULL, source, destination, PTYPE_ERROR, 0, NULL, 0)`: nothing is sent
to destination 0, and what goes to another node is passed to the harbor.
SRC: skynet_server.c:704-747 -/
def sendError [Inhabited δ] (s : SchedState θ ι δ) (harbor : ℕ) (t : θ) (q : ι)
    (source destination : ℕ) (k : Cont ι) : SchedState θ ι δ :=
  if destination = 0 then s.resume t true k
  else
    let s' := { s with
      errors := update s.errors q (s.errors q ++ [(source, destination)]) }
    if skynetHarborMessageIsremote harbor destination then s'.resume t true k
    else s'.goto t (.grabbing destination ⟨source, 0, default, ptypeError⟩ k)

end SchedState

section Machine

variable {θ ι δ : Type} [DecidableEq θ] [DecidableEq ι] [Inhabited δ]

/-- The next step of thread `t`; none for a thread that is idle or inside a callback or
an init function.  `weight` is the weight of the worker threads, `harbor` the harbor of
this node in the upper bits.
SRC: skynet_mq.c:190-250, skynet_handle.c:73-153, skynet_server.c:115-240, 298-353 -/
def schedStep (weight : θ → ℤ) (harbor : ℕ) (s : SchedState θ ι δ) (t : θ) :
    Option (SchedState θ ι δ) :=
  match s.pc t with
  | .idle | .initing _ | .dispatching _ _ _ _ _ => none
  -- skynet_context_push
  | .grabbing handle message k =>
    some (s.grab handle (s.resume t true k) fun ctx s => s.goto t (.pushing ctx message k))
  | .pushing ctx message k =>
    some (s.touch ctx (s.mqPush ctx message fun s => s.goto t (.releasing ctx k)))
  -- skynet_context_release
  | .releasing ctx k =>
    let s' := { s with ref := update s.ref ctx (s.ref ctx - 1) }
    some (if s.ref ctx = 1 then s'.goto t (.deleting ctx k) else s'.resume t true k)
  | .deleting ctx k => some (s.touch ctx (s.markRelease ctx fun s => s.resume t false k))
  -- skynet_handle_retire
  | .retiring handle k =>
    match s.table handle with
    | none => some (s.resume t true k)
    | some ctx =>
      some ({ s with table := update s.table handle none }.goto t (.releasing ctx k))
  -- skynet_context_message_dispatch
  | .worker none => some (s.globalPop fun q s => s.goto t (.worker q))
  | .worker (some q) =>
    let handle := (s.mq q).handle
    some (s.touch q (s.grab handle (s.goto t (.mqRelease q handle .worker))
      fun ctx s => s.goto t (.popping q ctx 0 1)))
  | .popping q ctx i n =>
    some (s.touch q (match skynetMqPop (s.mq q) with
      | (none, q') => (s.setMq q q').goto t (.releasing ctx (.workerLoop none))
      | (some message, q') =>
        let s' := (s.setMq q q').recordPop q message (.dispatched t)
        if i = 0 ∧ 0 ≤ weight t then s'.goto t (.measuring q ctx message)
        else s'.goto t (.dispatching q ctx i n message)))
  | .measuring q ctx message =>
    some (s.touch q (s.goto t
      (.dispatching q ctx 0 (skynetMqLength (s.mq q) >>> (weight t).toNat) message)))
  | .finishing q ctx =>
    some (if q = ctx then s.globalPop fun nq s => match nq with
      | some nq => s.goto t (.swapping q nq ctx)
      | none => s.goto t (.releasing ctx (.workerLoop (some q)))
    else s.halt .wrongContext)
  | .swapping q nq ctx =>
    some (s.globalPush q fun s => s.goto t (.releasing ctx (.workerLoop (some nq))))
  -- skynet_mq_release and _drop_queue
  | .mqRelease q handle by_ =>
    some (s.touch q (if (s.mq q).release ≠ 0 then s.goto t (.dropping q handle by_)
      else s.globalPush q fun s => s.afterRelease t by_))
  | .dropping q handle by_ =>
    some (s.touch q (match skynetMqPop (s.mq q) with
      | (none, q') => (s.setMq q q').goto t (.freeing q by_)
      | (some message, q') =>
        if handle = 0 then s.halt .noSource
        else ((s.setMq q q').recordPop q message (.dropped t)).sendError harbor t q handle
          message.source (.dropLoop q handle by_)))
  | .freeing q by_ =>
    some (s.touch q (if s.global.next q = none then
      { s with freed := update s.freed q true }.afterRelease t by_
    else s.halt .linkedTwice))
  -- skynet_context_new
  | .initialised ctx =>
    some ({ s with init := update s.init ctx true }.goto t (.linking ctx))
  | .linking q => some (s.globalPush q fun s => s.goto t .idle)

/-- One step.
SRC: skynet_server.c:125-195, 227-240, 298-353 -/
def schedNext (weight : θ → ℤ) (harbor : ℕ) (s : SchedState θ ι δ) :
    SchedAction θ ι δ → Option (SchedState θ ι δ)
  | .send t handle message =>
    match s.fault, s.pc t with
    | none, .idle => some (s.goto t (.grabbing handle message .stop))
    | _, _ => none
  | .kill t handle =>
    match s.fault, s.pc t with
    | none, .idle => some (s.goto t (.retiring handle .stop))
    | _, _ => none
  | .borrow t handle =>
    match s.fault, s.pc t with
    | none, .idle => some (s.grab handle s fun ctx s => s.goto t (.releasing ctx .stop))
    | _, _ => none
  | .create t ctx handle =>
    match s.fault, s.pc t with
    | none, .idle =>
      if s.born ctx = false ∧ handle ≠ 0 ∧ s.table handle = none then
        some ({ s.setMq ctx (skynetMqCreate handle) with
          born := update s.born ctx true
          ref := update s.ref ctx 2
          table := update s.table handle (some ctx) }.goto t (.initing ctx))
      else none
    | _, _ => none
  | .initReturn t ok =>
    match s.fault, s.pc t with
    | none, .initing ctx =>
      some (s.goto t (.releasing ctx
        (if ok then .created ctx else .failRetire ctx (s.mq ctx).handle)))
    | _, _ => none
  | .callbackReturn t hasCallback =>
    match s.fault, s.pc t with
    | none, .dispatching q ctx i n _ =>
      some (s.touch q (let s' := s.setMq q (skynetMqOverload (s.mq q)).2
        if hasCallback ∧ s.init ctx = false then s.halt .notInit
        else if i + 1 < n then s'.goto t (.popping q ctx (i + 1) n)
        else s'.goto t (.finishing q ctx)))
    | _, _ => none
  | .step t => if s.fault = none then schedStep weight harbor s t else none

/-- Threads on a process without services: worker threads, and threads that send, kill
and launch. -/
def schedMachine (weight : θ → ℤ) (harbor : ℕ) :
    Machine (SchedState θ ι δ) (SchedAction θ ι δ) where
  start s := (∀ t, s.pc t = .idle ∨ s.pc t = .worker none) ∧ s =
    { global := .empty, mq := s.mq, born := fun _ => false, freed := fun _ => false
      ref := fun _ => 0, init := fun _ => false, table := fun _ => none, pc := s.pc
      fault := none, pushed := fun _ => [], popped := fun _ => [], errors := fun _ => [] }
  next := schedNext weight harbor

end Machine

end Skynet.Model
