import Mathlib.Data.Finset.Card
import Skynet.Library.Machine

/-!
# Requests to a cluster node

`lualib/skynet/cluster.lua` for one node, in a service: while the sender of the node is asked
for, requests are put into a queue, which is worked off by one coroutine; a call in it is made by
its own coroutine, to which control is handed by `skynet.wakeup` and `skynet.wait`.

A step is what happens without another coroutine in between.  What coroutines do besides is free:
one that is not in `cluster.lua` goes on at any time at which the service has control.  Only
tokens of `cluster.lua` are kept in the queue of wakeups.
-/

namespace Skynet.Model

open Library

inductive ClusterKind
  | send
  | call
  | query
  deriving DecidableEq

/-- A call of `cluster.send`, `cluster.call` or `cluster.query`, with its packed arguments. -/
structure ClusterCall where
  kind : ClusterKind
  msg : List UInt8
  deriving DecidableEq

inductive ClusterOutcome
  | passed (sender : ℕ)
  | raised
  | dropped
  deriving DecidableEq

/-- A request that is done, and how often `clusterd` had answered then. -/
structure HandledCall where
  call : ClusterCall
  outcome : ClusterOutcome
  answers : ℕ
  deriving DecidableEq

/-- A task: the packed string of a `cluster.send`, or a coroutine. -/
inductive ClusterTask
  | packed (call : ClusterCall)
  | thread (co : ℕ)
  deriving DecidableEq

/-- `task_queue[node]`. -/
structure TaskQueue where
  tasks : List ClusterTask
  confirm : Option ℕ
  sender : Option ℕ
  deriving DecidableEq

inductive ClusterPoint
  /-- Not in `cluster.lua`. -/
  | free
  /-- `request_sender` has not begun. -/
  | forked (q : ℕ)
  /-- `skynet.call` of `request_sender`. -/
  | asking (q : ℕ)
  /-- `skynet.wait(confirm)` at a task of `request_sender`. -/
  | confirming (q task : ℕ)
  /-- `skynet.wait(task)` of `get_sender`, called for a request. -/
  | queued (q : ℕ) (call : ClusterCall)
  deriving DecidableEq

inductive ClusterControl
  /-- Between two messages. -/
  | idle
  | running (co : ℕ)
  /-- `dispatch_wakeup`, called by `suspend`. -/
  | suspend
  /-- The loop over `fork_queue`. -/
  | forks
  deriving DecidableEq

/-- The service, with its queues for the node numbered as they are made.  Records of the run: the
requests that were made, those that are done, and what `clusterd` has answered. -/
structure ClusterClient where
  control : ClusterControl
  point : ℕ → ClusterPoint
  forkQueue : List ℕ
  wakeupQueue : List ℕ
  sleepSession : Finset ℕ
  sender : Option ℕ
  taskQueue : Option ℕ
  queues : ℕ → TaskQueue
  queueCount : ℕ
  made : List ClusterCall
  handled : List HandledCall
  answers : List (Option ℕ)

/-- What happens; `fork` is the coroutine that `skynet.fork` creates if it is called. -/
inductive ClusterAction
  /-- A coroutine that is not in `cluster.lua` is started, or goes on. -/
  | resume (co : ℕ)
  | request (call : ClusterCall) (fork : ℕ)
  /-- The coroutine that runs ends, or waits for something else. -/
  | yield
  /-- It ends by an error. -/
  | raise (fork : ℕ)
  | dispatchWakeup
  | forkNext
  /-- `clusterd` answers with the sender; without one if it fails, or has none. -/
  | answer (co : ℕ) (sender : Option ℕ)
  deriving DecidableEq

namespace ClusterClient

def setPoint (s : ClusterClient) (co : ℕ) (p : ClusterPoint) : ClusterClient :=
  { s with point := Function.update s.point co p }

def handle (s : ClusterClient) (call : ClusterCall) (outcome : ClusterOutcome) : ClusterClient :=
  { s with handled := s.handled ++ [⟨call, outcome, s.answers.length⟩] }

/-- `skynet.wakeup`.
SRC: skynet.lua:714-719 -/
def wakeup (s : ClusterClient) (token : ℕ) : ClusterClient :=
  if token ∈ s.sleepSession then { s with wakeupQueue := s.wakeupQueue ++ [token] } else s

/-- `skynet.wait` of the coroutine that runs, with its own token.
SRC: skynet.lua:383-391,413-416 -/
def wait (s : ClusterClient) (co : ℕ) (p : ClusterPoint) : ClusterClient :=
  { s.setPoint co p with sleepSession := insert co s.sleepSession, control := .suspend }

/-- The loop of `request_sender` over the tasks that are left, the first of which has a number,
and its end.
SRC: cluster.lua:22-33 -/
def flush (s : ClusterClient) (co q : ℕ) (sender : Option ℕ) : List ClusterTask → ℕ → ClusterClient
  | [], _ =>
    { s.setPoint co .free with taskQueue := none, sender := sender, control := .suspend }
  | .packed call :: tasks, i =>
    let s :=
      match sender with
      | some c => s.handle call (.passed c)
      | none => s.handle call .dropped
    s.flush co q sender tasks (i + 1)
  | .thread task :: _, i => (s.wakeup task).wait co (.confirming q i)

/-- `request_sender`, behind the answer.
SRC: cluster.lua:14-21 -/
def answer (s : ClusterClient) (co q : ℕ) (sender : Option ℕ) : ClusterClient :=
  let s := { s with
    answers := s.answers ++ [sender]
    queues := Function.update s.queues q
      { s.queues q with confirm := some co, sender := sender } }
  s.flush co q sender (s.queues q).tasks 0

/-- `get_sender` behind its wait, and `skynet.call` with what it returns.
SRC: cluster.lua:52-53,63,110 -/
def callSender (s : ClusterClient) (co q : ℕ) (call : ClusterCall) : ClusterClient :=
  let s :=
    match (s.queues q).confirm with
    | none => s
    | some confirm => s.wakeup confirm
  match (s.queues q).sender with
  | some c => { (s.setPoint co .free).handle call (.passed c) with control := .suspend }
  -- without an address `c.send` raises
  | none => { (s.setPoint co .free).handle call .raised with control := .running co }

/-- A coroutine that was woken goes on behind its `skynet.wait`.
SRC: skynet.lua:413-419 -/
def resumed (s : ClusterClient) (co : ℕ) : ClusterClient :=
  let s := { s with sleepSession := s.sleepSession.erase co }
  match s.point co with
  | .queued q call => s.callSender co q call
  | .confirming q i => s.flush co q (s.queues q).sender ((s.queues q).tasks.drop (i + 1)) (i + 1)
  | _ => { s with control := .running co }

/-- `dispatch_wakeup`.
SRC: skynet.lua:292-309 -/
def dispatchWakeup (s : ClusterClient) : ClusterClient :=
  match s.wakeupQueue with
  | [] => { s with control := .forks }
  | token :: tokens =>
    let s := { s with wakeupQueue := tokens }
    if token ∈ s.sleepSession then s.resumed token else s

/-- `task_queue[node]`, with `get_queue` if there is none.
SRC: cluster.lua:36-43 -/
def getQueue (s : ClusterClient) (fork : ℕ) : ℕ × ClusterClient :=
  match s.taskQueue with
  | some q => (q, s)
  | none =>
    (s.queueCount, { s.setPoint fork (.forked s.queueCount) with
        forkQueue := s.forkQueue ++ [fork]
        taskQueue := some s.queueCount
        queues := Function.update s.queues s.queueCount ⟨[], none, none⟩
        queueCount := s.queueCount + 1 })

/-- `table.insert(task_queue[node], task)`. -/
def insertTask (s : ClusterClient) (fork : ℕ) (task : ClusterTask) : ℕ × ClusterClient :=
  let (q, s) := s.getQueue fork
  let queue := { s.queues q with tasks := (s.queues q).tasks ++ [task] }
  (q, { s with queues := Function.update s.queues q queue })

/-- `cluster.send`, `cluster.call` and `cluster.query` by a coroutine.
SRC: cluster.lua:45-76,109-111 -/
def request (s : ClusterClient) (co : ℕ) (call : ClusterCall) (fork : ℕ) : ClusterClient :=
  let s := { s with made := s.made ++ [call] }
  match s.sender, call.kind with
  | some c, .send => s.handle call (.passed c)
  | some c, _ => { s.handle call (.passed c) with control := .suspend }
  | none, .send => (s.insertTask fork (.packed call)).2
  | none, _ =>
    let (q, s) := s.insertTask fork (.thread co)
    s.wait co (.queued q call)

/-- A coroutine in `fork_queue` begins; one that is not `request_sender` is the empty function
that `suspend` forks for an error.
SRC: cluster.lua:13, skynet.lua:327 -/
def fork (s : ClusterClient) (co : ℕ) : ClusterClient :=
  match s.point co with
  | .forked q => { s.setPoint co (.asking q) with control := .suspend }
  | _ => { s with control := .suspend }

def next (s : ClusterClient) : ClusterAction → Option ClusterClient
  | .resume co =>
    match s.control, s.point co with
    | .running _, _ => none
    | _, .free => some { s with control := .running co }
    | _, _ => none
  | .request call fork =>
    match s.control with
    | .running co =>
      if s.point fork = .free ∧ fork ≠ co then some (s.request co call fork) else none
    | _ => none
  | .yield =>
    match s.control with
    | .running _ => some { s with control := .suspend }
    | _ => none
  | .raise fork =>
    match s.control with
    | .running _ =>
      if s.point fork = .free then
        some { s with forkQueue := s.forkQueue ++ [fork], control := .forks }
      else none
    | _ => none
  | .dispatchWakeup =>
    match s.control with
    | .suspend => some s.dispatchWakeup
    | _ => none
  | .forkNext =>
    match s.control, s.forkQueue with
    | .forks, [] => some { s with control := .idle }
    | .forks, co :: cos => some ({ s with forkQueue := cos }.fork co)
    | _, _ => none
  | .answer co sender =>
    match s.control, s.point co with
    | .idle, .asking q => some (s.answer co q sender)
    | _, _ => none

def init : ClusterClient :=
  ⟨.idle, fun _ => .free, [], [], ∅, none, none, fun _ => ⟨[], none, none⟩, 0, [], [], []⟩

def machine : Machine ClusterClient ClusterAction := ⟨fun s => s = init, next⟩

end ClusterClient

end Skynet.Model
