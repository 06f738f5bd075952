import Skynet.Library.LuaTable
import Skynet.Library.Machine

/-!
# The manager of unique services

`service/service_mgr.lua`: one entry for each name of a unique service, the coroutines of
the requests for it, and the manager as a machine.  A coroutine runs until it yields, in
the call that launches a service or in `skynet.wait`; requests, returns of these calls and
the resumption of woken coroutines interleave in any order.

The requests are numbered, and a coroutine is known by the number of its request.  The log
of launches and the answers are records of the run: the code never looks at them.

One manager is registered as `SERVICE`; the managers of the other nodes forward to it the
requests for services of the whole network, one call at a time for each name.  Calls and
answers are on their way for any time and overtake each other; the managers run in any
order.

A call is known by the node and the coroutine it comes from, which stand for its source and
its session.  `callers` has them for the requests of the master that came as calls.
-/

namespace Skynet.Model

open Library

/-! ## Data -/

/-- A Lua string. -/
abbrev LuaString := List Char

/-- The commands for unique services, with the arguments that the caller gave. -/
inductive MgrCommand
  | launch (serviceName : LuaString) (args : List LuaString)
  | query (serviceName : LuaString) (args : List LuaString)
  | glaunch (name : LuaString) (args : List LuaString)
  | gquery (name : LuaString) (args : List LuaString)
  deriving DecidableEq

/-- The functions that `waitfor` gets for launching: `skynet.newservice`,
`snax.rawnewservice`, or a call of the manager that is registered as `SERVICE`. -/
inductive LaunchFunc
  | newservice (realname : LuaString) (args : List LuaString)
  | rawnewservice (args : List LuaString)
  | callService (command : MgrCommand)
  deriving DecidableEq

/-- What `pcall(func, ...)` gives: an error, a handle, or `nil`. -/
inductive LaunchResult
  | raised (err : LuaString)
  | returned (handle : Option ℕ)
  deriving DecidableEq

structure Waiter where
  co : ℕ
  session : ℕ
  source : ℕ
  deriving DecidableEq

/-- The value of a name in `service`: a table, an address or an error. -/
inductive ServiceEntry
  | pending (launch : Option Waiter) (waiting : List Waiter)
  | handle (h : ℕ)
  | failed (err : LuaString)
  deriving DecidableEq

/-- Where the coroutine of a request is: in the launching call, in `skynet.wait`, or in the
queue of the coroutines that were woken. -/
inductive MgrThread
  | launching (name : LuaString) (func : LaunchFunc)
  | waiting (name : LuaString)
  | woken (name : LuaString)
  deriving DecidableEq

/-- The message of an answer: `pack(r)`, or `pack(nil, r)` with an error. -/
inductive MgrReply
  | value (r : Option ℕ)
  | error (r : LuaString)
  deriving DecidableEq

structure MgrRequest where
  session : ℕ
  source : ℕ
  command : MgrCommand
  deriving DecidableEq

/-- Records of launches; with the end of a launch, the coroutines that waited for its name
at that moment. -/
inductive LaunchRecord
  | started (name : LuaString) (co : ℕ)
  | ended (name : LuaString) (co : ℕ) (result : LaunchResult) (waiting : List ℕ)
  deriving DecidableEq

/-- A service manager: its table, its coroutines, and records of the run. -/
structure ServiceMgr where
  service : Table LuaString ServiceEntry
  threads : Table ℕ MgrThread
  requests : List MgrRequest
  log : List LaunchRecord
  answers : List (ℕ × MgrReply)

namespace ServiceMgr

def init : ServiceMgr := ⟨∅, ∅, [], [], []⟩

/-- The text of an error that is raised in a line of the chunk.
SRC: lauxlib.c luaL_where, lbaselib.c luaB_error -/
def raisedAt (chunk : LuaString) (line : ℕ) (msg : LuaString) : LuaString :=
  chunk ++ ':' :: Nat.toDigits 10 line ++ ':' :: ' ' :: msg

/-- The message of a failed `assert`. -/
def assertionFailed : LuaString := "assertion failed!".toList

/-! ## Coroutines -/

/-- The session that `skynet.context` gives in a coroutine. -/
def session (m : ServiceMgr) (co : ℕ) : ℕ := (m.requests[co]?.map (·.session)).getD 0

/-- The source that `skynet.context` gives in a coroutine. -/
def source (m : ServiceMgr) (co : ℕ) : ℕ := (m.requests[co]?.map (·.source)).getD 0

/-- The coroutine of a request ends: `skynet.ret` sends the answer, unless the request came
without a session. -/
def ret (m : ServiceMgr) (co : ℕ) (reply : MgrReply) : ServiceMgr := { m with
    threads := m.threads.put co none
    answers := if m.session co = 0 then m.answers else m.answers ++ [(co, reply)] }

/-- `skynet.wakeup` of a coroutine: it has an effect on one that sleeps. -/
def wakeup (m : ServiceMgr) (co : ℕ) : ServiceMgr :=
  match m.threads.get co with
  | some (.waiting name) => { m with threads := m.threads.put co (some (.woken name)) }
  | _ => m

/-- The rest of `request` once `pcall` has returned; `none` when the coroutine is not in
that call.
SRC: service_mgr.lua:8-27, 206-212 -/
def request (chunk : LuaString) (m : ServiceMgr) (co : ℕ) (result : LaunchResult) :
    Option ServiceMgr :=
  match m.threads.get co with
  | some (.launching name _) =>
    match m.service.get name with
    | some (.pending _ waiting) =>
      let entry := match result with
        | .raised err => some (.failed err)
        | .returned handle => handle.map .handle
      let reply := match result with
        | .raised err => .error (raisedAt chunk 25 err)
        | .returned handle => .value handle
      let ended := { m with
        service := m.service.put name entry
        log := m.log ++ [.ended name co result (m.threads.keysOf (.waiting name))] }
      some (((waiting.map (·.co)).foldl wakeup ended).ret co reply)
    | _ => some (m.ret co (.error (raisedAt chunk 11 assertionFailed)))
  | _ => none

/-- `waitfor` up to where the coroutine yields or returns.
SRC: service_mgr.lua:29-61, 206-212 -/
def waitfor (chunk : LuaString) (m : ServiceMgr) (co : ℕ) (name : LuaString)
    (func : Option LaunchFunc) : ServiceMgr :=
  let self : Waiter := ⟨co, m.session co, m.source co⟩
  let enter (launch : Option Waiter) (waiting : List Waiter) : ServiceMgr :=
    match launch, func with
    | none, some func => { m with
        service := m.service.put name (some (.pending (some self) waiting))
        threads := m.threads.put co (some (.launching name func))
        log := m.log ++ [.started name co] }
    | launch, _ => { m with
        service := m.service.put name (some (.pending launch (waiting ++ [self])))
        threads := m.threads.put co (some (.waiting name)) }
  match m.service.get name with
  | some (.handle h) => m.ret co (.value (some h))
  | some (.failed err) => m.ret co (.error (raisedAt chunk 40 err))
  | some (.pending launch waiting) => enter launch waiting
  | none => enter none []

/-- The rest of `waitfor` after `skynet.wait`; `none` when the coroutine was not woken.
SRC: service_mgr.lua:62-67, 206-212 -/
def resume (chunk : LuaString) (m : ServiceMgr) (co : ℕ) : Option ServiceMgr :=
  match m.threads.get co with
  | some (.woken name) =>
    match m.service.get name with
    | some (.failed err) => some (m.ret co (.error (raisedAt chunk 64 err)))
    | some (.handle h) => some (m.ret co (.value (some h)))
    | _ => some (m.ret co (.error (raisedAt chunk 66 assertionFailed)))
  | _ => none

/-! ## Commands -/

/-- SRC: service_mgr.lua:70-76 -/
def readName (serviceName : LuaString) : LuaString :=
  match serviceName with
  | '@' :: name => name
  | name => name

/-- The name of the services that are launched through `snax`. -/
def snaxd : LuaString := "snaxd".toList

/-- The error of a concatenation with `nil`: its line and its text. -/
abbrev ConcatError := ℕ × LuaString

/-- The name that `cmd.LAUNCH` and `cmd.QUERY` give to `waitfor`, or the error in their
line `line` when `subname` is missing.
SRC: service_mgr.lua:78-96 -/
def localName (line : ℕ) (serviceName : LuaString) (args : List LuaString) :
    Except ConcatError LuaString :=
  if readName serviceName = snaxd then
    match args with
    | subname :: _ => .ok (serviceName ++ '.' :: subname)
    | [] => .error (line, "attempt to concatenate a nil value (local 'subname')".toList)
  else .ok serviceName

/-- SRC: service_mgr.lua:78-86 -/
def launchFunc (serviceName : LuaString) (args : List LuaString) : LaunchFunc :=
  if readName serviceName = snaxd then .rawnewservice args
  else .newservice (readName serviceName) args

/-- The name that `waitfor_remote` gives to `waitfor`.
SRC: service_mgr.lua:172-181 -/
def remoteName (name : LuaString) (args : List LuaString) : Except ConcatError LuaString :=
  if name = snaxd then
    match args with
    | subname :: _ => .ok ('@' :: name ++ '.' :: subname)
    | [] => .error (176, "attempt to concatenate a nil value".toList)
  else .ok ('@' :: name)

/-- What a command gives to `waitfor`, at the manager that is registered as `SERVICE` or
at another one.
SRC: service_mgr.lua:78-96, 133-142, 171-189 -/
def target (standalone : Bool) :
    MgrCommand → Except ConcatError (LuaString × Option LaunchFunc)
  | .launch serviceName args =>
    (localName 82 serviceName args).map (·, some (launchFunc serviceName args))
  | .query serviceName args => (localName 92 serviceName args).map (·, none)
  | .glaunch name args =>
    if standalone then
      (localName 82 ('@' :: name) args).map (·, some (launchFunc ('@' :: name) args))
    else (remoteName name args).map (·, some (.callService (.launch ('@' :: name) args)))
  | .gquery name args =>
    if standalone then (localName 92 ('@' :: name) args).map (·, none)
    else (remoteName name args).map (·, some (.callService (.query ('@' :: name) args)))

/-- A request is dispatched: its coroutine runs up to where it yields or returns.
SRC: service_mgr.lua:198-213 -/
def dispatch (chunk : LuaString) (standalone : Bool) (m : ServiceMgr) (req : MgrRequest) :
    ServiceMgr :=
  let co := m.requests.length
  let m := { m with requests := m.requests ++ [req] }
  match target standalone req.command with
  | .ok (name, func) => m.waitfor chunk co name func
  | .error (line, msg) => m.ret co (.error (raisedAt chunk line msg))

end ServiceMgr

/-! ## The machine -/

inductive MgrEvent
  | request (req : MgrRequest)
  | returned (co : ℕ) (result : LaunchResult)
  | resume (co : ℕ)
  deriving DecidableEq

/-- A service manager under any interleaving of requests, ends of launches and
resumptions of the coroutines that were woken. -/
def serviceMgrMachine (chunk : LuaString) (standalone : Bool) : Machine ServiceMgr MgrEvent where
  start m := m = .init
  next m
    | .request req => some (m.dispatch chunk standalone req)
    | .returned co result => m.request chunk co result
    | .resume co => m.resume chunk co

open ServiceMgr

/-- A request that a manager sends to `SERVICE`. -/
structure ServiceCall where
  node : ℕ
  co : ℕ
  command : MgrCommand
  deriving DecidableEq

/-- The manager `SERVICE`, the managers of the other nodes, and the calls on their way. -/
structure ServiceNet where
  master : ServiceMgr
  slaves : ℕ → ServiceMgr
  calls : List ServiceCall
  callers : Table ℕ (ℕ × ℕ)

def MgrCommand.isGlobal : MgrCommand → Bool
  | .glaunch .. => true
  | .gquery .. => true
  | _ => false

namespace ServiceNet

def init : ServiceNet := ⟨.init, fun _ => .init, [], ∅⟩

def putSlave (net : ServiceNet) (node : ℕ) (m : ServiceMgr) : ServiceNet :=
  { net with slaves := fun i => if i = node then m else net.slaves i }

/-- The call that the coroutine of a new request has made, if it is in one.
SRC: service_mgr.lua:180 -/
def sentBy (node : ℕ) (m : ServiceMgr) (co : ℕ) : List ServiceCall :=
  match m.threads.get co with
  | some (.launching _ (.callService command)) => [⟨node, co, command⟩]
  | _ => []

/-- What `pcall(skynet.call, "SERVICE", ...)` gives for an answer: `pack(nil, r)` has `nil`
as its first value.
SRC: service_mgr.lua:9, 180, 208-211 -/
def callResult : MgrReply → LaunchResult
  | .value r => .returned r
  | .error _ => .returned none

end ServiceNet

inductive NetEvent
  | slaveRequest (node : ℕ) (req : MgrRequest)
  | masterRequest (req : MgrRequest)
  | arrive (i : ℕ)
  | answer (i : ℕ)
  | launched (co : ℕ) (result : LaunchResult)
  | resumeMaster (co : ℕ)
  | resumeSlave (node co : ℕ)
  deriving DecidableEq

namespace ServiceNet

/-- One step of the network: a request comes to a node, a call arrives at `SERVICE`, one
of the answers of `SERVICE` arrives, a launch ends, or a woken coroutine goes on.
SRC: service_mgr.lua:171-189, 198-213 -/
def next (chunk : LuaString) (net : ServiceNet) : NetEvent → Option ServiceNet
  | .slaveRequest node req =>
    if req.command.isGlobal then
      let m := (net.slaves node).dispatch chunk false req
      let calls := net.calls ++ sentBy node m (net.slaves node).requests.length
      some { net.putSlave node m with calls := calls }
    else none
  | .masterRequest req => some { net with master := net.master.dispatch chunk true req }
  | .arrive i =>
    net.calls[i]?.map fun call => { net with
      master := net.master.dispatch chunk true ⟨call.co + 1, call.node, call.command⟩
      calls := net.calls.eraseIdx i
      callers := net.callers.put net.master.requests.length (some (call.node, call.co)) }
  | .answer i => do
    let (asked, reply) ← net.master.answers[i]?
    let (node, co) ← net.callers.get asked
    let m ← (net.slaves node).request chunk co (callResult reply)
    return net.putSlave node m
  | .launched co result =>
    (net.master.request chunk co result).map fun m => { net with master := m }
  | .resumeMaster co => (net.master.resume chunk co).map fun m => { net with master := m }
  | .resumeSlave node co => ((net.slaves node).resume chunk co).map (net.putSlave node)

end ServiceNet

/-- A network of service managers under any interleaving. -/
def serviceNetMachine (chunk : LuaString) : Machine ServiceNet NetEvent where
  start net := net = .init
  next := ServiceNet.next chunk

end Skynet.Model
