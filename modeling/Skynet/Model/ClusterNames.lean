import Mathlib.Data.Finset.Card
import Skynet.Library.LittleEndian
import Skynet.Library.LuaTable
import Skynet.Library.Machine

/-!
# Names of a cluster

The names that services register at `service/clusterd.lua`, and the cache of a
`service/clusteragent.lua`, which asks `clusterd` for the names that its requests go to.

Between the two are the queries on their way to `clusterd`, and the answers and notices on their
way back, each in the order in which they were sent.  The caches are numbered; the agent reads
names from the last one.
-/

namespace Skynet.Model

open Library

/-- A query of the agent to `clusterd`: the request that asks, the name without its `@`, and the
cache for which it asks. -/
structure NameQuery where
  request : ℕ
  name : Bytes
  cache : ℕ
  deriving DecidableEq

/-- What `clusterd` sends to the agent. -/
inductive NameReply
  | namechange
  | answer (query : NameQuery) (addr : Option ℕ)
  deriving DecidableEq

/-- A request that waits for the query of another one; as a record of the run, the cache for
which the other one asks. -/
structure NameWaiter where
  request : ℕ
  name : Bytes
  cache : ℕ
  asked : ℕ
  deriving DecidableEq

/-- An entry of `inquery_name`, with the cache for which the query asks as a record. -/
structure NameInquery where
  cache : ℕ
  waitco : List NameWaiter

/-- What a request found: the cache it asked, the cache for which the query asked that it waited
for, and the address; without one the request is rejected. -/
structure NameOutcome where
  request : ℕ
  name : Bytes
  cache : ℕ
  waited : Option ℕ
  addr : Option ℕ
  deriving DecidableEq

/-- `clusterd`, an agent, and what is on its way between them.  Records of the run: how many
notices were sent to the agent, the names after each registration with the number of notices
then, the requests that are not dispatched, and what requests found. -/
structure ClusterNames where
  names : Table Bytes ℕ
  addrs : Table ℕ Bytes
  agent : Bool
  queries : List NameQuery
  replies : List NameReply
  caches : ℕ → Table Bytes ℕ
  registerName : ℕ
  inquery : Table Bytes NameInquery
  woken : List NameWaiter
  changes : ℕ
  past : List (ℕ × Table Bytes ℕ)
  pending : Finset ℕ
  found : List NameOutcome

inductive ClusterNamesAction
  /-- `newservice` returns to `clusterd`, which knows the agent from then on. -/
  | opened
  | register (name : Bytes) (addr : ℕ)
  | queryname
  | deliver
  /-- A request to `@name`, or for the address of the name, is to be dispatched. -/
  | request (number : ℕ) (name : Bytes)
  /-- A request that was woken goes on. -/
  | resume (waiter : NameWaiter)
  deriving DecidableEq

namespace ClusterNames

/-- `clearnamecache`; an agent that is still starting is passed over.
SRC: clusterd.lua:185-191 -/
def clearnamecache (s : ClusterNames) : ClusterNames :=
  if s.agent then
    { s with replies := s.replies ++ [.namechange], changes := s.changes + 1 }
  else s

/-- `command.register`; a name that is registered already is an error.
SRC: clusterd.lua:193-205 -/
def register (s : ClusterNames) (name : Bytes) (addr : ℕ) : ClusterNames :=
  match s.names.get name with
  | some _ => s
  | none =>
    let s :=
      match s.addrs.get addr with
      | none => s
      | some oldName => { s with names := s.names.put oldName none }.clearnamecache
    let names := s.names.put name (some addr)
    { s with
      addrs := s.addrs.put addr (some name)
      names := names
      past := s.past ++ [(s.changes, names)] }

/-- `command.queryname`.
SRC: clusterd.lua:207-209 -/
def queryname (s : ClusterNames) (q : NameQuery) (queries : List NameQuery) : ClusterNames :=
  { s with queries := queries, replies := s.replies ++ [.answer q (s.names.get q.name)] }

/-- The rest of `dispatch_request` with what it has found.
SRC: clusteragent.lua:78-123 -/
def dispatch (s : ClusterNames) (o : NameOutcome) : ClusterNames :=
  { s with pending := s.pending.erase o.request, found := s.found ++ [o] }

/-- `register_name[name]`, up to the query or the wait.
SRC: clusteragent.lua:16-26, 81, 92 -/
def request (s : ClusterNames) (number : ℕ) (name : Bytes) : ClusterNames :=
  match (s.caches s.registerName).get name with
  | some addr => s.dispatch ⟨number, name, s.registerName, none, some addr⟩
  | none =>
    match s.inquery.get name with
    | some q =>
      { s with
        inquery := s.inquery.put name
          (some { q with waitco := q.waitco ++ [⟨number, name, s.registerName, q.cache⟩] })
        pending := insert number s.pending }
    | none =>
      { s with
        inquery := s.inquery.put name (some ⟨s.registerName, []⟩)
        queries := s.queries ++ [⟨number, name, s.registerName⟩]
        pending := insert number s.pending }

/-- The answer to a query: the rest of `__index`.
SRC: clusteragent.lua:27-34 -/
def answer (s : ClusterNames) (q : NameQuery) (addr : Option ℕ) : ClusterNames :=
  let s :=
    match addr with
    | none => s
    | some a =>
      { s with caches := Function.update s.caches q.cache ((s.caches q.cache).put q.name (some a)) }
  let waitco :=
    match s.inquery.get q.name with
    | none => []
    | some e => e.waitco
  { s with
    inquery := s.inquery.put q.name none
    woken := s.woken ++ waitco }.dispatch ⟨q.request, q.name, q.cache, none, addr⟩

/-- A message of `clusterd` at the agent.
SRC: clusteragent.lua:136-145 -/
def deliver (s : ClusterNames) (m : NameReply) (replies : List NameReply) : ClusterNames :=
  match m with
  | .namechange => { s with replies := replies, registerName := s.registerName + 1 }
  | .answer q addr => { s with replies := replies }.answer q addr

/-- A request goes on that has waited; it reads the cache that it asked.
SRC: clusteragent.lua:20-22 -/
def resume (s : ClusterNames) (w : NameWaiter) : ClusterNames :=
  { s with woken := s.woken.erase w }.dispatch
    ⟨w.request, w.name, w.cache, some w.asked, (s.caches w.cache).get w.name⟩

/-- The state after a step; `none` where there is nothing to take the step for. -/
def next (s : ClusterNames) : ClusterNamesAction → Option ClusterNames
  | .opened => some { s with agent := true }
  | .register name addr => some (s.register name addr)
  | .queryname =>
    match s.queries with
    | [] => none
    | q :: queries => some (s.queryname q queries)
  | .deliver =>
    match s.replies with
    | [] => none
    | m :: replies => some (s.deliver m replies)
  | .request number name => if number ∉ s.pending then some (s.request number name) else none
  | .resume w => if w ∈ s.woken then some (s.resume w) else none

def init : ClusterNames := ⟨∅, ∅, false, [], [], fun _ => ∅, 0, ∅, [], 0, [(0, ∅)], ∅, []⟩

/-- `clusterd` and an agent. -/
def machine : Machine ClusterNames ClusterNamesAction := ⟨fun s => s = init, next⟩

end ClusterNames

end Skynet.Model
