import Mathlib.Data.Finset.Card
import Skynet.Library.LuaTable
import Skynet.Library.Machine
import Skynet.Model.ShareData

/-!
# The objects of sharedatad

The service of `service/sharedatad.lua`, and the clients of `lualib/skynet/sharedata.lua`.  A C
object is its address; its count and its dirty flag are what the functions of `lua-sharedata.c`
read and write.  A request that is on its way is handled at any time, and so is an answer taken.

A root is what `sharedata.query` returns, with the coroutine that follows the updates of its name.
The boxes are those that the roots have now and those that their children may still have.
-/

namespace Skynet.Model

open Library

/-- `pool[name]` with `pool_count[name]`; a response of `watch` is the root that waits for it. -/
structure ShareEntry where
  obj : ℕ
  watch : List ℕ
  n : ℤ
  threshold : ℤ
  deriving DecidableEq

/-- A call of `CMD.new`, by itself or in `CMD.update`, while the data of the name is evaluated;
`old` is the version before, and who watches it. -/
structure ShareJob where
  name : Bytes
  update : Bool
  old : Option (ℕ × List ℕ)
  deriving DecidableEq

/-- The argument `t` of `CMD.new`. -/
inductive ShareSource
  | table (t : LuaValue ℕ)
  | string (s : Bytes)
  | nil
  /-- A value of another type. -/
  | other

/-- What `CMD.new` makes the object of.  `chunk` loads a file or a string and runs it: it gives the
environment and the value that is returned, and nothing where this fails.
SRC: sharedatad.lua:53-77 -/
def shareValue (chunk : Bool → Bytes → Option (LuaValue ℕ × LuaValue ℕ)) :
    ShareSource → Option (LuaValue ℕ)
  | .table t => some t
  | .string s =>
    (if s.head? = some 64 then chunk true s.tail else chunk false s).map fun (value, ret) =>
      match ret with
      | .table _ _ => ret
      | _ => value
  | .nil => some (.table 0 [])
  | .other => none

/-- The data of a name can be evaluated, and an object can be made of it. -/
def ShareAccepted (calls : ℕ) (chunk : Bool → Bytes → Option (LuaValue ℕ × LuaValue ℕ))
    (source : ShareSource) : Prop :=
  ((shareValue chunk source).any fun value => (lnewconf calls value).isOk) = true

instance (calls : ℕ) (chunk : Bool → Bytes → Option (LuaValue ℕ × LuaValue ℕ))
    (source : ShareSource) : Decidable (ShareAccepted calls chunk source) :=
  inferInstanceAs (Decidable (_ = true))

inductive ShareRequest
  | query (client : ℕ) (name : Bytes)
  /-- The query of `sharedata.deepcopy`. -/
  | copy (client : ℕ) (name : Bytes)
  | monitor (root : ℕ)
  | confirm (obj : ℕ)
  deriving DecidableEq

inductive ShareAnswer
  | query (client : ℕ) (name : Bytes) (obj : ℕ)
  | copy (client : ℕ) (obj : ℕ)
  | monitor (root : ℕ) (newobj : ℕ)
  /-- The `nil` of `CMD.delete`. -/
  | closed (root : ℕ)
  /-- The error of `CMD.monitor`. -/
  | failed (root : ℕ)
  deriving DecidableEq

def ShareAnswer.obj : ShareAnswer → Option ℕ
  | .query _ _ obj => some obj
  | .copy _ obj => some obj
  | .monitor _ newobj => some newobj
  | .closed _ => none
  | .failed _ => none

inductive ShareRootState
  /-- Before the request for updates. -/
  | ready
  | waiting
  /-- The coroutine is over. -/
  | ended
  /-- Nobody has the root or a child of it. -/
  | dropped
  deriving DecidableEq

/-- `newobj` is the local of `monitor`, `gcobj` the box in `__gcobj`. -/
structure ShareRoot where
  client : ℕ
  name : Bytes
  newobj : ℕ
  gcobj : ℕ
  state : ShareRootState
  deriving DecidableEq

/-- `struct ctrl`; `update` is the box that comes with the pointer. -/
structure ShareBox where
  root : ℕ
  obj : ℕ
  update : Option ℕ
  released : Bool
  deriving DecidableEq

/-- `cleared` has the roots whose responses are no longer in `unresponse`. -/
structure Sharedatad where
  pool : Table Bytes ShareEntry
  objmap : Table ℕ Bool
  collectTick : ℕ
  jobs : List ShareJob
  cleared : List ℕ
  ref : ℕ → ℤ
  dirty : ℕ → Bool
  requests : List ShareRequest
  answers : List ShareAnswer
  roots : List ShareRoot
  boxes : List ShareBox
  cache : ℕ → Bytes → Option ℕ
  exited : Finset ℕ

inductive SharedatadAction
  | new (name : Bytes)
  | update (name : Bytes)
  /-- The evaluation gives a value, and the object of it is made. -/
  | made (job : ShareJob) (obj : ℕ)
  | failed (job : ShareJob)
  | delete (name : Bytes)
  | handle (request : ShareRequest)
  | minute
  /-- The error that a client which exits leaves behind. -/
  | notice (client : ℕ)
  | query (client : ℕ) (name : Bytes)
  | deepcopy (client : ℕ) (name : Bytes)
  | monitor (root : ℕ)
  | take (answer : ShareAnswer)
  /-- `sd.copy` raises an error. -/
  | raised (answer : ShareAnswer)
  /-- A proxy that has the box finds an update. -/
  | getcobj (box : ℕ)
  | drop (root : ℕ)
  | release (box : ℕ)
  | exit (client : ℕ)
  deriving DecidableEq

namespace Sharedatad

def alive (s : Sharedatad) (root : ℕ) : Bool := s.roots[root]?.any fun r => r.client ∉ s.exited

def incref (s : Sharedatad) (obj : ℕ) : Sharedatad :=
  { s with ref := Function.update s.ref obj (s.ref obj + 1) }

def decref (s : Sharedatad) (obj : ℕ) : Sharedatad :=
  { s with ref := Function.update s.ref obj (s.ref obj - 1) }

def markdirty (s : Sharedatad) (obj : ℕ) : Sharedatad :=
  { s with dirty := Function.update s.dirty obj true }

def setRoot (s : Sharedatad) (i : ℕ) (root : ShareRoot) : Sharedatad :=
  { s with roots := s.roots.set i root }

def request (s : Sharedatad) (m : ShareRequest) : Sharedatad :=
  { s with requests := s.requests ++ [m] }

/-- An answer to a service; none comes to one that has exited. -/
def answer (s : Sharedatad) (client : ℕ) (a : ShareAnswer) : Sharedatad :=
  if client ∈ s.exited then s else { s with answers := s.answers ++ [a] }

/-- The answers to the roots of a `watch`. -/
def respond (s : Sharedatad) (watch : List ℕ) (a : ℕ → ShareAnswer) : Sharedatad :=
  { s with answers := s.answers ++ (watch.filter s.alive).map a }

/-! ## The service -/

/-- `newobj`, up to the assertion that there is no object of the name.
SRC: sharedatad.lua:13-21 -/
def newobj (s : Sharedatad) (name : Bytes) (obj : ℕ) : Sharedatad := { s with
    ref := Function.update s.ref obj 1
    dirty := Function.update s.dirty obj false
    objmap := s.objmap.put obj (some false)
    pool := s.pool.put name (some ⟨obj, [], 0, 16⟩) }

/-- The version of a name is no longer the current one. -/
def supersede (s : Sharedatad) (name : Bytes) (v : ShareEntry) : Sharedatad :=
  { s.decref v.obj with
    objmap := s.objmap.put v.obj (some true)
    pool := s.pool.put name none }

/-- `collect1min`.
SRC: sharedatad.lua:23-27 -/
def collect1min (s : Sharedatad) : Sharedatad :=
  { s with collectTick := if s.collectTick > 1 then 1 else s.collectTick }

/-- What `collectobj` finds to delete. -/
def unreferenced (s : Sharedatad) : List ℕ := (s.objmap.keysOf true).filter fun obj => s.ref obj ≤ 0

def collect (s : Sharedatad) : Sharedatad :=
  { s with objmap := s.objmap.putAll s.unreferenced none }

/-- A minute of `collectobj`.
SRC: sharedatad.lua:29-47 -/
def minute (s : Sharedatad) : Sharedatad :=
  if s.collectTick ≤ 0 then { s.collect with collectTick := 10 }
  else { s with collectTick := s.collectTick - 1 }

/-- `CMD.update`, up to the call of `CMD.new`.
SRC: sharedatad.lua:106-117 -/
def update (s : Sharedatad) (name : Bytes) : Sharedatad :=
  match s.pool.get name with
  | none => { s with jobs := s.jobs ++ [⟨name, true, none⟩] }
  | some v =>
    { s.supersede name v with jobs := s.jobs ++ [⟨name, true, some (v.obj, v.watch)⟩] }

/-- The call of `CMD.new` in `CMD.update`. -/
def updateJob (s : Sharedatad) (name : Bytes) : ShareJob :=
  ⟨name, true, (s.pool.get name).map fun v => (v.obj, v.watch)⟩

/-- How the call ends when the data has been evaluated; `obj` is the address of the new object.
SRC: sharedatad.lua:13-21,70-76 -/
def evaluated (s : Sharedatad) (job : ShareJob) (accepted : Prop) [Decidable accepted] (obj : ℕ) :
    SharedatadAction :=
  if s.pool.get job.name = none ∧ accepted then .made job obj else .failed job

/-- The rest of `CMD.update`.  The old object may have been deleted while the new data was
evaluated, and `markdirty` writes to it then; only the flag is kept here.
SRC: sharedatad.lua:118-126 -/
def updated (s : Sharedatad) (obj : ℕ) : Option (ℕ × List ℕ) → Sharedatad
  | none => s.collect1min
  | some (old, watch) =>
    collect1min { (s.markdirty old).respond watch (.monitor · obj) with
      ref := Function.update s.ref obj (s.ref obj + watch.length) }

/-- The end of `CMD.new`, and of `CMD.update`. -/
def made (s : Sharedatad) (job : ShareJob) (obj : ℕ) : Sharedatad :=
  let s := { s with jobs := s.jobs.erase job }.newobj job.name obj
  if job.update then s.updated obj job.old else s

/-- `CMD.delete`; there is nothing of it where there is no such name.
SRC: sharedatad.lua:79-89 -/
def delete (s : Sharedatad) (name : Bytes) : Sharedatad :=
  match s.pool.get name with
  | none => s
  | some v => (s.supersede name v).respond v.watch .closed

/-- `CMD.query`.
SRC: sharedatad.lua:91-96 -/
def query (s : Sharedatad) (client : ℕ) (name : Bytes) (a : ℕ → ShareAnswer) : Sharedatad :=
  match s.pool.get name with
  | none => s
  | some v => (s.incref v.obj).answer client (a v.obj)

/-- `CMD.confirm`.
SRC: sharedatad.lua:98-103 -/
def confirm (s : Sharedatad) (obj : ℕ) : Sharedatad :=
  if (s.objmap.get obj).isSome then s.decref obj else s

/-- `CMD.monitor` for the current version, with `check_watch`.
SRC: sharedatad.lua:128-137,147-155 -/
def watched (s : Sharedatad) (v : ShareEntry) (root : ℕ) : ShareEntry :=
  if v.n + 1 > v.threshold then
    let watch := v.watch.filter (· ∉ s.cleared)
    let n := v.n + 1 - (v.watch.length - watch.length)
    ⟨v.obj, watch ++ [root], n, n * 2⟩
  else ⟨v.obj, v.watch ++ [root], v.n + 1, v.threshold⟩

/-- `CMD.monitor`.
SRC: sharedatad.lua:140-156 -/
def monitor (s : Sharedatad) (i : ℕ) (root : ShareRoot) : Sharedatad :=
  match s.pool.get root.name with
  | none => s.answer root.client (.failed i)
  | some v =>
    if root.newobj ≠ v.obj then (s.incref v.obj).answer root.client (.monitor i v.obj)
    else { s with pool := s.pool.put root.name (some (s.watched v i)) }

def handle (s : Sharedatad) : ShareRequest → Sharedatad
  | .query client name => s.query client name (.query client name)
  | .copy client name => s.query client name (.copy client)
  | .confirm obj => s.confirm obj
  | .monitor i =>
    match s.roots[i]? with
    | none => s
    | some root => s.monitor i root

/-- The responses to a client that has exited leave `unresponse`. -/
def notice (s : Sharedatad) (client : ℕ) : Sharedatad := { s with
    cleared := s.cleared ++ (List.range s.roots.length).filter fun i =>
      s.roots[i]?.any (·.client = client) ∧ .monitor i ∉ s.requests }

/-! ## The clients -/

/-- `cache[name]`; nothing is left there of a root that nobody has. -/
def cached (s : Sharedatad) (client : ℕ) (name : Bytes) : Option ℕ :=
  (s.cache client name).filter fun i => s.roots[i]?.any (·.state ≠ .dropped)

def setCache (s : Sharedatad) (client : ℕ) (name : Bytes) (root : Option ℕ) : Sharedatad :=
  { s with
    cache := fun c n => if c = client ∧ n = name then root else s.cache c n }

def rootObj (s : Sharedatad) (root : ShareRoot) : Option ℕ := s.boxes[root.gcobj]?.map (·.obj)

/-- `core.box`.
SRC: lua-sharedata.c:675-693 -/
def box (s : Sharedatad) (root obj : ℕ) : Sharedatad :=
  { s.incref obj with boxes := s.boxes ++ [⟨root, obj, none, false⟩] }

/-- The end of `sharedata.query`.
SRC: sharedata.lua:28-42 -/
def queried (s : Sharedatad) (client : ℕ) (name : Bytes) (obj : ℕ) : Sharedatad :=
  if ((s.cached client name).bind fun i => s.roots[i]?.bind s.rootObj) = some obj then
    s.request (.confirm obj)
  else
    let root := ⟨client, name, obj, s.boxes.length, .ready⟩
    let s' := ((s.box s.roots.length obj).request (.confirm obj)).setCache client name
      (some s.roots.length)
    { s' with roots := s.roots ++ [root] }

/-- `core.update`.
SRC: lua-sharedata.c:751-766 -/
def setUpdate (s : Sharedatad) (gcobj : ℕ) (box : ℕ) : Sharedatad :=
  match s.boxes[gcobj]? with
  | none => s
  | some b => { s with boxes := s.boxes.set gcobj { b with update := some box } }

/-- Whether `sd.update` accepts an object for the root: it has a dirty one, and another. -/
def accepts (s : Sharedatad) (root : ShareRoot) (newobj : ℕ) : Prop :=
  ∃ obj ∈ s.rootObj root, s.dirty obj = true ∧ obj ≠ newobj

instance (s : Sharedatad) (root : ShareRoot) (newobj : ℕ) : Decidable (s.accepts root newobj) :=
  inferInstanceAs (Decidable (∃ obj ∈ s.rootObj root, s.dirty obj = true ∧ obj ≠ newobj))

/-- `sd.update` and the confirmation; an error ends the coroutine.
SRC: sharedata.lua:19-20, corelib.lua:129-133 -/
def monitored (s : Sharedatad) (i : ℕ) (root : ShareRoot) (newobj : ℕ) : Sharedatad :=
  if s.accepts root newobj then
    let s' := ((s.box i newobj).setUpdate root.gcobj s.boxes.length).request (.confirm newobj)
    s'.setRoot i { root with newobj := newobj, state := .ready }
  else if s.rootObj root = some newobj ∧ s.dirty newobj = true then
    (s.box i newobj).setRoot i { root with state := .ended }
  else s.setRoot i { root with state := .ended }

/-- The end of `monitor`.
SRC: sharedata.lua:16-24 -/
def closed (s : Sharedatad) (i : ℕ) (root : ShareRoot) : Sharedatad :=
  let s' := s.setRoot i { root with state := .ended }
  if s.cached root.client root.name = some i then s'.setCache root.client root.name none else s'

def taken (s : Sharedatad) : ShareAnswer → Sharedatad
  | .query client name obj => s.queried client name obj
  | .copy _ obj => s.request (.confirm obj)
  | .monitor i newobj =>
    match s.roots[i]? with
    | none => s
    | some root => s.monitored i root newobj
  | .closed i =>
    match s.roots[i]? with
    | none => s
    | some root => s.closed i root
  | .failed i =>
    match s.roots[i]? with
    | none => s
    | some root => s.setRoot i { root with state := .ended }

/-- The service that gets an answer. -/
def receiver (s : Sharedatad) : ShareAnswer → Option ℕ
  | .query client _ _ => some client
  | .copy client _ => some client
  | .monitor i _ => s.roots[i]?.map (·.client)
  | .closed i => s.roots[i]?.map (·.client)
  | .failed i => s.roots[i]?.map (·.client)

/-- A root needs the box, or the update of it: it is not collected. -/
def pinned (s : Sharedatad) (x : ℕ) : Bool := s.roots.any fun r => r.state ≠ .dropped ∧
    (r.gcobj = x ∨ (s.boxes[r.gcobj]?.bind (·.update)) = some x)

/-- What is left of a client that exits; its boxes are released one by one. -/
def exit (s : Sharedatad) (client : ℕ) : Sharedatad := { s with
    exited := insert client s.exited
    answers := s.answers.filter fun a => s.receiver a ≠ some client
    roots := s.roots.map fun r => if r.client = client then { r with state := .dropped } else r }

/-- The update of a box that a proxy of the root finds.
SRC: corelib.lua:31-44,56-71 -/
def updateOf (s : Sharedatad) (box : ShareBox) : Option ℕ :=
  if box.released = false ∧ s.dirty box.obj then
    box.update.filter fun y => s.boxes[y]?.any (·.released = false)
  else none

/-- The state after a step; `none` where it is not possible.  A new object is at an address where
there is none. -/
def next (s : Sharedatad) : SharedatadAction → Option Sharedatad
  | .new name => some { s with jobs := s.jobs ++ [⟨name, false, none⟩] }
  | .update name => some (s.update name)
  | .made job obj =>
    if job ∈ s.jobs ∧ s.pool.get job.name = none ∧ s.objmap.get obj = none then
      some (s.made job obj)
    else none
  | .failed job =>
    if job ∈ s.jobs then some { s with jobs := s.jobs.erase job } else none
  | .delete name => some (s.delete name)
  | .handle m =>
    if m ∈ s.requests then some ({ s with requests := s.requests.erase m }.handle m) else none
  | .minute => some s.minute
  | .notice client => if client ∈ s.exited then some (s.notice client) else none
  | .query client name =>
    if client ∉ s.exited ∧ s.cached client name = none then
      some (s.request (.query client name))
    else none
  | .deepcopy client name =>
    if client ∉ s.exited ∧ s.cached client name = none then
      some (s.request (.copy client name))
    else none
  | .monitor i =>
    match s.roots[i]? with
    | none => none
    | some root =>
      if root.state = .ready then
        some ((s.setRoot i { root with state := .waiting }).request (.monitor i))
      else none
  | .take a =>
    if a ∈ s.answers then some ({ s with answers := s.answers.erase a }.taken a) else none
  | .raised a =>
    match a with
    | .copy _ _ =>
      if a ∈ s.answers then some { s with answers := s.answers.erase a } else none
    | _ => none
  | .getcobj x =>
    match s.boxes[x]? with
    | none => none
    | some b =>
      match s.roots[b.root]?, s.updateOf b with
      | some root, some y =>
        if root.state ≠ .dropped then some (s.setRoot b.root { root with gcobj := y }) else none
      | _, _ => none
  | .drop i =>
    match s.roots[i]? with
    | none => none
    | some root =>
      if root.state = .ended then some (s.setRoot i { root with state := .dropped }) else none
  | .release x =>
    match s.boxes[x]? with
    | none => none
    | some b =>
      if b.released = false ∧ s.pinned x = false then
        some { s.decref b.obj with boxes := s.boxes.set x { b with released := true } }
      else none
  | .exit client => if client ∉ s.exited then some (s.exit client) else none

def init : Sharedatad :=
  ⟨∅, ∅, 10, [], [], fun _ => 0, fun _ => false, [], [], [], [], fun _ _ => none, ∅⟩

def machine : Machine Sharedatad SharedatadAction := ⟨fun s => s = init, next⟩

end Sharedatad

end Skynet.Model
