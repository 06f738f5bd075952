import Mathlib.Data.List.Basic
import Skynet.Library.Machine

/-!
# skynet.require

The function `require` of `lualib/skynet/require.lua` in the coroutines of a service.  A coroutine
runs the code of its innermost module, which may yield anywhere; an error that leaves this code
ends the load, and the code around `require` goes on with the error, which it may catch.

The main thread has the plain `require`: its modules are loaded at the start.
-/

namespace Skynet.Model

open Library Function

/-- What is in `package.loaded`; a chunk without a value leaves `true`. -/
inductive ModuleValue
  | yes
  | value (n : ℕ)
  deriving DecidableEq

inductive LoadPhase
  | chunk
  /-- The `i`-th function of the init list, after the chunk returned `m`. -/
  | inits (m : Option ℕ) (i : ℕ)
  deriving DecidableEq

/-- A call of `require` that loads.  The last two fields are not in the source: the functions that
the module has registered and those of its init list that have returned. -/
structure LoadFrame where
  name : ℕ
  initList : ℕ
  oldInitList : Option ℕ
  phase : LoadPhase
  registered : List ℕ
  finished : List ℕ
  deriving DecidableEq

/-- `ok` says whether the load that the coroutine waited for was successful. -/
inductive ThreadStatus
  | running
  | waiting (name : ℕ)
  | woken (name : ℕ) (ok : Bool)
  deriving DecidableEq

structure RequireThread where
  frames : List LoadFrame
  status : ThreadStatus
  deriving DecidableEq

structure LoadingQueue where
  co : ℕ
  waiting : List ℕ
  deriving DecidableEq

/-- A call that is over: `value` is `none` for an error, and `waited` says how the load ended that
the coroutine waited for. -/
structure RequireResult where
  co : ℕ
  name : ℕ
  waited : Option Bool
  value : Option ModuleValue
  deriving DecidableEq

structure LoadRecord where
  value : ModuleValue
  registered : List ℕ
  finished : List ℕ
  deriving DecidableEq

/-- `files` has the modules whose file is found and compiles.  `lists` has the init lists, which
the other fields refer to. -/
structure RequireState where
  files : ℕ → Bool
  loaded : ℕ → Option ModuleValue
  loading : ℕ → Option LoadingQueue
  context : ℕ → Option ℕ
  lists : List (List ℕ)
  threads : ℕ → RequireThread
  results : List RequireResult
  records : ℕ → Option LoadRecord

inductive RequireAction
  | require (co name : ℕ)
  /-- `skynet.init`. -/
  | init (co f : ℕ)
  | chunkReturned (co : ℕ) (m : Option ℕ)
  | initReturned (co : ℕ)
  /-- An error leaves the chunk or the init function. -/
  | raised (co : ℕ)
  /-- After `skynet.wait`. -/
  | resume (co : ℕ)
  deriving DecidableEq

namespace RequireState

/-- The state at the start of the coroutines, when the main thread has loaded its modules. -/
def start (files : ℕ → Bool) (loaded : ℕ → Option ModuleValue) : RequireState where
  files := files
  loaded := loaded
  loading := fun _ => none
  context := fun _ => none
  lists := []
  threads := fun _ => ⟨[], .running⟩
  results := []
  records := fun _ => none

def answer (s : RequireState) (co name : ℕ) (waited : Option Bool) (value : Option ModuleValue) :
    RequireState :=
  { s with results := s.results ++ [⟨co, name, waited, value⟩] }

def setThread (s : RequireState) (co : ℕ) (t : RequireThread) : RequireState :=
  { s with threads := update s.threads co t }

/-- SRC: require.lua:23-63 -/
def require (s : RequireState) (co name : ℕ) : RequireState :=
  match s.loaded name with
  | some m => s.answer co name none (some m)
  | none =>
    -- the plain `require` finds no module either
    if s.files name = false then s.answer co name none none
    else
      match s.loading name with
      | some queue =>
        if queue.co = co then s.answer co name none none
        else
          { s.setThread co { s.threads co with status := .waiting name } with
            loading := update s.loading name
              (some { queue with waiting := queue.waiting ++ [co] }) }
      | none =>
        { s.setThread co
            { s.threads co with
              frames := ⟨name, s.lists.length, s.context co, .chunk, [], []⟩
                :: (s.threads co).frames } with
          loading := update s.loading name (some ⟨co, []⟩)
          context := update s.context co (some s.lists.length)
          lists := s.lists ++ [[]] }

/-- A coroutine outside of `require` has no list, and `table.insert` raises an error.
SRC: require.lua:108-112 -/
def init (s : RequireState) (co f : ℕ) : RequireState :=
  match s.context co, (s.threads co).frames with
  | some list, frame :: frames =>
    { s.setThread co
        { s.threads co with
          frames := { frame with registered := frame.registered ++ [f] } :: frames } with
      lists := s.lists.modify list fun l => l ++ [f] }
  | _, _ => s

def wake (name : ℕ) (ok : Bool) (t : RequireThread) : RequireThread :=
  match t.status with
  | .waiting _ => { t with status := .woken name ok }
  | _ => t

/-- The end of a load, when the function `execute_module` has returned or raised an error.
SRC: require.lua:82-97 -/
def loadEnded (s : RequireState) (co : ℕ) (frame : LoadFrame) (frames : List LoadFrame)
    (value : Option ModuleValue) : RequireState :=
  let waiting := ((s.loading frame.name).map LoadingQueue.waiting).getD []
  let s := s.setThread co { s.threads co with frames := frames }
  let s := { s with
    context := update s.context co frame.oldInitList
    threads := fun c =>
      if c ∈ waiting then wake frame.name value.isSome (s.threads c) else s.threads c
    loading := update s.loading frame.name none }
  s.answer co frame.name none value

/-- What is left of `execute_module` when the chunk or an init function has returned: the next
init function, or the end.
SRC: require.lua:66-78 -/
def initList (s : RequireState) (co : ℕ) (frame : LoadFrame) (frames : List LoadFrame)
    (m : Option ℕ) (i : ℕ) : RequireState :=
  match (s.lists.getD frame.initList [])[i]? with
  | some _ =>
    s.setThread co { s.threads co with frames := { frame with phase := .inits m i } :: frames }
  | none =>
    let value := m.elim .yes .value
    loadEnded
      { s with
        loaded := update s.loaded frame.name (some value)
        records :=
          update s.records frame.name (some ⟨value, frame.registered, frame.finished⟩) }
      co frame frames (some value)

def next (s : RequireState) : RequireAction → Option RequireState
  | .require co name =>
    if (s.threads co).status = .running then some (s.require co name) else none
  | .init co f => if (s.threads co).status = .running then some (s.init co f) else none
  | .chunkReturned co m =>
    match s.threads co with
    | ⟨frame :: frames, .running⟩ =>
      if frame.phase = .chunk then some (s.initList co frame frames m 0) else none
    | _ => none
  | .initReturned co =>
    match s.threads co with
    | ⟨frame :: frames, .running⟩ =>
      match frame.phase with
      | .inits m i =>
        let f := (s.lists.getD frame.initList []).getD i 0
        some (s.initList co { frame with finished := frame.finished ++ [f] } frames m (i + 1))
      | .chunk => none
    | _ => none
  | .raised co =>
    match s.threads co with
    | ⟨frame :: frames, .running⟩ => some (s.loadEnded co frame frames none)
    | _ => none
  | .resume co =>
    match (s.threads co).status with
    | .woken name ok =>
      some ((s.setThread co { s.threads co with status := .running }).answer co name (some ok)
        (s.loaded name))
    | _ => none

def machine (files : ℕ → Bool) (loaded : ℕ → Option ModuleValue) :
    Machine RequireState RequireAction where
  start s := s = start files loaded
  next := next

end RequireState

end Skynet.Model
