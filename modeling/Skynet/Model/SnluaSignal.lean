import Skynet.Library.Machine
import Mathlib.Data.Int.Notation

/-!
# Signals to a Lua service

`service-src/service_snlua.c`: the worker of a service runs Lua code, and `lua_resumeX` wraps each
`lua_resume`; meanwhile any thread may call `snlua_signal`.  They share `trap`, the field `activeL`
and the hooks of the Lua threads.  Every `ATOM_*` operation, every access to `activeL` and every
`lua_sethook` is one step.

The Lua threads are numbers, `0` the state `l->L`.  `ATOM_CAS` is a weak compare-and-exchange, as
in the model of the reader/writer lock: it may fail although the values agree.
-/

namespace Skynet.Model

open Library Function

/-- What `lua_resume` and the collector know of a Lua thread. -/
inductive LuaStatus
  | suspended
  /-- It runs, or it has resumed the one that runs. -/
  | active
  /-- It has returned, or an error has ended it. -/
  | finished
  deriving DecidableEq, Repr

/-- Where the worker stands. -/
inductive WorkerPc
  /-- In the Lua code of the innermost thread. -/
  | running
  /-- `if (ATOM_LOAD(&l->trap))` of `switchL`, before `lua_resume` or after it. -/
  | switchLoad (entering : Bool)
  /-- `lua_sethook` of `switchL`. -/
  | switchHook (entering : Bool)
  /-- The call of `lua_resume`. -/
  | resume
  /-- `lua_resume` has returned: `if (ATOM_LOAD(&l->trap))`. -/
  | returned
  /-- `while (ATOM_LOAD(&l->trap) >= 0) ;` -/
  | spin
  /-- `l->activeL = L` of `switchL(from, l)`. -/
  | leave
  /-- `lua_sethook (L, NULL, 0, 0)` of `signal_hook`. -/
  | hookReset
  /-- `if (ATOM_LOAD(&l->trap))` of `signal_hook`. -/
  | hookLoad
  /-- `ATOM_STORE(&l->trap , 0)`, and the error. -/
  | hookStore
  deriving DecidableEq, Repr

/-- Where a thread stands in `snlua_signal`. -/
inductive SignalPc
  | idle
  /-- `if (ATOM_LOAD(&l->trap) == 0)`. -/
  | load
  /-- `ATOM_CAS(&l->trap, zero, 1)`. -/
  | cas
  /-- It reads `l->activeL`, the argument of `lua_sethook`. -/
  | read
  | sethook (activeL : Option ℕ)
  /-- `ATOM_CAS(&l->trap, one, -1)`. -/
  | casBack
  deriving DecidableEq, Repr

/-- `struct snlua` with its Lua threads, its worker, and the threads `τ` that may signal it. -/
structure Snlua (τ : Type) where
  trap : ℤ
  activeL : Option ℕ
  /-- The number of Lua threads made so far. -/
  made : ℕ
  /-- `none` for a Lua thread that has not been made yet or has been collected. -/
  status : ℕ → Option LuaStatus
  /-- The count hook is set. -/
  hook : ℕ → Bool
  /-- The threads under `lua_resumeX`, the innermost first. -/
  stack : List ℕ
  worker : WorkerPc
  signals : τ → SignalPc
  /-- How many signals have set the trap: they are numbered from one. -/
  accepted : ℕ
  /-- The numbers of the signals that raised "signal 0". -/
  raised : List ℕ

/-- `snlua_create`, before `init_cb` runs anything.
SRC: service_snlua.c:501-511 -/
def snluaCreate (τ : Type) : Snlua τ where
  trap := 0
  activeL := none
  made := 1
  status n := if n = 0 then some .active else none
  hook _ := false
  stack := []
  worker := .running
  signals _ := .idle
  accepted := 0
  raised := []

namespace Snlua

variable {τ : Type}

/-- The Lua thread whose code runs: the innermost one under `lua_resumeX`, or `l->L`. -/
def current (s : Snlua τ) : ℕ := s.stack.headD 0

/-- Where `switchL` returns to. -/
def afterSwitch (entering : Bool) : WorkerPc :=
  if entering then .resume else .running

/-- The next step of the worker in C code.
SRC: service_snlua.c:63-97 -/
def workerStep (s : Snlua τ) : Option (Snlua τ) :=
  match s.worker with
  | .running => none
  | .switchLoad entering =>
    some { s with worker := if s.trap ≠ 0 then .switchHook entering else afterSwitch entering }
  | .switchHook entering =>
    some { s with
      hook := update s.hook s.current true, worker := afterSwitch entering }
  | .resume =>
    if s.status s.current = some .suspended then
      some { s with
        status := update s.status s.current (some .active), worker := .running }
    -- cannot resume dead (or non-suspended) coroutine
    else some { s with worker := .returned }
  | .returned => some { s with worker := if s.trap ≠ 0 then .spin else .leave }
  | .spin => some { s with worker := if s.trap ≥ 0 then .spin else .leave }
  | .leave =>
    some { s with
      activeL := some (s.stack.tail.headD 0), stack := s.stack.tail
      worker := .switchLoad false }
  | .hookReset =>
    some { s with hook := update s.hook s.current false, worker := .hookLoad }
  | .hookLoad => some { s with worker := if s.trap ≠ 0 then .hookStore else .running }
  -- luaL_error: the thread goes on behind its `pcall`, or it finishes
  | .hookStore =>
    some { s with trap := 0, raised := s.raised ++ [s.accepted], worker := .running }

section

variable [DecidableEq τ]

/-- The thread `t` stands at `pc` of `snlua_signal`. -/
def goto (s : Snlua τ) (t : τ) (pc : SignalPc) : Snlua τ :=
  { s with signals := update s.signals t pc }

/-- The next step of a thread in `snlua_signal`.  There is none behind a `lua_sethook` of `NULL` or
of a Lua thread that has been collected.
SRC: service_snlua.c:519-536 -/
def signalStep (s : Snlua τ) (t : τ) : Option (Snlua τ) :=
  match s.signals t with
  | .idle => none
  | .load => some (s.goto t (if s.trap = 0 then .cas else .idle))
  | .cas =>
    if s.trap = 0 then some { s.goto t .read with trap := 1, accepted := s.accepted + 1 }
    else some (s.goto t .idle)
  | .read => some (s.goto t (.sethook s.activeL))
  | .sethook none => none
  | .sethook (some co) =>
    if s.status co = none then none
    else some { s.goto t .casBack with hook := update s.hook co true }
  | .casBack => some { s.goto t .idle with trap := if s.trap = 1 then -1 else s.trap }

end

end Snlua

/-- What the worker and the signalling threads do. -/
inductive SnluaAction (τ : Type)
  /-- The thread that runs makes a coroutine. -/
  | create
  /-- It calls `lua_resumeX`, whose first step is `l->activeL = L`. -/
  | resume (co : ℕ)
  | yield
  | finish
  /-- The count hook of the thread that runs fires. -/
  | count
  /-- The next step of `lua_resumeX` or of `signal_hook`. -/
  | worker
  | collect (co : ℕ)
  /-- A thread calls `snlua_signal`. -/
  | signal (t : τ) (signal : ℤ)
  /-- The next step of `snlua_signal`. -/
  | atom (t : τ)
  /-- It is a compare-and-exchange that fails although the values agree. -/
  | spurious (t : τ)
  deriving DecidableEq, Repr

namespace Snlua

variable {τ : Type} [DecidableEq τ]

/-- One step.
SRC: service_snlua.c:63-97, 519-536 -/
def next (s : Snlua τ) : SnluaAction τ → Option (Snlua τ)
  | .create =>
    if s.worker = .running then
      some { s with
        made := s.made + 1
        status := update s.status s.made (some .suspended)
        -- lua_newthread: the hook is that of the thread that makes it
        hook := update s.hook s.made (s.hook s.current) }
    else none
  | .resume co =>
    if s.worker = .running ∧ s.status co ≠ none then
      some { s with activeL := some co, stack := co :: s.stack, worker := .switchLoad true }
    else none
  | .yield =>
    if s.worker = .running ∧ s.current ≠ 0 then
      some { s with
        status := update s.status s.current (some .suspended), worker := .returned }
    else none
  | .finish =>
    if s.worker = .running ∧ s.current ≠ 0 then
      some { s with
        status := update s.status s.current (some .finished), worker := .returned }
    else none
  | .count =>
    if s.worker = .running ∧ s.hook s.current = true then some { s with worker := .hookReset }
    else none
  | .worker => s.workerStep
  | .collect co =>
    if s.status co = some .finished ∧ co ∉ s.stack then
      some { s with status := update s.status co none }
    else none
  | .signal t signal =>
    if s.signals t = .idle then some (s.goto t (if signal = 0 then .load else .idle)) else none
  | .atom t => s.signalStep t
  | .spurious t =>
    if s.signals t = .cas ∨ s.signals t = .casBack then some (s.goto t .idle) else none

end Snlua

/-- One service, its worker and any number of threads that signal it. -/
def snluaMachine (τ : Type) [DecidableEq τ] : Machine (Snlua τ) (SnluaAction τ) where
  start s := s = snluaCreate τ
  next := Snlua.next

end Skynet.Model
