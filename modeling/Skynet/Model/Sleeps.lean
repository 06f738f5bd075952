import Skynet.Library.LuaTable
import Skynet.Library.Machine

/-!
# Sleeping and waking in a Lua service

`lualib/skynet.lua`: `skynet.sleep`, `skynet.wait` and `skynet.wakeup`, as coroutines of a
service call them, and the loops of the framework that resume these.  What else a
coroutine does is free: it may fork, end, wait for something else and be resumed by that,
or raise an error.

A step is what happens without another coroutine in between.  `skynet.killthread`,
`skynet.exit` and errors from other services (`dispatch_error_queue` behind
`dispatch_wakeup`) are left out, and so is tracing.
-/

namespace Skynet.Model

open Library

/-- A value of `session_id_coroutine`: a coroutine, or `"BREAK"`. -/
inductive SleepEntry
  | thread (co : ℕ)
  | broken
  deriving DecidableEq

/-- A call of `skynet.sleep` or `skynet.wait` that is suspended, with its number among the
calls of the three functions. -/
structure SleepCall (τ : Type) where
  session : ℕ
  token : τ
  isWait : Bool
  began : ℕ
  deriving DecidableEq

/-- A call of `skynet.wakeup` that returned true, with its number. -/
structure WakeupCall (τ : Type) where
  token : τ
  number : ℕ
  deriving DecidableEq

/-- A call that has returned: `early` tells that it returned `"BREAK"` or is one of `wait`,
and `wakeup` the entry of `wakeup_queue` for which it was resumed, if it was for one. -/
structure SleepReturn (τ : Type) where
  call : SleepCall τ
  early : Bool
  wakeup : Option (WakeupCall τ)
  deriving DecidableEq

inductive SleepControl
  /-- Between two calls of `skynet.dispatch_message`. -/
  | idle
  | running (co : ℕ)
  /-- `suspend`, called with `"SUSPEND"`. -/
  | suspend
  /-- The loop over `fork_queue`. -/
  | forks
  deriving DecidableEq

/-- The tables of `skynet.lua` that are about sleeping, the coroutines that sleep, and the
timers that are set.  Of the coroutines in `fork_queue` it is known whether they are the
empty one that `suspend` adds.  `accepted` and `returns` record the run. -/
structure Sleepers (τ : Type) [DecidableEq τ] where
  control : SleepControl
  asleep : ℕ → Option (SleepCall τ)
  forkQueue : List Bool
  sessionIdCoroutine : Table ℕ SleepEntry
  wakeupQueue : List (WakeupCall τ)
  sleepSession : Table τ ℕ
  timers : List ℕ
  clock : ℕ
  accepted : List (WakeupCall τ)
  returns : List (SleepReturn τ)

/-- The steps: at first those of the running coroutine, then those of the framework; a
coroutine that is resumed without having slept is named. -/
inductive SleepAction (τ : Type)
  | sleep (session : ℕ) (token : τ)
  | wait (session : ℕ) (token : τ)
  | wakeup (token : τ)
  | fork
  | pause
  | raise
  | message (co : ℕ)
  | timer (session : ℕ)
  | dispatch
  | forkNext (co : ℕ)

namespace Sleepers

variable {τ : Type} [DecidableEq τ]

def init : Sleepers τ := ⟨.idle, fun _ => none, [], ∅, [], ∅, [], 0, [], []⟩

def Fresh (t : Sleepers τ) (session : ℕ) : Prop :=
  session ∉ t.timers ∧ t.sessionIdCoroutine.get session = none

instance (t : Sleepers τ) (session : ℕ) : Decidable (t.Fresh session) :=
  inferInstanceAs (Decidable (_ ∧ _))

/-- `suspend_sleep`; where the token has a sleeper it raises.
SRC: skynet.lua:383-391 -/
def suspendSleep (t : Sleepers τ) (co session : ℕ) (token : τ) (isWait : Bool) : Sleepers τ :=
  let t' := { t with
    sessionIdCoroutine := t.sessionIdCoroutine.put session (some (.thread co))
    clock := t.clock + 1 }
  if (t.sleepSession.get token).isSome then t'
  else
    { t' with
      sleepSession := t.sleepSession.put token (some session)
      asleep := Function.update t.asleep co (some ⟨session, token, isWait, t.clock⟩)
      control := .suspend }

/-- What `skynet.wakeup` returns. -/
def wakes (t : Sleepers τ) (token : τ) : Bool := (t.sleepSession.get token).isSome

/-- `skynet.wakeup`.  SRC: skynet.lua:714-719 -/
def wakeup (t : Sleepers τ) (token : τ) : Sleepers τ :=
  let t' := { t with clock := t.clock + 1 }
  if t.wakes token then
    { t' with
      wakeupQueue := t.wakeupQueue ++ [⟨token, t.clock⟩]
      accepted := t.accepted ++ [⟨token, t.clock⟩] }
  else t'

/-- `coroutine_resume`: one that sleeps goes on behind the yield of `suspend_sleep`, where
`sleep` returns `"BREAK"` unless it is resumed by a response.
SRC: skynet.lua:393-419 -/
def coroutineResume (t : Sleepers τ) (co : ℕ) (succ : Bool) (wakeup : Option (WakeupCall τ)) :
    Sleepers τ :=
  match t.asleep co with
  | none => { t with control := .running co }
  | some call =>
    { t with
      control := .running co
      asleep := Function.update t.asleep co none
      sleepSession := t.sleepSession.put call.token none
      sessionIdCoroutine :=
        if call.isWait then t.sessionIdCoroutine.put call.session none
        else t.sessionIdCoroutine
      returns := t.returns ++ [⟨call, call.isWait || !succ, wakeup⟩] }

/-- `dispatch_wakeup`: the loop over the tokens of `wakeup_queue`.  A session without a
coroutine makes `coroutine_resume` raise.
SRC: skynet.lua:292-309 -/
def dispatchWakeup (t : Sleepers τ) : List (WakeupCall τ) → Sleepers τ
  | [] => { t with wakeupQueue := [], control := .forks }
  | w :: rest =>
    match t.sleepSession.get w.token with
    | none => dispatchWakeup t rest
    | some session =>
      let t' := { t with
        wakeupQueue := rest
        sessionIdCoroutine := t.sessionIdCoroutine.put session (some .broken) }
      match t.sessionIdCoroutine.get session with
      | some (.thread co) => t'.coroutineResume co false (some w)
      | _ => { t' with control := .forks }

/-- The response of a timer.  SRC: skynet.lua:771-786 -/
def dispatchResponse (t : Sleepers τ) (session : ℕ) : Sleepers τ :=
  let t' := { t with sessionIdCoroutine := t.sessionIdCoroutine.put session none }
  match t.sessionIdCoroutine.get session with
  | some (.thread co) => t'.coroutineResume co true none
  | some .broken => { t' with control := .forks }
  -- `unknown_response` raises
  | none => { t with control := .forks }

def byRunning (t : Sleepers τ) (f : ℕ → Option (Sleepers τ)) : Option (Sleepers τ) :=
  match t.control with
  | .running co => f co
  | _ => none

def next (t : Sleepers τ) : SleepAction τ → Option (Sleepers τ)
  | .sleep session token => t.byRunning fun co =>
    if t.Fresh session then
      some ({ t with timers := session :: t.timers }.suspendSleep co session token false)
    else none
  | .wait session token => t.byRunning fun co =>
    if t.Fresh session then some (t.suspendSleep co session token true) else none
  | .wakeup token => t.byRunning fun _ => some (t.wakeup token)
  | .fork => t.byRunning fun _ => some { t with forkQueue := t.forkQueue ++ [false] }
  -- it ends, or waits for something else
  | .pause => t.byRunning fun _ => some { t with control := .suspend }
  -- `suspend` forks an empty function
  | .raise => t.byRunning fun _ =>
    some { t with forkQueue := t.forkQueue ++ [true], control := .forks }
  | .message co =>
    if t.control = .idle ∧ t.asleep co = none then some { t with control := .running co }
    else none
  | .timer session =>
    if t.control = .idle ∧ session ∈ t.timers then
      some ({ t with timers := t.timers.erase session }.dispatchResponse session)
    else none
  | .dispatch =>
    if t.control = .suspend then some (t.dispatchWakeup t.wakeupQueue) else none
  | .forkNext co =>
    if t.control = .forks ∧ t.asleep co = none then
      match t.forkQueue with
      | [] => some { t with control := .idle }
      | true :: rest => some { t with forkQueue := rest, control := .suspend }
      | false :: rest => some { t with forkQueue := rest, control := .running co }
    else none

end Sleepers

def sleepMachine (τ : Type) [DecidableEq τ] : Machine (Sleepers τ) (SleepAction τ) :=
  ⟨fun t => t = .init, Sleepers.next⟩

end Skynet.Model
