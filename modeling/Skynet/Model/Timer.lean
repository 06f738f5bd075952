import Mathlib.Algebra.Group.Nat.Defs
import Mathlib.Data.List.Basic
import Skynet.Library.Machine

/-!
# The timer wheel

`skynet-src/skynet_timer.c`: 256 near lists and four levels of 64 lists, each a FIFO list
of nodes, and a 32-bit tick counter.  `timer_add` links a node where the highest bits in
which its expiry and the counter differ say; `timer_shift` advances the counter and
re-links one list when the low bits of the counter become zero; `timer_execute` empties
the near list of the counter, giving up the lock while it dispatches.

A node carries a copy of the argument of `timer_add`; it is a value of a type `ε` here.
`uint32_t` is `ℕ` with explicit `% 2 ^ 32` where the code can wrap.
-/

namespace Skynet.Model

open Library Function

def timeNearShift : ℕ := 8

def timeNear : ℕ := 1 <<< timeNearShift

def timeLevelShift : ℕ := 6

def timeLevel : ℕ := 1 <<< timeLevelShift

def timeNearMask : ℕ := timeNear - 1

def timeLevelMask : ℕ := timeLevel - 1

/-- `struct timer_node` with the `sz` bytes that stand behind it.
SRC: skynet_timer.c:29-32 -/
structure TimerNode (ε : Type) where
  expire : ℕ
  event : ε

/-- `struct timer` without its lock and the fields of `skynet_updatetime`; a
`struct link_list` is the list of its nodes.
SRC: skynet_timer.c:39-47 -/
structure Timer (ε : Type) where
  near : ℕ → List (TimerNode ε)
  t : ℕ → ℕ → List (TimerNode ε)
  time : ℕ

section Wheel

variable {ε : Type}

/-- `link`.
SRC: skynet_timer.c:60-65 -/
def link (list : List (TimerNode ε)) (node : TimerNode ε) : List (TimerNode ε) := list ++ [node]

/-- The level loop of `add_node` with `n` rounds to go.
SRC: skynet_timer.c:75-82 -/
def addLevel (time currentTime : ℕ) : ℕ → ℕ → ℕ → ℕ
  | 0, i, _ => i
  | n + 1, i, mask =>
    if time ||| (mask - 1) = currentTime ||| (mask - 1) then i
    else addLevel time currentTime n (i + 1) (mask <<< timeLevelShift % 2 ^ 32)

/-- `add_node`.
SRC: skynet_timer.c:67-86 -/
def addNode (T : Timer ε) (node : TimerNode ε) : Timer ε :=
  let time := node.expire
  let currentTime := T.time
  if time ||| timeNearMask = currentTime ||| timeNearMask then
    let idx := time &&& timeNearMask
    { T with near := update T.near idx (link (T.near idx) node) }
  else
    let i := addLevel time currentTime 3 0 (timeNear <<< timeLevelShift)
    let idx := (time >>> (timeNearShift + i * timeLevelShift)) &&& timeLevelMask
    { T with t := update T.t i (update (T.t i) idx (link (T.t i idx) node)) }

/-- The locked section of `timer_add`.
SRC: skynet_timer.c:88-100 -/
def timerAdd (T : Timer ε) (arg : ε) (time : ℕ) : Timer ε :=
  addNode T ⟨(time + T.time) % 2 ^ 32, arg⟩

/-- `move_list`.
SRC: skynet_timer.c:102-110 -/
def moveList (T : Timer ε) (level idx : ℕ) : Timer ε := (T.t level idx).foldl addNode
    { T with t := update T.t level (update (T.t level) idx []) }

/-- The `while` of `timer_shift` with `n` rounds to go; for `ct ≠ 0` the fourth round
finds an index that is not 0, so there is no fifth.
SRC: skynet_timer.c:119-131 -/
def shiftLoop (T : Timer ε) (ct : ℕ) : ℕ → ℕ → ℕ → ℕ → Timer ε
  | 0, _, _, _ => T
  | n + 1, mask, time, i =>
    if ct &&& (mask - 1) = 0 then
      let idx := time &&& timeLevelMask
      if idx ≠ 0 then moveList T i idx
      else shiftLoop T ct n (mask <<< timeLevelShift) (time >>> timeLevelShift) (i + 1)
    else T

/-- `timer_shift`.
SRC: skynet_timer.c:112-132 -/
def timerShift (T : Timer ε) : Timer ε :=
  let ct := (T.time + 1) % 2 ^ 32
  let T' := { T with time := ct }
  if ct = 0 then moveList T' 3 0
  else shiftLoop T' ct 4 timeNear (ct >>> timeNearShift) 0

/-- `timer_create_timer`.
SRC: skynet_timer.c:180-202 -/
def timerCreateTimer : Timer ε where
  near _ := []
  t _ _ := []
  time := 0

end Wheel

/-! ## The threads -/

/-- Where the timer thread stands: outside `timer_update`, or in `dispatch_list` without
the lock, in the first (`shifted = false`) or the second `timer_execute`. -/
inductive TimerThread (ε : Type)
  | outside
  | dispatching (current : List (TimerNode ε)) (shifted : Bool)

/-- One `timer_add`: the number of `timer_shift`s before it, the delay and the event. -/
structure TimerAdded (ε : Type) where
  tick : ℕ
  delay : ℕ
  event : ε

def TimerAdded.due {ε : Type} (x : TimerAdded ε) : ℕ := x.tick + x.delay

/-- The wheel and the timer thread; `ticks` counts the calls of `timer_shift`, `added`
lists the calls of `timer_add`, and `log` the events dispatched, each with the number of
shifts at that moment. -/
structure TimerState (ε : Type) where
  timer : Timer ε
  thread : TimerThread ε
  ticks : ℕ
  added : List (TimerAdded ε)
  log : List (ℕ × ε)

/-- What happens next: a thread runs `timer_add`, or the timer thread starts a
`timer_update`, dispatches one node, or takes the lock again after `dispatch_list`. -/
inductive TimerAction (ε : Type)
  | add (delay : ℕ) (event : ε)
  | update
  | dispatch
  | relock

section Threads

variable {ε : Type}

/-- The second `timer_execute`, from the test of its loop to the next unlock.
SRC: skynet_timer.c:153-164, 176-178 -/
def secondExecute (s : TimerState ε) : TimerState ε :=
  let idx := s.timer.time &&& timeNearMask
  match s.timer.near idx with
  | [] => { s with thread := .outside }
  | current =>
    { s with
      timer := { s.timer with near := update s.timer.near idx [] }
      thread := .dispatching current true }

/-- The first `timer_execute`, from the test of its loop to the next unlock; when its
list is empty, `timer_shift` and the second `timer_execute` follow under the same lock.
SRC: skynet_timer.c:153-178 -/
def firstExecute (s : TimerState ε) : TimerState ε :=
  let idx := s.timer.time &&& timeNearMask
  match s.timer.near idx with
  | [] => secondExecute { s with timer := timerShift s.timer, ticks := s.ticks + 1 }
  | current =>
    { s with
      timer := { s.timer with near := update s.timer.near idx [] }
      thread := .dispatching current false }

/-- One step: `timer_add` in any thread whenever the lock is free, and the steps of the
one timer thread. -/
def timerNext (s : TimerState ε) : TimerAction ε → Option (TimerState ε)
  | .add delay event =>
    if 1 ≤ delay ∧ delay < 2 ^ 31 then
      some { s with
        timer := timerAdd s.timer event delay
        added := s.added ++ [⟨s.ticks, delay, event⟩] }
    else none
  | .update =>
    match s.thread with
    | .outside => some (firstExecute s)
    | .dispatching _ _ => none
  | .dispatch =>
    match s.thread with
    | .dispatching (node :: current) shifted =>
      some { s with
        thread := .dispatching current shifted
        log := s.log ++ [(s.ticks, node.event)] }
    | _ => none
  | .relock =>
    match s.thread with
    | .dispatching [] false => some (firstExecute s)
    | .dispatching [] true => some (secondExecute s)
    | _ => none

/-- Any number of threads that call `timer_add`, and the timer thread. -/
def timerMachine (ε : Type) : Machine (TimerState ε) (TimerAction ε) where
  start s := s = ⟨timerCreateTimer, .outside, 0, [], []⟩
  next := timerNext

/-- The nodes taken off the wheel and not dispatched yet. -/
def TimerState.inFlight (s : TimerState ε) : List (TimerNode ε) :=
  match s.thread with
  | .outside => []
  | .dispatching current _ => current

end Threads

end Skynet.Model
