import Skynet.Library.Machine

/-!
# The critical section of a Lua service

`lualib/skynet/queue.lua`: the closure that `skynet.queue` returns, as the coroutines of a
service call it.  A body may yield, call the closure again, return or raise an error.

A coroutine that waits for its turn sleeps in `skynet.wait` and is woken by the closure alone;
the service resumes it when it next comes to its `wakeup_queue`.
-/

namespace Skynet.Model

open Library

/-- The variables of the closure, the tables of the service about its waits, and for every
coroutine how many bodies it is in.  `failed` tells that the assertion has failed; `waited` and
`served` record who had to wait and who was resumed. -/
structure QueueLock (τ : Type) where
  currentThread : Option τ
  ref : ℕ
  threadQueue : List τ
  wakeupQueue : List τ
  asleep : τ → Bool
  bodies : τ → ℕ
  failed : Bool
  waited : List τ
  served : List τ

/-- `leave` is the end of a body, by return or by error; `dispatchWakeup` is one round of
`dispatch_wakeup`. -/
inductive QueueAction (τ : Type)
  | call (t : τ)
  | leave (t : τ)
  | dispatchWakeup

namespace QueueLock

variable {τ : Type} [DecidableEq τ]

def init : QueueLock τ := ⟨none, 0, [], [], fun _ => false, fun _ => 0, false, [], []⟩

/-- `skynet.wakeup`. -/
def wakeup (q : QueueLock τ) (t : τ) : QueueLock τ :=
  if q.asleep t then { q with wakeupQueue := q.wakeupQueue ++ [t] } else q

/-- From `current_thread = thread` to the call of `xpcall`. -/
def enter (q : QueueLock τ) (t : τ) : QueueLock τ := { q with
    currentThread := some t
    ref := q.ref + 1
    bodies := Function.update q.bodies t (q.bodies t + 1) }

/-- SRC: queue.lua:12-22 -/
def xpcallRet (q : QueueLock τ) (t : τ) : QueueLock τ :=
  let q := { q with
    ref := q.ref - 1
    bodies := Function.update q.bodies t (q.bodies t - 1) }
  if q.ref = 0 then
    let q' := { q with currentThread := q.threadQueue.head?, threadQueue := q.threadQueue.tail }
    match q.threadQueue.head? with
    | some next => q'.wakeup next
    | none => q'
  else q

/-- SRC: queue.lua:24-35 -/
def call (q : QueueLock τ) (t : τ) : QueueLock τ :=
  match q.currentThread with
  | some u =>
    if u = t then q.enter t
    else { q with
      threadQueue := q.threadQueue ++ [t]
      asleep := Function.update q.asleep t true
      waited := q.waited ++ [t] }
  | none => q.enter t

/-- `skynet.wait` returns. -/
def resume (q : QueueLock τ) (t : τ) : QueueLock τ :=
  let q := { q with asleep := Function.update q.asleep t false, served := q.served ++ [t] }
  if q.ref = 0 then q.enter t else { q with failed := true }

def next (q : QueueLock τ) : QueueAction τ → Option (QueueLock τ)
  | .call t => if q.asleep t then none else some (q.call t)
  | .leave t => if q.asleep t ∨ q.bodies t = 0 then none else some (q.xpcallRet t)
  | .dispatchWakeup =>
    match q.wakeupQueue with
    | [] => none
    | t :: ts =>
      let q := { q with wakeupQueue := ts }
      some (if q.asleep t then q.resume t else q)

end QueueLock

def queueMachine (τ : Type) [DecidableEq τ] : Machine (QueueLock τ) (QueueAction τ) where
  start q := q = .init
  next := QueueLock.next

end Skynet.Model
