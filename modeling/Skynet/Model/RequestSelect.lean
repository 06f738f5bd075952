import Mathlib.Data.List.Basic
import Skynet.Library.Machine

/-!
# request:select

The loop over the requests of `skynet.request` in `lualib/skynet.lua`, with the coroutine that
collects the answers, and the parts of the two session tables and of the two queues of the service
that belong to it.  The `i`-th request has the session `i + 1`, and the timer the one after those of
all requests.  The key 0 stands for `false`.

The function `suspend` goes on as long as there are tokens in `wakeup_queue`, so that no message is
dispatched before.  It may leave sessions in `error_queue`, where one before them raises an error.
-/

namespace Skynet.Model

open Library Function

/-- What `c.send` gives for a request. -/
inductive SendOutcome
  | session
  /-- `nil`, for an invalid address. -/
  | invalid
  /-- `false`, for a message that is too large. -/
  | tooLarge
  /-- An error, as for the address 0. -/
  | raised
  deriving DecidableEq

inductive SelectAddress
  | handle (h : ℕ)
  /-- A string, for the service `h`. -/
  | name (h : ℕ)
  deriving DecidableEq

def SelectAddress.service : SelectAddress → ℕ
  | .handle h => h
  | .name h => h

structure SelectRequest where
  address : SelectAddress
  outcome : SendOutcome
  deriving DecidableEq

inductive SessionEntry
  | thread
  | «break»
  deriving DecidableEq

inductive SelectStage
  /-- In the body of the loop, or about to enter it. -/
  | body
  /-- In `skynet.wait(self)`. -/
  | waiting
  /-- The iterator has returned `nil`. -/
  | finished
  /-- The body has left the loop. -/
  | left
  /-- By `skynet.killthread`. -/
  | killed
  | raised
  deriving DecidableEq

/-- The first answer to a request; `value` is `none` for an error or the death of the service. -/
structure SelectAnswer where
  value : Option ℕ
  /-- Before the timer. -/
  early : Bool
  deriving DecidableEq

/-- In `resp` the value `none` is the `false` of a request that has failed.  `wakeups` has the
tokens of the loop in `wakeup_queue`.  The last four fields are not in the source. -/
structure RequestSelect where
  requests : List SelectRequest
  sessions : ℕ → Option ℕ
  request : ℕ
  resp : ℕ → Option (Option ℕ)
  error : List ℕ
  timeoutSession : Option ℕ
  timeout : Bool
  sessionIdCoroutine : ℕ → Option SessionEntry
  watchingSession : ℕ → Option SelectAddress
  errorQueue : List ℕ
  wakeups : ℕ
  threadDead : Bool
  stage : SelectStage
  timer : Bool
  fired : Bool
  answers : ℕ → Option SelectAnswer
  yielded : List (ℕ × Option ℕ)

/-- `pick` is the session that `next(self._resp)` gives. -/
inductive SelectAction
  | next (pick : ℕ)
  /-- `dispatch_wakeup`. -/
  | wake (pick : ℕ)
  | leave
  | kill
  | response (session value : ℕ)
  /-- A response that the protocol cannot unpack. -/
  | malformed (session : ℕ)
  /-- An error message with a session. -/
  | error (session : ℕ)
  /-- An error message without a session, from the service `h`; `order` is that of `pairs`. -/
  | death (h : ℕ) (order : List ℕ)
  | timer
  /-- `dispatch_error_queue`. -/
  | failed
  deriving DecidableEq

namespace RequestSelect

/-! ## The start -/

def init (requests : List SelectRequest) (timer : Bool) : RequestSelect where
  requests := requests
  sessions := fun _ => none
  request := 0
  resp := fun _ => none
  error := []
  timeoutSession := none
  timeout := false
  sessionIdCoroutine := fun _ => none
  watchingSession := fun _ => none
  errorQueue := []
  wakeups := 0
  threadDead := false
  stage := .body
  timer := timer
  fired := false
  answers := fun _ => none
  yielded := []

def sent (s : RequestSelect) (r : SelectRequest) (i session : ℕ) : RequestSelect := { s with
    sessions := update s.sessions session (some i)
    watchingSession := update s.watchingSession session (some r.address)
    sessionIdCoroutine := update s.sessionIdCoroutine session (some .thread)
    request := s.request + 1 }

/-- SRC: skynet.lua:72-100 -/
def sendRequests (s : RequestSelect) (i : ℕ) : List SelectRequest → RequestSelect
  | [] => s
  | r :: rest =>
    match r.outcome with
    | .session => (s.sent r i (i + 1)).sendRequests (i + 1) rest
    | .tooLarge => (s.sent r i 0).sendRequests (i + 1) rest
    | .invalid => { s with error := s.error ++ [i] }.sendRequests (i + 1) rest
    | .raised => { s with stage := .raised }

/-- SRC: skynet.lua:184-198 -/
def select (requests : List SelectRequest) (timer : Bool) : RequestSelect :=
  let s := (init requests timer).sendRequests 0 requests
  if s.stage = .body ∧ timer then
    { s with
      timeoutSession := some (requests.length + 1)
      sessionIdCoroutine :=
        update s.sessionIdCoroutine (requests.length + 1) (some .thread) }
  else s

/-! ## The loop -/

/-- The keys of `resp`. -/
def collected (s : RequestSelect) : List ℕ :=
  (List.range (s.requests.length + 1)).filter fun session => (s.resp session).isSome

/-- A session is marked where its response is not there or is `false`.
SRC: skynet.lua:164-180 -/
def close (s : RequestSelect) (stage : SelectStage) : RequestSelect :=
  let marked (session : ℕ) : Bool :=
    s.request ≠ 0 ∧ s.sessions session ≠ none ∧ (s.resp session).join = none
  let entries := fun session =>
    if marked session then some .break else s.sessionIdCoroutine session
  { s with
    sessionIdCoroutine :=
      match s.timeoutSession with
      | some session => update entries session (some .break)
      | none => entries
    watchingSession := fun session => if marked session then none else s.watchingSession session
    request := 0
    timeoutSession := none
    stage := stage }

/-- The iterator returns the request of a session. -/
def yieldSession (s : RequestSelect) (session : ℕ) : RequestSelect := { s with
    request := s.request - 1
    resp := update s.resp session none
    sessions := update s.sessions session none
    yielded := s.yielded ++ [((s.sessions session).getD 0, (s.resp session).join)]
    stage := .body }

/-- The iterator up to `skynet.wait`.
SRC: skynet.lua:122-143 -/
def iterate (s : RequestSelect) (pick : ℕ) : Option RequestSelect :=
  match s.error.getLast? with
  | some i => some { s with error := s.error.dropLast, yielded := s.yielded ++ [(i, none)] }
  | none =>
    if s.collected = [] then
      if s.request = 0 ∨ s.timeout then some (s.close .finished)
      else some { s with stage := .waiting }
    else if pick ∈ s.collected then some (s.yieldSession pick)
    else none

/-- The iterator after `skynet.wait`; without a response it raises an error.
SRC: skynet.lua:141-151 -/
def resumed (s : RequestSelect) (pick : ℕ) : Option RequestSelect :=
  if s.timeout then some (s.close .finished)
  else if s.collected = [] then some (s.close .raised)
  else if pick ∈ s.collected then some (s.yieldSession pick)
  else none

/-! ## The answers -/

/-- `skynet.wakeup(self)`. -/
def wakeup (s : RequestSelect) : RequestSelect :=
  if s.stage = .waiting then { s with wakeups := s.wakeups + 1 } else s

/-- SRC: skynet.lua:102-118 -/
def requestThread (s : RequestSelect) (session : ℕ) (value : Option ℕ) : RequestSelect :=
  if s.threadDead then s
  else if s.timeoutSession = some session then
    { s with timeoutSession := none, timeout := true }.wakeup
  else
    { s with
      watchingSession := update s.watchingSession session none
      resp := update s.resp session (some value) }.wakeup

/-- SRC: skynet.lua:773-785 -/
def dispatchResponse (s : RequestSelect) (session : ℕ) (value : Option ℕ) : RequestSelect :=
  let entries := update s.sessionIdCoroutine session none
  match s.sessionIdCoroutine session with
  | some .thread => { s with sessionIdCoroutine := entries }.requestThread session value
  | some .break => { s with sessionIdCoroutine := entries }
  | none => s

def service (s : RequestSelect) (session : ℕ) : Option ℕ :=
  match session with
  | 0 => none
  | i + 1 => do
    let r ← s.requests[i]?
    if r.outcome = .session then some r.address.service else none

def answer (s : RequestSelect) (p : ℕ → Bool) (value : Option ℕ) : RequestSelect := { s with
    answers := fun session =>
      if p session ∧ s.answers session = none then some ⟨value, !s.fired⟩
      else s.answers session }

/-- The sessions of `watching_session` whose address is the number of the service. -/
def watched (s : RequestSelect) (h : ℕ) : List ℕ :=
  (List.range (s.requests.length + 1)).filter fun session =>
    s.watchingSession session = some (.handle h)

/-- SRC: skynet.lua:214-243, 292-309 -/
def next (s : RequestSelect) : SelectAction → Option RequestSelect
  | .next pick => if s.stage = .body then s.iterate pick else none
  | .wake pick =>
    match s.wakeups with
    | n + 1 =>
      if s.stage = .waiting then { s with wakeups := n }.resumed pick
      else some { s with wakeups := n }
    | 0 => none
  | .leave => if s.stage = .body then some (s.close .left) else none
  | .kill => if s.stage = .body ∨ s.stage = .waiting then some (s.close .killed) else none
  | .response session value =>
    if s.wakeups = 0 ∧ s.service session ≠ none ∧ s.answers session = none then
      some ((s.answer (· = session) (some value)).dispatchResponse session (some value))
    else none
  | .malformed session =>
    if s.wakeups = 0 ∧ s.service session ≠ none ∧ s.answers session = none then
      let s := s.answer (· = session) none
      if s.sessionIdCoroutine session = some .thread ∧ s.threadDead = false then
        some { s with
          sessionIdCoroutine := update s.sessionIdCoroutine session none
          watchingSession := update s.watchingSession session none
          threadDead := true }
      else some (s.dispatchResponse session none)
    else none
  | .error session =>
    if s.wakeups = 0 ∧ s.service session ≠ none then
      let s := s.answer (· = session) none
      if s.watchingSession session ≠ none then
        some { s with errorQueue := s.errorQueue ++ [session] }
      else some s
    else none
  | .death h order =>
    if s.wakeups = 0 ∧ order.Perm (s.watched h) then
      some { s.answer (fun session => s.service session = some h) none with
        errorQueue := s.errorQueue ++ order }
    else none
  | .timer =>
    if s.wakeups = 0 ∧ s.timer ∧ ¬ s.fired then
      some ({ s with fired := true }.dispatchResponse (s.requests.length + 1) none)
    else none
  | .failed =>
    match s.errorQueue with
    | session :: rest =>
      if s.wakeups = 0 then
        let s := { s with errorQueue := rest }
        if s.sessionIdCoroutine session = some .thread then some (s.dispatchResponse session none)
        -- `coroutine_resume` raises an error
        else some { s with
          sessionIdCoroutine := update s.sessionIdCoroutine session none }
      else none
    | [] => none

def machine (requests : List SelectRequest) (timer : Bool) :
    Machine RequestSelect SelectAction where
  start s := s = select requests timer
  next := next

end RequestSelect

end Skynet.Model
