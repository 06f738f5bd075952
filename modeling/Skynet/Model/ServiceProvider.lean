import Skynet.Library.Calls
import Skynet.Library.Machine

/-!
# The service provider

One name at the service of `service/service_provider.lua`, and the clients of
`lualib/skynet/service.lua` that call `service.new` or `service.query` with it.  The handlers of
a name read and write its record only.  A client of `service.new` goes on once its `test` is
answered; a request that is on its way is handled at any time.
-/

namespace Skynet.Model

open Library

inductive ProviderCommand
  | test
  | launch
  | query
  deriving DecidableEq

inductive ProviderAnswer
  /-- `nil`: nobody has launched the service. -/
  | missing
  /-- `nil, true`. -/
  | booting
  | address (addr : ℕ)
  | error
  deriving DecidableEq

/-- A coroutine of `provider.launch` in `newservice`, or in `boot` with the cell that it got. -/
structure ProviderBoot where
  launcher : ℕ
  cell : Option ℕ
  deriving DecidableEq

/-- The record of the name with the calls of it.  `boots` has the coroutines between
`s.booting = true` and `s.booting = nil`, `exits` the cells that were told to exit, and
`followed` the tests whose clients have gone on. -/
structure ServiceProvider where
  queue : Option (List ℕ)
  booting : Bool
  address : Option ℕ
  error : Bool
  calls : List (Call ProviderCommand ProviderAnswer)
  followed : List ℕ
  boots : List ProviderBoot
  exits : List ℕ
  deriving DecidableEq

inductive ProviderAction
  /-- A client calls `service.new`. -/
  | new
  /-- A client calls `service.query`, and its cache has no such name. -/
  | query
  | follow (i : ℕ)
  | handle (i : ℕ)
  /-- `newservice` returns the address of a cell. -/
  | created (boot : ProviderBoot) (addr : ℕ)
  /-- The `init` of the cell returns. -/
  | booted (boot : ProviderBoot)
  /-- `newservice` or `boot` raises an error. -/
  | failed (boot : ProviderBoot)
  deriving DecidableEq

namespace ServiceProvider

/-- `new_service`.
SRC: service_provider.lua:5-10 -/
def init : ServiceProvider where
  queue := some []
  booting := false
  address := none
  error := false
  calls := []
  followed := []
  boots := []
  exits := []

def send (s : ServiceProvider) (command : ProviderCommand) : ServiceProvider :=
  { s with calls := s.calls ++ [.new command] }

def reply (s : ServiceProvider) (i : ℕ) (a : ProviderAnswer) : ServiceProvider :=
  { s with calls := Calls.answer s.calls i a }

/-- SRC: service_provider.lua:81-92 -/
def test (s : ServiceProvider) (i : ℕ) : ServiceProvider :=
  if s.booting then s.reply i .booting
  else
    match s.address with
    | some addr => s.reply i (.address addr)
    | none => if s.error then s.reply i .error else s.reply i .missing

/-- `provider.query`.
SRC: service_provider.lua:15-26 -/
def onQuery (s : ServiceProvider) (i : ℕ) : ServiceProvider :=
  match s.queue with
  | some queue => { s with queue := some (queue ++ [i]) }
  | none =>
    match s.address with
    | some addr => s.reply i (.address addr)
    | none => s.reply i .error

/-- `provider.launch`, up to `newservice`.
SRC: service_provider.lua:42-52 -/
def launch (s : ServiceProvider) (i : ℕ) : ServiceProvider :=
  match s.address with
  | some addr => s.reply i (.address addr)
  | none =>
    if s.booting then
      match s.queue with
      | some queue => { s with queue := some (queue ++ [i]) }
      -- `table.insert` raises an error after `skynet.response` has taken the session
      | none => s
    else { s with booting := true, boots := s.boots ++ [⟨i, none⟩] }

def dispatch (s : ServiceProvider) (i : ℕ) : ProviderCommand → ServiceProvider
  | .test => s.test i
  | .query => s.onQuery i
  | .launch => s.launch i

/-- The end of `provider.launch`, with the answer for the queue and for the launcher; without a
queue `ipairs` raises an error.
SRC: service_provider.lua:59-64, 70-74 -/
def respond (s : ServiceProvider) (launcher : ℕ) (a : ProviderAnswer) : ServiceProvider :=
  match s.queue with
  | some queue =>
    { s with calls := Calls.answer (Calls.answerAll s.calls queue a) launcher a, queue := none }
  | none => s.reply launcher .error

/-- SRC: service_provider.lua:57-63 -/
def launched (s : ServiceProvider) (boot : ProviderBoot) (addr : ℕ) : ServiceProvider :=
  respond { s with booting := false, address := some addr, boots := s.boots.erase boot }
    boot.launcher (.address addr)

/-- SRC: service_provider.lua:57, 65-74 -/
def raised (s : ServiceProvider) (boot : ProviderBoot) : ServiceProvider := respond
    { s with
      booting := false
      error := true
      boots := s.boots.erase boot
      exits := s.exits ++ boot.cell.toList }
    boot.launcher .error

/-- `service.new` after its `test`; an address or an error ends it.
SRC: service.lua:20-32 -/
def follow (s : ServiceProvider) (i : ℕ) (a : ProviderAnswer) : Option ServiceProvider :=
  match a with
  | .missing => some { s.send .launch with followed := i :: s.followed }
  | .booting => some { s.send .query with followed := i :: s.followed }
  | .address _ => none
  | .error => none

/-- The cell of a boot that is in `newservice`. -/
def created (s : ServiceProvider) (boot : ProviderBoot) (addr : ℕ) : ServiceProvider :=
  { s with boots := s.boots.map fun b => if b = boot then { b with cell := some addr } else b }

def next (s : ServiceProvider) : ProviderAction → Option ServiceProvider
  | .new => some (s.send .test)
  | .query => some (s.send .query)
  | .follow i => do
    let c ← s.calls[i]?
    let a ← c.answers.head?
    if c.command = .test ∧ i ∉ s.followed then s.follow i a else none
  | .handle i => do
    let c ← s.calls[i]?
    if c.handled then none
    else some (dispatch { s with calls := Calls.handle s.calls i } i c.command)
  | .created boot addr =>
    if boot ∈ s.boots ∧ boot.cell = none then some (s.created boot addr) else none
  | .booted boot => do
    let addr ← boot.cell
    if boot ∈ s.boots then some (s.launched boot addr) else none
  | .failed boot => if boot ∈ s.boots then some (s.raised boot) else none

def machine : Machine ServiceProvider ProviderAction where
  start s := s = init
  next := next

end ServiceProvider

end Skynet.Model
