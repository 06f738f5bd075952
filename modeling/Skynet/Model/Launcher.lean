import Mathlib.Data.List.Basic
import Skynet.Library.Machine

/-!
# The launcher

The service of `service/launcher.lua`, and the snlua services that it launches.  A service is
numbered by its handle.  The messages about a service are sent by itself, by the C code of its
first message, and by whoever kills it; the launcher handles them in their order.  A service that
is no longer alive may still be in a message, and so send.
-/

namespace Skynet.Model

open Library Function

inductive LaunchAnswer
  | address (handle : ℕ)
  /-- `response(true)` without an address. -/
  | nothing
  | error
  deriving DecidableEq

inductive ServiceStage
  /-- Before its first message. -/
  | created
  /-- In the file, the functions of `skynet.init` or the start function. -/
  | starting
  /-- After the `ERROR` of `init_service`. -/
  | raised
  /-- On its way to `EXIT`. -/
  | exiting
  | started
  /-- It does nothing any more. -/
  | ended
  deriving DecidableEq

/-- `alive` says whether its handle is registered, `returned` whether its start function has
returned. -/
structure LaunchedService where
  request : ℕ
  stage : ServiceStage
  alive : Bool
  returned : Bool
  deriving DecidableEq

/-- `error` is both the Lua message and the text of the C code; `killName` is the command `KILL`
with an address string. -/
inductive LauncherMessage
  | launchok (handle : ℕ)
  | error (handle : ℕ)
  | remove (handle : ℕ) (kill : Bool)
  | kill (handle : ℕ)
  | killName (handle : ℕ)
  deriving DecidableEq

/-- `kills` has the services that somebody is about to kill after his `REMOVE`. -/
structure Launcher where
  services : ℕ → Bool
  instances : ℕ → Option ℕ
  launchSession : ℕ → Option ℕ
  requests : List (List LaunchAnswer)
  launched : List LaunchedService
  queue : List LauncherMessage
  kills : List ℕ

inductive LauncherAction
  /-- A `LAUNCH` or a `LOGLAUNCH`; `ok` is false where `skynet.launch` returns `nil`. -/
  | launch (ok : Bool)
  | handle
  | load (handle : ℕ)
  /-- The file is not found or raises an error. -/
  | loadFailed (handle : ℕ)
  | returned (handle : ℕ)
  | raised (handle : ℕ)
  /-- `skynet.exit`, up to `EXIT`. -/
  | exit (handle : ℕ)
  | exited (handle : ℕ)
  /-- A service that is not alive gets no further message. -/
  | vanished (handle : ℕ)
  /-- `skynet.kill` with a number, up to `KILL`. -/
  | kill (handle : ℕ)
  | killed (handle : ℕ)
  /-- `skynet.kill` with an address string. -/
  | killName (handle : ℕ)
  /-- The command `KILL` with a number, and with an address string. -/
  | killCommand (handle : ℕ)
  | killNameCommand (handle : ℕ)
  deriving DecidableEq

namespace Launcher

def init : Launcher where
  services := fun _ => false
  instances := fun _ => none
  launchSession := fun _ => none
  requests := []
  launched := []
  queue := []
  kills := []

def respond (s : Launcher) (request : ℕ) (a : LaunchAnswer) : Launcher :=
  { s with requests := s.requests.modify request fun l => l ++ [a] }

def send (s : Launcher) (m : LauncherMessage) : Launcher := { s with queue := s.queue ++ [m] }

/-- `skynet_handle_retire`. -/
def retire (s : Launcher) (h : ℕ) : Launcher :=
  { s with launched := s.launched.modify h fun v => { v with alive := false } }

/-- `launch_service`.
SRC: launcher.lua:93-107 -/
def launch (s : Launcher) (ok : Bool) : Launcher :=
  if ok then
    { s with
      services := update s.services s.launched.length true
      instances := update s.instances s.launched.length (some s.requests.length)
      launchSession := update s.launchSession s.launched.length (some s.requests.length)
      requests := s.requests ++ [[]]
      launched := s.launched ++ [⟨s.requests.length, .created, true, false⟩] }
  else { s with requests := s.requests ++ [[.error]] }

/-- The response for an instance, which is then no longer one. -/
def confirm (s : Launcher) (h : ℕ) (a : LaunchAnswer) : Launcher :=
  match s.instances h with
  | some request =>
    { s.respond request a with
      instances := update s.instances h none
      launchSession := update s.launchSession h none }
  | none => s

def forget (s : Launcher) (h : ℕ) : Launcher :=
  { s with services := update s.services h false }

/-- SRC: launcher.lua:54-59, 79-91, 109-145 -/
def dispatch (s : Launcher) : LauncherMessage → Launcher
  | .launchok h => s.confirm h (.address h)
  | .error h => (s.confirm h .error).forget h
  | .remove h kill => (s.forget h).confirm h (if kill then .error else .nothing)
  | .kill h => ((s.send (.remove h true)).retire h).forget h
  -- `services` has no such key
  | .killName h => s.retire h

/-- A service that is at one of the stages goes on, and sends a message or none. -/
def proceed (s : Launcher) (h : ℕ) (stages : List ServiceStage)
    (f : LaunchedService → LaunchedService) (m : List LauncherMessage) : Option Launcher := do
  let v ← s.launched[h]?
  if v.stage ∈ stages then
    some { s with launched := s.launched.set h (f v), queue := s.queue ++ m }
  else none

def next (s : Launcher) : LauncherAction → Option Launcher
  | .launch ok => some (s.launch ok)
  | .handle =>
    match s.queue with
    | m :: rest => some (dispatch { s with queue := rest } m)
    | [] => none
  | .load h => s.proceed h [.created] (fun v => { v with stage := .starting }) []
  | .loadFailed h => s.proceed h [.created] (fun v => { v with stage := .exiting }) [.error h]
  | .returned h =>
    s.proceed h [.starting] (fun v => { v with stage := .started, returned := true })
      [.launchok h]
  | .raised h => s.proceed h [.starting] (fun v => { v with stage := .raised }) [.error h]
  | .exit h =>
    s.proceed h [.starting, .raised, .started] (fun v => { v with stage := .exiting })
      [.remove h false]
  | .exited h =>
    s.proceed h [.exiting] (fun v => { v with stage := .ended, alive := false }) []
  | .vanished h => do
    let v ← s.launched[h]?
    if v.alive then none
    else s.proceed h [.created, .starting, .started] (fun v => { v with stage := .ended }) []
  | .kill h =>
    if h < s.launched.length then
      some { s.send (.remove h true) with kills := s.kills ++ [h] }
    else none
  | .killed h => if h ∈ s.kills then some { s.retire h with kills := s.kills.erase h } else none
  | .killName h => if h < s.launched.length then some (s.retire h) else none
  | .killCommand h => if h < s.launched.length then some (s.send (.kill h)) else none
  | .killNameCommand h => if h < s.launched.length then some (s.send (.killName h)) else none

def machine : Machine Launcher LauncherAction where
  start s := s = init
  next := next

end Launcher

end Skynet.Model
