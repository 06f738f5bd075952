import Mathlib.Data.List.Basic
import Skynet.Library.LittleEndian
import Skynet.Library.Machine

/-!
# The nodes of clusterd

One node at `service/clusterd.lua`: its entries in `node_address`, `node_sender`, `node_channel`
and `connecting`, and the coroutines that are in `open_channel` for it.  A reload is the list of
its entries that are read for the node, in the order that `pairs` gives them.  Launches and calls
of `changenode` take any time and fail at any time.
-/

namespace Skynet.Model

open Library

inductive NodeAddress
  /-- `false`. -/
  | off
  | on (text : Bytes)
  deriving DecidableEq

/-- `string.match(address, "([^:]+):(.*)$")`.
SRC: clusterd.lua:42 -/
def matchAddress : Bytes → Option (Bytes × Bytes)
  | [] => none
  | x :: xs =>
    if x = 58 then matchAddress xs
    else
      match xs.dropWhile (· ≠ 58) with
      | [] => none
      | _ :: port => some (x :: xs.takeWhile (· ≠ 58), port)

/-- The host and the port that `changenode` gets; `false` and `nil` are the same to it. -/
def NodeAddress.target : NodeAddress → Option (Bytes × Bytes)
  | .off => none
  | .on text => matchAddress text

/-- `ct`; the coroutines in it are asleep. -/
structure OpenRecord where
  waiting : List ℕ
  namequery : Option ℕ
  deriving DecidableEq

/-- Where `open_channel` yields after `connecting[key] = ct`. -/
inductive OpenStage
  /-- Asleep in the wait for the name. -/
  | naming
  /-- Woken from it. -/
  | named
  | launching (text : Bytes)
  | calling (address : NodeAddress) (c : ℕ)
  deriving DecidableEq

structure Opening where
  coroutine : ℕ
  stage : OpenStage
  deriving DecidableEq

/-- `ready` has the coroutines that a reload has forked, `woken` those that the end of another one
has woken, with the channel of its record, and `results` the values that coroutines returned,
`none` for an error.  A clustersender is its number. -/
structure Clusterd where
  nowaiting : Bool
  nodeAddress : Option NodeAddress
  nodeSender : Option ℕ
  nodeChannel : Option ℕ
  connecting : Option OpenRecord
  openings : List Opening
  ready : List ℕ
  woken : List (ℕ × Option ℕ)
  results : List (ℕ × Option (Option ℕ))
  coroutines : ℕ
  launches : ℕ
  killed : List ℕ
  changes : List (ℕ × Option (Bytes × Bytes))
  deriving DecidableEq

inductive ConfigEntry
  /-- `__nowaiting`. -/
  | nowaiting (on : Bool)
  | address (address : NodeAddress)
  /-- An entry that raises an error: its name is no string, or its value no address. -/
  | bad
  deriving DecidableEq

inductive ClusterdAction
  | request
  | reload (entries : List ConfigEntry)
  | run (i : ℕ)
  | wake (i : ℕ) (channel : Option ℕ)
  /-- A coroutine goes on after the wait for the name. -/
  | named (i : ℕ)
  | launched (i : ℕ) (text : Bytes)
  | launchFailed (i : ℕ) (text : Bytes)
  | changed (i : ℕ) (address : NodeAddress) (c : ℕ)
  | changeFailed (i : ℕ) (address : NodeAddress) (c : ℕ)
  deriving DecidableEq

/-- The key of an entry; a table has a key once. -/
def ConfigEntry.key : ConfigEntry → ℕ
  | .nowaiting _ => 0
  | .address _ => 1
  | .bad => 2

namespace Clusterd

/-- Before the configuration is loaded. -/
def init : Clusterd where
  nowaiting := false
  nodeAddress := none
  nodeSender := none
  nodeChannel := none
  connecting := none
  openings := []
  ready := []
  woken := []
  results := []
  coroutines := 0
  launches := 0
  killed := []
  changes := []

/-! ## Opening a channel -/

def result (s : Clusterd) (i : ℕ) (r : Option (Option ℕ)) : Clusterd :=
  { s with results := s.results ++ [(i, r)] }

def opening (s : Clusterd) (i : ℕ) (stage : OpenStage) : Clusterd :=
  { s with openings := s.openings ++ [⟨i, stage⟩] }

def changenode (s : Clusterd) (i : ℕ) (address : NodeAddress) (c : ℕ) : Clusterd :=
  { s.opening i (.calling address c) with changes := s.changes ++ [(c, address.target)] }

/-- The record is removed, and those in it are woken.
SRC: clusterd.lua:75-78 -/
def release (s : Clusterd) (channel : Option ℕ) : Clusterd :=
  match s.connecting with
  | some ct => { s with connecting := none, woken := s.woken ++ ct.waiting.map (·, channel) }
  | none => s

/-- What follows once the address is read.  Where nothing yields, the address is still the same
at the end.
SRC: clusterd.lua:40-83 -/
def connect (s : Clusterd) (i : ℕ) (address : Option NodeAddress) : Clusterd :=
  match address, s.nodeSender with
  | some (.on text), none => s.opening i (.launching text)
  | some (.on text), some c => s.changenode i (.on text) c
  | some .off, some c => s.changenode i .off c
  -- no sender, always succ
  | some .off, none => (s.release none).result i (some none)
  | none, _ => (s.release none).result i none

/-- A coroutine that finds a record waits in it.
SRC: clusterd.lua:15-24 -/
def wait (s : Clusterd) (ct : OpenRecord) (i : ℕ) : Clusterd :=
  { s with connecting := some { ct with waiting := ct.waiting ++ [i] } }

/-- `open_channel`, up to where it yields.
SRC: clusterd.lua:14-39 -/
def openChannel (s : Clusterd) (i : ℕ) : Clusterd :=
  match s.connecting with
  | some ct => s.wait ct i
  | none =>
    if s.nodeAddress = none ∧ s.nowaiting = false then
      opening { s with connecting := some ⟨[], some i⟩ } i .naming
    else connect { s with connecting := some ⟨[], none⟩ } i s.nodeAddress

/-- A coroutine that was woken looks for another record.
SRC: clusterd.lua:21-25 -/
def wake (s : Clusterd) (i : ℕ) (channel : Option ℕ) : Clusterd :=
  match s.connecting with
  | some ct => s.wait ct i
  | none =>
    match s.nodeAddress, channel with
    | some (.on _), some c => s.result i (some (some c))
    | _, _ => s.result i none

/-- `newservice` returns.
SRC: clusterd.lua:46-54 -/
def launch (s : Clusterd) (i : ℕ) (text : Bytes) : Clusterd :=
  match s.nodeSender with
  | some c =>
    -- double check
    changenode { s with launches := s.launches + 1, killed := s.killed ++ [s.launches] } i
      (.on text) c
  | none =>
    changenode { s with launches := s.launches + 1, nodeSender := some s.launches } i (.on text)
      s.launches

/-- The end of `open_channel` after `changenode`.
SRC: clusterd.lua:74-83 -/
def finish (s : Clusterd) (i : ℕ) (address : NodeAddress) (channel : Option ℕ)
    (r : Option (Option ℕ)) : Clusterd :=
  if (s.release channel).nodeAddress = some address then (s.release channel).result i r
  else (s.release channel).openChannel i

/-- `changenode` returns.
SRC: clusterd.lua:56-60, 71 -/
def change (s : Clusterd) (i : ℕ) (address : NodeAddress) (c : ℕ) : Clusterd :=
  match address with
  | .on _ => finish { s with nodeChannel := some c } i address (some c) (some (some c))
  | .off => s.finish i address none (some (some c))

/-! ## The configuration -/

/-- `skynet.wakeup(ct.namequery)`, which does nothing to a coroutine that is not asleep. -/
def wakeName (s : Clusterd) : Clusterd :=
  match s.connecting with
  | some ct =>
    { s with
      openings := s.openings.map fun o =>
        if o.stage = .naming ∧ ct.namequery = some o.coroutine then { o with stage := .named }
        else o }
  | none => s

/-- SRC: clusterd.lua:105-113 -/
def setAddress (s : Clusterd) (address : NodeAddress) : Clusterd :=
  if s.nodeAddress = some address then s
  else
    { s with
      nodeAddress := some address
      -- reset connection if there is a sender
      nodeChannel := if s.nodeSender.isSome then none else s.nodeChannel }

/-- SRC: clusterd.lua:104-119 -/
def loadAddress (s : Clusterd) (address : NodeAddress) : Clusterd :=
  let t := s.setAddress address
  if t.nowaiting then t else t.wakeName

/-- Whether the node is put on the list `reload`. -/
def resets (s : Clusterd) (address : NodeAddress) : Bool :=
  s.nodeAddress ≠ some address && s.nodeSender.isSome

/-- The entries of a reload, up to the one that raises an error; `again` says whether the node is
on the list `reload`.
SRC: clusterd.lua:97-122 -/
def loadEntries (s : Clusterd) (again : Bool) : List ConfigEntry → Clusterd × Bool
  | [] => (s, again)
  | .nowaiting on :: entries => loadEntries { s with nowaiting := on } again entries
  | .address address :: entries =>
    loadEntries (s.loadAddress address) (again || s.resets address) entries
  | .bad :: _ => (s, again)

/-- What follows the loop over the entries.
SRC: clusterd.lua:121-133 -/
def loaded (s : Clusterd) (again : Bool) : Clusterd :=
  let t := if s.nowaiting then s.wakeName else s
  if again then { t with ready := t.ready ++ [t.coroutines], coroutines := t.coroutines + 1 } else t

/-- SRC: clusterd.lua:87-133 -/
def reload (s : Clusterd) (entries : List ConfigEntry) : Clusterd :=
  let (t, again) := s.loadEntries false entries
  if .bad ∈ entries then t else t.loaded again

/-- `command.sender`. -/
def request (s : Clusterd) : Clusterd :=
  let t := { s with coroutines := s.coroutines + 1 }
  match s.nodeChannel with
  | some c => t.result s.coroutines (some (some c))
  | none => t.openChannel s.coroutines

def next (s : Clusterd) : ClusterdAction → Option Clusterd
  | .request => some s.request
  | .reload entries =>
    if (entries.map ConfigEntry.key).Nodup then some (s.reload entries) else none
  | .run i =>
    if i ∈ s.ready then some (openChannel { s with ready := s.ready.erase i } i) else none
  | .wake i channel =>
    if (i, channel) ∈ s.woken then
      some (wake { s with woken := s.woken.erase (i, channel) } i channel)
    else none
  | .named i =>
    if ⟨i, .named⟩ ∈ s.openings then
      some (connect { s with openings := s.openings.erase ⟨i, .named⟩ } i s.nodeAddress)
    else none
  | .launched i text =>
    if ⟨i, .launching text⟩ ∈ s.openings then
      some (launch { s with openings := s.openings.erase ⟨i, .launching text⟩ } i text)
    else none
  -- the error of `newservice` leaves the record
  | .launchFailed i text =>
    if ⟨i, .launching text⟩ ∈ s.openings then
      some (result { s with openings := s.openings.erase ⟨i, .launching text⟩ } i none)
    else none
  | .changed i address c =>
    if ⟨i, .calling address c⟩ ∈ s.openings then
      some (change { s with openings := s.openings.erase ⟨i, .calling address c⟩ } i address c)
    else none
  | .changeFailed i address c =>
    if ⟨i, .calling address c⟩ ∈ s.openings then
      some (finish { s with openings := s.openings.erase ⟨i, .calling address c⟩ } i address none
        none)
    else none

def machine : Machine Clusterd ClusterdAction where
  start s := s = init
  next := next

end Clusterd

end Skynet.Model
