import Mathlib.Algebra.BigOperators.Group.Finset.Basic
import Skynet.Model.Multicast

/-!
# Packages of multicast messages

`lualib-src/lua-multicast.c` with `publish` of `service/multicastd.lua` and
`dispatch_subscribe` of `lualib/skynet/multicast.lua`, on one node.  A published message is one
block with a reference counter; every subscriber of the node gets its address.  `multicastd`
and every service run in threads of their own, and the receivers take their messages,
handle them over any time and close the package at last.

Blocks are numbered in the order of their allocation.  A freed block keeps its fields, so that a run goes
on after a use of it, and the use is noted among `faults`.  The counter is an integer
without the width of `int`.  Messages of other nodes come at any time.
-/

namespace Skynet.Model

open Library

/-- `struct mc_package`, and what has become of it: the messages that were sent with its
address, the calls of `mc.close` for them, and how often it was freed.
SRC: lua-multicast.c:12-16 -/
structure McPackage where
  reference : ℤ
  receivers : ℕ
  closes : ℕ
  frees : ℕ
  deriving DecidableEq, Repr

/-- What must not happen: an access to a freed package, and the two errors "Can't bind a
multicast package more than once" and "Invalid multicast package reference". -/
inductive McFault
  | freed (pack : ℕ)
  | bound (pack : ℕ)
  | negative (pack : ℕ)
  deriving DecidableEq, Repr

/-- How far `dispatch_subscribe` has come with a package.
SRC: multicast.lua:68-86 -/
inductive McStage
  /-- Before `self.__unpack(msg, sz)`. -/
  | unpack
  /-- In `pcall(self.__dispatch, ...)`. -/
  | dispatch
  /-- Before `mc.close(pack)`. -/
  | close
  deriving DecidableEq, Repr

structure McTask where
  pack : ℕ
  stage : McStage
  deriving DecidableEq, Repr

/-- A service that uses `multicast`: the messages in its queue, each a channel and a
package, its coroutines, the package that its call of `mc.close` has still to free, and the
channels with a subscribed object in `dispatch`. -/
structure McService where
  alive : Bool
  queue : List (ℕ × ℕ)
  tasks : List McTask
  freeing : Option ℕ
  subscribed : ℕ → Bool

/-- One node: the packages, of which `count` have been allocated, the PUB requests for
`multicastd`, each a channel and a package, the calls of `publish` that have not come to
the local group yet, the tables of the channels, and the services. -/
structure PackagesState (σ : Type) where
  package : ℕ → McPackage
  count : ℕ
  requests : List (ℕ × ℕ)
  publishing : List (ℕ × ℕ)
  channel : ℕ → McTables σ
  service : σ → McService
  faults : List McFault

inductive TableChange (σ : Type)
  | new
  | sub (source : σ)
  /-- SUB when SUBR has found the channel. -/
  | subRemote (source : σ)
  | usub (source : σ)
  /-- USUB of the last subscriber of a remote channel, DEL and DELR. -/
  | drop
  deriving DecidableEq, Repr

/-- What happens next. -/
inductive PackagesAction (σ : Type)
  /-- `chan:publish` up to its call of PUB. -/
  | publish (k : σ) (c : ℕ)
  /-- `multicastd` handles a PUB request, up to the loop over the remote nodes. -/
  | pub (i : ℕ)
  /-- A message of another node comes to `multicastd`. -/
  | remote (c : ℕ)
  /-- A call of `publish` comes to the local group. -/
  | local (i : ℕ)
  /-- `multicastd` handles another request. -/
  | tables (c : ℕ) (change : TableChange σ)
  /-- A service subscribes an object to a channel, or unsubscribes it. -/
  | subscribed (k : σ) (c : ℕ) (on : Bool)
  /-- A service takes the next message of its queue. -/
  | receive (k : σ)
  /-- `self.__unpack` returns or raises an error. -/
  | unpack (k : σ) (j : ℕ) (ok : Bool)
  /-- `self.__dispatch` has returned or raised an error. -/
  | dispatched (k : σ) (j : ℕ)
  /-- `ATOM_FDEC` of `mc.close`. -/
  | close (k : σ) (j : ℕ)
  /-- The rest of `mc.close`. -/
  | free (k : σ)
  | exit (k : σ)
  deriving DecidableEq, Repr

namespace PackagesState

variable {σ : Type} [DecidableEq σ]

/-- The state with another record for a package. -/
def putPackage (s : PackagesState σ) (p : ℕ) (pack : McPackage) : PackagesState σ :=
  { s with package := Function.update s.package p pack }

/-- The state with another record for a service. -/
def putService (s : PackagesState σ) (k : σ) (service : McService) : PackagesState σ :=
  { s with service := Function.update s.service k service }

def touch (s : PackagesState σ) (p : ℕ) : PackagesState σ :=
  if (s.package p).frees = 0 then s else { s with faults := .freed p :: s.faults }

/-- `pack` of `lua-multicast.c`, for `mc.pack` and `mc.packremote`: the new package is
numbered `count`.
SRC: lua-multicast.c:18-29 -/
def newPackage (s : PackagesState σ) : PackagesState σ :=
  { s with package := Function.update s.package s.count ⟨0, 0, 0, 0⟩, count := s.count + 1 }

/-- `mc.remote`, and `mc.bind` with 1 followed by `mc.close`: the package is freed by
`multicastd` itself.
SRC: lua-multicast.c:90-138, multicastd.lua:82-83, 113 -/
def freeUnsent (s : PackagesState σ) (p : ℕ) : PackagesState σ :=
  (s.touch p).putPackage p { s.package p with frees := (s.package p).frees + 1 }

/-- `mc.bind` with `channel_n[c]` and the loop over the group; a service that has exited
gets nothing.
SRC: lua-multicast.c:90-104, multicastd.lua:86-91 -/
def bindSend (s : PackagesState σ) (c p : ℕ) (group : Finset σ) : PackagesState σ :=
  if (s.package p).reference ≠ 0 then { s.touch p with faults := .bound p :: (s.touch p).faults }
  else
    { (s.touch p).putPackage p { s.package p with
        reference := (s.channel c).channelN.getD 0
        receivers := group.card } with
      service := fun k =>
        if k ∈ group ∧ (s.service k).alive then
          { s.service k with queue := (s.service k).queue ++ [(c, p)] }
        else s.service k }

/-- `publish` from the local group on.
SRC: multicastd.lua:79-91 -/
def publishLocal (s : PackagesState σ) (c p : ℕ) : PackagesState σ :=
  match (s.channel c).channel with
  | none => s.freeUnsent p
  | some group => if group = ∅ then s.freeUnsent p else s.bindSend c p group

/-- What a request does to the tables of a channel.
SRC: multicastd.lua:23-59, 140-188 -/
def changeTables (t : McTables σ) : TableChange σ → McTables σ
  | .new => if t.channel.isNone then ⟨some ∅, some 0⟩ else t
  | .sub source => t.join source
  | .subRemote source => t.joinRemote source
  | .usub source => t.leave source
  | .drop => .empty

/-- A service whose thread is not inside `mc.close`. -/
def Runs (s : PackagesState σ) (k : σ) : Prop :=
  (s.service k).alive = true ∧ (s.service k).freeing = none

instance (s : PackagesState σ) (k : σ) : Decidable (s.Runs k) := inferInstanceAs (Decidable (_ ∧ _))

/-- A message of the queue is unpacked by `mc.unpack` and dispatched.
SRC: multicast.lua:68-85, lua-multicast.c:71-82 -/
def receive (s : PackagesState σ) (k : σ) : Option (PackagesState σ) :=
  let service := s.service k
  match service.queue with
  | [] => none
  | (c, p) :: queue =>
    some ((s.touch p).putService k { service with
      queue := queue
      tasks := service.tasks ++ [⟨p, if service.subscribed c then .unpack else .close⟩] })

/-- The coroutine `j` of a service takes a step at its stage. -/
def task (s : PackagesState σ) (k : σ) (j : ℕ) (stage : McStage)
    (step : McService → ℕ → PackagesState σ) : Option (PackagesState σ) :=
  match (s.service k).tasks[j]? with
  | none => none
  | some t => if s.Runs k ∧ t.stage = stage then some (step (s.service k) t.pack) else none

/-- `ATOM_FDEC(&pack->reference)`; the package is freed by the same call if nothing is left.
SRC: lua-multicast.c:110-123 -/
def close (s : PackagesState σ) (k : σ) (j : ℕ) : Option (PackagesState σ) :=
  s.task k j .close fun service p =>
    let pack := s.package p
    let s := (s.touch p).putPackage p
      { pack with reference := pack.reference - 1, closes := pack.closes + 1 }
    let service := { service with tasks := service.tasks.eraseIdx j }
    s.putService k
      (if pack.reference - 1 ≤ 0 then { service with freeing := some p } else service)

/-- `skynet_free(pack)`, and the error for a negative reference.
SRC: lua-multicast.c:114-120 -/
def free (s : PackagesState σ) (k : σ) : Option (PackagesState σ) :=
  match (s.service k).freeing with
  | none => none
  | some p =>
    let pack := s.package p
    let s := (s.touch p).putPackage p { pack with frees := pack.frees + 1 }
    let s := s.putService k { s.service k with freeing := none }
    some (if pack.reference < 0 then { s with faults := .negative p :: s.faults } else s)

/-- One step of `multicastd`, of a service, or of the other nodes. -/
def next (harborId : ℕ) (s : PackagesState σ) : PackagesAction σ → Option (PackagesState σ)
  | .publish k c =>
    if s.Runs k then some { s.newPackage with requests := s.requests ++ [(c, s.count)] } else none
  | .pub i =>
    match s.requests[i]? with
    | none => none
    | some (c, p) =>
      let s := { s with requests := s.requests.eraseIdx i }
      if c % 256 = harborId then some { s.touch p with publishing := s.publishing ++ [(c, p)] }
      else some (s.freeUnsent p)
  | .remote c => some { s.newPackage with publishing := s.publishing ++ [(c, s.count)] }
  | .local i =>
    match s.publishing[i]? with
    | none => none
    | some (c, p) => some ({ s with publishing := s.publishing.eraseIdx i }.publishLocal c p)
  | .tables c change =>
    some { s with channel := Function.update s.channel c (changeTables (s.channel c) change) }
  | .subscribed k c on =>
    if s.Runs k then
      some (s.putService k { s.service k with
        subscribed := Function.update (s.service k).subscribed c on })
    else none
  | .receive k => if s.Runs k then s.receive k else none
  | .unpack k j ok =>
    s.task k j .unpack fun service p =>
      -- an error of __unpack is raised before pcall is called
      let tasks := if ok then service.tasks.set j ⟨p, .dispatch⟩ else service.tasks.eraseIdx j
      (s.touch p).putService k { service with tasks := tasks }
  | .dispatched k j =>
    s.task k j .dispatch fun service p =>
      s.putService k { service with tasks := service.tasks.set j ⟨p, .close⟩ }
  | .close k j => s.close k j
  | .free k => s.free k
  | .exit k =>
    if s.Runs k then
      some (s.putService k { s.service k with alive := false, queue := [], tasks := [] })
    else none

def init : PackagesState σ where
  package := fun _ => ⟨0, 0, 0, 0⟩
  count := 0
  requests := []
  publishing := []
  channel := fun _ => .empty
  service := fun _ => ⟨true, [], [], none, fun _ => false⟩
  faults := []

end PackagesState

/-- The packages of the node `harborId` under any interleaving. -/
def packagesMachine (harborId : ℕ) (σ : Type) [DecidableEq σ] :
    Machine (PackagesState σ) (PackagesAction σ) where
  start s := s = .init
  next := PackagesState.next harborId

/-- The messages and coroutines of a service that have still to close the package. -/
def McService.holds (p : ℕ) (service : McService) : ℕ :=
  (service.queue.map Prod.snd).count p + (service.tasks.map McTask.pack).count p

/-- One for a service that has still to free the package. -/
def McService.frees (p : ℕ) (service : McService) : ℕ :=
  if service.freeing = some p then 1 else 0

/-- A message refers to the package, or a call that one of them has led to is unfinished. -/
def PackageInFlight {σ : Type} (s : PackagesState σ) (p : ℕ) : Prop :=
  p ∈ s.requests.map Prod.snd ∨ p ∈ s.publishing.map Prod.snd ∨
    ∃ k, (s.service k).holds p ≠ 0 ∨ (s.service k).freeing = some p

/-- No access after a free and no error; the counter of a package that is sent starts with
the number of its receivers and loses one for each that is done; and a package is freed
once, when no message refers to it any more. -/
structure PackagesRight {σ : Type} [Fintype σ] (s : PackagesState σ) : Prop where
  faults : s.faults = []
  counted : ∀ p < s.count, 0 < (s.package p).receivers →
    (s.package p).reference + (s.package p).closes = (s.package p).receivers ∧
      (s.package p).closes + ∑ k, (s.service k).holds p = (s.package p).receivers
  in_flight : ∀ p, PackageInFlight s p → (s.package p).frees = 0
  freed : ∀ p < s.count, ¬ PackageInFlight s p → (s.package p).frees = 1

/-- No service exits with messages or coroutines that have still to close a package, no
message is published to a service that has exited, and no unpack function raises an
error. -/
def ReceiversClose {σ : Type} (s : PackagesState σ) : PackagesAction σ → Prop
  | .exit k => (s.service k).queue = [] ∧ (s.service k).tasks = []
  | .local i => ∀ c p, s.publishing[i]? = some (c, p) → ∀ group,
      (s.channel c).channel = some group → ∀ k ∈ group, (s.service k).alive = true
  | .unpack _ _ ok => ok = true
  | _ => True

end Skynet.Model
