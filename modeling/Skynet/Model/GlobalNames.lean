import Skynet.Library.LuaTable
import Skynet.Library.Machine

/-!
# Global names

`service/cmaster.lua` and `service/cslave.lua`: one master, a connection to every slave, and
the names that are registered and asked for over it.  A connection keeps the order of the
packages in each direction; the connections are read in any order, and requests of the
services of a node come at any time once its `cslave` has sent its handshake.

Slaves are told apart by their harbor ids: the master closes the connection of a slave
whose id is in use.  What the slaves do to connect to each other is left out, and so is
what happens when a connection breaks.
-/

namespace Skynet.Model

open Library Function

/-- A Lua string as a name. -/
abbrev GlobalName := List UInt8

/-- The bytes of a string in a package: its header and its content.
SRC: lua-seri.c:190-215 -/
def nameSize (name : GlobalName) : ℕ :=
  (if name.length < 32 then 1 else if name.length < 0x10000 then 3 else 5) + name.length

/-- The bytes of the address of a service in a package.
SRC: lua-seri.c:142-174 -/
def addressSize (address : ℕ) : ℕ :=
  if address = 0 then 1
  else if address < 0x100 then 2
  else if address < 0x10000 then 3
  else if address < 0x80000000 then 5
  else 9

/-- `pack_package` of a type, a name and an address does not fail with "too long".
SRC: cmaster.lua:39-44, cslave.lua:24-29 -/
def packsName (name : GlobalName) (address : ℕ) : Bool :=
  2 + nameSize name + addressSize address ≤ 255

/-- `pack_package` of a type and a name does not fail with "too long". -/
def packsQuery (name : GlobalName) : Bool := 2 + nameSize name ≤ 255

/-- What a slave writes to the master.
SRC: cmaster.lua:11-16 -/
inductive SlavePackage
  | handshake
  | register (name : GlobalName) (address : ℕ)
  | query (name : GlobalName)
  deriving DecidableEq, Repr

/-- What the master writes to a slave.
SRC: cmaster.lua:19-25 -/
inductive MasterPackage (ι : Type)
  | wait (n : ℕ)
  | connect (slave : ι)
  | name (name : GlobalName) (address : ℕ)
  deriving DecidableEq, Repr

/-- How far `skynet.start` of a slave has come. -/
inductive SlavePhase
  | off
  /-- 'H' is sent, 'W' has not come. -/
  | handshake
  /-- `monitor_master` runs, `connect_queue` is a table. -/
  | waiting
  /-- `ready` has set `connect_queue` to nil and is connecting to the other slaves. -/
  | connecting
  | ready
  deriving DecidableEq, Repr

/-- The names of a slave.
SRC: cslave.lua:7-10 -/
structure Cslave where
  phase : SlavePhase
  globalname : Table GlobalName ℕ
  queryname : Table GlobalName (List ℕ)

/-- What a slave does with a binding: keep it in `globalname`, tell it to its harbor
service, answer a query with it. -/
inductive BindingUse
  | stored
  | forwarded
  | answered (session : ℕ)
  deriving DecidableEq, Repr

structure Binding (ι : Type) where
  slave : ι
  use : BindingUse
  name : GlobalName
  address : ℕ
  deriving DecidableEq, Repr

/-- The master's tables, the slaves, the packages on their way, oldest first, and the
bindings that slaves have used. -/
structure NamesState (ι : Type) where
  slaveNode : List ι
  globalName : Table GlobalName ℕ
  slave : ι → Cslave
  up : ι → List SlavePackage
  down : ι → List (MasterPackage ι)
  log : List (Binding ι)

/-- What happens next. -/
inductive NamesAction (ι : Type)
  /-- A slave is started and connects to the master. -/
  | start (i : ι)
  /-- The master reads the next package of a slave. -/
  | master (i : ι)
  /-- A slave reads the next package of the master. -/
  | slave (i : ι)
  /-- `ready` begins. -/
  | ready (i : ι)
  /-- `ready` has connected to the other slaves. -/
  | connected (i : ι)
  | register (i : ι) (name : GlobalName) (handle : ℕ)
  | queryname (i : ι) (name : GlobalName) (session : ℕ)
  /-- The harbor service asks with 'Q'. -/
  | harborQuery (i : ι) (name : GlobalName)
  deriving DecidableEq, Repr

namespace NamesState

variable {ι : Type} [DecidableEq ι]

/-- The state with another `cslave` for a slave. -/
def putSlave (s : NamesState ι) (i : ι) (c : Cslave) : NamesState ι :=
  { s with slave := update s.slave i c }

def sendUp (s : NamesState ι) (i : ι) (p : SlavePackage) : NamesState ι :=
  { s with up := update s.up i (s.up i ++ [p]) }

def sendDown (s : NamesState ι) (i : ι) (p : MasterPackage ι) : NamesState ι :=
  { s with down := update s.down i (s.down i ++ [p]) }

/-- The loops of the master over `slave_node`. -/
def sendAll (s : NamesState ι) (p : MasterPackage ι) : NamesState ι :=
  { s with down := fun j => if j ∈ s.slaveNode then s.down j ++ [p] else s.down j }

def use (s : NamesState ι) (bindings : List (Binding ι)) : NamesState ι :=
  { s with log := bindings ++ s.log }

/-- `globalname[name] = address` and `response_name`.
SRC: cslave.lua:69-78, 91-92, 176-177 -/
def learn (s : NamesState ι) (i : ι) (name : GlobalName) (address : ℕ) : NamesState ι :=
  let c := s.slave i
  let waiting := (c.queryname.get name).getD []
  (s.putSlave i { c with
    globalname := c.globalname.put name (some address)
    queryname := c.queryname.put name none }).use
    (⟨i, .stored, name, address⟩ :: waiting.map fun session =>
      ⟨i, .answered session, name, address⟩)

/-- `handshake`, with `report_slave`.
SRC: cmaster.lua:46-72 -/
def handshake (s : NamesState ι) (i : ι) : NamesState ι :=
  let s := (s.sendAll (.connect i)).sendDown i (.wait s.slaveNode.length)
  { s with slaveNode := i :: s.slaveNode }

/-- `dispatch_slave`.  A package whose `pack_package` fails ends the connection; no
registration that has come is one.
SRC: cmaster.lua:74-95 -/
def dispatchSlave (s : NamesState ι) (i : ι) : SlavePackage → Option (NamesState ι)
  | .handshake => none
  | .register name address =>
    if packsName name address then
      let globalName :=
        if (s.globalName.get name).isNone then s.globalName.put name (some address)
        else s.globalName
      some ({ s with globalName := globalName }.sendAll (.name name address))
    else none
  | .query name =>
    match s.globalName.get name with
    | none => some s
    | some address =>
      if packsName name address then some (s.sendDown i (.name name address)) else none

/-- The master reads a package, which is the handshake if the slave is new.
SRC: cmaster.lua:58-59, 97-100 -/
def masterReads (s : NamesState ι) (i : ι) (p : SlavePackage) : Option (NamesState ι) :=
  if i ∈ s.slaveNode then s.dispatchSlave i p
  else if p = .handshake then some (s.handshake i)
  else none

/-- A slave reads a package: 'W' in its start, the others in `monitor_master`.
SRC: cslave.lua:80-103, 246-249 -/
def slaveReads (s : NamesState ι) (i : ι) : MasterPackage ι → Option (NamesState ι)
  | .wait _ =>
    if (s.slave i).phase = .handshake then
      some (s.putSlave i { s.slave i with phase := .waiting })
    else none
  | .connect _ => if (s.slave i).phase ∈ [.off, .handshake] then none else some s
  | .name name address =>
    match (s.slave i).phase with
    | .off | .handshake => none
    | .waiting => some (s.learn i name address)
    | .connecting | .ready =>
      some ((s.learn i name address).use [⟨i, .forwarded, name, address⟩])

/-- `harbor.REGISTER`.  The binding is stored before `pack_package` can fail.
SRC: cslave.lua:174-180 -/
def register (s : NamesState ι) (i : ι) (name : GlobalName) (handle : ℕ) : NamesState ι :=
  if ((s.slave i).globalname.get name).isSome then s
  else
    let s := s.learn i name handle
    if packsName name handle then
      (s.sendUp i (.register name handle)).use [⟨i, .forwarded, name, handle⟩]
    else s

/-- `harbor.QUERYNAME`; a name that begins with "." is local.
SRC: cslave.lua:208-226 -/
def queryname (s : NamesState ι) (i : ι) (name : GlobalName) (session : ℕ) : NamesState ι :=
  let c := s.slave i
  if name.head? = some 46 then s
  else
    match c.globalname.get name with
    | some address => s.use [⟨i, .answered session, name, address⟩]
    | none =>
      match c.queryname.get name with
      | some queue =>
        s.putSlave i { c with queryname := c.queryname.put name (some (queue ++ [session])) }
      | none =>
        if packsQuery name then
          (s.sendUp i (.query name)).putSlave i
            { c with queryname := c.queryname.put name (some [session]) }
        else s

/-- The 'Q' of `monitor_harbor`.
SRC: cslave.lua:154-160 -/
def harborQuery (s : NamesState ι) (i : ι) (name : GlobalName) : NamesState ι :=
  match (s.slave i).globalname.get name with
  | some address => s.use [⟨i, .forwarded, name, address⟩]
  | none => if packsQuery name then s.sendUp i (.query name) else s

/-- The last loop of `ready`.
SRC: cslave.lua:64-66 -/
def forwardNames (s : NamesState ι) (i : ι) : NamesState ι :=
  s.use ((s.slave i).globalname.entries.map fun e => ⟨i, .forwarded, e.1, e.2⟩)

/-- One step of the master or of a slave.
SRC: cmaster.lua:110-125, cslave.lua:58-67, 228-273 -/
def next (s : NamesState ι) : NamesAction ι → Option (NamesState ι)
  | .start i =>
    if (s.slave i).phase = .off then
      some ((s.sendUp i .handshake).putSlave i { s.slave i with phase := .handshake })
    else none
  | .master i =>
    match s.up i with
    | [] => none
    | p :: ps => { s with up := update s.up i ps }.masterReads i p
  | .slave i =>
    match s.down i with
    | [] => none
    | p :: ps => { s with down := update s.down i ps }.slaveReads i p
  | .ready i =>
    if (s.slave i).phase = .waiting then
      some (s.putSlave i { s.slave i with phase := .connecting })
    else none
  | .connected i =>
    if (s.slave i).phase = .connecting then
      some ((s.forwardNames i).putSlave i { s.slave i with phase := .ready })
    else none
  | .register i name handle =>
    if (s.slave i).phase = .off then none else some (s.register i name handle)
  | .queryname i name session =>
    if (s.slave i).phase = .off then none else some (s.queryname i name session)
  | .harborQuery i name =>
    if (s.slave i).phase = .off then none else some (s.harborQuery i name)

def init : NamesState ι where
  slaveNode := []
  globalName := ∅
  slave := fun _ => ⟨.off, ∅, ∅⟩
  up := fun _ => []
  down := fun _ => []
  log := []

end NamesState

/-- One master and the slaves of `ι` under any interleaving. -/
def namesMachine (ι : Type) [DecidableEq ι] : Machine (NamesState ι) (NamesAction ι) where
  start s := s = .init
  next := NamesState.next

def NamesState.Quiescent {ι : Type} (s : NamesState ι) : Prop :=
  (∀ i, s.up i = []) ∧ ∀ i, s.down i = []

/-- Every binding a slave has used is the one the master holds, or the master holds none and
its registration is on the way; and when no package is, every slave agrees with the
master. -/
structure NamesAgree {ι : Type} (s : NamesState ι) : Prop where
  held : ∀ b ∈ s.log, s.globalName.get b.name = some b.address ∨
    (s.globalName.get b.name = none ∧ ∃ i, .register b.name b.address ∈ s.up i)
  quiescent : s.Quiescent → ∀ i name address,
    (s.slave i).globalname.get name = some address → s.globalName.get name = some address

/-- A registration that a slave takes is short enough for a package, and every other
registration of its name, held by the master or on its way, is of the same address. -/
def SoleRegistration {ι : Type} (s : NamesState ι) : NamesAction ι → Prop
  | .register i name handle =>
    (s.slave i).globalname.get name = none → packsName name handle = true ∧
      (∀ address, s.globalName.get name = some address → address = handle) ∧
      ∀ j address, .register name address ∈ s.up j → address = handle
  | _ => True

end Skynet.Model
