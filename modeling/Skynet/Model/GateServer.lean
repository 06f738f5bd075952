import Skynet.Library.LuaTable
import Skynet.Library.Machine

/-!
# The gate server

`lualib/snax/gateserver.lua`: the listening socket, the connections that it accepts, and their
number.  A handler of the service may do anything; what it asks the gate server for are events
of their own, and a kick is a `closeclient`.

The socket server gives an accepted connection a number that no open socket has, and tells the
end of each socket once.  The order of the packages of a connection is `netpack`'s and is left
out.
-/

namespace Skynet.Model

open Library

/-- What the gate server does to sockets, and the functions of the handler that it calls. -/
inductive GateServerEffect
  | listen (id : ℕ)
  | start (id : ℕ)
  | shutdown (id : ℕ)
  | close (id : ℕ)
  | nodelay (id : ℕ)
  | handlerOpen
  | handlerConnect (fd : ℕ) (addr : List UInt8)
  | handlerMessage (fd : ℕ) (msg : List UInt8)
  | handlerDisconnect (fd : ℕ)
  | handlerError (fd : ℕ) (msg : List UInt8)
  | handlerWarning (fd size : ℕ)
  deriving DecidableEq

/-- The variables of the gate server, and records of the run: what was done, the connections
that were accepted, not refused, and whose end has not been told, those that were refused and
whose end has not been told, and how many refused ones have ended. -/
structure GateServer where
  socket : Option ℕ
  maxclient : Option ℤ
  clientNumber : ℤ
  nodelay : Bool
  connection : Table ℕ Bool
  effects : List GateServerEffect
  clients : List ℕ
  refused : List ℕ
  refusedEnds : ℕ

/-- `conf` of `CMD.open`, without the address. -/
structure GateServerConf where
  maxclient : Option ℤ
  nodelay : Bool
  deriving DecidableEq

/-- What happens next: a command, a message of the socket server, or a call of the handler. -/
inductive GateServerEvent
  /-- `CMD.open`; the number of the socket if `listen` does not fail. -/
  | cmdOpen (conf : GateServerConf) (listened : Option ℕ)
  | cmdClose
  | data (fd : ℕ) (msg : List UInt8)
  | accept (fd : ℕ) (addr : List UInt8)
  | closed (fd : ℕ)
  | error (fd : ℕ) (msg : List UInt8)
  | warning (fd size : ℕ)
  | openclient (fd : ℕ)
  | closeclient (fd : ℕ)
  deriving DecidableEq

namespace GateServer

def emit (s : GateServer) (effects : List GateServerEffect) : GateServer :=
  { s with effects := s.effects ++ effects }

/-- SRC: gateserver.lua:19-23 -/
def openclient (s : GateServer) (fd : ℕ) : GateServer :=
  if s.connection.get fd = some true then s.emit [.start fd] else s

/-- SRC: gateserver.lua:25-31 -/
def closeclient (s : GateServer) (fd : ℕ) : GateServer :=
  match s.connection.get fd with
  | none => s
  | some _ => { s with connection := s.connection.put fd none }.emit [.close fd]

/-- `conf.maxclient or 1024`. -/
def maxclientOf (conf : GateServerConf) : ℤ := conf.maxclient.getD 1024

/-- `CMD.open`; where there is a listening socket the `assert` fails.
SRC: gateserver.lua:37-50 -/
def cmdOpen (s : GateServer) (conf : GateServerConf) (listened : Option ℕ) : GateServer :=
  match s.socket with
  | some _ => s
  | none =>
    let s := { s with maxclient := some (maxclientOf conf), nodelay := conf.nodelay }
    match listened with
    | none => s
    | some id => { s with socket := some id }.emit [.listen id, .start id, .handlerOpen]

/-- `CMD.close`; without a listening socket the `assert` fails.
SRC: gateserver.lua:51-54 -/
def cmdClose (s : GateServer) : GateServer :=
  match s.socket with
  | none => s
  | some id => s.emit [.close id]

/-- `MSG.data`; a message for a connection that is closed is dropped.
SRC: gateserver.lua:58-64 -/
def dispatchMsg (s : GateServer) (fd : ℕ) (msg : List UInt8) : GateServer :=
  if s.connection.get fd = some true then s.emit [.handlerMessage fd msg] else s

/-- `MSG.open`, which compares with a number only behind `CMD.open`.
SRC: gateserver.lua:84-95 -/
def msgOpen (s : GateServer) (maxclient : ℤ) (fd : ℕ) (addr : List UInt8) : GateServer :=
  if maxclient ≤ s.clientNumber then
    { s with refused := fd :: s.refused }.emit [.shutdown fd]
  else
    let s := if s.nodelay then s.emit [.nodelay fd] else s
    { s with
      connection := s.connection.put fd (some true)
      clientNumber := s.clientNumber + 1
      clients := fd :: s.clients }.emit [.handlerConnect fd addr]

def ended (s : GateServer) (fd : ℕ) : GateServer :=
  if fd ∈ s.clients then { s with clients := s.clients.erase fd }
  else { s with refused := s.refused.erase fd, refusedEnds := s.refusedEnds + 1 }

/-- `MSG.close`.
SRC: gateserver.lua:97-109 -/
def msgClose (s : GateServer) (fd : ℕ) : GateServer :=
  if s.socket = some fd then { s with socket := none }
  else
    let s := { s with clientNumber := s.clientNumber - 1 }
    let s :=
      if s.connection.get fd = some true then
        { s with connection := s.connection.put fd (some false) }
      else s
    (s.ended fd).emit [.handlerDisconnect fd]

/-- `MSG.error`.
SRC: gateserver.lua:111-120 -/
def msgError (s : GateServer) (fd : ℕ) (msg : List UInt8) : GateServer :=
  if s.socket = some fd then s else s.emit [.shutdown fd, .handlerError fd msg]

def Unused (s : GateServer) (fd : ℕ) : Prop := s.socket ≠ some fd ∧ fd ∉ s.clients ∧ fd ∉ s.refused

instance (s : GateServer) (fd : ℕ) : Decidable (s.Unused fd) :=
  inferInstanceAs (Decidable (_ ∧ _ ∧ _))

/-- The gate server after an event; `none` where the socket server does not send it. -/
def next (s : GateServer) : GateServerEvent → Option GateServer
  | .cmdOpen conf listened =>
    if ∀ id ∈ listened, s.Unused id then some (s.cmdOpen conf listened) else none
  | .cmdClose => some s.cmdClose
  | .data fd msg => some (s.dispatchMsg fd msg)
  | .accept fd addr =>
    match s.maxclient with
    | none => none
    | some maxclient => if s.Unused fd then some (s.msgOpen maxclient fd addr) else none
  | .closed fd => if s.Unused fd then none else some (s.msgClose fd)
  | .error fd msg => some (s.msgError fd msg)
  | .warning fd size => some (s.emit [.handlerWarning fd size])
  | .openclient fd => some (s.openclient fd)
  | .closeclient fd => some (s.closeclient fd)

def init : GateServer := ⟨none, none, 0, false, ∅, [], [], [], 0⟩

/-- The gate server and the events that the socket server, the other services and the handler
cause. -/
def machine : Machine GateServer GateServerEvent := ⟨fun s => s = init, next⟩

end GateServer

end Skynet.Model
