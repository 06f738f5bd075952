import Mathlib.Algebra.Group.Nat.Defs
import Skynet.Library.Machine
import Skynet.Model.Socket

/-!
# The socket server and its callers

`skynet-src/socket_server.c` as a machine, seen from one slot: the threads that call
`socket_server_send` and its siblings with ids of the slot, the control pipe with the
requests for these ids, and the socket thread in the loop of `socket_server_poll`.

One step of a caller is one access to what it shares with others: the checks at the
start of a call, the section under `dw_lock` with its `write`, each access to `sending`,
and the write to the pipe.  One step of the socket thread is one round of its loop, with
`dec_sending_ref` as a step of its own.  Events come in any order and number, and
`reserve_id` may return any id of the slot.
-/

namespace Skynet.Model

open Library

/-- A request in the control pipe, by what it makes the socket thread call: `R`, `S`,
`B`, `L`, `K`, `O`, `W`, `D` or `P` by the priority of the buffer, `A`, `C` and `U`.
SRC: socket_server.c:186-203 -/
inductive Request (θ : Type)
  | resumeSocket (id owner : ℕ)
  | pauseSocket (id : ℕ)
  | bindSocket (id owner : ℕ)
  | listenSocket (id owner : ℕ)
  | closeSocket (id : ℕ) (shutdown : Bool)
  | openSocket (id owner : ℕ)
  | triggerWrite (id : ℕ)
  | sendSocket (id : ℕ) (b : SendBuffer θ)
  | sendUdp (id : ℕ) (b : SendBuffer θ) (addr : UdpAddress)
  | setUdpAddress (id : ℕ) (addr : UdpAddress)
  | addUdpSocket (id owner : ℕ) (v6 : Bool)

namespace Request

variable {θ : Type}

/-- The socket a request is for. -/
def id : Request θ → ℕ
  | .resumeSocket id _ | .pauseSocket id | .bindSocket id _ | .listenSocket id _
  | .closeSocket id _ | .openSocket id _ | .triggerWrite id | .sendSocket id _
  | .sendUdp id _ _ | .setUdpAddress id _ | .addUdpSocket id _ _ => id

/-- The requests that follow `reserve_id`. -/
def opens : Request θ → Bool
  | .bindSocket _ _ | .listenSocket _ _ | .openSocket _ _ | .addUdpSocket _ _ _ => true
  | _ => false

/-- The requests of `socket_server_start`, `socket_server_pause`, `socket_server_close`
and `socket_server_shutdown`, which do no more than write to the pipe. -/
def plain : Request θ → Bool
  | .resumeSocket _ _ | .pauseSocket _ | .closeSocket _ _ => true
  | _ => false

/-- The buffer of a `D` or `P` request for `id`. -/
def buffer? (id : ℕ) : Request θ → Option (SendBuffer θ)
  | .sendSocket id' b => if id' = id then some b else none
  | _ => none

end Request

/-- Where a caller stands: before which step. -/
inductive SenderPc (θ : Type)
  | idle
  /-- `can_direct_write` of `socket_server_send`. -/
  | direct (id : ℕ) (b : SendBuffer θ)
  /-- `can_direct_write` of `socket_server_udp_send`. -/
  | udpDirect (id : ℕ) (b : SendBuffer θ) (addr : UdpAddress)
  /-- The look at the protocol in `inc_sending_ref`. -/
  | incProtocol (id : ℕ) (b : SendBuffer θ)
  /-- `ATOM_LOAD(&s->sending)` of `inc_sending_ref`. -/
  | incLoad (id : ℕ) (b : SendBuffer θ)
  /-- `ATOM_CAS(&s->sending, sending, sending + 1)` of `inc_sending_ref`. -/
  | incCas (id : ℕ) (b : SendBuffer θ) (sending : ℕ)
  /-- The locked section of `socket_server_udp_connect`, and the address that
  `getaddrinfo` will find. -/
  | udpConnect (id : ℕ) (addr : Option UdpAddress)
  /-- `send_request`. -/
  | sendRequest (r : Request θ)

inductive ServerFault
  | slot (f : SocketFault)
  /-- `assert((s->sending & 0xffff) != 0)` of `dec_sending_ref`. -/
  | noSendingRef
  deriving DecidableEq

/-- The server, seen from one slot.  The last fields record the ids that `reserve_id` has
returned, those that a caller has been given, what `socket_server_poll` has returned, and
the buffers each thread has passed to `socket_server_send` and its low priority sibling
for a socket that was open. -/
structure SocketServer (θ : Type) where
  slot : Socket θ
  pipe : List (Request θ)
  /-- The events of the slot between `event_index` and `event_n`. -/
  events : List Event
  checkctrl : Bool
  /-- In `ctrl_cmd` between `send_socket` and `dec_sending_ref`: the id of the request and
  what `send_socket` has returned. -/
  sent : Option (ℕ × SocketResult)
  pc : θ → SenderPc θ
  fault : Option ServerFault
  used : List ℕ
  issued : List ℕ
  returned : List (SocketCode × SocketMessage)
  accepted : θ → List (SendBuffer θ)

/-- What happens next: an idle thread calls the server, a caller takes its next step
(with whether its `trylock` or compare-exchange succeeds and what its `write` returns),
a listening slot accepts a connection into this one, or the socket thread goes round its
loop. -/
inductive SocketAction (θ : Type)
  | reserve (t : θ) (r : Request θ)
  | request (t : θ) (r : Request θ)
  | send (t : θ) (id : ℕ) (kind : BufferType) (bytes : List UInt8)
  | sendLowpriority (t : θ) (id : ℕ) (kind : BufferType) (bytes : List UInt8)
  | udpSend (t : θ) (id : ℕ) (kind : BufferType) (bytes : List UInt8) (addr : UdpAddress)
  | udpConnect (t : θ) (id : ℕ) (addr : Option UdpAddress)
  | step (t : θ) (ok : Bool) (w : WriteResult)
  | accept (os : Syscalls) (id owner : ℕ)
  | poll (os : Syscalls)

/-- The ids that `reserve_id` can find for the slot with the number `k`. -/
def SlotId (k id : ℕ) : Prop := id < 2 ^ 31 ∧ hashId id = k

instance (k id : ℕ) : Decidable (SlotId k id) := inferInstanceAs (Decidable (_ ∧ _))

/-! ## The socket thread -/

section Poll

variable {θ : Type}

/-- `ctrl_cmd` up to `dec_sending_ref`.
SRC: socket_server.c:1339-1397 -/
def Socket.ctrlCmd (s : Socket θ) (os : Syscalls) :
    Request θ → Except SocketFault (Socket θ × SocketResult)
  | .resumeSocket id owner => .ok (s.resumeSocket os id owner)
  | .pauseSocket id => .ok (s.pauseSocket os id)
  | .bindSocket id owner => s.bindSocket os id owner
  | .listenSocket id owner => s.listenSocket os id owner
  | .closeSocket id shutdown => s.closeSocket os id shutdown
  | .openSocket id owner => s.openSocket os id owner
  | .triggerWrite id => .ok (s.triggerWrite os id)
  | .sendSocket id b => .ok (s.sendSocket os id b none)
  | .sendUdp id b addr => .ok (s.sendSocket os id b (some addr))
  | .setUdpAddress id addr => .ok (s.setUdpAddress id addr)
  | .addUdpSocket id owner v6 => s.addUdpSocket os id owner v6

/-- `clear_closed_event`.
SRC: socket_server.c:1616-1632 -/
def clearClosedEvent (s : Socket θ) (events : List Event) (code : SocketCode) (id : ℕ) :
    List Event :=
  if (code = .socketClose ∨ code = .socketErr) ∧ s.socketInvalid id ∧ s.id = id then
    events.drop 1
  else events

namespace SocketServer

def halt (s : SocketServer θ) (f : ServerFault) : SocketServer θ := { s with fault := some f }

/-- `socket_server_poll` after `ctrl_cmd`: it returns, or goes round its loop.
SRC: socket_server.c:1641-1646 -/
def ctrlReturn (s : SocketServer θ) : SocketResult → SocketServer θ
  | none => s
  | some (code, m) => { s with
      events := clearClosedEvent s.slot s.events code m.id
      returned := s.returned ++ [(code, m)] }

/-- `dec_sending_ref`.
SRC: socket_server.c:1328-1336 -/
def decSendingRef (s : SocketServer θ) (id : ℕ)
    (k : SocketServer θ → SocketServer θ) : SocketServer θ :=
  if s.slot.id = id ∧ s.slot.protocol = .tcp then
    if s.slot.sending &&& 0xffff = 0 then s.halt .noSendingRef
    else k { s with slot := { s.slot with sending := s.slot.sending - 1 } }
  else k s

/-- The event that is dispatched next, with those behind it.  Where none is left `sp_wait` is
called, and its first event is dispatched before the pipe is looked at; if that is an event of
the pipe or of another slot, those of this slot come later. -/
def dueEvents (s : SocketServer θ) (os : Syscalls) : List Event :=
  if !s.events.isEmpty then s.events else if os.ownFirst then os.events else []

/-- One round of the loop of `socket_server_poll`.
SRC: socket_server.c:1635-1748 -/
def poll (s : SocketServer θ) (os : Syscalls) : SocketServer θ :=
  match s.sent with
  | some (id, result) => s.decSendingRef id fun s => { s with sent := none }.ctrlReturn result
  | none =>
    if s.checkctrl then
      match s.pipe with
      | [] => { s with checkctrl := false }
      | r :: pipe =>
        match s.slot.ctrlCmd os r with
        | .error f => s.halt (.slot f)
        | .ok (slot, result) =>
          let s := { s with slot := slot, pipe := pipe }
          match r with
          | .sendSocket id _ => { s with sent := some (id, result) }
          | _ => s.ctrlReturn result
    else
      match s.dueEvents os with
      | [] => { s with events := os.events, checkctrl := true }
      | e :: events =>
        match s.slot.dispatchEvent os e with
        | .error f => s.halt (.slot f)
        | .ok (slot, result, kept) => { s with
            slot := slot, events := kept.toList ++ events, checkctrl := s.events.isEmpty
            returned := s.returned ++ result.toList }

end SocketServer

end Poll

/-! ## The callers -/

section Callers

variable {θ : Type} [DecidableEq θ]

namespace SocketServer

/-- Thread `t` goes to `pc`. -/
def goto (s : SocketServer θ) (t : θ) (pc : SenderPc θ) : SocketServer θ :=
  { s with pc := Function.update s.pc t pc }

/-- The slot becomes `slot`. -/
def setSlot (s : SocketServer θ) (slot : Socket θ) : SocketServer θ := { s with slot := slot }

/-- Thread `t` has passed `b` to the server. -/
def accept (s : SocketServer θ) (t : θ) (b : SendBuffer θ) : SocketServer θ :=
  { s with accepted := Function.update s.accepted t (s.accepted t ++ [b]) }

/-- The number of bytes a direct `write` takes; an error counts as none.
SRC: socket_server.c:1838-1841 -/
def directCount (w : WriteResult) (b : SendBuffer θ) : ℕ :=
  match w with
  | .wrote n => min n b.bytes.length
  | _ => 0

/-- The direct write of `socket_server_send`, under the lock.
SRC: socket_server.c:1821-1862 -/
def directWrite (s : SocketServer θ) (t : θ) (id : ℕ) (b : SendBuffer θ) (w : WriteResult) :
    SocketServer θ :=
  if s.slot.protocol ≠ .tcp ∧ !s.slot.udpSocketAddress s.slot.udpAddress then s.goto t .idle
  else
    let n := directCount w b
    let slot := if s.slot.protocol = .tcp then
      { s.slot with written := s.slot.written ++ b.bytes.take n } else s.slot
    if n = b.bytes.length then
      (s.setSlot (if s.slot.protocol = .tcp then { slot with done := slot.done ++ [b] }
        else slot)).goto t .idle
    else
      (s.setSlot { slot with dwBuffer := some b, dwOffset := n }).goto t
        (.sendRequest (.triggerWrite id))

/-- The next step of the caller `t`; `ok` tells whether `socket_trylock` or the
compare-exchange succeeds.
SRC: socket_server.c:1306-1326, 1802-1894, 2083-2200 -/
def callerStep (s : SocketServer θ) (t : θ) (ok : Bool) (w : WriteResult) :
    Option (SocketServer θ) :=
  match s.pc t with
  | .idle => none
  | .direct id b =>
    some (if ok ∧ s.slot.canDirectWrite id then s.directWrite t id b w
      else s.goto t (.incProtocol id b))
  | .udpDirect id b addr =>
    some (if ok ∧ s.slot.canDirectWrite id then
      if !s.slot.udpSocketAddress addr then s.goto t .idle
      else match w with
      | .wrote _ => s.goto t .idle
      | _ => s.goto t (.sendRequest (.sendUdp id b addr))
    else s.goto t (.sendRequest (.sendUdp id b addr)))
  -- inc_sending_ref
  | .incProtocol id b =>
    some (if s.slot.protocol ≠ .tcp then s.goto t (.sendRequest (.sendSocket id b))
      else s.goto t (.incLoad id b))
  | .incLoad id b =>
    some (if s.slot.sending >>> 16 = idTag16 id then
      if s.slot.sending &&& 0xffff = 0xffff then s
      else s.goto t (.incCas id b s.slot.sending)
    else s.goto t (.sendRequest (.sendSocket id b)))
  | .incCas id b sending =>
    some (if ok ∧ s.slot.sending = sending then
      (s.setSlot { s.slot with sending := sending + 1 }).goto t
        (.sendRequest (.sendSocket id b))
    else s.goto t (.incLoad id b))
  -- socket_server_udp_connect
  | .udpConnect id addr =>
    some (if s.slot.socketInvalid id then s.goto t .idle
    else
      let s := s.setSlot { s.slot with udpconnecting := s.slot.udpconnecting + 1 }
      match addr with
      | none => s.goto t .idle
      | some addr => s.goto t (.sendRequest (.setUdpAddress id addr)))
  -- an opening call returns its id when it has written its request
  | .sendRequest r =>
    some ({ s with
      pipe := s.pipe ++ [r], issued := if r.opens then r.id :: s.issued else s.issued }.goto t
        .idle)

end SocketServer

/-- One step.
SRC: socket_server.c:1571-1614, 1635-1748, 1804-2211 -/
def socketNext (k : ℕ) (s : SocketServer θ) : SocketAction θ → Option (SocketServer θ)
  | .reserve t r =>
    match s.fault, s.pc t with
    | none, .idle =>
      if s.slot.type = .invalid ∧ r.opens ∧ SlotId k r.id then
        some ({ s.setSlot (s.slot.reserveId r.id) with used := r.id :: s.used }.goto t
          (.sendRequest r))
      else none
    | _, _ => none
  | .request t r =>
    match s.fault, s.pc t with
    | none, .idle => if r.plain ∧ r.id ∈ s.issued then some (s.goto t (.sendRequest r)) else none
    | _, _ => none
  | .send t id kind bytes =>
    match s.fault, s.pc t with
    | none, .idle =>
      if id ∈ s.issued then
        some (if s.slot.socketInvalid id || s.slot.closing then s
          else (s.accept t ⟨t, .high, kind, bytes⟩).goto t (.direct id ⟨t, .high, kind, bytes⟩))
      else none
    | _, _ => none
  | .sendLowpriority t id kind bytes =>
    match s.fault, s.pc t with
    | none, .idle =>
      if id ∈ s.issued then
        some (if s.slot.socketInvalid id then s
          else (s.accept t ⟨t, .low, kind, bytes⟩).goto t
            (.incProtocol id ⟨t, .low, kind, bytes⟩))
      else none
    | _, _ => none
  | .udpSend t id kind bytes addr =>
    match s.fault, s.pc t with
    | none, .idle =>
      if id ∈ s.issued then
        some (if s.slot.socketInvalid id || (addr.protocol ≠ .udp && addr.protocol ≠ .udpv6) then s
          else s.goto t (.udpDirect id ⟨t, .high, kind, bytes⟩ addr))
      else none
    | _, _ => none
  | .udpConnect t id addr =>
    match s.fault, s.pc t with
    | none, .idle =>
      if id ∈ s.issued then
        some (if s.slot.socketInvalid id then s else s.goto t (.udpConnect id addr))
      else none
    | _, _ => none
  | .step t ok w => if s.fault = none then s.callerStep t ok w else none
  | .accept os id owner =>
    if s.fault = none ∧ s.sent = none ∧ s.slot.type = .invalid ∧ SlotId k id then
      some (match s.slot.acceptInto os id owner with
        | .error f => s.halt (.slot f)
        | .ok slot => { s.setSlot slot with
            used := id :: s.used
            issued := if slot.type = .paccept then id :: s.issued else s.issued })
    else none
  | .poll os => if s.fault = none then some (s.poll os) else none

/-- A slot of a server that `socket_server_create` has returned.  What it leaves unset is
zero here, and the protocol unknown; `reserve_id` and `new_fd` set it before it matters.
-/
def Socket.fresh : Socket θ where
  owner := 0
  high := []
  low := []
  wbSize := 0
  sending := 0
  id := 0
  type := .invalid
  protocol := .unknown
  reading := false
  writing := false
  closing := false
  udpconnecting := 0
  warnSize := 0
  size := 0
  udpAddress := .zero
  dwOffset := 0
  dwBuffer := none
  written := []
  done := []

/-- A server with idle callers around the slot.
SRC: socket_server.c:380-424 -/
def SocketServer.create (slot : Socket θ) (issued : List ℕ) : SocketServer θ where
  slot := slot
  pipe := []
  events := []
  checkctrl := true
  sent := none
  pc _ := .idle
  fault := none
  used := issued
  issued := issued
  returned := []
  accepted _ := []

/-- Callers and the socket thread around the slot with the number `k` of a new server. -/
def socketMachine (k : ℕ) : Machine (SocketServer θ) (SocketAction θ) where
  start s := s = .create .fresh []
  next := socketNext k

end Callers

end Skynet.Model
