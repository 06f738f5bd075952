import Skynet.Model.SocketServer

/-!
# What a socket server hands to `sendto`

`skynet-src/socket_server.c`: the calls of `sendto` of a server seen from one slot.  A run
of the server is recorded with the calls that services have made, the default address that
was in effect whenever a buffer sent without an address was queued or written, and every
datagram handed to `sendto`, whether the kernel takes it or not.
-/

namespace Skynet.Model

open Library

variable {θ : Type}

/-- A call of `socket_server_send`, `socket_server_send_lowpriority` or
`socket_server_udp_send`, which has an address. -/
structure SendCall (θ : Type) where
  id : ℕ
  buffer : SendBuffer θ
  address : Option UdpAddress

/-- A buffer sent without an address, and the default address when it was queued. -/
structure DefaultSend (θ : Type) where
  id : ℕ
  buffer : SendBuffer θ
  address : UdpAddress

/-- What a socket hands to `sendto`. -/
structure Datagram where
  id : ℕ
  bytes : List UInt8
  address : UdpAddress

namespace Socket

/-- The calls of `sendto` in the loop of `send_list_udp`.
SRC: socket_server.c:778-808 -/
def drainUdpSent (s : Socket θ) (behind : UdpAddress) :
    List (WriteBuffer θ) → List WriteResult → List Datagram
  | [], _ => []
  | wb :: rest, results =>
    let addr := wb.udpAddress.getD behind
    if !s.udpSocketAddress addr then []
    else
      let datagram : Datagram := ⟨s.id, wb.buffer.bytes.drop wb.offset, addr⟩
      match results with
      | .wrote _ :: results => datagram :: s.drainUdpSent behind rest results
      | _ => [datagram]

/-- The calls of `sendto` in `send_buffer`.
SRC: socket_server.c:858-945 -/
def sendBufferSent (s : Socket θ) (os : Syscalls) : List Datagram :=
  if os.trylock ∨ s.protocol = .tcp then []
  else
    let s := s.takeDirect
    if listUncomplete s.low then []
    else
      let s' := (s.sendListUdp os .high os.writeHigh).1
      s.drainUdpSent os.behind s.high os.writeHigh ++
        if s'.high.isEmpty then s'.drainUdpSent os.behind s'.low os.writeLow else []

/-- The call of `sendto` in `send_socket`.
SRC: socket_server.c:1006-1050 -/
def sendSocketSent (s : Socket θ) (id : ℕ) (b : SendBuffer θ) (udpAddress : Option UdpAddress) :
    List Datagram :=
  let addr := udpAddress.getD s.udpAddress
  if s.type = .invalid ∨ s.id ≠ id ∨ s.type = .halfcloseWrite ∨ s.type = .paccept ∨ s.closing then
    []
  else if s.type = .plisten ∨ s.type = .listen then []
  else if s.sendBufferEmpty && s.protocol ≠ .tcp && s.udpSocketAddress addr then
    [⟨id, b.bytes, addr⟩]
  else []

end Socket

namespace SocketServer

/-- The calls of `sendto` in one round of `socket_server_poll`. -/
def pollSent (s : SocketServer θ) (os : Syscalls) : List Datagram :=
  match s.sent, s.checkctrl, s.pipe, s.dueEvents os with
  | none, true, .sendSocket id b :: _, _ => s.slot.sendSocketSent id b none
  | none, true, .sendUdp id b addr :: _, _ => s.slot.sendSocketSent id b (some addr)
  | none, false, _, e :: _ =>
    match s.slot.type with
    | .connecting | .listen | .invalid => []
    | _ => if !e.read && e.write then s.slot.sendBufferSent os else []
  | _, _, _, _ => []

/-- The calls of `sendto` of the callers.
SRC: socket_server.c:1821-1837, 2113-2134 -/
def callerSent (s : SocketServer θ) (t : θ) (ok : Bool) : List Datagram :=
  match s.pc t with
  | .direct id b =>
    if ok && s.slot.canDirectWrite id && s.slot.protocol ≠ .tcp &&
        s.slot.udpSocketAddress s.slot.udpAddress then
      [⟨id, b.bytes, s.slot.udpAddress⟩]
    else []
  | .udpDirect id b addr =>
    if ok && s.slot.canDirectWrite id && s.slot.udpSocketAddress addr then
      [⟨id, b.bytes, addr⟩]
    else []
  | _ => []

/-- The datagrams that a step hands to `sendto`. -/
def datagrams (s : SocketServer θ) : SocketAction θ → List Datagram
  | .step t ok _ => s.callerSent t ok
  | .poll os => s.pollSent os
  | _ => []

/-- The default address that a step gives to a buffer sent without one. -/
def defaults (s : SocketServer θ) : SocketAction θ → List (DefaultSend θ)
  | .step t ok _ =>
    match s.pc t with
    | .direct id b =>
      if ok && s.slot.canDirectWrite id then [⟨id, b, s.slot.udpAddress⟩] else []
    | _ => []
  | .poll _ =>
    match s.sent, s.checkctrl, s.pipe with
    | none, true, .sendSocket id b :: _ =>
      if s.slot.id = id then [⟨id, b, s.slot.udpAddress⟩] else []
    | _, _, _ => []
  | _ => []

end SocketServer

/-- The call that an action makes. -/
def SocketAction.call : SocketAction θ → List (SendCall θ)
  | .send t id kind bytes => [⟨id, ⟨t, .high, kind, bytes⟩, none⟩]
  | .sendLowpriority t id kind bytes => [⟨id, ⟨t, .low, kind, bytes⟩, none⟩]
  | .udpSend t id kind bytes addr => [⟨id, ⟨t, .high, kind, bytes⟩, some addr⟩]
  | _ => []

structure DatagramServer (θ : Type) where
  server : SocketServer θ
  calls : List (SendCall θ)
  defaults : List (DefaultSend θ)
  handed : List Datagram

/-- The socket server with the records of its calls of `sendto`. -/
def datagramMachine [DecidableEq θ] (k : ℕ) : Machine (DatagramServer θ) (SocketAction θ) where
  start u := u = ⟨.create .fresh [], [], [], []⟩
  next u a := (socketNext k u.server a).map fun s =>
    { server := s
      calls := u.calls ++ a.call
      defaults := u.defaults ++ u.server.defaults a
      handed := u.handed ++ u.server.datagrams a }

end Skynet.Model
