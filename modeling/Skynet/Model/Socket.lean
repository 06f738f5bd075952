import Mathlib.Data.Int.Notation
import Mathlib.Data.Nat.Notation
import Mathlib.Logic.Function.Basic

/-!
# One slot of the socket server

`skynet-src/socket_server.c`: the state of one `struct socket` and the functions the
socket thread runs on it.  What the kernel answers is an input: how many bytes each
`write` takes, what `read`, `connect` and `accept` return, whether `sp_add` and
`sp_enable` fail.  An assertion that fails is a `SocketFault`.

A buffer is its bytes and the call that passed it.  An open slot has one file
descriptor; the slot keeps, for the statements about it, the bytes that `write` has
taken on it and the buffers that have been written whole.  The `opaque` field of the
source, the handle of the service that owns the socket, is `owner` here.  The statistics
of `struct socket_stat` are left out, as nothing reads them.
-/

namespace Skynet.Model

/-! ## Data -/

/-- `SOCKET_TYPE_INVALID` to `SOCKET_TYPE_BIND`.
SRC: socket_server.c:24-33 -/
inductive SocketType
  | invalid
  | reserve
  | plisten
  | listen
  | connecting
  | connected
  | halfcloseRead
  | halfcloseWrite
  | paccept
  | bind
  deriving DecidableEq

/-- `PROTOCOL_TCP`, `PROTOCOL_UDP`, `PROTOCOL_UDPv6` and `PROTOCOL_UNKNOWN`.
SRC: socket_server.c:43-46 -/
inductive Protocol
  | tcp
  | udp
  | udpv6
  | unknown
  deriving DecidableEq

/-- `PRIORITY_HIGH` and `PRIORITY_LOW`.
SRC: socket_server.c:37-38 -/
inductive Priority
  | high
  | low
  deriving DecidableEq

/-- `SOCKET_BUFFER_MEMORY`, `SOCKET_BUFFER_OBJECT` and `SOCKET_BUFFER_RAWPOINTER`. -/
inductive BufferType
  | memory
  | object
  | rawpointer
  deriving DecidableEq

/-- What `socket_server_poll` and its parts return, `SOCKET_DATA` to `SOCKET_MORE`; the
last two are internal.
SRC: socket_server.h:7-18 -/
inductive SocketCode
  | socketData
  | socketClose
  | socketOpen
  | socketAccept
  | socketErr
  | socketUdp
  | socketWarning
  | socketRst
  | socketMore
  deriving DecidableEq

/-- A udp address: the protocol of its first byte, which is never `PROTOCOL_UNKNOWN`,
and the port and host in the bytes after it. -/
structure UdpAddress where
  protocol : Protocol
  host : List UInt8
  known : protocol ≠ .unknown

theorem Protocol.udp_known : Protocol.udp ≠ .unknown := by decide

/-- The address of 19 zero bytes: a zero byte is `PROTOCOL_TCP`. -/
def UdpAddress.zero : UdpAddress := ⟨.tcp, [], by decide⟩

/-- A buffer passed to `socket_server_send` or `socket_server_send_lowpriority`, with the
thread and the priority of the call.  Of a user object these are the bytes that `soi`
finds in it. -/
structure SendBuffer (θ : Type) where
  thread : θ
  priority : Priority
  kind : BufferType
  bytes : List UInt8
  deriving DecidableEq

/-- `struct write_buffer`, or with an address `struct write_buffer_udp`: `offset` is how
far `ptr` has moved. -/
structure WriteBuffer (θ : Type) where
  buffer : SendBuffer θ
  offset : ℕ
  udpAddress : Option UdpAddress

/-- The field `sz`: the bytes not written yet. -/
def WriteBuffer.sz {θ : Type} (wb : WriteBuffer θ) : ℕ := wb.buffer.bytes.length - wb.offset

/-- The field `data` of a message: a text of the code or the kernel, or what was
received. -/
inductive MessageData
  | null
  | text (s : String)
  | bytes (data : List UInt8)
  | datagram (data : List UInt8) (address : UdpAddress)

/-- `struct socket_message`. -/
structure SocketMessage where
  id : ℕ
  owner : ℕ
  ud : ℤ
  data : MessageData

/-- What a function that may return `-1` returns, with the message it has filled. -/
abbrev SocketResult := Option (SocketCode × SocketMessage)

/-- The assertions of the functions of the socket thread that work on one slot. -/
inductive SocketFault
  /-- `assert(type == SOCKET_TYPE_RESERVE)` of `new_fd`. -/
  | notReserved
  /-- `check_wb_list` of `new_fd`. -/
  | listNotEmpty
  /-- `assert(type != SOCKET_TYPE_RESERVE)` of `force_close`. -/
  | closedReserved
  /-- `assert(!list_uncomplete(&s->low))` of `send_buffer_`. -/
  | lowUncomplete
  /-- `assert(high->head == NULL)` of `raise_uncomplete`. -/
  | highNotEmpty
  /-- `assert(send_buffer_empty(s) && s->wb_size == 0)` of `send_buffer_`. -/
  | notDrained
  deriving DecidableEq

/-- `struct socket`.  The last two fields record what has been written since `new_fd`.
SRC: socket_server.c:92-117 -/
structure Socket (θ : Type) where
  owner : ℕ
  high : List (WriteBuffer θ)
  low : List (WriteBuffer θ)
  wbSize : ℤ
  sending : ℕ
  id : ℕ
  type : SocketType
  protocol : Protocol
  reading : Bool
  writing : Bool
  closing : Bool
  udpconnecting : ℤ
  warnSize : ℤ
  /-- `p.size`, of a tcp socket. -/
  size : ℕ
  /-- `p.udp_address`, of a udp socket. -/
  udpAddress : UdpAddress
  dwOffset : ℕ
  dwBuffer : Option (SendBuffer θ)
  written : List UInt8
  done : List (SendBuffer θ)

def minReadBuffer : ℕ := 64

def warningSize : ℤ := 1024 * 1024

def maxSocket : ℕ := 1 <<< 16

def hashId (id : ℕ) : ℕ := id % maxSocket

def idTag16 (id : ℕ) : ℕ := (id >>> 16) &&& 0xffff

/-- What `write` or `sendto` returns: a number of bytes, `EINTR`, `EAGAIN`, or another
error. -/
inductive WriteResult
  | wrote (n : ℕ)
  | intr
  | again
  | failed
  deriving DecidableEq

/-- What `read` returns: bytes (none at the end of the stream), `EINTR` or `EAGAIN`, or
another error. -/
inductive ReadResult
  | received (bytes : List UInt8)
  | again
  | failed

/-- What `recvfrom` returns: a datagram and whether its sender has an ipv6 address,
`EINTR` or `EAGAIN`, or another error. -/
inductive RecvResult
  | datagram (bytes : List UInt8) (v6 : Bool) (host : List UInt8)
  | again
  | failed

/-- How far `open_socket` gets with `getaddrinfo`, `socket` and `connect`. -/
inductive ConnectResult
  | unresolved (err : String)
  | noSocket (err : String)
  | connected (addr : Option String)
  | inProgress

/-- What `accept` and `reserve_id` give `report_accept` of a listening slot. -/
inductive AcceptResult
  | accepted (id : ℕ) (addr : Option String)
  | fileLimit (err : String)
  | failed

/-- The flags of `struct event`. -/
structure Event where
  read : Bool
  write : Bool
  error : Bool
  eof : Bool
  deriving DecidableEq

/-- What the kernel answers during one round of `socket_server_poll`; the Boolean fields
are true when the call fails. -/
structure Syscalls where
  /-- The events of this slot that `sp_wait` returns. -/
  events : List Event := []
  /-- The first event that `sp_wait` returns is one of this slot. -/
  ownFirst : Bool := false
  spAdd : Bool := false
  spEnableRead : Bool := false
  spEnableWrite : Bool := false
  trylock : Bool := false
  /-- The results of `write` or `sendto` on the high list, then on the low list. -/
  writeHigh : List WriteResult := []
  writeLow : List WriteResult := []
  /-- `sendto` of `send_socket`. -/
  sendto : WriteResult := .again
  /-- The bytes behind a `struct write_buffer`, where `send_list_udp` reads an address. -/
  behind : UdpAddress := .zero
  read : ReadResult := .again
  recvfrom : RecvResult := .again
  connect : ConnectResult := .inProgress
  accept : AcceptResult := .failed
  /-- `SO_ERROR` of `getsockopt`. -/
  soError : Option String := none
  /-- The name of the peer, where `getpeername` gives one. -/
  peer : Option String := none
  strerror : String := ""

/-- The text that `inet_ntop` leaves in the buffer of the server, or `NULL`. -/
def MessageData.ofText : Option String → MessageData
  | none => .null
  | some s => .text s

namespace Socket

variable {θ : Type}

/-! ## Small functions -/

/-- `socket_invalid`.
SRC: socket_server.c:282-284 -/
def socketInvalid (s : Socket θ) (id : ℕ) : Bool := s.id ≠ id || s.type = .invalid

/-- A message about the socket, with `ud` 0 and no data, as `force_close` and
`close_read` fill it. -/
def message (s : Socket θ) : SocketMessage := ⟨s.id, s.owner, 0, .null⟩

/-- `report_error`.
SRC: socket_server.c:680-687 -/
def reportError (s : Socket θ) (err : String) : SocketCode × SocketMessage :=
  (.socketErr, ⟨s.id, s.owner, 0, .text err⟩)

/-- `reserve_id`, for an id of this slot.
SRC: socket_server.c:345-371 -/
def reserveId (s : Socket θ) (id : ℕ) : Socket θ :=
  { s with type := .reserve, id := id, protocol := .unknown, udpconnecting := 0 }

/-- `enable_write`, and whether it failed.
SRC: socket_server.c:538-544 -/
def enableWrite (s : Socket θ) (os : Syscalls) (enable : Bool) : Socket θ × Bool :=
  if s.writing ≠ enable then ({ s with writing := enable }, os.spEnableWrite) else (s, false)

/-- `enable_read`, and whether it failed.
SRC: socket_server.c:547-553 -/
def enableRead (s : Socket θ) (os : Syscalls) (enable : Bool) : Socket θ × Bool :=
  if s.reading ≠ enable then ({ s with reading := enable }, os.spEnableRead) else (s, false)

/-- `send_buffer_empty`.
SRC: socket_server.c:846-848 -/
def sendBufferEmpty (s : Socket θ) : Bool := s.high.isEmpty && s.low.isEmpty

/-- `nomore_sending_data`.
SRC: socket_server.c:1099-1103 -/
def nomoreSendingData (s : Socket θ) : Bool :=
  (s.sendBufferEmpty && s.dwBuffer.isNone && s.sending &&& 0xffff = 0) || s.type = .halfcloseWrite

/-- `halfclose_read`.
SRC: socket_server.c:1117-1120 -/
def isHalfcloseRead (s : Socket θ) : Bool := s.type = .halfcloseRead

/-- `can_direct_write`.
SRC: socket_server.c:1797-1800 -/
def canDirectWrite (s : Socket θ) (id : ℕ) : Bool :=
  s.id = id && s.nomoreSendingData && s.type = .connected && s.udpconnecting = 0

/-- Whether `udp_socket_address` finds an address of the protocol of the socket.
SRC: socket_server.c:744-766 -/
def udpSocketAddress (s : Socket θ) (addr : UdpAddress) : Bool :=
  addr.protocol = s.protocol && (s.protocol = .udp || s.protocol = .udpv6)

/-- `force_close`; the caller has the message from the socket before the call.
SRC: socket_server.c:480-510 -/
def forceClose (s : Socket θ) : Except SocketFault (Socket θ) :=
  match s.type with
  | .invalid => .ok s
  | .reserve => .error .closedReserved
  | _ => .ok { s with type := .invalid, high := [], low := [], dwBuffer := none }

/-- `close_read`.
SRC: socket_server.c:1105-1115 -/
def closeRead (s : Socket θ) (os : Syscalls) : Socket θ :=
  ({ s with type := .halfcloseRead }.enableRead os false).1

/-! ## Opening -/

/-- `new_fd`, and whether it returned a socket.
SRC: socket_server.c:556-586 -/
def newFd (s : Socket θ) (os : Syscalls) (id : ℕ) (protocol : Protocol) (owner : ℕ)
    (reading : Bool) : Except SocketFault (Socket θ × Bool) :=
  if s.type ≠ .reserve then .error .notReserved
  else if os.spAdd then .ok ({ s with type := .invalid }, false)
  else if !s.sendBufferEmpty then .error .listNotEmpty
  else
    let opened := { s with
      id := id, reading := true, writing := false, closing := false
      sending := idTag16 id <<< 16, protocol := protocol, size := minReadBuffer
      owner := owner, wbSize := 0, warnSize := 0, dwBuffer := none, written := [], done := [] }
    match opened.enableRead os reading with
    | (s, true) => .ok ({ s with type := .invalid }, false)
    | (s, false) => .ok (s, true)

/-- `open_socket`.
SRC: socket_server.c:601-678 -/
def openSocket (s : Socket θ) (os : Syscalls) (id owner : ℕ) :
    Except SocketFault (Socket θ × SocketResult) :=
  let failed (s : Socket θ) (err : String) : Socket θ × SocketResult :=
    ({ s with type := .invalid }, some (.socketErr, ⟨id, owner, 0, .text err⟩))
  match os.connect with
  | .unresolved err | .noSocket err => .ok (failed s err)
  | .connected addr =>
    match s.newFd os id .tcp owner true with
    | .error f => .error f
    | .ok (s, false) => .ok (failed s "reach skynet socket number limit")
    | .ok (s, true) => .ok ({ s with type := .connected },
        some (.socketOpen, ⟨id, owner, 0, .ofText addr⟩))
  | .inProgress =>
    match s.newFd os id .tcp owner true with
    | .error f => .error f
    | .ok (s, false) => .ok (failed s "reach skynet socket number limit")
    | .ok (s, true) =>
      match { s with type := .connecting }.enableWrite os true with
      | (s, true) => .ok (failed s "enable write failed")
      | (s, false) => .ok (s, none)

/-- `listen_socket`.
SRC: socket_server.c:1078-1097 -/
def listenSocket (s : Socket θ) (os : Syscalls) (id owner : ℕ) :
    Except SocketFault (Socket θ × SocketResult) :=
  match s.newFd os id .tcp owner false with
  | .error f => .error f
  | .ok (s, false) => .ok ({ s with type := .invalid },
      some (.socketErr, ⟨id, owner, 0, .text "reach skynet socket number limit"⟩))
  | .ok (s, true) => .ok ({ s with type := .plisten }, none)

/-- `bind_socket`.
SRC: socket_server.c:1157-1171 -/
def bindSocket (s : Socket θ) (os : Syscalls) (id owner : ℕ) :
    Except SocketFault (Socket θ × SocketResult) :=
  match s.newFd os id .tcp owner true with
  | .error f => .error f
  | .ok (s, false) =>
    .ok (s, some (.socketErr, ⟨id, owner, 0, .text "reach skynet socket number limit"⟩))
  | .ok (s, true) => .ok ({ s with type := .bind },
      some (.socketOpen, ⟨id, owner, 0, .text "binding"⟩))

/-- `add_udp_socket`.
SRC: socket_server.c:1265-1283 -/
def addUdpSocket (s : Socket θ) (os : Syscalls) (id owner : ℕ) (v6 : Bool) :
    Except SocketFault (Socket θ × SocketResult) :=
  match s.newFd os id (if v6 then .udpv6 else .udp) owner true with
  | .error f => .error f
  | .ok (s, false) => .ok ({ s with type := .invalid }, none)
  | .ok (s, true) => .ok ({ s with type := .connected, udpAddress := .zero }, none)

/-- `report_accept` of a listening slot, from where it has been given an id of this slot.
SRC: socket_server.c:1593-1606 -/
def acceptInto (s : Socket θ) (os : Syscalls) (id owner : ℕ) :
    Except SocketFault (Socket θ) :=
  match (s.reserveId id).newFd os id .tcp owner false with
  | .error f => .error f
  | .ok (s, false) => .ok s
  | .ok (s, true) => .ok { s with type := .paccept }

/-! ## Writing -/

def list (s : Socket θ) : Priority → List (WriteBuffer θ)
  | .high => s.high
  | .low => s.low

/-- The list of a priority becomes `l`. -/
def setList (s : Socket θ) (priority : Priority) (l : List (WriteBuffer θ)) : Socket θ :=
  match priority with
  | .high => { s with high := l }
  | .low => { s with low := l }

/-- `close_write`.
SRC: socket_server.c:689-710 -/
def closeWrite (s : Socket θ) (os : Syscalls) :
    Except SocketFault (Socket θ × SocketResult) :=
  if s.closing ∨ s.type = .halfcloseRead then
    s.forceClose.map fun s' => (s', some (.socketRst, s.message))
  else if s.type = .halfcloseWrite then .ok (s, some (.socketRst, s.message))
  else
    let s' := ({ s with type := .halfcloseWrite }.enableWrite os false).1
    .ok (s', some (s'.reportError os.strerror))

/-- What the loop of `send_list_tcp` leaves: the rest of the list, the bytes and the
whole buffers it has written, and whether a `write` failed. -/
structure Drained (θ : Type) where
  list : List (WriteBuffer θ)
  bytes : List UInt8
  done : List (SendBuffer θ)
  failed : Bool

/-- The loop of `send_list_tcp`; where no more results are given, `write` returns
`EAGAIN`.
SRC: socket_server.c:713-737 -/
def drain : List (WriteBuffer θ) → List WriteResult → Drained θ
  | [], _ => ⟨[], [], [], false⟩
  | wb :: rest, [] | wb :: rest, .again :: _ => ⟨wb :: rest, [], [], false⟩
  | wb :: rest, .intr :: results => drain (wb :: rest) results
  | wb :: rest, .failed :: _ => ⟨wb :: rest, [], [], true⟩
  | wb :: rest, .wrote n :: results =>
    let sz := min n wb.sz
    let bytes := (wb.buffer.bytes.drop wb.offset).take sz
    if sz ≠ wb.sz then ⟨{ wb with offset := wb.offset + sz } :: rest, bytes, [], false⟩
    else
      let d := drain rest results
      { d with bytes := bytes ++ d.bytes, done := wb.buffer :: d.done }

/-- The socket after the loop of `send_list_tcp` on one of its lists. -/
def afterDrain (s : Socket θ) (priority : Priority) (d : Drained θ) : Socket θ :=
  { s.setList priority d.list with
    wbSize := s.wbSize - d.bytes.length, written := s.written ++ d.bytes
    done := s.done ++ d.done }

/-- `send_list_tcp`.
SRC: socket_server.c:712-742 -/
def sendListTcp (s : Socket θ) (os : Syscalls) (priority : Priority)
    (results : List WriteResult) : Except SocketFault (Socket θ × SocketResult) :=
  let d := drain (s.list priority) results
  if d.failed then (s.afterDrain priority d).closeWrite os
  else .ok (s.afterDrain priority d, none)

/-- The loop of `send_list_udp`: the rest of the list, and the size of what was sent or
dropped.
SRC: socket_server.c:778-808 -/
def drainUdp (s : Socket θ) (behind : UdpAddress) :
    List (WriteBuffer θ) → List WriteResult → List (WriteBuffer θ) × ℕ
  | [], _ => ([], 0)
  | wb :: rest, results =>
    if !s.udpSocketAddress (wb.udpAddress.getD behind) then (rest, wb.sz)
    else match results with
    | [] | .intr :: _ | .again :: _ => (wb :: rest, 0)
    | .failed :: _ => (rest, wb.sz)
    | .wrote _ :: results =>
      let (l, n) := drainUdp s behind rest results
      (l, wb.sz + n)

/-- `send_list_udp`.
SRC: socket_server.c:776-808 -/
def sendListUdp (s : Socket θ) (os : Syscalls) (priority : Priority)
    (results : List WriteResult) : Socket θ × SocketResult :=
  let (l, n) := s.drainUdp os.behind (s.list priority) results
  ({ s.setList priority l with wbSize := s.wbSize - n }, none)

/-- `send_list`.
SRC: socket_server.c:810-817 -/
def sendList (s : Socket θ) (os : Syscalls) (priority : Priority)
    (results : List WriteResult) : Except SocketFault (Socket θ × SocketResult) :=
  if s.protocol = .tcp then s.sendListTcp os priority results
  else .ok (s.sendListUdp os priority results)

/-- `list_uncomplete`; the bytes of a user object are not at its address.
SRC: socket_server.c:819-826 -/
def listUncomplete : List (WriteBuffer θ) → Bool
  | [] => false
  | wb :: _ => wb.offset ≠ 0 || wb.buffer.kind = .object

/-- `raise_uncomplete`.
SRC: socket_server.c:828-845 -/
def raiseUncomplete (s : Socket θ) : Except SocketFault (Socket θ) :=
  if !s.high.isEmpty then .error .highNotEmpty
  else .ok { s with high := s.low.take 1, low := s.low.drop 1 }

/-- Step 4 of `send_buffer_`.
SRC: socket_server.c:889-913 -/
def bufferSent (s : Socket θ) (os : Syscalls) : Except SocketFault (Socket θ × SocketResult) :=
  if !s.sendBufferEmpty ∨ s.wbSize ≠ 0 then .error .notDrained
  else if s.closing then s.forceClose.map fun s' => (s', none)
  else match s.enableWrite os false with
  | (s, true) => .ok (s, some (s.reportError "disable write failed"))
  | (s, false) =>
    if 0 < s.warnSize then .ok ({ s with warnSize := 0 }, some (.socketWarning, s.message))
    else .ok (s, none)

/-- Steps 2 to 4 of `send_buffer_`, with an empty high list.
SRC: socket_server.c:870-913 -/
def sendLow (s : Socket θ) (os : Syscalls) : Except SocketFault (Socket θ × SocketResult) :=
  if s.low.isEmpty then s.bufferSent os
  else match s.sendList os .low os.writeLow with
  | .error f => .error f
  | .ok (s, some (.socketErr, m)) => .ok (s, some (.socketErr, m))
  | .ok (s, some _) => .ok (s, none)
  | .ok (s, none) =>
    if listUncomplete s.low then s.raiseUncomplete.map fun s' => (s', none)
    else if !s.low.isEmpty then .ok (s, none)
    else s.bufferSent os

/-- `send_buffer_`.
SRC: socket_server.c:858-917 -/
def sendBuffer_ (s : Socket θ) (os : Syscalls) :
    Except SocketFault (Socket θ × SocketResult) :=
  if listUncomplete s.low then .error .lowUncomplete
  else match s.sendList os .high os.writeHigh with
  | .error f => .error f
  | .ok (s, some (.socketErr, m)) => .ok (s, some (.socketErr, m))
  | .ok (s, some _) => .ok (s, none)
  | .ok (s, none) => if s.high.isEmpty then s.sendLow os else .ok (s, none)

/-- The direct write buffer goes in front of the high list.
SRC: socket_server.c:923-940 -/
def takeDirect (s : Socket θ) : Socket θ :=
  match s.dwBuffer with
  | none => s
  | some b =>
    let wb : WriteBuffer θ := ⟨b, s.dwOffset, none⟩
    { s with high := wb :: s.high, wbSize := s.wbSize + wb.sz, dwBuffer := none }

/-- `send_buffer`.
SRC: socket_server.c:919-945 -/
def sendBuffer (s : Socket θ) (os : Syscalls) : Except SocketFault (Socket θ × SocketResult) :=
  if os.trylock then .ok (s, none) else s.takeDirect.sendBuffer_ os

/-- `append_sendbuffer`, `append_sendbuffer_low` and `append_sendbuffer_udp`.
SRC: socket_server.c:947-986 -/
def appendSendbuffer (s : Socket θ) (priority : Priority) (b : SendBuffer θ)
    (addr : Option UdpAddress) : Socket θ :=
  { s.setList priority (s.list priority ++ [⟨b, 0, addr⟩]) with
    wbSize := s.wbSize + b.bytes.length }

/-- `trigger_write`.
SRC: socket_server.c:988-998 -/
def triggerWrite (s : Socket θ) (os : Syscalls) (id : ℕ) : Socket θ × SocketResult :=
  if s.socketInvalid id then (s, none)
  else match s.enableWrite os true with
  | (s, true) => (s, some (s.reportError "enable write failed"))
  | (s, false) => (s, none)

/-- The warning at the end of `send_socket`.
SRC: socket_server.c:1067-1075 -/
def warnSending (s : Socket θ) : Socket θ × SocketResult :=
  if warningSize ≤ s.wbSize ∧ s.warnSize ≤ s.wbSize then
    ({ s with warnSize := if s.warnSize = 0 then warningSize * 2 else s.warnSize * 2 },
      some (.socketWarning, { s.message with
        ud := if s.wbSize % 1024 = 0 then s.wbSize / 1024 else s.wbSize / 1024 + 1 }))
  else (s, none)

/-- `send_socket` from where the buffer has been put on an empty list.
SRC: socket_server.c:1050-1052, 1067-1076 -/
def startWriting (s : Socket θ) (os : Syscalls) : Socket θ × SocketResult :=
  match s.enableWrite os true with
  | (s, true) => (s, some (s.reportError "enable write failed"))
  | (s, false) => s.warnSending

/-- `send_socket`.
SRC: socket_server.c:1006-1076 -/
def sendSocket (s : Socket θ) (os : Syscalls) (id : ℕ) (b : SendBuffer θ)
    (udpAddress : Option UdpAddress) : Socket θ × SocketResult :=
  let addr := udpAddress.getD s.udpAddress
  if s.type = .invalid ∨ s.id ≠ id ∨ s.type = .halfcloseWrite ∨ s.type = .paccept ∨ s.closing then
    (s, none)
  else if s.type = .plisten ∨ s.type = .listen then (s, none)
  else if s.sendBufferEmpty then
    if s.protocol = .tcp then (s.appendSendbuffer .high b none).startWriting os
    else if !s.udpSocketAddress addr then (s, none)
    else if os.sendto = .wrote b.bytes.length then (s, none)
    else (s.appendSendbuffer b.priority b (some addr)).startWriting os
  else if s.protocol = .tcp then (s.appendSendbuffer b.priority b none).warnSending
  else (s.appendSendbuffer b.priority b (some addr)).warnSending

/-! ## Closing, pausing and resuming -/

/-- `close_socket`.
SRC: socket_server.c:1128-1154 -/
def closeSocket (s : Socket θ) (os : Syscalls) (id : ℕ) (shutdown : Bool) :
    Except SocketFault (Socket θ × SocketResult) :=
  if s.socketInvalid id then .ok (s, none)
  else if shutdown || s.nomoreSendingData then
    s.forceClose.map fun s' =>
      (s', if s.isHalfcloseRead then none else some (.socketClose, s.message))
  else if s.isHalfcloseRead then .ok ({ s with closing := true }, none)
  else .ok ({ s with closing := true }.closeRead os, some (.socketClose, s.message))

/-- `resume_socket`.
SRC: socket_server.c:1174-1210 -/
def resumeSocket (s : Socket θ) (os : Syscalls) (id owner : ℕ) : Socket θ × SocketResult :=
  let result (code : SocketCode) (data : String) : SocketResult :=
    some (code, ⟨id, owner, 0, .text data⟩)
  if s.socketInvalid id then (s, result .socketErr "invalid socket")
  else if s.isHalfcloseRead then (s, result .socketErr "socket closed")
  else match s.enableRead os true with
  | (s, true) => (s, result .socketErr "enable read failed")
  | (s, false) =>
    match s.type with
    | .paccept => ({ s with type := .connected, owner := owner }, result .socketOpen "start")
    | .plisten => ({ s with type := .listen, owner := owner }, result .socketOpen "start")
    | .connected => ({ s with owner := owner }, result .socketOpen "transfer")
    | _ => (s, none)

/-- `pause_socket`.
SRC: socket_server.c:1213-1223 -/
def pauseSocket (s : Socket θ) (os : Syscalls) (id : ℕ) : Socket θ × SocketResult :=
  if s.socketInvalid id then (s, none)
  else match s.enableRead os false with
  | (s, true) => (s, some (s.reportError "enable read failed"))
  | (s, false) => (s, none)

/-- `set_udp_address`.
SRC: socket_server.c:1285-1304 -/
def setUdpAddress (s : Socket θ) (id : ℕ) (addr : UdpAddress) : Socket θ × SocketResult :=
  if s.socketInvalid id then (s, none)
  else if addr.protocol ≠ s.protocol then (s, some (s.reportError "protocol mismatch"))
  else ({ s with udpAddress := addr, udpconnecting := s.udpconnecting - 1 }, none)

/-! ## Events -/

/-- `forward_message_tcp`.
SRC: socket_server.c:1400-1460 -/
def forwardMessageTcp (s : Socket θ) (os : Syscalls) :
    Except SocketFault (Socket θ × SocketResult) :=
  match os.read with
  | .failed => .ok (s, some (s.reportError os.strerror))
  | .again => .ok (s, none)
  | .received bytes =>
    let data := bytes.take s.size
    let n := data.length
    let m : SocketMessage := { s.message with ud := n, data := .bytes data }
    if n = 0 then
      if s.closing then
        if s.nomoreSendingData then s.forceClose.map fun s' => (s', none) else .ok (s, none)
      else if s.type = .halfcloseRead then .ok (s, none)
      else if s.type = .halfcloseWrite then
        s.forceClose.map fun s' => (s', some (.socketClose, s.message))
      else .ok (s.closeRead os, some (.socketClose, s.message))
    else if s.isHalfcloseRead then .ok (s, none)
    else if n = s.size then .ok ({ s with size := s.size * 2 }, some (.socketMore, m))
    else if minReadBuffer < s.size ∧ n * 2 < s.size then
      .ok ({ s with size := s.size / 2 }, some (.socketData, m))
    else .ok (s, some (.socketData, m))

/-- `forward_message_udp`, with `gen_udp_address`.
SRC: socket_server.c:1463-1519 -/
def forwardMessageUdp (s : Socket θ) (os : Syscalls) :
    Except SocketFault (Socket θ × SocketResult) :=
  match os.recvfrom with
  | .again => .ok (s, none)
  | .failed => s.forceClose.map fun s' =>
      (s', some (.socketErr, { s.message with data := .text os.strerror }))
  | .datagram bytes false host =>
    if s.protocol ≠ .udp then .ok (s, none)
    else .ok (s, some (.socketUdp, { s.message with
      ud := bytes.length, data := .datagram bytes ⟨.udp, host, by decide⟩ }))
  | .datagram bytes true host =>
    if s.protocol ≠ .udpv6 then .ok (s, none)
    else .ok (s, some (.socketUdp, { s.message with
      ud := bytes.length, data := .datagram bytes ⟨.udpv6, host, by decide⟩ }))

/-- `report_connect`.
SRC: socket_server.c:1522-1555 -/
def reportConnect (s : Socket θ) (os : Syscalls) :
    Except SocketFault (Socket θ × SocketResult) :=
  match os.soError with
  | some err => s.forceClose.map fun s' =>
      (s', some (.socketErr, { s.message with data := .text err }))
  | none =>
    let s := { s with type := .connected }
    let connected : SocketResult := some (.socketOpen, { s.message with data := .ofText os.peer })
    if s.nomoreSendingData then
      match s.enableWrite os false with
      | (s, true) => s.forceClose.map fun s' =>
          (s', some (.socketErr, { s.message with data := .text "disable write failed" }))
      | (s, false) => .ok (s, connected)
    else .ok (s, connected)

/-- `report_accept` of this slot, with what `socket_server_poll` makes of it.
SRC: socket_server.c:1571-1614, 1680-1689 -/
def reportAccept (s : Socket θ) (os : Syscalls) : SocketResult :=
  match os.accept with
  | .accepted id addr => some (.socketAccept, { s.message with ud := id, data := .ofText addr })
  | .fileLimit err => some (.socketErr, { s.message with data := .text err })
  | .failed => none

/-- `forward_message_tcp` or `forward_message_udp`. -/
def forwardMessage (s : Socket θ) (os : Syscalls) :
    Except SocketFault (Socket θ × SocketResult) :=
  if s.protocol = .tcp then s.forwardMessageTcp os else s.forwardMessageUdp os

/-- Whether the event is looked at again after a read that returned `result`, and how:
a read that may have more to read is repeated, and a write flag is left for the next
round.
SRC: socket_server.c:1696-1717 -/
def keepEvent (e : Event) (result : SocketResult) : Option Event :=
  match result.map Prod.fst with
  | some .socketMore | some .socketUdp => some e
  | some .socketClose | some .socketErr => none
  | _ => if e.write then some { e with read := false } else none

/-- `SOCKET_MORE` is returned as `SOCKET_DATA`.
SRC: socket_server.c:1700-1703 -/
def moreIsData : SocketResult → SocketResult
  | some (.socketMore, m) => some (.socketData, m)
  | r => r

/-- One event of the loop of `socket_server_poll`: the slot, what is returned if the loop
ends, and the event if it stays.
SRC: socket_server.c:1674-1745 -/
def dispatchEvent (s : Socket θ) (os : Syscalls) (e : Event) :
    Except SocketFault (Socket θ × SocketResult × Option Event) :=
  match s.type with
  | .connecting => (s.reportConnect os).map fun (s', r) => (s', r, none)
  | .listen => .ok (s, s.reportAccept os, none)
  | .invalid => .ok (s, none, none)
  | _ =>
    if e.read then
      (s.forwardMessage os).map fun (s', r) => (s', moreIsData r, keepEvent e r)
    else if e.write then (s.sendBuffer os).map fun (s', r) => (s', r, none)
    else if e.error then .ok (s, some (s.reportError (os.soError.getD "Unknown error")), none)
    else if e.eof then
      s.forceClose.map fun s' =>
        (s', if s.isHalfcloseRead then none else some (.socketClose, s.message), none)
    else .ok (s, none, none)

end Socket

end Skynet.Model
