import Skynet.Library.Machine
import Skynet.Library.SharedList
import Skynet.Model.Socket

/-!
# The write lists in memory

`skynet-src/socket_server.c`: the functions of the socket thread that work on the high and
the low list of a slot, with the lists as they lie in memory: nodes with `next` pointers,
and a head and a tail for each list.  The other fields of the slot are those of `Socket`,
and so are the functions that do not look at a list.

`MALLOC` returns a number that no node has had before; that nodes are freed is left out.
-/

namespace Skynet.Model

open Library Function

inductive ListFault
  | slot (f : SocketFault)
  /-- `assert(s->tail != NULL)` of `append_sendbuffer_`. -/
  | noTail
  /-- `assert(s->tail->next == NULL)` of `append_sendbuffer_`. -/
  | tailLinked
  /-- `raise_uncomplete` of an empty list. -/
  | nullNode
  deriving DecidableEq

/-- `struct socket` with its lists: `node` and `next` are what the nodes hold, `mallocs`
counts them, and `fields` are the other fields of the slot, whose own lists are not used.
-/
structure LinkedSocket (θ : Type) where
  fields : Socket θ
  high : HeadTail ℕ
  low : HeadTail ℕ
  node : ℕ → WriteBuffer θ
  next : ℕ → Option ℕ
  mallocs : ℕ

/-- What a function of the socket thread leaves and returns, or the assertion that
fails. -/
abbrev LinkedResult (θ : Type) := Except ListFault (LinkedSocket θ × SocketResult)

namespace LinkedSocket

variable {θ : Type}

def list (p : LinkedSocket θ) : Priority → HeadTail ℕ
  | .high => p.high
  | .low => p.low

/-- The list of a priority becomes `q`. -/
def setList (p : LinkedSocket θ) (priority : Priority) (q : HeadTail ℕ) : LinkedSocket θ :=
  match priority with
  | .high => { p with high := q }
  | .low => { p with low := q }

/-- `send_buffer_empty`.
SRC: socket_server.c:846-848 -/
def sendBufferEmpty (p : LinkedSocket θ) : Bool := p.high.head.isNone && p.low.head.isNone

/-- `nomore_sending_data`.
SRC: socket_server.c:1099-1103 -/
def nomoreSendingData (p : LinkedSocket θ) : Bool :=
  (p.sendBufferEmpty && p.fields.dwBuffer.isNone && p.fields.sending &&& 0xffff = 0) ||
    p.fields.type = .halfcloseWrite

/-- `can_direct_write`.
SRC: socket_server.c:1797-1800 -/
def canDirectWrite (p : LinkedSocket θ) (id : ℕ) : Bool :=
  p.fields.id = id && p.nomoreSendingData && p.fields.type = .connected &&
    p.fields.udpconnecting = 0

/-- `force_close`, with `free_wb_list`.
SRC: socket_server.c:432-441, 480-510 -/
def forceClose (p : LinkedSocket θ) : Except ListFault (LinkedSocket θ) :=
  match p.fields.type with
  | .invalid => .ok p
  | .reserve => .error (.slot .closedReserved)
  | _ => .ok { p with
      fields := { p.fields with type := .invalid, dwBuffer := none }
      high := .empty, low := .empty }

/-- `new_fd`, with `check_wb_list`, and whether it returned a socket.
SRC: socket_server.c:532-586 -/
def newFd (p : LinkedSocket θ) (os : Syscalls) (id : ℕ) (protocol : Protocol) (owner : ℕ)
    (reading : Bool) : Except ListFault (LinkedSocket θ × Bool) :=
  if p.fields.type ≠ .reserve then .error (.slot .notReserved)
  else if os.spAdd then .ok ({ p with fields := { p.fields with type := .invalid } }, false)
  else if ¬(p.high.head = none ∧ p.high.tail = none ∧ p.low.head = none ∧ p.low.tail = none) then
    .error (.slot .listNotEmpty)
  else
    let opened := { p.fields with
      id := id, reading := true, writing := false, closing := false
      sending := idTag16 id <<< 16, protocol := protocol, size := minReadBuffer
      owner := owner, wbSize := 0, warnSize := 0, dwBuffer := none, written := [], done := [] }
    match opened.enableRead os reading with
    | (s, true) => .ok ({ p with fields := { s with type := .invalid } }, false)
    | (s, false) => .ok ({ p with fields := s }, true)

/-! ## Writing -/

/-- `close_write`.
SRC: socket_server.c:689-710 -/
def closeWrite (p : LinkedSocket θ) (os : Syscalls) : LinkedResult θ :=
  if p.fields.closing ∨ p.fields.type = .halfcloseRead then
    p.forceClose.map fun p' => (p', some (.socketRst, p.fields.message))
  else if p.fields.type = .halfcloseWrite then .ok (p, some (.socketRst, p.fields.message))
  else
    let s := ({ p.fields with type := .halfcloseWrite }.enableWrite os false).1
    .ok ({ p with fields := s }, some (s.reportError os.strerror))

/-- What the loop of `send_list_tcp` leaves of its list and its nodes, the bytes and the
whole buffers it has written, and whether a `write` failed. -/
structure Drained (θ : Type) where
  list : HeadTail ℕ
  node : ℕ → WriteBuffer θ
  bytes : List UInt8
  done : List (SendBuffer θ)
  failed : Bool

/-- The loop of `send_list_tcp`; where no more results are given, `write` returns
`EAGAIN`.
SRC: socket_server.c:713-739 -/
def drain (node : ℕ → WriteBuffer θ) (next : ℕ → Option ℕ) (q : HeadTail ℕ) :
    List WriteResult → Drained θ
  | [] =>
    match q.head with
    | none => ⟨{ q with tail := none }, node, [], [], false⟩
    | some _ => ⟨q, node, [], [], false⟩
  | result :: results =>
    match q.head with
    | none => ⟨{ q with tail := none }, node, [], [], false⟩
    | some tmp =>
      match result with
      | .intr => drain node next q results
      | .again => ⟨q, node, [], [], false⟩
      | .failed => ⟨q, node, [], [], true⟩
      | .wrote n =>
        let wb := node tmp
        let sz := min n wb.sz
        let bytes := (wb.buffer.bytes.drop wb.offset).take sz
        if sz ≠ wb.sz then
          ⟨q, update node tmp { wb with offset := wb.offset + sz }, bytes, [], false⟩
        else
          let d := drain node next { q with head := next tmp } results
          { d with bytes := bytes ++ d.bytes, done := wb.buffer :: d.done }

/-- The slot after the loop of `send_list_tcp` on one of its lists. -/
def afterDrain (p : LinkedSocket θ) (priority : Priority) (d : Drained θ) : LinkedSocket θ :=
  { p.setList priority d.list with
    node := d.node
    fields := { p.fields with
      wbSize := p.fields.wbSize - d.bytes.length, written := p.fields.written ++ d.bytes
      done := p.fields.done ++ d.done } }

/-- `send_list_tcp`.
SRC: socket_server.c:712-742 -/
def sendListTcp (p : LinkedSocket θ) (os : Syscalls) (priority : Priority)
    (results : List WriteResult) : LinkedResult θ :=
  let d := drain p.node p.next (p.list priority) results
  if d.failed then (p.afterDrain priority d).closeWrite os
  else .ok (p.afterDrain priority d, none)

/-- `drop_udp` of the first node.
SRC: socket_server.c:769-775 -/
def dropUdp (next : ℕ → Option ℕ) (q : HeadTail ℕ) (tmp : ℕ) : HeadTail ℕ :=
  ⟨next tmp, if next tmp = none then none else q.tail⟩

/-- The loop of `send_list_udp`: what is left of the list, and the size of what was sent or
dropped.
SRC: socket_server.c:778-808 -/
def drainUdp (p : LinkedSocket θ) (behind : UdpAddress) (q : HeadTail ℕ) :
    List WriteResult → HeadTail ℕ × ℕ
  | [] =>
    match q.head with
    | none => ({ q with tail := none }, 0)
    | some tmp =>
      if !p.fields.udpSocketAddress ((p.node tmp).udpAddress.getD behind) then
        (dropUdp p.next q tmp, (p.node tmp).sz)
      else (q, 0)
  | result :: results =>
    match q.head with
    | none => ({ q with tail := none }, 0)
    | some tmp =>
      if !p.fields.udpSocketAddress ((p.node tmp).udpAddress.getD behind) then
        (dropUdp p.next q tmp, (p.node tmp).sz)
      else match result with
      | .intr | .again => (q, 0)
      | .failed => (dropUdp p.next q tmp, (p.node tmp).sz)
      | .wrote _ =>
        let (q, n) := p.drainUdp behind { q with head := p.next tmp } results
        (q, (p.node tmp).sz + n)

/-- `send_list_udp`.
SRC: socket_server.c:776-808 -/
def sendListUdp (p : LinkedSocket θ) (os : Syscalls) (priority : Priority)
    (results : List WriteResult) : LinkedSocket θ × SocketResult :=
  let (q, n) := p.drainUdp os.behind (p.list priority) results
  ({ p.setList priority q with fields := { p.fields with wbSize := p.fields.wbSize - n } }, none)

/-- `send_list`.
SRC: socket_server.c:810-817 -/
def sendList (p : LinkedSocket θ) (os : Syscalls) (priority : Priority)
    (results : List WriteResult) : LinkedResult θ :=
  if p.fields.protocol = .tcp then p.sendListTcp os priority results
  else .ok (p.sendListUdp os priority results)

/-- `list_uncomplete`; the bytes of a user object are not at its address.
SRC: socket_server.c:819-826 -/
def listUncomplete (p : LinkedSocket θ) (q : HeadTail ℕ) : Bool :=
  match q.head with
  | none => false
  | some wb => (p.node wb).offset ≠ 0 || (p.node wb).buffer.kind = .object

/-- `raise_uncomplete`.
SRC: socket_server.c:828-845 -/
def raiseUncomplete (p : LinkedSocket θ) : Except ListFault (LinkedSocket θ) :=
  match p.low.head with
  | none => .error .nullNode
  | some tmp =>
    if p.high.head ≠ none then .error (.slot .highNotEmpty)
    else .ok { p with
      low := ⟨p.next tmp, if p.next tmp = none then none else p.low.tail⟩
      high := ⟨some tmp, some tmp⟩
      next := update p.next tmp none }

/-- Step 4 of `send_buffer_`.
SRC: socket_server.c:889-913 -/
def bufferSent (p : LinkedSocket θ) (os : Syscalls) : LinkedResult θ :=
  if !p.sendBufferEmpty ∨ p.fields.wbSize ≠ 0 then .error (.slot .notDrained)
  else if p.fields.closing then p.forceClose.map fun p' => (p', none)
  else match p.fields.enableWrite os false with
  | (s, true) => .ok ({ p with fields := s }, some (s.reportError "disable write failed"))
  | (s, false) =>
    if 0 < s.warnSize then
      .ok ({ p with fields := { s with warnSize := 0 } }, some (.socketWarning, s.message))
    else .ok ({ p with fields := s }, none)

/-- Steps 2 to 4 of `send_buffer_`, with an empty high list.
SRC: socket_server.c:870-913 -/
def sendLow (p : LinkedSocket θ) (os : Syscalls) : LinkedResult θ :=
  if p.low.head = none then p.bufferSent os
  else match p.sendList os .low os.writeLow with
  | .error f => .error f
  | .ok (p, some (.socketErr, m)) => .ok (p, some (.socketErr, m))
  | .ok (p, some _) => .ok (p, none)
  | .ok (p, none) =>
    if p.listUncomplete p.low then p.raiseUncomplete.map fun p' => (p', none)
    else if p.low.head ≠ none then .ok (p, none)
    else p.bufferSent os

/-- `send_buffer_`.
SRC: socket_server.c:858-917 -/
def sendBuffer_ (p : LinkedSocket θ) (os : Syscalls) : LinkedResult θ :=
  if p.listUncomplete p.low then .error (.slot .lowUncomplete)
  else match p.sendList os .high os.writeHigh with
  | .error f => .error f
  | .ok (p, some (.socketErr, m)) => .ok (p, some (.socketErr, m))
  | .ok (p, some _) => .ok (p, none)
  | .ok (p, none) => if p.high.head = none then p.sendLow os else .ok (p, none)

/-- A new node in memory.
SRC: socket_server.c:925-930, 949-954 -/
def malloc (p : LinkedSocket θ) (wb : WriteBuffer θ) (next : Option ℕ) : LinkedSocket θ := { p with
    node := update p.node p.mallocs wb
    next := update p.next p.mallocs next
    mallocs := p.mallocs + 1 }

/-- The direct write buffer goes in front of the high list.
SRC: socket_server.c:923-940 -/
def takeDirect (p : LinkedSocket θ) : LinkedSocket θ :=
  match p.fields.dwBuffer with
  | none => p
  | some b =>
    let wb : WriteBuffer θ := ⟨b, p.fields.dwOffset, none⟩
    let buf := p.mallocs
    let fields := { p.fields with wbSize := p.fields.wbSize + wb.sz, dwBuffer := none }
    match p.high.head with
    | none => { p.malloc wb none with fields := fields, high := ⟨some buf, some buf⟩ }
    | some first =>
      { p.malloc wb (some first) with fields := fields, high := { p.high with head := some buf } }

/-- `send_buffer`.
SRC: socket_server.c:919-945 -/
def sendBuffer (p : LinkedSocket θ) (os : Syscalls) : LinkedResult θ :=
  if os.trylock then .ok (p, none) else p.takeDirect.sendBuffer_ os

/-! ## Sending -/

/-- `append_sendbuffer_`.
SRC: socket_server.c:947-966 -/
def appendSendbuffer_ (p : LinkedSocket θ) (priority : Priority) (wb : WriteBuffer θ) :
    Except ListFault (LinkedSocket θ) :=
  let buf := p.mallocs
  let p := p.malloc wb none
  match (p.list priority).head with
  | none => .ok (p.setList priority ⟨some buf, some buf⟩)
  | some _ =>
    match (p.list priority).tail with
    | none => .error .noTail
    | some tail =>
      if p.next tail ≠ none then .error .tailLinked
      else .ok ({ p with next := update p.next tail (some buf) }.setList priority
        { p.list priority with tail := some buf })

/-- `append_sendbuffer`, `append_sendbuffer_low` and `append_sendbuffer_udp`.
SRC: socket_server.c:968-986 -/
def appendSendbuffer (p : LinkedSocket θ) (priority : Priority) (b : SendBuffer θ)
    (addr : Option UdpAddress) : Except ListFault (LinkedSocket θ) :=
  (p.appendSendbuffer_ priority ⟨b, 0, addr⟩).map fun p' =>
    { p' with fields := { p'.fields with wbSize := p'.fields.wbSize + b.bytes.length } }

/-- What `f` does to the other fields. -/
def onFields (f : Socket θ → Socket θ × SocketResult) (p : LinkedSocket θ) :
    LinkedSocket θ × SocketResult :=
  ({ p with fields := (f p.fields).1 }, (f p.fields).2)

/-- `send_socket`.
SRC: socket_server.c:1006-1076 -/
def sendSocket (p : LinkedSocket θ) (os : Syscalls) (id : ℕ) (b : SendBuffer θ)
    (udpAddress : Option UdpAddress) : LinkedResult θ :=
  let s := p.fields
  let addr := udpAddress.getD s.udpAddress
  if s.type = .invalid ∨ s.id ≠ id ∨ s.type = .halfcloseWrite ∨ s.type = .paccept ∨ s.closing then
    .ok (p, none)
  else if s.type = .plisten ∨ s.type = .listen then .ok (p, none)
  else if p.sendBufferEmpty then
    if s.protocol = .tcp then
      (p.appendSendbuffer .high b none).map (onFields fun s => s.startWriting os)
    else if !s.udpSocketAddress addr then .ok (p, none)
    else if os.sendto = .wrote b.bytes.length then .ok (p, none)
    else (p.appendSendbuffer b.priority b (some addr)).map (onFields fun s => s.startWriting os)
  else if s.protocol = .tcp then
    (p.appendSendbuffer b.priority b none).map (onFields Socket.warnSending)
  else (p.appendSendbuffer b.priority b (some addr)).map (onFields Socket.warnSending)

end LinkedSocket

/-! ## The life of a slot -/

/-- What happens to a slot: `reserve_id` takes it, `new_fd` and its caller open it with a
type, or give it back; a request to send is handled; `socket_server_send` leaves the rest
of a buffer; a write event is handled; the socket is closed; or anything else, which
leaves the lists and what belongs to them as they are. -/
inductive SlotAction (θ : Type)
  | reserveId (id : ℕ)
  | newFd (os : Syscalls) (id : ℕ) (protocol : Protocol) (owner : ℕ) (reading : Bool)
      (type : SocketType)
  | giveBack
  | sendSocket (os : Syscalls) (id : ℕ) (b : SendBuffer θ) (udpAddress : Option UdpAddress)
  | directWrite (id : ℕ) (b : SendBuffer θ) (n : ℕ)
  | sendBuffer (os : Syscalls)
  | forceClose
  | other (s : Socket θ)

/-- A type of a socket that has a file descriptor. -/
def SocketType.opened (type : SocketType) : Bool := type ≠ .invalid && type ≠ .reserve

/-- One step.  A caller has the id of a socket, or a request for it is in the pipe, only
behind the request that opens it. -/
def slotNext {θ : Type} : Except ListFault (LinkedSocket θ) → SlotAction θ →
    Option (Except ListFault (LinkedSocket θ))
  | .error _, _ => none
  | .ok p, .reserveId id =>
    if p.fields.type = .invalid then some (.ok { p with fields := p.fields.reserveId id }) else none
  | .ok p, .newFd os id protocol owner reading type =>
    if p.fields.type = .reserve then
      some (match p.newFd os id protocol owner reading with
        | .error f => .error f
        | .ok (p, false) => .ok p
        | .ok (p, true) => .ok { p with fields := { p.fields with
            type := if type = .reserve then .invalid else type } })
    else none
  | .ok p, .giveBack =>
    if p.fields.type = .reserve then
      some (.ok { p with fields := { p.fields with type := .invalid } })
    else none
  | .ok p, .sendSocket os id b addr =>
    if p.fields.type = .reserve ∧ p.fields.id = id then none
    else some ((p.sendSocket os id b addr).map Prod.fst)
  | .ok p, .directWrite id b n =>
    if p.canDirectWrite id ∧ n ≤ b.bytes.length then
      some (.ok { p with fields := { p.fields with dwBuffer := some b, dwOffset := n } })
    else none
  | .ok p, .sendBuffer os =>
    if p.fields.type = .invalid then none else some ((p.sendBuffer os).map Prod.fst)
  | .ok p, .forceClose => some p.forceClose
  | .ok p, .other s =>
    if p.fields.type.opened ∧ s.type.opened then
      some (.ok { p with fields := { s with
        wbSize := p.fields.wbSize, dwBuffer := p.fields.dwBuffer, dwOffset := p.fields.dwOffset } })
    else none

/-- A slot of a new server. -/
def LinkedSocket.fresh {θ : Type} (fields : Socket θ) (node : ℕ → WriteBuffer θ) :
    LinkedSocket θ where
  fields := { fields with type := .invalid, dwBuffer := none }
  high := .empty
  low := .empty
  node := node
  next _ := none
  mallocs := 0

/-- A slot, from when `socket_server_create` has returned. -/
def slotMachine (θ : Type) : Machine (Except ListFault (LinkedSocket θ)) (SlotAction θ) where
  start x := ∃ fields node, x = .ok (.fresh fields node)
  next := slotNext

end Skynet.Model
