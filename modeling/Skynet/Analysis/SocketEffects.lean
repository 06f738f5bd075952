import Skynet.Model.SocketServer

/-!
# What one call of the socket thread does to a slot

Every function the socket thread runs on a slot is one of a dozen moves: it closes the
slot, half-closes it, writes, queues, and so on.  `Effect` says what each move does to
the fields that other threads and later calls look at and what it returns; `Opened` says
the same of the calls that open a reserved slot.  Each function is inverted once; the
invariants of the server are then proved move by move.
-/

namespace Skynet.Analysis

open Model Socket

variable {θ : Type} {d : Bool} {s s' : Socket θ} {os : Syscalls} {result : SocketResult}

/-! ## Moves -/

structure Frame (s s' : Socket θ) : Prop where
  id : s'.id = s.id
  protocol : s'.protocol = s.protocol
  sending : s'.sending = s.sending

structure SameBuffers (s s' : Socket θ) : Prop where
  high : s'.high = s.high
  low : s'.low = s.low
  dwBuffer : s'.dwBuffer = s.dwBuffer
  dwOffset : s'.dwOffset = s.dwOffset
  written : s'.written = s.written
  done : s'.done = s.done

structure SameState (s s' : Socket θ) : Prop where
  type : s'.type = s.type
  closing : s'.closing = s.closing
  writing : s'.writing = s.writing

def Notice (result : SocketResult) : Prop :=
  ∀ c m, result = some (c, m) → c = .socketErr ∨ c = .socketWarning

def NoData (s : Socket θ) : Prop := s.high = [] ∧ s.low = [] ∧ s.dwBuffer = none

def InUse (s : Socket θ) : Prop := s.type ≠ .invalid ∧ s.type ≠ .reserve

/-- What a call on a slot does, except the calls that open it; `d` tells whether
`recvfrom` gives the call a datagram for the service. -/
inductive Effect (d : Bool) (s : Socket θ) : Socket θ → SocketResult → Prop
  /-- Nothing happens, or the service is told of an error or a warning. -/
  | quiet {s' : Socket θ} {result : SocketResult} (frame : Frame s s')
      (buffers : SameBuffers s s') (state : SameState s s') (notice : Notice result) :
      Effect d s s' result
  /-- Something is delivered to the service; to a half-closed socket only a datagram. -/
  | deliver {s' : Socket θ} {c : SocketCode} {m : SocketMessage} (frame : Frame s s')
      (buffers : SameBuffers s s') (state : SameState s s') (live : s.type ≠ .invalid)
      (id : m.id = s.id) (code : c ≠ .socketClose)
      (half : s.type = .halfcloseRead → d = true) : Effect d s s' (some (c, m))
  /-- A connection is there, or has been started. -/
  | start {s' : Socket θ} {m : SocketMessage} (frame : Frame s s')
      (buffers : SameBuffers s s') (closing : s'.closing = s.closing)
      (before : s.type = .paccept ∨ s.type = .plisten ∨ s.type = .connecting)
      (after : s'.type = .connected ∨ s'.type = .listen)
      (writing : s'.writing = s.writing ∨ NoData s) (id : m.id = s.id) :
      Effect d s s' (some (.socketOpen, m))
  /-- The write event is enabled. -/
  | wantWrite {s' : Socket θ} {result : SocketResult} (frame : Frame s s')
      (buffers : SameBuffers s s') (type : s'.type = s.type) (closing : s'.closing = s.closing)
      (writing : s'.writing = true) (notice : Notice result) : Effect d s s' result
  /-- The other side has closed. -/
  | eof {s' : Socket θ} {m : SocketMessage} (frame : Frame s s') (buffers : SameBuffers s s')
      (tcp : s.protocol = .tcp)
      (before : s.type ≠ .invalid ∧ s.type ≠ .halfcloseRead ∧ s.type ≠ .halfcloseWrite)
      (after : s'.type = .halfcloseRead) (open_ : s.closing = false)
      (closing : s'.closing = false) (writing : s'.writing = s.writing) (id : m.id = s.id) :
      Effect d s s' (some (.socketClose, m))
  /-- `force_close`. -/
  | free {s' : Socket θ} {result : SocketResult} (frame : Frame s s') (live : InUse s)
      (type : s'.type = .invalid) (nodata : NoData s')
      (code : Notice result ∨
        s.type ≠ .halfcloseRead ∧ ∃ m, result = some (.socketClose, m) ∧ m.id = s.id) :
      Effect d s s' result
  /-- A write error on a socket that is not closing. -/
  | failWrite {s' : Socket θ} {result : SocketResult} (frame : Frame s s')
      (tcp : s.protocol = .tcp) (live : s.type ≠ .invalid) (before : s.type ≠ .halfcloseRead)
      (open_ : s.closing = false) (closing : s'.closing = false)
      (type : s'.type = .halfcloseWrite) (dw : s'.dwBuffer = none) (notice : Notice result) : Effect d s s' result
  /-- Some of the waiting data has been written, or all of it. -/
  | flush {s' : Socket θ} {result : SocketResult} (frame : Frame s s')
      (live : s.type ≠ .invalid) (type : s'.type = s.type) (closing : s'.closing = s.closing)
      (dw : s'.dwBuffer = none)
      (lists : (s.high ≠ [] ∨ s.low ≠ [] ∨ s.dwBuffer ≠ none) ∧ ¬NoData s' ∧
          s'.writing = s.writing ∨
        s.type = .halfcloseWrite ∧ s'.writing = s.writing ∨
        NoData s' ∧ s.closing = false)
      (notice : Notice result) : Effect d s s' result
  /-- A buffer has been put on a list. -/
  | queue {s' : Socket θ} {result : SocketResult} (frame : Frame s s')
      (live : s.type ≠ .invalid) (type : s'.type = s.type) (open_ : s.closing = false)
      (closing : s'.closing = false) (dw : s'.dwBuffer = s.dwBuffer)
      (protocol : s.protocol ≠ .unknown ∨ s.sendBufferEmpty = false)
      (writing : s'.writing = true ∨ s.sendBufferEmpty = false ∧ s'.writing = s.writing)
      (notice : Notice result) : Effect d s s' result

structure Deferred (s s' : Socket θ) (result : SocketResult) : Prop where
  frame : Frame s s'
  buffers : SameBuffers s s'
  live : s.type ≠ .invalid
  more : s.nomoreSendingData = false
  type : s'.type = .halfcloseRead
  closing : s'.closing = true
  writing : s'.writing = s.writing
  code : result = none ∨
    s.type ≠ .halfcloseRead ∧ ∃ m, result = some (.socketClose, m) ∧ m.id = s.id

structure NewSocket (os : Syscalls) (s : Socket θ) (id : ℕ) (protocol : Protocol)
    (s' : Socket θ) : Prop where
  reserved : s.type = .reserve
  added : os.spAdd = false
  isId : s'.id = id
  isProtocol : s'.protocol = protocol
  sending : s'.sending = idTag16 id <<< 16
  closing : s'.closing = false
  nodata : NoData s'
  written : s'.written = []
  done : s'.done = []

/-- A call that opens the reserved slot as the socket `id`, or fails to. -/
inductive Opened (os : Syscalls) (s : Socket θ) (id : ℕ) (protocol : Protocol) :
    Socket θ → SocketResult → Prop
  /-- The slot is free again, as it was before. -/
  | failed {s' : Socket θ} {result : SocketResult} (reserved : s.type = .reserve)
      (frame : Frame s s') (type : s'.type = .invalid) (buffers : SameBuffers s s')
      (notice : Notice result) : Opened os s id protocol s' result
  /-- The slot is the socket `id`, and open, or free again. -/
  | opened {s' : Socket θ} {result : SocketResult} (new : NewSocket os s id protocol s')
      (type : s'.type ≠ .reserve ∧ s'.type ≠ .halfcloseRead ∧ s'.type ≠ .halfcloseWrite)
      (code : Notice result ∨ s'.type ≠ .invalid ∧
        ∃ m, result = some (.socketOpen, m) ∧ m.id = id) : Opened os s id protocol s' result

/-! ## Small functions -/

theorem SameBuffers.rfl' : SameBuffers s s := ⟨rfl, rfl, rfl, rfl, rfl, rfl⟩

theorem notice_none : Notice none := fun _ _ h => nomatch h

theorem notice_err (m : SocketMessage) : Notice (some (.socketErr, m)) := by
  rintro _ _ ⟨rfl⟩
  exact .inl rfl

theorem notice_warning (m : SocketMessage) : Notice (some (.socketWarning, m)) := by
  rintro _ _ ⟨rfl⟩
  exact .inr rfl

theorem notice_reportError (s : Socket θ) (err : String) : Notice (some (s.reportError err)) :=
  notice_err _

theorem exists_of_map_ok {ε α β : Type} {x : Except ε α} {f : α → β} {b : β}
    (h : x.map f = .ok b) : ∃ a, x = .ok a ∧ f a = b := by
  cases x with
  | error e => cases h
  | ok a => exact ⟨a, rfl, Except.ok.inj h⟩

theorem enableWrite_eq {enable failed : Bool} (h : s.enableWrite os enable = (s', failed)) :
    s' = { s with writing := enable } := by
  unfold enableWrite at h
  split at h
  · exact (Prod.mk.inj h).1.symm
  · next heq =>
    obtain rfl : s.writing = enable := not_not.mp heq
    exact (Prod.mk.inj h).1.symm

theorem enableRead_eq {enable failed : Bool} (h : s.enableRead os enable = (s', failed)) :
    s' = { s with reading := enable } := by
  unfold enableRead at h
  split at h
  · exact (Prod.mk.inj h).1.symm
  · next heq =>
    obtain rfl : s.reading = enable := not_not.mp heq
    exact (Prod.mk.inj h).1.symm

theorem closeRead_eq : s.closeRead os = { s with type := .halfcloseRead, reading := false } :=
  enableRead_eq (s := { s with type := .halfcloseRead }) rfl

theorem sendBufferEmpty_iff : s.sendBufferEmpty = true ↔ s.high = [] ∧ s.low = [] := by
  simp [sendBufferEmpty]

theorem nomoreSendingData_iff : s.nomoreSendingData = true ↔
    NoData s ∧ s.sending &&& 0xffff = 0 ∨ s.type = .halfcloseWrite := by
  simp [nomoreSendingData, sendBufferEmpty, NoData, and_assoc]

theorem forceClose_ok (h : s.forceClose = .ok s') (hlive : s.type ≠ .invalid) :
    s.type ≠ .reserve ∧
      s' = { s with type := .invalid, high := [], low := [], dwBuffer := none } := by
  unfold forceClose at h
  split at h
  · next ht => exact absurd ht hlive
  · cases h
  · next hr => exact ⟨hr, (Except.ok.inj h).symm⟩

theorem Effect.of_forceClose {s₁ : Socket θ} (h : s₁.forceClose = .ok s')
    (hlive : s.type ≠ .invalid) (hframe : Frame s s₁) (htype : s₁.type = s.type)
    (hcode : Notice result ∨
      s.type ≠ .halfcloseRead ∧ ∃ m, result = some (.socketClose, m) ∧ m.id = s.id) :
    Effect d s s' result := by
  obtain ⟨hr, rfl⟩ := forceClose_ok h (htype ▸ hlive)
  exact .free ⟨hframe.id, hframe.protocol, hframe.sending⟩ ⟨hlive, htype ▸ hr⟩ rfl
    ⟨rfl, rfl, rfl⟩ hcode

theorem Effect.frame (h : Effect d s s' result) : Frame s s' := by
  cases h <;> assumption

theorem Effect.live (h : Effect d s s' result) (hlive : s'.type ≠ .invalid) :
    s.type ≠ .invalid := by
  cases h with
  | quiet _ _ hstate _ => exact hstate.type ▸ hlive
  | deliver _ _ _ hbefore _ _ _ => exact hbefore
  | start _ _ _ hbefore _ _ _ => obtain h | h | h := hbefore <;> simp [h]
  | wantWrite _ _ htype _ _ _ => exact htype ▸ hlive
  | eof _ _ _ hbefore _ _ _ _ _ => exact hbefore.1
  | free _ _ htype _ _ => exact absurd htype hlive
  | failWrite _ _ hbefore _ _ _ _ _ _ => exact hbefore
  | flush _ hbefore _ _ _ _ _ => exact hbefore
  | queue _ hbefore _ _ _ _ _ _ _ => exact hbefore

theorem Effect.reserve_iff (h : Effect d s s' result)
    (hunknown : s.type = .reserve → s.protocol = .unknown) :
    s'.type = .reserve ↔ s.type = .reserve := by
  have hnotcp (htcp : s.protocol = .tcp) : s.type ≠ .reserve :=
    fun ht => nomatch (hunknown ht).symm.trans htcp
  cases h with
  | quiet _ _ hstate _ => rw [hstate.type]
  | deliver _ _ hstate _ _ _ _ => rw [hstate.type]
  | start _ _ _ hbefore hafter _ _ =>
    have hs : s.type ≠ .reserve := by obtain h | h | h := hbefore <;> simp [h]
    have hs' : s'.type ≠ .reserve := by obtain h | h := hafter <;> simp [h]
    exact ⟨fun h => absurd h hs', fun h => absurd h hs⟩
  | wantWrite _ _ htype _ _ _ => rw [htype]
  | eof _ _ htcp _ hafter _ _ _ _ =>
    exact ⟨fun h => (nomatch hafter.symm.trans h), fun h => absurd h (hnotcp htcp)⟩
  | free _ huse htype _ _ =>
    exact ⟨fun h => (nomatch htype.symm.trans h), fun h => absurd h huse.2⟩
  | failWrite _ htcp _ _ _ _ htype _ _ =>
    exact ⟨fun h => (nomatch htype.symm.trans h), fun h => absurd h (hnotcp htcp)⟩
  | flush _ _ htype _ _ _ _ => rw [htype]
  | queue _ _ htype _ _ _ _ _ _ => rw [htype]

/-! ## Opening -/

section Opening

variable {id owner : ℕ} {protocol : Protocol}

theorem NewSocket.become (h : NewSocket os s id protocol s') (type : SocketType) (writing : Bool) :
    NewSocket os s id protocol { s' with type := type, writing := writing } :=
  ⟨h.reserved, h.added, h.isId, h.isProtocol, h.sending, h.closing, h.nodata, h.written, h.done⟩

theorem Opened.invalid {r : SocketResult} (h : Opened os s id protocol s' r) (hr : Notice result) :
    Opened os s id protocol { s' with type := .invalid } result := by
  cases h with
  | failed hreserve hframe _ hbuffers _ =>
    exact .failed hreserve ⟨hframe.id, hframe.protocol, hframe.sending⟩ rfl
      ⟨hbuffers.high, hbuffers.low, hbuffers.dwBuffer, hbuffers.dwOffset, hbuffers.written,
        hbuffers.done⟩ hr
  | opened hnew _ _ => exact .opened (hnew.become .invalid s'.writing) ⟨nofun, nofun, nofun⟩ (.inl hr)

theorem newFd_ok {reading b : Bool} (h : s.newFd os id protocol owner reading = .ok (s', b)) :
    b = false ∧ Opened os s id protocol s' none ∨ b = true ∧ NewSocket os s id protocol s' := by
  unfold newFd at h
  split at h
  · cases h
  next htype =>
  have hreserve : s.type = .reserve := not_not.mp htype
  split at h
  · cases h
    exact .inl ⟨rfl, .failed hreserve ⟨rfl, rfl, rfl⟩ rfl ⟨rfl, rfl, rfl, rfl, rfl, rfl⟩
      notice_none⟩
  next hadded =>
  have hadded : os.spAdd = false := Bool.not_eq_true _ ▸ hadded
  split at h
  · cases h
  next hempty =>
  obtain ⟨hhigh, hlow⟩ := sendBufferEmpty_iff.mp (by simpa using hempty)
  dsimp only at h
  split at h
  · next hread =>
    obtain rfl := enableRead_eq hread
    cases h
    exact .inl ⟨rfl, .opened ⟨hreserve, hadded, rfl, rfl, rfl, rfl, ⟨hhigh, hlow, rfl⟩, rfl, rfl⟩
      ⟨nofun, nofun, nofun⟩ (.inl notice_none)⟩
  · next hread =>
    obtain rfl := enableRead_eq hread
    cases h
    exact .inr ⟨rfl, hreserve, hadded, rfl, rfl, rfl, rfl, ⟨hhigh, hlow, rfl⟩, rfl, rfl⟩

theorem opened_of_newFd {reading : Bool}
    (h : s.newFd os id protocol owner reading = .ok (s', false)) :
    Opened os s id protocol s' none := by
  obtain ⟨-, hopened⟩ | ⟨hb, -⟩ := newFd_ok h
  · exact hopened
  · cases hb

theorem newSocket_of_newFd {reading : Bool}
    (h : s.newFd os id protocol owner reading = .ok (s', true)) : NewSocket os s id protocol s' := by
  obtain ⟨hb, -⟩ | ⟨-, hnew⟩ := newFd_ok h
  · cases hb
  · exact hnew

def connects : ConnectResult → Bool
  | .connected _ | .inProgress => true
  | .unresolved _ | .noSocket _ => false

theorem openSocket_ok (h : s.openSocket os id owner = .ok (s', result)) :
    connects os.connect = true ∧ Opened os s id .tcp s' result ∨
      s' = { s with type := .invalid } ∧ Notice result := by
  unfold openSocket at h
  split at h
  · cases h
    exact .inr ⟨rfl, notice_err _⟩
  · cases h
    exact .inr ⟨rfl, notice_err _⟩
  · next hc =>
    refine .inl ⟨by rw [hc]; rfl, ?_⟩
    split at h
    · cases h
    · next hfd =>
      cases h
      exact (opened_of_newFd hfd).invalid (notice_err _)
    · next hfd =>
      have hnew := newSocket_of_newFd hfd
      cases h
      exact .opened (hnew.become .connected _) ⟨nofun, nofun, nofun⟩ (.inr ⟨nofun, _, rfl, rfl⟩)
  · next hc =>
    refine .inl ⟨by rw [hc]; rfl, ?_⟩
    split at h
    · cases h
    · next hfd =>
      cases h
      exact (opened_of_newFd hfd).invalid (notice_err _)
    next hfd =>
    have hnew := newSocket_of_newFd hfd
    split at h
    · next hwrite =>
      obtain rfl := enableWrite_eq hwrite
      cases h
      exact .opened (hnew.become .invalid true) ⟨nofun, nofun, nofun⟩ (.inl (notice_err _))
    · next hwrite =>
      obtain rfl := enableWrite_eq hwrite
      cases h
      exact .opened (hnew.become .connecting true) ⟨nofun, nofun, nofun⟩ (.inl notice_none)

theorem listenSocket_ok (h : s.listenSocket os id owner = .ok (s', result)) :
    Opened os s id .tcp s' result := by
  unfold listenSocket at h
  split at h
  · cases h
  · next hfd =>
    cases h
    exact (opened_of_newFd hfd).invalid (notice_err _)
  · next hfd =>
    have hnew := newSocket_of_newFd hfd
    cases h
    exact .opened (hnew.become .plisten _) ⟨nofun, nofun, nofun⟩ (.inl notice_none)

theorem Opened.notice {r : SocketResult} (h : Opened os s id protocol s' r) (hr : Notice result) :
    Opened os s id protocol s' result := by
  cases h with
  | failed hreserve hframe htype hbuffers _ => exact .failed hreserve hframe htype hbuffers hr
  | opened hnew htype _ => exact .opened hnew htype (.inl hr)

theorem bindSocket_ok (h : s.bindSocket os id owner = .ok (s', result)) :
    Opened os s id .tcp s' result := by
  unfold bindSocket at h
  split at h
  · cases h
  · next hfd =>
    cases h
    exact (opened_of_newFd hfd).notice (notice_err _)
  · next hfd =>
    have hnew := newSocket_of_newFd hfd
    cases h
    exact .opened (hnew.become .bind _) ⟨nofun, nofun, nofun⟩ (.inr ⟨nofun, _, rfl, rfl⟩)

theorem addUdpSocket_ok {v6 : Bool} (h : s.addUdpSocket os id owner v6 = .ok (s', result)) :
    Opened os s id (if v6 then .udpv6 else .udp) s' result := by
  unfold addUdpSocket at h
  split at h
  · cases h
  · next hfd =>
    cases h
    exact (opened_of_newFd hfd).invalid notice_none
  · next hfd =>
    have hnew := newSocket_of_newFd hfd
    cases h
    exact .opened ⟨hnew.reserved, hnew.added, hnew.isId, hnew.isProtocol, hnew.sending, hnew.closing,
      hnew.nodata, hnew.written, hnew.done⟩ ⟨nofun, nofun, nofun⟩ (.inl notice_none)

theorem acceptInto_ok (h : s.acceptInto os id owner = .ok s') :
    Opened os (s.reserveId id) id .tcp s' none := by
  unfold acceptInto at h
  split at h
  · cases h
  · next hfd =>
    cases h
    exact opened_of_newFd hfd
  · next hfd =>
    have hnew := newSocket_of_newFd hfd
    cases h
    exact .opened (hnew.become .paccept _) ⟨nofun, nofun, nofun⟩ (.inl notice_none)

end Opening

/-! ## Control requests -/

section Control

variable {id owner : ℕ}

theorem Effect.self (s : Socket θ) (h : Notice result) : Effect d s s result :=
  .quiet ⟨rfl, rfl, rfl⟩ ⟨rfl, rfl, rfl, rfl, rfl, rfl⟩ ⟨rfl, rfl, rfl⟩ h

theorem live_of_socketInvalid (h : ¬s.socketInvalid id = true) : s.id = id ∧ s.type ≠ .invalid := by
  simpa [socketInvalid] using h

theorem resumeSocket_effect : Effect d s (s.resumeSocket os id owner).1
    (s.resumeSocket os id owner).2 := by
  unfold resumeSocket
  split
  · exact .self s (notice_err _)
  next hvalid =>
  obtain ⟨hid, hlive⟩ := live_of_socketInvalid hvalid
  split
  · exact .self s (notice_err _)
  next hhalf =>
  have hhalf : s.type ≠ .halfcloseRead := by simpa [isHalfcloseRead] using hhalf
  split
  · next hread =>
    obtain rfl := enableRead_eq hread
    exact .quiet ⟨rfl, rfl, rfl⟩ ⟨rfl, rfl, rfl, rfl, rfl, rfl⟩ ⟨rfl, rfl, rfl⟩ (notice_err _)
  next hread =>
  obtain rfl := enableRead_eq hread
  split
  · next htype =>
    exact .start ⟨rfl, rfl, rfl⟩ ⟨rfl, rfl, rfl, rfl, rfl, rfl⟩ rfl (.inl htype) (.inl rfl)
      (.inl rfl) hid.symm
  · next htype =>
    exact .start ⟨rfl, rfl, rfl⟩ ⟨rfl, rfl, rfl, rfl, rfl, rfl⟩ rfl (.inr (.inl htype)) (.inr rfl)
      (.inl rfl) hid.symm
  · exact .deliver ⟨rfl, rfl, rfl⟩ ⟨rfl, rfl, rfl, rfl, rfl, rfl⟩ ⟨rfl, rfl, rfl⟩ hlive hid.symm
      nofun fun h => absurd h hhalf
  · exact .quiet ⟨rfl, rfl, rfl⟩ ⟨rfl, rfl, rfl, rfl, rfl, rfl⟩ ⟨rfl, rfl, rfl⟩ notice_none

theorem pauseSocket_effect : Effect d s (s.pauseSocket os id).1 (s.pauseSocket os id).2 := by
  unfold pauseSocket
  split
  · exact .self s notice_none
  split
  · next hread =>
    obtain rfl := enableRead_eq hread
    exact .quiet ⟨rfl, rfl, rfl⟩ ⟨rfl, rfl, rfl, rfl, rfl, rfl⟩ ⟨rfl, rfl, rfl⟩
      (notice_reportError _ _)
  · next hread =>
    obtain rfl := enableRead_eq hread
    exact .quiet ⟨rfl, rfl, rfl⟩ ⟨rfl, rfl, rfl, rfl, rfl, rfl⟩ ⟨rfl, rfl, rfl⟩ notice_none

theorem setUdpAddress_effect {addr : UdpAddress} :
    Effect d s (s.setUdpAddress id addr).1 (s.setUdpAddress id addr).2 := by
  unfold setUdpAddress
  split
  · exact .self s notice_none
  split
  · exact .self s (notice_reportError _ _)
  · exact .quiet ⟨rfl, rfl, rfl⟩ ⟨rfl, rfl, rfl, rfl, rfl, rfl⟩ ⟨rfl, rfl, rfl⟩ notice_none

theorem triggerWrite_effect : Effect d s (s.triggerWrite os id).1 (s.triggerWrite os id).2 := by
  unfold triggerWrite
  split
  · exact .self s notice_none
  split
  · next hwrite =>
    obtain rfl := enableWrite_eq hwrite
    exact .wantWrite ⟨rfl, rfl, rfl⟩ ⟨rfl, rfl, rfl, rfl, rfl, rfl⟩ rfl rfl rfl
      (notice_reportError _ _)
  · next hwrite =>
    obtain rfl := enableWrite_eq hwrite
    exact .wantWrite ⟨rfl, rfl, rfl⟩ ⟨rfl, rfl, rfl, rfl, rfl, rfl⟩ rfl rfl rfl notice_none

theorem triggerWrite_writing (hid : s.id = id) (hlive : s.type ≠ .invalid) :
    (s.triggerWrite os id).1.writing = true := by
  have hvalid : ¬s.socketInvalid id = true := by simp [socketInvalid, hid, hlive]
  unfold triggerWrite
  rw [if_neg hvalid]
  split
  · next hwrite => exact congrArg Socket.writing (enableWrite_eq hwrite)
  · next hwrite => exact congrArg Socket.writing (enableWrite_eq hwrite)

theorem closeSocket_effect {shutdown : Bool}
    (h : s.closeSocket os id shutdown = .ok (s', result)) :
    Effect d s s' result ∨
      shutdown = false ∧ s.socketInvalid id = false ∧ Deferred s s' result := by
  unfold closeSocket at h
  split at h
  · cases h
    exact .inl (.self _ notice_none)
  next hvalid =>
  obtain ⟨hid, hlive⟩ := live_of_socketInvalid hvalid
  split at h
  · obtain ⟨freed, hclose, hret⟩ := exists_of_map_ok h
    cases hret
    refine .inl (.of_forceClose hclose hlive ⟨rfl, rfl, rfl⟩ rfl ?_)
    by_cases hhalf : s.type = .halfcloseRead
    · simpa [isHalfcloseRead, hhalf] using notice_none
    · right
      exact ⟨hhalf, s.message, by simp [isHalfcloseRead, hhalf], rfl⟩
  next hmore =>
  obtain ⟨hshut, hmore⟩ := Bool.or_eq_false_iff.mp (Bool.not_eq_true _ ▸ hmore)
  refine .inr ⟨hshut, Bool.not_eq_true _ ▸ hvalid, ?_⟩
  split at h
  · next hhalf =>
    cases h
    exact ⟨⟨rfl, rfl, rfl⟩, ⟨rfl, rfl, rfl, rfl, rfl, rfl⟩, hlive, hmore,
      by simpa [isHalfcloseRead] using hhalf, rfl, rfl, .inl rfl⟩
  · next hhalf =>
    cases h
    rw [closeRead_eq]
    exact ⟨⟨rfl, rfl, rfl⟩, ⟨rfl, rfl, rfl, rfl, rfl, rfl⟩, hlive, hmore, rfl, rfl, rfl,
      .inr ⟨by simpa [isHalfcloseRead] using hhalf, _, rfl, rfl⟩⟩

theorem warnSending_eq (s : Socket θ) : ∃ warn : ℤ, s.warnSending.1 = { s with warnSize := warn } ∧
    Notice s.warnSending.2 := by
  unfold warnSending
  split
  · exact ⟨_, rfl, notice_warning _⟩
  · exact ⟨s.warnSize, rfl, notice_none⟩

theorem startWriting_eq (s : Socket θ) (os : Syscalls) : ∃ warn : ℤ,
    (s.startWriting os).1 = { s with writing := true, warnSize := warn } ∧
      Notice (s.startWriting os).2 := by
  unfold startWriting
  split
  · next hwrite =>
    obtain rfl := enableWrite_eq hwrite
    exact ⟨s.warnSize, rfl, notice_reportError _ _⟩
  · next hwrite =>
    obtain rfl := enableWrite_eq hwrite
    exact warnSending_eq _

theorem appendSendbuffer_eq (s : Socket θ) (priority : Priority) (b : SendBuffer θ)
    (addr : Option UdpAddress) :
    Frame s (s.appendSendbuffer priority b addr) ∧ SameState s (s.appendSendbuffer priority b addr) ∧
      (s.appendSendbuffer priority b addr).dwBuffer = s.dwBuffer := by
  cases priority with
  | high => exact ⟨⟨rfl, rfl, rfl⟩, ⟨rfl, rfl, rfl⟩, rfl⟩
  | low => exact ⟨⟨rfl, rfl, rfl⟩, ⟨rfl, rfl, rfl⟩, rfl⟩

variable {addr : Option UdpAddress}

theorem startWriting_effect {priority : Priority} {b : SendBuffer θ}
    (hlive : s.type ≠ .invalid) (hopen : s.closing = false) (hprotocol : s.protocol ≠ .unknown) :
    Effect d s ((s.appendSendbuffer priority b addr).startWriting os).1
      ((s.appendSendbuffer priority b addr).startWriting os).2 := by
  obtain ⟨hframe, hstate, hdw⟩ := appendSendbuffer_eq s priority b addr
  obtain ⟨warn, heq, hnotice⟩ := startWriting_eq (s.appendSendbuffer priority b addr) os
  refine .queue ?_ hlive ?_ hopen ?_ ?_ (.inl hprotocol) (.inl ?_) hnotice
  all_goals rw [heq]
  · exact ⟨hframe.id, hframe.protocol, hframe.sending⟩
  · exact hstate.type
  · exact hstate.closing.trans hopen
  · exact hdw

theorem appendSendbuffer_effect {priority : Priority} {b : SendBuffer θ}
    (hlive : s.type ≠ .invalid) (hopen : s.closing = false) (hbusy : s.sendBufferEmpty = false) :
    Effect d s (s.appendSendbuffer priority b addr).warnSending.1
      (s.appendSendbuffer priority b addr).warnSending.2 := by
  obtain ⟨hframe, hstate, hdw⟩ := appendSendbuffer_eq s priority b addr
  obtain ⟨warn, heq, hnotice⟩ := warnSending_eq (s.appendSendbuffer priority b addr)
  refine .queue ?_ hlive ?_ hopen ?_ ?_ (.inr hbusy) (.inr ⟨hbusy, ?_⟩) hnotice
  all_goals rw [heq]
  · exact ⟨hframe.id, hframe.protocol, hframe.sending⟩
  · exact hstate.type
  · exact hstate.closing.trans hopen
  · exact hdw
  · exact hstate.writing

theorem sendSocket_effect {b : SendBuffer θ} :
    Effect d s (s.sendSocket os id b addr).1 (s.sendSocket os id b addr).2 := by
  unfold sendSocket
  dsimp only
  split
  · exact .self s notice_none
  next hdrop =>
  have hlive : s.type ≠ .invalid := fun h => hdrop (.inl h)
  have hopen : s.closing = false := by
    by_contra h
    exact hdrop (.inr (.inr (.inr (.inr (by simpa using h)))))
  split
  · exact .self s notice_none
  split
  · split
    · next htcp => exact startWriting_effect hlive hopen (by simp [htcp])
    split
    · exact .self s notice_none
    next haddr =>
    split
    · exact .self s notice_none
    · refine startWriting_effect hlive hopen fun hunknown => haddr ?_
      simp [udpSocketAddress, hunknown]
  next hempty =>
  have hbusy : s.sendBufferEmpty = false := Bool.not_eq_true _ ▸ hempty
  split
  · exact appendSendbuffer_effect hlive hopen hbusy
  · exact appendSendbuffer_effect hlive hopen hbusy

def openProtocol : Request θ → Protocol
  | .addUdpSocket _ _ v6 => if v6 then .udpv6 else .udp
  | _ => .tcp

theorem ctrlCmd_effect {r : Request θ} (hr : r.opens = false)
    (h : s.ctrlCmd os r = .ok (s', result)) :
    Effect d s s' result ∨
      ∃ id, r = .closeSocket id false ∧ s.socketInvalid id = false ∧ Deferred s s' result := by
  cases r with
  | bindSocket | listenSocket | openSocket | addUdpSocket => cases hr
  | closeSocket id shutdown =>
    obtain heffect | ⟨rfl, hvalid, hdefer⟩ := closeSocket_effect h
    · exact .inl heffect
    · exact .inr ⟨id, rfl, hvalid, hdefer⟩
  | resumeSocket id owner =>
    obtain ⟨rfl, rfl⟩ := Prod.mk.inj (Except.ok.inj h)
    exact .inl resumeSocket_effect
  | pauseSocket id =>
    obtain ⟨rfl, rfl⟩ := Prod.mk.inj (Except.ok.inj h)
    exact .inl pauseSocket_effect
  | triggerWrite id =>
    obtain ⟨rfl, rfl⟩ := Prod.mk.inj (Except.ok.inj h)
    exact .inl triggerWrite_effect
  | sendSocket id b =>
    obtain ⟨rfl, rfl⟩ := Prod.mk.inj (Except.ok.inj h)
    exact .inl sendSocket_effect
  | sendUdp id b addr =>
    obtain ⟨rfl, rfl⟩ := Prod.mk.inj (Except.ok.inj h)
    exact .inl sendSocket_effect
  | setUdpAddress id addr =>
    obtain ⟨rfl, rfl⟩ := Prod.mk.inj (Except.ok.inj h)
    exact .inl setUdpAddress_effect

def reachesNewFd (os : Syscalls) : Request θ → Bool
  | .openSocket _ _ => connects os.connect
  | _ => true

theorem ctrlCmd_opened {r : Request θ} (hr : r.opens = true)
    (h : s.ctrlCmd os r = .ok (s', result)) :
    reachesNewFd os r = true ∧ Opened os s r.id (openProtocol r) s' result ∨
      s' = { s with type := .invalid } ∧ Notice result := by
  cases r with
  | bindSocket => exact .inl ⟨rfl, bindSocket_ok h⟩
  | listenSocket => exact .inl ⟨rfl, listenSocket_ok h⟩
  | openSocket => exact openSocket_ok h
  | addUdpSocket => exact .inl ⟨rfl, addUdpSocket_ok h⟩
  | closeSocket | resumeSocket | pauseSocket | triggerWrite | setUdpAddress | sendSocket | sendUdp =>
    cases hr

end Control

end Skynet.Analysis
