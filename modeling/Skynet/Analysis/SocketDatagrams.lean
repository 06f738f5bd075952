import Skynet.Analysis.SocketOutbox
import Skynet.Analysis.SocketSteps
import Skynet.Model.SocketDatagrams

/-!
# Datagrams go where they were sent

Every node on the lists of a udp socket was made by `append_sendbuffer_udp`, with the
whole buffer of a call and the address of that call or the default address of that
moment, and so every datagram handed to `sendto` has both from one call.  The exception is
the buffer that `socket_server_send` leaves when its own `sendto` fails: `send_buffer`
puts it on the high list as a node without an address, and `send_list_udp` reads one from
the bytes behind it.
-/

namespace Skynet.Analysis

open Library Model Socket List SocketServer Option Function

variable {θ : Type} {s s' : Socket θ} {os : Syscalls} {result : SocketResult}

/-! ## What is on the lists -/

structure Fewer (s s' : Socket θ) : Prop where
  nodes : ∀ wb ∈ s'.high ++ s'.low, wb ∈ s.high ++ s.low
  dwBuffer : s.dwBuffer = none → s'.dwBuffer = none

theorem Fewer.of_same (h : SameBuffers s s') : Fewer s s' :=
  ⟨fun wb hwb => by rwa [h.high, h.low] at hwb, fun hdw => h.dwBuffer.trans hdw⟩

theorem Fewer.of_noData (h : NoData s') : Fewer s s' :=
  ⟨fun wb hwb => (by rw [h.1, h.2.1] at hwb; cases hwb), fun _ => h.2.2⟩

theorem Fewer.trans {s₁ : Socket θ} (h : Fewer s s₁) (h' : Fewer s₁ s') : Fewer s s' :=
  ⟨fun wb hwb => h.nodes wb (h'.nodes wb hwb), fun hdw => h'.dwBuffer (h.dwBuffer hdw)⟩

theorem forceClose_fewer (h : s.forceClose = .ok s') : Fewer s s' := by
  unfold forceClose at h
  split at h
  · cases h
    exact .of_same .rfl'
  · cases h
  · cases h
    exact .of_noData ⟨rfl, rfl, rfl⟩

theorem forceClose_map_fewer {r : SocketResult}
    (h : (s.forceClose.map fun s' => (s', r)) = .ok (s', result)) : Fewer s s' := by
  obtain ⟨freed, hclose, hret⟩ := exists_of_map_ok h
  cases hret
  exact forceClose_fewer hclose

theorem closeSocket_fewer {id : ℕ} {shutdown : Bool}
    (h : s.closeSocket os id shutdown = .ok (s', result)) : Fewer s s' := by
  unfold closeSocket at h
  split at h
  · cases h
    exact .of_same .rfl'
  split at h
  · exact forceClose_map_fewer h
  split at h
  · cases h
    exact .of_same ⟨rfl, rfl, rfl, rfl, rfl, rfl⟩
  · cases h
    rw [closeRead_eq]
    exact .of_same ⟨rfl, rfl, rfl, rfl, rfl, rfl⟩

theorem ctrlCmd_fewer {r : Request θ} (hr : r.opens = false) (hsend : ∀ id b, r ≠ .sendSocket id b)
    (hudp : ∀ id b addr, r ≠ .sendUdp id b addr) (h : s.ctrlCmd os r = .ok (s', result)) :
    Fewer s s' := by
  cases r with
  | bindSocket | listenSocket | openSocket | addUdpSocket => cases hr
  | closeSocket => exact closeSocket_fewer h
  | resumeSocket =>
    obtain ⟨rfl, -⟩ := Prod.mk.inj (Except.ok.inj h)
    exact .of_same resumeSocket_same
  | pauseSocket =>
    obtain ⟨rfl, -⟩ := Prod.mk.inj (Except.ok.inj h)
    exact .of_same pauseSocket_same
  | triggerWrite =>
    obtain ⟨rfl, -⟩ := Prod.mk.inj (Except.ok.inj h)
    exact .of_same triggerWrite_same
  | setUdpAddress =>
    obtain ⟨rfl, -⟩ := Prod.mk.inj (Except.ok.inj h)
    exact .of_same setUdpAddress_same
  | sendSocket id b => exact absurd rfl (hsend id b)
  | sendUdp id b addr => exact absurd rfl (hudp id b addr)

theorem sendListUdp_fewer (s : Socket θ) (os : Syscalls) (priority : Priority) (results : List WriteResult) :
    Fewer s (s.sendListUdp os priority results).1 := by
  have hsuffix := (drainUdp_suffix (s := s) os.behind (s.list priority) results).subset
  refine ⟨fun wb hwb => ?_, ?_⟩
  · cases priority with
    | high =>
      obtain hwb | hwb := mem_append.mp hwb
      · exact mem_append_left _ (hsuffix hwb)
      · exact mem_append_right _ hwb
    | low =>
      obtain hwb | hwb := mem_append.mp hwb
      · exact mem_append_left _ hwb
      · exact mem_append_right _ (hsuffix hwb)
  · intro hdw
    cases priority <;> exact hdw

variable {priority : Priority}

theorem sendList_udp {results : List WriteResult} (hudp : s.protocol ≠ .tcp) :
    s.sendList os priority results = .ok (s.sendListUdp os priority results) :=
  if_neg hudp

theorem bufferSent_fewer (h : s.bufferSent os = .ok (s', result)) : Fewer s s' := by
  unfold bufferSent at h
  split at h
  · cases h
  split at h
  · exact forceClose_map_fewer h
  split at h
  · next hw =>
    obtain rfl := enableWrite_eq hw
    cases h
    exact .of_same ⟨rfl, rfl, rfl, rfl, rfl, rfl⟩
  next hw =>
  obtain rfl := enableWrite_eq hw
  split at h
  · cases h
    exact .of_same ⟨rfl, rfl, rfl, rfl, rfl, rfl⟩
  · cases h
    exact .of_same ⟨rfl, rfl, rfl, rfl, rfl, rfl⟩

theorem raiseUncomplete_fewer
    (h : (s.raiseUncomplete.map fun s' => (s', none)) = .ok (s', result)) : Fewer s s' := by
  obtain ⟨raised, hraise, hret⟩ := exists_of_map_ok h
  cases hret
  unfold raiseUncomplete at hraise
  split at hraise
  · cases hraise
  cases hraise
  refine ⟨fun wb hwb => ?_, fun hdw => hdw⟩
  rw [take_append_drop] at hwb
  exact mem_append_right _ hwb

theorem sendLow_fewer (hudp : s.protocol ≠ .tcp) (h : s.sendLow os = .ok (s', result)) :
    Fewer s s' := by
  have hlist := sendListUdp_fewer s os .low os.writeLow
  unfold sendLow at h
  split at h
  · exact bufferSent_fewer h
  rw [sendList_udp hudp] at h
  dsimp only [sendListUdp] at h hlist
  split at h
  · exact hlist.trans (raiseUncomplete_fewer h)
  split at h
  · cases h
    exact hlist
  · exact hlist.trans (bufferSent_fewer h)

theorem sendBuffer_fewer (hudp : s.protocol ≠ .tcp) (hdw : s.dwBuffer = none)
    (h : s.sendBuffer os = .ok (s', result)) : Fewer s s' := by
  have hlist := sendListUdp_fewer s os .high os.writeHigh
  have htake : s.takeDirect = s := by rw [takeDirect, hdw]
  unfold sendBuffer at h
  split at h
  · cases h
    exact .of_same .rfl'
  rw [htake] at h
  unfold sendBuffer_ at h
  split at h
  · cases h
  rw [sendList_udp hudp] at h
  dsimp only [sendListUdp] at h hlist
  split at h
  · refine hlist.trans (sendLow_fewer ?_ h)
    exact hudp
  · cases h
    exact hlist

theorem forwardMessageUdp_fewer (h : s.forwardMessageUdp os = .ok (s', result)) : Fewer s s' := by
  have hsame (heq : s = s') : Fewer s s' := heq ▸ .of_same .rfl'
  unfold forwardMessageUdp at h
  split at h
  · exact hsame (Prod.mk.inj (Except.ok.inj h)).1
  · exact forceClose_map_fewer h
  · split at h
    · exact hsame (Prod.mk.inj (Except.ok.inj h)).1
    · exact hsame (Prod.mk.inj (Except.ok.inj h)).1
  · split at h
    · exact hsame (Prod.mk.inj (Except.ok.inj h)).1
    · exact hsame (Prod.mk.inj (Except.ok.inj h)).1

theorem reportConnect_fewer (h : s.reportConnect os = .ok (s', result)) : Fewer s s' := by
  unfold reportConnect at h
  split at h
  · exact forceClose_map_fewer h
  have hconnected : Fewer s { s with type := .connected } := .of_same ⟨rfl, rfl, rfl, rfl, rfl, rfl⟩
  dsimp only at h
  split at h
  · split at h
    · next hw =>
      obtain rfl := enableWrite_eq hw
      refine Fewer.trans ?_ (forceClose_map_fewer h)
      exact .of_same ⟨rfl, rfl, rfl, rfl, rfl, rfl⟩
    · next hw =>
      obtain rfl := enableWrite_eq hw
      cases h
      exact .of_same ⟨rfl, rfl, rfl, rfl, rfl, rfl⟩
  · cases h
    exact hconnected

/-- **Event.** An event of a udp socket brings nothing. -/
theorem dispatchEvent_fewer {e : Event} {kept : Option Event} (hudp : s.protocol ≠ .tcp)
    (hdw : s.dwBuffer = none) (h : s.dispatchEvent os e = .ok (s', result, kept)) : Fewer s s' := by
  have hsame (heq : s = s') : Fewer s s' := heq ▸ .of_same .rfl'
  unfold dispatchEvent at h
  split at h
  · obtain ⟨⟨s₁, r⟩, hconnect, hret⟩ := exists_of_map_ok h
    cases hret
    exact reportConnect_fewer hconnect
  · exact hsame (Prod.mk.inj (Except.ok.inj h)).1
  · exact hsame (Prod.mk.inj (Except.ok.inj h)).1
  split at h
  · obtain ⟨⟨s₁, r⟩, hread, hret⟩ := exists_of_map_ok h
    cases hret
    rw [forwardMessage, if_neg hudp] at hread
    exact forwardMessageUdp_fewer hread
  split at h
  · obtain ⟨⟨s₁, r⟩, hwrite, hret⟩ := exists_of_map_ok h
    cases hret
    exact sendBuffer_fewer hudp hdw hwrite
  split at h
  · exact hsame (Prod.mk.inj (Except.ok.inj h)).1
  split at h
  · obtain ⟨freed, hclose, hret⟩ := exists_of_map_ok h
    cases hret
    exact forceClose_fewer hclose
  · exact hsame (Prod.mk.inj (Except.ok.inj h)).1

variable {addr : Option UdpAddress} {b : SendBuffer θ}

theorem appendSendbuffer_nodes :
    ∀ wb ∈ (s.appendSendbuffer priority b addr).high ++ (s.appendSendbuffer priority b addr).low,
      wb ∈ s.high ++ s.low ∨ wb = ⟨b, 0, addr⟩ := by
  intro wb hwb
  cases priority with
  | high =>
    obtain hwb | hwb := mem_append.mp (show wb ∈ (s.high ++ [⟨b, 0, addr⟩]) ++ s.low from hwb)
    · obtain hwb | hwb := mem_append.mp hwb
      · exact .inl (mem_append_left _ hwb)
      · exact .inr (mem_singleton.mp hwb)
    · exact .inl (mem_append_right _ hwb)
  | low =>
    obtain hwb | hwb := mem_append.mp (show wb ∈ s.high ++ (s.low ++ [⟨b, 0, addr⟩]) from hwb)
    · exact .inl (mem_append_left _ hwb)
    · obtain hwb | hwb := mem_append.mp hwb
      · exact .inl (mem_append_right _ hwb)
      · exact .inr (mem_singleton.mp hwb)

/-- What has come to the lists is a node of the socket `id`, made for the buffer with the
address. -/
structure Queues (id : ℕ) (b : SendBuffer θ) (addr : UdpAddress) (s s' : Socket θ) : Prop where
  dwBuffer : s'.dwBuffer = s.dwBuffer
  nodes : ∀ wb ∈ s'.high ++ s'.low, wb ∈ s.high ++ s.low ∨ s.id = id ∧ wb = ⟨b, 0, some addr⟩

theorem Queues.self (id : ℕ) (b : SendBuffer θ) (addr : UdpAddress) (s : Socket θ) :
    Queues id b addr s s :=
  ⟨rfl, fun _ hwb => .inl hwb⟩

theorem Queues.append {id : ℕ} {addr : UdpAddress} (hid : s.id = id)
    (h : SameBuffers (s.appendSendbuffer priority b (some addr)) s') : Queues id b addr s s' := by
  refine ⟨?_, fun wb hwb => ?_⟩
  · rw [h.dwBuffer]
    cases priority <;> rfl
  · rw [h.high, h.low] at hwb
    obtain hold | hnew := appendSendbuffer_nodes wb hwb
    · exact .inl hold
    · exact .inr ⟨hid, hnew⟩

theorem sendSocket_queues {id : ℕ} (hudp : s.protocol ≠ .tcp) : Queues id b (addr.getD s.udpAddress)
    s (s.sendSocket os id b addr).1 := by
  unfold sendSocket
  dsimp only
  split
  · exact .self ..
  next hdrop =>
  have hid : s.id = id := by
    by_contra hne
    exact hdrop (.inr (.inl hne))
  split
  · exact .self ..
  split
  · split
    · exact .self ..
    split
    · exact .self ..
    · exact .append hid startWriting_same
  · exact .append hid warnSending_same

/-! ## What is handed to `sendto` -/

def IsUdp (s : Socket θ) : Prop := s.protocol = .udp ∨ s.protocol = .udpv6

theorem IsUdp.ne_tcp (h : IsUdp s) : s.protocol ≠ .tcp := by
  obtain h | h := h <;> rw [h] <;> exact nofun

theorem isUdp_of_address {addr : UdpAddress} (h : s.udpSocketAddress addr = true) : IsUdp s := by
  simp only [udpSocketAddress, Bool.and_eq_true, Bool.or_eq_true, decide_eq_true_eq] at h
  exact h.2

def datagramOf (s : Socket θ) (behind : UdpAddress) (wb : WriteBuffer θ) : Datagram :=
  ⟨s.id, wb.buffer.bytes.drop wb.offset, wb.udpAddress.getD behind⟩

theorem drainUdpSent_mem {behind : UdpAddress} {l : List (WriteBuffer θ)}
    {results : List WriteResult} {d : Datagram} (h : d ∈ s.drainUdpSent behind l results) :
    IsUdp s ∧ ∃ wb ∈ l, d = datagramOf s behind wb := by
  fun_induction drainUdpSent s behind l results with
  | case1 => cases h
  | case2 => cases h
  | case3 wb rest addr haddr datagram n results ih =>
    have hudp : IsUdp s := isUdp_of_address (by simpa using haddr)
    obtain rfl | h := mem_cons.mp h
    · exact ⟨hudp, wb, mem_cons_self, rfl⟩
    · obtain ⟨-, wb', hwb', rfl⟩ := ih h
      exact ⟨hudp, wb', mem_cons_of_mem wb hwb', rfl⟩
  | case4 wb rest results addr haddr =>
    have hudp : IsUdp s := isUdp_of_address (by simpa using haddr)
    obtain rfl := mem_singleton.mp h
    exact ⟨hudp, wb, mem_cons_self, rfl⟩

theorem takeDirect_protocol (s : Socket θ) : s.takeDirect.protocol = s.protocol := by
  unfold takeDirect
  split <;> rfl

theorem sendListUdp_protocol (priority : Priority) (results : List WriteResult) :
    (s.sendListUdp os priority results).1.protocol = s.protocol := by
  cases priority <;> rfl

theorem sendBufferSent_mem {d : Datagram} (h : d ∈ s.sendBufferSent os) :
    IsUdp s ∧ (s.dwBuffer = none → ∃ wb ∈ s.high ++ s.low, d = datagramOf s os.behind wb) := by
  unfold sendBufferSent at h
  split at h
  · cases h
  dsimp only at h
  split at h
  · cases h
  obtain h | h := mem_append.mp h
  · obtain ⟨hudp, wb, hwb, rfl⟩ := drainUdpSent_mem h
    rw [IsUdp, takeDirect_protocol] at hudp
    refine ⟨hudp, fun hdw => ?_⟩
    have htake : s.takeDirect = s := by rw [takeDirect, hdw]
    rw [htake] at hwb ⊢
    exact ⟨wb, mem_append_left _ hwb, rfl⟩
  · split at h
    · obtain ⟨hudp, wb, hwb, rfl⟩ := drainUdpSent_mem h
      rw [IsUdp, sendListUdp_protocol, takeDirect_protocol] at hudp
      refine ⟨hudp, fun hdw => ?_⟩
      have htake : s.takeDirect = s := by rw [takeDirect, hdw]
      rw [htake] at hwb ⊢
      exact ⟨wb, mem_append_right _ hwb, rfl⟩
    · cases h

theorem sendSocketSent_mem {id : ℕ} {d : Datagram}
    (h : d ∈ s.sendSocketSent id b addr) : s.id = id ∧ d = ⟨id, b.bytes, addr.getD s.udpAddress⟩ := by
  unfold sendSocketSent at h
  dsimp only at h
  split at h
  · cases h
  next hdrop =>
  split at h
  · cases h
  split at h
  · refine ⟨?_, mem_singleton.mp h⟩
    by_contra hne
    exact hdrop (.inr (.inl hne))
  · cases h

/-! ## Callers and requests -/

def requestCall : Request θ → List (SendCall θ)
  | .sendSocket i b => [⟨i, b, none⟩]
  | .sendUdp i b addr => [⟨i, b, some addr⟩]
  | _ => []

theorem requestCall_eq_nil {r : Request θ} (h : r.plain = true ∨ r.opens = true) :
    requestCall r = [] := by
  cases r with
  | sendSocket => obtain h | h := h <;> cases h
  | sendUdp => obtain h | h := h <;> cases h
  | resumeSocket | pauseSocket | bindSocket | listenSocket | closeSocket | openSocket
  | triggerWrite | setUdpAddress | addUdpSocket => rfl

def pcCall : SenderPc θ → List (SendCall θ)
  | .direct i b | .incProtocol i b | .incLoad i b | .incCas i b _ => [⟨i, b, none⟩]
  | .udpDirect i b addr => [⟨i, b, some addr⟩]
  | .sendRequest r => requestCall r
  | _ => []

structure CallerKeeps (s s' : Socket θ) : Prop where
  id : s'.id = s.id
  protocol : s'.protocol = s.protocol
  type : s'.type = s.type
  high : s'.high = s.high
  low : s'.low = s.low
  dwBuffer : s.protocol ≠ .tcp → s'.dwBuffer = s.dwBuffer

variable [DecidableEq θ]

/-- Whether a step leaves a datagram that `socket_server_send` has given to `sendto` to the
socket thread. -/
def leavesDatagram (u : DatagramServer θ) : SocketAction θ → Bool
  | .step t ok w =>
    match u.server.pc t with
    | .direct i b =>
      ok && u.server.slot.canDirectWrite i && u.server.slot.protocol ≠ .tcp &&
        u.server.slot.udpSocketAddress u.server.slot.udpAddress &&
          directCount w b ≠ b.bytes.length
    | _ => false
  | _ => false

/-- The steps in which `sendto` takes all of a datagram that `socket_server_send` gives
it. -/
def DirectWhole (u : DatagramServer θ) (a : SocketAction θ) : Prop := leavesDatagram u a = false

instance (u : DatagramServer θ) (a : SocketAction θ) : Decidable (DirectWhole u a) :=
  inferInstanceAs (Decidable (_ = _))

section Steps

variable {k : ℕ} {σ σ' : SocketServer θ} {u : DatagramServer θ}

/-- What a step of the thread `t` does: it goes on with the call it is in, writes its
request to the pipe, and changes nothing on the lists of the slot. -/
structure CallerStep (σ : SocketServer θ) (t : θ) (σ' : SocketServer θ) : Prop where
  pc : ∃ pc, σ'.pc = update σ.pc t pc ∧ ∀ c ∈ pcCall pc, c ∈ pcCall (σ.pc t)
  pipe : ∀ r ∈ σ'.pipe, r ∈ σ.pipe ∨ σ.pc t = .sendRequest r
  slot : CallerKeeps σ.slot σ'.slot

omit [DecidableEq θ] in
theorem CallerKeeps.rfl' {s : Socket θ} : CallerKeeps s s := ⟨rfl, rfl, rfl, rfl, rfl, fun _ => rfl⟩

theorem CallerStep.goto {t : θ} {pc : SenderPc θ} {slot : Socket θ}
    (hpc : ∀ c ∈ pcCall pc, c ∈ pcCall (σ.pc t)) (hslot : CallerKeeps σ.slot slot) :
    CallerStep σ t ((σ.setSlot slot).goto t pc) :=
  ⟨⟨pc, rfl, hpc⟩, fun _ hr => .inl hr, hslot⟩

theorem CallerStep.move {t : θ} {pc : SenderPc θ} (hpc : ∀ c ∈ pcCall pc, c ∈ pcCall (σ.pc t)) :
    CallerStep σ t (σ.goto t pc) :=
  ⟨⟨pc, rfl, hpc⟩, fun _ hr => .inl hr, .rfl'⟩

theorem directWrite_kept {t : θ} {i : ℕ} {b : SendBuffer θ} {w : WriteResult}
    (hwhole : σ.slot.protocol ≠ .tcp ∧ σ.slot.udpSocketAddress σ.slot.udpAddress = true →
      directCount w b = b.bytes.length) :
    CallerStep σ t (σ.directWrite t i b w) := by
  unfold SocketServer.directWrite
  split
  · exact .move nofun
  next haddr =>
  dsimp only
  split
  · refine .goto nofun ?_
    split
    · exact ⟨rfl, rfl, rfl, rfl, rfl, fun _ => rfl⟩
    · exact .rfl'
  next hpart =>
  have htcp : σ.slot.protocol = .tcp := by
    by_contra hudp
    refine hpart (hwhole ⟨hudp, ?_⟩)
    by_contra hbad
    exact haddr ⟨hudp, by simpa using hbad⟩
  rw [if_pos htcp]
  exact .goto nofun ⟨rfl, rfl, rfl, rfl, rfl, fun hudp => absurd htcp hudp⟩

theorem CallerStep.stay {t : θ} : CallerStep σ t σ :=
  ⟨⟨σ.pc t, (update_eq_self t σ.pc).symm, fun _ hc => hc⟩, fun _ hr => .inl hr, .rfl'⟩

theorem callerStep_kept {t : θ} {ok : Bool} {w : WriteResult} (hok : DirectWhole u (.step t ok w))
    (h : u.server.callerStep t ok w = some σ') : CallerStep u.server t σ' := by
  dsimp only [DirectWhole, leavesDatagram] at hok
  unfold callerStep at h
  split at h
  · cases h
  · next i b hpc =>
    rw [hpc] at hok
    cases h
    split
    · next hcan =>
      apply directWrite_kept
      rintro ⟨hudp, haddr⟩
      simpa [hcan.1, hcan.2, hudp, haddr] using hok
    · exact .move (by rw [hpc]; exact fun _ hc => hc)
  · next i b addr hpc =>
    have hsend : CallerStep u.server t (u.server.goto t (.sendRequest (.sendUdp i b addr))) :=
      .move (by rw [hpc]; exact fun _ hc => hc)
    have hidle : CallerStep u.server t (u.server.goto t .idle) := .move nofun
    cases h
    split
    · split
      · exact hidle
      split
      · exact hidle
      · exact hsend
    · exact hsend
  · next i b hpc =>
    have hkeep : ∀ c ∈ pcCall (.incLoad i b), c ∈ pcCall (u.server.pc t) := by
      rw [hpc]
      exact fun _ hc => hc
    cases h
    split
    · exact .move hkeep
    · exact .move hkeep
  · next i b hpc =>
    have hkeep : ∀ c ∈ pcCall (.incLoad i b), c ∈ pcCall (u.server.pc t) := by
      rw [hpc]
      exact fun _ hc => hc
    cases h
    split
    · split
      · exact .stay
      · exact .move hkeep
    · exact .move hkeep
  · next i b v hpc =>
    have hkeep : ∀ c ∈ pcCall (.incLoad i b), c ∈ pcCall (u.server.pc t) := by
      rw [hpc]
      exact fun _ hc => hc
    cases h
    split
    · exact .goto hkeep ⟨rfl, rfl, rfl, rfl, rfl, fun _ => rfl⟩
    · exact .move hkeep
  · cases h
    split
    · exact .move nofun
    split
    · exact .goto nofun ⟨rfl, rfl, rfl, rfl, rfl, fun _ => rfl⟩
    · exact .goto nofun ⟨rfl, rfl, rfl, rfl, rfl, fun _ => rfl⟩
  · next r hpc =>
    cases h
    refine ⟨⟨.idle, rfl, nofun⟩, fun r' hr' => ?_, .rfl'⟩
    obtain hr' | hr' := mem_append.mp (show r' ∈ u.server.pipe ++ [r] from hr')
    · exact .inl hr'
    · rw [mem_singleton.mp hr']
      exact .inr hpc

inductive PollSlot (σ : SocketServer θ) (os : Syscalls) : Socket θ → Prop
  | keep (sending : ℕ) : PollSlot σ os { σ.slot with sending := sending }
  | ctrl {r : Request θ} {rest : List (Request θ)} {slot : Socket θ} {result : SocketResult}
      (sent : σ.sent = none) (checkctrl : σ.checkctrl = true) (pipe : σ.pipe = r :: rest)
      (cmd : σ.slot.ctrlCmd os r = .ok (slot, result)) : PollSlot σ os slot
  | event {e : Event} {slot : Socket θ} {result : SocketResult} {kept : Option Event}
      (dispatch : σ.slot.dispatchEvent os e = .ok (slot, result, kept)) : PollSlot σ os slot

omit [DecidableEq θ] in
theorem ctrlReturn_kept (σ : SocketServer θ) (result : SocketResult) :
    (σ.ctrlReturn result).slot = σ.slot ∧ (σ.ctrlReturn result).pc = σ.pc ∧
      (σ.ctrlReturn result).pipe = σ.pipe := by
  cases result <;> exact ⟨rfl, rfl, rfl⟩

omit [DecidableEq θ] in
theorem poll_kept (σ : SocketServer θ) (os : Syscalls) :
    (σ.poll os).pc = σ.pc ∧ (∀ r ∈ (σ.poll os).pipe, r ∈ σ.pipe) ∧
      PollSlot σ os (σ.poll os).slot := by
  unfold SocketServer.poll
  split
  · next i result hsent =>
    unfold decSendingRef
    split
    · split
      · exact ⟨rfl, fun _ hr => hr, .keep _⟩
      · obtain ⟨hslot, hpc, hpipe⟩ := ctrlReturn_kept
          { σ with slot := { σ.slot with sending := σ.slot.sending - 1 }, sent := none } result
        rw [hslot, hpc, hpipe]
        exact ⟨rfl, fun _ hr => hr, .keep _⟩
    · obtain ⟨hslot, hpc, hpipe⟩ := ctrlReturn_kept { σ with sent := none } result
      rw [hslot, hpc, hpipe]
      exact ⟨rfl, fun _ hr => hr, .keep _⟩
  next hsent =>
  split
  · next hcheck =>
    split
    · exact ⟨rfl, fun _ hr => hr, .keep _⟩
    next r rest hpipe =>
    split
    · exact ⟨rfl, fun _ hr => hr, .keep _⟩
    next slot result hcmd =>
    have hrest (r' : Request θ) (hr' : r' ∈ rest) : r' ∈ σ.pipe := by
      rw [hpipe]
      exact mem_cons_of_mem r hr'
    have hslot := PollSlot.ctrl hsent hcheck hpipe hcmd
    split
    · exact ⟨rfl, hrest, hslot⟩
    · obtain ⟨hslot', hpc, hpipe'⟩ := ctrlReturn_kept { σ with slot := slot, pipe := rest } result
      rw [hslot', hpc, hpipe']
      exact ⟨rfl, hrest, hslot⟩
  · split
    · exact ⟨rfl, fun _ hr => hr, .keep _⟩
    split
    · exact ⟨rfl, fun _ hr => hr, .keep _⟩
    next slot result kept hdispatch => exact ⟨rfl, fun _ hr => hr, .event hdispatch⟩

end Steps

/-! ## Runs -/

/-- The buffer was sent on the socket `i` with this address, or without one while this was
the default address when it was queued. -/
def Addressed (calls : List (SendCall θ)) (defaults : List (DefaultSend θ)) (i : ℕ)
    (b : SendBuffer θ) (addr : UdpAddress) : Prop :=
  ⟨i, b, some addr⟩ ∈ calls ∨ ⟨i, b, none⟩ ∈ calls ∧ ⟨i, b, addr⟩ ∈ defaults

def FromCall (calls : List (SendCall θ)) (defaults : List (DefaultSend θ)) (d : Datagram) : Prop :=
  ∃ b : SendBuffer θ, d.bytes = b.bytes ∧ Addressed calls defaults d.id b d.address

structure SlotAddressed (calls : List (SendCall θ)) (defaults : List (DefaultSend θ))
    (s : Socket θ) : Prop where
  direct : IsUdp s → s.dwBuffer = none
  nodes : IsUdp s → ∀ wb ∈ s.high ++ s.low, wb.offset = 0 ∧
    ∃ addr, wb.udpAddress = some addr ∧ Addressed calls defaults s.id wb.buffer addr

structure DatagramsOk (u : DatagramServer θ) : Prop where
  slot : SlotAddressed u.calls u.defaults u.server.slot
  pc : ∀ t, ∀ c ∈ pcCall (u.server.pc t), c ∈ u.calls
  pipe : ∀ r ∈ u.server.pipe, ∀ c ∈ requestCall r, c ∈ u.calls
  handed : ∀ d ∈ u.handed, FromCall u.calls u.defaults d

structure Destinations (u : DatagramServer θ) : Prop where
  handed : ∀ d ∈ u.handed, FromCall u.calls u.defaults d
  nodes : IsUdp u.server.slot → u.server.slot.dwBuffer = none ∧
    ∀ wb ∈ u.server.slot.high ++ u.server.slot.low, wb.offset = 0 ∧
      ∃ addr, wb.udpAddress = some addr ∧ Addressed u.calls u.defaults u.server.slot.id wb.buffer addr

section Runs

variable {k : ℕ} {u u' : DatagramServer θ} {calls calls' : List (SendCall θ)}
  {defaults defaults' : List (DefaultSend θ)}

omit [DecidableEq θ] in
theorem Addressed.mono {i : ℕ} {b : SendBuffer θ} {addr : UdpAddress} (h : Addressed calls defaults i b addr)
    (hcalls : calls ⊆ calls') (hdefaults : defaults ⊆ defaults') :
    Addressed calls' defaults' i b addr := by
  obtain h | ⟨h, h'⟩ := h
  · exact .inl (hcalls h)
  · exact .inr ⟨hcalls h, hdefaults h'⟩

omit [DecidableEq θ] in
theorem SlotAddressed.mono (h : SlotAddressed calls defaults s) (hcalls : calls ⊆ calls')
    (hdefaults : defaults ⊆ defaults') : SlotAddressed calls' defaults' s := by
  refine ⟨h.direct, fun hudp wb hwb => ?_⟩
  obtain ⟨hoffset, addr, haddr, hsent⟩ := h.nodes hudp wb hwb
  exact ⟨hoffset, addr, haddr, hsent.mono hcalls hdefaults⟩

omit [DecidableEq θ] in
theorem SlotAddressed.fewer (h : SlotAddressed calls defaults s) (hid : s'.id = s.id)
    (hprotocol : s'.protocol = s.protocol) (hfewer : IsUdp s → Fewer s s') :
    SlotAddressed calls defaults s' := by
  have hback (hudp : IsUdp s') : IsUdp s := by
    rw [IsUdp, hprotocol] at hudp
    exact hudp
  refine ⟨fun hudp => ?_, fun hudp wb hwb => ?_⟩
  · exact (hfewer (hback hudp)).dwBuffer (h.direct (hback hudp))
  · rw [hid]
    exact h.nodes (hback hudp) wb ((hfewer (hback hudp)).nodes wb hwb)

omit [DecidableEq θ] in
theorem SlotAddressed.of_noData (h : NoData s) : SlotAddressed calls defaults s :=
  ⟨fun _ => h.2.2, fun _ wb hwb => by rw [h.1, h.2.1] at hwb; cases hwb⟩

omit [DecidableEq θ] in
theorem SlotAddressed.of_protocol (h : s.protocol = .unknown) : SlotAddressed calls defaults s := by
  have hnot : ¬IsUdp s := by
    rw [IsUdp, h]
    exact not_or.mpr ⟨nofun, nofun⟩
  exact ⟨fun hudp => absurd hudp hnot, fun hudp => absurd hudp hnot⟩

omit [DecidableEq θ] in
theorem SlotAddressed.queues {i : ℕ} {b : SendBuffer θ} {addr : UdpAddress}
    (h : SlotAddressed calls defaults s) (hframe : Frame s s') (hq : IsUdp s → Queues i b addr s s')
    (hsent : s.id = i → Addressed calls defaults i b addr) : SlotAddressed calls defaults s' := by
  have hback (hudp : IsUdp s') : IsUdp s := by
    rw [IsUdp, hframe.protocol] at hudp
    exact hudp
  refine ⟨fun hudp => ?_, fun hudp wb hwb => ?_⟩
  · exact (hq (hback hudp)).dwBuffer.trans (h.direct (hback hudp))
  · obtain hold | ⟨hid, rfl⟩ := (hq (hback hudp)).nodes wb hwb
    · rw [hframe.id]
      exact h.nodes (hback hudp) wb hold
    · rw [hframe.id, hid]
      exact ⟨rfl, addr, rfl, hsent hid⟩

omit [DecidableEq θ] in
theorem SlotAddressed.ctrl {r : Request θ} (h : SlotAddressed calls defaults s)
    (hcall : ∀ c ∈ requestCall r, c ∈ calls)
    (hdefault : ∀ i b, r = .sendSocket i b → s.id = i → ⟨i, b, s.udpAddress⟩ ∈ defaults)
    (hcmd : s.ctrlCmd os r = .ok (s', result)) : SlotAddressed calls defaults s' := by
  cases hopens : r.opens with
  | true =>
    obtain ⟨-, hopened⟩ | ⟨rfl, -⟩ := ctrlCmd_opened hopens hcmd
    · cases hopened with
      | failed hreserved hframe htype hbuffers =>
        exact h.fewer hframe.id hframe.protocol fun _ => .of_same hbuffers
      | opened hnew => exact .of_noData hnew.nodata
    · exact h.fewer rfl rfl fun _ => .of_same ⟨rfl, rfl, rfl, rfl, rfl, rfl⟩
  | false =>
    have hframe : Frame s s' := by
      obtain heffect | ⟨-, -, -, hdeferred⟩ := ctrlCmd_effect (d := false) hopens hcmd
      · exact heffect.frame
      · exact hdeferred.frame
    cases r with
    | sendSocket i b =>
      obtain ⟨rfl, -⟩ := Prod.mk.inj (Except.ok.inj hcmd)
      refine h.queues hframe (fun hudp => sendSocket_queues hudp.ne_tcp) fun hid => .inr ?_
      exact ⟨hcall _ mem_cons_self, hdefault i b rfl hid⟩
    | sendUdp i b addr =>
      obtain ⟨rfl, -⟩ := Prod.mk.inj (Except.ok.inj hcmd)
      refine h.queues hframe (fun hudp => sendSocket_queues hudp.ne_tcp) fun hid => .inl ?_
      exact hcall _ mem_cons_self
    | resumeSocket | pauseSocket | closeSocket | triggerWrite | setUdpAddress =>
      exact h.fewer hframe.id hframe.protocol fun _ => ctrlCmd_fewer hopens nofun nofun hcmd
    | bindSocket | listenSocket | openSocket | addUdpSocket => cases hopens

theorem pcCall_update {pcs : θ → SenderPc θ} {pc : SenderPc θ} {t : θ} {calls : List (SendCall θ)}
    (h : ∀ t, ∀ c ∈ pcCall (pcs t), c ∈ calls) (hpc : ∀ c ∈ pcCall pc, c ∈ calls) :
    ∀ t', ∀ c ∈ pcCall (update pcs t pc t'), c ∈ calls := by
  intro t' c hc
  by_cases ht : t' = t
  · subst ht
    rw [update_self] at hc
    exact hpc c hc
  · rw [update_of_ne ht] at hc
    exact h t' c hc

variable {a : SocketAction θ}

omit [DecidableEq θ] in
/-- **Handing over.** What a step hands to `sendto` is from one call. -/
theorem DatagramsOk.fromCall (h : DatagramsOk u) (hcalls : u.calls ⊆ calls)
    (hdefaults : u.defaults ++ u.server.defaults a ⊆ defaults) {d : Datagram}
    (hd : d ∈ u.server.datagrams a) : FromCall calls defaults d := by
  have hdefault {x : DefaultSend θ} (hx : x ∈ u.server.defaults a) : x ∈ defaults :=
    hdefaults (mem_append_right _ hx)
  cases a with
  | step t ok w =>
    have hpcs := h.pc t
    simp only [datagrams, callerSent] at hd
    simp only [SocketServer.defaults] at hdefault
    split at hd
    · next i b hpc =>
      rw [hpc] at hpcs hdefault
      split at hd
      · next hcan =>
        simp only [Bool.and_eq_true] at hcan
        obtain rfl := mem_singleton.mp hd
        refine ⟨b, rfl, .inr ⟨hcalls (hpcs _ mem_cons_self), hdefault ?_⟩⟩
        simp [hcan.1.1]
      · cases hd
    · next i b addr hpc =>
      rw [hpc] at hpcs
      split at hd
      · obtain rfl := mem_singleton.mp hd
        exact ⟨b, rfl, .inl (hcalls (hpcs _ mem_cons_self))⟩
      · cases hd
    · cases hd
  | poll os =>
    simp only [datagrams, pollSent] at hd
    simp only [SocketServer.defaults] at hdefault
    split at hd
    · next i b rest hsent hcheck hpipe =>
      obtain ⟨hid, rfl⟩ := sendSocketSent_mem hd
      rw [hsent, hcheck, hpipe] at hdefault
      have hcall := h.pipe _ (hpipe ▸ mem_cons_self) _ mem_cons_self
      refine ⟨b, rfl, .inr ⟨hcalls hcall, hdefault ?_⟩⟩
      simp [hid]
    · next i b addr rest hsent hcheck hpipe =>
      obtain ⟨hid, rfl⟩ := sendSocketSent_mem hd
      have hcall := h.pipe _ (hpipe ▸ mem_cons_self) _ mem_cons_self
      exact ⟨b, rfl, .inl (hcalls hcall)⟩
    · split at hd
      · cases hd
      · cases hd
      · cases hd
      split at hd
      · obtain ⟨hudp, hnode⟩ := sendBufferSent_mem hd
        obtain ⟨wb, hwb, rfl⟩ := hnode (h.slot.direct hudp)
        obtain ⟨hoffset, addr, haddr, hsent⟩ := h.slot.nodes hudp wb hwb
        refine ⟨wb.buffer, by rw [datagramOf, hoffset, drop_zero], ?_⟩
        rw [datagramOf, haddr]
        exact hsent.mono hcalls fun x hx => hdefaults (mem_append_left _ hx)
      · cases hd
    · cases hd
  | reserve | request | send | sendLowpriority | udpSend | udpConnect | accept => cases hd

def isCall : SocketAction θ → Bool
  | .request .. | .send .. | .sendLowpriority .. | .udpSend .. | .udpConnect .. => true
  | _ => false

structure Begins (σ σ' : SocketServer θ) (calls : List (SendCall θ)) : Prop where
  slot : σ'.slot = σ.slot
  pipe : σ'.pipe = σ.pipe
  pc : σ'.pc = σ.pc ∨ ∃ t pc, σ'.pc = update σ.pc t pc ∧ ∀ c ∈ pcCall pc, c ∈ calls

theorem begins_of_next {σ σ' : SocketServer θ}
    (hnext : socketNext k σ a = some σ') (hcall : isCall a = true) : Begins σ σ' a.call := by
  cases a with
  | step | poll | reserve | accept => cases hcall
  | request t r =>
    simp only [socketNext] at hnext
    split at hnext
    · obtain ⟨⟨hplain, -⟩, rfl⟩ := ite_some_none_eq_some.mp hnext
      refine ⟨rfl, rfl, .inr ⟨t, _, rfl, fun c hc => ?_⟩⟩
      rw [pcCall, requestCall_eq_nil (.inl hplain)] at hc
      cases hc
    · cases hnext
  | send t id kind bytes =>
    simp only [socketNext] at hnext
    split at hnext
    · obtain ⟨-, rfl⟩ := ite_some_none_eq_some.mp hnext
      split
      · exact ⟨rfl, rfl, .inl rfl⟩
      · exact ⟨rfl, rfl, .inr ⟨t, _, rfl, fun c hc => hc⟩⟩
    · cases hnext
  | sendLowpriority t id kind bytes =>
    simp only [socketNext] at hnext
    split at hnext
    · obtain ⟨-, rfl⟩ := ite_some_none_eq_some.mp hnext
      split
      · exact ⟨rfl, rfl, .inl rfl⟩
      · exact ⟨rfl, rfl, .inr ⟨t, _, rfl, fun c hc => hc⟩⟩
    · cases hnext
  | udpSend t id kind bytes addr =>
    simp only [socketNext] at hnext
    split at hnext
    · obtain ⟨-, rfl⟩ := ite_some_none_eq_some.mp hnext
      split
      · exact ⟨rfl, rfl, .inl rfl⟩
      · exact ⟨rfl, rfl, .inr ⟨t, _, rfl, fun c hc => hc⟩⟩
    · cases hnext
  | udpConnect t id addr =>
    simp only [socketNext] at hnext
    split at hnext
    · obtain ⟨-, rfl⟩ := ite_some_none_eq_some.mp hnext
      split
      · exact ⟨rfl, rfl, .inl rfl⟩
      · exact ⟨rfl, rfl, .inr ⟨t, _, rfl, by rintro _ ⟨⟩⟩⟩
    · cases hnext

/-- **Step.** Every step keeps the invariant, unless it leaves a datagram to the socket
thread. -/
theorem DatagramsOk.step (h : DatagramsOk u) (hok : DirectWhole u a)
    (hnext : (datagramMachine k).next u a = some u') : DatagramsOk u' := by
  obtain ⟨σ', hσ, rfl⟩ := map_eq_some_iff.mp hnext
  have hcalls : u.calls ⊆ u.calls ++ a.call := subset_append_left _ _
  have hdefaults : u.defaults ⊆ u.defaults ++ u.server.defaults a := subset_append_left _ _
  have hhanded : ∀ d ∈ u.handed ++ u.server.datagrams a,
      FromCall (u.calls ++ a.call) (u.defaults ++ u.server.defaults a) d := by
    intro d hd
    obtain hd | hd := mem_append.mp hd
    · obtain ⟨b, hbytes, hsent⟩ := h.handed d hd
      exact ⟨b, hbytes, hsent.mono hcalls hdefaults⟩
    · exact h.fromCall hcalls (Subset.refl _) hd
  have hslot : SlotAddressed (u.calls ++ a.call) (u.defaults ++ u.server.defaults a)
      u.server.slot := h.slot.mono hcalls hdefaults
  have hpcs : ∀ t, ∀ c ∈ pcCall (u.server.pc t), c ∈ u.calls ++ a.call :=
    fun t c hc => hcalls (h.pc t c hc)
  have hpipe : ∀ r ∈ u.server.pipe, ∀ c ∈ requestCall r, c ∈ u.calls ++ a.call :=
    fun r hr c hc => hcalls (h.pipe r hr c hc)
  cases a with
  | step t ok w =>
    obtain ⟨-, hcaller⟩ := ite_none_right_eq_some.mp hσ
    obtain ⟨⟨pc, hpc, hkeep⟩, hpushed, hkept⟩ := callerStep_kept hok hcaller
    refine ⟨?_, ?_, fun r hr c hc => ?_, hhanded⟩
    · refine hslot.fewer hkept.id hkept.protocol fun hudp => ⟨fun wb hwb => ?_, fun hdw => ?_⟩
      · rwa [hkept.high, hkept.low] at hwb
      · exact (hkept.dwBuffer hudp.ne_tcp).trans hdw
    · rw [hpc]
      exact pcCall_update hpcs fun c hc => hpcs t c (hkeep c hc)
    · obtain hr | hr := hpushed r hr
      · exact hpipe r hr c hc
      · exact hpcs t c (by rw [hr]; exact hc)
  | poll os =>
    obtain ⟨-, rfl⟩ := ite_some_none_eq_some.mp hσ
    obtain ⟨hpc, hrest, hround⟩ := poll_kept u.server os
    refine ⟨?_, ?_, fun r hr => hpipe r (hrest r hr), hhanded⟩
    · generalize (u.server.poll os).slot = slot at hround ⊢
      cases hround with
      | keep sending => exact hslot.fewer rfl rfl fun _ => .of_same ⟨rfl, rfl, rfl, rfl, rfl, rfl⟩
      | ctrl hsent hcheck hhead hcmd =>
        refine hslot.ctrl (hpipe _ (hhead ▸ mem_cons_self)) ?_ hcmd
        rintro i b rfl hid
        simp [SocketServer.defaults, hsent, hcheck, hhead, hid]
      | event hdispatch =>
        have hframe := (dispatchEvent_effect hdispatch).frame
        exact hslot.fewer hframe.id hframe.protocol fun hudp =>
          dispatchEvent_fewer hudp.ne_tcp (h.slot.direct hudp) hdispatch
    · rw [hpc]
      exact hpcs
  | reserve t r =>
    simp only [socketNext] at hσ
    split at hσ
    · obtain ⟨⟨-, hopens, -⟩, rfl⟩ := ite_some_none_eq_some.mp hσ
      refine ⟨?_, pcCall_update hpcs fun c hc => ?_, hpipe, hhanded⟩
      · exact .of_protocol rfl
      · rw [pcCall, requestCall_eq_nil (.inr hopens)] at hc
        cases hc
    · cases hσ
  | accept os id owner =>
    obtain ⟨-, rfl⟩ := ite_some_none_eq_some.mp hσ
    split
    · exact ⟨hslot, hpcs, hpipe, hhanded⟩
    · next slot hopened =>
      refine ⟨?_, hpcs, hpipe, hhanded⟩
      cases acceptInto_ok hopened with
      | failed hreserved hframe =>
        exact .of_protocol hframe.protocol
      | opened hnew => exact .of_noData hnew.nodata
  | request | send | sendLowpriority | udpSend | udpConnect =>
    obtain ⟨hsame, hpipe', hpc⟩ := begins_of_next hσ rfl
    refine ⟨?_, ?_, ?_, hhanded⟩
    · rw [hsame]
      exact hslot
    · obtain hpc | ⟨t, pc, hpc, hcall⟩ := hpc
      · rw [hpc]
        exact hpcs
      · rw [hpc]
        exact pcCall_update hpcs fun c hc => mem_append_right _ (hcall c hc)
    · rw [hpipe']
      exact hpipe

/-- **Destinations of datagrams.** In every run in which `sendto` takes all that
`socket_server_send` gives it, every datagram handed to `sendto` carries the exact buffer
of one call and goes to the address given with that call, or to the default address of
the socket when it was queued if none was given; and every node on the lists of a udp
socket was made with such an address.
SRC: socket_server.c:777-808, 919-985, 1803-1873, 2082-2142 -/
theorem udp_destinations (h : (datagramMachine k).Reach DirectWhole u) : Destinations u := by
  have hok : DatagramsOk u := by
    refine h.invariant (fun u hstart => ?_) fun u a u' hu hok hnext => hu.step hok hnext
    subst hstart
    exact ⟨.of_noData ⟨rfl, rfl, rfl⟩, fun _ => nofun, nofun, nofun⟩
  exact ⟨hok.handed, fun hudp => ⟨hok.slot.direct hudp, hok.slot.nodes hudp⟩⟩

end Runs

/-! ## A datagram that the kernel does not take at once -/

def defaultAddress : UdpAddress := ⟨.udp, [0, 53, 10, 0, 0, 1], Protocol.udp_known⟩

def strayAddress : UdpAddress := ⟨.udp, [8, 0, 1, 2, 3, 4], Protocol.udp_known⟩

/-- A udp socket is opened with the id 1 and given a default address, and a service sends
two bytes on it. -/
def udpSend : List (SocketAction Unit) :=
  [.reserve () (.addUdpSocket 1 0 false), .step () true .again, .poll {},
    .udpConnect () 1 (some defaultAddress), .step () true .again, .step () true .again, .poll {},
    .send () 1 .memory [1, 2]]

def writeEvent (os : Syscalls) : List (SocketAction Unit) :=
  [.poll {}, .poll { events := [⟨false, true, false, false⟩] }, .poll {}, .poll os]

def records (u : DatagramServer Unit) :
    List (SendCall Unit) × List (DefaultSend Unit) × List Datagram :=
  (u.calls, u.defaults, u.handed)

/-- **A datagram astray.** The `sendto` of `socket_server_send` would block, so the buffer
is left to the socket thread, which takes its address from whatever lies behind the node.
SRC: socket_server.c:777-808, 923-940, 1844-1850 -/
theorem datagram_astray : ∃ u : DatagramServer Unit, (datagramMachine 1).Reachable u ∧
    (⟨1, [1, 2], strayAddress⟩ : Datagram) ∈ u.handed ∧ ¬Destinations u := by
  have hrun : ((datagramMachine 1).run ⟨.create .fresh [], [], [], []⟩ (udpSend ++
      [.step () true .again, .step () true .again, .poll {}] ++
      writeEvent { behind := strayAddress, writeHigh := [.wrote 2] })).map records =
        some ([⟨1, ⟨(), .high, .memory, [1, 2]⟩, none⟩],
          [⟨1, ⟨(), .high, .memory, [1, 2]⟩, defaultAddress⟩],
          [⟨1, [1, 2], defaultAddress⟩, ⟨1, [1, 2], strayAddress⟩]) := rfl
  obtain ⟨u, hu, hrecords⟩ := map_eq_some_iff.mp hrun
  obtain ⟨hcalls, hrest⟩ := Prod.mk.inj hrecords
  obtain ⟨hdefaults, hhanded⟩ := Prod.mk.inj hrest
  have hstray : (⟨1, [1, 2], strayAddress⟩ : Datagram) ∈ u.handed := by simp [hhanded]
  refine ⟨u, Machine.Reachable.run (.start rfl) hu, hstray, fun hdest => ?_⟩
  obtain ⟨b, hb, hcall | ⟨hcall, hdefault⟩⟩ := hdest.handed _ hstray
  · rw [hcalls] at hcall
    simp at hcall
  · rw [hdefaults] at hdefault
    simp [strayAddress, defaultAddress] at hdefault

def udpQueued : List (SocketAction Unit) :=
  udpSend ++ [.step () true (.wrote 2), .sendLowpriority () 1 .memory [3],
    .step () true .again, .step () true .again, .poll { sendto := .again }, .poll {}] ++
  [.udpSend () 1 .rawpointer [4] strayAddress, .step () false .again, .step () true .again,
    .poll {}] ++
  writeEvent { writeHigh := [.wrote 1], writeLow := [.wrote 1] }

theorem udp_destinations_queued : ∃ u : DatagramServer Unit,
    (datagramMachine 1).runOk DirectWhole ⟨.create .fresh [], [], [], []⟩ udpQueued = some u ∧
      u.handed.length = 4 ∧ Destinations u := by
  have hrun : ((datagramMachine 1).runOk DirectWhole ⟨.create .fresh [], [], [], []⟩
      udpQueued).map (fun u => u.handed.length) = some 4 := rfl
  obtain ⟨u, hu, hlength⟩ := map_eq_some_iff.mp hrun
  exact ⟨u, hu, hlength, udp_destinations (Machine.Reach.runOk (.start rfl) hu)⟩

end Skynet.Analysis
