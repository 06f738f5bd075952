import Skynet.Analysis.SocketEvents

/-!
# What one step does to the server

Every step of `socketNext` is one of a dozen: a caller goes on, posts a request, counts
itself, writes directly or writes to the pipe; a slot is reserved; the socket thread
takes a request, uncounts one or takes an event.  `Stepped` says what each does to what
the invariants of the server speak of.
-/

namespace Skynet.Analysis

open Model Option Function

variable {θ : Type}

def request? : SenderPc θ → Option (Request θ)
  | .sendRequest r => some r
  | _ => none

def callId? : SenderPc θ → Option ℕ
  | .idle => none
  | .direct id _ | .udpDirect id _ _ | .incProtocol id _ | .incLoad id _ | .incCas id _ _
  | .udpConnect id _ => some id
  | .sendRequest r => some r.id

def sendsUdp : SenderPc θ → Bool
  | .udpDirect _ _ _ | .sendRequest (.sendUdp _ _ _) => true
  | _ => false

/-- The buffer a caller has passed to the server and has neither written nor sent a
request for. -/
def carried : SenderPc θ → List (SendBuffer θ)
  | .direct _ b | .incProtocol _ b | .incLoad _ b | .incCas _ b _
  | .sendRequest (.sendSocket _ b) => [b]
  | _ => []

def callsUdp : SocketAction θ → Bool
  | .udpSend _ _ _ _ _ => true
  | _ => false

/-- A slot of which a caller has changed nothing but what it has written and
`udpconnecting`. -/
structure Untouched (s s' : Socket θ) : Prop where
  frame : Frame s s'
  state : SameState s s'
  high : s'.high = s.high
  low : s'.low = s.low
  dwBuffer : s'.dwBuffer = s.dwBuffer

theorem Untouched.rfl' {s : Socket θ} : Untouched s s :=
  ⟨⟨rfl, rfl, rfl⟩, ⟨rfl, rfl, rfl⟩, rfl, rfl, rfl⟩

variable [DecidableEq θ]

/-- What a caller that goes on does with its buffer. -/
inductive Carries (s : SocketServer θ) (t : θ) (pc : SenderPc θ) :
    Socket θ → (θ → List (SendBuffer θ)) → Prop
  /-- It keeps it. -/
  | keep {slot : Socket θ} (buffers : SameBuffers s.slot slot)
      (same : carried pc = carried (s.pc t)) : Carries s t pc slot s.accepted
  /-- It gets one from the service. -/
  | take {b : SendBuffer θ} (before : carried (s.pc t) = []) (after : carried pc = [b])
      (own : b.thread = t) :
      Carries s t pc s.slot (update s.accepted t (s.accepted t ++ [b]))
  /-- It writes it whole. -/
  | whole {id : ℕ} {b : SendBuffer θ} (before : s.pc t = .direct id b)
      (can : s.slot.canDirectWrite id = true) (after : carried pc = []) :
      Carries s t pc { s.slot with
        written := s.slot.written ++ b.bytes, done := s.slot.done ++ [b] } s.accepted
  /-- It drops or sends a datagram. -/
  | datagram {slot : Socket θ} (udp : s.slot.protocol ≠ .tcp) : Carries s t pc slot s.accepted

/-- What a step does. -/
inductive Stepped (k : ℕ) (s : SocketServer θ) : SocketAction θ → SocketServer θ → Prop
  /-- A call returns at once, or waits. -/
  | stay {a : SocketAction θ} : Stepped k s a s
  /-- A caller goes on without a request. -/
  | move {a : SocketAction θ} {t : θ} {pc : SenderPc θ} {slot : Socket θ}
      {accepted : θ → List (SendBuffer θ)} (slotSame : Untouched s.slot slot)
      (before : request? (s.pc t) = none) (after : request? pc = none)
      (id : ∀ id, callId? pc = some id → callId? (s.pc t) = some id ∨ id ∈ s.issued)
      (cas : ∀ id b v, pc = .incCas id b v → v >>> 16 = idTag16 id ∧ v &&& 0xffff ≠ 0xffff)
      (carries : Carries s t pc slot accepted) (udp : sendsUdp pc = true → callsUdp a = true) :
      Stepped k s a { s with
        slot := slot, pc := update s.pc t pc, accepted := accepted }
  /-- A caller has a request that is not counted. -/
  | post {a : SocketAction θ} {t : θ} {r : Request θ} {slot : Socket θ}
      (slotSame : Untouched s.slot slot) (before : request? (s.pc t) = none)
      (opens : r.opens = false) (id : callId? (s.pc t) = some r.id ∨ r.id ∈ s.issued)
      (uncounted : ∀ id b, r = .sendSocket id b →
        s.slot.protocol ≠ .tcp ∨ s.slot.sending >>> 16 ≠ idTag16 id)
      (buffers : SameBuffers s.slot slot) (same : carried (.sendRequest r) = carried (s.pc t))
      (udp : sendsUdp (.sendRequest r) = sendsUdp (s.pc t)) :
      Stepped k s a { s with slot := slot, pc := update s.pc t (.sendRequest r) }
  /-- A caller has counted its request. -/
  | count {a : SocketAction θ} {t : θ} {id : ℕ} {b : SendBuffer θ}
      (before : s.pc t = .incCas id b s.slot.sending) :
      Stepped k s a { s with
        slot := { s.slot with sending := s.slot.sending + 1 }
        pc := update s.pc t (.sendRequest (.sendSocket id b)) }
  /-- A direct write has left something for the socket thread. -/
  | direct {a : SocketAction θ} {t : θ} {id n : ℕ} {b : SendBuffer θ} {written : List UInt8}
      (before : s.pc t = .direct id b) (can : s.slot.canDirectWrite id = true)
      (tcp : s.slot.protocol = .tcp → written = s.slot.written ++ b.bytes.take n) :
      Stepped k s a { s with
        slot := { s.slot with written := written, dwBuffer := some b, dwOffset := n }
        pc := update s.pc t (.sendRequest (.triggerWrite id)) }
  /-- A request is written to the pipe. -/
  | push {a : SocketAction θ} {t : θ} {r : Request θ} (before : s.pc t = .sendRequest r) :
      Stepped k s a { s with
        pipe := s.pipe ++ [r], issued := if r.opens then r.id :: s.issued else s.issued
        pc := update s.pc t .idle }
  /-- A caller has reserved the slot. -/
  | reserve {t : θ} {r : Request θ} (before : s.pc t = .idle) (free : s.slot.type = .invalid)
      (opens : r.opens = true) (slotId : SlotId k r.id) :
      Stepped k s (.reserve t r) { s with
        slot := s.slot.reserveId r.id, used := r.id :: s.used
        pc := update s.pc t (.sendRequest r) }
  /-- A connection has been accepted into the slot. -/
  | accept {os : Syscalls} {id owner : ℕ} {slot : Socket θ} {issued : List ℕ}
      (free : s.slot.type = .invalid) (slotId : SlotId k id)
      (opened : Opened os (s.slot.reserveId id) id .tcp slot none)
      (given : issued = s.issued ∨ issued = id :: s.issued) :
      Stepped k s (.accept os id owner) { s with
        slot := slot, used := id :: s.used, issued := issued }
  /-- The process aborts. -/
  | halt {a : SocketAction θ} {f : ServerFault}
      (why : f = .noSendingRef → ∃ id result, s.sent = some (id, result) ∧ s.slot.id = id ∧
        s.slot.protocol = .tcp ∧ s.slot.sending &&& 0xffff = 0) :
      Stepped k s a (s.halt f)
  /-- The socket thread looks for requests or events. -/
  | look {os : Syscalls} {events : List Event} {checkctrl : Bool} :
      Stepped k s (.poll os) { s with events := events, checkctrl := checkctrl }
  /-- The socket thread has taken a request. -/
  | ctrl {os : Syscalls} {r : Request θ} {pipe : List (Request θ)} {slot : Socket θ}
      {result : SocketResult} {events : List Event} (sent : s.sent = none)
      (pipe_eq : s.pipe = r :: pipe) (checkctrl : s.checkctrl = true)
      (cmd : s.slot.ctrlCmd os r = .ok (slot, result))
      (other : ∀ id b, r ≠ .sendSocket id b) :
      Stepped k s (.poll os) { s with
        slot := slot, pipe := pipe, events := events, returned := s.returned ++ result.toList }
  /-- The socket thread has taken a counted request. -/
  | send {os : Syscalls} {id : ℕ} {b : SendBuffer θ} {pipe : List (Request θ)}
      (sent : s.sent = none) (pipe_eq : s.pipe = .sendSocket id b :: pipe) :
      Stepped k s (.poll os) { s with
        slot := (s.slot.sendSocket os id b none).1, pipe := pipe
        sent := some (id, (s.slot.sendSocket os id b none).2) }
  /-- The socket thread has uncounted a request of the socket. -/
  | uncount {os : Syscalls} {id : ℕ} {result : SocketResult} {events : List Event}
      (sent : s.sent = some (id, result)) (own : s.slot.id = id) (tcp : s.slot.protocol = .tcp)
      (counted : s.slot.sending &&& 0xffff ≠ 0) :
      Stepped k s (.poll os) { s with
        slot := { s.slot with sending := s.slot.sending - 1 }, sent := none
        events := events, returned := s.returned ++ result.toList }
  /-- The socket thread is done with a request of another socket. -/
  | skip {os : Syscalls} {id : ℕ} {result : SocketResult} {events : List Event}
      (sent : s.sent = some (id, result)) (other : s.slot.id = id → s.slot.protocol ≠ .tcp) :
      Stepped k s (.poll os) { s with
        sent := none, events := events, returned := s.returned ++ result.toList }
  /-- The socket thread has taken an event. -/
  | event {os : Syscalls} {e : Event} {rest events : List Event} {slot : Socket θ}
      {result : SocketResult} {kept : Option Event} {again : Bool} (sent : s.sent = none)
      (events_eq : s.dueEvents os = e :: rest) (checkctrl : s.checkctrl = false)
      (dispatch : s.slot.dispatchEvent os e = .ok (slot, result, kept)) :
      Stepped k s (.poll os) { s with
        slot := slot, events := events, checkctrl := again
        returned := s.returned ++ result.toList }

/-! ## Inversion -/

variable {k : ℕ} {s s' : SocketServer θ}

omit [DecidableEq θ] in
theorem ctrlReturn_eq (s : SocketServer θ) (result : SocketResult) : ∃ events,
    s.ctrlReturn result = { s with events := events, returned := s.returned ++ result.toList } := by
  cases result with
  | none => exact ⟨s.events, by simp [SocketServer.ctrlReturn]⟩
  | some r => exact ⟨_, rfl⟩

theorem poll_cases (k : ℕ) (s : SocketServer θ) (os : Syscalls) :
    Stepped k s (.poll os) (s.poll os) := by
  unfold SocketServer.poll
  split
  · next id result hsent =>
    unfold SocketServer.decSendingRef
    split
    · next hown =>
      split
      · next hzero => exact .halt fun _ => ⟨id, result, hsent, hown.1, hown.2, hzero⟩
      · next hcount =>
        obtain ⟨events, heq⟩ := ctrlReturn_eq
          { s with slot := { s.slot with sending := s.slot.sending - 1 }, sent := none } result
        exact (congrArg (Stepped k s (.poll os)) heq).mpr (.uncount hsent hown.1 hown.2 hcount)
    · next hother =>
      obtain ⟨events, heq⟩ := ctrlReturn_eq { s with sent := none } result
      exact (congrArg (Stepped k s (.poll os)) heq).mpr
        (.skip hsent fun hid htcp => hother ⟨hid, htcp⟩)
  next hsent =>
  split
  · next hcheck =>
    split
    · exact .look
    next r pipe hpipe =>
    split
    · exact .halt nofun
    next slot result hcmd =>
    split
    · next id b =>
      obtain ⟨rfl, rfl⟩ : (s.slot.sendSocket os id b none).1 = slot ∧
          (s.slot.sendSocket os id b none).2 = result := Prod.mk.inj (Except.ok.inj hcmd)
      exact .send hsent hpipe
    · next hother =>
      obtain ⟨events, heq⟩ := ctrlReturn_eq { s with slot := slot, pipe := pipe } result
      exact (congrArg (Stepped k s (.poll os)) heq).mpr
        (.ctrl hsent hpipe hcheck hcmd fun id b hr => hother id b hr)
  · next hcheck =>
    split
    · exact .look
    next e rest hevents =>
    split
    · exact .halt nofun
    next slot result kept hdispatch =>
    exact .event hsent hevents (Bool.not_eq_true _ ▸ hcheck) hdispatch

theorem directWrite_cases (k : ℕ) (s : SocketServer θ) (a : SocketAction θ) {t : θ} {id : ℕ}
    {b : SendBuffer θ} {w : WriteResult} (hpc : s.pc t = .direct id b)
    (hcan : s.slot.canDirectWrite id = true) : Stepped k s a (s.directWrite t id b w) := by
  have hbefore : request? (s.pc t) = none := by rw [hpc]; rfl
  unfold SocketServer.directWrite
  split
  · next hdrop => exact .move .rfl' hbefore rfl nofun nofun (.datagram hdrop.1) nofun
  dsimp only
  split
  · next hwhole =>
    refine .move ?_ hbefore rfl nofun nofun ?_ nofun
    · split
      · exact ⟨⟨rfl, rfl, rfl⟩, ⟨rfl, rfl, rfl⟩, rfl, rfl, rfl⟩
      · exact .rfl'
    · split
      · rw [hwhole, List.take_length]
        exact .whole hpc hcan rfl
      · next hudp => exact .datagram hudp
  · split
    · exact .direct hpc hcan fun _ => rfl
    · next hudp =>
      exact .direct hpc hcan fun htcp => absurd htcp hudp

theorem callerStep_cases (k : ℕ) (a : SocketAction θ) {t : θ} {ok : Bool} {w : WriteResult}
    (h : s.callerStep t ok w = some s') : Stepped k s a s' := by
  unfold SocketServer.callerStep at h
  split at h
  · cases h
  · next id b hpc =>
    cases h
    split
    · next hcan => exact directWrite_cases k s a hpc hcan.2
    · exact .move .rfl' (by rw [hpc]; rfl) rfl (fun i hi => .inl (hpc ▸ hi)) nofun
        (.keep .rfl' (by rw [hpc]; rfl)) nofun
  · next id b addr hpc =>
    have hbefore : request? (s.pc t) = none := by rw [hpc]; rfl
    have hid : callId? (s.pc t) = some (Request.sendUdp id b addr).id := by rw [hpc]; rfl
    have hkeep : Carries s t .idle s.slot s.accepted := .keep .rfl' (by rw [hpc]; rfl)
    have hsame : carried (.sendRequest (.sendUdp id b addr)) = carried (s.pc t) := by rw [hpc]; rfl
    have hudp : sendsUdp (.sendRequest (.sendUdp id b addr)) = sendsUdp (s.pc t) := by
      rw [hpc]; rfl
    cases h
    split
    · split
      · exact .move .rfl' hbefore rfl nofun nofun hkeep nofun
      split
      · exact .move .rfl' hbefore rfl nofun nofun hkeep nofun
      · exact .post .rfl' hbefore rfl (.inl hid) nofun .rfl' hsame hudp
    · exact .post .rfl' hbefore rfl (.inl hid) nofun .rfl' hsame hudp
  · next id b hpc =>
    have hbefore : request? (s.pc t) = none := by rw [hpc]; rfl
    cases h
    split
    · next htcp =>
      exact .post .rfl' hbefore rfl (.inl (by rw [hpc]; rfl)) (fun id' b' hr => .inl htcp) .rfl'
        (by rw [hpc]; rfl) (by rw [hpc]; rfl)
    · exact .move .rfl' hbefore rfl (fun i hi => .inl (hpc ▸ hi)) nofun
        (.keep .rfl' (by rw [hpc]; rfl)) nofun
  · next id b hpc =>
    have hbefore : request? (s.pc t) = none := by rw [hpc]; rfl
    cases h
    split
    · next htag =>
      split
      · exact .stay
      · next hmax =>
        refine .move .rfl' hbefore rfl (fun i hi => .inl (hpc ▸ hi)) ?_
          (.keep .rfl' (by rw [hpc]; rfl)) nofun
        rintro id' b' v ⟨rfl⟩
        exact ⟨htag, hmax⟩
    · next htag =>
      refine .post .rfl' hbefore rfl (.inl (by rw [hpc]; rfl)) ?_ .rfl' (by rw [hpc]; rfl)
        (by rw [hpc]; rfl)
      rintro id' b' ⟨rfl⟩
      exact .inr htag
  · next id b v hpc =>
    cases h
    split
    · next hcas =>
      obtain ⟨-, rfl⟩ := hcas
      exact .count hpc
    · exact .move .rfl' (by rw [hpc]; rfl) rfl (fun i hi => .inl (hpc ▸ hi)) nofun
        (.keep .rfl' (by rw [hpc]; rfl)) nofun
  · next id addr hpc =>
    have hbefore : request? (s.pc t) = none := by rw [hpc]; rfl
    have hslot : Untouched s.slot { s.slot with udpconnecting := s.slot.udpconnecting + 1 } :=
      ⟨⟨rfl, rfl, rfl⟩, ⟨rfl, rfl, rfl⟩, rfl, rfl, rfl⟩
    have hbuffers : SameBuffers s.slot { s.slot with udpconnecting := s.slot.udpconnecting + 1 } :=
      ⟨rfl, rfl, rfl, rfl, rfl, rfl⟩
    cases h
    split
    · exact .move .rfl' hbefore rfl nofun nofun (.keep .rfl' (by rw [hpc]; rfl)) nofun
    split
    · exact .move hslot hbefore rfl nofun nofun (.keep hbuffers (by rw [hpc]; rfl)) nofun
    · exact .post hslot hbefore rfl (.inl (by rw [hpc]; rfl)) nofun hbuffers (by rw [hpc]; rfl)
        (by rw [hpc]; rfl)
  · next r hpc =>
    cases h
    exact .push hpc

theorem Stepped.begin {a : SocketAction θ} {t : θ} {id : ℕ} {pc : SenderPc θ}
    {accepted : θ → List (SendBuffer θ)} (hpc : s.pc t = .idle) (hid : id ∈ s.issued)
    (hcall : callId? pc = some id) (hnone : request? pc = none) (hcas : ∀ i b v, pc ≠ .incCas i b v)
    (hcarries : Carries s t pc s.slot accepted) (hudp : sendsUdp pc = true → callsUdp a = true) :
    Stepped k s a { s with pc := update s.pc t pc, accepted := accepted } := by
  refine .move .rfl' (by rw [hpc]; rfl) hnone (fun i hi => .inr ?_)
    (fun i b v h => absurd h (hcas i b v)) hcarries hudp
  obtain rfl := Option.some.inj (hcall.symm.trans hi)
  exact hid

theorem socketNext_cases {a : SocketAction θ} (h : socketNext k s a = some s') :
    s.fault = none ∧ Stepped k s a s' := by
  cases a with
  | reserve t r =>
    simp only [socketNext] at h
    split at h
    · next hfault hpc =>
      obtain ⟨⟨hfree, hopens, hslot⟩, rfl⟩ := ite_some_none_eq_some.mp h
      exact ⟨hfault, .reserve hpc hfree hopens hslot⟩
    · cases h
  | request t r =>
    simp only [socketNext] at h
    split at h
    · next hfault hpc =>
      obtain ⟨⟨hplain, hid⟩, rfl⟩ := ite_some_none_eq_some.mp h
      refine ⟨hfault, .post .rfl' (by rw [hpc]; rfl) ?_ (.inr hid) ?_ .rfl' ?_ ?_⟩
      · cases r <;> first | rfl | cases hplain
      · rintro id b rfl
        cases hplain
      · rw [hpc]
        cases r <;> first | rfl | cases hplain
      · rw [hpc]
        cases r <;> first | rfl | cases hplain
    · cases h
  | send t id kind bytes =>
    simp only [socketNext] at h
    split at h
    · next hfault hpc =>
      obtain ⟨hid, rfl⟩ := ite_some_none_eq_some.mp h
      refine ⟨hfault, ?_⟩
      split
      · exact .stay
      · exact .begin hpc hid rfl rfl nofun (.take (by rw [hpc]; rfl) rfl rfl) nofun
    · cases h
  | sendLowpriority t id kind bytes =>
    simp only [socketNext] at h
    split at h
    · next hfault hpc =>
      obtain ⟨hid, rfl⟩ := ite_some_none_eq_some.mp h
      refine ⟨hfault, ?_⟩
      split
      · exact .stay
      · exact .begin hpc hid rfl rfl nofun (.take (by rw [hpc]; rfl) rfl rfl) nofun
    · cases h
  | udpSend t id kind bytes addr =>
    simp only [socketNext] at h
    split at h
    · next hfault hpc =>
      obtain ⟨hid, rfl⟩ := ite_some_none_eq_some.mp h
      refine ⟨hfault, ?_⟩
      split
      · exact .stay
      · exact .begin hpc hid rfl rfl nofun (.keep .rfl' (by rw [hpc]; rfl)) fun _ => rfl
    · cases h
  | udpConnect t id addr =>
    simp only [socketNext] at h
    split at h
    · next hfault hpc =>
      obtain ⟨hid, rfl⟩ := ite_some_none_eq_some.mp h
      refine ⟨hfault, ?_⟩
      split
      · exact .stay
      · exact .begin hpc hid rfl rfl nofun (.keep .rfl' (by rw [hpc]; rfl)) nofun
    · cases h
  | step t ok w =>
    obtain ⟨hfault, h⟩ := ite_none_right_eq_some.mp h
    exact ⟨hfault, callerStep_cases k _ h⟩
  | accept os id owner =>
    obtain ⟨⟨hfault, -, hfree, hslot⟩, rfl⟩ := ite_some_none_eq_some.mp h
    refine ⟨hfault, ?_⟩
    split
    · exact .halt nofun
    · next slot hopened =>
      refine .accept hfree hslot (acceptInto_ok hopened) ?_
      split
      · exact .inr rfl
      · exact .inl rfl
  | poll os =>
    obtain ⟨hfault, rfl⟩ := ite_some_none_eq_some.mp h
    exact ⟨hfault, poll_cases k s os⟩

end Skynet.Analysis
