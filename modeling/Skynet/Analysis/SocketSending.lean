import Skynet.Analysis.SocketSteps
import Skynet.Library.ThreadSum

/-!
# The sending counter

The low half of `sending` counts the requests in flight for the socket whose tag the
high half holds, as long as no socket is opened with a request for it already in flight:
`inc_sending_ref` does not count a request for a socket that is not a tcp socket yet, and
`dec_sending_ref` uncounts it when the socket has become one.
-/

namespace Skynet.Analysis

open Library Model List Function Nat

variable {θ : Type}

/-! ## Halves of the counter -/

theorem and_lowHalf (v : ℕ) : v &&& 0xffff = v % 65536 := and_two_pow_sub_one_eq_mod v 16

theorem sending_succ {v : ℕ} (h : v &&& 0xffff ≠ 0xffff) :
    (v + 1) >>> 16 = v >>> 16 ∧ (v + 1) &&& 0xffff = (v &&& 0xffff) + 1 := by
  rw [and_lowHalf] at h
  rw [and_lowHalf, and_lowHalf, shiftRight_eq_div_pow, shiftRight_eq_div_pow]
  omega

theorem sending_pred {v : ℕ} (h : v &&& 0xffff ≠ 0) :
    (v - 1) >>> 16 = v >>> 16 ∧ ((v - 1) &&& 0xffff) + 1 = v &&& 0xffff := by
  rw [and_lowHalf] at h
  rw [and_lowHalf, and_lowHalf, shiftRight_eq_div_pow, shiftRight_eq_div_pow]
  omega

theorem sending_new (tag : ℕ) : (tag <<< 16) >>> 16 = tag ∧ (tag <<< 16) &&& 0xffff = 0 := by
  rw [and_lowHalf, shiftRight_eq_div_pow, shiftLeft_eq]
  omega

theorem eq_of_idTag16_eq {k a b : ℕ} (ha : SlotId k a) (hb : SlotId k b)
    (h : idTag16 a = idTag16 b) : a = b := by
  obtain ⟨ha, hka⟩ := ha
  obtain ⟨hb, hkb⟩ := hb
  have hk : a % 65536 = b % 65536 := hka.trans hkb.symm
  simp only [idTag16, and_lowHalf, shiftRight_eq_div_pow] at h
  omega

/-! ## Requests in flight -/

def isSend (id : ℕ) : Request θ → Bool
  | .sendSocket id' _ => id' = id
  | _ => false

def inHand (id : ℕ) : SenderPc θ → ℕ
  | .sendRequest r => if isSend id r then 1 else 0
  | _ => 0

def inCtrl (id : ℕ) : Option (ℕ × SocketResult) → ℕ
  | some (id', _) => if id' = id then 1 else 0
  | none => 0

/-- The `D` and `P` requests for the socket between their `inc_sending_ref` and their
`dec_sending_ref`. -/
def inFlight [Fintype θ] (s : SocketServer θ) (id : ℕ) : ℕ :=
  s.pipe.countP (isSend id) + threadSum (inHand id) s.pc + inCtrl id s.sent

theorem inHand_of_request {id : ℕ} {pc : SenderPc θ} (h : request? pc = none) :
    inHand id pc = 0 := by
  cases pc with
  | sendRequest r => cases h
  | idle | direct | udpDirect | incProtocol | incLoad | incCas | udpConnect => rfl

/-- The socket that a step opens as a tcp socket: the next request gets as far as the
assignments of `new_fd`, or a connection is accepted. -/
def opensTcp (s : SocketServer θ) : SocketAction θ → Option ℕ
  | .poll os =>
    match s.sent, s.checkctrl, s.pipe with
    | none, true, r :: _ =>
      if r.opens ∧ openProtocol r = .tcp ∧ s.slot.type = .reserve ∧ reachesNewFd os r ∧
        os.spAdd = false then some r.id else none
    | _, _, _ => none
  | .accept os id _ => if os.spAdd = false then some id else none
  | _ => none

variable [Fintype θ] [DecidableEq θ]

/-- The condition: no socket is opened as a tcp socket while a `D` or `P` request for it
is past its `inc_sending_ref`. -/
def OpensUnsent (s : SocketServer θ) (a : SocketAction θ) : Prop :=
  ∀ id ∈ opensTcp s a, inFlight s id = 0

instance (s : SocketServer θ) (a : SocketAction θ) : Decidable (OpensUnsent s a) :=
  inferInstanceAs (Decidable (∀ id ∈ opensTcp s a, inFlight s id = 0))

/-! ## The invariant -/

/-- The ids are ids of the slot, and the counter of a tcp socket counts what is in
flight. -/
structure SendingOk (k : ℕ) (s : SocketServer θ) : Prop where
  pipe : ∀ r ∈ s.pipe, SlotId k r.id
  issued : ∀ id ∈ s.issued, SlotId k id
  calls : ∀ t id, callId? (s.pc t) = some id → SlotId k id
  /-- What a caller has loaded was a counter of the socket it sends to. -/
  cas : ∀ t id b v, s.pc t = .incCas id b v → v >>> 16 = idTag16 id ∧ v &&& 0xffff ≠ 0xffff
  slotId : s.slot.protocol = .tcp → SlotId k s.slot.id
  tag : s.slot.protocol = .tcp → s.slot.sending >>> 16 = idTag16 s.slot.id
  count : s.slot.protocol = .tcp → s.slot.sending &&& 0xffff = inFlight s s.slot.id
  noFault : s.fault ≠ some .noSendingRef

omit [DecidableEq θ] in
theorem SendingOk.of_frame {k : ℕ} {s s' : SocketServer θ} (h : SendingOk k s)
    (hframe : Frame s.slot s'.slot) (hpipe : ∀ r ∈ s'.pipe, SlotId k r.id)
    (hissued : ∀ id ∈ s'.issued, SlotId k id)
    (hcalls : ∀ t id, callId? (s'.pc t) = some id → SlotId k id)
    (hcas : ∀ t id b v, s'.pc t = .incCas id b v → v >>> 16 = idTag16 id ∧ v &&& 0xffff ≠ 0xffff)
    (hflight : s.slot.protocol = .tcp → inFlight s' s.slot.id = inFlight s s.slot.id)
    (hfault : s'.fault ≠ some .noSendingRef) : SendingOk k s' where
  pipe := hpipe
  issued := hissued
  calls := hcalls
  cas := hcas
  slotId htcp := hframe.id ▸ h.slotId (hframe.protocol ▸ htcp)
  tag htcp := by
    rw [hframe.sending, hframe.id]
    exact h.tag (hframe.protocol ▸ htcp)
  count htcp := by
    have htcp := hframe.protocol ▸ htcp
    rw [hframe.sending, hframe.id, hflight htcp]
    exact h.count htcp
  noFault := hfault

section Steps

variable {k : ℕ} {s s' : SocketServer θ}

theorem SendingOk.calls_update (h : SendingOk k s) {t : θ} {pc : SenderPc θ}
    (hid : ∀ id, callId? pc = some id → SlotId k id) :
    ∀ u id, callId? (update s.pc t pc u) = some id → SlotId k id := by
  intro u id hu
  by_cases hut : u = t
  · subst hut
    rw [update_self] at hu
    exact hid id hu
  · rw [update_of_ne hut] at hu
    exact h.calls u id hu

theorem SendingOk.cas_update (h : SendingOk k s) {t : θ} {pc : SenderPc θ}
    (hcas : ∀ id b v, pc = .incCas id b v → v >>> 16 = idTag16 id ∧ v &&& 0xffff ≠ 0xffff) :
    ∀ u id b v, update s.pc t pc u = .incCas id b v →
      v >>> 16 = idTag16 id ∧ v &&& 0xffff ≠ 0xffff := by
  intro u id b v hu
  by_cases hut : u = t
  · subst hut
    rw [update_self] at hu
    exact hcas id b v hu
  · rw [update_of_ne hut] at hu
    exact h.cas u id b v hu

theorem SendingOk.post (h : SendingOk k s) {t : θ} {r : Request θ}
    (hbefore : request? (s.pc t) = none) (hid : SlotId k r.id)
    (huncounted : ∀ id b, r = .sendSocket id b →
      s.slot.protocol ≠ .tcp ∨ s.slot.sending >>> 16 ≠ idTag16 id) {slot : Socket θ}
    (hframe : Frame s.slot slot) :
    SendingOk k { s with slot := slot, pc := update s.pc t (.sendRequest r) } := by
  refine h.of_frame hframe h.pipe h.issued (h.calls_update ?_) (h.cas_update nofun) ?_ h.noFault
  · rintro id ⟨rfl⟩
    exact hid
  · intro htcp
    have hsum : threadSum (inHand s.slot.id) (update s.pc t (.sendRequest r)) =
        threadSum (inHand s.slot.id) s.pc := by
      refine threadSum_update_eq ?_
      rw [inHand_of_request hbefore, inHand]
      cases r with
      | sendSocket id b =>
        obtain hudp | htag := huncounted id b rfl
        · exact absurd htcp hudp
        · have hne : id ≠ s.slot.id := fun hid => htag (hid ▸ h.tag htcp)
          simp [isSend, hne]
      | resumeSocket | pauseSocket | bindSocket | listenSocket | closeSocket | openSocket
      | triggerWrite | sendUdp | setUdpAddress | addUdpSocket => rfl
    simp only [inFlight, hsum]

theorem SendingOk.count_up (h : SendingOk k s) {t : θ} {id : ℕ} {b : SendBuffer θ}
    (hpc : s.pc t = .incCas id b s.slot.sending) :
    SendingOk k { s with
      slot := { s.slot with sending := s.slot.sending + 1 }
      pc := update s.pc t (.sendRequest (.sendSocket id b)) } := by
  have hid : SlotId k id := h.calls t id (by rw [hpc]; rfl)
  obtain ⟨htag, hmax⟩ := h.cas t id b _ hpc
  obtain ⟨htag', hcount'⟩ := sending_succ hmax
  refine ⟨h.pipe, h.issued, h.calls_update ?_, h.cas_update nofun, h.slotId, fun htcp => ?_,
    fun htcp => ?_, h.noFault⟩
  · rintro _ ⟨rfl⟩
    exact hid
  · exact htag'.trans (h.tag htcp)
  · obtain rfl : id = s.slot.id := eq_of_idTag16_eq hid (h.slotId htcp) (htag.symm.trans (h.tag htcp))
    have hsum := threadSum_update (inHand s.slot.id) s.pc t
      (.sendRequest (.sendSocket s.slot.id b))
    rw [hpc, show inHand s.slot.id (.incCas s.slot.id b s.slot.sending) = 0 from rfl,
      show inHand s.slot.id (.sendRequest (.sendSocket s.slot.id b)) = 1 by simp [inHand, isSend]]
      at hsum
    have hcount := h.count htcp
    simp only [inFlight] at hcount ⊢
    omega

theorem SendingOk.push (h : SendingOk k s) {t : θ} {r : Request θ}
    (hpc : s.pc t = .sendRequest r) :
    SendingOk k { s with
      pipe := s.pipe ++ [r], issued := if r.opens then r.id :: s.issued else s.issued
      pc := update s.pc t .idle } := by
  have hid : SlotId k r.id := h.calls t r.id (by rw [hpc]; rfl)
  refine h.of_frame ⟨rfl, rfl, rfl⟩ (fun r' hr' => ?_) (fun id hi => ?_) (h.calls_update nofun)
    (h.cas_update nofun) (fun _ => ?_) h.noFault
  · obtain hr' | hr' := mem_append.mp hr'
    · exact h.pipe r' hr'
    · exact mem_singleton.mp hr' ▸ hid
  · split at hi
    · obtain rfl | hi := mem_cons.mp hi
      · exact hid
      · exact h.issued id hi
    · exact h.issued id hi
  · have hsum := threadSum_update (inHand s.slot.id) s.pc t .idle
    rw [hpc, show inHand s.slot.id .idle = 0 from rfl] at hsum
    simp only [inHand] at hsum
    simp only [inFlight, countP_append, countP_singleton]
    omega

omit [DecidableEq θ] in
theorem SendingOk.opened (h : SendingOk k s) {os : Syscalls} {slot₀ : Socket θ} {id : ℕ}
    {protocol : Protocol} {result : SocketResult} (hid : SlotId k id)
    (hopened : Opened os slot₀ id protocol s'.slot result)
    (hfailed : Frame slot₀ s'.slot → s'.slot.protocol = .tcp →
      SlotId k s'.slot.id ∧ s'.slot.sending >>> 16 = idTag16 s'.slot.id ∧
        s'.slot.sending &&& 0xffff = inFlight s' s'.slot.id)
    (hunsent : os.spAdd = false → protocol = .tcp → inFlight s' id = 0)
    (hpipe : ∀ r ∈ s'.pipe, SlotId k r.id) (hissued : ∀ id ∈ s'.issued, SlotId k id)
    (hpc : s'.pc = s.pc) (hfault : s'.fault = s.fault) : SendingOk k s' := by
  have hcalls := h.calls
  have hcas := h.cas
  have hnoFault := h.noFault
  rw [← hpc] at hcalls hcas
  rw [← hfault] at hnoFault
  cases hopened with
  | failed _ hframe _ _ _ =>
    exact ⟨hpipe, hissued, hcalls, hcas, fun htcp => (hfailed hframe htcp).1,
      fun htcp => (hfailed hframe htcp).2.1, fun htcp => (hfailed hframe htcp).2.2, hnoFault⟩
  | opened hnew _ _ =>
    obtain ⟨htag, hzero⟩ := sending_new (idTag16 id)
    refine ⟨hpipe, hissued, hcalls, hcas, fun _ => hnew.isId ▸ hid, fun _ => ?_, fun htcp => ?_,
      hnoFault⟩
    · rw [hnew.sending, hnew.isId]
      exact htag
    · rw [hnew.sending, hnew.isId, hunsent hnew.added (hnew.isProtocol ▸ htcp)]
      exact hzero

omit [DecidableEq θ] in
theorem inFlight_ctrl (s' : SocketServer θ) {r : Request θ} {pipe : List (Request θ)}
    (hpipe : s.pipe = r :: pipe) (hr : ∀ id b, r ≠ .sendSocket id b) (hs' : s'.pipe = pipe)
    (hpc : s'.pc = s.pc) (hsent : s'.sent = s.sent) (id : ℕ) : inFlight s' id = inFlight s id := by
  have hnone : isSend id r = false := by
    cases r with
    | sendSocket id b => exact absurd rfl (hr id b)
    | resumeSocket | pauseSocket | bindSocket | listenSocket | closeSocket | openSocket
    | triggerWrite | sendUdp | setUdpAddress | addUdpSocket => rfl
  rw [inFlight, inFlight, hs', hpc, hsent, hpipe, countP_cons_of_neg (by simp [hnone])]

/-- **Step.** Every step keeps the count, unless it opens a socket with a request in
flight for it. -/
theorem SendingOk.step (h : SendingOk k s) {a : SocketAction θ} (hok : OpensUnsent s a)
    (hs : Stepped k s a s') : SendingOk k s' := by
  cases hs with
  | stay => exact h
  | move hslot hbefore hafter hid hcas _ _ =>
    refine h.of_frame hslot.frame h.pipe h.issued (h.calls_update fun id hi => ?_)
      (h.cas_update hcas) (fun _ => ?_) h.noFault
    · obtain hi | hi := hid id hi
      · exact h.calls _ id hi
      · exact h.issued id hi
    · simp only [inFlight]
      rw [threadSum_update_eq (by rw [inHand_of_request hbefore, inHand_of_request hafter])]
  | post hslot hbefore _ hid huncounted _ _ _ =>
    refine h.post hbefore ?_ huncounted hslot.frame
    obtain hid | hid := hid
    · exact h.calls _ _ hid
    · exact h.issued _ hid
  | count hpc => exact h.count_up hpc
  | @direct _ t id n b written hpc _ _ =>
    refine h.of_frame ⟨rfl, rfl, rfl⟩ h.pipe h.issued (h.calls_update ?_) (h.cas_update nofun)
      (fun _ => ?_) h.noFault
    · rintro _ ⟨rfl⟩
      exact h.calls t id (by rw [hpc]; rfl)
    · have hsum : threadSum (inHand s.slot.id)
          (update s.pc t (.sendRequest (.triggerWrite id))) =
          threadSum (inHand s.slot.id) s.pc :=
        threadSum_update_eq (by rw [hpc]; rfl)
      simp only [inFlight, hsum]
  | push hpc => exact h.push hpc
  | @reserve t r hpc _ hopens hslot =>
    refine ⟨h.pipe, h.issued, h.calls_update ?_, h.cas_update nofun, nofun, nofun, nofun, h.noFault⟩
    rintro _ ⟨rfl⟩
    exact hslot
  | @accept os id owner slot issued _ hslot hopened hgiven =>
    refine h.opened hslot hopened (fun hframe htcp => ?_) (fun hadd _ => ?_) h.pipe
      (fun i hi => ?_) rfl rfl
    · cases hframe.protocol.symm.trans htcp
    · exact hok id (by simp [opensTcp, hadd])
    · obtain rfl | rfl := hgiven
      · exact h.issued i hi
      · obtain rfl | hi := mem_cons.mp hi
        · exact hslot
        · exact h.issued i hi
  | @halt _ f hwhy =>
    refine ⟨h.pipe, h.issued, h.calls, h.cas, h.slotId, h.tag, h.count, ?_⟩
    rintro ⟨rfl⟩
    obtain ⟨id, result, hsent, rfl, htcp, hzero⟩ := hwhy rfl
    have hcount := h.count htcp
    simp only [inFlight, hsent, inCtrl, if_true] at hcount
    omega
  | look => exact ⟨h.pipe, h.issued, h.calls, h.cas, h.slotId, h.tag, h.count, h.noFault⟩
  | @ctrl os r pipe slot result events hsent hpipe hcheck hcmd hother =>
    have hrest : ∀ r' ∈ pipe, SlotId k r'.id := fun r' hr' =>
      h.pipe r' (hpipe ▸ mem_cons_of_mem r hr')
    have hflight (id : ℕ) : inFlight { s with
        slot := slot, pipe := pipe, events := events, returned := s.returned ++ result.toList } id =
        inFlight s id := by
      refine inFlight_ctrl _ hpipe hother ?_ ?_ ?_ id <;> rfl
    cases hr : r.opens with
    | false =>
      have hframe : Frame s.slot slot := by
        obtain heffect | ⟨-, -, -, hdefer⟩ := ctrlCmd_effect (d := false) hr hcmd
        · exact heffect.frame
        · exact hdefer.frame
      exact h.of_frame hframe hrest h.issued h.calls h.cas (fun _ => hflight _) h.noFault
    | true =>
      obtain ⟨hreach, hopened⟩ | ⟨rfl, -⟩ := ctrlCmd_opened hr hcmd
      · refine h.opened (h.pipe r (hpipe ▸ mem_cons_self)) hopened (fun hframe htcp => ?_)
          (fun hadd hprotocol => ?_) hrest h.issued rfl rfl
        · have htcp := hframe.protocol.symm.trans htcp
          rw [hframe.id, hframe.sending, hflight]
          exact ⟨h.slotId htcp, h.tag htcp, h.count htcp⟩
        · have hreserve : s.slot.type = .reserve := by
            cases hopened with
            | failed hreserve _ _ _ _ => exact hreserve
            | opened hnew _ _ => exact hnew.reserved
          rw [hflight]
          exact hok r.id (by
            simp [opensTcp, hsent, hpipe, hcheck, hr, hprotocol, hreserve, hreach, hadd])
      · exact h.of_frame ⟨rfl, rfl, rfl⟩ hrest h.issued h.calls h.cas (fun _ => hflight _) h.noFault
  | @send os id b pipe hsent hpipe =>
    refine h.of_frame (sendSocket_effect (d := false)).frame
      (fun r' hr' => h.pipe r' (hpipe ▸ mem_cons_of_mem _ hr')) h.issued h.calls h.cas
      (fun _ => ?_) h.noFault
    -- the request moves from the pipe to the socket thread
    simp only [inFlight, hpipe, hsent, inCtrl, countP_cons, isSend, decide_eq_true_eq]
    omega
  | @uncount os id result events hsent hown htcp hcounted =>
    obtain ⟨htag', hcount'⟩ := sending_pred hcounted
    refine ⟨h.pipe, h.issued, h.calls, h.cas, h.slotId, fun htcp => htag'.trans (h.tag htcp),
      fun htcp => ?_, h.noFault⟩
    have hcount := h.count htcp
    simp only [inFlight, hsent, inCtrl, hown, if_true] at hcount ⊢
    omega
  | @skip os id result events hsent hother =>
    refine h.of_frame ⟨rfl, rfl, rfl⟩ h.pipe h.issued h.calls h.cas (fun htcp => ?_) h.noFault
    have hne : id ≠ s.slot.id := fun hid => hother hid.symm htcp
    simp only [inFlight, hsent, inCtrl, if_neg hne]
  | event _ _ _ hdispatch =>
    exact h.of_frame (dispatchEvent_effect hdispatch).frame h.pipe h.issued h.calls h.cas
      (fun _ => rfl) h.noFault

end Steps

/-! ## Runs -/

theorem sendingOk_of_reach {k : ℕ} {s : SocketServer θ}
    (hs : (socketMachine k).Reach OpensUnsent s) : SendingOk k s := by
  refine hs.invariant (fun s hstart => ?_) fun s a s' h hok hnext =>
    h.step hok (socketNext_cases hnext).2
  subst hstart
  exact ⟨nofun, nofun, nofun, nofun, nofun, nofun, nofun, nofun⟩

structure SendingExact (s : SocketServer θ) : Prop where
  /-- The low half counts the requests in flight for the socket. -/
  count : s.slot.protocol = .tcp → s.slot.sending >>> 16 = idTag16 s.slot.id →
    s.slot.sending &&& 0xffff = inFlight s s.slot.id
  /-- The assertion of `dec_sending_ref` has not failed. -/
  noFault : s.fault ≠ some .noSendingRef
  /-- A direct write overtakes no request. -/
  direct : ∀ id, s.slot.protocol = .tcp → s.slot.canDirectWrite id = true →
    ∀ b, .sendSocket id b ∉ s.pipe

omit [DecidableEq θ] in
theorem SendingOk.direct {k id : ℕ} {s : SocketServer θ} (h : SendingOk k s)
    (htcp : s.slot.protocol = .tcp) (hdirect : s.slot.canDirectWrite id = true) :
    s.slot.id = id ∧ NoData s.slot ∧ ∀ b, .sendSocket id b ∉ s.pipe := by
  simp only [Socket.canDirectWrite, Bool.and_eq_true, decide_eq_true_eq] at hdirect
  obtain ⟨⟨⟨rfl, hnomore⟩, hconnected⟩, -⟩ := hdirect
  obtain ⟨hnodata, hzero⟩ | hwrite := nomoreSendingData_iff.mp hnomore
  · refine ⟨rfl, hnodata, fun b hb => ?_⟩
    have hcount := h.count htcp
    have hpos : 0 < s.pipe.countP (isSend s.slot.id) := countP_pos_iff.mpr ⟨_, hb, by simp [isSend]⟩
    simp only [inFlight] at hcount
    omega
  · cases hconnected.symm.trans hwrite

/-- **The sending counter.** In every state of every run in which no socket is opened with
a request in flight for it, the low half of `sending` of a tcp socket is the number of its
`D` and `P` requests between `inc_sending_ref` and `dec_sending_ref`, the assertion of
`dec_sending_ref` holds, and no direct write overtakes a request in the pipe.
SRC: socket_server.c:345-371, 555-586, 1306-1397, 1797-1894 -/
theorem sending_exact {k : ℕ} {s : SocketServer θ}
    (hs : (socketMachine k).Reach OpensUnsent s) : SendingExact s := by
  have h := sendingOk_of_reach hs
  exact ⟨fun htcp _ => h.count htcp, h.noFault, fun id htcp hdirect b => (h.direct htcp hdirect).2.2 b⟩

def connectOne {θ : Type} (t : θ) : List (SocketAction θ) :=
  [.reserve t (.openSocket 1 0), .step t true .again]

def sendOne {θ : Type} (t : θ) : List (SocketAction θ) :=
  [.send t 1 .memory [65], .step t false .again, .step t true .again, .step t true .again]

/-- A request is counted when the socket is open before the send. -/
theorem sending_exact_counted : ∃ s : SocketServer (Fin 2),
    (socketMachine 1).Reach OpensUnsent s ∧ s.slot.protocol = .tcp ∧
      s.slot.sending &&& 0xffff = 1 ∧ SendingExact s := by
  obtain ⟨s, hrun, htcp, hcount⟩ : ∃ s : SocketServer (Fin 2), (socketMachine 1).runOk OpensUnsent
      (.create .fresh []) (connectOne 0 ++ [.poll { connect := .connected none }] ++ sendOne 1 ++
        [.step 1 true .again]) = some s ∧ s.slot.protocol = .tcp ∧
      s.slot.sending &&& 0xffff = 1 := ⟨_, rfl, rfl, rfl⟩
  have hs := Machine.Reach.runOk (.start rfl) hrun
  exact ⟨s, hs, htcp, hcount, sending_exact hs⟩

/-- A request sent while the open request was still in the pipe is not counted, and the
assertion of `dec_sending_ref` fails on it. -/
theorem sending_not_counted : ∃ s : SocketServer (Fin 2),
    (socketMachine 1).Reachable s ∧ s.fault = some .noSendingRef ∧ ¬SendingExact s := by
  obtain ⟨s, hrun, hfault⟩ : ∃ s : SocketServer (Fin 2), (socketMachine 1).run (.create .fresh [])
      (connectOne 0 ++ sendOne 1 ++
        [.poll { connect := .connected none }, .poll {}, .poll {}]) = some s ∧
      s.fault = some .noSendingRef := ⟨_, rfl, rfl⟩
  exact ⟨s, Machine.Reachable.run (.start rfl) hrun, hfault, fun h => h.noFault hfault⟩

end Skynet.Analysis
