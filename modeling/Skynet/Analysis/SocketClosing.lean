import Skynet.Analysis.SocketReserve

/-!
# A closing socket has something to write

A socket that is closed while data waits is freed when the data has been written.  That
needs the write event, or a request that will enable it, for as long as there is data;
and it needs data: a close that waits for nothing but requests in flight waits for ever,
as `send_socket` drops them.
-/

namespace Skynet.Analysis

open Library Model Function

variable {θ : Type}

instance (s : Socket θ) : Decidable (NoData s) :=
  decidable_of_iff (s.sendBufferEmpty && s.dwBuffer.isNone) (by
    simp [NoData, Socket.sendBufferEmpty, and_assoc])

/-! ## The slot -/

/-- The invariant of a slot; `pending` says that a request to enable its write event is
on its way. -/
structure SlotOk (pending : Prop) (s : Socket θ) : Prop where
  /-- Data is written, or will be. -/
  writing : InUse s → s.type ≠ .halfcloseWrite → ¬NoData s → s.writing = true ∨ pending
  /-- A closing socket has data. -/
  closing : InUse s → s.closing = true → s.type = .halfcloseRead ∧ ¬NoData s
  nodata : ¬InUse s → NoData s
  protocol : s.type = .reserve → s.protocol = .unknown

variable {d : Bool} {s s' : Socket θ} {pending : Prop} {result : SocketResult}

theorem not_inUse : ¬InUse s ↔ s.type = .invalid ∨ s.type = .reserve := by
  simp only [InUse, ne_eq]
  tauto

theorem NoData.of_same (h : SameBuffers s s') : NoData s' ↔ NoData s := by
  rw [NoData, NoData, h.high, h.low, h.dwBuffer]

theorem inUse_of_type (h : s'.type = s.type) : InUse s' ↔ InUse s := by
  rw [InUse, InUse, h]

theorem SlotOk.same (h : SlotOk pending s) (hprotocol : s'.protocol = s.protocol)
    (hdata : NoData s' ↔ NoData s) (htype : s'.type = s.type) (hclosing : s'.closing = s.closing)
    (hwriting : s'.writing = true ∨ s'.writing = s.writing) : SlotOk pending s' where
  writing huse hnotWrite hd := by
    rw [inUse_of_type htype] at huse
    rw [hdata] at hd
    obtain hw | hw := hwriting
    · exact .inl hw
    · rw [hw]
      exact h.writing huse (htype ▸ hnotWrite) hd
  closing huse hc := by
    rw [inUse_of_type htype] at huse
    rw [hdata, htype]
    exact h.closing huse (hclosing ▸ hc)
  nodata hfree := by
    rw [inUse_of_type htype] at hfree
    exact hdata.mpr (h.nodata hfree)
  protocol ht := by
    rw [hprotocol]
    exact h.protocol (htype ▸ ht)

theorem SlotOk.of_invalid (htype : s.type = .invalid) (hnodata : NoData s) :
    SlotOk pending s where
  writing huse := absurd htype huse.1
  closing huse := absurd htype huse.1
  nodata _ := hnodata
  protocol ht := nomatch htype.symm.trans ht

/-- **Effect.** What a call does keeps the invariant. -/
theorem SlotOk.effect (h : SlotOk pending s) (he : Effect d s s' result) : SlotOk pending s' := by
  have hreserve := he.reserve_iff h.protocol
  have hprotocol : s'.type = .reserve → s'.protocol = .unknown := fun ht => by
    rw [he.frame.protocol]
    exact h.protocol (hreserve.mp ht)
  cases he with
  | quiet hframe hbuffers hstate _ =>
    exact h.same hframe.protocol (NoData.of_same hbuffers) hstate.type hstate.closing (.inr hstate.writing)
  | deliver hframe hbuffers hstate _ _ _ _ =>
    exact h.same hframe.protocol (NoData.of_same hbuffers) hstate.type hstate.closing (.inr hstate.writing)
  | wantWrite hframe hbuffers htype hclosing hwriting _ =>
    exact h.same hframe.protocol (NoData.of_same hbuffers) htype hclosing (.inl hwriting)
  | start hframe hbuffers hclosing hbefore hafter hwriting _ =>
    have huse : InUse s := by obtain h | h | h := hbefore <;> simp [InUse, h]
    have hnotWrite : s.type ≠ .halfcloseWrite := by obtain h | h | h := hbefore <;> simp [h]
    have hnotRead : s.type ≠ .halfcloseRead := by obtain h | h | h := hbefore <;> simp [h]
    refine ⟨fun _ _ hdata => ?_, fun _ hc => ?_, fun hfree => ?_, hprotocol⟩
    · rw [NoData.of_same hbuffers] at hdata
      obtain hw | hnodata := hwriting
      · rw [hw]
        exact h.writing huse hnotWrite hdata
      · exact absurd hnodata hdata
    · exact absurd (h.closing huse (hclosing ▸ hc)).1 hnotRead
    · refine absurd ?_ hfree
      obtain h | h := hafter <;> simp [InUse, h]
  | eof hframe hbuffers htcp hbefore hafter _ hclosing hwriting _ =>
    have huse : InUse s := ⟨hbefore.1, fun ht => nomatch (h.protocol ht).symm.trans htcp⟩
    refine ⟨fun _ _ hdata => ?_, fun _ hc => ?_, fun hfree => ?_, hprotocol⟩
    · rw [NoData.of_same hbuffers] at hdata
      rw [hwriting]
      exact h.writing huse hbefore.2.2 hdata
    · cases hclosing.symm.trans hc
    · exact absurd ⟨by simp [hafter], by simp [hafter]⟩ hfree
  | free _ _ htype hnodata _ => exact .of_invalid htype hnodata
  | failWrite hframe htcp hlive _ _ hclosing htype _ _ =>
    refine ⟨fun _ hnotWrite => absurd htype hnotWrite, fun _ hc => ?_, fun hfree => ?_, hprotocol⟩
    · cases hclosing.symm.trans hc
    · exact absurd ⟨by simp [htype], by simp [htype]⟩ hfree
  | flush hframe hlive htype hclosing hdw hlists _ =>
    refine ⟨fun huse hnotWrite hdata => ?_, fun huse hc => ?_, fun hfree => ?_, hprotocol⟩
    · rw [inUse_of_type htype] at huse
      obtain ⟨hs, -, hw⟩ | ⟨hwrite, -⟩ | ⟨hnodata, -⟩ := hlists
      · rw [hw]
        refine h.writing huse (htype ▸ hnotWrite) fun hn => ?_
        obtain hs | hs | hs := hs
        · exact hs hn.1
        · exact hs hn.2.1
        · exact hs hn.2.2
      · exact absurd (htype.trans hwrite) hnotWrite
      · exact absurd hnodata hdata
    · rw [inUse_of_type htype] at huse
      obtain ⟨hread, hdata⟩ := h.closing huse (hclosing ▸ hc)
      obtain ⟨-, hdata', -⟩ | ⟨hwrite, -⟩ | ⟨-, hopen⟩ := hlists
      · exact ⟨htype.trans hread, hdata'⟩
      · cases hread.symm.trans hwrite
      · cases hopen.symm.trans (hclosing ▸ hc)
    · rw [inUse_of_type htype] at hfree
      have hn := h.nodata hfree
      obtain ⟨hs, -, -⟩ | ⟨hwrite, -⟩ | ⟨hnodata, -⟩ := hlists
      · obtain hs | hs | hs := hs
        · exact absurd hn.1 hs
        · exact absurd hn.2.1 hs
        · exact absurd hn.2.2 hs
      · obtain ht | ht := not_inUse.mp hfree
        · cases hwrite.symm.trans ht
        · cases hwrite.symm.trans ht
      · exact hnodata
  | queue hframe hlive htype _ hclosing _ hknown hwriting _ =>
    have huse : InUse s := by
      refine ⟨hlive, fun ht => ?_⟩
      obtain hknown | hbusy := hknown
      · exact hknown (h.protocol ht)
      · have hn := h.nodata (not_inUse.mpr (.inr ht))
        rw [sendBufferEmpty_iff.mpr ⟨hn.1, hn.2.1⟩] at hbusy
        cases hbusy
    refine ⟨fun _ hnotWrite _ => ?_, fun _ hc => ?_, fun hfree => ?_, hprotocol⟩
    · obtain hw | ⟨hbusy, hw⟩ := hwriting
      · exact .inl hw
      · rw [hw]
        refine h.writing huse (htype ▸ hnotWrite) fun hn => ?_
        rw [sendBufferEmpty_iff.mpr ⟨hn.1, hn.2.1⟩] at hbusy
        cases hbusy
    · cases hclosing.symm.trans hc
    · exact absurd ((inUse_of_type htype).mpr huse) hfree

theorem SlotOk.deferred (h : SlotOk pending s) (hd : Deferred s s' result) (hdata : ¬NoData s) :
    SlotOk pending s' := by
  have huse : InUse s := by
    by_contra hfree
    exact hdata (h.nodata hfree)
  have hdata' : ¬NoData s' := (NoData.of_same hd.buffers).not.mpr hdata
  refine ⟨fun _ _ _ => ?_, fun _ _ => ⟨hd.type, hdata'⟩, fun hfree => ?_, fun ht => ?_⟩
  · rw [hd.writing]
    refine h.writing huse (fun hwrite => ?_) hdata
    cases hd.more.symm.trans (nomoreSendingData_iff.mpr (.inr hwrite))
  · exact absurd ⟨by simp [hd.type], by simp [hd.type]⟩ hfree
  · cases hd.type.symm.trans ht

theorem SlotOk.opened {os : Syscalls} {id : ℕ} {protocol : Protocol} (hs : NoData s)
    (ho : Opened os s id protocol s' result) : SlotOk pending s' := by
  cases ho with
  | failed _ _ htype hbuffers _ => exact .of_invalid htype ((NoData.of_same hbuffers).mpr hs)
  | opened hnew htype _ =>
    refine ⟨fun _ _ hdata => absurd hnew.nodata hdata, fun _ hc => ?_, fun _ => hnew.nodata,
      fun ht => absurd ht htype.1⟩
    cases hnew.closing.symm.trans hc

theorem SlotOk.imp {pending' : Prop} (h : SlotOk pending s)
    (himp : InUse s → pending → s.writing = true ∨ pending') : SlotOk pending' s where
  writing huse hnotWrite hdata := by
    obtain hw | hp := h.writing huse hnotWrite hdata
    · exact .inl hw
    · exact himp huse hp
  closing := h.closing
  nodata := h.nodata
  protocol := h.protocol

/-! ## The server -/

/-- A `W` request for the socket is in the pipe or in the hands of the caller that has
filled `dw_buffer`. -/
def WritePending (s : SocketServer θ) : Prop :=
  .triggerWrite s.slot.id ∈ s.pipe ∨ ∃ t, s.pc t = .sendRequest (.triggerWrite s.slot.id)

/-- The condition: no close is put off while there is nothing to write, only for requests
that `sending` counts. -/
def DefersForData (s : SocketServer θ) (a : SocketAction θ) : Prop :=
  defers s a = true → ¬NoData s.slot

instance (s : SocketServer θ) (a : SocketAction θ) : Decidable (DefersForData s a) :=
  inferInstanceAs (Decidable (_ → _))

/-- The kernel refuses a change of the write event while that is off. -/
def refusesWrite (s : SocketServer θ) : SocketAction θ → Bool
  | .poll os => os.spEnableWrite && !s.slot.writing
  | _ => false

/-- The condition of a step.  While the kernel does not refuse to enable the write event,
one that is on in `writing` is on: a refused `enable_read` leaves it as it is, and every
other call of `sp_enable` hands `writing` to the kernel. -/
def ClosesForData (s : SocketServer θ) (a : SocketAction θ) : Prop :=
  DefersForData s a ∧ refusesWrite s a = false

instance (s : SocketServer θ) (a : SocketAction θ) : Decidable (ClosesForData s a) :=
  inferInstanceAs (Decidable (_ ∧ _))

structure ClosingOk [Fintype θ] (s : SocketServer θ) : Prop where
  reserve : ReserveOk s
  slot : SlotOk (WritePending s) s.slot

section Steps

variable [DecidableEq θ] {k : ℕ} {t : θ} {slot : Socket θ} {σ σ' : SocketServer θ}

theorem WritePending.caller (h : WritePending σ) {pc : SenderPc θ}
    {accepted : θ → List (SendBuffer θ)} (hid : slot.id = σ.slot.id)
    (hbefore : request? (σ.pc t) = none) :
    WritePending { σ with
      slot := slot, pc := update σ.pc t pc, accepted := accepted } := by
  obtain hpipe | ⟨u, hu⟩ := h
  · left
    rw [hid]
    exact hpipe
  · right
    refine ⟨u, ?_⟩
    have hut : u ≠ t := by
      rintro rfl
      rw [hu] at hbefore
      cases hbefore
    dsimp only
    rw [update_of_ne hut, hid]
    exact hu

theorem WritePending.push (h : WritePending σ) {r : Request θ} {issued : List ℕ}
    (hpc : σ.pc t = .sendRequest r) : WritePending { σ with
      pipe := σ.pipe ++ [r], issued := issued, pc := update σ.pc t .idle } := by
  obtain hpipe | ⟨u, hu⟩ := h
  · exact .inl (List.mem_append_left _ hpipe)
  · by_cases hut : u = t
    · subst hut
      obtain rfl := SenderPc.sendRequest.inj (hpc.symm.trans hu)
      exact .inl (List.mem_append_right _ List.mem_cons_self)
    · refine .inr ⟨u, ?_⟩
      dsimp only
      rw [update_of_ne hut]
      exact hu

omit [DecidableEq θ] in
theorem WritePending.take (h : WritePending σ) {r : Request θ} {pipe : List (Request θ)}
    (hpipe : σ.pipe = r :: pipe) (hid : σ'.slot.id = σ.slot.id) (hpipe' : σ'.pipe = pipe)
    (hpc : σ'.pc = σ.pc) : r = .triggerWrite σ.slot.id ∨ WritePending σ' := by
  obtain hmem | ⟨u, hu⟩ := h
  · rw [hpipe] at hmem
    obtain hr | hmem := List.mem_cons.mp hmem
    · exact .inl hr.symm
    · refine .inr (.inl ?_)
      rw [hid, hpipe']
      exact hmem
  · refine .inr (.inr ⟨u, ?_⟩)
    rw [hid, hpc]
    exact hu

theorem SlotOk.caller {pc : SenderPc θ} {accepted : θ → List (SendBuffer θ)}
    (h : SlotOk (WritePending σ) σ.slot) (hsame : Untouched σ.slot slot)
    (hbefore : request? (σ.pc t) = none) :
    SlotOk (WritePending { σ with
      slot := slot, pc := update σ.pc t pc, accepted := accepted }) slot :=
  (h.same hsame.frame.protocol (by rw [NoData, NoData, hsame.high, hsame.low, hsame.dwBuffer])
    hsame.state.type hsame.state.closing (.inr hsame.state.writing)).imp fun _ hp =>
      .inr (hp.caller hsame.frame.id hbefore)

omit [DecidableEq θ] in
theorem SlotOk.ctrl {os : Syscalls} {r : Request θ} (h : SlotOk (WritePending σ) σ.slot)
    (hr : r.opens = false) (hcmd : σ.slot.ctrlCmd os r = .ok (slot, result))
    (hdefer : ∀ id, r = .closeSocket id false → σ.slot.socketInvalid id = false →
      σ.slot.nomoreSendingData = false → ¬NoData σ.slot)
    (htake : slot.id = σ.slot.id → WritePending σ → r = .triggerWrite σ.slot.id ∨ WritePending σ') :
    SlotOk (WritePending σ') slot := by
  obtain heffect | ⟨id, rfl, hvalid, hdef⟩ := ctrlCmd_effect (d := false) hr hcmd
  · refine (h.effect heffect).imp fun huse hp => ?_
    obtain rfl | hp := htake heffect.frame.id hp
    · left
      have hret : σ.slot.triggerWrite os σ.slot.id = (slot, result) := Except.ok.inj hcmd
      have hlive : σ.slot.type ≠ .invalid := by
        intro ht
        have hsame : (slot, result) = (σ.slot, none) :=
          hret.symm.trans (if_pos (by simp [Socket.socketInvalid, ht]))
        exact huse.1 ((congrArg (fun p => p.1.type) hsame).trans ht)
      have hw : (σ.slot.triggerWrite os σ.slot.id).1.writing = true :=
        triggerWrite_writing rfl hlive
      rw [hret] at hw
      exact hw
    · exact .inr hp
  · refine (h.deferred hdef (hdefer id rfl hvalid hdef.more)).imp fun _ hp => ?_
    obtain hw | hp := htake hdef.frame.id hp
    · cases hw
    · exact .inr hp

/-- **Step.** Every step keeps the invariant, unless it puts off a close for nothing but
requests in flight. -/
theorem ClosingOk.step [Fintype θ] (h : ClosingOk σ) {a : SocketAction θ}
    (hok : DefersForData σ a) (hs : Stepped k σ a σ') : ClosingOk σ' := by
  have hnotDefer (ht : σ.slot.type = .reserve) : defers σ a = false := by
    by_contra hd
    exact hok (Bool.not_eq_false _ ▸ hd) (h.slot.nodata (not_inUse.mpr (.inr ht)))
  refine ⟨h.reserve.step hnotDefer hs, ?_⟩
  have hslot := h.slot
  cases hs with
  | stay => exact hslot
  | move hsame hbefore _ _ _ _ _ => exact hslot.caller hsame hbefore
  | post hsame hbefore _ _ _ _ _ _ => exact hslot.caller hsame hbefore
  | count hpc =>
    have hcounted : SlotOk (WritePending σ) { σ.slot with sending := σ.slot.sending + 1 } :=
      hslot.same rfl Iff.rfl rfl rfl (.inr rfl)
    exact hcounted.imp fun _ hp => .inr (hp.caller rfl (by rw [hpc]; rfl))
  | @direct _ t id n b written hpc hcan _ =>
    simp only [Socket.canDirectWrite, Bool.and_eq_true, decide_eq_true_eq] at hcan
    obtain ⟨⟨⟨rfl, -⟩, hconnected⟩, -⟩ := hcan
    have huse : InUse σ.slot := by simp [InUse, hconnected]
    refine ⟨fun _ _ _ => .inr (.inr ⟨t, update_self ..⟩), fun _ hc => ?_,
      fun hfree => absurd huse hfree, fun ht => ?_⟩
    · cases hconnected.symm.trans (hslot.closing huse hc).1
    · cases hconnected.symm.trans ht
  | push hpc => exact hslot.imp fun _ hp => .inr (hp.push hpc)
  | reserve _ hfree _ _ =>
    exact ⟨fun huse => absurd rfl huse.2, fun huse => absurd rfl huse.2,
      fun _ => hslot.nodata (not_inUse.mpr (.inl hfree)), fun _ => rfl⟩
  | @accept os id _ _ _ hfree _ hopened _ =>
    have hnodata : NoData (σ.slot.reserveId id) := hslot.nodata (not_inUse.mpr (.inl hfree))
    exact .opened hnodata hopened
  | halt _ => exact hslot
  | look => exact hslot
  | @ctrl os r pipe slot result events hsent hpipe hcheck hcmd hother =>
    cases hr : r.opens with
    | false =>
      refine hslot.ctrl hr hcmd (fun id hid hvalid hmore => hok ?_) fun hid => ?_
      · subst hid
        simp [defers, hsent, hcheck, hpipe, hvalid, hmore]
      · exact fun hp => hp.take hpipe hid rfl rfl
    | true =>
      have hreserve : σ.slot.type = .reserve := by
        by_contra hne
        cases hr.symm.trans ((h.reserve.none_opens hne).1 r (hpipe ▸ List.mem_cons_self))
      have hnodata := hslot.nodata (not_inUse.mpr (.inr hreserve))
      obtain ⟨-, hopened⟩ | ⟨rfl, -⟩ := ctrlCmd_opened hr hcmd
      · exact .opened hnodata hopened
      · exact .of_invalid rfl hnodata
  | @send os id b pipe hsent hpipe =>
    have heffect : Effect false σ.slot (σ.slot.sendSocket os id b none).1
        (σ.slot.sendSocket os id b none).2 := sendSocket_effect
    exact (hslot.effect heffect).imp fun _ hp =>
      .inr (Or.resolve_left (hp.take hpipe heffect.frame.id rfl rfl) (by rintro ⟨⟩))
  | uncount _ _ _ _ =>
    exact hslot.same rfl Iff.rfl rfl rfl (.inr rfl)
  | skip _ _ => exact hslot
  | event _ _ _ hdispatch =>
    have heffect := dispatchEvent_effect hdispatch
    refine (hslot.effect heffect).imp fun _ hp => .inr ?_
    unfold WritePending at hp ⊢
    rw [heffect.frame.id]
    exact hp

end Steps

/-! ## Runs -/

variable [Fintype θ] [DecidableEq θ] {k : ℕ} {σ : SocketServer θ}

theorem closingOk_of_reach (hs : (socketMachine k).Reach DefersForData σ) : ClosingOk σ := by
  refine hs.invariant (fun σ hstart => ?_) fun σ a σ' h hok hnext =>
    h.step hok (socketNext_cases hnext).2
  subst hstart
  exact ⟨reserveOk_create, .of_invalid rfl ⟨rfl, rfl, rfl⟩⟩

/-- A socket that is closing and not freed has data to write, and its write event is
enabled or a `W` request for it is on its way. -/
def WillBeFreed (σ : SocketServer θ) : Prop := InUse σ.slot → σ.slot.closing = true →
    ¬NoData σ.slot ∧ (σ.slot.writing = true ∨ WritePending σ)

/-- **No closing socket is leaked.** In every state of every run in which no close is put
off for nothing but requests in flight, and the kernel never refuses to enable the write
event, a closing socket that has not been freed has data in its lists or its `dw_buffer`,
and the write event that will send it is enabled or will be.
SRC: socket_server.c:538-544, 858-945, 1006-1076, 1099-1154, 1306-1397 -/
theorem closing_will_be_freed (hs : (socketMachine k).Reach ClosesForData σ) : WillBeFreed σ := by
  have h := (closingOk_of_reach (hs.mono fun _ _ => And.left)).slot
  intro huse hclosing
  obtain ⟨hread, hdata⟩ := h.closing huse hclosing
  exact ⟨hdata, h.writing huse (by simp [hread]) hdata⟩

def connectAndSend {θ : Type} (t u : θ) : List (SocketAction θ) :=
  [.reserve t (.openSocket 1 0), .step t true .again, .poll { connect := .connected none },
    .sendLowpriority u 1 .memory [65], .step u true .again, .step u true .again,
    .step u true .again]

def closeOne {θ : Type} (t : θ) : List (SocketAction θ) :=
  [.request t (.closeSocket 1 false), .step t true .again, .poll {}]

/-- A close that comes after the buffer is put off until it has been written. -/
theorem closing_will_be_freed_queued : ∃ σ : SocketServer (Fin 2),
    (socketMachine 1).Reach ClosesForData σ ∧ InUse σ.slot ∧ σ.slot.closing = true ∧
      WillBeFreed σ := by
  obtain ⟨σ, hrun, htype, hclosing⟩ : ∃ σ : SocketServer (Fin 2), (socketMachine 1).runOk ClosesForData
      (.create .fresh []) (connectAndSend 0 1 ++ [.step 1 true .again, .poll {}, .poll {}] ++
        closeOne 0) = some σ ∧ σ.slot.type = .halfcloseRead ∧ σ.slot.closing = true :=
    ⟨_, rfl, rfl, rfl⟩
  have hs := Machine.Reach.runOk (.start rfl) hrun
  exact ⟨σ, hs, by simp [InUse, htype], hclosing, closing_will_be_freed hs⟩

/-- A close that overtakes the buffer is put off for it, and then the buffer is dropped:
the socket is closing and open, with nothing to write and nothing on its way. -/
theorem closing_socket_is_leaked : ∃ σ : SocketServer (Fin 2),
    (socketMachine 1).Reachable σ ∧ InUse σ.slot ∧ σ.slot.closing = true ∧ NoData σ.slot ∧
      σ.pipe = [] ∧ σ.sent = none ∧ (∀ t, σ.pc t = .idle) ∧ ¬WillBeFreed σ := by
  obtain ⟨σ, hrun, htype, hclosing, hdata, hpipe, hsent, hpc⟩ :
      ∃ σ : SocketServer (Fin 2), (socketMachine 1).run (.create .fresh [])
        (connectAndSend 0 1 ++ closeOne 0 ++ [.step 1 true .again, .poll {}, .poll {}]) = some σ ∧ σ.slot.type = .halfcloseRead ∧
        σ.slot.closing = true ∧ NoData σ.slot ∧ σ.pipe = [] ∧ σ.sent = none ∧
        (σ.pc 0 = .idle ∧ σ.pc 1 = .idle) :=
    ⟨_, rfl, rfl, rfl, ⟨rfl, rfl, rfl⟩, rfl, rfl, rfl, rfl⟩
  have huse : InUse σ.slot := by simp [InUse, htype]
  exact ⟨σ, Machine.Reachable.run (.start rfl) hrun, huse, hclosing, hdata, hpipe, hsent,
    Fin.forall_fin_two.mpr hpc, fun h => (h huse hclosing).1 hdata⟩

end Skynet.Analysis
