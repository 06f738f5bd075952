import Skynet.Analysis.SocketEffects

/-!
# What one event does to a slot

The events of the loop of `socket_server_poll` as moves: reading, writing what waits,
a connection that is there, an error, the end of the stream.
-/

namespace Skynet.Analysis

open Model Socket

variable {θ : Type} {d : Bool} {s s' : Socket θ} {os : Syscalls} {result : SocketResult}

/-! ## Reading -/

theorem forwardMessageTcp_effect (htcp : s.protocol = .tcp) (hlive : s.type ≠ .invalid)
    (h : s.forwardMessageTcp os = .ok (s', result)) : Effect d s s' (moreIsData result) := by
  unfold forwardMessageTcp at h
  split at h
  · cases h
    exact .self s (notice_reportError _ _)
  · cases h
    exact .self s notice_none
  dsimp only at h
  split at h
  · split at h
    · split at h
      · obtain ⟨freed, hclose, hret⟩ := exists_of_map_ok h
        cases hret
        exact .of_forceClose hclose hlive ⟨rfl, rfl, rfl⟩ rfl (.inl notice_none)
      · cases h
        exact .self s notice_none
    next hopen =>
    split at h
    · cases h
      exact .self s notice_none
    next hread =>
    split at h
    · obtain ⟨freed, hclose, hret⟩ := exists_of_map_ok h
      cases hret
      exact .of_forceClose hclose hlive ⟨rfl, rfl, rfl⟩ rfl (.inr ⟨hread, _, rfl, rfl⟩)
    · next hwrite =>
      cases h
      have hopen : s.closing = false := by simpa using hopen
      rw [closeRead_eq]
      exact .eof ⟨rfl, rfl, rfl⟩ ⟨rfl, rfl, rfl, rfl, rfl, rfl⟩ htcp ⟨hlive, hread, hwrite⟩ rfl hopen
        hopen rfl rfl
  split at h
  · cases h
    exact .self s notice_none
  next hhalf =>
  have hhalf : s.type ≠ .halfcloseRead := by simpa [isHalfcloseRead] using hhalf
  split at h
  · cases h
    exact .deliver ⟨rfl, rfl, rfl⟩ ⟨rfl, rfl, rfl, rfl, rfl, rfl⟩ ⟨rfl, rfl, rfl⟩ hlive rfl
      (by rintro ⟨⟩) fun h => absurd h hhalf
  split at h
  · cases h
    exact .deliver ⟨rfl, rfl, rfl⟩ ⟨rfl, rfl, rfl, rfl, rfl, rfl⟩ ⟨rfl, rfl, rfl⟩ hlive rfl
      (by rintro ⟨⟩) fun h => absurd h hhalf
  · cases h
    exact .deliver ⟨rfl, rfl, rfl⟩ ⟨rfl, rfl, rfl, rfl, rfl, rfl⟩ ⟨rfl, rfl, rfl⟩ hlive rfl
      (by rintro ⟨⟩) fun h => absurd h hhalf

def gotDatagram (s : Socket θ) (os : Syscalls) : Bool :=
  match os.recvfrom with
  | .datagram _ v6 _ => s.protocol = if v6 then .udpv6 else .udp
  | _ => false

theorem forwardMessageUdp_effect (hlive : s.type ≠ .invalid)
    (h : s.forwardMessageUdp os = .ok (s', result)) :
    Effect (gotDatagram s os) s s' (moreIsData result) := by
  unfold forwardMessageUdp at h
  split at h
  · cases h
    exact .self s notice_none
  · obtain ⟨freed, hclose, hret⟩ := exists_of_map_ok h
    cases hret
    exact .of_forceClose hclose hlive ⟨rfl, rfl, rfl⟩ rfl (.inl (notice_err _))
  · next hrecv =>
    split at h
    · cases h
      exact .self s notice_none
    · next hprotocol =>
      cases h
      exact .deliver ⟨rfl, rfl, rfl⟩ ⟨rfl, rfl, rfl, rfl, rfl, rfl⟩ ⟨rfl, rfl, rfl⟩ hlive rfl nofun
        fun _ => by simpa [gotDatagram, hrecv] using hprotocol
  · next hrecv =>
    split at h
    · cases h
      exact .self s notice_none
    · next hprotocol =>
      cases h
      exact .deliver ⟨rfl, rfl, rfl⟩ ⟨rfl, rfl, rfl, rfl, rfl, rfl⟩ ⟨rfl, rfl, rfl⟩ hlive rfl nofun
        fun _ => by simpa [gotDatagram, hrecv] using hprotocol

theorem forwardMessage_effect (hlive : s.type ≠ .invalid)
    (h : s.forwardMessage os = .ok (s', result)) :
    Effect (s.protocol ≠ .tcp && gotDatagram s os) s s' (moreIsData result) := by
  unfold forwardMessage at h
  split at h
  · next htcp => exact forwardMessageTcp_effect htcp hlive h
  · next hudp => simpa [hudp] using forwardMessageUdp_effect hlive h

theorem reportConnect_effect (htype : s.type = .connecting)
    (h : s.reportConnect os = .ok (s', result)) : Effect d s s' result := by
  have hlive : s.type ≠ .invalid := by simp [htype]
  unfold reportConnect at h
  split at h
  · obtain ⟨freed, hclose, hret⟩ := exists_of_map_ok h
    cases hret
    exact .of_forceClose hclose hlive ⟨rfl, rfl, rfl⟩ rfl (.inl (notice_err _))
  dsimp only at h
  split at h
  · next hnomore =>
    obtain ⟨hnodata, -⟩ | hwrite := nomoreSendingData_iff.mp hnomore
    · split at h
      · next hw =>
        obtain rfl := enableWrite_eq hw
        obtain ⟨freed, hclose, hret⟩ := exists_of_map_ok h
        cases hret
        obtain ⟨-, rfl⟩ := forceClose_ok hclose nofun
        exact .free ⟨rfl, rfl, rfl⟩ ⟨hlive, by simp [htype]⟩ rfl ⟨rfl, rfl, rfl⟩
          (.inl (notice_err _))
      · next hw =>
        obtain rfl := enableWrite_eq hw
        cases h
        exact .start ⟨rfl, rfl, rfl⟩ ⟨rfl, rfl, rfl, rfl, rfl, rfl⟩ rfl (.inr (.inr htype)) (.inl rfl)
          (.inr hnodata) rfl
    · cases hwrite
  · cases h
    exact .start ⟨rfl, rfl, rfl⟩ ⟨rfl, rfl, rfl, rfl, rfl, rfl⟩ rfl (.inr (.inr htype)) (.inl rfl)
      (.inl rfl) rfl

theorem reportAccept_effect (htype : s.type = .listen) : Effect d s s (s.reportAccept os) := by
  unfold reportAccept
  split
  · exact .deliver ⟨rfl, rfl, rfl⟩ ⟨rfl, rfl, rfl, rfl, rfl, rfl⟩ ⟨rfl, rfl, rfl⟩ (by simp [htype])
      rfl nofun fun h => nomatch htype.symm.trans h
  · exact .self s (notice_err _)
  · exact .self s notice_none

/-! ## Writing -/

/-- The socket with less to write: nothing else has changed, and the direct write buffer
is on the high list. -/
structure Progress (s s' : Socket θ) : Prop where
  frame : Frame s s'
  state : SameState s s'
  dwBuffer : s'.dwBuffer = none
  nodata : NoData s → NoData s'

theorem Progress.setList {s₀ : Socket θ} (hs : Progress s₀ s) (priority : Priority)
    {l : List (WriteBuffer θ)} (hl : s.list priority = [] → l = []) :
    Progress s₀ (s.setList priority l) := by
  obtain ⟨hframe, hstate, hdw, hempty⟩ := hs
  cases priority with
  | high =>
    exact ⟨⟨hframe.id, hframe.protocol, hframe.sending⟩,
      ⟨hstate.type, hstate.closing, hstate.writing⟩, hdw,
      fun hs => ⟨hl (hempty hs).1, (hempty hs).2.1, hdw⟩⟩
  | low =>
    exact ⟨⟨hframe.id, hframe.protocol, hframe.sending⟩,
      ⟨hstate.type, hstate.closing, hstate.writing⟩, hdw,
      fun hs => ⟨(hempty hs).1, hl (hempty hs).2.1, hdw⟩⟩

theorem Progress.withSize {s₀ : Socket θ} (hs : Progress s₀ s) (size : ℤ) (written : List UInt8)
    (done : List (SendBuffer θ)) :
    Progress s₀ { s with wbSize := size, written := written, done := done } :=
  ⟨⟨hs.frame.id, hs.frame.protocol, hs.frame.sending⟩,
    ⟨hs.state.type, hs.state.closing, hs.state.writing⟩, hs.dwBuffer, hs.nodata⟩

/-- `send_list` takes buffers off its list, and half-closes a tcp socket when a write
fails. -/
theorem sendList_ok {priority : Priority} {results : List WriteResult}
    (h : s.sendList os priority results = .ok (s', result)) :
    ∃ s₁ : Socket θ, (∀ s₀, Progress s₀ s → Progress s₀ s₁) ∧
      (result = none ∧ s' = s₁ ∨ s.protocol = .tcp ∧ s₁.closeWrite os = .ok (s', result)) := by
  unfold sendList at h
  split at h
  · next htcp =>
    refine ⟨s.afterDrain priority (drain (s.list priority) results),
      fun s₀ hs => (hs.setList priority fun hnil => by rw [hnil, drain]).withSize _ _ _, ?_⟩
    unfold sendListTcp at h
    dsimp only at h
    split at h
    · exact .inr ⟨htcp, h⟩
    · cases h
      exact .inl ⟨rfl, rfl⟩
  · cases h
    refine ⟨(s.sendListUdp os priority results).1, fun s₀ hs => ?_, .inl ⟨rfl, rfl⟩⟩
    exact (hs.setList priority fun hnil => by rw [hnil, drainUdp]).withSize _ _ _

theorem Progress.flush (h : Progress s s') (hlive : s.type ≠ .invalid) (hdata : ¬NoData s') :
    Effect d s s' none := by
  refine .flush h.frame hlive h.state.type h.state.closing h.dwBuffer
    (.inl ⟨?_, hdata, h.state.writing⟩) notice_none
  by_contra hnone
  obtain ⟨hhigh, hnone⟩ := not_or.mp hnone
  obtain ⟨hlow, hdw⟩ := not_or.mp hnone
  exact hdata (h.nodata ⟨not_not.mp hhigh, not_not.mp hlow, not_not.mp hdw⟩)

/-- `close_write` frees a socket that is being closed, leaves one that is half-closed
alone, and half-closes any other; `send_buffer_` passes on an error only. -/
theorem closeWrite_effect {s₁ : Socket θ} (hs : Progress s s₁) (htcp : s.protocol = .tcp)
    (hlive : s.type ≠ .invalid) (h : s₁.closeWrite os = .ok (s', result)) :
    (∃ m, result = some (.socketErr, m)) ∧ Effect d s s' result ∨
      (∃ m, result = some (.socketRst, m)) ∧ Effect d s s' none := by
  unfold closeWrite at h
  split at h
  · obtain ⟨freed, hclose, hret⟩ := exists_of_map_ok h
    cases hret
    exact .inr ⟨⟨_, rfl⟩, .of_forceClose hclose hlive hs.frame hs.state.type (.inl notice_none)⟩
  next hopen =>
  obtain ⟨hopen, hread⟩ := not_or.mp hopen
  split at h
  · next hwrite =>
    cases h
    exact .inr ⟨⟨_, rfl⟩, .flush hs.frame hlive hs.state.type hs.state.closing hs.dwBuffer
      (.inr (.inl ⟨hs.state.type ▸ hwrite, hs.state.writing⟩)) notice_none⟩
  · cases h
    have hopen : s₁.closing = false := by simpa using hopen
    refine .inl ⟨⟨_, rfl⟩, ?_⟩
    rw [show (enableWrite { s₁ with type := .halfcloseWrite } os false).1 =
      { s₁ with type := .halfcloseWrite, writing := false } from enableWrite_eq rfl]
    exact .failWrite ⟨hs.frame.id, hs.frame.protocol, hs.frame.sending⟩ htcp hlive
      (hs.state.type ▸ hread) (hs.state.closing ▸ hopen) hopen rfl hs.dwBuffer
      (notice_reportError _ _)

theorem bufferSent_effect {s₁ : Socket θ} (hs : Progress s s₁) (hlive : s.type ≠ .invalid)
    (h : s₁.bufferSent os = .ok (s', result)) : Effect d s s' result := by
  unfold bufferSent at h
  split at h
  · cases h
  next hsent =>
  obtain ⟨hempty, -⟩ := not_or.mp hsent
  obtain ⟨hhigh, hlow⟩ := sendBufferEmpty_iff.mp (by simpa using hempty)
  split at h
  · obtain ⟨freed, hclose, hret⟩ := exists_of_map_ok h
    cases hret
    exact .of_forceClose hclose hlive hs.frame hs.state.type (.inl notice_none)
  next hopen =>
  have hopen : s.closing = false := hs.state.closing ▸ by simpa using hopen
  have hframe : Frame s s₁ := hs.frame
  split at h
  · next hw =>
    obtain rfl := enableWrite_eq hw
    cases h
    exact .flush ⟨hframe.id, hframe.protocol, hframe.sending⟩ hlive hs.state.type hs.state.closing
      hs.dwBuffer (.inr (.inr ⟨⟨hhigh, hlow, hs.dwBuffer⟩, hopen⟩)) (notice_reportError _ _)
  next hw =>
  obtain rfl := enableWrite_eq hw
  split at h
  · cases h
    exact .flush ⟨hframe.id, hframe.protocol, hframe.sending⟩ hlive hs.state.type hs.state.closing
      hs.dwBuffer (.inr (.inr ⟨⟨hhigh, hlow, hs.dwBuffer⟩, hopen⟩)) (notice_warning _)
  · cases h
    exact .flush ⟨hframe.id, hframe.protocol, hframe.sending⟩ hlive hs.state.type hs.state.closing
      hs.dwBuffer (.inr (.inr ⟨⟨hhigh, hlow, hs.dwBuffer⟩, hopen⟩)) notice_none

theorem sendList_effect {s₁ s₂ : Socket θ} {priority : Priority} {results : List WriteResult}
    (hs : Progress s s₁) (hlive : s.type ≠ .invalid)
    (h : s₁.sendList os priority results = .ok (s₂, result)) :
    result = none ∧ Progress s s₂ ∨ (∃ m, result = some (.socketErr, m)) ∧ Effect d s s₂ result ∨
      (∃ m, result = some (.socketRst, m)) ∧ Effect d s s₂ none := by
  obtain ⟨s₃, hprogress, ⟨hnone, rfl⟩ | ⟨htcp, hclose⟩⟩ := sendList_ok h
  · exact .inl ⟨hnone, hprogress s hs⟩
  · exact .inr (closeWrite_effect (hprogress s hs) (hs.frame.protocol ▸ htcp) hlive hclose)

theorem sendLow_effect {s₁ : Socket θ} (hs : Progress s s₁) (hlive : s.type ≠ .invalid)
    (h : s₁.sendLow os = .ok (s', result)) : Effect d s s' result := by
  unfold sendLow at h
  split at h
  · exact bufferSent_effect hs hlive h
  split at h
  · cases h
  · next hlist =>
    cases h
    obtain ⟨hnone, -⟩ | ⟨-, heffect⟩ | ⟨⟨_, hrst⟩, -⟩ := sendList_effect hs hlive hlist
    · cases hnone
    · exact heffect
    · cases hrst
  · next _ herr hlist =>
    cases h
    obtain ⟨hnone, -⟩ | ⟨⟨m, hm⟩, -⟩ | ⟨-, heffect⟩ := sendList_effect hs hlive hlist
    · cases hnone
    · exact absurd (Option.some.inj hm) (herr m)
    · exact heffect
  · next s₃ hlist =>
    obtain ⟨-, hs⟩ | ⟨⟨_, hm⟩, -⟩ | ⟨⟨_, hm⟩, -⟩ := sendList_effect (d := d) hs hlive hlist
    · split at h
      · next hun =>
        obtain ⟨raised, hraise, hret⟩ := exists_of_map_ok h
        cases hret
        unfold raiseUncomplete at hraise
        split at hraise
        · cases hraise
        cases hraise
        cases hlow : s₃.low with
        | nil => simp [hlow, listUncomplete] at hun
        | cons wb rest =>
          have hprog : Progress s { s₃ with high := [wb], low := rest } :=
            ⟨⟨hs.frame.id, hs.frame.protocol, hs.frame.sending⟩,
              ⟨hs.state.type, hs.state.closing, hs.state.writing⟩, hs.dwBuffer,
              fun hn => by simpa [hlow] using (hs.nodata hn).2.1⟩
          exact hprog.flush hlive fun hn => by cases hn.1
      split at h
      · next hlow =>
        cases h
        exact hs.flush hlive fun hn => by simp [hn.2.1] at hlow
      · exact bufferSent_effect hs hlive h
    · cases hm
    · cases hm

theorem sendBuffer_effect (hlive : s.type ≠ .invalid)
    (h : s.sendBuffer os = .ok (s', result)) : Effect d s s' result := by
  unfold sendBuffer at h
  split at h
  · cases h
    exact .self s notice_none
  have hs : Progress s s.takeDirect := by
    unfold takeDirect
    split
    · next hdw => exact ⟨⟨rfl, rfl, rfl⟩, ⟨rfl, rfl, rfl⟩, hdw, id⟩
    · next hdw =>
      refine ⟨⟨rfl, rfl, rfl⟩, ⟨rfl, rfl, rfl⟩, rfl, fun hn => ?_⟩
      cases hdw.symm.trans hn.2.2
  unfold sendBuffer_ at h
  split at h
  · cases h
  split at h
  · cases h
  · next hlist =>
    cases h
    obtain ⟨hnone, -⟩ | ⟨-, heffect⟩ | ⟨⟨_, hrst⟩, -⟩ := sendList_effect hs hlive hlist
    · cases hnone
    · exact heffect
    · cases hrst
  · next _ herr hlist =>
    cases h
    obtain ⟨hnone, -⟩ | ⟨⟨m, hm⟩, -⟩ | ⟨-, heffect⟩ := sendList_effect hs hlive hlist
    · cases hnone
    · exact absurd (Option.some.inj hm) (herr m)
    · exact heffect
  · next s₃ hlist =>
    obtain ⟨-, hs⟩ | ⟨⟨_, hm⟩, -⟩ | ⟨⟨_, hm⟩, -⟩ := sendList_effect (d := d) hs hlive hlist
    · split at h
      · exact sendLow_effect hs hlive h
      · next hhigh =>
        cases h
        exact hs.flush hlive fun hn => by simp [hn.1] at hhigh
    · cases hm
    · cases hm

theorem dispatchEvent_effect {e : Event} {kept : Option Event}
    (h : s.dispatchEvent os e = .ok (s', result, kept)) :
    Effect (e.read && (s.protocol ≠ .tcp && gotDatagram s os)) s s' result := by
  unfold dispatchEvent at h
  split at h
  · next htype =>
    obtain ⟨⟨s₁, r⟩, hconnect, hret⟩ := exists_of_map_ok h
    cases hret
    exact reportConnect_effect htype hconnect
  · next htype =>
    cases h
    exact reportAccept_effect htype
  · cases h
    exact .self s notice_none
  next hlive =>
  split at h
  · next hflag =>
    obtain ⟨⟨s₁, r⟩, hread, hret⟩ := exists_of_map_ok h
    cases hret
    rw [hflag, Bool.true_and]
    exact forwardMessage_effect hlive hread
  split at h
  · obtain ⟨⟨s₁, r⟩, hwrite, hret⟩ := exists_of_map_ok h
    cases hret
    exact sendBuffer_effect hlive hwrite
  split at h
  · cases h
    exact .self s (notice_reportError _ _)
  split at h
  · obtain ⟨freed, hclose, hret⟩ := exists_of_map_ok h
    cases hret
    refine .of_forceClose hclose hlive ⟨rfl, rfl, rfl⟩ rfl ?_
    by_cases hhalf : s.type = .halfcloseRead
    · simpa [isHalfcloseRead, hhalf] using notice_none
    · right
      exact ⟨hhalf, s.message, by simp [isHalfcloseRead, hhalf], rfl⟩
  · cases h
    exact .self s notice_none

end Skynet.Analysis
