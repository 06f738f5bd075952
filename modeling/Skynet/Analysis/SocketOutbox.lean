import Skynet.Analysis.SocketEvents
import Skynet.Library.Outbox

/-!
# A tcp socket as an outbox

The direct write buffer, the high list and the low list of a tcp socket are one queue of
buffers, of which only the first may have been written in part.  As long as the socket is
neither closed nor hit by a write error, every call on it goes on writing that queue, or
puts a buffer into it behind the one that has been begun.
-/

namespace Skynet.Analysis

open Library Model Socket List Relation

variable {θ : Type} {s s' : Socket θ} {os : Syscalls} {result : SocketResult}

def piece (wb : WriteBuffer θ) : SendBuffer θ × ℕ := (wb.buffer, wb.offset)

def unwritten (s : Socket θ) : List (SendBuffer θ × ℕ) :=
  (s.dwBuffer.map fun b => (b, s.dwOffset)).toList ++ (s.high ++ s.low).map piece

def outbox (s : Socket θ) : Outbox UInt8 (SendBuffer θ) := ⟨s.written, s.done, unwritten s⟩

def Writes (s s' : Socket θ) : Prop :=
  ReflTransGen (Outbox.Write SendBuffer.bytes) (outbox s) (outbox s')

def LowOk (s : Socket θ) : Prop := ∀ wb ∈ s.low, wb.offset = 0 ∧ wb.buffer.priority = .low

def Unbroken (s : Socket θ) : Prop :=
  s.type ≠ .invalid ∧ s.type ≠ .halfcloseWrite ∧ s.closing = false

instance (s : Socket θ) : Decidable (Unbroken s) := inferInstanceAs (Decidable (_ ∧ _ ∧ _))

theorem outbox_of_same (h : SameBuffers s s') : outbox s' = outbox s := by
  rw [outbox, outbox, unwritten, unwritten, h.written, h.done, h.high, h.low, h.dwBuffer, h.dwOffset]

/-! ## Writing -/

theorem drain_writes (l : List (WriteBuffer θ)) (results : List WriteResult) (out : List UInt8)
    (done : List (SendBuffer θ)) (rest : List (SendBuffer θ × ℕ)) :
    ReflTransGen (Outbox.Write SendBuffer.bytes) ⟨out, done, l.map piece ++ rest⟩
      ⟨out ++ (drain l results).bytes, done ++ (drain l results).done,
        (drain l results).list.map piece ++ rest⟩ := by
  fun_induction drain l results generalizing out done with
  | case1 => simpa using ReflTransGen.refl
  | case2 wb l => simpa using ReflTransGen.refl
  | case3 wb l results => simpa using ReflTransGen.refl
  | case4 wb l results ih => exact ih out done
  | case5 wb l results => simpa using ReflTransGen.refl
  | case6 wb l n results sz bytes hpart =>
    simpa [piece, bytes] using ReflTransGen.single
      (Outbox.Write.piece out done wb.buffer wb.offset sz (l.map piece ++ rest))
  | case7 wb l n results sz bytes hwhole d ih =>
    have hbytes : bytes = wb.buffer.bytes.drop wb.offset := take_of_length_le (by
        rw [length_drop]
        exact Nat.le_of_eq (not_not.mp hwhole).symm)
    have hstep : Outbox.Write SendBuffer.bytes _ _ :=
      .whole out done wb.buffer wb.offset (l.map piece ++ rest)
    have hrest := ih (out ++ wb.buffer.bytes.drop wb.offset) (done ++ [wb.buffer])
    simpa [hbytes, d, piece] using ReflTransGen.head hstep hrest

theorem drain_list (l : List (WriteBuffer θ)) (results : List WriteResult) :
    (drain l results).list = [] ∨ ∃ front wb rest n, l = front ++ wb :: rest ∧
      (drain l results).list = { wb with offset := n } :: rest := by
  fun_induction drain l results with
  | case1 => exact .inl rfl
  | case2 wb l => exact .inr ⟨[], wb, l, wb.offset, rfl, rfl⟩
  | case3 wb l results => exact .inr ⟨[], wb, l, wb.offset, rfl, rfl⟩
  | case4 wb l results ih => exact ih
  | case5 wb l results => exact .inr ⟨[], wb, l, wb.offset, rfl, rfl⟩
  | case6 wb l n results sz bytes hpart => exact .inr ⟨[], wb, l, wb.offset + sz, rfl, rfl⟩
  | case7 wb l n results sz bytes hwhole d ih =>
    obtain hnil | ⟨front, wb', rest, n', rfl, hlist⟩ := ih
    · exact .inl hnil
    · exact .inr ⟨wb :: front, wb', rest, n', rfl, hlist⟩

theorem drainUdp_suffix (behind : UdpAddress) (l : List (WriteBuffer θ))
    (results : List WriteResult) : (s.drainUdp behind l results).1 <:+ l := by
  fun_induction drainUdp s behind l results with
  | case1 => exact suffix_rfl
  | case2 wb rest => exact suffix_cons wb rest
  | case3 => exact suffix_rfl
  | case4 => exact suffix_rfl
  | case5 => exact suffix_rfl
  | case6 wb rest => exact suffix_cons wb rest
  | case7 wb rest haddr n results l' n' hdrain ih =>
    rw [hdrain] at ih
    exact ih.trans (suffix_cons wb rest)

theorem forceClose_type (h : s.forceClose = .ok s') : s'.type = .invalid := by
  unfold forceClose at h
  split at h
  · next ht => exact Except.ok.inj h ▸ ht
  · cases h
  · exact Except.ok.inj h ▸ rfl

theorem closeWrite_broken (h : s.closeWrite os = .ok (s', result)) :
    (∃ r, result = some r) ∧ ¬Unbroken s' := by
  unfold closeWrite at h
  split at h
  · obtain ⟨freed, hclose, hret⟩ := exists_of_map_ok h
    cases hret
    exact ⟨⟨_, rfl⟩, fun hun => hun.1 (forceClose_type hclose)⟩
  split at h
  · next hwrite =>
    cases h
    exact ⟨⟨_, rfl⟩, fun hun => hun.2.1 hwrite⟩
  · cases h
    refine ⟨⟨_, rfl⟩, fun hun => hun.2.1 ?_⟩
    exact congrArg Socket.type (enableWrite_eq (show enableWrite _ os _ = _ from rfl))

theorem sendList_tcp {priority : Priority} {results : List WriteResult} (htcp : s.protocol = .tcp)
    (h : s.sendList os priority results = .ok (s', result)) :
    result = none ∧ s' = s.afterDrain priority (drain (s.list priority) results) ∨
      (∃ r, result = some r) ∧ ¬Unbroken s' := by
  unfold sendList at h
  rw [if_pos htcp] at h
  unfold sendListTcp at h
  dsimp only at h
  split at h
  · exact .inr (closeWrite_broken h)
  · cases h
    exact .inl ⟨rfl, rfl⟩

theorem bufferSent_outbox (h : s.bufferSent os = .ok (s', result)) (hun : Unbroken s') :
    outbox s' = outbox s ∧ s'.low = s.low := by
  unfold bufferSent at h
  split at h
  · cases h
  split at h
  · obtain ⟨freed, hclose, hret⟩ := exists_of_map_ok h
    cases hret
    exact absurd (forceClose_type hclose) hun.1
  split at h
  · next hw =>
    obtain rfl := enableWrite_eq hw
    cases h
    exact ⟨rfl, rfl⟩
  next hw =>
  obtain rfl := enableWrite_eq hw
  split at h
  · cases h
    exact ⟨rfl, rfl⟩
  · cases h
    exact ⟨rfl, rfl⟩

theorem afterDrain_high (hdw : s.dwBuffer = none) (results : List WriteResult) :
    Writes s (s.afterDrain .high (drain s.high results)) := by
  have h := drain_writes s.high results s.written s.done (s.low.map piece)
  simpa [Writes, outbox, unwritten, hdw, afterDrain, setList] using h

theorem afterDrain_low (hdw : s.dwBuffer = none) (hhigh : s.high = []) (results : List WriteResult) :
    Writes s (s.afterDrain .low (drain s.low results)) := by
  have h := drain_writes s.low results s.written s.done []
  simpa [Writes, outbox, unwritten, hdw, hhigh, afterDrain, setList] using h

theorem raiseUncomplete_outbox (hhigh : s.high = []) (h : s.raiseUncomplete = .ok s') :
    outbox s' = outbox s ∧ s'.low = s.low.tail := by
  unfold raiseUncomplete at h
  split at h
  · cases h
  cases h
  refine ⟨?_, drop_one⟩
  simp only [outbox, unwritten, hhigh, take_append_drop, nil_append]

theorem drain_low {l : List (WriteBuffer θ)} (results : List WriteResult)
    (hl : ∀ wb ∈ l, wb.offset = 0 ∧ wb.buffer.priority = .low) :
    (∀ wb ∈ (drain l results).list, wb.buffer.priority = .low) ∧
      ∀ wb ∈ (drain l results).list.tail, wb.offset = 0 := by
  obtain hnil | ⟨front, wb', rest, n, rfl, hrest⟩ := drain_list l results
  · rw [hnil]
    exact ⟨nofun, nofun⟩
  rw [hrest]
  have hbehind (wb : WriteBuffer θ) (hwb : wb ∈ rest) :=
    hl wb (mem_append_right front (mem_cons_of_mem wb' hwb))
  refine ⟨fun wb hwb => ?_, fun wb hwb => (hbehind wb hwb).1⟩
  obtain rfl | hwb := mem_cons.mp hwb
  · exact (hl wb' (mem_append_right front mem_cons_self)).2
  · exact (hbehind wb hwb).2

theorem offset_of_complete {l : List (WriteBuffer θ)} (hcomplete : ¬listUncomplete l = true)
    (htail : ∀ wb ∈ l.tail, wb.offset = 0) : ∀ wb ∈ l, wb.offset = 0 := by
  cases l with
  | nil => exact nofun
  | cons first rest =>
    intro wb hwb
    obtain rfl | hwb := mem_cons.mp hwb
    · by_contra hoffset
      exact hcomplete (by simp [listUncomplete, hoffset])
    · exact htail wb hwb

theorem sendLow_writes (htcp : s.protocol = .tcp) (hdw : s.dwBuffer = none) (hhigh : s.high = [])
    (hlow : LowOk s) (h : s.sendLow os = .ok (s', result)) (hun : Unbroken s') :
    Writes s s' ∧ LowOk s' := by
  unfold sendLow at h
  split at h
  · obtain ⟨hsame, hlist⟩ := bufferSent_outbox h hun
    refine ⟨?_, fun wb hwb => hlow wb (hlist ▸ hwb)⟩
    rw [Writes, hsame]
  split at h
  · cases h
  · next hlist =>
    cases h
    obtain ⟨hnone, -⟩ | ⟨-, hbroken⟩ := sendList_tcp htcp hlist
    · cases hnone
    · exact absurd hun hbroken
  · next hlist =>
    cases h
    obtain ⟨hnone, -⟩ | ⟨-, hbroken⟩ := sendList_tcp htcp hlist
    · cases hnone
    · exact absurd hun hbroken
  next s₁ hlist =>
  obtain ⟨-, hs₁⟩ | ⟨⟨_, hsome⟩, -⟩ := sendList_tcp htcp hlist
  · have hwrites : Writes s s₁ := hs₁ ▸ afterDrain_low hdw hhigh os.writeLow
    have hhigh₁ : s₁.high = [] := hs₁ ▸ hhigh
    obtain ⟨hpriority, htail⟩ := drain_low os.writeLow hlow
    rw [show (drain s.low os.writeLow).list = s₁.low from hs₁ ▸ rfl] at hpriority htail
    split at h
    · obtain ⟨raised, hraise, hret⟩ := exists_of_map_ok h
      cases hret
      obtain ⟨hsame, hlist⟩ := raiseUncomplete_outbox hhigh₁ hraise
      rw [Writes, hsame]
      refine ⟨hwrites, fun wb hwb => ?_⟩
      rw [hlist] at hwb
      exact ⟨htail wb hwb, hpriority wb (mem_of_mem_tail hwb)⟩
    next hcomplete =>
    have hlow₁ : LowOk s₁ := fun wb hwb =>
      ⟨offset_of_complete hcomplete htail wb hwb, hpriority wb hwb⟩
    split at h
    · cases h
      exact ⟨hwrites, hlow₁⟩
    · obtain ⟨hsame, hlist⟩ := bufferSent_outbox h hun
      rw [Writes, hsame]
      exact ⟨hwrites, fun wb hwb => hlow₁ wb (hlist ▸ hwb)⟩
  · cases hsome

theorem takeDirect_outbox (s : Socket θ) : outbox s.takeDirect = outbox s ∧
    s.takeDirect.dwBuffer = none ∧ s.takeDirect.low = s.low ∧
      s.takeDirect.protocol = s.protocol := by
  unfold takeDirect
  split
  · next hdw => exact ⟨rfl, hdw, rfl, rfl⟩
  · next b hdw => simp [outbox, unwritten, hdw, piece]

/-- **Write event.** `send_buffer` writes the queue from the front. -/
theorem sendBuffer_writes (htcp : s.protocol = .tcp) (hlow : LowOk s)
    (h : s.sendBuffer os = .ok (s', result)) (hun : Unbroken s') : Writes s s' ∧ LowOk s' := by
  unfold sendBuffer at h
  split at h
  · cases h
    exact ⟨.refl, hlow⟩
  obtain ⟨hsame, hdw, hlist, hprotocol⟩ := takeDirect_outbox s
  have htcp : s.takeDirect.protocol = .tcp := hprotocol.trans htcp
  have hlow : LowOk s.takeDirect := fun wb hwb => hlow wb (hlist ▸ hwb)
  rw [Writes, ← hsame]
  unfold sendBuffer_ at h
  split at h
  · cases h
  split at h
  · cases h
  · next hsend =>
    cases h
    obtain ⟨hnone, -⟩ | ⟨-, hbroken⟩ := sendList_tcp htcp hsend
    · cases hnone
    · exact absurd hun hbroken
  · next hsend =>
    cases h
    obtain ⟨hnone, -⟩ | ⟨-, hbroken⟩ := sendList_tcp htcp hsend
    · cases hnone
    · exact absurd hun hbroken
  next s₁ hsend =>
  obtain ⟨-, rfl⟩ | ⟨⟨_, hsome⟩, -⟩ := sendList_tcp htcp hsend
  · have hwrites := afterDrain_high hdw os.writeHigh
    split at h
    · next hhigh =>
      obtain ⟨hrest, hlow'⟩ := sendLow_writes (by exact htcp) (by exact hdw)
        (List.isEmpty_iff.mp hhigh) (by exact hlow) h hun
      exact ⟨hwrites.trans hrest, hlow'⟩
    · cases h
      exact ⟨hwrites, hlow⟩
  · cases hsome

/-! ## Sending -/

/-- The queue `queue'` is `queue` with a new buffer somewhere behind the first that has been
begun, and in front of low priority buffers only. -/
def Inserted (b : SendBuffer θ) (queue queue' : List (SendBuffer θ × ℕ)) : Prop :=
  ∃ front rest, queue = front ++ rest ∧ queue' = front ++ (b, 0) :: rest ∧
    ∀ p ∈ rest, p.2 = 0 ∧ p.1.priority = .low

structure Inserts (b : SendBuffer θ) (s s' : Socket θ) : Prop where
  queue : Inserted b (unwritten s) (unwritten s')
  written : s'.written = s.written
  done : s'.done = s.done
  low : LowOk s'

theorem appendSendbuffer_inserts {b : SendBuffer θ} {priority : Priority}
    {addr : Option UdpAddress} (hlow : LowOk s) (hpriority : priority = .low → b.priority = .low) :
    Inserts b s (s.appendSendbuffer priority b addr) := by
  cases priority with
  | high =>
    refine ⟨⟨(s.dwBuffer.map fun b => (b, s.dwOffset)).toList ++ s.high.map piece, s.low.map piece,
      ?_, ?_, fun p hp => ?_⟩, rfl, rfl, hlow⟩
    · simp [unwritten]
    · simp [unwritten, appendSendbuffer, setList, list, piece]
    · obtain ⟨wb, hwb, rfl⟩ := mem_map.mp hp
      exact hlow wb hwb
  | low =>
    refine ⟨⟨unwritten s, [], ?_, ?_, nofun⟩, rfl, rfl, fun wb hwb => ?_⟩
    · simp
    · simp [unwritten, appendSendbuffer, setList, list, piece]
    · obtain hwb | hwb := mem_append.mp (show wb ∈ s.low ++ [_] from hwb)
      · exact hlow wb hwb
      · obtain rfl := mem_singleton.mp hwb
        exact ⟨rfl, hpriority rfl⟩

theorem Inserts.same {b : SendBuffer θ} {s₁ : Socket θ} (h : Inserts b s s₁)
    (hsame : SameBuffers s₁ s') : Inserts b s s' where
  queue := by
    have hqueue : unwritten s' = unwritten s₁ := congrArg Outbox.queue (outbox_of_same hsame)
    exact hqueue ▸ h.queue
  written := hsame.written.trans h.written
  done := hsame.done.trans h.done
  low wb hwb := h.low wb (hsame.low ▸ hwb)

theorem startWriting_same : SameBuffers s (s.startWriting os).1 := by
  obtain ⟨warn, heq, -⟩ := startWriting_eq s os
  rw [heq]
  exact ⟨rfl, rfl, rfl, rfl, rfl, rfl⟩

theorem warnSending_same : SameBuffers s s.warnSending.1 := by
  obtain ⟨warn, heq, -⟩ := warnSending_eq s
  rw [heq]
  exact ⟨rfl, rfl, rfl, rfl, rfl, rfl⟩

/-- **Request.** `send_socket` puts the buffer into the queue of an open tcp socket. -/
theorem sendSocket_inserts {b : SendBuffer θ} (htype : s.type = .connected ∨ s.type = .halfcloseRead)
    (hopen : s.closing = false) (htcp : s.protocol = .tcp) (hlow : LowOk s) :
    Inserts b s (s.sendSocket os s.id b none).1 := by
  unfold sendSocket
  rw [if_neg (by obtain h | h := htype <;> simp [h, hopen]),
    if_neg (by obtain h | h := htype <;> simp [h])]
  split
  · refine (appendSendbuffer_inserts hlow ?_).same startWriting_same
    exact nofun
  · exact (appendSendbuffer_inserts hlow fun h => h).same warnSending_same

/-! ## The other calls -/

theorem resumeSocket_same {id owner : ℕ} : SameBuffers s (s.resumeSocket os id owner).1 := by
  unfold resumeSocket
  split
  · exact .rfl'
  split
  · exact .rfl'
  split
  · next hread =>
    obtain rfl := enableRead_eq hread
    exact ⟨rfl, rfl, rfl, rfl, rfl, rfl⟩
  · next hread =>
    obtain rfl := enableRead_eq hread
    split <;> exact ⟨rfl, rfl, rfl, rfl, rfl, rfl⟩

theorem pauseSocket_same {id : ℕ} : SameBuffers s (s.pauseSocket os id).1 := by
  unfold pauseSocket
  split
  · exact .rfl'
  split
  · next hread =>
    obtain rfl := enableRead_eq hread
    exact ⟨rfl, rfl, rfl, rfl, rfl, rfl⟩
  · next hread =>
    obtain rfl := enableRead_eq hread
    exact ⟨rfl, rfl, rfl, rfl, rfl, rfl⟩

theorem triggerWrite_same {id : ℕ} : SameBuffers s (s.triggerWrite os id).1 := by
  unfold triggerWrite
  split
  · exact .rfl'
  split
  · next hwrite =>
    obtain rfl := enableWrite_eq hwrite
    exact ⟨rfl, rfl, rfl, rfl, rfl, rfl⟩
  · next hwrite =>
    obtain rfl := enableWrite_eq hwrite
    exact ⟨rfl, rfl, rfl, rfl, rfl, rfl⟩

theorem setUdpAddress_same {id : ℕ} {addr : UdpAddress} :
    SameBuffers s (s.setUdpAddress id addr).1 := by
  unfold setUdpAddress
  split
  · exact .rfl'
  split
  · exact .rfl'
  · exact ⟨rfl, rfl, rfl, rfl, rfl, rfl⟩

theorem closeSocket_same {id : ℕ} {shutdown : Bool}
    (h : s.closeSocket os id shutdown = .ok (s', result)) (hun : Unbroken s') :
    SameBuffers s s' := by
  obtain heffect | ⟨-, -, hdef⟩ := closeSocket_effect (d := false) h
  · unfold closeSocket at h
    split at h
    · cases h
      exact .rfl'
    split at h
    · obtain ⟨freed, hclose, hret⟩ := exists_of_map_ok h
      cases hret
      exact absurd (forceClose_type hclose) hun.1
    split at h
    · cases h
      cases hun.2.2
    · cases h
      rw [closeRead_eq] at hun
      cases hun.2.2
  · cases hun.2.2.symm.trans hdef.closing

theorem ctrlCmd_same {r : Request θ} (hr : r.opens = false) (hsend : ∀ id b, r ≠ .sendSocket id b)
    (hudp : ∀ id b addr, r ≠ .sendUdp id b addr) (h : s.ctrlCmd os r = .ok (s', result))
    (hun : Unbroken s') : SameBuffers s s' := by
  cases r with
  | bindSocket | listenSocket | openSocket | addUdpSocket => cases hr
  | closeSocket => exact closeSocket_same h hun
  | resumeSocket =>
    obtain ⟨rfl, rfl⟩ := Prod.mk.inj (Except.ok.inj h)
    exact resumeSocket_same
  | pauseSocket =>
    obtain ⟨rfl, rfl⟩ := Prod.mk.inj (Except.ok.inj h)
    exact pauseSocket_same
  | triggerWrite =>
    obtain ⟨rfl, rfl⟩ := Prod.mk.inj (Except.ok.inj h)
    exact triggerWrite_same
  | setUdpAddress =>
    obtain ⟨rfl, rfl⟩ := Prod.mk.inj (Except.ok.inj h)
    exact setUdpAddress_same
  | sendSocket id b => exact absurd rfl (hsend id b)
  | sendUdp id b addr => exact absurd rfl (hudp id b addr)

theorem forwardMessageTcp_same (h : s.forwardMessageTcp os = .ok (s', result))
    (hun : Unbroken s') : SameBuffers s s' := by
  have hforced {freed : Socket θ} (hclose : s.forceClose = .ok freed) (heq : freed = s') : False :=
    hun.1 (heq ▸ forceClose_type hclose)
  unfold forwardMessageTcp at h
  split at h
  · cases h
    exact .rfl'
  · cases h
    exact .rfl'
  dsimp only at h
  split at h
  · split at h
    · split at h
      · obtain ⟨freed, hclose, hret⟩ := exists_of_map_ok h
        exact (hforced hclose (Prod.mk.inj hret).1).elim
      · cases h
        exact .rfl'
    split at h
    · cases h
      exact .rfl'
    split at h
    · obtain ⟨freed, hclose, hret⟩ := exists_of_map_ok h
      exact (hforced hclose (Prod.mk.inj hret).1).elim
    · cases h
      rw [closeRead_eq]
      exact ⟨rfl, rfl, rfl, rfl, rfl, rfl⟩
  split at h
  · cases h
    exact .rfl'
  split at h
  · cases h
    exact ⟨rfl, rfl, rfl, rfl, rfl, rfl⟩
  split at h
  · cases h
    exact ⟨rfl, rfl, rfl, rfl, rfl, rfl⟩
  · cases h
    exact .rfl'

/-- **Event.** An event writes the queue from the front, or changes nothing of it. -/
theorem dispatchEvent_writes {e : Event} {kept : Option Event}
    (htype : s.type = .connected ∨ s.type = .halfcloseRead) (htcp : s.protocol = .tcp)
    (hlow : LowOk s) (h : s.dispatchEvent os e = .ok (s', result, kept)) (hun : Unbroken s') :
    Writes s s' ∧ LowOk s' := by
  have hsame (hsame : SameBuffers s s') : Writes s s' ∧ LowOk s' := by
    rw [Writes, outbox_of_same hsame]
    exact ⟨.refl, fun wb hwb => hlow wb (hsame.low ▸ hwb)⟩
  unfold dispatchEvent at h
  split at h
  · next ht => obtain h | h := htype <;> cases ht.symm.trans h
  · next ht => obtain h | h := htype <;> cases ht.symm.trans h
  · next ht => obtain h | h := htype <;> cases ht.symm.trans h
  split at h
  · obtain ⟨⟨s₁, r⟩, hread, hret⟩ := exists_of_map_ok h
    cases hret
    rw [forwardMessage, if_pos htcp] at hread
    exact hsame (forwardMessageTcp_same hread hun)
  split at h
  · obtain ⟨⟨s₁, r⟩, hwrite, hret⟩ := exists_of_map_ok h
    cases hret
    exact sendBuffer_writes htcp hlow hwrite hun
  split at h
  · cases h
    exact hsame .rfl'
  split at h
  · obtain ⟨freed, hclose, hret⟩ := exists_of_map_ok h
    cases hret
    exact absurd (forceClose_type hclose) hun.1
  · cases h
    exact hsame .rfl'

end Skynet.Analysis
