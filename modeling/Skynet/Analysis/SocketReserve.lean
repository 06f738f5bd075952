import Skynet.Analysis.SocketSteps
import Skynet.Library.ThreadSum

/-!
# Reserved slots

A slot is reserved exactly as long as the request that will open it is on its way, and
while it is, its protocol is unknown.  Nothing but that request changes the type of a
reserved slot, unless a close of the socket overtakes it.
-/

namespace Skynet.Analysis

open Library Model List Function

variable {θ : Type}

def opening : SenderPc θ → ℕ
  | .sendRequest r => if r.opens then 1 else 0
  | _ => 0

theorem opening_of_request {pc : SenderPc θ} (h : request? pc = none) : opening pc = 0 := by
  cases pc with
  | sendRequest r => cases h
  | idle | direct | udpDirect | incProtocol | incLoad | incCas | udpConnect => rfl

def defers (s : SocketServer θ) : SocketAction θ → Bool
  | .poll _ =>
    match s.sent, s.checkctrl, s.pipe with
    | none, true, .closeSocket id false :: _ =>
      !s.slot.socketInvalid id && !s.slot.nomoreSendingData
    | _, _, _ => false
  | _ => false

def openings [Fintype θ] (s : SocketServer θ) : ℕ :=
  s.pipe.countP Request.opens + threadSum opening s.pc

structure ReserveOk [Fintype θ] (s : SocketServer θ) : Prop where
  openings : openings s = if s.slot.type = .reserve then 1 else 0
  pipeId : ∀ r ∈ s.pipe, r.opens = true → r.id = s.slot.id
  handId : ∀ t r, s.pc t = .sendRequest r → r.opens = true → r.id = s.slot.id
  protocol : s.slot.type = .reserve → s.slot.protocol = .unknown

section Steps

variable [Fintype θ] {k : ℕ} {s s' : SocketServer θ}

theorem ReserveOk.none_opens (h : ReserveOk s) (hfree : s.slot.type ≠ .reserve) :
    (∀ r ∈ s.pipe, r.opens = false) ∧ ∀ t r, s.pc t = .sendRequest r → r.opens = false := by
  have hopenings := h.openings
  rw [if_neg hfree, Analysis.openings] at hopenings
  refine ⟨fun r hr => ?_, fun t r hpc => ?_⟩
  · have hzero : s.pipe.countP Request.opens = 0 := by omega
    simpa using countP_eq_zero.mp hzero r hr
  · have hzero : threadSum opening s.pc = 0 := by omega
    have ht := eq_zero_of_threadSum hzero t
    simpa [hpc, opening] using ht

variable [DecidableEq θ]

theorem ReserveOk.caller (h : ReserveOk s) {t : θ} {pc : SenderPc θ} {slot : Socket θ}
    {accepted : θ → List (SendBuffer θ)} (htype : slot.type = s.slot.type)
    (hframe : slot.id = s.slot.id ∧ slot.protocol = s.slot.protocol)
    (hbefore : request? (s.pc t) = none)
    (hafter : ∀ r, pc = .sendRequest r → r.opens = false) :
    ReserveOk { s with
      slot := slot, pc := update s.pc t pc, accepted := accepted } := by
  have hzero : opening pc = 0 := by
    cases pc with
    | sendRequest r => simp [opening, hafter r rfl]
    | idle | direct | udpDirect | incProtocol | incLoad | incCas | udpConnect => rfl
  refine ⟨?_, fun r hr hopens => hframe.1 ▸ h.pipeId r hr hopens, fun u r hu hopens => ?_,
    fun ht => hframe.2 ▸ h.protocol (htype ▸ ht)⟩
  · have hopenings := h.openings
    simp only [Analysis.openings] at hopenings ⊢
    rw [htype, threadSum_update_eq (by rw [hzero, opening_of_request hbefore])]
    exact hopenings
  · dsimp only at hu ⊢
    by_cases hut : u = t
    · subst hut
      rw [update_self] at hu
      rw [hafter r hu] at hopens
      cases hopens
    · rw [update_of_ne hut] at hu
      exact hframe.1 ▸ h.handId u r hu hopens

theorem ReserveOk.push (h : ReserveOk s) {t : θ} {r : Request θ} (hpc : s.pc t = .sendRequest r)
    {issued : List ℕ} : ReserveOk { s with
      pipe := s.pipe ++ [r], issued := issued, pc := update s.pc t .idle } := by
  refine ⟨?_, fun r' hr' hopens => ?_, fun u r' hu hopens => ?_, h.protocol⟩
  · have hsum := threadSum_update opening s.pc t .idle
    rw [hpc, show opening (.idle : SenderPc θ) = 0 from rfl] at hsum
    simp only [opening] at hsum
    have hopenings := h.openings
    simp only [Analysis.openings, countP_append, countP_singleton] at hopenings ⊢
    omega
  · obtain hr' | hr' := mem_append.mp hr'
    · exact h.pipeId r' hr' hopens
    · obtain rfl := mem_singleton.mp hr'
      exact h.handId t r' hpc hopens
  · dsimp only at hu
    by_cases hut : u = t
    · subst hut
      rw [update_self] at hu
      cases hu
    · rw [update_of_ne hut] at hu
      exact h.handId u r' hu hopens

omit [DecidableEq θ] in
theorem ReserveOk.keep (h : ReserveOk s) (hpc : s'.pc = s.pc)
    (htype : s'.slot.type = .reserve ↔ s.slot.type = .reserve)
    (hframe : s'.slot.id = s.slot.id ∧ s'.slot.protocol = s.slot.protocol)
    (hcount : s'.pipe.countP Request.opens = s.pipe.countP Request.opens)
    (hpipe : ∀ r ∈ s'.pipe, r ∈ s.pipe) : ReserveOk s' := by
  refine ⟨?_, fun r hr hopens => ?_, fun t r ht hopens => ?_, fun ht => ?_⟩
  · rw [Analysis.openings, hcount, hpc, ← Analysis.openings, h.openings]
    simp only [htype]
  · rw [hframe.1]
    exact h.pipeId r (hpipe r hr) hopens
  · rw [hframe.1]
    exact h.handId t r (hpc ▸ ht) hopens
  · rw [hframe.2]
    exact h.protocol (htype.mp ht)

/-- **Step.** Every step keeps a reserved slot in the hands of one request, unless it
closes the socket later. -/
theorem ReserveOk.step (h : ReserveOk s) {a : SocketAction θ}
    (hdefer : s.slot.type = .reserve → defers s a = false) (hs : Stepped k s a s') :
    ReserveOk s' := by
  cases hs with
  | stay => exact h
  | move hslot hbefore hafter _ _ _ _ =>
    refine h.caller hslot.state.type ⟨hslot.frame.id, hslot.frame.protocol⟩ hbefore fun r hr => ?_
    subst hr
    cases hafter
  | post hslot hbefore hopens _ _ _ _ _ =>
    refine h.caller hslot.state.type ⟨hslot.frame.id, hslot.frame.protocol⟩ hbefore fun r hr => ?_
    obtain rfl := SenderPc.sendRequest.inj hr
    exact hopens
  | count hpc =>
    refine h.caller rfl ⟨rfl, rfl⟩ (by rw [hpc]; rfl) fun r hr => ?_
    obtain rfl := SenderPc.sendRequest.inj hr
    rfl
  | direct hpc _ _ =>
    refine h.caller rfl ⟨rfl, rfl⟩ (by rw [hpc]; rfl) fun r hr => ?_
    obtain rfl := SenderPc.sendRequest.inj hr
    rfl
  | push hpc => exact h.push hpc
  | @reserve t r hpc hfree hopens _ =>
    have hnone : s.slot.type ≠ .reserve := by simp [hfree]
    obtain ⟨hpipe, hhand⟩ := h.none_opens hnone
    refine ⟨?_, fun r' hr' ho => ?_, fun u r' hu ho => ?_, fun _ => rfl⟩
    · have hsum := threadSum_update opening s.pc t (.sendRequest r)
      rw [hpc, show opening (.idle : SenderPc θ) = 0 from rfl] at hsum
      have hopenings := h.openings
      simp only [opening, hopens, if_true] at hsum
      simp only [Analysis.openings, if_neg hnone] at hopenings
      simp only [Analysis.openings, Socket.reserveId, if_true]
      omega
    · cases (hpipe r' hr').symm.trans ho
    · dsimp only at hu
      by_cases hut : u = t
      · subst hut
        rw [update_self] at hu
        obtain rfl := SenderPc.sendRequest.inj hu
        rfl
      · rw [update_of_ne hut] at hu
        cases (hhand u r' hu).symm.trans ho
  | @accept os id owner slot issued hfree _ hopened _ =>
    have hnone : s.slot.type ≠ .reserve := by simp [hfree]
    obtain ⟨hpipe, hhand⟩ := h.none_opens hnone
    have hslot : slot.type ≠ .reserve := by
      cases hopened with
      | failed _ _ htype _ _ => simp [htype]
      | opened _ htype _ => exact htype.1
    refine ⟨?_, fun r hr ho => ?_, fun t r ht ho => ?_, fun ht => absurd ht hslot⟩
    · have hopenings := h.openings
      rw [if_neg hnone] at hopenings
      exact hopenings.trans (if_neg hslot).symm
    · cases (hpipe r hr).symm.trans ho
    · cases (hhand t r ht).symm.trans ho
  | halt _ => exact ⟨h.openings, h.pipeId, h.handId, h.protocol⟩
  | look => exact ⟨h.openings, h.pipeId, h.handId, h.protocol⟩
  | @ctrl os r pipe slot result events hsent hpipe hcheck hcmd hother =>
    cases hr : r.opens with
    | false =>
      refine h.keep rfl ?_ ?_ ?_ fun r' hr' => hpipe ▸ mem_cons_of_mem r hr'
      · obtain heffect | ⟨id, rfl, hvalid, hdef⟩ := ctrlCmd_effect (d := false) hr hcmd
        · exact heffect.reserve_iff h.protocol
        · refine ⟨fun ht => (nomatch hdef.type.symm.trans ht), fun ht => ?_⟩
          have hno := hdefer ht
          simp [defers, hsent, hcheck, hpipe, hvalid, hdef.more] at hno
      · obtain heffect | ⟨-, -, -, hdef⟩ := ctrlCmd_effect (d := false) hr hcmd
        · exact ⟨heffect.frame.id, heffect.frame.protocol⟩
        · exact ⟨hdef.frame.id, hdef.frame.protocol⟩
      · rw [hpipe, countP_cons_of_neg (by simp [hr])]
    | true =>
      -- the request was the only one, and the slot is not reserved any longer
      have hopenings := h.openings
      rw [Analysis.openings, hpipe, countP_cons_of_pos hr] at hopenings
      have hreserve : s.slot.type = .reserve := by
        by_contra hne
        rw [if_neg hne] at hopenings
        omega
      rw [if_pos hreserve] at hopenings
      have hslot : slot.type ≠ .reserve := by
        obtain ⟨-, hopened⟩ | ⟨rfl, -⟩ := ctrlCmd_opened hr hcmd
        · cases hopened with
          | failed _ _ htype _ _ => simp [htype]
          | opened _ htype _ => exact htype.1
        · exact nofun
      refine ⟨?_, fun r' hr' ho => ?_, fun t r' ht ho => ?_, fun ht => absurd ht hslot⟩
      · rw [if_neg hslot, Analysis.openings]
        dsimp only
        omega
      · have hpos : 0 < pipe.countP Request.opens := countP_pos_iff.mpr ⟨r', hr', ho⟩
        omega
      · have hpos := le_threadSum opening s.pc t
        rw [show s.pc t = .sendRequest r' from ht, opening, if_pos ho] at hpos
        omega
  | @send os id b pipe hsent hpipe =>
    have heffect : Effect false s.slot (s.slot.sendSocket os id b none).1
        (s.slot.sendSocket os id b none).2 := sendSocket_effect
    refine h.keep rfl (heffect.reserve_iff h.protocol) ⟨heffect.frame.id, heffect.frame.protocol⟩ ?_
      fun r' hr' => hpipe ▸ mem_cons_of_mem _ hr'
    rw [hpipe, countP_cons_of_neg (by simp [Request.opens])]
  | uncount _ _ _ _ => exact ⟨h.openings, h.pipeId, h.handId, h.protocol⟩
  | skip _ _ => exact ⟨h.openings, h.pipeId, h.handId, h.protocol⟩
  | event _ _ _ hdispatch =>
    have heffect := dispatchEvent_effect hdispatch
    exact h.keep rfl (heffect.reserve_iff h.protocol) ⟨heffect.frame.id, heffect.frame.protocol⟩ rfl
      fun _ hr => hr

end Steps

theorem reserveOk_create [Fintype θ] : ReserveOk (SocketServer.create (θ := θ) .fresh []) := by
  refine ⟨?_, nofun, nofun, nofun⟩
  have hzero : threadSum (opening (θ := θ)) (fun _ : θ => .idle) = 0 :=
    threadSum_eq_zero fun _ => rfl
  simp [openings, SocketServer.create, Socket.fresh, hzero]

end Skynet.Analysis
