import Skynet.Analysis.SocketReserve

/-!
# SOCKET_CLOSE comes once and last

A socket of which a close has been returned is free or half-closed, and nothing is
delivered to it any more, except that a udp socket still delivers a datagram.  Requests
reach the socket thread in the order of the pipe, so a socket is opened before any other
request for it arrives.
-/

namespace Skynet.Analysis

open Library Model List Function

variable {θ : Type}

/-! ## Requests in order -/

/-- Requests for a socket follow the request that opens it: ids are given to callers when
that request has been written. -/
structure FifoOk (s : SocketServer θ) : Prop where
  pipeIssued : ∀ r ∈ s.pipe, r.opens = false → r.id ∈ s.issued
  callIssued : ∀ t id, callId? (s.pc t) = some id →
    id ∈ s.issued ∨ ∃ r, s.pc t = .sendRequest r ∧ r.opens = true
  handFresh : ∀ t r, s.pc t = .sendRequest r → r.opens = true → r.id ∉ s.issued
  order : s.pipe.Pairwise fun r r' => r'.opens = true → r.id ≠ r'.id
  issuedUsed : ∀ id ∈ s.issued, id ∈ s.used
  slotUsed : s.slot.type ≠ .invalid → s.slot.id ∈ s.used

def FreshId (s : SocketServer θ) : SocketAction θ → Prop
  | .reserve _ r => r.id ∉ s.used
  | .accept _ id _ => id ∉ s.used
  | _ => True

theorem defers_eq_true {s : SocketServer θ} {a : SocketAction θ} (h : defers s a = true) :
    ∃ id rest, s.pipe = .closeSocket id false :: rest ∧ s.slot.id = id := by
  unfold defers at h
  split at h
  · split at h
    · next id rest _ _ hpipe =>
      obtain ⟨hvalid, -⟩ := Bool.and_eq_true_iff.mp h
      exact ⟨id, rest, hpipe, (live_of_socketInvalid (by simpa using hvalid)).1⟩
    · cases h
  · cases h

section Order

variable [Fintype θ]

theorem ReserveOk.exists_opening {s : SocketServer θ} (h : ReserveOk s)
    (ht : s.slot.type = .reserve) :
    (∃ r ∈ s.pipe, r.opens = true) ∨ ∃ t r, s.pc t = .sendRequest r ∧ r.opens = true := by
  by_contra hnone
  obtain ⟨hpipe, hhand⟩ := not_or.mp hnone
  have hzero : s.pipe.countP Request.opens = 0 :=
    countP_eq_zero.mpr fun r hr ho => hpipe ⟨r, hr, ho⟩
  have hsum : threadSum opening s.pc = 0 := by
    refine threadSum_eq_zero fun t => ?_
    cases hpc : s.pc t with
    | sendRequest r =>
      have hr : ¬r.opens = true := fun ho => hhand ⟨t, r, hpc, ho⟩
      simp [opening, hr]
    | idle | direct | udpDirect | incProtocol | incLoad | incCas | udpConnect => rfl
  have hopenings := h.openings
  rw [if_pos ht, Analysis.openings, hzero, hsum] at hopenings
  omega

theorem FifoOk.no_defer {s : SocketServer θ} (h : FifoOk s) (hr : ReserveOk s)
    (ht : s.slot.type = .reserve) (a : SocketAction θ) : defers s a = false := by
  by_contra hd
  obtain ⟨id, rest, hpipe, rfl⟩ := defers_eq_true (Bool.not_eq_false _ ▸ hd)
  obtain ⟨r, hmem, hopens⟩ | ⟨t, r, hpc, hopens⟩ := hr.exists_opening ht
  · have hid := hr.pipeId r hmem hopens
    rw [hpipe] at hmem
    have horder := h.order
    rw [hpipe] at horder
    obtain rfl | hmem := mem_cons.mp hmem
    · cases hopens
    · exact (pairwise_cons.mp horder).1 r hmem hopens hid.symm
  · refine h.handFresh t r hpc hopens ?_
    rw [hr.handId t r hpc hopens]
    exact h.pipeIssued (.closeSocket s.slot.id false) (hpipe ▸ mem_cons_self) rfl

section Steps

variable [DecidableEq θ] {k : ℕ} {s s' : SocketServer θ}

omit [Fintype θ] in
theorem FifoOk.caller (h : FifoOk s) {t : θ} {pc : SenderPc θ} {slot : Socket θ}
    {accepted : θ → List (SendBuffer θ)} (htype : slot.type = s.slot.type)
    (hid : slot.id = s.slot.id) (hcall : ∀ id, callId? pc = some id → id ∈ s.issued)
    (hafter : ∀ r, pc = .sendRequest r → r.opens = false) :
    FifoOk { s with slot := slot, pc := update s.pc t pc, accepted := accepted } := by
  refine ⟨h.pipeIssued, fun u id hu => ?_, fun u r hu ho => ?_, h.order, h.issuedUsed,
    fun hlive => hid ▸ h.slotUsed (htype ▸ hlive)⟩
  · dsimp only at hu ⊢
    by_cases hut : u = t
    · subst hut
      rw [update_self] at hu
      exact .inl (hcall id hu)
    · rw [update_of_ne hut] at hu ⊢
      exact h.callIssued u id hu
  · dsimp only at hu
    by_cases hut : u = t
    · subst hut
      rw [update_self] at hu
      cases (hafter r hu).symm.trans ho
    · rw [update_of_ne hut] at hu
      exact h.handFresh u r hu ho

omit [Fintype θ] [DecidableEq θ] in
theorem FifoOk.issued_of_call (h : FifoOk s) {t : θ} {id : ℕ} (hbefore : request? (s.pc t) = none)
    (hid : callId? (s.pc t) = some id) : id ∈ s.issued := by
  obtain hid | ⟨r, hpc, -⟩ := h.callIssued t id hid
  · exact hid
  · rw [hpc] at hbefore
    cases hbefore

omit [Fintype θ] [DecidableEq θ] in
theorem FifoOk.keep (h : FifoOk s) (hpc : s'.pc = s.pc) (hpipe : s'.pipe.Sublist s.pipe)
    (hissued : s'.issued = s.issued) (hused : s'.used = s.used)
    (hslot : s'.slot.type ≠ .invalid → s'.slot.id ∈ s.used) : FifoOk s' where
  pipeIssued r hr ho := hissued ▸ h.pipeIssued r (hpipe.subset hr) ho
  callIssued t id ht := by
    rw [hpc] at ht ⊢
    rw [hissued]
    exact h.callIssued t id ht
  handFresh t r ht ho := by
    rw [hissued]
    exact h.handFresh t r (hpc ▸ ht) ho
  order := h.order.sublist hpipe
  issuedUsed id hid := by
    rw [hused]
    exact h.issuedUsed id (hissued ▸ hid)
  slotUsed hlive := by
    rw [hused]
    exact hslot hlive

theorem FifoOk.push (h : FifoOk s) (hr : ReserveOk s) {t : θ} {r : Request θ}
    (hpc : s.pc t = .sendRequest r) : FifoOk { s with
      pipe := s.pipe ++ [r], issued := if r.opens then r.id :: s.issued else s.issued
      pc := update s.pc t .idle } := by
  have hmono : ∀ id ∈ s.issued, id ∈ if r.opens then r.id :: s.issued else s.issued := by
    intro id hid
    split
    · exact mem_cons_of_mem _ hid
    · exact hid
  have hid : r.opens = false → r.id ∈ s.issued := fun ho => by
    obtain hid | ⟨r', hpc', ho'⟩ := h.callIssued t r.id (by rw [hpc]; rfl)
    · exact hid
    · obtain rfl := SenderPc.sendRequest.inj (hpc.symm.trans hpc')
      cases ho.symm.trans ho'
  refine ⟨fun r' hr' ho => ?_, fun u id hu => ?_, fun u r' hu ho => ?_, ?_, fun id hi => ?_,
    h.slotUsed⟩
  · obtain hr' | hr' := mem_append.mp hr'
    · exact hmono _ (h.pipeIssued r' hr' ho)
    · obtain rfl := mem_singleton.mp hr'
      exact hmono _ (hid ho)
  · dsimp only at hu ⊢
    by_cases hut : u = t
    · subst hut
      rw [update_self] at hu
      cases hu
    · rw [update_of_ne hut] at hu ⊢
      obtain hi | hi := h.callIssued u id hu
      · exact .inl (hmono id hi)
      · exact .inr hi
  · dsimp only at hu ⊢
    by_cases hut : u = t
    · subst hut
      rw [update_self] at hu
      cases hu
    · rw [update_of_ne hut] at hu
      have hfresh := h.handFresh u r' hu ho
      split
      · next hopens =>
        -- two callers would have the slot to open
        have htwo := add_le_threadSum opening s.pc hut
        rw [hu, hpc, opening, opening, if_pos ho, if_pos hopens] at htwo
        have hopenings := hr.openings
        rw [Analysis.openings] at hopenings
        split at hopenings <;> omega
      · exact hfresh
  · refine pairwise_append.mpr ⟨h.order, pairwise_singleton .., ?_⟩
    intro r' hr' r'' hr'' ho
    obtain rfl := mem_singleton.mp hr''
    have hfresh := h.handFresh t r'' hpc ho
    cases ho' : r'.opens with
    | false => exact fun heq => hfresh (heq ▸ h.pipeIssued r' hr' ho')
    | true =>
      have hpos : 0 < s.pipe.countP Request.opens := countP_pos_iff.mpr ⟨r', hr', ho'⟩
      have hone := le_threadSum opening s.pc t
      rw [hpc, opening, if_pos ho] at hone
      have hopenings := hr.openings
      rw [Analysis.openings] at hopenings
      split at hopenings <;> omega
  · split at hi
    · next hopens =>
      obtain rfl | hi := mem_cons.mp hi
      · rw [hr.handId t r hpc hopens]
        refine h.slotUsed fun hfree => ?_
        cases hopens.symm.trans ((hr.none_opens (by simp [hfree])).2 t r hpc)
      · exact h.issuedUsed id hi
    · exact h.issuedUsed id hi

/-- **Step.** Every step with fresh ids keeps the requests in order. -/
theorem FifoOk.step (h : FifoOk s) (hr : ReserveOk s) {a : SocketAction θ} (hfresh : FreshId s a)
    (hs : Stepped k s a s') : FifoOk s' := by
  cases hs with
  | stay => exact h
  | move hslot hbefore hafter hid _ _ _ =>
    refine h.caller hslot.state.type hslot.frame.id (fun id hi => ?_) fun r hr => ?_
    · obtain hi | hi := hid id hi
      · exact h.issued_of_call hbefore hi
      · exact hi
    · subst hr
      cases hafter
  | post hslot hbefore hopens hid _ _ _ _ =>
    refine h.caller hslot.state.type hslot.frame.id (fun id hi => ?_) fun r hr => ?_
    · cases hi
      obtain hid | hid := hid
      · exact h.issued_of_call hbefore hid
      · exact hid
    · obtain rfl := SenderPc.sendRequest.inj hr
      exact hopens
  | count hpc =>
    refine h.caller rfl rfl (fun id hi => ?_) fun r hr => ?_
    · cases hi
      exact h.issued_of_call (by rw [hpc]; rfl) (by rw [hpc]; rfl)
    · obtain rfl := SenderPc.sendRequest.inj hr
      rfl
  | direct hpc _ _ =>
    refine h.caller rfl rfl (fun id hi => ?_) fun r hr => ?_
    · cases hi
      exact h.issued_of_call (by rw [hpc]; rfl) (by rw [hpc]; rfl)
    · obtain rfl := SenderPc.sendRequest.inj hr
      rfl
  | push hpc => exact h.push hr hpc
  | @reserve t r hpc hfree hopens _ =>
    refine ⟨h.pipeIssued, fun u id hu => ?_, fun u r' hu ho => ?_, h.order,
      fun id hid => mem_cons_of_mem _ (h.issuedUsed id hid), fun _ => mem_cons_self⟩
    · dsimp only at hu ⊢
      by_cases hut : u = t
      · subst hut
        exact .inr ⟨r, update_self .., hopens⟩
      · rw [update_of_ne hut] at hu ⊢
        exact h.callIssued u id hu
    · dsimp only at hu ⊢
      by_cases hut : u = t
      · subst hut
        rw [update_self] at hu
        obtain rfl := SenderPc.sendRequest.inj hu
        exact fun hid => hfresh (h.issuedUsed _ hid)
      · rw [update_of_ne hut] at hu
        cases ((hr.none_opens (by simp [hfree])).2 u r' hu).symm.trans ho
  | @accept os id owner slot issued hfree _ hopened hgiven =>
    have hmono : ∀ i ∈ s.issued, i ∈ issued := fun i hi => by
      obtain rfl | rfl := hgiven
      · exact hi
      · exact mem_cons_of_mem _ hi
    refine ⟨fun r hp ho => hmono _ (h.pipeIssued r hp ho), fun t i ht => ?_, fun t r ht ho => ?_,
      h.order, fun i hi => ?_, fun hlive => ?_⟩
    · exact (h.callIssued t i ht).imp_left (hmono i)
    · cases ((hr.none_opens (by simp [hfree])).2 t r ht).symm.trans ho
    · obtain rfl | rfl := hgiven
      · exact mem_cons_of_mem _ (h.issuedUsed i hi)
      · obtain rfl | hi := mem_cons.mp hi
        · exact mem_cons_self
        · exact mem_cons_of_mem _ (h.issuedUsed i hi)
    · cases hopened with
      | failed _ _ htype _ _ => exact absurd htype hlive
      | opened hnew _ _ => exact mem_cons.mpr (.inl hnew.isId)
  | halt _ => exact h.keep rfl (Sublist.refl _) rfl rfl h.slotUsed
  | look => exact h.keep rfl (Sublist.refl _) rfl rfl h.slotUsed
  | @ctrl os r pipe slot result events _ hpipe _ hcmd _ =>
    refine h.keep rfl (hpipe ▸ sublist_cons_self r pipe) rfl rfl fun hlive => ?_
    cases ho : r.opens with
    | false =>
      obtain heffect | ⟨-, -, -, hdef⟩ := ctrlCmd_effect (d := false) ho hcmd
      · exact heffect.frame.id ▸ h.slotUsed (heffect.live hlive)
      · exact hdef.frame.id ▸ h.slotUsed hdef.live
    | true =>
      obtain ⟨-, hopened⟩ | ⟨rfl, -⟩ := ctrlCmd_opened ho hcmd
      · cases hopened with
        | failed _ _ htype _ _ => exact absurd htype hlive
        | opened hnew _ _ =>
          have hid := hr.pipeId r (hpipe ▸ mem_cons_self) ho
          exact (hnew.isId.trans hid) ▸ h.slotUsed (by simp [hnew.reserved])
      · exact absurd rfl hlive
  | @send os id b pipe _ hpipe =>
    have heffect : Effect false s.slot (s.slot.sendSocket os id b none).1
        (s.slot.sendSocket os id b none).2 := sendSocket_effect
    exact h.keep rfl (hpipe ▸ sublist_cons_self ..) rfl rfl fun hlive =>
      heffect.frame.id ▸ h.slotUsed (heffect.live hlive)
  | uncount _ _ _ _ => exact h.keep rfl (Sublist.refl _) rfl rfl h.slotUsed
  | skip _ _ => exact h.keep rfl (Sublist.refl _) rfl rfl h.slotUsed
  | event _ _ _ hdispatch =>
    have heffect := dispatchEvent_effect hdispatch
    exact h.keep rfl (Sublist.refl _) rfl rfl fun hlive =>
      heffect.frame.id ▸ h.slotUsed (heffect.live hlive)

end Steps

end Order

/-! ## What a slot reports -/

section Reports

variable {s s' : Socket θ} {d : Bool} {result : SocketResult}

def Closed (s : Socket θ) : Prop := s.type = .invalid ∨ s.type = .halfcloseRead

theorem closed_of_type (h : s'.type = s.type) (hs : Closed s) : Closed s' := by
  rwa [Closed, h]

/-- A closed slot stays closed and reports nothing but errors and warnings; an open one
reports about itself, and is closed when it says so. -/
structure Reports (s s' : Socket θ) (result : SocketResult) : Prop where
  id : s'.id = s.id
  closed : Closed s → Closed s' ∧ Notice result
  own : ∀ c m, result = some (c, m) → (c = .socketErr ∨ c = .socketWarning) ∨
    m.id = s.id ∧ (c = .socketClose → Closed s')

theorem Reports.notice (hid : s'.id = s.id) (hclosed : Closed s → Closed s')
    (hnotice : Notice result) : Reports s s' result :=
  ⟨hid, fun h => ⟨hclosed h, hnotice⟩, fun c m h => .inl (hnotice c m h)⟩

theorem Reports.open_ {c : SocketCode} {m : SocketMessage} (hid : s'.id = s.id) (hopen : ¬Closed s)
    (hm : m.id = s.id) (hclose : c = .socketClose → Closed s') : Reports s s' (some (c, m)) := by
  refine ⟨hid, fun h => absurd h hopen, ?_⟩
  rintro _ _ ⟨rfl⟩
  exact .inr ⟨hm, hclose⟩

/-- **Effect.** What a call on the slot reports, unless it is a datagram for a half-closed
socket. -/
theorem Effect.reports (h : Effect d s s' result) (hd : s.type = .halfcloseRead → d = false) :
    Reports s s' result := by
  cases h with
  | quiet hframe _ hstate hnotice =>
    exact .notice hframe.id (closed_of_type hstate.type) hnotice
  | deliver hframe _ _ hlive hm hcode hhalf =>
    refine .open_ hframe.id ?_ hm fun hc => absurd hc hcode
    rintro (ht | ht)
    · exact hlive ht
    · cases (hd ht).symm.trans (hhalf ht)
  | start hframe _ _ hbefore _ _ hm =>
    refine .open_ hframe.id ?_ hm nofun
    obtain h | h | h := hbefore <;> simp [Closed, h]
  | wantWrite hframe _ htype _ _ hnotice =>
    exact .notice hframe.id (closed_of_type htype) hnotice
  | eof hframe _ _ hbefore hafter _ _ _ hm =>
    refine .open_ hframe.id ?_ hm fun _ => .inr hafter
    rintro (ht | ht)
    · exact hbefore.1 ht
    · exact hbefore.2.1 ht
  | free hframe hlive htype _ hcode =>
    obtain hnotice | ⟨hhalf, m, rfl, hm⟩ := hcode
    · exact .notice hframe.id (fun _ => .inl htype) hnotice
    · refine .open_ hframe.id ?_ hm fun _ => .inl htype
      rintro (ht | ht)
      · exact hlive.1 ht
      · exact hhalf ht
  | failWrite hframe _ hlive hbefore _ _ _ _ hnotice =>
    refine .notice hframe.id ?_ hnotice
    rintro (ht | ht)
    · exact absurd ht hlive
    · exact absurd ht hbefore
  | flush hframe _ htype _ _ _ hnotice =>
    exact .notice hframe.id (closed_of_type htype) hnotice
  | queue hframe _ htype _ _ _ _ _ hnotice =>
    exact .notice hframe.id (closed_of_type htype) hnotice

theorem Deferred.reports (h : Deferred s s' result) : Reports s s' result := by
  obtain rfl | ⟨hhalf, m, rfl, hm⟩ := h.code
  · exact .notice h.frame.id (fun _ => .inr h.type) notice_none
  · refine .open_ h.frame.id ?_ hm fun _ => .inr h.type
    rintro (ht | ht)
    · exact h.live ht
    · exact hhalf ht

theorem Opened.reports {os : Syscalls} {protocol : Protocol}
    (h : Opened os s s.id protocol s' result) : Reports s s' result := by
  cases h with
  | failed hreserved hframe htype _ hnotice =>
    exact .notice hframe.id (fun _ => .inl htype) hnotice
  | opened hnew htype hcode =>
    have hopen : ¬Closed s := by simp [Closed, hnew.reserved]
    obtain hnotice | ⟨-, m, rfl, hm⟩ := hcode
    · exact .notice hnew.isId (fun hc => absurd hc hopen) hnotice
    · exact .open_ hnew.isId hopen hm nofun

theorem sendSocket_notice {os : Syscalls} {id : ℕ} {b : SendBuffer θ}
    {addr : Option UdpAddress} : Notice (s.sendSocket os id b addr).2 := by
  have hstart (s : Socket θ) : Notice (s.startWriting os).2 := (startWriting_eq s os).choose_spec.2
  have hwarn (s : Socket θ) : Notice s.warnSending.2 := (warnSending_eq s).choose_spec.2
  unfold Socket.sendSocket
  dsimp only
  split
  · exact notice_none
  split
  · exact notice_none
  split
  · split
    · exact hstart _
    split
    · exact notice_none
    split
    · exact notice_none
    · exact hstart _
  · split
    · exact hwarn _
    · exact hwarn _

end Reports

/-! ## What the server returns -/

def codes (returned : List (SocketCode × SocketMessage)) (id : ℕ) : List SocketCode :=
  (returned.filter fun r => r.2.id = id).map Prod.fst

def CloseLast (l : List SocketCode) : Prop :=
  l.Pairwise fun c c' => c = .socketClose → c' = .socketErr ∨ c' = .socketWarning

theorem codes_append (returned : List (SocketCode × SocketMessage)) (c : SocketCode)
    (m : SocketMessage) (id : ℕ) : codes (returned ++ (some (c, m)).toList) id =
      codes returned id ++ if m.id = id then [c] else [] := by
  by_cases h : m.id = id <;> simp [codes, h]

theorem CloseLast.append {l : List SocketCode} {c : SocketCode} (h : CloseLast l)
    (hc : .socketClose ∈ l → c = .socketErr ∨ c = .socketWarning) : CloseLast (l ++ [c]) := by
  refine pairwise_append.mpr ⟨h, pairwise_singleton .., ?_⟩
  rintro c' hc' _ hmem rfl
  obtain rfl := mem_singleton.mp hmem
  exact hc hc'

def lateDatagram (s : SocketServer θ) : SocketAction θ → Bool
  | .poll os =>
    match s.sent, s.checkctrl, s.dueEvents os with
    | none, false, e :: _ =>
      s.slot.type = .halfcloseRead && (e.read && (s.slot.protocol ≠ .tcp && gotDatagram s.slot os))
    | _, _, _ => false
  | _ => false

/-- The condition: ids are not used again, and no datagram comes for a half-closed
socket. -/
def NoLateDatagram (s : SocketServer θ) (a : SocketAction θ) : Prop :=
  FreshId s a ∧ lateDatagram s a = false

instance (s : SocketServer θ) (a : SocketAction θ) : Decidable (FreshId s a) := by
  unfold FreshId
  split <;> infer_instance

instance (s : SocketServer θ) (a : SocketAction θ) : Decidable (NoLateDatagram s a) :=
  inferInstanceAs (Decidable (_ ∧ _))

structure LogOk (s : SocketServer θ) : Prop where
  last : ∀ id, CloseLast (codes s.returned id)
  used : ∀ id, .socketClose ∈ codes s.returned id → id ∈ s.used
  closed : .socketClose ∈ codes s.returned s.slot.id → Closed s.slot
  sent : ∀ id result, s.sent = some (id, result) → Notice result

section LogSteps

variable {s s' : SocketServer θ} {result : SocketResult}

theorem LogOk.reports (h : LogOk s) (hr : Reports s.slot s'.slot result)
    (hused : s.slot.type ≠ .invalid → s.slot.id ∈ s.used) (hused' : s'.used = s.used)
    (hret : s'.returned = s.returned ++ result.toList)
    (hsent : ∀ id r, s'.sent = some (id, r) → Notice r) : LogOk s' := by
  obtain _ | ⟨c, m⟩ := result
  · rw [Option.toList_none, append_nil] at hret
    refine ⟨hret ▸ h.last, fun id hid => hused' ▸ h.used id (hret ▸ hid), fun hid => ?_, hsent⟩
    rw [hret, hr.id] at hid
    exact (hr.closed (h.closed hid)).1
  have hmem (id : ℕ) (hid : .socketClose ∈ codes s'.returned id) :
      .socketClose ∈ codes s.returned id ∨ c = .socketClose ∧ m.id = id := by
    rw [hret, codes_append] at hid
    obtain hid | hid := mem_append.mp hid
    · exact .inl hid
    · split at hid
      · next hm => exact .inr ⟨(mem_singleton.mp hid).symm, hm⟩
      · cases hid
  -- a close is reported by an open slot about itself
  have hclose (hc : c = .socketClose) : m.id = s.slot.id ∧ ¬Closed s.slot ∧ Closed s'.slot := by
    obtain hnotice | ⟨hm, hclosed⟩ := hr.own c m rfl
    · obtain rfl | rfl := hnotice <;> cases hc
    · refine ⟨hm, fun hs => ?_, hclosed hc⟩
      obtain rfl | rfl := (hr.closed hs).2 c m rfl <;> cases hc
  refine ⟨fun id => ?_, fun id hid => ?_, fun hid => ?_, hsent⟩
  · rw [hret, codes_append]
    split
    · next hm =>
      refine (h.last id).append fun hid => ?_
      obtain hnotice | ⟨hm', -⟩ := hr.own c m rfl
      · exact hnotice
      · obtain rfl : id = s.slot.id := hm.symm.trans hm'
        exact (hr.closed (h.closed hid)).2 c m rfl
    · rw [append_nil]
      exact h.last id
  · rw [hused']
    obtain hid | ⟨hc, hm⟩ := hmem id hid
    · exact h.used id hid
    · obtain ⟨hm', hopen, -⟩ := hclose hc
      rw [← hm, hm']
      exact hused fun ht => hopen (.inl ht)
  · rw [hr.id] at hid
    obtain hid | ⟨hc, -⟩ := hmem _ hid
    · exact (hr.closed (h.closed hid)).1
    · exact (hclose hc).2.2

theorem LogOk.keep (h : LogOk s) (hret : s'.returned = s.returned) (hsent : s'.sent = s.sent)
    (hused : ∀ id ∈ s.used, id ∈ s'.used)
    (hclosed : .socketClose ∈ codes s.returned s'.slot.id → Closed s'.slot) : LogOk s' := by
  refine ⟨?_, ?_, ?_, ?_⟩
  · exact hret ▸ h.last
  · exact fun id hid => hused id (h.used id (hret ▸ hid))
  · exact hret ▸ hclosed
  · exact hsent ▸ h.sent

theorem Reports.self (s : Socket θ) (hnotice : Notice result) : Reports s s result :=
  .notice rfl (fun hs => hs) hnotice

variable [Fintype θ] [DecidableEq θ] {k : ℕ}

/-- **Step.** Every step keeps the log, unless it delivers a datagram to a half-closed
socket. -/
theorem LogOk.step (h : LogOk s) (hr : ReserveOk s) (hf : FifoOk s) {a : SocketAction θ}
    (hok : NoLateDatagram s a) (hs : Stepped k s a s') : LogOk s' := by
  have hcaller {slot : Socket θ} (hsame : Untouched s.slot slot)
      (hid : .socketClose ∈ codes s.returned slot.id) : Closed slot := by
    have hclosed := h.closed (hsame.frame.id ▸ hid)
    rwa [Closed, ← hsame.state.type] at hclosed
  obtain ⟨hfresh, hlate⟩ := hok
  cases hs with
  | stay => exact h
  | move hsame _ _ _ _ _ _ => exact h.keep rfl rfl (fun _ hid => hid) (hcaller hsame)
  | post hsame _ _ _ _ _ _ _ => exact h.keep rfl rfl (fun _ hid => hid) (hcaller hsame)
  | count _ => exact h.keep rfl rfl (fun _ hid => hid) h.closed
  | direct _ _ _ => exact h.keep rfl rfl (fun _ hid => hid) h.closed
  | push _ => exact h.keep rfl rfl (fun _ hid => hid) h.closed
  | reserve _ _ _ _ =>
    exact h.keep rfl rfl (fun _ hid => mem_cons_of_mem _ hid) fun hid =>
      absurd (h.used _ hid) hfresh
  | accept _ _ hopened _ =>
    refine h.keep rfl rfl (fun _ hid => mem_cons_of_mem _ hid) fun hid => ?_
    cases hopened with
    | failed _ _ htype _ _ => exact .inl htype
    | opened hnew _ _ => exact absurd (h.used _ (hnew.isId ▸ hid)) hfresh
  | halt _ => exact h.keep rfl rfl (fun _ hid => hid) h.closed
  | look => exact h.keep rfl rfl (fun _ hid => hid) h.closed
  | @ctrl os r pipe slot result events hsent hpipe _ hcmd _ =>
    refine h.reports ?_ hf.slotUsed rfl rfl h.sent
    cases ho : r.opens with
    | false =>
      obtain heffect | ⟨-, -, -, hdef⟩ := ctrlCmd_effect (d := false) ho hcmd
      · exact heffect.reports fun _ => rfl
      · exact hdef.reports
    | true =>
      have hid := hr.pipeId r (hpipe ▸ mem_cons_self) ho
      obtain ⟨-, hopened⟩ | ⟨rfl, hnotice⟩ := ctrlCmd_opened ho hcmd
      · exact (hid ▸ hopened).reports
      · exact .notice rfl (fun _ => .inl rfl) hnotice
  | @send os id b pipe hsent hpipe =>
    have heffect : Effect false s.slot (s.slot.sendSocket os id b none).1
        (s.slot.sendSocket os id b none).2 := sendSocket_effect
    refine ⟨h.last, h.used, fun hid => ?_, ?_⟩
    · have hreports := heffect.reports fun _ => rfl
      exact (hreports.closed (h.closed (hreports.id ▸ hid))).1
    · rintro _ _ ⟨rfl⟩
      exact sendSocket_notice
  | uncount hsent _ _ _ =>
    exact h.reports (.notice rfl (fun hs => hs) (h.sent _ _ hsent)) hf.slotUsed rfl rfl nofun
  | skip hsent _ => exact h.reports (.self _ (h.sent _ _ hsent)) hf.slotUsed rfl rfl nofun
  | @event os e rest events slot result kept again hsent hevents hcheck hdispatch =>
    refine h.reports ((dispatchEvent_effect hdispatch).reports fun hhalf => ?_) hf.slotUsed rfl rfl
      h.sent
    simpa [lateDatagram, hsent, hevents, hcheck, hhalf] using hlate

end LogSteps

/-! ## Runs -/

variable [Fintype θ] [DecidableEq θ] {k : ℕ} {s : SocketServer θ}

theorem logOk_of_reach (hs : (socketMachine k).Reach NoLateDatagram s) :
    ReserveOk s ∧ FifoOk s ∧ LogOk s := by
  refine hs.invariant (I := fun s => ReserveOk s ∧ FifoOk s ∧ LogOk s) (fun s hstart => ?_)
    fun s a s' h hok hnext => ?_
  · subst hstart
    exact ⟨reserveOk_create, ⟨nofun, nofun, nofun, .nil, nofun, fun h => absurd rfl h⟩,
      ⟨fun _ => .nil, nofun, nofun, nofun⟩⟩
  · obtain ⟨hr, hf, hl⟩ := h
    have hstep := (socketNext_cases hnext).2
    exact ⟨hr.step (fun ht => hf.no_defer hr ht a) hstep, hf.step hr hok.1 hstep,
      hl.step hr hf hok hstep⟩

/-- What `socket_server_poll` returns for one socket: at most one close, and nothing is
delivered after it. -/
structure ClosedOnceAndLast (l : List SocketCode) : Prop where
  once : l.count .socketClose ≤ 1
  last : ∀ before after, l = before ++ .socketClose :: after →
    ∀ c ∈ after, c ∉ [SocketCode.socketData, .socketUdp, .socketOpen, .socketAccept]

theorem CloseLast.closedOnceAndLast {l : List SocketCode} (h : CloseLast l) :
    ClosedOnceAndLast l := by
  refine ⟨?_, fun before after hl c hc => ?_⟩
  · induction l with
    | nil => exact Nat.zero_le _
    | cons c l ih =>
      obtain ⟨hhead, htail⟩ := pairwise_cons.mp h
      rw [count_cons]
      split
      · next hc =>
        have hnone : l.count .socketClose = 0 := count_eq_zero.mpr fun hmem => by
          obtain hc | hc := hhead _ hmem (by simpa using hc) <;> cases hc
        omega
      · exact ih htail
  · subst hl
    have hlast := rel_of_pairwise_cons (pairwise_append.mp h).2.1 hc rfl
    obtain rfl | rfl := hlast <;> decide

/-- Socket 1 is a udp socket with a datagram that could not be sent yet, and a read event
has come when thread 0 closes it. -/
def udpClosedWhileSending {θ : Type} (t u : θ) : List (SocketAction θ) :=
  [.reserve t (.addUdpSocket 1 0 false), .step t true .again, .poll {},
    .udpSend u 1 .memory [65] ⟨.udp, [], Protocol.udp_known⟩, .step u false .again,
    .step u true .again, .poll {}, .poll {}, .poll { events := [⟨true, false, false, false⟩] },
    .request t (.closeSocket 1 false), .step t true .again, .poll {}, .poll {}]

end Skynet.Analysis
