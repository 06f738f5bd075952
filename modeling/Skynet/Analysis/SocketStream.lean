import Skynet.Analysis.SocketSending
import Skynet.Analysis.SocketOutbox

/-!
# The stream of a tcp socket

Any number of threads send to one connected tcp socket, with a direct write or by a
request, and the socket thread writes what waits.  As long as the socket is neither closed
nor hit by a write error, every step of the server is steps of the outbox of the socket,
so what has been written is whole buffers and a prefix of the next; and every buffer that
was accepted is in one place.
-/

namespace Skynet.Analysis

open Library Model List Function

variable {θ : Type} [DecidableEq θ]

/-! ## Accounts -/

def piped (id : ℕ) (pipe : List (Request θ)) : List (SendBuffer θ) :=
  pipe.filterMap (Request.buffer? id)

/-- The buffers that have left their callers: written, waiting to be written, in the
pipe. -/
def stream (slot : Socket θ) (pipe : List (Request θ)) : List (SendBuffer θ) :=
  (outbox slot).blocks ++ piped slot.id pipe

/-- The buffers that the thread `t` has passed to the server are those of the stream and
the one it carries, and the high priority ones are in order. -/
structure Accounted (t : θ) (accepted stream hand : List (SendBuffer θ)) : Prop where
  perm : accepted.Perm (stream.filter (·.thread = t) ++ hand)
  order : accepted.filter (·.priority = .high) =
    (stream.filter (·.thread = t)).filter (·.priority = .high) ++ hand.filter (·.priority = .high)

variable {t : θ} {accepted front rest behind hand : List (SendBuffer θ)} {b : SendBuffer θ}

theorem Accounted.take (h : Accounted t accepted front []) :
    Accounted t (accepted ++ [b]) front [b] := by
  refine ⟨?_, ?_⟩
  · have hperm := h.perm
    rw [append_nil] at hperm
    exact hperm.append_right [b]
  · have horder := h.order
    rw [filter_nil, append_nil] at horder
    rw [filter_append, horder]

theorem Accounted.leave (h : Accounted t accepted front [b]) (hown : b.thread = t) :
    Accounted t accepted (front ++ [b]) [] := by
  have hfilter : (front ++ [b]).filter (·.thread = t) = front.filter (·.thread = t) ++ [b] := by
    simp [hown]
  refine ⟨?_, ?_⟩
  · rw [hfilter, append_nil]
    exact h.perm
  · rw [hfilter, filter_append, filter_nil, append_nil]
    exact h.order

theorem Accounted.other (h : Accounted t accepted front hand) (hown : b.thread ≠ t) :
    Accounted t accepted (front ++ [b]) hand := by
  have hfilter : (front ++ [b]).filter (·.thread = t) = front.filter (·.thread = t) := by
    simp [hown]
  exact ⟨hfilter ▸ h.perm, hfilter ▸ h.order⟩

theorem Accounted.overtake (h : Accounted t accepted (front ++ rest ++ b :: behind) hand)
    (hlow : ∀ b' ∈ rest, b'.priority = .low) :
    Accounted t accepted (front ++ b :: rest ++ behind) hand := by
  refine ⟨?_, ?_⟩
  · refine h.perm.trans (Perm.append_right hand (Perm.filter _ ?_))
    rw [append_assoc, append_assoc]
    exact Perm.append_left front perm_middle
  · have hnone : (rest.filter (·.thread = t)).filter (·.priority = .high) = [] := by
      refine filter_eq_nil_iff.mpr fun b' hb' => ?_
      simp [hlow b' (mem_of_mem_filter hb')]
    have horder := h.order
    rw [show front ++ rest ++ b :: behind = front ++ rest ++ [b] ++ behind by simp] at horder
    rw [show front ++ b :: rest ++ behind = front ++ [b] ++ rest ++ behind by simp]
    simpa only [filter_append, hnone, append_nil] using horder

/-! ## The invariant -/

structure CallsOk (s : SocketServer θ) : Prop where
  pipe : ∀ r ∈ s.pipe, r.id = s.slot.id ∧ ∀ id b addr, r ≠ .sendUdp id b addr
  calls : ∀ t id, callId? (s.pc t) = some id → id = s.slot.id
  issued : ∀ id ∈ s.issued, id = s.slot.id
  udp : ∀ t, sendsUdp (s.pc t) = false
  own : ∀ t, ∀ b ∈ carried (s.pc t), b.thread = t

variable [Fintype θ]

structure StreamOk (k : ℕ) (s : SocketServer θ) : Prop where
  sending : SendingOk k s
  calls : CallsOk s
  type : s.slot.type = .connected ∨ s.slot.type = .halfcloseRead
  tcp : s.slot.protocol = .tcp
  low : LowOk s.slot
  account : ∀ t, Accounted t (s.accepted t) (stream s.slot s.pipe) (carried (s.pc t))

/-- The condition on a run: the socket is neither closed nor hit by a write error, and
only `socket_server_send` and its low priority sibling send to it. -/
def Streaming (s : SocketServer θ) (a : SocketAction θ) : Prop :=
  Unbroken s.slot ∧ callsUdp a = false

instance (s : SocketServer θ) (a : SocketAction θ) : Decidable (Streaming s a) :=
  inferInstanceAs (Decidable (_ ∧ _))

section Steps

variable {k : ℕ} {s s' : SocketServer θ} {a : SocketAction θ} {slot : Socket θ}

omit [Fintype θ] in
theorem CallsOk.caller (h : CallsOk s) {t : θ} {pc : SenderPc θ}
    {accepted : θ → List (SendBuffer θ)} (hslot : slot.id = s.slot.id)
    (hcall : ∀ id, callId? pc = some id → callId? (s.pc t) = some id ∨ id ∈ s.issued)
    (hudp : sendsUdp pc = false) (hown : ∀ b ∈ carried pc, b.thread = t) :
    CallsOk { s with
      slot := slot, pc := update s.pc t pc, accepted := accepted } := by
  refine ⟨fun r hr => hslot ▸ h.pipe r hr, fun u id hu => ?_, fun id hid => ?_, fun u => ?_,
    fun u b hb => ?_⟩
  · dsimp only at hu ⊢
    rw [hslot]
    by_cases hut : u = t
    · subst hut
      rw [update_self] at hu
      obtain hid | hid := hcall id hu
      · exact h.calls u id hid
      · exact h.issued id hid
    · rw [update_of_ne hut] at hu
      exact h.calls u id hu
  · exact hslot ▸ h.issued id hid
  · dsimp only
    by_cases hut : u = t
    · subst hut
      rw [update_self]
      exact hudp
    · rw [update_of_ne hut]
      exact h.udp u
  · dsimp only at hb
    by_cases hut : u = t
    · subst hut
      rw [update_self] at hb
      exact hown b hb
    · rw [update_of_ne hut] at hb
      exact h.own u b hb

omit [Fintype θ] [DecidableEq θ] in
theorem CallsOk.keep (h : CallsOk s) (hid : s'.slot.id = s.slot.id) (hpc : s'.pc = s.pc)
    (hissued : s'.issued = s.issued) (hpipe : ∀ r ∈ s'.pipe, r ∈ s.pipe) : CallsOk s' := by
  refine ⟨fun r hr => ?_, fun t id ht => ?_, fun id hi => ?_, fun t => ?_, fun t b hb => ?_⟩
  · exact hid ▸ h.pipe r (hpipe r hr)
  · exact hid ▸ h.calls t id (hpc ▸ ht)
  · exact hid ▸ h.issued id (hissued ▸ hi)
  · exact hpc ▸ h.udp t
  · exact h.own t b (hpc ▸ hb)

omit [Fintype θ] in
theorem CallsOk.push (h : CallsOk s) {t : θ} {r : Request θ} (hpc : s.pc t = .sendRequest r) :
    CallsOk { s with
      pipe := s.pipe ++ [r], issued := if r.opens then r.id :: s.issued else s.issued
      pc := update s.pc t .idle } := by
  have hr : r.id = s.slot.id := h.calls t r.id (by rw [hpc]; rfl)
  have hidle : CallsOk { s with pc := update s.pc t .idle } := h.caller rfl nofun rfl nofun
  refine ⟨fun r' hr' => ?_, hidle.calls, fun id hid => ?_, hidle.udp, hidle.own⟩
  · obtain hr' | hr' := mem_append.mp hr'
    · exact h.pipe r' hr'
    · obtain rfl := mem_singleton.mp hr'
      refine ⟨hr, ?_⟩
      rintro id b addr rfl
      have hudp := h.udp t
      rw [hpc] at hudp
      cases hudp
  · split at hid
    · obtain rfl | hid := mem_cons.mp hid
      · exact hr
      · exact h.issued id hid
    · exact h.issued id hid

omit [DecidableEq θ] [Fintype θ] in
theorem Effect.streamType {d : Bool} {slot' : Socket θ} {result : SocketResult}
    (h : Effect d slot slot' result) (htype : slot.type = .connected ∨ slot.type = .halfcloseRead)
    (hun : Unbroken slot') : slot'.type = .connected ∨ slot'.type = .halfcloseRead := by
  cases h with
  | quiet _ _ hstate _ => exact hstate.type ▸ htype
  | deliver _ _ hstate _ _ _ _ => exact hstate.type ▸ htype
  | start _ _ _ hbefore _ _ _ =>
    obtain h | h := htype <;> rw [h] at hbefore <;> simp at hbefore
  | wantWrite _ _ hsame _ _ _ => exact hsame ▸ htype
  | eof _ _ _ _ hafter _ _ _ _ => exact .inr hafter
  | free _ _ hfree _ _ => exact absurd hfree hun.1
  | failWrite _ _ _ _ _ _ hwrite _ _ => exact absurd hwrite hun.2.1
  | flush _ _ hsame _ _ _ _ => exact hsame ▸ htype
  | queue _ _ hsame _ _ _ _ _ _ => exact hsame ▸ htype

omit [Fintype θ] [DecidableEq θ] in
theorem stream_eq (hout : outbox slot = outbox s.slot) (hid : slot.id = s.slot.id)
    (pipe : List (Request θ)) : stream slot pipe = stream s.slot pipe := by
  rw [stream, stream, hout, hid]

omit [Fintype θ] in
theorem accounts_update {t : θ} {pc : SenderPc θ} {accepted : θ → List (SendBuffer θ)}
    {l : List (SendBuffer θ)} (hself : Accounted t (accepted t) l (carried pc))
    (hother : ∀ u, u ≠ t → Accounted u (accepted u) l (carried (s.pc u))) (u : θ) :
    Accounted u (accepted u) l (carried (update s.pc t pc u)) := by
  by_cases hut : u = t
  · subst hut
    rw [update_self]
    exact hself
  · rw [update_of_ne hut]
    exact hother u hut

omit [Fintype θ] in
theorem accounts_leave {t : θ} {pc : SenderPc θ} {b : SendBuffer θ} {l : List (SendBuffer θ)}
    (h : ∀ u, Accounted u (s.accepted u) l (carried (s.pc u))) (hbefore : carried (s.pc t) = [b])
    (hafter : carried pc = []) (hown : b.thread = t) (u : θ) :
    Accounted u (s.accepted u) (l ++ [b]) (carried (update s.pc t pc u)) := by
  refine accounts_update ?_ (fun u hut => ?_) u
  · rw [hafter]
    exact (hbefore ▸ h t).leave hown
  · exact (h u).other fun hthread => hut (hthread.symm.trans hown)

theorem StreamOk.direct {id : ℕ} (h : StreamOk k s) (hcan : s.slot.canDirectWrite id = true) :
    outbox s.slot = ⟨s.slot.written, s.slot.done, []⟩ ∧ piped s.slot.id s.pipe = [] := by
  obtain ⟨-, ⟨hhigh, hlow, hdw⟩, hnone⟩ := h.sending.direct h.tcp hcan
  refine ⟨by simp [outbox, unwritten, hhigh, hlow, hdw], filterMap_eq_nil_iff.mpr ?_⟩
  intro r hr
  cases r with
  | sendSocket id' b =>
    have hid := (h.calls.pipe _ hr).1
    obtain rfl : id' = id := hid.trans (h.sending.direct h.tcp hcan).1
    exact absurd hr (hnone b)
  | resumeSocket | pauseSocket | bindSocket | listenSocket | closeSocket | openSocket
  | triggerWrite | sendUdp | setUdpAddress | addUdpSocket => rfl

omit [DecidableEq θ] [Fintype θ] in
theorem direct_steps (out : List UInt8) (done : List (SendBuffer θ)) (b : SendBuffer θ) (n : ℕ) :
    Outbox.Steps SendBuffer.bytes ⟨out, done, []⟩ ⟨out ++ b.bytes, done ++ [b], []⟩ ∧
      Outbox.Steps SendBuffer.bytes ⟨out, done, []⟩ ⟨out ++ b.bytes.take n, done, [(b, n)]⟩ := by
  have hinsert : Outbox.Step SendBuffer.bytes ⟨out, done, []⟩ ⟨out, done, [(b, 0)]⟩ :=
    .insert (.before out done [] [] nofun)
  refine ⟨?_, ?_⟩
  · exact .head hinsert (.single (.write (.whole out done b 0 [])))
  · have hpiece : Outbox.Write SendBuffer.bytes _ _ := .piece out done b 0 n []
    rw [drop_zero, Nat.zero_add] at hpiece
    exact .head hinsert (.single (.write hpiece))

/-- **Step.** As long as the socket is open, every step keeps the invariant, and it is
steps of the outbox. -/
theorem StreamOk.step (h : StreamOk k s) (hok : Streaming s a) (hsending : SendingOk k s')
    (hs : Stepped k s a s') (hun : Unbroken s'.slot) :
    StreamOk k s' ∧ Outbox.Steps SendBuffer.bytes (outbox s.slot) (outbox s'.slot) := by
  have hudp {pc : SenderPc θ} (hcalls : sendsUdp pc = true → callsUdp a = true) :
      sendsUdp pc = false := by
    by_contra hne
    cases hok.2.symm.trans (hcalls (Bool.not_eq_false _ ▸ hne))
  have hnotReserve : s.slot.type ≠ .reserve := by obtain ht | ht := h.type <;> simp [ht]
  cases hs with
  | stay => exact ⟨h, .refl⟩
  | @move _ t pc slot accepted hslot hbefore hafter hid hcas hcarries hcalls =>
    have htype : slot.type = .connected ∨ slot.type = .halfcloseRead :=
      hslot.state.type.symm ▸ h.type
    have htcp : slot.protocol = .tcp := hslot.frame.protocol.trans h.tcp
    have hlow : LowOk slot := fun wb hwb => h.low wb (hslot.low ▸ hwb)
    have hcallsOk (hown : ∀ b ∈ carried pc, b.thread = t) :
        CallsOk { s with slot := slot, pc := update s.pc t pc, accepted := accepted } :=
      h.calls.caller hslot.frame.id hid (hudp hcalls) hown
    cases hcarries with
    | keep hbuffers hsame =>
      have hout := outbox_of_same hbuffers
      refine ⟨⟨hsending, hcallsOk fun b hb => h.calls.own t b (hsame ▸ hb), htype, htcp, hlow, ?_⟩,
        (congrArg _ hout).mpr .refl⟩
      rw [stream_eq hout hslot.frame.id]
      exact accounts_update (hsame ▸ h.account t) fun u _ => h.account u
    | @take b hempty hcarried hown =>
      refine ⟨⟨hsending, hcallsOk fun b' hb' => ?_, htype, htcp, hlow, ?_⟩, .refl⟩
      · rw [hcarried] at hb'
        exact mem_singleton.mp hb' ▸ hown
      · dsimp only
        refine accounts_update ?_ fun u hut => ?_
        · rw [update_self, hcarried]
          exact (hempty ▸ h.account t).take
        · rw [update_of_ne hut]
          exact h.account u
    | @whole id b hpc hcan hcarried =>
      obtain ⟨hout, hpiped⟩ := h.direct hcan
      have hb : carried (s.pc t) = [b] := by rw [hpc]; rfl
      have hqueue : unwritten s.slot = [] := congrArg Outbox.queue hout
      have hout' : outbox { s.slot with
          written := s.slot.written ++ b.bytes, done := s.slot.done ++ [b] } =
          ⟨s.slot.written ++ b.bytes, s.slot.done ++ [b], []⟩ := congrArg _ hqueue
      have hleave := accounts_leave h.account hb hcarried
        (h.calls.own t b (hb ▸ mem_singleton_self b))
      refine ⟨⟨hsending, hcallsOk (by rw [hcarried]; rintro _ ⟨⟩), htype, htcp, hlow, ?_⟩, ?_⟩
      · dsimp only [stream] at hleave ⊢
        rw [hpiped, hout] at hleave
        rw [hpiped, hout']
        simpa [Outbox.blocks] using hleave
      · rw [hout, hout']
        exact (direct_steps s.slot.written s.slot.done b 0).1
    | datagram hnot => exact absurd h.tcp hnot
  | @post _ t r slot hslot hbefore hopens hid hcount hbuffers hsame hcalls =>
    have hout := outbox_of_same hbuffers
    refine ⟨⟨hsending, h.calls.caller hslot.frame.id ?_ (hcalls.trans (h.calls.udp t)) fun b hb =>
      h.calls.own t b (hsame ▸ hb), hslot.state.type.symm ▸ h.type,
      hslot.frame.protocol.trans h.tcp, fun wb hwb => h.low wb (hslot.low ▸ hwb), ?_⟩,
      (congrArg _ hout).mpr .refl⟩
    · rintro _ ⟨rfl⟩
      exact hid
    · rw [stream_eq hout hslot.frame.id]
      exact accounts_update (hsame ▸ h.account t) fun u _ => h.account u
  | @count _ t id b hpc =>
    have hsame : carried (.sendRequest (.sendSocket id b)) = carried (s.pc t) := by rw [hpc]; rfl
    refine ⟨⟨hsending, h.calls.caller rfl ?_ rfl fun b' hb' => h.calls.own t b' (hsame ▸ hb'), h.type,
      h.tcp, h.low, ?_⟩, .refl⟩
    · rintro _ ⟨rfl⟩
      left
      rw [hpc]
      rfl
    · exact accounts_update (hsame ▸ h.account t) fun u _ => h.account u
  | @direct _ t id n b written hpc hcan hwritten =>
    obtain ⟨hout, hpiped⟩ := h.direct hcan
    obtain rfl := hwritten h.tcp
    have hb : carried (s.pc t) = [b] := by rw [hpc]; rfl
    have hlists : s.slot.high = [] ∧ s.slot.low = [] := by
      obtain ⟨-, ⟨hhigh, hlow, -⟩, -⟩ := h.sending.direct h.tcp hcan
      exact ⟨hhigh, hlow⟩
    have hout' : outbox { s.slot with
        written := s.slot.written ++ b.bytes.take n, dwBuffer := some b, dwOffset := n } =
        ⟨s.slot.written ++ b.bytes.take n, s.slot.done, [(b, n)]⟩ := by
      simp [outbox, unwritten, hlists]
    have hnone : carried (.sendRequest (.triggerWrite id) : SenderPc θ) = [] := rfl
    have hleave := accounts_leave h.account hb hnone
      (h.calls.own t b (hb ▸ mem_singleton_self b))
    refine ⟨⟨hsending, h.calls.caller rfl ?_ rfl (by rintro _ ⟨⟩), h.type, h.tcp, h.low, ?_⟩, ?_⟩
    · rintro _ ⟨rfl⟩
      left
      rw [hpc]
      rfl
    · dsimp only [stream] at hleave ⊢
      rw [hpiped, hout] at hleave
      rw [hpiped, hout']
      simpa [Outbox.blocks] using hleave
    · rw [hout, hout']
      exact (direct_steps s.slot.written s.slot.done b n).2
  | @push _ t r hpc =>
    refine ⟨⟨hsending, h.calls.push hpc, h.type, h.tcp, h.low, ?_⟩, .refl⟩
    have hpiped : stream s.slot (s.pipe ++ [r]) =
        stream s.slot s.pipe ++ (Request.buffer? s.slot.id r).toList := by
      cases hbuffer : Request.buffer? s.slot.id r <;> simp [stream, piped, hbuffer]
    have hr : carried (s.pc t) = (Request.buffer? s.slot.id r).toList := by
      rw [hpc]
      cases r with
      | sendSocket id b =>
        have hid : id = s.slot.id := h.calls.calls t id (by rw [hpc]; rfl)
        simp [carried, Request.buffer?, hid]
      | resumeSocket | pauseSocket | bindSocket | listenSocket | closeSocket | openSocket
      | triggerWrite | sendUdp | setUdpAddress | addUdpSocket => rfl
    rw [hpiped]
    cases hbuffer : Request.buffer? s.slot.id r with
    | none =>
      have hidle : carried .idle = carried (s.pc t) := (hbuffer ▸ hr).symm
      rw [Option.toList_none, append_nil]
      exact accounts_update (hidle ▸ h.account t) fun u _ => h.account u
    | some b =>
      rw [hbuffer] at hr
      exact accounts_leave h.account hr rfl (h.calls.own t b (hr ▸ mem_singleton_self b))
  | reserve _ hfree _ _ => exact absurd hfree hok.1.1
  | accept hfree _ _ _ => exact absurd hfree hok.1.1
  | halt _ =>
    exact ⟨⟨hsending, h.calls.keep rfl rfl rfl fun _ hr => hr, h.type, h.tcp, h.low, h.account⟩, .refl⟩
  | look =>
    exact ⟨⟨hsending, h.calls.keep rfl rfl rfl fun _ hr => hr, h.type, h.tcp, h.low, h.account⟩, .refl⟩
  | @ctrl os r pipe slot result events hsent hpipe hcheck hcmd hother =>
    have hmem : r ∈ s.pipe := hpipe ▸ mem_cons_self
    cases hr : r.opens with
    | false =>
      have hsame := ctrlCmd_same hr hother (h.calls.pipe r hmem).2 hcmd hun
      obtain heffect | ⟨-, -, -, hdef⟩ := ctrlCmd_effect (d := false) hr hcmd
      · have hout := outbox_of_same hsame
        refine ⟨⟨hsending, h.calls.keep heffect.frame.id rfl rfl fun r' hr' =>
          hpipe ▸ mem_cons_of_mem r hr', heffect.streamType h.type hun,
          heffect.frame.protocol.trans h.tcp, fun wb hwb => h.low wb (hsame.low ▸ hwb), ?_⟩,
          (congrArg _ hout).mpr .refl⟩
        have hpiped : stream s.slot pipe = stream s.slot s.pipe := by
          rw [stream, stream, piped, piped, hpipe, filterMap_cons_none]
          cases r <;> first | rfl | exact absurd rfl (hother _ _)
        rw [stream_eq hout heffect.frame.id, hpiped]
        exact h.account
      · cases hun.2.2.symm.trans hdef.closing
    | true =>
      -- the slot is not reserved
      obtain ⟨-, hopened⟩ | ⟨rfl, -⟩ := ctrlCmd_opened hr hcmd
      · cases hopened with
        | failed hreserve _ _ _ _ => exact absurd hreserve hnotReserve
        | opened hnew _ _ => exact absurd hnew.reserved hnotReserve
      · exact absurd rfl hun.1
  | @send os id b pipe hsent hpipe =>
    have hmem : Request.sendSocket id b ∈ s.pipe := hpipe ▸ mem_cons_self
    obtain rfl : id = s.slot.id := (h.calls.pipe _ hmem).1
    have heffect : Effect false s.slot (s.slot.sendSocket os s.slot.id b none).1
        (s.slot.sendSocket os s.slot.id b none).2 := sendSocket_effect
    have hinserts : Inserts b s.slot (s.slot.sendSocket os s.slot.id b none).1 :=
      sendSocket_inserts h.type hok.1.2.2 h.tcp h.low
    obtain ⟨front, rest, hqueue, hqueue', hrest⟩ := hinserts.queue
    have hout : outbox s.slot = ⟨s.slot.written, s.slot.done, front ++ rest⟩ := by
      rw [outbox, hqueue]
    have hout' : outbox (s.slot.sendSocket os s.slot.id b none).1 =
        ⟨s.slot.written, s.slot.done, front ++ (b, 0) :: rest⟩ := by
      rw [outbox, hqueue', hinserts.written, hinserts.done]
    refine ⟨⟨hsending, h.calls.keep heffect.frame.id rfl rfl fun r' hr' =>
      hpipe ▸ mem_cons_of_mem _ hr', heffect.streamType h.type hun,
      heffect.frame.protocol.trans h.tcp, hinserts.low, fun t => ?_⟩, ?_⟩
    · have haccount := h.account t
      dsimp only [stream] at haccount ⊢
      rw [hout, hpipe] at haccount
      rw [hout', heffect.frame.id]
      have hbuffer : piped s.slot.id (.sendSocket s.slot.id b :: pipe) =
          b :: piped s.slot.id pipe := by
        simp [piped, Request.buffer?]
      rw [hbuffer, Outbox.blocks, map_append, ← append_assoc] at haccount
      have hovertake := haccount.overtake fun b' hb' => by
        obtain ⟨p, hp, rfl⟩ := mem_map.mp hb'
        exact (hrest p hp).2
      simpa [Outbox.blocks] using hovertake
    · rw [hout, hout']
      exact .single (.insert (.before _ _ front rest fun p hp => (hrest p hp).1))
  | uncount _ _ _ _ =>
    exact ⟨⟨hsending, h.calls.keep rfl rfl rfl fun _ hr => hr, h.type, h.tcp, h.low, h.account⟩, .refl⟩
  | skip _ _ =>
    exact ⟨⟨hsending, h.calls.keep rfl rfl rfl fun _ hr => hr, h.type, h.tcp, h.low, h.account⟩, .refl⟩
  | event _ _ _ hdispatch =>
    have heffect := dispatchEvent_effect hdispatch
    obtain ⟨hwrites, hlow⟩ := dispatchEvent_writes h.type h.tcp h.low hdispatch hun
    refine ⟨⟨hsending, h.calls.keep heffect.frame.id rfl rfl fun _ hr => hr,
      heffect.streamType h.type hun, heffect.frame.protocol.trans h.tcp, hlow, ?_⟩,
      Outbox.Steps.of_writes hwrites⟩
    have hblocks := Outbox.Writes.blocks hwrites
    dsimp only [stream]
    rw [hblocks, heffect.frame.id]
    exact h.account

theorem StreamOk.opensUnsent (h : StreamOk k s) (hun : Unbroken s.slot)
    (hnext : socketNext k s a = some s') : OpensUnsent s a := by
  intro id hid
  cases a with
  | poll os =>
    simp only [opensTcp] at hid
    split at hid
    · have hreserve := (Option.ite_some_none_eq_some.mp hid).1.2.2.1
      obtain ht | ht := h.type <;> cases ht.symm.trans hreserve
    · cases hid
  | accept os id' owner =>
    have hfree := (Option.ite_some_none_eq_some.mp hnext).1.2.2.1
    exact absurd hfree hun.1
  | reserve | request | send | sendLowpriority | udpSend | udpConnect | step => cases hid

end Steps

/-! ## Runs -/

structure Connected (id : ℕ) (slot : Socket θ) : Prop where
  isId : slot.id = id
  type : slot.type = .connected
  protocol : slot.protocol = .tcp
  sending : slot.sending = idTag16 id <<< 16
  closing : slot.closing = false
  nodata : NoData slot
  written : slot.written = []
  done : slot.done = []

omit [DecidableEq θ] [Fintype θ] in

def streamMachine (k id : ℕ) : Machine (SocketServer θ) (SocketAction θ) where
  start s := SlotId k id ∧ ∃ slot, Connected id slot ∧ s = .create slot [id]
  next := socketNext k

structure StreamIntact (s : SocketServer θ) : Prop where
  /-- What has been written is whole buffers, and a prefix of the next. -/
  written : s.slot.written = s.slot.done.flatMap SendBuffer.bytes ++
    Outbox.begunPart SendBuffer.bytes (unwritten s.slot)
  /-- Of the others nothing has been written. -/
  rest : Outbox.Fresh (unwritten s.slot).tail
  /-- Every accepted buffer is in one place, and those of high priority are in order. -/
  account : ∀ t, Accounted t (s.accepted t) (stream s.slot s.pipe) (carried (s.pc t))

variable {k id : ℕ} {s s' : SocketServer θ}

theorem streamOk_start (hslot : SlotId k id) {slot : Socket θ} (h : Connected id slot) :
    StreamOk k (.create slot [id]) ∧ (outbox slot).Intact SendBuffer.bytes := by
  have hissued : ∀ i ∈ [id], i = id := fun i hi => mem_singleton.mp hi
  have hempty : outbox slot = ⟨[], [], []⟩ := by
    obtain ⟨hhigh, hlow, hdw⟩ := h.nodata
    simp [outbox, unwritten, h.written, h.done, hhigh, hlow, hdw]
  obtain ⟨htag, hzero⟩ := sending_new (idTag16 id)
  refine ⟨⟨⟨by rintro _ ⟨⟩, fun i hi => hissued i hi ▸ hslot, by rintro _ _ ⟨⟩,
    by rintro _ _ _ _ ⟨⟩, fun _ => h.isId ▸ hslot, fun _ => ?_, fun _ => ?_, by rintro ⟨⟩⟩,
    ⟨by rintro _ ⟨⟩, by rintro _ _ ⟨⟩, fun i hi => h.isId ▸ hissued i hi, fun _ => rfl,
    by rintro _ _ ⟨⟩⟩, .inl h.type, h.protocol, fun wb hwb => ?_, fun t => ?_⟩,
    hempty ▸ ⟨rfl, by rintro _ ⟨⟩⟩⟩
  · exact (congrArg (· >>> 16) h.sending).trans (htag.trans (congrArg idTag16 h.isId).symm)
  · refine (congrArg (· &&& 0xffff) h.sending).trans (hzero.trans ?_)
    have hsum : threadSum (inHand (θ := θ) slot.id) (fun _ : θ => .idle) = 0 := threadSum_eq_zero fun _ => rfl
    simp [inFlight, SocketServer.create, inCtrl, hsum]
  · have hwb : wb ∈ slot.low := hwb
    rw [h.nodata.2.1] at hwb
    cases hwb
  · have hstream : stream slot [] = [] := by
      simp [stream, hempty, Outbox.blocks, piped]
    exact hstream.symm ▸ ⟨.nil, rfl⟩

/-- Every step keeps each byte in its place. -/
theorem StreamOk.next (h : StreamOk k s) {a : SocketAction θ} (hok : Streaming s a)
    (hnext : socketNext k s a = some s') (hun : Unbroken s'.slot) :
    StreamOk k s' ∧ Outbox.Steps SendBuffer.bytes (outbox s.slot) (outbox s'.slot) :=
  have hstep := (socketNext_cases hnext).2
  h.step hok (h.sending.step (h.opensUnsent hok.1 hnext) hstep) hstep hun

theorem streamOk_of_reach (hs : (streamMachine k id).Reach Streaming s) (hun : Unbroken s.slot) :
    StreamOk k s ∧ (outbox s.slot).Intact SendBuffer.bytes := by
  induction hs with
  | start hstart =>
    obtain ⟨hslot, slot, hconnected, rfl⟩ := hstart
    exact streamOk_start hslot hconnected
  | step _ hok hnext ih =>
    obtain ⟨h, hintact⟩ := ih hok.1
    obtain ⟨h', hsteps⟩ := h.next hok hnext hun
    exact ⟨h', hintact.steps hsteps⟩

/-- **The server refines the outbox.** What guarded steps of the server do to the socket is
steps of its outbox. -/
theorem outbox_steps (hs : (streamMachine k id).Reach Streaming s)
    (hsteps : (streamMachine k id).Steps Streaming s s') (hun : Unbroken s'.slot) :
    Outbox.Steps SendBuffer.bytes (outbox s.slot) (outbox s'.slot) := by
  induction hsteps with
  | refl => exact .refl
  | tail hsteps hstep ih =>
    obtain ⟨a, hok, hnext⟩ := hstep
    have h := (streamOk_of_reach (hs.steps hsteps) hok.1).1
    exact (ih hok.1).trans (h.next hok hnext hun).2

/-- **Tcp stream integrity.** In every state of every run in which the socket is neither
closed nor hit by a write error, what has been written is whole buffers and a prefix of one
more, every accepted buffer is there once, and the high priority buffers of each thread are
in order; and later the buffers that have been begun come first, in the same order.
SRC: socket_server.c:712-742, 819-997, 1006-1103, 1797-1894 -/
theorem stream_intact (hs : (streamMachine k id).Reach Streaming s) (hun : Unbroken s.slot) :
    StreamIntact s ∧ ∀ s', (streamMachine k id).Steps Streaming s s' → Unbroken s'.slot →
      (outbox s.slot).begun <+: (outbox s'.slot).begun := by
  obtain ⟨h, hintact⟩ := streamOk_of_reach hs hun
  exact ⟨⟨hintact.out, hintact.rest, h.account⟩, fun s' hsteps hun' =>
    (outbox_steps hs hsteps hun').begun⟩

def connectedSlot : Socket (Fin 2) :=
  { Socket.fresh with id := 1, type := .connected, protocol := .tcp }

/-- Thread 0 writes one byte of two, and thread 1 sends a buffer with low priority, which
the socket thread takes before the write event: the rest of the first buffer comes first. -/
theorem stream_intact_interleaved : ∃ s : SocketServer (Fin 2),
    (streamMachine 1 1).Reach Streaming s ∧ s.slot.written = [65, 66, 67] ∧
      (StreamIntact s ∧ ∀ s', (streamMachine 1 1).Steps Streaming s s' → Unbroken s'.slot →
        (outbox s.slot).begun <+: (outbox s'.slot).begun) := by
  obtain ⟨s, hrun, hwritten, hun⟩ : ∃ s : SocketServer (Fin 2),
      (streamMachine 1 1).runOk Streaming (.create connectedSlot [1])
        [.send 0 1 .memory [65, 66], .step 0 true (.wrote 1), .step 0 true .again,
          .sendLowpriority 1 1 .memory [67, 68], .step 1 true .again, .step 1 true .again,
          .step 1 true .again, .step 1 true .again, .poll {}, .poll {}, .poll {}, .poll {},
          .poll { events := [⟨false, true, false, false⟩] }, .poll {},
          .poll { writeHigh := [.wrote 1, .wrote 1] }] = some s ∧
        s.slot.written = [65, 66, 67] ∧ Unbroken s.slot := ⟨_, rfl, rfl, by decide⟩
  have hstart : (streamMachine 1 1).start (.create connectedSlot [1]) :=
    ⟨by decide, connectedSlot, ⟨rfl, rfl, rfl, rfl, rfl, ⟨rfl, rfl, rfl⟩, rfl, rfl⟩, rfl⟩
  have hs := Machine.Reach.runOk (.start hstart) hrun
  exact ⟨s, hs, hwritten, stream_intact hs hun⟩

end Skynet.Analysis
