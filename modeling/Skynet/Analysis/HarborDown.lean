import Skynet.Analysis.HarborLinks

/-!
# Harbors that are down

What the senders hear of a harbor that is down: nothing.  `close_harbor` leaves `fd` as it
is, the close of a socket leaves `status` as it is, and the branch of `remote_send_handle`
that reports a dead harbor wants both `fd` to be 0 and `status` to be `STATUS_DOWN`.
-/

namespace Skynet.Analysis

open Library Model Harbor List Option

variable {h h' : Harbor} {id : ℕ} {e : HarborEvent}

/-! ## What is to hold -/

def newEffects (h h' : Harbor) : List HarborEffect := h'.out.drop h.out.length

def isError (handle source : ℕ) : HarborEffect → Bool
  | .send _ s d type _ _ => s = handle ∧ d = source ∧ type = harborPtypeError
  | _ => false

def routesTo (h : Harbor) : HarborEvent → Option (ℕ × ℕ)
  | .sendHandle source destination .. => some (source, destination)
  | .sendName source name .. =>
    let value := (h.node (nameKey name)).value
    if value = 0 then none else some (source, value)
  | _ => none

/-- The messages that wait for the name that is bound, which go to its handle. -/
def boundTo (h : Harbor) : HarborEvent → Option (ℕ × List HarborMsg)
  | .name name handle =>
    if name.length = 0 ∨ name.length ≥ globalnameLength then none
    else some (handle, (h.node (nameKey (padName name))).queue.getD [])
  | _ => none

def ToDown (h : Harbor) (handle : ℕ) : Prop := harborOf handle ≠ h.id ∧ harborOf handle ∈ h.downs

instance (h : Harbor) (handle : ℕ) : Decidable (ToDown h handle) :=
  inferInstanceAs (Decidable (_ ∧ _))

def handleOf (p : ℕ × HarborMsg) : ℕ := (p.1 <<< 24) ||| (p.2.header.destination &&& handleMask)

/-- A step reports to the source of a message that is routed to a harbor that is down: one
error and nothing else, and the message is not queued.  In the same way it reports the messages
that wait for a name when that is bound, and those that are queued for a harbor when it goes
down. -/
structure ReportsDown (h : Harbor) (e : HarborEvent) (h' : Harbor) : Prop where
  routed : ∀ source handle, routesTo h e = some (source, handle) → ToDown h handle →
    ((newEffects h h').filter (isError handle source)).length = 1 ∧
      (∀ number bytes, .write number (h.s (harborOf handle)).fd bytes ∉ newEffects h h') ∧
      (h'.s (harborOf handle)).queue = (h.s (harborOf handle)).queue
  bound : ∀ handle queue, boundTo h e = some (handle, queue) → ToDown h handle →
    (∀ source, ((newEffects h h').filter (isError handle source)).length =
        (queue.filter fun m => m.header.source = source).length) ∧
      ∀ number bytes, .write number (h.s (harborOf handle)).fd bytes ∉ newEffects h h'
  lost : ∀ p ∈ h'.lost.drop h.lost.length,
    ∃ effect ∈ newEffects h h', isError (handleOf p) p.2.header.source effect

def NoneQueued (h : Harbor) (i : ℕ) : Prop := i ∉ h.downs → (h.s i).queue.getD [] = []

instance (h : Harbor) (i : ℕ) : Decidable (NoneQueued h i) := inferInstanceAs (Decidable (_ → _))

def LosesNothing (h : Harbor) : HarborEvent → Prop
  | .data _ fd bytes => h.harborId fd ≠ 0 → (h.s (h.harborId fd)).status = .handshake →
    (bytes.headD 0).toNat ≠ h.harborId fd → NoneQueued h (h.harborId fd)
  | .closed fd => fd ≠ 0 → ∀ i ∈ range' 1 255, (h.s i).fd = fd → NoneQueued h i
  | _ => True

def Untroubled (h : Harbor) (e : HarborEvent) (_ : Harbor) : Prop :=
  (∀ p, routesTo h e = some p → ¬ToDown h p.2) ∧
    (∀ p, boundTo h e = some p → ToDown h p.1 → p.2 = []) ∧ LosesNothing h e

/-! ## The slaves in every run -/

namespace Linked

theorem pushSlave (hl : Linked h) (m : HarborMsg)
    (hstatus : (h.s id).status = .wait ∨ (h.s id).status = .handshake) :
    Linked (h.pushSlave id m) := by
  refine hl.setSlave ⟨(hl.slave id).unconnected, (hl.slave id).connected,
    fun hwait hhandshake => ?_⟩ fun hfd => hfd
  rcases hstatus with hstatus | hstatus
  · exact absurd hstatus hwait
  · exact absurd hstatus hhandshake

theorem remoteSendHandle (hl : Linked h) (number source destination : ℕ) (type : UInt8)
    (session : ℕ) (msg : Bytes) :
    Linked (h.remoteSendHandle number source destination type session msg) := by
  have hgive : Linked (h.give number destination) := hl.same (SameLinks.give h _ _)
  unfold Harbor.remoteSendHandle
  dsimp only
  split
  · exact hgive.same (SameLinks.emit _ _)
  · split
    · next hwaits =>
      split
      · exact hgive.same (SameLinks.emit _ _)
      · refine hgive.pushSlave _ (hwaits.imp_left fun hfd => ?_)
        exact (hgive.slave _).unconnected hfd
    · exact hgive.same (SameLinks.sendRemote _ _ _)

theorem remoteSendName (hl : Linked h) (number source : ℕ) (name : Bytes) (type : UInt8)
    (session : ℕ) (msg : Bytes) :
    Linked (h.remoteSendName number source name type session msg) := by
  unfold Harbor.remoteSendName
  dsimp only
  split
  · exact hl.congr rfl rfl
  · apply Linked.remoteSendHandle
    exact hl.congr rfl rfl

theorem dispatchNameQueue (hl : Linked h) (handle : ℕ) (queue : List HarborMsg) :
    Linked (h.dispatchNameQueue handle queue) := by
  have hgive := SameLinks.foldl (f := fun h m => h.give m.number handle)
    (fun h m => SameLinks.give h m.number handle) queue h
  have hgiven := hl.same hgive
  unfold Harbor.dispatchNameQueue
  dsimp only
  split
  · next hfd =>
    have hwait := (hgiven.slave _).unconnected hfd
    split
    · exact hgiven
    · split
      · refine (hgiven.same (SameLinks.sendLocal _ handle _)).setSlave ?_ ?_
        · exact ⟨fun _ => hwait, fun _ => hfd, fun _ _ => rfl⟩
        · rw [(SameLinks.sendLocal _ handle _).s]
          exact fun hne => hne
      · exact hgiven.setSlave ⟨fun _ => hwait, fun _ => hfd, fun hne => absurd hwait hne⟩
          fun hne => hne
  · exact hgiven.same (SameLinks.sendAll _ _ _)

theorem commandName (hl : Linked h) (name : Bytes) (source : ℕ) :
    Linked (h.commandName name source) := by
  unfold Harbor.commandName Harbor.updateName
  split
  · exact hl
  · dsimp only
    split
    · exact hl.congr rfl rfl
    · apply Linked.dispatchNameQueue
      exact hl.congr rfl rfl

theorem commandConnect (hl : Linked h) (accept : Bool) (fd id : ℤ) :
    Linked (h.commandConnect accept fd id) := by
  unfold Harbor.commandConnect
  split
  · exact hl
  · next hvalid =>
    have hfd : fd ≠ 0 := fun hfd => hvalid (.inl hfd)
    dsimp only
    split
    · exact hl
    · have hstarted : Linked ((h.emit (.start fd)).emit (.write none fd [.ofNat h.id])) :=
        hl.same ((SameLinks.emit _ _).trans (SameLinks.emit _ _))
      split
      · exact hstarted.dispatchQueue hfd nofun
      · exact hstarted.setSlave ⟨fun h0 => absurd h0 hfd, nofun, fun _ hne => absurd rfl hne⟩
          fun _ => hfd

theorem pushSocketData (hl : Linked h) {alive : ℕ → Bool} {fd : ℤ} {bytes : Bytes}
    (hbytes : bytes ≠ []) (hstep : h.pushSocketData alive fd bytes = some h') : Linked h' := by
  unfold Harbor.pushSocketData at hstep
  dsimp only at hstep
  split at hstep
  · exact some.inj hstep ▸ hl
  · obtain ⟨-, rfl⟩ | ⟨hstatus, -, rfl⟩ | ⟨-, hr⟩ := readLoop_cases hl hbytes hstep
    · exact hl
    · refine hl.closeHarbor fun hfd => ?_
      simp [(hl.slave _).unconnected hfd] at hstatus
    · exact hr.linked

theorem foldl_goDown {gone : List ℕ} (hl : Linked h) (hgone : ∀ i ∈ gone, (h.s i).fd ≠ 0) :
    Linked (gone.foldl Harbor.goDown h) := by
  induction gone generalizing h with
  | nil => exact hl
  | cons i gone ih =>
    refine ih (hl.goDown (hgone i mem_cons_self)) fun j hj => ?_
    rw [goDown_s]
    exact hgone j (mem_cons_of_mem i hj)

theorem socketClosed (hl : Linked h) (fd : ℤ) : Linked (h.socketClosed fd) := by
  unfold Harbor.socketClosed
  dsimp only
  have hgone : Linked (((range' 1 255).filter fun i =>
      (h.s i).fd = fd ∧ fd ≠ 0).foldl Harbor.goDown h) := hl.foldl_goDown fun i hi => by
    simp only [mem_filter, decide_eq_true_eq] at hi
    exact hi.2.1 ▸ hi.2.2
  split
  · exact hgone.same (SameLinks.emit _ _)
  · exact hgone

theorem mainloop (hl : Linked h) (hstep : h.mainloop e = some h') : Linked h' := by
  cases e with
  | sendHandle source destination type session msg =>
    simp only [Harbor.mainloop] at hstep
    split at hstep
    · nomatch hstep
    · rw [← some.inj hstep]
      apply Linked.remoteSendHandle
      exact hl.congr rfl rfl
  | sendName source name type session msg =>
    rw [← some.inj hstep]
    apply Linked.remoteSendName
    exact hl.congr rfl rfl
  | name name source =>
    simp only [Harbor.mainloop] at hstep
    split at hstep
    · nomatch hstep
    · exact some.inj hstep ▸ hl.commandName name source
  | connect accept fd id => exact some.inj hstep ▸ hl.commandConnect accept fd id
  | data alive fd bytes =>
    simp only [Harbor.mainloop] at hstep
    split at hstep
    · nomatch hstep
    · next hbytes => exact hl.pushSocketData hbytes hstep
  | closed fd => exact some.inj hstep ▸ hl.socketClosed fd

end Linked

/-! ## One step -/

/-- Nothing is reported when a message comes to be sent to a harbor that is down. -/
theorem remoteSendHandle_silent (hl : Linked h) {handle : ℕ} (hdown : ToDown h handle)
    (number source : ℕ) (type : UInt8) (session : ℕ) (msg : Bytes) {before : Harbor}
    (hbefore : before.out = h.out) :
    (newEffects before (h.remoteSendHandle number source handle type session msg)).filter
      (isError handle source) = [] := by
  have hfd := hl.downs _ hdown.2
  unfold Harbor.remoteSendHandle
  dsimp only
  rw [if_neg (by simpa [Harbor.give] using hdown.1)]
  split
  · next hwaits =>
    have hstatus : (h.s (harborOf handle)).status = .handshake := hwaits.resolve_left hfd
    rw [if_neg (by simp [Harbor.give, hstatus])]
    simp [newEffects, Harbor.pushSlave, Harbor.setSlave, Harbor.give, hbefore]
  · unfold Harbor.sendRemote
    split
    · simp [newEffects, Harbor.give, hbefore]
    · simp [newEffects, Harbor.emit, Harbor.give, isError, hbefore]

/-- A message that is routed to a harbor that is down is not reported. -/
theorem routed_silent (hl : Linked h) (hstep : h.mainloop e = some h') {source handle : ℕ}
    (hroutes : routesTo h e = some (source, handle)) (hdown : ToDown h handle) :
    (newEffects h h').filter (isError handle source) = [] := by
  cases e with
  | sendHandle source' destination type session msg =>
    simp only [routesTo, some.injEq, Prod.mk.injEq] at hroutes
    obtain ⟨rfl, rfl⟩ := hroutes
    simp only [Harbor.mainloop] at hstep
    split at hstep
    · nomatch hstep
    · rw [← some.inj hstep]
      have hreceived : Linked (h.receive ⟨none, source', type, session, msg⟩) := hl.congr rfl rfl
      exact remoteSendHandle_silent hreceived hdown _ _ _ _ _ rfl
  | sendName source' name type session msg =>
    simp only [routesTo] at hroutes
    split at hroutes
    · nomatch hroutes
    · next hvalue =>
      cases hroutes
      rw [← some.inj hstep]
      unfold Harbor.remoteSendName
      dsimp only
      split
      · next hzero => exact absurd hzero hvalue
      · apply remoteSendHandle_silent
        · exact hl.congr rfl rfl
        · exact hdown
        · rfl
  | name name source => nomatch hroutes
  | connect accept fd id => nomatch hroutes
  | data alive fd bytes => nomatch hroutes
  | closed fd => nomatch hroutes

theorem foldl_give (queue : List HarborMsg) (handle : ℕ) (h : Harbor) : ∃ given,
    queue.foldl (fun h m => h.give m.number handle) h = { h with given := given } ∧
      ∀ n, given.get n = if n ∈ queue.map (·.number) then some handle else h.given.get n := by
  induction queue generalizing h with
  | nil => exact ⟨h.given, rfl, by simp⟩
  | cons m queue ih =>
    obtain ⟨given, heq, hget⟩ := ih (h.give m.number handle)
    refine ⟨given, by rw [foldl_cons, heq]; rfl, fun n => ?_⟩
    simp only [hget, Harbor.give, Table.get_put, map_cons, mem_cons]
    grind

/-- Messages that are sent on a socket are written. -/
theorem sendAll_out (fd : ℤ) (queue : List HarborMsg) (h : Harbor) : ∃ written,
    (h.sendAll fd queue).out = h.out ++ written ∧ (queue = [] → written = []) ∧
      ∀ handle source, written.filter (isError handle source) = [] := by
  unfold Harbor.sendAll
  induction queue generalizing h with
  | nil => exact ⟨[], (append_nil _).symm, fun _ => rfl, fun _ _ => rfl⟩
  | cons m queue ih =>
    obtain ⟨written, hout, -, hnone⟩ := ih (h.sendRemote fd m)
    rw [foldl_cons, hout]
    unfold Harbor.sendRemote
    split
    · exact ⟨written, rfl, nofun, hnone⟩
    · refine ⟨_ :: written, append_assoc _ _ _, nofun, fun handle source => ?_⟩
      rw [filter_cons_of_neg (by simp [isError]), hnone]

/-- The messages that wait for a name are written to the socket of a harbor that is down. -/
theorem bound_silent (hl : Linked h) (hstep : h.mainloop e = some h') {handle : ℕ}
    {queue : List HarborMsg} (hbound : boundTo h e = some (handle, queue))
    (hdown : ToDown h handle) : (queue = [] → newEffects h h' = []) ∧
      ∀ source, (newEffects h h').filter (isError handle source) = [] := by
  cases e with
  | name name source =>
    simp only [boundTo, Option.ite_none_left_eq_some] at hbound
    obtain ⟨hvalid, heq⟩ := hbound
    obtain ⟨rfl, rfl⟩ := Prod.mk.inj (some.inj heq)
    simp only [Harbor.mainloop] at hstep
    split at hstep
    · nomatch hstep
    · have hfd := hl.downs _ hdown.2
      obtain rfl := some.inj hstep
      unfold Harbor.commandName Harbor.updateName
      rw [if_neg hvalid]
      dsimp only
      cases hqueue : (h.node (nameKey (padName name))).queue with
      | none => simp [newEffects]
      | some queue =>
        dsimp only
        unfold Harbor.dispatchNameQueue
        obtain ⟨given, hgive, -⟩ := foldl_give queue source { h with
          map := h.map.put (nameKey (padName name)) (some ⟨source, none⟩)
          bindings := h.bindings ++ [(nameKey (padName name), source)] }
        simp only [hgive]
        rw [if_neg hfd]
        obtain ⟨written, hout, hnil, hnone⟩ := sendAll_out (h.s (harborOf source)).fd
          (queue.map (complete source)) { h with
            map := h.map.put (nameKey (padName name)) (some ⟨source, none⟩)
            bindings := h.bindings ++ [(nameKey (padName name), source)]
            given := given }
        rw [newEffects, hout, drop_left]
        exact ⟨fun h => hnil (by rw [show queue = [] from h, map_nil]), hnone source⟩
  | sendHandle | sendName | connect | data | closed => nomatch hbound

theorem remoteSendHandle_lost (h : Harbor) (number source destination : ℕ) (type : UInt8)
    (session : ℕ) (msg : Bytes) :
    (h.remoteSendHandle number source destination type session msg).lost = h.lost := by
  unfold Harbor.remoteSendHandle
  dsimp only
  split
  · rfl
  · split
    · split <;> rfl
    · exact (SameLinks.sendRemote _ _ _).lost

theorem commandName_lost (h : Harbor) (name : Bytes) (source : ℕ) :
    (h.commandName name source).lost = h.lost := by
  unfold Harbor.commandName Harbor.updateName Harbor.dispatchNameQueue
  have hgive (queue : List HarborMsg) (h : Harbor) :=
    (SameLinks.foldl (f := fun h m => h.give m.number source)
      (fun h m => SameLinks.give h m.number source) queue h).lost
  split
  · rfl
  · dsimp only
    split
    · rfl
    · split
      · split
        · exact hgive _ _
        · split
          · exact ((SameLinks.sendLocal _ _ _).lost).trans (hgive _ _)
          · exact hgive _ _
      · exact ((SameLinks.sendAll _ _ _).lost).trans (hgive _ _)

theorem commandConnect_lost (h : Harbor) (accept : Bool) (fd id : ℤ) :
    (h.commandConnect accept fd id).lost = h.lost := by
  unfold Harbor.commandConnect
  split
  · rfl
  · dsimp only
    split
    · rfl
    · split
      · exact (SameLinks.dispatchQueue _ _).lost
      · rfl

/-- What goes down with a queue of messages loses them. -/
theorem goDown_lost (h : Harbor) (id : ℕ) : (h.goDown id).lost =
    h.lost ++ if id ∈ h.downs then [] else ((h.s id).queue.getD []).map (id, ·) := by
  unfold Harbor.goDown
  split <;> simp [*]

/-- The connection to a slave is closed. -/
theorem closeHarbor_lost (h : Harbor) (id : ℕ) : (h.closeHarbor id).lost =
    h.lost ++ if id ∈ h.downs then [] else ((h.s id).queue.getD []).map (id, ·) := by
  rw [← goDown_lost]
  unfold Harbor.closeHarbor
  dsimp only
  split <;> rfl

theorem closeHarbor_silent (h : Harbor) (id handle source : ℕ) :
    ∀ effect ∈ newEffects h (h.closeHarbor id), ¬isError handle source effect = true := by
  unfold Harbor.closeHarbor
  dsimp only
  split <;> simp [newEffects, Harbor.setSlave, Harbor.emit, isError]

def lostWith (h : Harbor) (i : ℕ) : List (ℕ × HarborMsg) :=
  if i ∈ h.downs then [] else ((h.s i).queue.getD []).map (i, ·)

theorem lostWith_eq_nil (i : ℕ) : lostWith h i = [] ↔ NoneQueued h i := by
  unfold lostWith NoneQueued
  split
  · next hdown => simp [hdown]
  · next hdown => simp [hdown]

/-- Harbors go down one after the other. -/
theorem foldl_goDown_lost {gone : List ℕ} (hgone : gone.Nodup) :
    (gone.foldl Harbor.goDown h).lost = h.lost ++ gone.flatMap (lostWith h) := by
  induction gone generalizing h with
  | nil => simp
  | cons i gone ih =>
    have hrest : gone.flatMap (lostWith (h.goDown i)) = gone.flatMap (lostWith h) := by
      refine flatMap_congr fun j hj => ?_
      have hne : j ≠ i := fun heq => (nodup_cons.mp hgone).1 (heq ▸ hj)
      have hdowns : j ∈ (h.goDown i).downs ↔ j ∈ h.downs := by
        unfold Harbor.goDown
        split <;> simp [hne]
      simp only [lostWith, goDown_s, hdowns]
    rw [foldl_cons, ih (nodup_cons.mp hgone).2, hrest, goDown_lost, flatMap_cons, append_assoc]
    rfl

theorem foldl_goDown_out (gone : List ℕ) (h : Harbor) :
    (gone.foldl Harbor.goDown h).out = h.out := by
  induction gone generalizing h with
  | nil => rfl
  | cons i gone ih => rw [foldl_cons, ih, goDown_out]

/-- What a step loses: nothing but what is queued for the harbors that it takes down, and
then it reports nothing. -/
theorem lost_cases (hl : Linked h) (hstep : h.mainloop e = some h') :
    (LosesNothing h e ∧ h'.lost = h.lost) ∨
    (¬LosesNothing h e ∧ (∃ p, p ∈ h'.lost.drop h.lost.length) ∧
      ∀ handle source, ∀ effect ∈ newEffects h h', ¬isError handle source effect = true) := by
  cases e with
  | sendHandle source destination type session msg =>
    left
    refine ⟨trivial, ?_⟩
    simp only [Harbor.mainloop] at hstep
    split at hstep
    · nomatch hstep
    · exact some.inj hstep ▸ remoteSendHandle_lost _ _ _ _ _ _ _
  | sendName source name type session msg =>
    left
    refine ⟨trivial, ?_⟩
    rw [← some.inj hstep]
    unfold Harbor.remoteSendName
    dsimp only
    split
    · rfl
    · exact remoteSendHandle_lost _ _ _ _ _ _ _
  | name name source =>
    left
    refine ⟨trivial, ?_⟩
    simp only [Harbor.mainloop] at hstep
    split at hstep
    · nomatch hstep
    · exact some.inj hstep ▸ commandName_lost _ _ _
  | connect accept fd id =>
    exact .inl ⟨trivial, some.inj hstep ▸ commandConnect_lost _ _ _ _⟩
  | data alive fd bytes =>
    simp only [Harbor.mainloop] at hstep
    split at hstep
    · nomatch hstep
    · next hbytes =>
      unfold Harbor.pushSocketData at hstep
      dsimp only at hstep
      split at hstep
      · next hid =>
        exact .inl ⟨fun hne => absurd hid hne, by rw [some.inj hstep]⟩
      · next hid =>
        obtain ⟨hwait, rfl⟩ | ⟨hstatus, hbad, rfl⟩ | ⟨hgood, hr⟩ := readLoop_cases hl hbytes hstep
        · left
          exact ⟨fun _ hstatus => by simp [hwait] at hstatus, rfl⟩
        · by_cases hnone : NoneQueued h (h.harborId fd)
          · left
            refine ⟨fun _ _ _ => hnone, ?_⟩
            rw [closeHarbor_lost]
            have hnil := (lostWith_eq_nil _).mpr hnone
            unfold lostWith at hnil
            rw [hnil, append_nil]
          · right
            refine ⟨fun hloses => hnone (hloses hid hstatus hbad), ?_, fun handle source =>
              closeHarbor_silent h _ handle source⟩
            rw [closeHarbor_lost, drop_left]
            exact exists_mem_of_ne_nil _ fun hnil => hnone ((lostWith_eq_nil _).mp hnil)
        · left
          exact ⟨fun _ hstatus hbad => absurd (hgood hstatus) hbad, hr.lost⟩
  | closed fd =>
    have heq := some.inj hstep
    unfold Harbor.socketClosed at heq
    dsimp only at heq
    set gone := (range' 1 255).filter fun i => (h.s i).fd = fd ∧ fd ≠ 0 with hgone
    have hnodup : gone.Nodup := Nodup.filter _ nodup_range'
    have hlost : h'.lost = h.lost ++ gone.flatMap (lostWith h) := by
      rw [← foldl_goDown_lost hnodup, ← heq]
      split <;> rfl
    have hsilent : ∀ handle source, ∀ effect ∈ newEffects h h',
        ¬isError handle source effect = true := by
      intro handle source effect heffect
      have hout := foldl_goDown_out gone h
      rw [← heq] at heffect
      split at heffect
      · simp only [newEffects, Harbor.reportHarborDown, Harbor.emit, hout, drop_left,
          mem_singleton] at heffect
        simp [heffect, isError, harborPtypeText, harborPtypeError]
      · simp [newEffects, hout] at heffect
    have hmem : ∀ i, i ∈ gone ↔ fd ≠ 0 ∧ i ∈ range' 1 255 ∧ (h.s i).fd = fd := by
      intro i
      simp only [hgone, mem_filter, decide_eq_true_eq]
      exact ⟨fun hi => ⟨hi.2.2, hi.1, hi.2.1⟩, fun hi => ⟨hi.2.1, hi.2.2, hi.1⟩⟩
    by_cases hnone : ∀ i ∈ gone, NoneQueued h i
    · left
      refine ⟨fun hfd i hi hifd => hnone i ((hmem i).mpr ⟨hfd, hi, hifd⟩), ?_⟩
      have hnil : gone.flatMap (lostWith h) = [] :=
        flatMap_eq_nil_iff.mpr fun i hi => (lostWith_eq_nil i).mpr (hnone i hi)
      rw [hlost, hnil, append_nil]
    · right
      refine ⟨fun hloses => hnone fun i hi => ?_, ?_, hsilent⟩
      · obtain ⟨hfd, hrange, hifd⟩ := (hmem i).mp hi
        exact hloses hfd i hrange hifd
      · rw [hlost, drop_left]
        refine exists_mem_of_ne_nil _ fun hnil => hnone fun i hi => ?_
        exact (lostWith_eq_nil i).mp (flatMap_eq_nil_iff.mp hnil i hi)

/-- A step reports what it should just when it has nothing to report. -/
theorem reports_iff (hl : Linked h) (hstep : h.mainloop e = some h') :
    ReportsDown h e h' ↔ Untroubled h e h' := by
  have hlost := lost_cases hl hstep
  constructor
  · intro hreports
    refine ⟨fun p hroutes hdown => ?_, fun p hbound hdown => ?_, ?_⟩
    · have hone := (hreports.routed p.1 p.2 hroutes hdown).1
      rw [routed_silent hl hstep hroutes hdown] at hone
      nomatch hone
    · refine eq_nil_iff_forall_not_mem.mpr fun m hm => ?_
      have hall := (hreports.bound p.1 p.2 hbound hdown).1 m.header.source
      rw [(bound_silent hl hstep hbound hdown).2, length_nil] at hall
      have hnone := length_eq_zero_iff.mp hall.symm
      exact absurd (mem_filter.mpr ⟨hm, decide_eq_true rfl⟩) (hnone ▸ not_mem_nil)
    · obtain ⟨hloses, -⟩ | ⟨-, ⟨p, hp⟩, hsilent⟩ := hlost
      · exact hloses
      · obtain ⟨effect, heffect, herror⟩ := hreports.lost p hp
        exact absurd herror (hsilent _ _ effect heffect)
  · rintro ⟨hroutes, hbinds, hloses⟩
    refine ⟨fun source handle hto hdown => absurd hdown (hroutes (source, handle) hto),
      fun handle queue hbound hdown => ?_, ?_⟩
    · obtain rfl : queue = [] := hbinds (handle, queue) hbound hdown
      rw [(bound_silent hl hstep hbound hdown).1 rfl]
      exact ⟨fun _ => rfl, fun _ _ => not_mem_nil⟩
    · intro p hp
      obtain ⟨-, heq⟩ | ⟨hnot, -⟩ := hlost
      · simp [heq] at hp
      · exact absurd hloses hnot

/-! ## Runs -/

/-- **Harbors that are down.** In any run the steps report what is routed to harbors that
are down, and what was queued for them, just when nothing is: when no message is routed to
a harbor that is down, none waits for a name that is bound to a handle of one, and none is
queued for a harbor when it goes down.
SRC: service_harbor.c:230-241, 522-584, 598-682 -/
theorem down_reported_iff (hstart : (harborMachine id).start h) (events : List HarborEvent) :
    (harborMachine id).Each ReportsDown h events ↔ (harborMachine id).Each Untroubled h events := by
  refine Machine.each_congr (I := Linked) (fun h e h' hl hnext => hl.mainloop hnext)
    (fun h e h' hl hnext => reports_iff hl hnext) ?_ events
  obtain ⟨slave, -, rfl⟩ := hstart
  exact Linked.init id slave

def connectHarbor : List HarborEvent :=
  [.sendHandle 0x1000010 0x2000007 10 1 [1, 2], .connect false 5 2, .data (fun _ => true) 5 [2],
    .sendHandle 0x1000010 0x2000007 10 2 [3], .closed 5]

theorem down_reported_connected :
    (harborMachine 1).Each ReportsDown (.init 1 0x1000001) connectHarbor := by
  refine (down_reported_iff ⟨0x1000001, rfl, rfl⟩ connectHarbor).mpr ?_
  intro queued hqueued
  cases hqueued
  refine ⟨⟨fun p hp => some.inj hp ▸ by decide, nofun, trivial⟩, fun connected hconnected => ?_⟩
  cases hconnected
  refine ⟨⟨nofun, nofun, trivial⟩, fun up hup => ?_⟩
  cases hup
  refine ⟨⟨nofun, nofun, fun _ _ hbad => absurd rfl hbad⟩, fun sent hsent => ?_⟩
  refine ⟨⟨fun p hp => some.inj hp ▸ by decide, nofun, trivial⟩, fun closed hclosed => ?_⟩
  cases hsent
  refine ⟨⟨nofun, nofun, ?_⟩, trivial⟩
  unfold LosesNothing
  decide +kernel

/-- The harbor 2 is connected, ends its handshake, and sends an oversize header; then a
message is routed to it. -/
def sendToDown : List HarborEvent := [.connect false 5 2, .data (fun _ => true) 5 [2, 1, 0, 0, 0],
    .sendHandle 0x1000010 0x2000007 10 1 [9]]

/-- **A sender left waiting.** The connection was closed, and the message is written to its
socket all the same.
SRC: service_harbor.c:230-241, 468-472, 532-556 -/
theorem down_unreported : ¬(harborMachine 1).Each ReportsDown (.init 1 0x1000001) sendToDown := by
  intro heach
  obtain ⟨-, hconnected⟩ := heach _ rfl
  obtain ⟨-, hdown⟩ := hconnected _ rfl
  obtain ⟨hreports, -⟩ := hdown _ rfl
  have hone := (hreports.routed 0x1000010 0x2000007 rfl (by decide)).1
  revert hone
  decide

end Skynet.Analysis
