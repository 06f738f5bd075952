import Skynet.Analysis.HarborDown

/-!
# Messages to global names

Where a message is on its way through the harbor service: it waits in the queue of its name
until the name is bound, in the queue of a slave until the slave is up, and then it has been
sent.  It is sent once, to the handle that the name was bound to, and in the order of the
messages for the name.
-/

namespace Skynet.Analysis

open Library Model Harbor List Option

variable {h h' : Harbor} {id : ℕ} {s : Slave} {e : HarborEvent}

/-! ## What is to hold -/

def sentNumbers (h : Harbor) : List ℕ := h.out.filterMap HarborEffect.number

/-- The header of a message for a handle: source and session unchanged, and the type and the
low 24 bits of the handle. -/
def headerFor (r : RoutedMsg) (handle : ℕ) : RemoteHeader :=
  ⟨r.source, (r.type.toNat <<< 24) ||| (handle &&& handleMask), r.session⟩

/-- The effects that deliver a message to a handle: a local send of it, or its frame on the
socket to the harbor of the handle. -/
def Delivers (h : Harbor) (r : RoutedMsg) (number handle : ℕ) : HarborEffect → Prop
  | .send n source destination type session data => n = some number ∧
    harborOf handle = h.id ∧ source = r.source ∧ destination = handle ∧ type = r.type ∧
      session = r.session ∧ data = r.body
  | .write n fd bytes => n = some number ∧ fd ≠ 0 ∧ fd = (h.s (harborOf handle)).fd ∧
    bytes = frame (headerFor r handle) r.body
  | _ => False

def nameOf (h : Harbor) (n : ℕ) : Option NameKey := h.routed[n]?.bind (·.name)

def harborGiven (h : Harbor) (n : ℕ) : Option ℕ := (h.given.get n).map harborOf

/-- The first message may be sent before the second: they are two, and where they are for
one name and go to one harbor, the first came first. -/
def MayPrecede (h : Harbor) (a b : ℕ) : Prop :=
  a ≠ b ∧ (nameOf h a ≠ none → nameOf h a = nameOf h b → harborGiven h a = harborGiven h b → a < b)

/-- A harbor to which messages can be sent: this one, or one that is connected and past the
handshake. -/
def Up (h : Harbor) (i : ℕ) : Prop :=
  i = h.id ∨ (h.s i).status = .header ∨ (h.s i).status = .content

/-- What is sent is a message for the handle that it was given, unchanged, each once and
those for one name in their order; a message for a name that is bound has a handle that
the name was bound to; and a message with a handle whose harbor is up has been sent. -/
structure Delivered (h : Harbor) : Prop where
  exact : ∀ effect ∈ h.out, ∀ n, effect.number = some n → ∃ r handle,
    h.routed[n]? = some r ∧ h.given.get n = some handle ∧ Delivers h r n handle effect
  order : (sentNumbers h).Pairwise (MayPrecede h)
  resolved : ∀ n r key handle, h.routed[n]? = some r → r.name = some key →
    (key, handle) ∈ h.bindings → h.given.get n ≠ none
  bound : ∀ n r key handle, h.routed[n]? = some r → r.name = some key →
    h.given.get n = some handle → (key, handle) ∈ h.bindings
  sent : ∀ n handle, h.given.get n = some handle → Up h (harborOf handle) → n ∈ sentNumbers h

def Sendable (msg : Bytes) : Prop := msg.length + 12 ≤ 0xffffffff

instance (msg : Bytes) : Decidable (Sendable msg) := inferInstanceAs (Decidable (_ ≤ _))

/-- A name with messages in its queue is bound to a handle of this harbor, or of one that
there is a socket to; and no message is too large. -/
def ConnectedFirst (h : Harbor) : HarborEvent → Prop
  | .name name source => (h.node (nameKey (padName name))).queue = none ∨
    harborOf source = h.id ∨ (h.s (harborOf source)).fd ≠ 0
  | .sendHandle _ _ _ _ msg => Sendable msg
  | .sendName _ _ _ _ msg => Sendable msg
  | _ => True

instance : ∀ h e, Decidable (ConnectedFirst h e)
  | _, .name _ _ => inferInstanceAs (Decidable (_ ∨ _ ∨ _))
  | _, .sendHandle _ _ _ _ _ => inferInstanceAs (Decidable (Sendable _))
  | _, .sendName _ _ _ _ _ => inferInstanceAs (Decidable (Sendable _))
  | _, .connect _ _ _ => .isTrue trivial
  | _, .data _ _ _ => .isTrue trivial
  | _, .closed _ => .isTrue trivial

/-! ## Where the messages are -/

def waitingFor (h : Harbor) (i : ℕ) : List ℕ := ((h.s i).queue.getD []).map (·.number)

def heldFor (h : Harbor) (key : NameKey) : List ℕ := ((h.node key).queue.getD []).map (·.number)

def unaddressed (r : RoutedMsg) (number : ℕ) : HarborMsg :=
  ⟨⟨r.source, r.type.toNat <<< 24, r.session⟩, r.body, number⟩

def addressed (r : RoutedMsg) (number handle : ℕ) : HarborMsg :=
  ⟨headerFor r handle, r.body, number⟩

/-- Every message with a handle is in the queue of the slave it is for, sent, or for a
harbor that is down; and what waits is in order behind what was sent. -/
structure Ways (h : Harbor) : Prop where
  links : Linked h
  slave : harborOf h.slave = h.id
  own : (h.s h.id).queue = none
  queued : ∀ i, ∀ m ∈ (h.s i).queue.getD [], ∃ r handle, h.routed[m.number]? = some r ∧
    h.given.get m.number = some handle ∧ harborOf handle = i ∧ m = addressed r m.number handle
  order : ∀ i, (sentNumbers h ++ waitingFor h i).Pairwise (MayPrecede h)
  known : ∀ n, h.routed.length ≤ n → h.given.get n = none
  given : ∀ n handle, h.given.get n = some handle → n ∈ sentNumbers h ∨
    n ∈ waitingFor h (harborOf handle) ∨
      (harborOf handle ≠ h.id ∧ (h.s (harborOf handle)).status = .down)
  sendable : ∀ r ∈ h.routed, Sendable r.body
  exact : ∀ effect ∈ h.out, ∀ n, effect.number = some n → ∃ r handle,
    h.routed[n]? = some r ∧ h.given.get n = some handle ∧ Delivers h r n handle effect

/-- Every message without a handle is in the queue of its name, which is not bound; and the
handle of a message for a name is one that the name was bound to. -/
structure Names (h : Harbor) : Prop where
  held : ∀ key, ∀ m ∈ (h.node key).queue.getD [], ∃ r, h.routed[m.number]? = some r ∧
    r.name = some key ∧ h.given.get m.number = none ∧ m = unaddressed r m.number
  unbound : ∀ key, (h.node key).queue ≠ none → (h.node key).value = 0
  heldOrder : ∀ key, (heldFor h key).Pairwise (· < ·)
  notGiven : ∀ n r, h.routed[n]? = some r → h.given.get n = none →
    ∃ key, r.name = some key ∧ n ∈ heldFor h key
  bound : ∀ n r key handle, h.routed[n]? = some r → r.name = some key →
    h.given.get n = some handle → (key, handle) ∈ h.bindings
  value : ∀ key, (h.node key).value ≠ 0 → (key, (h.node key).value) ∈ h.bindings
  binding : ∀ key handle, (key, handle) ∈ h.bindings → (h.node key).value ≠ 0

structure Routing (h : Harbor) : Prop extends Ways h, Names h

namespace Routing

theorem init {id slave : ℕ} (hslave : harborOf slave = id) : Routing (.init id slave) := by
  refine ⟨⟨Linked.init id slave, hslave, ?_, ?_, ?_, ?_, ?_, ?_, ?_⟩, ⟨?_, ?_, ?_, ?_, ?_, ?_, ?_⟩⟩
  all_goals simp [Harbor.init, unknown, Harbor.node, sentNumbers, waitingFor, heldFor]

end Routing

theorem Ways.given_of_mem (hr : Ways h) {i n : ℕ} (hn : n ∈ sentNumbers h ++ waitingFor h i) :
    ∃ handle, h.given.get n = some handle := by
  rcases mem_append.mp hn with hn | hn
  · obtain ⟨effect, heffect, hnumber⟩ := mem_filterMap.mp hn
    obtain ⟨r, handle, -, hgiven, -⟩ := hr.exact effect heffect n hnumber
    exact ⟨handle, hgiven⟩
  · obtain ⟨m, hm, rfl⟩ := List.mem_map.mp hn
    obtain ⟨r, handle, -, hgiven, -, -⟩ := hr.queued i m hm
    exact ⟨handle, hgiven⟩

theorem Ways.harborGiven_waiting (hr : Ways h) {i n : ℕ} (hn : n ∈ waitingFor h i) :
    harborGiven h n = some i := by
  obtain ⟨m, hm, rfl⟩ := List.mem_map.mp hn
  obtain ⟨r, handle, -, hgiven, hharbor, -⟩ := hr.queued i m hm
  rw [harborGiven, hgiven, map_some, hharbor]

theorem mayPrecede_of_ne {a b : ℕ} (hne : harborGiven h a ≠ harborGiven h b) : MayPrecede h a b :=
  ⟨fun heq => hne (heq ▸ rfl), fun _ _ hto => absurd hto hne⟩

namespace Routing

theorem delivered (hr : Routing h) : Delivered h where
  exact := hr.exact
  order := (pairwise_append.mp (hr.order 0)).1
  resolved n r key handle hrouted hname hbinding hnone := by
    obtain ⟨key', hkey', hheld⟩ := hr.notGiven n r hrouted hnone
    have hkey : key' = key := some.inj (hkey'.symm.trans hname)
    subst hkey
    refine hr.binding key' handle hbinding (hr.unbound key' fun hqueue => ?_)
    simp [heldFor, hqueue] at hheld
  bound := hr.bound
  sent n handle hgiven hup := by
    obtain hsent | hwaiting | ⟨hother, hdown⟩ := hr.given n handle hgiven
    · exact hsent
    · have hqueue : (h.s (harborOf handle)).queue = none := by
        obtain hown | hheader | hcontent := hup
        · exact hown ▸ hr.own
        · exact (hr.links.slave _).empty (by simp [hheader]) (by simp [hheader])
        · exact (hr.links.slave _).empty (by simp [hcontent]) (by simp [hcontent])
      simp [waitingFor, hqueue] at hwaiting
    · obtain hown | hheader | hcontent := hup
      · exact absurd hown hother
      · simp [hdown] at hheader
      · simp [hdown] at hcontent

end Routing

/-! ## Steps that send no message -/

structure Quiet (h h' : Harbor) : Prop where
  id : h'.id = h.id
  slave : h'.slave = h.slave
  map : h'.map = h.map
  routed : h'.routed = h.routed
  given : h'.given = h.given
  bindings : h'.bindings = h.bindings
  queue : ∀ i, (h'.s i).queue = (h.s i).queue ∨ (h'.s i).queue = none ∧ (h'.s i).status = .down
  fd : ∀ i, (h.s i).fd ≠ 0 → (h'.s i).fd = (h.s i).fd
  down : ∀ i, (h.s i).status = .down → (h'.s i).status = .down
  out : ∃ effects, h'.out = h.out ++ effects ∧ ∀ e ∈ effects, e.number = none

namespace Quiet

theorem refl (h : Harbor) : Quiet h h :=
  ⟨rfl, rfl, rfl, rfl, rfl, rfl, fun _ => .inl rfl, fun _ _ => rfl, fun _ hdown => hdown, [],
    by simp, by simp⟩

theorem trans {h'' : Harbor} (h₁ : Quiet h h') (h₂ : Quiet h' h'') : Quiet h h'' where
  id := h₂.id.trans h₁.id
  slave := h₂.slave.trans h₁.slave
  map := h₂.map.trans h₁.map
  routed := h₂.routed.trans h₁.routed
  given := h₂.given.trans h₁.given
  bindings := h₂.bindings.trans h₁.bindings
  queue i := by
    have hq₁ := h₁.queue i
    have hq₂ := h₂.queue i
    have hdown := h₂.down i
    grind
  fd i hfd := (h₂.fd i ((h₁.fd i hfd).symm ▸ hfd)).trans (h₁.fd i hfd)
  down i hdown := h₂.down i (h₁.down i hdown)
  out := by
    obtain ⟨effects₁, hout₁, hnone₁⟩ := h₁.out
    obtain ⟨effects₂, hout₂, hnone₂⟩ := h₂.out
    refine ⟨effects₁ ++ effects₂, by rw [hout₂, hout₁, append_assoc], fun e he => ?_⟩
    exact (mem_append.mp he).elim (hnone₁ e) (hnone₂ e)

theorem emit (h : Harbor) {e : HarborEffect} (he : e.number = none) : Quiet h (h.emit e) :=
  ⟨rfl, rfl, rfl, rfl, rfl, rfl, fun _ => .inl rfl, fun _ _ => rfl, fun _ hdown => hdown, [e],
    rfl, fun _ hmem => mem_singleton.mp hmem ▸ he⟩

theorem setSlave (hqueue : s.queue = (h.s id).queue ∨ s.queue = none ∧ s.status = .down)
    (hfd : (h.s id).fd ≠ 0 → s.fd = (h.s id).fd)
    (hdown : (h.s id).status = .down → s.status = .down) : Quiet h (h.setSlave id s) := by
  refine ⟨rfl, rfl, rfl, rfl, rfl, rfl, fun i => ?_, fun i hi => ?_, fun i hi => ?_, [], ?_, ?_⟩
  · by_cases heq : i = id
    · simpa [Harbor.setSlave, heq] using hqueue
    · simp [Harbor.setSlave, heq]
  · by_cases heq : i = id
    · simpa [Harbor.setSlave, heq] using hfd (heq ▸ hi)
    · simp [Harbor.setSlave, heq]
  · by_cases heq : i = id
    · simpa [Harbor.setSlave, heq] using hdown (heq ▸ hi)
    · simpa [Harbor.setSlave, heq] using hi
  · simp [Harbor.setSlave]
  · simp

theorem goDown (h : Harbor) (id : ℕ) : Quiet h (h.goDown id) := by
  unfold Harbor.goDown
  split
  · exact refl h
  · exact ⟨rfl, rfl, rfl, rfl, rfl, rfl, fun _ => .inl rfl, fun _ _ => rfl, fun _ hdown => hdown,
      [], by simp, by simp⟩

theorem foldl_goDown (gone : List ℕ) (h : Harbor) : Quiet h (gone.foldl Harbor.goDown h) := by
  induction gone generalizing h with
  | nil => exact refl h
  | cons i gone ih => exact (goDown h i).trans (ih _)

theorem closeHarbor (h : Harbor) (id : ℕ) : Quiet h (h.closeHarbor id) := by
  have hgone := goDown h id
  unfold Harbor.closeHarbor
  dsimp only
  split
  · refine (hgone.trans (emit _ rfl)).trans (setSlave ?_ ?_ fun _ => rfl)
    · exact .inr ⟨rfl, rfl⟩
    · exact fun _ => rfl
  · refine hgone.trans (setSlave ?_ ?_ fun _ => rfl)
    · exact .inr ⟨rfl, rfl⟩
    · exact fun _ => rfl

theorem socketClosed (h : Harbor) (fd : ℤ) : Quiet h (h.socketClosed fd) := by
  unfold Harbor.socketClosed
  dsimp only
  split
  · exact (foldl_goDown _ h).trans (emit _ rfl)
  · exact foldl_goDown _ h

theorem forwardLocalMessage {alive : ℕ → Bool} {msg : Bytes}
    (hforward : h.forwardLocalMessage alive msg = some h') : Quiet h h' := by
  unfold Harbor.forwardLocalMessage at hforward
  split at hforward
  · nomatch hforward
  · dsimp only at hforward
    split at hforward
    · exact some.inj hforward ▸ emit h rfl
    · exact some.inj hforward ▸ (emit h rfl).trans (emit _ rfl)

variable {alive : ℕ → Bool} {buffer : Bytes} {rest : Option Bytes}

theorem readContent (hstatus : (h.s id).status = .content)
    (hstep : h.readContent id alive buffer = some (h', rest)) : Quiet h h' := by
  unfold Harbor.readContent at hstep
  dsimp only at hstep
  split at hstep
  · simp only [some.injEq, Prod.mk.injEq] at hstep
    exact hstep.1 ▸ setSlave (.inl rfl) (fun _ => rfl) fun hdown => hdown
  · obtain ⟨forwarded, hforward, heq⟩ := map_eq_some_iff.mp hstep
    simp only [Prod.mk.injEq] at heq
    have hs := (SameLinks.forwardLocalMessage hforward).s
    refine heq.1 ▸ (forwardLocalMessage hforward).trans (setSlave ?_ ?_ ?_)
    · exact .inl (by rw [hs])
    · exact fun _ => by rw [hs]
    · intro hdown
      simp [hs, hstatus] at hdown

theorem readHeader (hstatus : (h.s id).status = .header)
    (hstep : h.readHeader id alive buffer = some (h', rest)) : Quiet h h' := by
  unfold Harbor.readHeader at hstep
  dsimp only at hstep
  split at hstep
  · simp only [some.injEq, Prod.mk.injEq] at hstep
    exact hstep.1 ▸ setSlave (.inl rfl) (fun _ => rfl) fun hdown => hdown
  · split at hstep
    · simp only [some.injEq, Prod.mk.injEq] at hstep
      exact hstep.1 ▸ closeHarbor h id
    · have hset : Quiet h (h.setSlave id { h.s id with
          length := fromBigendian ((h.s id).size ++ buffer.take (4 - (h.s id).size.length))
          size := []
          recvBuffer := []
          status := .content }) :=
        setSlave (.inl rfl) (fun _ => rfl) fun hdown => by simp [hstatus] at hdown
      split at hstep
      · simp only [some.injEq, Prod.mk.injEq] at hstep
        exact hstep.1 ▸ hset
      · exact hset.trans (readContent (by simp [Harbor.setSlave]) hstep)

/-- A round behind the handshake. -/
theorem readRound (hstatus : (h.s id).status ≠ .handshake)
    (hstep : h.readRound id alive buffer = some (h', rest)) : Quiet h h' := by
  unfold Harbor.readRound at hstep
  split at hstep
  · next hhandshake => exact absurd hhandshake hstatus
  · next hheader => exact readHeader hheader hstep
  · next hcontent => exact readContent hcontent hstep
  · simp only [some.injEq, Prod.mk.injEq] at hstep
    exact hstep.1 ▸ refl h
  · simp only [some.injEq, Prod.mk.injEq] at hstep
    exact hstep.1 ▸ refl h

theorem readLoop {fuel : ℕ} (hr : Received id h h)
    (hstep : Harbor.readLoop fuel h id alive buffer = some h') : Quiet h h' := by
  induction fuel generalizing h buffer with
  | zero => nomatch hstep
  | succ fuel ih =>
    unfold Harbor.readLoop at hstep
    split at hstep
    · nomatch hstep
    · next round hround => exact some.inj hstep ▸ readRound hr.passed.2 hround
    · next round rest hround =>
      have hnext := hr.readRound hround
      exact (readRound hr.passed.2 hround).trans
        (ih ⟨hnext.linked, hnext.fd, hnext.passed, rfl⟩ hstep)

theorem readLoop_handshake {fuel : ℕ} {remoteId : UInt8} {tail : Bytes} (hl : Linked h)
    (hfd : (h.s id).fd ≠ 0) (hstatus : (h.s id).status = .handshake) (hgood : remoteId.toNat = id)
    (hstep : Harbor.readLoop fuel h id alive (remoteId :: tail) = some h') :
    Quiet ((h.setSlave id { h.s id with status := .header }).dispatchQueue id) h' := by
  set up := (h.setSlave id { h.s id with status := .header }).dispatchQueue id with hup
  have hr : Received id up up := by
    have hreceived : Received id h up := received_handshake hl hfd
    exact ⟨hreceived.linked, hreceived.fd, hreceived.passed, rfl⟩
  have hheader : (up.s id).status = .header := by
    rw [hup, (SameLinks.dispatchQueue _ id).s]
    simp [Harbor.setSlave]
  cases fuel with
  | zero => cases hstep
  | succ fuel =>
    simp only [Harbor.readLoop, Harbor.readRound, hstatus, Harbor.readHandshake, hgood, ne_eq,
      not_true_eq_false, if_false] at hstep
    split at hstep
    · cases hstep
    · next round hround =>
      rw [← some.inj hstep]
      split at hround
      · cases hround
      · exact readHeader hheader hround
    · next round rest hround =>
      split at hround
      · simp only [some.injEq, Prod.mk.injEq] at hround
        rw [← hround.1] at hstep
        exact readLoop hr hstep
      · have hnext := hr.readHeader hround
        exact (readHeader hheader hround).trans
          (readLoop ⟨hnext.linked, hnext.fd, hnext.passed, rfl⟩ hstep)

end Quiet

variable {r : RoutedMsg}

theorem Delivers.congr {number handle : ℕ} {effect : HarborEffect}
    (hd : Delivers h r number handle effect) (hid : h'.id = h.id)
    (hfd : ∀ i, (h.s i).fd ≠ 0 → (h'.s i).fd = (h.s i).fd) :
    Delivers h' r number handle effect := by
  cases effect with
  | send n source destination type session data => simpa [Delivers, hid] using hd
  | write n fd bytes =>
    obtain ⟨hn, hne, heq, hbytes⟩ := hd
    exact ⟨hn, hne, (hfd _ (heq ▸ hne)).symm ▸ heq, hbytes⟩
  | start fd => exact hd
  | close fd => exact hd

theorem mayPrecede_congr (hrouted : h'.routed = h.routed) (hgiven : h'.given = h.given) :
    MayPrecede h' = MayPrecede h := by
  unfold MayPrecede nameOf harborGiven
  rw [hrouted, hgiven]

namespace Routing

theorem quiet (hr : Routing h) (hq : Quiet h h') (hl : Linked h') : Routing h' := by
  obtain ⟨effects, hout, hnone⟩ := hq.out
  have hsent : sentNumbers h' = sentNumbers h := by
    have hnil : effects.filterMap HarborEffect.number = [] := filterMap_eq_nil_iff.mpr hnone
    rw [sentNumbers, hout, filterMap_append, hnil, append_nil, sentNumbers]
  have hnode : ∀ key, h'.node key = h.node key := fun key => by
    rw [Harbor.node, hq.map, Harbor.node]
  have hheld : ∀ key, heldFor h' key = heldFor h key := fun key => by
    rw [heldFor, hnode, heldFor]
  have hwaiting : ∀ i, waitingFor h' i = waitingFor h i ∨
      waitingFor h' i = [] ∧ (h'.s i).status = .down := fun i => by
    refine (hq.queue i).imp (fun hqueue => ?_) fun hqueue => ⟨?_, hqueue.2⟩
    · rw [waitingFor, hqueue, waitingFor]
    · simp [waitingFor, hqueue.1]
  constructor
  · constructor
    case links => exact hl
    case slave => rw [hq.slave, hq.id, hr.slave]
    case own =>
      rw [hq.id]
      exact (hq.queue _).elim (fun hqueue => hqueue.trans hr.own) And.left
    case queued =>
      rw [hq.routed, hq.given]
      intro i m hm
      obtain hqueue | ⟨hqueue, -⟩ := hq.queue i
      · exact hr.queued i m (hqueue ▸ hm)
      · simp [hqueue] at hm
    case order =>
      intro i
      rw [mayPrecede_congr hq.routed hq.given, hsent]
      obtain hkeep | ⟨hdrop, -⟩ := hwaiting i
      · exact hkeep ▸ hr.order i
      · rw [hdrop, append_nil]
        exact (pairwise_append.mp (hr.order i)).1
    case known =>
      rw [hq.routed, hq.given]
      exact hr.known
    case given =>
      intro n handle hgiven
      rw [hsent, hq.id]
      obtain hsent | hmem | ⟨hother, hdown⟩ := hr.given n handle (hq.given ▸ hgiven)
      · exact .inl hsent
      · obtain hkeep | ⟨hdrop, hdown⟩ := hwaiting (harborOf handle)
        · exact .inr (.inl (hkeep ▸ hmem))
        · refine .inr (.inr ⟨fun hown => ?_, hdown⟩)
          simp [waitingFor, hown, hr.own] at hmem
      · exact .inr (.inr ⟨hother, hq.down _ hdown⟩)
    case sendable => exact hq.routed ▸ hr.sendable
    case exact =>
      rw [hq.routed, hq.given]
      intro effect heffect n hn
      rcases mem_append.mp (hout ▸ heffect) with heffect | heffect
      · obtain ⟨r, handle, hrouted, hgiven, hdelivers⟩ := hr.exact effect heffect n hn
        exact ⟨r, handle, hrouted, hgiven, hdelivers.congr hq.id hq.fd⟩
      · simp [hnone effect heffect] at hn
  · constructor
    all_goals simp only [hq.routed, hq.given, hq.bindings, hnode, hheld]
    · exact hr.held
    · exact hr.unbound
    · exact hr.heldOrder
    · exact hr.notGiven
    · exact hr.bound
    · exact hr.value
    · exact hr.binding

end Routing

theorem sendAll_eq {fd : ℤ} {queue : List HarborMsg} (hqueue : ∀ m ∈ queue, Sendable m.buffer)
    (h : Harbor) : h.sendAll fd queue = { h with
      out := h.out ++ queue.map fun m => .write (some m.number) fd (frame m.header m.buffer) } := by
  unfold Harbor.sendAll
  induction queue generalizing h with
  | nil => simp
  | cons m queue ih =>
    have hm : ¬m.buffer.length + 12 > 0xffffffff := by
      have hsendable := hqueue m mem_cons_self
      unfold Sendable at hsendable
      omega
    rw [foldl_cons, ih (fun m' hm' => hqueue m' (mem_cons_of_mem m hm'))]
    unfold Harbor.sendRemote
    rw [if_neg hm]
    simp [Harbor.emit]

theorem sendLocal_eq (h : Harbor) (handle : ℕ) (queue : List HarborMsg) :
    h.sendLocal handle queue = { h with
      out := h.out ++ queue.map fun m => .send (some m.number) m.header.source handle
        (.ofNat (harborOf m.header.destination)) m.header.session m.buffer } := by
  unfold Harbor.sendLocal
  induction queue generalizing h with
  | nil => simp
  | cons m queue ih =>
    rw [foldl_cons, ih]
    simp [Harbor.emit]

/-! ## Messages that are passed on -/

theorem pairwise_insert {R : ℕ → ℕ → Prop} {l₁ l₂ l₃ : List ℕ} (h : (l₁ ++ l₃).Pairwise R)
    (hmid : l₂.Pairwise R) (hbefore : ∀ a ∈ l₁, ∀ b ∈ l₂, R a b)
    (hafter : ∀ b ∈ l₂, ∀ c ∈ l₃, R b c) : (l₁ ++ l₂ ++ l₃).Pairwise R := by
  obtain ⟨h₁, h₃, h₁₃⟩ := pairwise_append.mp h
  refine pairwise_append.mpr ⟨pairwise_append.mpr ⟨h₁, hmid, hbefore⟩, h₃, ?_⟩
  intro a ha c hc
  exact (mem_append.mp ha).elim (fun ha => h₁₃ a ha c hc) fun hb => hafter a hb c hc

structure Gives (h h' : Harbor) (numbers : List ℕ) (handle : ℕ) : Prop where
  id : h'.id = h.id
  slave : h'.slave = h.slave
  routed : ∃ extra, h'.routed = h.routed ++ extra
  sendable : ∀ r ∈ h'.routed, Sendable r.body
  given : ∀ n, h'.given.get n = if n ∈ numbers then some handle else h.given.get n
  fresh : ∀ n ∈ numbers, h.given.get n = none ∧ n < h'.routed.length
  sorted : numbers.Pairwise (· < ·)
  last : ∀ n ∈ numbers, ∀ c, h.given.get c ≠ none → nameOf h' n ≠ none →
    nameOf h' c = nameOf h' n → c < n

namespace Gives

variable {numbers : List ℕ} {handle : ℕ}

theorem agrees (hg : Gives h h' numbers handle) (hw : Ways h) {c : ℕ}
    (hc : h.given.get c ≠ none) : h'.given.get c = h.given.get c ∧
      h'.routed[c]? = h.routed[c]? := by
  obtain ⟨extra, hrouted⟩ := hg.routed
  have hlt : c < h.routed.length := by
    by_contra hge
    exact hc (hw.known c (not_lt.mp hge))
  constructor
  · rw [hg.given, if_neg fun hmem => hc (hg.fresh c hmem).1]
  · rw [hrouted, getElem?_append_left hlt]

theorem mayPrecede (hg : Gives h h' numbers handle) (hw : Ways h) {a b : ℕ}
    (ha : h.given.get a ≠ none) (hb : h.given.get b ≠ none) (h : MayPrecede h a b) :
    MayPrecede h' a b := by
  obtain ⟨hga, hra⟩ := hg.agrees hw ha
  obtain ⟨hgb, hrb⟩ := hg.agrees hw hb
  unfold MayPrecede nameOf harborGiven at h ⊢
  rw [hga, hra, hgb, hrb]
  exact h

theorem order (hg : Gives h h' numbers handle) (hw : Ways h) (i : ℕ) :
    (sentNumbers h ++ waitingFor h i).Pairwise (MayPrecede h') := by
  refine (hw.order i).imp_of_mem fun ha hb hab => hg.mayPrecede hw ?_ ?_ hab
  · obtain ⟨handle, hgiven⟩ := hw.given_of_mem ha
    simp [hgiven]
  · obtain ⟨handle, hgiven⟩ := hw.given_of_mem hb
    simp [hgiven]

theorem after (hg : Gives h h' numbers handle) {a b : ℕ} (ha : h.given.get a ≠ none)
    (hb : b ∈ numbers) : MayPrecede h' a b := by
  refine ⟨fun heq => ha (heq ▸ (hg.fresh b hb).1), fun hname hsame _ => ?_⟩
  exact hg.last b hb a ha (hsame ▸ hname) hsame

theorem among (hg : Gives h h' numbers handle) : numbers.Pairwise (MayPrecede h') :=
  hg.sorted.imp fun hlt => ⟨hlt.ne, fun _ _ _ => hlt⟩

theorem sent (hg : Gives h h' numbers handle) (hw : Ways h) (hs : h'.s = h.s)
    (hdowns : h'.downs = h.downs) (effects : List HarborEffect)
    (hout : h'.out = h.out ++ effects) (hnumbers : effects.filterMap HarborEffect.number = numbers)
    (hdelivers : ∀ effect ∈ effects, ∀ n, effect.number = some n →
      ∃ r, h'.routed[n]? = some r ∧ Delivers h r n handle effect)
    (hahead : ∀ n ∈ numbers, ∀ c ∈ waitingFor h (harborOf handle), nameOf h' n ≠ none →
      nameOf h' n ≠ nameOf h' c) : Ways h' := by
  have hsent : sentNumbers h' = sentNumbers h ++ numbers := by
    rw [sentNumbers, hout, filterMap_append, hnumbers, sentNumbers]
  have hwaiting : ∀ i, waitingFor h' i = waitingFor h i := fun i => by
    rw [waitingFor, hs, waitingFor]
  constructor
  case links => exact hw.links.congr hs hdowns
  case slave => rw [hg.slave, hg.id, hw.slave]
  case own => rw [hs, hg.id, hw.own]
  case queued =>
    rw [hs]
    intro i m hm
    obtain ⟨r, handle', hrouted, hgiven, hharbor, heq⟩ := hw.queued i m hm
    obtain ⟨hgiven', hrouted'⟩ := hg.agrees hw (c := m.number) (by simp [hgiven])
    exact ⟨r, handle', hrouted' ▸ hrouted, hgiven' ▸ hgiven, hharbor, heq⟩
  case order =>
    intro i
    rw [hsent, hwaiting]
    refine pairwise_insert (hg.order hw i) hg.among (fun a ha b hb => ?_) fun b hb c hc => ?_
    · obtain ⟨handle', hgiven⟩ := hw.given_of_mem (i := i) (mem_append_left _ ha)
      exact hg.after (by simp [hgiven]) hb
    · have hgb : h'.given.get b = some handle := by rw [hg.given, if_pos hb]
      have hto : harborGiven h' c = some i := by
        obtain ⟨handle', hgiven⟩ := hw.given_of_mem (i := i) (mem_append_right _ hc)
        obtain ⟨hgiven', -⟩ := hg.agrees hw (c := c) (by simp [hgiven])
        rw [harborGiven, hgiven', ← harborGiven, hw.harborGiven_waiting hc]
      by_cases hi : harborOf handle = i
      · refine ⟨fun heq => ?_, fun hname hsame _ => ?_⟩
        · obtain ⟨handle', hgiven⟩ := hw.given_of_mem (i := i) (mem_append_right _ hc)
          simp [← heq, (hg.fresh b hb).1] at hgiven
        · exact absurd hsame (hahead b hb c (hi ▸ hc) hname)
      · refine mayPrecede_of_ne fun heq => hi ?_
        simpa [harborGiven, hgb, hto] using heq.trans hto
  case known =>
    intro n hn
    obtain ⟨extra, hrouted⟩ := hg.routed
    have hlt : n ∉ numbers := fun hmem => absurd (hg.fresh n hmem).2 (not_lt.mpr hn)
    rw [hg.given, if_neg hlt]
    exact hw.known n (by simp [hrouted] at hn; omega)
  case given =>
    intro n handle' hgiven
    rw [hsent, hwaiting, hs, hg.id]
    by_cases hmem : n ∈ numbers
    · exact .inl (mem_append_right _ hmem)
    · rw [hg.given, if_neg hmem] at hgiven
      exact (hw.given n handle' hgiven).imp_left fun h => mem_append_left _ h
  case sendable => exact hg.sendable
  case exact =>
    intro effect heffect n hn
    have hcongr : ∀ {r handle'}, Delivers h r n handle' effect →
        Delivers h' r n handle' effect := fun hd => hd.congr hg.id fun i _ => by rw [hs]
    rcases mem_append.mp (hout ▸ heffect) with heffect | heffect
    · obtain ⟨r, handle', hrouted, hgiven, hd⟩ := hw.exact effect heffect n hn
      obtain ⟨hgiven', hrouted'⟩ := hg.agrees hw (c := n) (by simp [hgiven])
      exact ⟨r, handle', hrouted' ▸ hrouted, hgiven' ▸ hgiven, hcongr hd⟩
    · obtain ⟨r, hrouted, hd⟩ := hdelivers effect heffect n hn
      have hmem : n ∈ numbers := hnumbers ▸ mem_filterMap.mpr ⟨effect, heffect, hn⟩
      exact ⟨r, handle, hrouted, by rw [hg.given, if_pos hmem], hcongr hd⟩

theorem queued {n : ℕ} {r : RoutedMsg} (hg : Gives h h' [n] handle) (hw : Ways h)
    (hs : h'.s = (h.pushSlave (harborOf handle) (addressed r n handle)).s)
    (hl : Linked h') (hout : h'.out = h.out) (hrouted : h'.routed[n]? = some r)
    (hother : harborOf handle ≠ h.id) : Ways h' := by
  have hsent : sentNumbers h' = sentNumbers h := by rw [sentNumbers, hout, sentNumbers]
  have hslave : ∀ i, i ≠ harborOf handle → h'.s i = h.s i := fun i hi => by
    simp [hs, Harbor.pushSlave, Harbor.setSlave, hi]
  have hqueue : (h'.s (harborOf handle)).queue =
      some ((h.s (harborOf handle)).queue.getD [] ++ [addressed r n handle]) := by
    simp [hs, Harbor.pushSlave, Harbor.setSlave]
  have hstatus : ∀ i, (h'.s i).status = (h.s i).status ∧ (h'.s i).fd = (h.s i).fd := fun i => by
    by_cases hi : i = harborOf handle
    · simp [hs, Harbor.pushSlave, Harbor.setSlave, hi]
    · simp [hslave i hi]
  have hwaiting : waitingFor h' (harborOf handle) = waitingFor h (harborOf handle) ++ [n] := by
    simp [waitingFor, hqueue, addressed]
  have hothers : ∀ i, i ≠ harborOf handle → waitingFor h' i = waitingFor h i := fun i hi => by
    rw [waitingFor, hslave i hi, waitingFor]
  have hgn : h'.given.get n = some handle := by rw [hg.given, if_pos (by simp)]
  constructor
  case links => exact hl
  case slave => rw [hg.slave, hg.id, hw.slave]
  case own => rw [hg.id, hslave h.id fun heq => hother heq.symm, hw.own]
  case queued =>
    intro i m hm
    by_cases hi : i = harborOf handle
    · subst hi
      rw [hqueue, getD_some] at hm
      rcases mem_append.mp hm with hm | hm
      · obtain ⟨r', handle', hrouted', hgiven, hharbor, heq⟩ := hw.queued _ m hm
        obtain ⟨hgiven', hrouted''⟩ := hg.agrees hw (c := m.number) (by simp [hgiven])
        exact ⟨r', handle', hrouted'' ▸ hrouted', hgiven' ▸ hgiven, hharbor, heq⟩
      · rw [mem_singleton.mp hm]
        exact ⟨r, handle, hrouted, hgn, rfl, rfl⟩
    · rw [hslave i hi] at hm
      obtain ⟨r', handle', hrouted', hgiven, hharbor, heq⟩ := hw.queued i m hm
      obtain ⟨hgiven', hrouted''⟩ := hg.agrees hw (c := m.number) (by simp [hgiven])
      exact ⟨r', handle', hrouted'' ▸ hrouted', hgiven' ▸ hgiven, hharbor, heq⟩
  case order =>
    intro i
    rw [hsent]
    by_cases hi : i = harborOf handle
    · rw [hi, hwaiting, ← append_assoc]
      refine pairwise_append.mpr ⟨hg.order hw _, pairwise_singleton _ _, ?_⟩
      intro a ha b hb
      obtain ⟨handle', hgiven⟩ := hw.given_of_mem ha
      exact hg.after (by simp [hgiven]) hb
    · rw [hothers i hi]
      exact hg.order hw i
  case known =>
    intro c hc
    obtain ⟨extra, hextra⟩ := hg.routed
    have hne : c ∉ [n] := fun hmem => absurd (hg.fresh c hmem).2 (not_lt.mpr hc)
    rw [hg.given, if_neg hne]
    exact hw.known c (by simp [hextra] at hc; omega)
  case given =>
    intro c handle' hgiven
    rw [hsent, hg.id, (hstatus _).1]
    by_cases hmem : c ∈ [n]
    · rw [hg.given, if_pos hmem, some.injEq] at hgiven
      rw [← hgiven, hwaiting]
      exact .inr (.inl (mem_append_right _ hmem))
    · rw [hg.given, if_neg hmem] at hgiven
      refine (hw.given c handle' hgiven).imp_right fun hrest => hrest.imp_left fun hc => ?_
      by_cases hi : harborOf handle' = harborOf handle
      · rw [hi, hwaiting]
        exact mem_append_left _ (hi ▸ hc)
      · rw [hothers _ hi]
        exact hc
  case sendable => exact hg.sendable
  case exact =>
    intro effect heffect c hc
    obtain ⟨r', handle', hrouted', hgiven, hd⟩ := hw.exact effect (hout ▸ heffect) c hc
    obtain ⟨hgiven', hrouted''⟩ := hg.agrees hw (c := c) (by simp [hgiven])
    exact ⟨r', handle', hrouted'' ▸ hrouted', hgiven' ▸ hgiven,
      hd.congr hg.id fun i _ => (hstatus i).2⟩

end Gives

/-- A slave gets a socket, or ends its handshake: its queue is sent. -/
theorem Routing.dispatchQueue (hr : Routing h) (hfd : s.fd ≠ 0)
    (hsame : (h.s id).fd ≠ 0 → s.fd = (h.s id).fd) (hqueue : s.queue = (h.s id).queue)
    (hstatus : s.status = .header) (hup : (h.s id).status ≠ .down) :
    Routing ((h.setSlave id s).dispatchQueue id) := by
  have hl : Linked ((h.setSlave id s).dispatchQueue id) :=
    hr.links.dispatchQueue hfd (by simp [hstatus])
  have hself : (h.setSlave id s).s id = s := by simp [Harbor.setSlave]
  cases hq : (h.s id).queue with
  | none =>
    have heq : (h.setSlave id s).dispatchQueue id = h.setSlave id s := by
      unfold Harbor.dispatchQueue
      simp [hself, hqueue, hq]
    rw [heq] at hl ⊢
    refine hr.quiet (Quiet.setSlave (.inl hqueue) hsame fun hdown => absurd hdown hup) hl
  | some queue =>
    have hsendable : ∀ m ∈ queue, Sendable m.buffer := by
      intro m hm
      obtain ⟨r, handle, hrouted, -, -, heq⟩ := hr.queued id m (by rw [hq]; exact hm)
      rw [heq]
      exact hr.sendable r (mem_of_getElem? hrouted)
    set effects := queue.map fun m => HarborEffect.write (some m.number) s.fd
      (frame m.header m.buffer) with heffects
    have heq : (h.setSlave id s).dispatchQueue id =
        { h.setSlave id { s with queue := none } with out := h.out ++ effects } := by
      unfold Harbor.dispatchQueue
      simp only [hself, hqueue, hq, sendAll_eq hsendable]
      unfold Harbor.setSlave
      congr 1
      funext i
      dsimp only
      split <;> rfl
    rw [heq] at hl ⊢
    set h' := { h.setSlave id { s with queue := none } with out := h.out ++ effects } with hh'
    have hnumbers : effects.filterMap HarborEffect.number = waitingFor h id := by
      rw [waitingFor, hq, heffects, filterMap_map, getD_some]
      exact congrFun filterMap_eq_map queue
    have hslave : ∀ i, h'.s i = if i = id then { s with queue := none } else h.s i := fun i => rfl
    have hwaiting : ∀ i, waitingFor h' i = if i = id then [] else waitingFor h i := by
      intro i
      rw [waitingFor, hslave]
      split <;> rfl
    have hsent : sentNumbers h' = sentNumbers h ++ waitingFor h id := by
      rw [← hnumbers]
      exact filterMap_append
    have hfds : ∀ i, (h.s i).fd ≠ 0 → (h'.s i).fd = (h.s i).fd := by
      intro i hi
      rw [hslave]
      split
      · next heq => exact heq ▸ hsame (heq ▸ hi)
      · rfl
    refine ⟨⟨hl, hr.slave, ?_, ?_, ?_, hr.known, ?_, hr.sendable, ?_⟩, ⟨hr.held, hr.unbound,
      hr.heldOrder, hr.notGiven, hr.bound, hr.value, hr.binding⟩⟩
    · rw [hslave]
      split
      · rfl
      · exact hr.own
    · intro i m hm
      rw [hslave] at hm
      split at hm
      · simp at hm
      · exact hr.queued i m hm
    · intro i
      rw [hsent, hwaiting]
      split
      · rw [append_nil]
        exact hr.order id
      · next hi =>
        obtain ⟨-, hwaits, hcross⟩ := pairwise_append.mp (hr.order id)
        refine pairwise_insert (hr.order i) hwaits hcross fun b hb c hc => ?_
        refine mayPrecede_of_ne (h := h) fun hto => hi ?_
        rw [hr.harborGiven_waiting hb, hr.harborGiven_waiting hc] at hto
        exact (some.inj hto).symm
    · intro n handle hgiven
      rw [hsent, hwaiting, hslave]
      obtain hmem | hmem | ⟨hother, hdown⟩ := hr.given n handle hgiven
      · exact .inl (mem_append_left _ hmem)
      · by_cases hi : harborOf handle = id
        · exact .inl (mem_append_right _ (hi ▸ hmem))
        · exact .inr (.inl (by simpa [hi] using hmem))
      · have hi : harborOf handle ≠ id := fun hi => hup (hi ▸ hdown)
        exact .inr (.inr ⟨hother, by simpa [hi] using hdown⟩)
    · intro effect heffect n hn
      rcases mem_append.mp heffect with heffect | heffect
      · obtain ⟨r, handle, hrouted, hgiven, hd⟩ := hr.exact effect heffect n hn
        exact ⟨r, handle, hrouted, hgiven, hd.congr rfl hfds⟩
      · obtain ⟨m, hm, rfl⟩ := List.mem_map.mp heffect
        obtain ⟨r, handle, hrouted, hgiven, hharbor, hmsg⟩ := hr.queued id m (by rw [hq]; exact hm)
        have hnm : m.number = n := by simpa [HarborEffect.number] using hn
        subst hnm
        refine ⟨r, handle, hrouted, hgiven, rfl, hfd, ?_, ?_⟩
        · rw [hharbor, hslave, if_pos rfl]
        · rw [hmsg]
          rfl

/-! ## A message comes to be routed -/

structure Arrives (h h' : Harbor) (r : RoutedMsg) : Prop where
  id : h'.id = h.id
  slave : h'.slave = h.slave
  s : h'.s = h.s
  out : h'.out = h.out
  routed : h'.routed = h.routed ++ [r]
  given : h'.given = h.given
  bindings : h'.bindings = h.bindings
  downs : h'.downs = h.downs
  node : ∀ key, h'.node key = h.node key

theorem arrives_receive (h : Harbor) (r : RoutedMsg) : Arrives h (h.receive r) r :=
  ⟨rfl, rfl, rfl, rfl, rfl, rfl, rfl, rfl, fun _ => rfl⟩

variable {handle : ℕ}

theorem Routing.gives (hr : Routing h)
    (hid : h'.id = h.id) (hslave : h'.slave = h.slave) (hrouted : h'.routed = h.routed ++ [r])
    (hgiven : h'.given = h.given.put h.routed.length (some handle)) (hsendable : Sendable r.body) :
    Gives h h' [h.routed.length] handle where
  id := hid
  slave := hslave
  routed := ⟨[r], hrouted⟩
  sendable r' hr' := by
    rcases mem_append.mp (hrouted ▸ hr') with hr' | hr'
    · exact hr.sendable r' hr'
    · exact mem_singleton.mp hr' ▸ hsendable
  given n := by simp [hgiven, Table.get_put]
  fresh n hn := by
    rw [mem_singleton.mp hn]
    exact ⟨hr.known _ (le_refl _), by simp [hrouted]⟩
  sorted := pairwise_singleton _ _
  last n hn c hc _ _ := by
    rw [mem_singleton.mp hn]
    by_contra hge
    exact hc (hr.known c (not_lt.mp hge))

theorem Names.give (hn : Names h) (hrouted : h'.routed = h.routed ++ [r])
    (hgiven : h'.given = h.given.put h.routed.length (some handle))
    (hbindings : h'.bindings = h.bindings) (hnode : ∀ key, h'.node key = h.node key)
    (hbound : ∀ key, r.name = some key → (key, handle) ∈ h.bindings) : Names h' := by
  have hheld : ∀ key, heldFor h' key = heldFor h key := fun key => by
    rw [heldFor, hnode, heldFor]
  have hold : ∀ n, n ≠ h.routed.length → h'.given.get n = h.given.get n := fun n hne => by
    simp [hgiven, Table.get_put, hne]
  have hroutes : ∀ n r', h'.routed[n]? = some r' → n ≠ h.routed.length →
      h.routed[n]? = some r' := fun n r' hget hne => by
    rw [hrouted, getElem?_append] at hget
    grind
  constructor
  · intro key m hm
    obtain ⟨r', hget, hname, hnone, heq⟩ := hn.held key m (hnode key ▸ hm)
    obtain ⟨hlt, -⟩ := List.getElem?_eq_some_iff.mp hget
    refine ⟨r', ?_, hname, ?_, heq⟩
    · rw [hrouted, getElem?_append_left hlt, hget]
    · rw [hold _ hlt.ne, hnone]
  · exact fun key => (hnode key).symm ▸ hn.unbound key
  · exact fun key => (hheld key).symm ▸ hn.heldOrder key
  · intro n r' hget hnone
    by_cases hnew : n = h.routed.length
    · simp [hgiven, hnew] at hnone
    · rw [hold n hnew] at hnone
      obtain ⟨key, hname, hmem⟩ := hn.notGiven n r' (hroutes n r' hget hnew) hnone
      exact ⟨key, hname, (hheld key).symm ▸ hmem⟩
  · intro n r' key handle' hget hname hgiven'
    rw [hbindings]
    by_cases hnew : n = h.routed.length
    · have hr' : r' = r := by simpa [hnew, hrouted] using hget.symm
      have hhandle : handle' = handle := by simpa [hgiven, hnew] using hgiven'.symm
      exact hhandle ▸ hbound key (hr' ▸ hname)
    · exact hn.bound n r' key handle' (hroutes n r' hget hnew) hname (hold n hnew ▸ hgiven')
  · exact hbindings ▸ fun key => (hnode key).symm ▸ hn.value key
  · exact hbindings ▸ fun key => (hnode key).symm ▸ hn.binding key

/-- A new message is sent to its handle or queued for its harbor. -/
theorem Routing.remoteSendHandle (hr : Routing h) (ha : Arrives h h' r)
    (hsendable : Sendable r.body) (hbound : ∀ key, r.name = some key → (key, handle) ∈ h.bindings) :
    Routing (h'.remoteSendHandle h.routed.length r.source handle r.type r.session r.body) := by
  have hl := (hr.links.congr ha.s ha.downs).remoteSendHandle h.routed.length r.source handle
    r.type r.session r.body
  have hnew : ∀ h'' : Harbor, h''.routed = h'.routed → h''.routed[h.routed.length]? = some r :=
    fun h'' hrouted => by simp [hrouted, ha.routed]
  have hgive : (h'.give h.routed.length handle).given =
      h.given.put h.routed.length (some handle) := by rw [Harbor.give, ha.given]
  have hnames : ∀ h'' : Harbor, h''.routed = h'.routed → h''.bindings = h'.bindings →
      h''.map = h'.map → h''.given = (h'.give h.routed.length handle).given → Names h'' := by
    intro h'' hrouted hbindings hmap hgiven
    refine hr.toNames.give (hrouted.trans ha.routed) (hgiven.trans hgive)
      (hbindings.trans ha.bindings) (fun key => ?_) hbound
    rw [← ha.node, Harbor.node, hmap, Harbor.node]
  have hgives : ∀ h'' : Harbor, h''.id = h'.id → h''.slave = h'.slave →
      h''.routed = h'.routed → h''.given = (h'.give h.routed.length handle).given →
      Gives h h'' [h.routed.length] handle := fun h'' hid hslave hrouted hgiven =>
    hr.gives (hid.trans ha.id) (hslave.trans ha.slave) (hrouted.trans ha.routed)
      (hgiven.trans hgive) hsendable
  unfold Harbor.remoteSendHandle at hl ⊢
  dsimp only at hl ⊢
  split
  · next hlocal =>
    have hown : harborOf handle = h.id := hlocal.trans ha.id
    set h'' := (h'.give h.routed.length handle).emit
      (.send (some h.routed.length) r.source handle r.type r.session r.body) with hh''
    have hg := hgives h'' rfl rfl rfl rfl
    refine ⟨hg.sent hr.toWays ha.s ha.downs _ (congrArg (· ++ _) ha.out) rfl ?_ ?_,
      hnames h'' rfl rfl rfl rfl⟩
    · intro effect heffect n hn
      rw [mem_singleton.mp heffect] at hn ⊢
      cases hn
      exact ⟨r, hnew _ rfl, rfl, hown, rfl, rfl, rfl, rfl, rfl⟩
    · intro n _ c hc
      simp [waitingFor, hown, hr.own] at hc
  · next hother =>
    rw [if_neg hother] at hl
    have hs : ((h'.give h.routed.length handle).s (harborOf handle)) = h.s (harborOf handle) :=
      congrFun ha.s _
    have hdead : (h.s (harborOf handle)).fd = 0 ∨ (h.s (harborOf handle)).status = .handshake →
        (h.s (harborOf handle)).status ≠ .down := by
      rintro (hfd | hstatus)
      · simp [(hr.links.slave _).unconnected hfd]
      · simp [hstatus]
    rw [hs] at hl ⊢
    split
    · next hwaits =>
      rw [if_pos hwaits, if_neg (hdead hwaits)] at hl
      rw [if_neg (hdead hwaits)]
      set h'' := (h'.give h.routed.length handle).pushSlave (harborOf handle)
        ⟨⟨r.source, r.type.toNat <<< 24 ||| handle &&& handleMask, r.session⟩, r.body,
          h.routed.length⟩ with hh''
      have hg := hgives h'' rfl rfl rfl rfl
      refine ⟨hg.queued hr.toWays ?_ hl ha.out (hnew _ rfl) ?_, hnames h'' rfl rfl rfl rfl⟩
      · rw [hh'']
        unfold Harbor.pushSlave Harbor.setSlave
        rw [hs]
        funext i
        have hi : h'.s i = h.s i := congrFun ha.s i
        simp only [Harbor.give, hi]
        rfl
      · exact fun hown => hother (hown.trans ha.id.symm)
    · next hconnected =>
      rw [not_or] at hconnected
      have hempty : (h.s (harborOf handle)).queue = none :=
        (hr.links.slave _).empty (fun hwait => hconnected.1 ((hr.links.slave _).connected hwait))
          hconnected.2
      have hsmall : ¬r.body.length + 12 > 0xffffffff := by
        unfold Sendable at hsendable
        omega
      unfold Harbor.sendRemote at hl ⊢
      rw [if_neg hsmall] at hl ⊢
      set h'' := (h'.give h.routed.length handle).emit (.write (some h.routed.length)
        (h.s (harborOf handle)).fd (frame (headerFor r handle) r.body)) with hh''
      have hg := hgives h'' rfl rfl rfl rfl
      refine ⟨hg.sent hr.toWays ha.s ha.downs _ (congrArg (· ++ _) ha.out) rfl ?_ ?_,
        hnames h'' rfl rfl rfl rfl⟩
      · intro effect heffect n hn
        rw [mem_singleton.mp heffect] at hn ⊢
        cases hn
        exact ⟨r, hnew _ rfl, rfl, hconnected.1, rfl, rfl⟩
      · intro n _ c hc
        simp [waitingFor, hempty] at hc

theorem node_put (h : Harbor) (key key' : NameKey) (node : NameNode) :
    Harbor.node { h with map := h.map.put key (some node) } key' =
      if key' = key then node else h.node key' := by
  unfold Harbor.node
  rw [Table.get_put]
  split <;> rfl

/-- A new message waits for its name to be bound. -/
theorem Routing.hold {key : NameKey} (hr : Routing h) (hname : r.name = some key)
    (hsendable : Sendable r.body) (hzero : (h.node key).value = 0) (effect : HarborEffect)
    (heffect : effect.number = none) :
    Routing (Harbor.emit { h.receive r with map := h.map.put key (some ⟨0, some
      ((h.node key).queue.getD [] ++ [unaddressed r h.routed.length])⟩) } effect) := by
  set node : NameNode := ⟨0, some ((h.node key).queue.getD [] ++
    [unaddressed r h.routed.length])⟩ with hnode
  set h' := Harbor.emit { h.receive r with map := h.map.put key (some node) } effect with hh'
  have hnodes : ∀ key', h'.node key' = if key' = key then node else h.node key' :=
    fun key' => node_put (h.receive r) key key' node
  have hheld : ∀ key', heldFor h' key' =
      if key' = key then heldFor h key ++ [h.routed.length] else heldFor h key' := by
    intro key'
    rw [heldFor, hnodes]
    split
    · simp [hnode, heldFor, unaddressed]
    · rfl
  have hrouted : h'.routed = h.routed ++ [r] := rfl
  have hnone : h.given.get h.routed.length = none := hr.known _ (le_refl _)
  constructor
  · have hg : Gives h h' [] 0 := by
      refine ⟨rfl, rfl, ⟨[r], rfl⟩, ?_, by simp [hh', Harbor.emit, Harbor.receive], by simp,
        List.Pairwise.nil, by simp⟩
      intro r' hr'
      rcases mem_append.mp hr' with hr' | hr'
      · exact hr.sendable r' hr'
      · exact mem_singleton.mp hr' ▸ hsendable
    refine hg.sent hr.toWays rfl rfl [effect] rfl ?_ ?_ (by simp)
    · simp [heffect]
    · intro effect' heffect' n hn
      rw [mem_singleton.mp heffect', heffect] at hn
      cases hn
  · constructor
    · intro key' m hm
      have hold : ∀ key'', m ∈ (h.node key'').queue.getD [] → ∃ r', h'.routed[m.number]? = some r' ∧
          r'.name = some key'' ∧ h'.given.get m.number = none ∧ m = unaddressed r' m.number := by
        intro key'' hm
        obtain ⟨r', hget, hrest⟩ := hr.held key'' m hm
        obtain ⟨hlt, -⟩ := List.getElem?_eq_some_iff.mp hget
        exact ⟨r', by rw [hrouted, getElem?_append_left hlt, hget], hrest⟩
      rw [hnodes] at hm
      split at hm
      · next heq =>
        rcases mem_append.mp hm with hm | hm
        · exact heq ▸ hold key hm
        · rw [mem_singleton.mp hm]
          exact ⟨r, by simp [hrouted, unaddressed], heq ▸ hname, hnone, rfl⟩
      · exact hold key' hm
    · intro key' hqueue
      rw [hnodes] at hqueue ⊢
      split
      · rfl
      · next hne => exact hr.unbound key' (by simpa [hne] using hqueue)
    · intro key'
      rw [hheld]
      split
      · refine pairwise_append.mpr ⟨hr.heldOrder key, pairwise_singleton _ _, ?_⟩
        intro a ha b hb
        rw [mem_singleton.mp hb]
        obtain ⟨m, hm, rfl⟩ := List.mem_map.mp ha
        obtain ⟨r', hget, -⟩ := hr.held key m hm
        exact (List.getElem?_eq_some_iff.mp hget).1
      · exact hr.heldOrder key'
    · intro n r' hget hgiven
      by_cases hnew : n = h.routed.length
      · have hr' : r' = r := by simpa [hnew, hrouted] using hget.symm
        exact ⟨key, hr' ▸ hname, by simp [hheld, hnew]⟩
      · have hget' : h.routed[n]? = some r' := by
          grind
        obtain ⟨key', hname', hmem⟩ := hr.notGiven n r' hget' hgiven
        refine ⟨key', hname', ?_⟩
        rw [hheld]
        split
        · next heq => exact mem_append_left _ (heq ▸ hmem)
        · exact hmem
    · intro n r' key' handle hget hname' hgiven
      have hgiven' : h.given.get n = some handle := hgiven
      have hlt : n < h.routed.length := by
        by_contra hge
        simp [hr.known n (not_lt.mp hge)] at hgiven'
      rw [hrouted, getElem?_append_left hlt] at hget
      exact hr.bound n r' key' handle hget hname' hgiven'
    · intro key' hvalue
      rw [hnodes] at hvalue ⊢
      split
      · next heq => simp [heq, hnode] at hvalue
      · next hne => exact hr.value key' (by simpa [hne] using hvalue)
    · intro key' handle hmem
      have hvalue := hr.binding key' handle hmem
      rw [hnodes]
      split
      · next heq => exact absurd (heq ▸ hzero) hvalue
      · exact hvalue

theorem Routing.remoteSendName (hr : Routing h) (source : ℕ) (name : Bytes) (type : UInt8)
    (session : ℕ) {msg : Bytes} (hsendable : Sendable msg) :
    Routing ((h.receive ⟨some (nameKey name), source, type, session, msg⟩).remoteSendName
      h.routed.length source name type session msg) := by
  unfold Harbor.remoteSendName
  dsimp only
  split
  · next hzero => exact hr.hold rfl hsendable hzero _ rfl
  · next hvalue =>
    refine hr.remoteSendHandle (r := ⟨some (nameKey name), source, type, session, msg⟩)
      ⟨rfl, rfl, rfl, rfl, rfl, rfl, rfl, rfl, fun key => ?_⟩ hsendable fun key hkey => ?_
    · refine (node_put (h.receive _) (nameKey name) key _).trans ?_
      split
      · next heq => exact heq ▸ rfl
      · rfl
    · rw [← some.inj hkey]
      exact hr.value _ hvalue

/-! ## A name is bound -/

structure Binds (h h' : Harbor) (key : NameKey) (handle : ℕ) : Prop where
  id : h'.id = h.id
  slave : h'.slave = h.slave
  routed : h'.routed = h.routed
  bindings : h'.bindings = h.bindings ++ [(key, handle)]
  node : ∀ key', h'.node key' = if key' = key then ⟨handle, none⟩ else h.node key'
  given : ∀ n, h'.given.get n =
    if n ∈ heldFor h key then some handle else h.given.get n

namespace Binds

variable {key : NameKey} {handle : ℕ}

theorem held (hr : Routing h) {n : ℕ} (hn : n ∈ heldFor h key) :
    nameOf h n = some key ∧ h.given.get n = none ∧ n < h.routed.length := by
  obtain ⟨m, hm, rfl⟩ := List.mem_map.mp hn
  obtain ⟨r, hget, hname, hnone, -⟩ := hr.held key m hm
  exact ⟨by simp [nameOf, hget, hname], hnone, (List.getElem?_eq_some_iff.mp hget).1⟩

theorem unbound (hr : Routing h) {n c : ℕ} (hn : n ∈ heldFor h key)
    (hc : h.given.get c ≠ none) : nameOf h c ≠ some key := by
  intro hname
  obtain ⟨handle', hgiven⟩ := ne_none_iff_exists'.mp hc
  obtain ⟨r, hget, hr'⟩ := bind_eq_some_iff.mp hname
  refine hr.binding key handle' (hr.bound c r key handle' hget hr' hgiven) ?_
  refine hr.unbound key fun hqueue => ?_
  simp [heldFor, hqueue] at hn

theorem gives (hb : Binds h h' key handle) (hr : Routing h) :
    Gives h h' (heldFor h key) handle where
  id := hb.id
  slave := hb.slave
  routed := ⟨[], by simp [hb.routed]⟩
  sendable := hb.routed ▸ hr.sendable
  given := hb.given
  fresh n hn := by
    obtain ⟨-, hnone, hlt⟩ := held hr hn
    exact ⟨hnone, hb.routed ▸ hlt⟩
  sorted := hr.heldOrder key
  last n hn c hc _ hsame := by
    have hnames : nameOf h' = nameOf h := by
      unfold nameOf
      rw [hb.routed]
    rw [hnames, (held hr hn).1] at hsame
    exact absurd hsame (unbound hr hn hc)

theorem ahead (hb : Binds h h' key handle) (hr : Routing h) {i : ℕ} :
    ∀ n ∈ heldFor h key, ∀ c ∈ waitingFor h i, nameOf h' n ≠ none → nameOf h' n ≠ nameOf h' c := by
  intro n hn c hc _ hsame
  have hnames : nameOf h' = nameOf h := by
    unfold nameOf
    rw [hb.routed]
  obtain ⟨handle', hgiven⟩ := hr.given_of_mem (i := i) (mem_append_right _ hc)
  rw [hnames, (held hr hn).1] at hsame
  exact unbound hr hn (by simp [hgiven]) hsame.symm

theorem names (hb : Binds h h' key handle) (hr : Routing h) (hhandle : handle ≠ 0) : Names h' := by
  constructor
  · intro key' m hm
    rw [hb.node] at hm
    split at hm
    · simp at hm
    · next hne =>
      obtain ⟨r, hget, hname, hnone, heq⟩ := hr.held key' m hm
      refine ⟨r, hb.routed ▸ hget, hname, ?_, heq⟩
      rw [hb.given, if_neg, hnone]
      intro hmem
      have hkey := (held hr hmem).1
      simp only [nameOf, hget, bind_some, hname, some.injEq] at hkey
      exact hne hkey
  · intro key' hqueue
    rw [hb.node] at hqueue ⊢
    split
    · next heq => simp [heq] at hqueue
    · next hne => exact hr.unbound key' (by simpa [hne] using hqueue)
  · intro key'
    rw [heldFor, hb.node]
    split
    · exact List.Pairwise.nil
    · exact hr.heldOrder key'
  · intro n r hget hnone
    rw [hb.given] at hnone
    split at hnone
    · nomatch hnone
    · next hmem =>
      obtain ⟨key', hname, hheld⟩ := hr.notGiven n r (hb.routed ▸ hget) hnone
      refine ⟨key', hname, ?_⟩
      have hne : key' ≠ key := fun heq => hmem (heq ▸ hheld)
      rw [heldFor, hb.node, if_neg hne]
      exact hheld
  · intro n r key' handle' hget hname hgiven
    rw [hb.bindings]
    rw [hb.given] at hgiven
    split at hgiven
    · next hmem =>
      have hkey := (held hr hmem).1
      simp only [nameOf, ← hb.routed, hget, bind_some, hname, some.injEq] at hkey
      simp [hkey, some.inj hgiven]
    · exact mem_append_left _ (hr.bound n r key' handle' (hb.routed ▸ hget) hname hgiven)
  · intro key' hvalue
    rw [hb.node] at hvalue ⊢
    rw [hb.bindings]
    split
    · next heq => simp [heq]
    · next hne => exact mem_append_left _ (hr.value key' (by simpa [hne] using hvalue))
  · intro key' handle' hmem
    rw [hb.node]
    split
    · exact hhandle
    · next hne =>
      rw [hb.bindings] at hmem
      refine hr.binding key' handle' ?_
      simpa [hne] using hmem

end Binds

theorem harborOf_shiftLeft (type : UInt8) : UInt8.ofNat (harborOf (type.toNat <<< 24)) = type := by
  simp [harborOf]

theorem setSlave_empty (h : Harbor) (id : ℕ) (hempty : (h.s id).queue = none) :
    h.setSlave id { h.s id with queue := none } = h := by
  unfold Harbor.setSlave
  rw [← hempty]
  cases h with
  | mk =>
    congr 1
    funext i
    split
    · next hi => rw [hi]
    · rfl

/-- A name is bound to a handle of this harbor, or of one that there is a socket to: its
queue is sent. -/
theorem Routing.updateName (hr : Routing h) {name : Bytes}
    (hhandle : handle ≠ 0) (hready : (h.node (nameKey name)).queue = none ∨
      harborOf handle = h.id ∨ (h.s (harborOf handle)).fd ≠ 0) :
    Routing (h.updateName name handle) := by
  set key := nameKey name with hkey
  set bound : Harbor := { h with
    map := h.map.put key (some ⟨handle, none⟩)
    bindings := h.bindings ++ [(key, handle)] } with hbound
  have hnode : ∀ key', bound.node key' = if key' = key then ⟨handle, none⟩ else h.node key' :=
    fun key' => node_put h key key' ⟨handle, none⟩
  cases hq : (h.node key).queue with
  | none =>
    have heq : h.updateName name handle = bound := by
      unfold Harbor.updateName
      simp only [← hkey, hq]
      rfl
    have hempty : heldFor h key = [] := by simp [heldFor, hq]
    have hb : Binds h bound key handle :=
      ⟨rfl, rfl, rfl, rfl, hnode, fun n => by simp [hempty, hbound]⟩
    rw [heq]
    refine ⟨(hb.gives hr).sent hr.toWays rfl rfl [] (by simp [hbound]) ?_ nofun
      (hb.ahead hr), hb.names hr hhandle⟩
    simp [hempty]
  | some queue =>
    obtain ⟨given, hgive, hget⟩ := foldl_give queue handle bound
    have hheld : heldFor h key = queue.map (·.number) := by simp [heldFor, hq]
    have hmsgs : ∀ m ∈ queue, ∃ r, h.routed[m.number]? = some r ∧ m = unaddressed r m.number := by
      intro m hm
      obtain ⟨r, hrouted, -, -, heq⟩ := hr.held key m (by simpa [hq] using hm)
      exact ⟨r, hrouted, heq⟩
    -- the queue is sent on the socket, or locally
    have hpass : ∀ effect : HarborMsg → HarborEffect,
        (∀ m ∈ queue, (effect m).number = some m.number) →
        (∀ m ∈ queue, ∀ r, m = unaddressed r m.number → Delivers h r m.number handle (effect m)) →
        Routing { bound with given := given, out := h.out ++ queue.map effect } := by
      intro effect hnumber hdelivers
      set h' : Harbor := { bound with given := given, out := h.out ++ queue.map effect } with hh'
      have hb : Binds h h' key handle := ⟨rfl, rfl, rfl, rfl, hnode, fun n => by
        rw [hheld]
        exact hget n⟩
      refine ⟨(hb.gives hr).sent hr.toWays rfl rfl _ rfl ?_ ?_ (hb.ahead hr), hb.names hr hhandle⟩
      · rw [hheld, filterMap_map, ← filterMap_eq_map]
        exact filterMap_congr hnumber
      · intro e he n hn
        obtain ⟨m, hm, rfl⟩ := List.mem_map.mp he
        obtain ⟨r, hrouted, heq⟩ := hmsgs m hm
        have hmn : m.number = n := some.inj ((hnumber m hm).symm.trans hn)
        exact ⟨r, hmn ▸ hrouted, hmn ▸ hdelivers m hm r heq⟩
    have heq : h.updateName name handle = bound.dispatchNameQueue handle queue := by
      unfold Harbor.updateName
      simp only [← hkey, hq]
      rfl
    rw [heq]
    unfold Harbor.dispatchNameQueue
    rw [hgive]
    dsimp only
    split
    · next hfd =>
      have hown : harborOf handle = h.id := by
        obtain hnone | hown | hconnected := hready
        · simp [hq] at hnone
        · exact hown
        · exact absurd hfd hconnected
      have hwait : (h.s (harborOf handle)).status = .wait := (hr.links.slave _).unconnected hfd
      have hempty : (h.s (harborOf handle)).queue = none := hown ▸ hr.own
      have hlocal : harborOf handle = harborOf h.slave := hown.trans hr.slave.symm
      have hnotDown : (h.s (harborOf handle)).status ≠ .down := by simp [hwait]
      have hpassed := hpass (fun m => .send (some m.number) m.header.source handle
        (.ofNat (harborOf m.header.destination)) m.header.session m.buffer) (fun _ _ => rfl)
        fun m _ r heq => by
          rw [heq]
          exact ⟨rfl, hown, rfl, rfl, harborOf_shiftLeft r.type, rfl, rfl⟩
      rw [if_neg hnotDown, if_pos hlocal, sendLocal_eq, hempty]
      exact (congrArg Routing (setSlave_empty _ (harborOf handle) (by exact hempty))).mpr hpassed
    · next hfd =>
      have hsendable : ∀ m ∈ queue.map (complete handle), Sendable m.buffer := by
        intro m hm
        obtain ⟨m', hm', rfl⟩ := List.mem_map.mp hm
        obtain ⟨r, hrouted, heq⟩ := hmsgs m' hm'
        rw [heq]
        exact hr.sendable r (mem_of_getElem? hrouted)
      rw [sendAll_eq hsendable, List.map_map]
      refine hpass _ (fun _ _ => rfl) fun m _ r heq => ?_
      rw [heq]
      exact ⟨rfl, hfd, rfl, rfl⟩

/-! ## Runs -/

theorem Routing.commandName (hr : Routing h) {name : Bytes} {source : ℕ} (hsource : source ≠ 0)
    (hready : ConnectedFirst h (.name name source)) : Routing (h.commandName name source) := by
  unfold Harbor.commandName
  split
  · exact hr
  · exact hr.updateName hsource hready

theorem Routing.commandConnect (hr : Routing h) (accept : Bool) (fd id : ℤ) :
    Routing (h.commandConnect accept fd id) := by
  have hl := hr.links.commandConnect accept fd id
  unfold Harbor.commandConnect at hl ⊢
  split
  · exact hr
  · next hvalid =>
    have hfd : fd ≠ 0 := fun hfd => hvalid (.inl hfd)
    rw [if_neg hvalid] at hl
    dsimp only at hl ⊢
    split
    · exact hr
    · next hfree =>
      rw [if_neg hfree] at hl
      rw [not_not] at hfree
      have hwait := (hr.links.slave id.toNat).unconnected hfree
      have hq : Quiet h ((h.emit (.start fd)).emit (.write none fd [.ofNat h.id])) :=
        (Quiet.emit h rfl).trans (Quiet.emit _ rfl)
      have hstarted := hr.quiet hq (hr.links.same ((SameLinks.emit _ _).trans (SameLinks.emit _ _)))
      split
      · exact hstarted.dispatchQueue hfd (fun hne => absurd hfree hne) rfl rfl (by simp [Harbor.emit, hwait])
      · next haccept =>
        rw [if_neg haccept] at hl
        refine hstarted.quiet (Quiet.setSlave (.inl rfl) (fun hne => absurd hfree hne) ?_) hl
        intro hdown
        simp [Harbor.emit, hwait] at hdown

theorem Routing.pushSocketData (hr : Routing h) {alive : ℕ → Bool} {fd : ℤ} {bytes : Bytes}
    (hbytes : bytes ≠ []) (hstep : h.pushSocketData alive fd bytes = some h') : Routing h' := by
  have hl := hr.links.pushSocketData hbytes hstep
  unfold Harbor.pushSocketData at hstep
  dsimp only at hstep
  split at hstep
  · exact some.inj hstep ▸ hr
  · generalize hid : h.harborId fd = id at hstep
    by_cases hstatus : (h.s id).status = .handshake
    · have hfd : (h.s id).fd ≠ 0 := fun hfd => by
        simp [(hr.links.slave id).unconnected hfd] at hstatus
      match bytes, hbytes with
      | remoteId :: tail, _ =>
        by_cases hgood : remoteId.toNat = id
        · have hup : Routing ((h.setSlave id { h.s id with status := .header }).dispatchQueue id) :=
            hr.dispatchQueue hfd (fun _ => rfl) rfl rfl (by simp [hstatus])
          exact hup.quiet (Quiet.readLoop_handshake hr.links hfd hstatus hgood hstep) hl
        · refine hr.quiet ?_ hl
          simp only [Harbor.readLoop, Harbor.readRound, hstatus, Harbor.readHandshake, ne_eq, hgood,
            not_false_eq_true, if_true, some.injEq] at hstep
          exact hstep ▸ Quiet.closeHarbor h id
    · by_cases hwait : (h.s id).status = .wait
      · simp only [Harbor.readLoop, Harbor.readRound, hwait, some.injEq] at hstep
        exact hstep ▸ hr
      · have hfd : (h.s id).fd ≠ 0 := fun hfd => hwait ((hr.links.slave id).unconnected hfd)
        exact hr.quiet (Quiet.readLoop ⟨hr.links, hfd, ⟨hwait, hstatus⟩, rfl⟩ hstep) hl

theorem Routing.mainloop (hr : Routing h) (hok : ConnectedFirst h e)
    (hstep : h.mainloop e = some h') : Routing h' := by
  cases e with
  | sendHandle source destination type session msg =>
    simp only [Harbor.mainloop] at hstep
    split at hstep
    · cases hstep
    · rw [← some.inj hstep]
      exact hr.remoteSendHandle (arrives_receive h ⟨none, source, type, session, msg⟩) hok
        (by rintro _ ⟨⟩)
  | sendName source name type session msg =>
    rw [← some.inj hstep]
    exact hr.remoteSendName source name type session hok
  | name name source =>
    simp only [Harbor.mainloop] at hstep
    split at hstep
    · cases hstep
    · next hsource => exact some.inj hstep ▸ hr.commandName hsource hok
  | connect accept fd id => exact some.inj hstep ▸ hr.commandConnect accept fd id
  | data alive fd bytes =>
    simp only [Harbor.mainloop] at hstep
    split at hstep
    · cases hstep
    · next hbytes => exact hr.pushSocketData hbytes hstep
  | closed fd =>
    rw [← some.inj hstep]
    exact hr.quiet (Quiet.socketClosed h fd) (hr.links.socketClosed fd)

/-- **Messages to names.** In every run in which a name with messages in its queue is bound
only to a handle of this harbor or of one that there is a socket to, and no message is too
large for the length in front of its frame, the messages are delivered.
SRC: service_harbor.c:350-506, 508-584 -/
theorem names_delivered (hreach : (harborMachine id).Reach ConnectedFirst h) : Delivered h := by
  have hr : Routing h := by
    refine hreach.invariant (fun h hstart => ?_) fun h e h' hr hok hnext => hr.mainloop hok hnext
    obtain ⟨slave, hslave, rfl⟩ := hstart
    exact Routing.init hslave
  exact hr.delivered

def nameA : Bytes := [97]

/-- Two messages for a name wait for it and for the handshake, and a third one is sent to a
local handle. -/
def bindConnected : List HarborEvent :=
  [.sendName 0x1000010 (padName nameA) 10 1 [1], .connect false 5 2, .name nameA 0x2000007,
    .sendName 0x1000010 (padName nameA) 10 2 [2], .data (fun _ => true) 5 [2],
    .sendHandle 0x1000010 0x1000003 10 3 [3]]

theorem names_delivered_connected : ∃ h,
    (harborMachine 1).runOk ConnectedFirst (.init 1 0x1000001) bindConnected = some h ∧
      sentNumbers h = [0, 1, 2] ∧ Delivered h := by
  have hrun : ((harborMachine 1).runOk ConnectedFirst (.init 1 0x1000001) bindConnected).map
      sentNumbers = some [0, 1, 2] := rfl
  obtain ⟨h, hh, hsent⟩ := map_eq_some_iff.mp hrun
  have hstart : (harborMachine 1).start (.init 1 0x1000001) := ⟨0x1000001, rfl, rfl⟩
  exact ⟨h, hh, hsent, names_delivered (Machine.Reach.runOk (.start hstart) hh)⟩

def bindFirst : List HarborEvent :=
  [.sendName 0x1000010 (padName nameA) 10 1 [1], .name nameA 0x2000007, .connect true 5 2]

/-- **A message for nobody.** The message goes to the other harbor with its type and with
no handle.
SRC: service_harbor.c:358-373, 388-389, 405-408 -/
theorem sent_to_nobody : ∃ h, (harborMachine 1).Reachable h ∧
    .write (some 0) 5 (frame ⟨0x1000010, 10 <<< 24, 1⟩ [1]) ∈ h.out ∧ ¬Delivered h := by
  have hrun : ((harborMachine 1).run (.init 1 0x1000001) bindFirst).map
      (fun h => (h.out, h.routed, h.given.get 0)) =
      some ([.send none 0 0x1000001 harborPtypeText 0 (text "Q a".toList), .start 5, .write none 5 [1],
        .write (some 0) 5 (frame ⟨0x1000010, 10 <<< 24, 1⟩ [1])],
        [⟨some (nameKey (padName nameA)), 0x1000010, 10, 1, [1]⟩], some 0x2000007) := rfl
  obtain ⟨h, hh, hrecords⟩ := map_eq_some_iff.mp hrun
  simp only [Prod.mk.injEq] at hrecords
  obtain ⟨hout, hrouted, hgiven⟩ := hrecords
  have hmem : .write (some 0) 5 (frame ⟨0x1000010, 10 <<< 24, 1⟩ [1]) ∈ h.out := by
    simp [hout]
  have hstart : (harborMachine 1).start (.init 1 0x1000001) := ⟨0x1000001, rfl, rfl⟩
  refine ⟨h, Machine.Reachable.run (.start hstart) hh, hmem, fun hd => ?_⟩
  obtain ⟨r, handle, hr, hhandle, -, -, -, hframe⟩ := hd.exact _ hmem 0 rfl
  have hr' : r = ⟨some (nameKey (padName nameA)), 0x1000010, 10, 1, [1]⟩ := by
    simpa [hrouted] using hr.symm
  have hhandle' : handle = 0x2000007 := by simpa [hgiven] using hhandle.symm
  subst hr' hhandle'
  revert hframe
  decide

end Skynet.Analysis
