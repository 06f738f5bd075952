import Skynet.Analysis.HarborFrames
import Skynet.Library.Frames

/-!
# Streams between harbors

In every state that the harbor service reaches its slaves are in the states of a reader of
frames, so what `HarborFrames` says of one message holds of every stream and every cut, and
what `send_remote` writes on one side can be followed through `push_socket_data` on the
other.
-/

namespace Skynet.Analysis

open Library Model Harbor List Nat

variable {h h' : Harbor} {id : ℕ} {alive : ℕ → Bool} {e : HarborEvent} {fd : ℤ}

/-! ## The slaves in every run -/

def Readings (h : Harbor) : Prop := ∀ i, SlaveReading (h.s i)

theorem SlaveReading.congr {s s' : Slave} (hs : SlaveReading s) (hstatus : s'.status = s.status)
    (hlength : s'.length = s.length) (hsize : s'.size = s.size)
    (hrecv : s'.recvBuffer = s.recvBuffer) : SlaveReading s' where
  before := by
    rw [hstatus, hsize, hrecv]
    exact hs.before
  header := by
    rw [hstatus, hsize, hrecv]
    exact hs.header
  content := by
    rw [hstatus, hlength, hsize, hrecv]
    exact hs.content

namespace Readings

theorem init (id slave : ℕ) : Readings (.init id slave) :=
  fun _ => ⟨fun _ => ⟨rfl, rfl⟩, nofun, nofun⟩

section

variable (hr : Readings h)
include hr

theorem same (hs : h'.s = h.s) : Readings h' := by
  intro i
  rw [hs]
  exact hr i

theorem setSlave {s : Slave} (hs : SlaveReading s) :
    Readings (h.setSlave id s) := by
  intro i
  by_cases hi : i = id
  · rw [hi, setSlave_self]
    exact hs
  · rw [setSlave_other hi]
    exact hr i

theorem setQueue (queue : Option (List HarborMsg)) :
    Readings (h.setSlave id { h.s id with queue := queue }) :=
  hr.setSlave ((hr id).congr rfl rfl rfl rfl)

theorem dispatchQueue (id : ℕ) : Readings (h.dispatchQueue id) := by
  intro i
  rw [(SameLinks.dispatchQueue h id).s]
  exact hr.setQueue none i

theorem remoteSendHandle (number source destination : ℕ) (type : UInt8)
    (session : ℕ) (msg : Bytes) :
    Readings (h.remoteSendHandle number source destination type session msg) := by
  unfold Harbor.remoteSendHandle
  dsimp only
  split
  · exact hr.same rfl
  · split
    · split
      · exact hr.same rfl
      · exact Readings.setQueue (h := h.give number destination) (hr.same rfl) _
    · exact hr.same (SameLinks.sendRemote (h.give number destination) _ _).s

theorem remoteSendName (number source : ℕ) (name : Bytes) (type : UInt8)
    (session : ℕ) (msg : Bytes) :
    Readings (h.remoteSendName number source name type session msg) := by
  unfold Harbor.remoteSendName
  dsimp only
  split
  · exact hr.same rfl
  · apply Readings.remoteSendHandle
    exact hr.same rfl

theorem dispatchNameQueue (handle : ℕ) (queue : List HarborMsg) :
    Readings (h.dispatchNameQueue handle queue) := by
  have hgive := SameLinks.foldl (f := fun h m => h.give m.number handle)
    (fun h m => SameLinks.give h m.number handle) queue h
  have hgiven : Readings (queue.foldl (fun h m => h.give m.number handle) h) := hr.same hgive.s
  unfold Harbor.dispatchNameQueue
  dsimp only
  split
  · split
    · exact hgiven
    · split
      · have hsent := hgiven.same (SameLinks.sendLocal _ handle
          ((((queue.foldl (fun h m => h.give m.number handle) h).s (harborOf handle)).queue.getD
            []) ++ queue)).s
        exact hsent.setSlave ((hgiven (harborOf handle)).congr rfl rfl rfl rfl)
      · exact hgiven.setQueue _
  · exact hgiven.same (SameLinks.sendAll _ _ _).s

theorem commandName (name : Bytes) (source : ℕ) :
    Readings (h.commandName name source) := by
  unfold Harbor.commandName Harbor.updateName
  split
  · exact hr
  · dsimp only
    split
    · exact hr.same rfl
    · apply Readings.dispatchNameQueue
      exact hr.same rfl

/-- A slave without a socket has read nothing, so a connection starts with nothing read. -/
theorem commandConnect (hl : Linked h) (accept : Bool) (fd id : ℤ) :
    Readings (h.commandConnect accept fd id) := by
  unfold Harbor.commandConnect
  split
  · exact hr
  · dsimp only
    split
    · exact hr
    · next hunconnected =>
      have hwait := (hl.slave id.toNat).unconnected (not_not.mp hunconnected)
      obtain ⟨hsize, hrecv⟩ := (hr id.toNat).before (.inl hwait)
      have hstarted : Readings ((h.emit (.start fd)).emit (.write none fd [.ofNat h.id])) :=
        hr.same rfl
      split
      · refine (hstarted.setSlave ?_).dispatchQueue _
        exact ⟨by simp, fun _ => ⟨by simp [hsize], hrecv⟩, nofun⟩
      · exact hstarted.setSlave ⟨fun _ => ⟨hsize, hrecv⟩, nofun, nofun⟩

theorem pushSocketData {bytes : Bytes}
    (hstep : h.pushSocketData alive fd bytes = some h') : Readings h' := by
  unfold Harbor.pushSocketData at hstep
  dsimp only at hstep
  split at hstep
  · exact Option.some.inj hstep ▸ hr
  · obtain ⟨hreading, -, hothers⟩ := hear_ok (hr _) hstep
    intro i
    by_cases hi : i = h.harborId fd
    · exact hi ▸ hreading
    · rw [hothers i hi]
      exact hr i

theorem socketClosed (fd : ℤ) : Readings (h.socketClosed fd) := by
  have hgone : ∀ (gone : List ℕ) (h : Harbor), (gone.foldl goDown h).s = h.s := by
    intro gone
    induction gone with
    | nil => exact fun _ => rfl
    | cons i gone ih => exact fun h => (ih (h.goDown i)).trans (goDown_s h i)
  unfold Harbor.socketClosed
  dsimp only
  split
  · exact hr.same (hgone _ h)
  · exact hr.same (hgone _ h)

theorem mainloop (hl : Linked h) (hstep : h.mainloop e = some h') :
    Readings h' := by
  cases e with
  | sendHandle source destination type session msg =>
    simp only [Harbor.mainloop] at hstep
    split at hstep
    · cases hstep
    · rw [← Option.some.inj hstep]
      apply Readings.remoteSendHandle
      exact hr.same rfl
  | sendName source name type session msg =>
    rw [← Option.some.inj hstep]
    apply Readings.remoteSendName
    exact hr.same rfl
  | name name source =>
    simp only [Harbor.mainloop] at hstep
    split at hstep
    · cases hstep
    · exact Option.some.inj hstep ▸ hr.commandName name source
  | connect accept fd id => exact Option.some.inj hstep ▸ hr.commandConnect hl accept fd id
  | data alive fd bytes =>
    simp only [Harbor.mainloop] at hstep
    split at hstep
    · cases hstep
    · exact hr.pushSocketData hstep
  | closed fd => exact Option.some.inj hstep ▸ hr.socketClosed fd

end

end Readings

theorem readings_reachable (hreach : (harborMachine id).Reachable h) : Readings h := by
  have hboth : Linked h ∧ Readings h := by
    refine Machine.Reach.invariant (I := fun h => Linked h ∧ Readings h) ?_ ?_ hreach
    · rintro h ⟨slave, -, rfl⟩
      exact ⟨Linked.init id slave, Readings.init id slave⟩
    · intro h e h' hinv _ hstep
      exact ⟨hinv.1.mainloop hstep, hinv.2.mainloop hinv.1 hstep⟩
  exact hboth.2

/-! ## Cuts -/

def pushAll (h : Harbor) (alive : ℕ → Bool) (fd : ℤ) (messages : List Bytes) : Option Harbor :=
  messages.foldlM (fun h bytes => h.pushSocketData alive fd bytes) h

theorem harborId_congr (hfd : ∀ i, (h'.s i).fd = (h.s i).fd) : h'.harborId fd = h.harborId fd := by
  simp only [harborId, hfd]

theorem pushSocketData_eq_hear (hid : h.harborId fd = id) (hne : id ≠ 0) (bytes : Bytes) :
    h.pushSocketData alive fd bytes = hear h id alive bytes := by
  rw [pushSocketData, hid]
  exact if_neg hne

variable {bytes : Bytes}

theorem hear_harborId (hr : Readings h)
    (hhear : hear h id alive bytes = some h') : h'.harborId fd = h.harborId fd := by
  obtain ⟨-, hfd, hothers⟩ := hear_ok (hr id) hhear
  refine harborId_congr fun i => ?_
  by_cases hi : i = id
  · rw [hi, hfd]
  · rw [hothers i hi]

theorem Readings.hear (hr : Readings h)
    (hhear : hear h id alive bytes = some h') : Readings h' := by
  obtain ⟨hreading, -, hothers⟩ := hear_ok (hr id) hhear
  intro i
  by_cases hi : i = id
  · exact hi ▸ hreading
  · rw [hothers i hi]
    exact hr i

theorem pushAll_hear (alive : ℕ → Bool) (hr : Readings h) (hid : h.harborId fd = id) (hne : id ≠ 0)
    {messages : List Bytes} (hmessages : ∀ m ∈ bytes :: messages, m ≠ []) :
    (pushAll h alive fd (bytes :: messages)).map (settle id) =
      (hear h id alive (bytes :: messages).flatten).map (settle id) := by
  induction messages generalizing h bytes with
  | nil =>
    rw [flatten_singleton, pushAll, foldlM_cons, pushSocketData_eq_hear hid hne]
    cases hear h id alive bytes <;> rfl
  | cons next messages ih =>
    have hnext : ∀ m ∈ next :: messages, m ≠ [] :=
      fun m hm => hmessages m (mem_cons_of_mem bytes hm)
    have hrest : (next :: messages).flatten ≠ [] := by
      exact append_ne_nil_of_left_ne_nil (hnext next mem_cons_self) _
    calc (pushAll h alive fd (bytes :: next :: messages)).map (settle id)
        = ((hear h id alive bytes).bind fun h₁ => pushAll h₁ alive fd (next :: messages)).map
            (settle id) := by
          rw [pushAll, foldlM_cons, pushSocketData_eq_hear hid hne]
          rfl
      _ = ((hear h id alive bytes).bind fun h₁ =>
            hear h₁ id alive (next :: messages).flatten).map (settle id) := by
          cases hhear : hear h id alive bytes with
          | none => rfl
          | some h₁ => exact ih (hr.hear hhear) ((hear_harborId hr hhear).trans hid) hnext
      _ = (hear h id alive (bytes :: next :: messages).flatten).map (settle id) := by
          exact (hear_append (hr id) (hmessages bytes mem_cons_self) hrest).symm

def framesOf (h : Harbor) (fd : ℤ) (bytes : Bytes) : List Bytes :=
  if h.harborId fd = 0 then [] else heardFrames (h.harborId fd) (h.s (h.harborId fd)) bytes

/-- What a stream does however it is cut: what it does as a whole, with no read outside the
buffers exactly where no frame is too short. -/
theorem pushAll_cut (alive : ℕ → Bool) (fd : ℤ) (hr : Readings h)
    {messages : List Bytes} (hnil : messages ≠ []) (hmessages : ∀ m ∈ messages, m ≠ []) :
    (pushAll h alive fd messages).map Harbor.out =
        (h.pushSocketData alive fd messages.flatten).map Harbor.out ∧
      (pushAll h alive fd messages ≠ none ↔
        ∀ p ∈ framesOf h fd messages.flatten, 12 ≤ p.length) := by
  obtain ⟨bytes, messages, rfl⟩ := exists_cons_of_ne_nil hnil
  by_cases hid : h.harborId fd = 0
  · have hsilent : ∀ bytes, h.pushSocketData alive fd bytes = some h := by
      intro bytes
      exact if_pos hid
    have hall : ∀ messages, pushAll h alive fd messages = some h := by
      intro messages
      induction messages with
      | nil => rfl
      | cons m messages ih =>
        rw [pushAll, foldlM_cons, hsilent]
        exact ih
    rw [hall, hsilent, framesOf, if_pos hid]
    simp
  · have hcut := pushAll_hear alive hr rfl hid hmessages
    have hwhole : (bytes :: messages).flatten ≠ [] := by
      exact append_ne_nil_of_left_ne_nil (hmessages bytes mem_cons_self) _
    rw [framesOf, if_neg hid, pushSocketData_eq_hear rfl hid]
    constructor
    · have hout := congrArg (Option.map Harbor.out) hcut
      simpa only [Option.map_map, Function.comp_def, settle_out] using hout
    · have hnone : pushAll h alive fd (bytes :: messages) = none ↔
          hear h (h.harborId fd) alive (bytes :: messages).flatten = none := by
        rw [← Option.map_eq_none_iff (f := settle (h.harborId fd)), hcut, Option.map_eq_none_iff]
      rw [ne_eq, hnone, hear_eq_none_iff (hr _) hwhole]
      push Not
      rfl

/-! ## What `send_remote` writes -/

structure RemoteMsg where
  source : ℕ
  destination : ℕ
  type : UInt8
  session : ℕ
  body : Bytes
  number : ℕ

namespace RemoteMsg

variable {m : RemoteMsg}

/-- What `remote_send_handle` gives to `send_remote`.
SRC: service_harbor.c:549-555 -/
def msg (m : RemoteMsg) : HarborMsg :=
  ⟨⟨m.source, (m.type.toNat <<< 24) ||| (m.destination &&& handleMask), m.session⟩, m.body,
    m.number⟩

structure For (m : RemoteMsg) (id : ℕ) : Prop where
  source : m.source < 2 ^ 32
  destination : m.destination < 2 ^ 32
  session : m.session < 2 ^ 32
  harbor : harborOf m.destination = id

/-- The message as it is to arrive; its source hears of a handle that is gone, unless the
message is an error itself. -/
def delivered (alive : ℕ → Bool) (m : RemoteMsg) : List HarborEffect :=
  .send none m.source m.destination m.type m.session m.body ::
    if alive m.destination ∨ m.type = harborPtypeError then []
    else [.send none m.destination m.source harborPtypeError m.session []]

/-- What the service does with the message: a session that is negative as an `int` is reported
as if the handle were gone. -/
def answered (alive : ℕ → Bool) (m : RemoteMsg) : List HarborEffect :=
  .send none m.source m.destination m.type m.session m.body ::
    if (alive m.destination ∧ m.session < 2 ^ 31) ∨ m.type = harborPtypeError then []
    else [.send none m.destination m.source harborPtypeError m.session []]

/-- The source of a message that arrives hears of no error. -/
def NoFalseError (alive : ℕ → Bool) (m : RemoteMsg) : Prop :=
  alive m.destination → m.type ≠ harborPtypeError → m.session < 2 ^ 31

instance (alive : ℕ → Bool) (m : RemoteMsg) : Decidable (m.NoFalseError alive) :=
  inferInstanceAs (Decidable (_ → _ → _))

theorem delivered_or (alive : ℕ → Bool) (m : RemoteMsg) :
    m.delivered alive = m.answered alive ∧ m.NoFalseError alive ∨
      (m.delivered alive).length < (m.answered alive).length ∧ ¬m.NoFalseError alive := by
  unfold delivered answered NoFalseError
  by_cases herror : m.type = harborPtypeError
  · exact .inl (by simp [herror])
  · cases halive : alive m.destination with
    | false => exact .inl (by simp [herror])
    | true =>
      by_cases hsession : m.session < 2 ^ 31
      · refine .inl ⟨?_, fun _ _ => hsession⟩
        rw [if_pos (.inl rfl), if_pos (.inl ⟨rfl, hsession⟩)]
      · refine .inr ⟨?_, fun h => hsession (h rfl herror)⟩
        rw [if_pos (.inl rfl), if_neg fun h => h.elim (fun h => hsession h.2) herror]
        exact Nat.lt_add_one _

theorem delivered_eq_iff (alive : ℕ → Bool) (m : RemoteMsg) :
    m.delivered alive = m.answered alive ↔ m.NoFalseError alive := by
  obtain ⟨heq, hno⟩ | ⟨hlt, hfalse⟩ := m.delivered_or alive
  · exact iff_of_true heq hno
  · exact iff_of_false (fun heq => Nat.ne_of_lt hlt (congrArg List.length heq)) hfalse

def content (m : RemoteMsg) : Bytes :=
  m.body ++ (toBigendian m.msg.header.source ++ (toBigendian m.msg.header.destination ++
    toBigendian m.msg.header.session))

theorem content_length (m : RemoteMsg) : m.content.length = m.body.length + 12 := by
  simp only [content, length_append, toBigendian_length]

theorem frame_eq (m : RemoteMsg) :
    frame m.msg.header m.msg.buffer = toBigendian m.content.length ++ m.content := by
  rw [content_length, content, frame]
  simp only [append_assoc]
  rfl

/-- The destination in the header of a message: the handle without its harbor, and the
type. -/
theorem header_destination (m : RemoteMsg) :
    m.msg.header.destination = m.destination % 2 ^ 24 + m.type.toNat * 2 ^ 24 := by
  have hmask : m.destination &&& handleMask = m.destination % 2 ^ 24 :=
    and_two_pow_sub_one_eq_mod m.destination 24
  change m.type.toNat <<< 24 ||| (m.destination &&& handleMask) = _
  rw [hmask, Nat.or_comm, or_shiftLeft (mod_lt _ (by norm_num))]

theorem header_destination_lt (m : RemoteMsg) : m.msg.header.destination < 2 ^ 32 := by
  have htype := m.type.toNat_lt
  rw [header_destination]
  omega

theorem header_type (m : RemoteMsg) : UInt8.ofNat (harborOf m.msg.header.destination) = m.type := by
  have hshift : harborOf m.msg.header.destination = m.type.toNat := by
    rw [harborOf, header_destination, shiftRight_eq_div_pow]
    omega
  rw [hshift, UInt8.ofNat_toNat]

theorem rejoin (hfor : m.For id) :
    (m.msg.header.destination &&& handleMask) ||| (id <<< 24) = m.destination := by
  have hmask : m.msg.header.destination &&& handleMask = m.msg.header.destination % 2 ^ 24 :=
    and_two_pow_sub_one_eq_mod _ 24
  have hlow : m.destination % 2 ^ 24 < 2 ^ 24 := mod_lt _ (by norm_num)
  have hharbor : m.destination / 2 ^ 24 = id := by
    rw [← hfor.harbor, harborOf, shiftRight_eq_div_pow]
  rw [hmask, header_destination, add_mul_mod_two_pow (Nat.le_refl 24), mod_mod,
    or_shiftLeft hlow, ← hharbor]
  exact mod_add_div' m.destination (2 ^ 24)

theorem forwardLocalMessage_content (hfor : m.For h.id) :
    h.forwardLocalMessage alive m.content = some { h with out := h.out ++ m.answered alive } := by
  have hlen : ¬m.content.length < 12 := by
    rw [content_length]
    omega
  have hcut : m.content.length - 12 = m.body.length := by
    rw [content_length]
    omega
  have hbody : m.content.take m.body.length = m.body := take_left' rfl
  have hcookie : m.content.drop m.body.length = toBigendian m.msg.header.source ++
      (toBigendian m.msg.header.destination ++ toBigendian m.msg.header.session) :=
    drop_left' rfl
  have hsource : fromBigendian (toBigendian m.msg.header.source) = m.source :=
    fromBigendian_toBigendian hfor.source
  have hdestination : fromBigendian (toBigendian m.msg.header.destination) =
      m.msg.header.destination := fromBigendian_toBigendian m.header_destination_lt
  have hsession : fromBigendian (toBigendian m.msg.header.session) = m.session :=
    fromBigendian_toBigendian hfor.session
  have hfirst : ∀ a b c, (toBigendian a ++ (toBigendian b ++ toBigendian c)).take 4 =
      toBigendian a := fun _ _ _ => rfl
  have hsecond : ∀ a b c, ((toBigendian a ++ (toBigendian b ++ toBigendian c)).drop 4).take 4 =
      toBigendian b := fun _ _ _ => rfl
  have hthird : ∀ a b c, (toBigendian a ++ (toBigendian b ++ toBigendian c)).drop 8 =
      toBigendian c := fun _ _ _ => rfl
  unfold forwardLocalMessage
  rw [if_neg hlen]
  simp only [hcut, hbody, hcookie, hfirst, hsecond, hthird, hsource, hdestination, hsession,
    header_type, rejoin hfor]
  unfold answered
  split <;> simp [emit]

end RemoteMsg

def writtenTo (fd : ℤ) (out : List HarborEffect) : Bytes := out.flatMap fun
    | .write _ fd' bytes => if fd' = fd then bytes else []
    | _ => []

theorem writtenTo_sendAll {ms : List RemoteMsg} (hsend : ∀ m ∈ ms, Sendable m.body) (g : Harbor)
    (fd : ℤ) : writtenTo fd (newEffects g (g.sendAll fd (ms.map RemoteMsg.msg))) =
      ms.flatMap fun m => toBigendian m.content.length ++ m.content := by
  have hqueue : ∀ m ∈ ms.map RemoteMsg.msg, Sendable m.buffer := by
    intro m hm
    obtain ⟨m, hmem, rfl⟩ := mem_map.mp hm
    exact hsend m hmem
  rw [sendAll_eq hqueue, newEffects, drop_left, writtenTo, map_map, flatMap_map]
  congr 1
  funext m
  simp only [Function.comp_apply, if_true]
  exact m.frame_eq

/-! ## What the other side hears -/

def BetweenFrames (h : Harbor) (id : ℕ) : Prop := (h.s id).status = .header ∧ (h.s id).size = []

def passOn (h : Harbor) (id : ℕ) (alive : ℕ → Bool) (m : RemoteMsg) : Harbor :=
  { h with out := h.out ++ m.answered alive }.setSlave id (restingSlave (h.s id))

theorem hear_frame (hok : SlaveReading (h.s id)) (hbetween : BetweenFrames h id) {m : RemoteMsg}
    (hfor : m.For h.id) (hfits : m.content.length < 2 ^ 24) (t : Bytes) :
    hear h id alive (toBigendian m.content.length ++ m.content ++ t) =
      if t = [] then some (passOn h id alive m) else hear (passOn h id alive m) id alive t := by
  have hlen := m.content_length
  have hzero := (toBigendian_head (by omega : m.content.length < 2 ^ 32)).mpr hfits
  have htake : (toBigendian m.content.length ++ (m.content ++ t)).take 4 =
      toBigendian m.content.length := rfl
  have hdrop : (toBigendian m.content.length ++ (m.content ++ t)).drop 4 = m.content ++ t := rfl
  have hmore : m.content ++ t ≠ [] := by
    intro hnil
    have hnone := congrArg List.length hnil
    rw [length_append, length_nil] at hnone
    omega
  have hfilling : SlaveReading ((h.setSlave id
      (fillingSlave (h.s id) m.content.length)).s id) := by
    rw [setSlave_self]
    exact reading_filling _ hfits
  have hcontent : (m.content ++ t).take m.content.length = m.content := take_left' rfl
  have hrest : (m.content ++ t).drop m.content.length = t := drop_left' rfl
  have hends : (m.content ++ t).length = m.content.length ↔ t = [] := by
    rw [length_append, Nat.add_eq_left, length_eq_zero_iff]
  rw [append_assoc, hear_header hok hbetween.1, hbetween.2]
  simp only [length_nil, Nat.sub_zero, nil_append, htake, hdrop, hzero, ne_eq,
    not_true_eq_false, if_false, hmore]
  rw [if_neg (by rw [length_append, toBigendian_length]; omega),
    fromBigendian_toBigendian (by omega), hear_content hfilling (by rw [setSlave_self]; rfl),
    setSlave_self]
  simp only [fillingSlave, length_nil, Nat.sub_zero, nil_append, hcontent, hrest, hends]
  rw [if_neg (by rw [length_append]; omega), forwardLocalMessage_setSlave,
    RemoteMsg.forwardLocalMessage_content hfor, Option.map_some, Option.bind_some,
    setSlave_setSlave]
  rfl

theorem hear_wide (hok : SlaveReading (h.s id)) (hbetween : BetweenFrames h id) {m : RemoteMsg}
    (hsend : Sendable m.body) (hwide : ¬m.content.length < 2 ^ 24) (t : Bytes) :
    hear h id alive (toBigendian m.content.length ++ m.content ++ t) = some (h.closeHarbor id) := by
  have hlen := m.content_length
  have hword : m.content.length < 2 ^ 32 := by
    unfold Sendable at hsend
    omega
  have hzero : (toBigendian m.content.length).headD 0 ≠ 0 :=
    fun h0 => hwide ((toBigendian_head hword).mp h0)
  have htake : (toBigendian m.content.length ++ (m.content ++ t)).take 4 =
      toBigendian m.content.length := rfl
  rw [append_assoc, hear_header hok hbetween.1, hbetween.2]
  simp only [length_nil, Nat.sub_zero, nil_append, htake, hzero, ne_eq, not_false_eq_true, if_true]
  exact if_neg (by rw [length_append, toBigendian_length]; omega)

theorem closeHarbor_out (h : Harbor) (id : ℕ) :
    (h.closeHarbor id).out = h.out ∨ ∃ fd, (h.closeHarbor id).out = h.out ++ [.close fd] := by
  unfold closeHarbor
  dsimp only
  split
  · exact .inr ⟨((h.goDown id).s id).fd, by simp [setSlave, emit]⟩
  · exact .inl (by simp [setSlave])

/-- What a wide message would be passed on as. -/
def IsWide : HarborEffect → Prop
  | .send _ _ _ _ _ body => 2 ^ 24 ≤ body.length + 12
  | _ => False

theorem answered_not_wide {m : RemoteMsg} (hfits : m.body.length + 12 < 2 ^ 24) :
    ∀ e ∈ m.answered alive, ¬IsWide e := by
  unfold RemoteMsg.answered
  intro e he
  rcases mem_cons.mp he with rfl | he
  · exact Nat.not_le.mpr hfits
  · split at he
    · nomatch he
    · rw [mem_singleton.mp he]
      change ¬2 ^ 24 ≤ ([] : Bytes).length + 12
      decide

/-- Messages are passed on until one comes whose length does not fit three bytes, by induction on
the messages. -/
theorem hear_frames (alive : ℕ → Bool) (hok : SlaveReading (h.s id))
    (hbetween : BetweenFrames h id) {ms : List RemoteMsg} (hms : ms ≠ [])
    (hfor : ∀ m ∈ ms, m.For h.id) (hsend : ∀ m ∈ ms, Sendable m.body) :
    ∃ out, (hear h id alive (ms.flatMap fun m => toBigendian m.content.length ++ m.content)).map
        Harbor.out = some (h.out ++ out) ∧
      ((∀ m ∈ ms, m.body.length + 12 < 2 ^ 24) ∧ out = ms.flatMap (RemoteMsg.answered alive) ∨
        ¬(∀ m ∈ ms, m.body.length + 12 < 2 ^ 24) ∧ ∀ e ∈ out, ¬IsWide e) := by
  induction ms generalizing h with
  | nil => exact absurd rfl hms
  | cons m ms ih =>
    have hhead := hfor m mem_cons_self
    have hlength := m.content_length
    rw [flatMap_cons, flatMap_cons, forall_mem_cons]
    by_cases hfits : m.body.length + 12 < 2 ^ 24
    · rw [hear_frame hok hbetween hhead (by omega)]
      simp only [hfits, true_and]
      by_cases hnil : ms = []
      · rw [hnil]
        exact ⟨m.answered alive, by simp [passOn, setSlave], .inl ⟨nofun, by simp⟩⟩
      · have hmore : (ms.flatMap fun m => toBigendian m.content.length ++ m.content) ≠ [] := by
          obtain ⟨n, ns, rfl⟩ := exists_cons_of_ne_nil hnil
          simp [toBigendian]
        have hslave : (passOn h id alive m).s id = restingSlave (h.s id) := by
          rw [passOn, setSlave_self]
        have hresting : SlaveReading ((passOn h id alive m).s id) ∧
            BetweenFrames (passOn h id alive m) id := by
          unfold BetweenFrames
          rw [hslave]
          exact ⟨reading_resting _, rfl, rfl⟩
        obtain ⟨out, hout, hcase⟩ := ih (h := passOn h id alive m) hresting.1 hresting.2 hnil
          (fun n hn => hfor n (mem_cons_of_mem m hn)) fun n hn => hsend n (mem_cons_of_mem m hn)
        refine ⟨m.answered alive ++ out, ?_, ?_⟩
        · rw [if_neg hmore, hout]
          simp [passOn, setSlave]
        · refine hcase.imp (And.imp_right fun heq => by rw [heq]) (And.imp_right fun hall => ?_)
          intro e he
          exact (mem_append.mp he).elim (answered_not_wide hfits e) (hall e)
    · rw [hear_wide hok hbetween (hsend m mem_cons_self) (by omega)]
      have hnot : ¬(m.body.length + 12 < 2 ^ 24 ∧ ∀ m ∈ ms, m.body.length + 12 < 2 ^ 24) :=
        fun hall => hfits hall.1
      rcases closeHarbor_out h id with hsame | ⟨fd, hclose⟩
      · exact ⟨[], by simp [hsame], .inr ⟨hnot, by simp⟩⟩
      · refine ⟨[.close fd], by simp [hclose], .inr ⟨hnot, fun e he => ?_⟩⟩
        rw [mem_singleton.mp he]
        exact not_false

/-- Messages are passed on as they were sent exactly where the length of each fits three bytes,
and no session is taken for an error. -/
theorem hear_frames_iff (alive : ℕ → Bool) (hok : SlaveReading (h.s id))
    (hbetween : BetweenFrames h id) {ms : List RemoteMsg} (hms : ms ≠ [])
    (hfor : ∀ m ∈ ms, m.For h.id) (hsend : ∀ m ∈ ms, Sendable m.body) :
    (hear h id alive (ms.flatMap fun m => toBigendian m.content.length ++ m.content)).map
        Harbor.out = some (h.out ++ ms.flatMap (RemoteMsg.delivered alive)) ↔
      ∀ m ∈ ms, m.body.length + 12 < 2 ^ 24 ∧ m.NoFalseError alive := by
  obtain ⟨out, hout, hcase⟩ := hear_frames alive hok hbetween hms hfor hsend
  have hsame := (flatten_eq_iff fun m (_ : m ∈ ms) =>
    (m.delivered_or alive).imp And.left And.left).1
  rw [hout, Option.some.injEq, append_cancel_left_eq, forall₂_and]
  obtain ⟨hfits, rfl⟩ | ⟨hwide, hall⟩ := hcase
  · rw [and_iff_right hfits, eq_comm, flatMap_def, flatMap_def, hsame]
    exact forall₂_congr fun m _ => m.delivered_eq_iff alive
  · refine iff_of_false (fun heq => hwide fun m hm => ?_) fun h => hwide h.1
    have hmem : .send none m.source m.destination m.type m.session m.body ∈ out := by
      rw [heq]
      exact mem_flatMap.mpr ⟨m, hm, mem_cons_self⟩
    exact Nat.not_le.mp (hall _ hmem)

/-! ## The main result -/

/-- In every state that a harbor service reaches, a stream does the same however it is cut
into messages, and it is read within the buffers exactly where none of its frames is shorter
than a header; and messages that `send_remote` writes arrive as they were sent exactly where
each of them fits three bytes with its header, and has a session that is no negative `int`, or
no handle to arrive at. -/
theorem harbor_frames (hreach : (harborMachine id).Reachable h) (alive : ℕ → Bool) (fd : ℤ)
    {messages : List Bytes} (hnil : messages ≠ []) (hmessages : ∀ m ∈ messages, m ≠ []) :
    (pushAll h alive fd messages).map Harbor.out =
        (h.pushSocketData alive fd messages.flatten).map Harbor.out ∧
      (pushAll h alive fd messages ≠ none ↔ ∀ p ∈ framesOf h fd messages.flatten, 12 ≤ p.length) ∧
      ∀ (g : Harbor) (fd' : ℤ) (ms : List RemoteMsg), h.harborId fd ≠ 0 →
        BetweenFrames h (h.harborId fd) → (∀ m ∈ ms, m.For h.id) → (∀ m ∈ ms, Sendable m.body) →
        messages.flatten = writtenTo fd' (newEffects g (g.sendAll fd' (ms.map RemoteMsg.msg))) →
        ((pushAll h alive fd messages).map Harbor.out =
            some (h.out ++ ms.flatMap (RemoteMsg.delivered alive)) ↔
          ∀ m ∈ ms, m.body.length + 12 < 2 ^ 24 ∧ m.NoFalseError alive) := by
  have hr := readings_reachable hreach
  obtain ⟨hcut, hbounds⟩ := pushAll_cut alive fd hr hnil hmessages
  refine ⟨hcut, hbounds, fun g fd' ms hid hbetween hfor hsend hwritten => ?_⟩
  rw [writtenTo_sendAll hsend] at hwritten
  have hms : ms ≠ [] := by
    rintro rfl
    obtain ⟨m, rest, rfl⟩ := exists_cons_of_ne_nil hnil
    rw [flatMap_nil, flatten_cons, append_eq_nil_iff] at hwritten
    exact hmessages m mem_cons_self hwritten.1
  rw [hcut, hwritten, pushSocketData_eq_hear rfl hid]
  exact hear_frames_iff alive (hr _) hbetween hms hfor hsend

def connectedHarbor : Harbor := (Harbor.init 1 0x1000001).commandConnect true 7 2

theorem connectedHarbor_reachable : (harborMachine 1).Reachable connectedHarbor :=
  Machine.Reach.step (a := .connect true 7 2)
    (Machine.Reach.start (M := harborMachine 1) (s := Harbor.init 1 0x1000001)
      ⟨0x1000001, rfl, rfl⟩) trivial rfl

/-- A message of two bytes, cut within its length and within its content. -/
theorem harbor_frames_cut :
    (pushAll connectedHarbor (fun _ => true) 7
      [[0, 0], [0, 14, 65], [66, 2, 0, 0, 5, 10, 0, 0, 6, 0, 0, 0, 3]]).map Harbor.out =
      some (connectedHarbor.out ++ [.send none 0x2000005 0x1000006 10 3 [65, 66]]) :=
  ((harbor_frames connectedHarbor_reachable (fun _ => true) 7 (by decide) (by decide)).2.2
    (.init 2 0x2000001) 5 [⟨0x2000005, 0x1000006, 10, 3, [65, 66], 0⟩] (by decide)
    ⟨by decide, by decide⟩
    (by
      rintro m hm
      obtain rfl := mem_singleton.mp hm
      exact ⟨by decide, by decide, by decide, by decide⟩)
    (by decide) (by decide)).mpr (by decide)

/-- A frame of four bytes is read as if a header stood in front of them, and a message of
16M bytes, which is written, does not arrive. -/
theorem harbor_frames_rejected :
    pushAll connectedHarbor (fun _ => true) 7 [[0, 0, 0, 4, 1, 2, 3, 4]] = none ∧
      ∃ m : RemoteMsg, m.For connectedHarbor.id ∧ Sendable m.body ∧
        (connectedHarbor.pushSocketData (fun _ => true) 7
            (writtenTo 5 (newEffects (.init 2 0x2000001)
              ((Harbor.init 2 0x2000001).sendAll 5 [m.msg])))).map Harbor.out ≠
          some (connectedHarbor.out ++ m.delivered fun _ => true) := by
  refine ⟨Option.isNone_iff_eq_none.mp (by decide), ?_⟩
  have hwide : ∀ body : Bytes, body.length = 2 ^ 24 → ∃ m : RemoteMsg,
      m.For connectedHarbor.id ∧ Sendable m.body ∧ (connectedHarbor.pushSocketData (fun _ => true) 7
            (writtenTo 5 (newEffects (.init 2 0x2000001)
              ((Harbor.init 2 0x2000001).sendAll 5 [m.msg])))).map Harbor.out ≠
          some (connectedHarbor.out ++ m.delivered fun _ => true) := by
    intro body hlen
    have hfor : ∀ m ∈ [RemoteMsg.mk 0x2000005 0x1000006 10 3 body 0], m.For connectedHarbor.id := by
      intro m hm
      obtain rfl := mem_singleton.mp hm
      exact ⟨by norm_num, by norm_num, by norm_num,
        (by decide : harborOf 0x1000006 = connectedHarbor.id)⟩
    have hsend : ∀ m ∈ [RemoteMsg.mk 0x2000005 0x1000006 10 3 body 0], Sendable m.body := by
      intro m hm
      obtain rfl := mem_singleton.mp hm
      unfold Sendable
      rw [hlen]
      norm_num
    refine ⟨⟨0x2000005, 0x1000006, 10, 3, body, 0⟩, hfor _ (mem_singleton_self _),
      hsend _ (mem_singleton_self _), fun hout => ?_⟩
    have hbytes := writtenTo_sendAll hsend (.init 2 0x2000001) 5
    rw [map_singleton] at hbytes
    have hid : connectedHarbor.harborId 7 = 2 := by decide
    rw [hbytes, pushSocketData_eq_hear hid (by decide)] at hout
    have hsmall := (hear_frames_iff (fun _ => true)
      (readings_reachable connectedHarbor_reachable 2) ⟨by decide, by decide⟩
      (cons_ne_nil _ _) hfor hsend).mp (by
        exact hout)
    have hlt := (hsmall _ (mem_singleton_self _)).1
    dsimp only at hlt
    omega
  exact hwide (replicate (2 ^ 24) 0) length_replicate

end Skynet.Analysis
