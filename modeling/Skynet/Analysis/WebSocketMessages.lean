import Skynet.Analysis.WebSocketFrames

/-!
# Messages of websockets

A receiver, server or client, puts messages together from the frames they come in, and
answers the pings between them.  Both loops are one `frameLoop`, and what they do with a
frame is `Reassembles`; the one induction over the frames is on top of that.
-/

namespace Skynet.Analysis

open Library Model WebSocket List Option

/-! ## Messages and their frames -/

def dataOp (binary : Bool) : WsOp :=
  if binary then .binary else .text

inductive SentFrame
  | own (op : WsOp) (payload : Bytes) (key : Option UInt32) (h : payload.length < 2 ^ 63)
  | peer (f : WireFrame)

namespace SentFrame

def wire : SentFrame → WireFrame
  | .own op payload key h => ownFrame op payload key h
  | .peer f => f

def bytes : SentFrame → Option Bytes
  | .own op payload key _ =>
    match writeFrame op payload key ⟨[], [], []⟩ with
    | .ok _ s => some s.out.flatten
    | .error _ _ => none
  | .peer f => some f.bytes

def isData (f : SentFrame) : Bool := f.wire.op ≠ .ping ∧ f.wire.op ≠ .pong

end SentFrame

def streamOf : List SentFrame → Option Bytes
  | [] => some []
  | f :: fs => do
    let first ← f.bytes
    let rest ← streamOf fs
    return first ++ rest

structure Part where
  payload : Bytes
  key : Option UInt32
  form : LengthForm
  fits : payload.length < form.bound

def Part.frame (p : Part) (fin : Bool) (op : WsOp) : WireFrame :=
  ⟨fin, op, p.payload, p.key, p.form, p.fits⟩

def continuations : List Part → List SentFrame
  | [] => []
  | p :: ps => .peer (p.frame ps.isEmpty .frame) :: continuations ps

inductive SentMessage
  | whole (binary : Bool) (payload : Bytes) (key : Option UInt32)
      (h : payload.length < 2 ^ 63)
  | split (binary : Bool) (first : Part) (rest : List Part)

namespace SentMessage

def frames : SentMessage → List SentFrame
  | .whole binary payload key h => [.own (dataOp binary) payload key h]
  | .split binary first rest =>
    .peer (first.frame rest.isEmpty (dataOp binary)) :: continuations rest

def payload : SentMessage → Bytes
  | .whole _ payload _ _ => payload
  | .split _ first rest => first.payload ++ (rest.map Part.payload).flatten

def op : SentMessage → WsOp
  | .whole binary _ _ _ => dataOp binary
  | .split binary _ _ => dataOp binary

end SentMessage

/-- Messages and the frames on the wire: those of the messages in their order, with pings and
pongs among them.  A server is sent no message that is too large. -/
structure Script (server : Bool) where
  messages : List SentMessage
  frames : List SentFrame
  data : frames.filter SentFrame.isData = (messages.map SentMessage.frames).flatten
  controls : ∀ f ∈ frames, f.isData = false → f.wire.fin = true ∧ f.wire.payload.length < 126
  sizes : server = true → ∀ m ∈ messages, m.payload.length ≤ maxFrameSize

/-! ## What is to hold -/

def receiver : Bool → WsM Unit
  | true => resolveAccept
  | false => readCalls

def isDelivery : WsEvent → Bool
  | .message _ _ => true
  | .read _ => true
  | _ => false

def delivery : Bool → Bytes → WsOp → WsEvent
  | true, payload, op => .message payload op
  | false, payload, _ => .read payload

def deliveries (server : Bool) (messages : List SentMessage) : List WsEvent :=
  messages.map fun m => delivery server m.payload m.op

def pings (frames : List SentFrame) : List Bytes :=
  (frames.filter fun f => f.wire.op = .ping).map fun f => f.wire.payload

def pongBytes (payload : Bytes) : Bytes := [0x8A, UInt8.ofNat payload.length] ++ payload

/-- The frames are written, and however their bytes arrive, the receiver takes them all and
waits, it has delivered the messages, and all that it has written are the pongs. -/
def DeliversMessages (server : Bool) (script : Script server) : Prop :=
  ∃ bytes, streamOf script.frames = some bytes ∧
    ∀ pieces : List Bytes, pieces.flatten = bytes →
      Ends (receiver server) ⟨pieces, [], []⟩ (fun _ _ => False) fun e s =>
        e = .socketError ∧ s.pieces.flatten = [] ∧
          s.events.filter isDelivery = deliveries server script.messages ∧
          s.out.flatten = ((pings script.frames).map pongBytes).flatten

/-! ## Frames that are written -/

theorem SentFrame.bytes_of_maskable {f : SentFrame} (h : f.wire.Maskable) :
    f.bytes = some f.wire.bytes := by
  cases f with
  | peer f => rfl
  | own op payload key h' =>
    have hends : Ends (writeFrame op payload key) ⟨[], [], []⟩
        (fun _ s => s.out.flatten = (ownFrame op payload key h').bytes) fun _ _ => False := by
      refine ends_writeFrame h' (fun _ ws hws => ?_) fun hnot => absurd h hnot
      exact hws
    obtain ⟨a, s, hs, hout⟩ := hends.returns
    rw [SentFrame.bytes, hs]
    exact congrArg some hout

theorem SentFrame.bytes_eq {f : SentFrame} {bytes : Bytes} (h : f.bytes = some bytes) :
    bytes = f.wire.bytes := by
  cases f with
  | peer f => exact (some.inj h).symm
  | own op payload key h' =>
    by_cases hmask : (ownFrame op payload key h').Maskable
    · rw [SentFrame.bytes_of_maskable (f := .own op payload key h') hmask] at h
      exact (some.inj h).symm
    · have hends : Ends (writeFrame op payload key) ⟨[], [], []⟩ (fun _ _ => False)
          fun _ _ => True :=
        ends_writeFrame h' (fun hc => absurd hc hmask) fun _ _ => trivial
      rw [SentFrame.bytes] at h
      cases hw : writeFrame op payload key ⟨[], [], []⟩ with
      | ok a s => exact (hends.of_ok hw).elim
      | error e s =>
        rw [hw] at h
        nomatch h

theorem streamOf_of_maskable {frames : List SentFrame} (h : ∀ f ∈ frames, f.wire.Maskable) :
    streamOf frames = some (frames.map fun f => f.wire.bytes).flatten := by
  induction frames with
  | nil => rfl
  | cons f fs ih =>
    rw [streamOf, SentFrame.bytes_of_maskable (h f mem_cons_self),
      ih fun g hg => h g (mem_cons_of_mem f hg)]
    rfl

theorem streamOf_eq {frames : List SentFrame} {bytes : Bytes}
    (h : streamOf frames = some bytes) : bytes = (frames.map fun f => f.wire.bytes).flatten := by
  induction frames generalizing bytes with
  | nil => exact (some.inj h).symm
  | cons f fs ih =>
    obtain ⟨first, hfirst, hrest⟩ := bind_eq_some_iff.mp h
    obtain ⟨rest, hstream, heq⟩ := bind_eq_some_iff.mp hrest
    rw [map_cons, flatten_cons, ← SentFrame.bytes_eq hfirst, ← ih hstream]
    exact (some.inj heq).symm

/-! ## What a receiver does with a frame -/

/-- A receiver answers pings and puts messages together: `idle` is its state between messages,
and `mid` the state behind some of the parts of a message. -/
structure Reassembles {ρ : Type} (server : Bool)
    (body : ρ → Bool → WsOp → Bytes → WsM (Option ρ)) (idle : ρ)
    (mid : Bool → List Bytes → ρ) : Prop where
  ping : ∀ r payload s, payload.length < 126 → Ends (body r true .ping payload) s
    (fun r' s' => r' = some r ∧ s'.pieces = s.pieces ∧
      s'.out.flatten = s.out.flatten ++ pongBytes payload ∧
      s'.events.filter isDelivery = s.events.filter isDelivery) fun _ _ => False
  pong : ∀ r payload s, Ends (body r true .pong payload) s
    (fun r' s' => r' = some r ∧ s'.pieces = s.pieces ∧ s'.out = s.out ∧
      s'.events.filter isDelivery = s.events.filter isDelivery) fun _ _ => False
  whole : ∀ binary payload s, body idle true (dataOp binary) payload s =
    .ok (some idle) { s with events := s.events ++ [delivery server payload (dataOp binary)] }
  first : ∀ binary payload s, (server = true → payload.length ≤ maxFrameSize) →
    body idle false (dataOp binary) payload s = .ok (some (mid binary [payload])) s
  more : ∀ binary buf payload s, buf ≠ [] →
    (server = true → (buf ++ [payload]).flatten.length ≤ maxFrameSize) →
    body (mid binary buf) false .frame payload s = .ok (some (mid binary (buf ++ [payload]))) s
  last : ∀ binary buf payload s, buf ≠ [] →
    (server = true → (buf ++ [payload]).flatten.length ≤ maxFrameSize) →
    body (mid binary buf) true .frame payload s = .ok (some idle) { s with
      events := s.events ++ [delivery server (buf ++ [payload]).flatten (dataOp binary)] }

theorem ends_pong {payload : Bytes} (h : payload.length < 126) (s : WsState) :
    Ends (writeFrame .pong payload none) s (fun _ s' => s'.pieces = s.pieces ∧
      s'.out.flatten = s.out.flatten ++ pongBytes payload ∧ s'.events = s.events)
      fun _ _ => False := by
  have hlong : payload.length < 2 ^ 63 := by omega
  have hform : ownForm payload.length = .short := if_pos h
  have hbytes : (ownFrame .pong payload none hlong).bytes = pongBytes payload := by
    simp [WireFrame.bytes, WireFrame.body, ownFrame, hform, LengthForm.low,
      LengthForm.extension, pongBytes, WsOp.code]
  refine ends_writeFrame hlong (fun _ ws hws => ⟨rfl, ?_, rfl⟩) fun hnot =>
    absurd (by rintro ⟨⟩) hnot
  rw [flatten_append, hws, hbytes]

theorem acceptFrame_reassembles : Reassembles true acceptFrame ⟨0, [], none⟩
    fun binary buf => ⟨buf.flatten.length, buf, some (dataOp binary)⟩ where
  ping r payload s h := by
    unfold acceptFrame
    rw [Ends.bind]
    refine (ends_pong h s).mono ?_ fun _ _ h => h
    rintro _ s' ⟨hpieces, hout, hevents⟩
    rw [Ends.bind]
    unfold handOn
    refine Ends.modify.mpr (Ends.pure.mpr ⟨rfl, hpieces, hout, ?_⟩)
    simp [hevents, isDelivery]
  pong r payload s := by
    unfold acceptFrame handOn
    rw [Ends.bind]
    simp [isDelivery]
  whole binary payload s := by cases binary <;> rfl
  first binary payload s h := by
    have hroom : ¬maxFrameSize < payload.length := Nat.not_lt.mpr (h rfl)
    cases binary <;> simp [acceptFrame, dataOp, hroom] <;> rfl
  more binary buf payload s hbuf h := by
    have hroom : ¬maxFrameSize < buf.flatten.length + payload.length := by
      have := h rfl
      simp only [flatten_append, length_append, flatten_singleton] at this
      omega
    cases binary <;> simp [acceptFrame, dataOp, hroom, -length_flatten] <;> rfl
  last binary buf payload s hbuf h := by
    have hroom : ¬maxFrameSize < buf.flatten.length + payload.length := by
      have := h rfl
      simp only [flatten_append, length_append, flatten_singleton] at this
      omega
    cases binary <;> simp [acceptFrame, dataOp, hroom, hbuf, -length_flatten] <;> rfl

theorem readTurn_reassembles :
    Reassembles false readTurn none fun _ buf => some buf where
  ping r payload s h := by
    unfold readTurn
    rw [Ends.bind]
    refine (ends_pong h s).mono ?_ fun _ _ h => h
    rintro _ s' ⟨hpieces, hout, hevents⟩
    exact Ends.pure.mpr ⟨rfl, hpieces, hout, by rw [hevents]⟩
  pong r payload s := Ends.pure.mpr ⟨rfl, rfl, rfl, rfl⟩
  whole binary payload s := by cases binary <;> rfl
  first binary payload s _ := by cases binary <;> rfl
  more binary buf payload s _ _ := rfl
  last binary buf payload s _ _ := rfl

/-! ## Runs -/

inductive MessageProgress
  | idle
  | inside (binary : Bool) (buf : List Bytes) (hbuf : buf ≠ []) (part : Part)
      (parts : List Part)

namespace MessageProgress

def frames : MessageProgress → List SentFrame
  | idle => []
  | inside _ _ _ part parts => continuations (part :: parts)

def awaited (server : Bool) : MessageProgress → List WsEvent
  | idle => []
  | inside binary buf _ part parts =>
    [delivery server (buf.flatten ++ part.payload ++ (parts.map Part.payload).flatten)
      (dataOp binary)]

def Fits : MessageProgress → Prop
  | idle => True
  | inside _ buf _ part parts =>
    (buf.flatten ++ part.payload ++ (parts.map Part.payload).flatten).length ≤ maxFrameSize

def state {ρ : Type} (idle : ρ) (mid : Bool → List Bytes → ρ) : MessageProgress → ρ
  | .idle => idle
  | inside binary buf _ _ _ => mid binary buf

end MessageProgress

section Run

variable {ρ : Type} {server : Bool} {body : ρ → Bool → WsOp → Bytes → WsM (Option ρ)}
  {idle : ρ} {mid : Bool → List Bytes → ρ}

/-- What is to be when all the frames have come: the receiver waits, if all could be
counted. -/
def MessagesReceived (s : WsState) (frames : List SentFrame) (awaited : List WsEvent) (e : WsError)
    (s' : WsState) : Prop :=
  if ∀ f ∈ frames, f.wire.Countable then
    e = .socketError ∧ s'.pieces.flatten = [] ∧
      s'.events.filter isDelivery = s.events.filter isDelivery ++ awaited ∧
      s'.out.flatten = s.out.flatten ++ ((pings frames).map pongBytes).flatten
  else e = .intOverflow

variable {f : SentFrame}

theorem ends_turn {turns : ℕ} {r r' : ρ} {s : WsState} {fs : List SentFrame}
    (delivered : List WsEvent) {awaited : List WsEvent}
    (hlimit : f.wire.payload.length < 2 ^ 32)
    (hsize : server = true → f.wire.payload.length ≤ maxFrameSize)
    (hstream : s.pieces.flatten = ((f :: fs).map fun f => f.wire.bytes).flatten)
    (hbody : ∀ s : WsState, Ends (body r f.wire.fin f.wire.op f.wire.payload) s
      (fun next s₁ => next = some r' ∧ s₁.pieces = s.pieces ∧
        s₁.out.flatten = s.out.flatten ++ ((pings [f]).map pongBytes).flatten ∧
        s₁.events.filter isDelivery = s.events.filter isDelivery ++ delivered)
      fun _ _ => False)
    (hrun : ∀ s₁ : WsState, s₁.pieces.flatten = (fs.map fun f => f.wire.bytes).flatten →
      Ends (frameLoop server body turns r') s₁ (fun _ _ => False)
        (MessagesReceived s₁ fs awaited)) :
    Ends (frameLoop server body (turns + 1) r) s (fun _ _ => False)
      (MessagesReceived s (f :: fs) (delivered ++ awaited)) := by
  rw [frameLoop, Ends.bind]
  refine ends_readFrame f.wire hlimit hsize hstream (fun hcount pieces hrest => ?_) fun hnot s' => ?_
  · rw [Ends.bind]
    refine (hbody { s with pieces := pieces }).mono ?_ fun _ _ h => h.elim
    rintro _ s₁ ⟨rfl, hpieces, hout, hevents⟩
    refine (hrun s₁ (hpieces ▸ hrest)).mono (fun _ _ h => h) fun e s' hreceived => ?_
    have hall : (∀ g ∈ f :: fs, g.wire.Countable) ↔ ∀ g ∈ fs, g.wire.Countable := by
      rw [forall_mem_cons]
      exact and_iff_right hcount
    have hpings : pings (f :: fs) = pings [f] ++ pings fs := by
      rw [pings, pings, pings, ← map_append, ← filter_append, singleton_append]
    unfold MessagesReceived at hreceived ⊢
    by_cases hfs : ∀ g ∈ fs, g.wire.Countable
    · rw [if_pos hfs] at hreceived
      rw [if_pos (hall.mpr hfs)]
      obtain ⟨he, hnone, hdelivered, hpongs⟩ := hreceived
      refine ⟨he, hnone, ?_, ?_⟩
      · rw [hdelivered, hevents, append_assoc]
      · rw [hpongs, hout, hpings, map_append, flatten_append, append_assoc]
    · rw [if_neg hfs] at hreceived
      rw [if_neg fun h => hfs (hall.mp h)]
      exact hreceived
  · unfold MessagesReceived
    rw [if_neg fun h => hnot (h f mem_cons_self)]

theorem filter_delivery (events : List WsEvent) (payload : Bytes) (op : WsOp) :
    (events ++ [delivery server payload op]).filter isDelivery =
      events.filter isDelivery ++ [delivery server payload op] := by
  rw [filter_append]
  cases server <;> rfl

theorem ends_quiet {r r' : ρ} (hnoPing : pings [f] = [])
    (hbody : ∀ s, body r f.wire.fin f.wire.op f.wire.payload s = .ok (some r') s) (s : WsState) :
    Ends (body r f.wire.fin f.wire.op f.wire.payload) s
      (fun next s₁ => next = some r' ∧ s₁.pieces = s.pieces ∧
        s₁.out.flatten = s.out.flatten ++ ((pings [f]).map pongBytes).flatten ∧
        s₁.events.filter isDelivery = s.events.filter isDelivery ++ []) fun _ _ => False := by
  refine Ends.of_eq_ok (hbody s) ⟨rfl, rfl, ?_, (append_nil _).symm⟩
  rw [hnoPing]
  exact (append_nil _).symm

theorem ends_delivers {r r' : ρ} {payload : Bytes} {op : WsOp} (hnoPing : pings [f] = [])
    (hbody : ∀ s, body r f.wire.fin f.wire.op f.wire.payload s =
      .ok (some r') { s with events := s.events ++ [delivery server payload op] })
    (s : WsState) : Ends (body r f.wire.fin f.wire.op f.wire.payload) s
      (fun next s₁ => next = some r' ∧ s₁.pieces = s.pieces ∧
        s₁.out.flatten = s.out.flatten ++ ((pings [f]).map pongBytes).flatten ∧
        s₁.events.filter isDelivery =
          s.events.filter isDelivery ++ [delivery server payload op]) fun _ _ => False := by
  refine Ends.of_eq_ok (hbody s) ⟨rfl, rfl, ?_, filter_delivery _ _ _⟩
  rw [hnoPing]
  exact (append_nil _).symm

theorem SentMessage.frames_ne_nil (m : SentMessage) : m.frames ≠ [] := by
  cases m <;> exact cons_ne_nil _ _

/-- What a data frame does to what is to come: how far the messages have come, and what is
delivered. -/
structure DataStep (server : Bool) (body : ρ → Bool → WsOp → Bytes → WsM (Option ρ))
    (idle : ρ) (mid : Bool → List Bytes → ρ) (f : SentFrame) (rest : List SentFrame)
    (progress progress' : MessageProgress) (messages messages' : List SentMessage)
    (delivered : List WsEvent) : Prop where
  frames : rest = progress'.frames ++ (messages'.map SentMessage.frames).flatten
  awaited : progress.awaited server ++ deliveries server messages =
    delivered ++ (progress'.awaited server ++ deliveries server messages')
  fits : server = true → progress'.Fits ∧ ∀ m ∈ messages', m.payload.length ≤ maxFrameSize
  size : server = true → f.wire.payload.length ≤ maxFrameSize
  acts : ∀ s, Ends (body (progress.state idle mid) f.wire.fin f.wire.op f.wire.payload) s
    (fun next s₁ => next = some (progress'.state idle mid) ∧ s₁.pieces = s.pieces ∧
      s₁.out.flatten = s.out.flatten ++ ((pings [f]).map pongBytes).flatten ∧
      s₁.events.filter isDelivery = s.events.filter isDelivery ++ delivered) fun _ _ => False

theorem Reassembles.first_frame (h : Reassembles server body idle mid)
    {rest : List SentFrame} (hnoPing : pings [f] = []) {m : SentMessage} {ms : List SentMessage}
    (hdata : f :: rest = m.frames ++ (ms.map SentMessage.frames).flatten)
    (hm : server = true → m.payload.length ≤ maxFrameSize)
    (hms : server = true → ∀ m ∈ ms, m.payload.length ≤ maxFrameSize) :
    ∃ progress' delivered, DataStep server body idle mid f rest .idle progress' (m :: ms) ms
      delivered := by
  cases m with
  | whole binary payload key hlong =>
    obtain ⟨rfl, hrest⟩ := List.cons.inj hdata
    exact ⟨.idle, [delivery server payload (dataOp binary)], hrest, rfl,
      fun hs => ⟨trivial, hms hs⟩, hm, ends_delivers hnoPing (h.whole binary payload)⟩
  | split binary first parts =>
    obtain ⟨rfl, hrest⟩ := List.cons.inj hdata
    have hfirst : server = true → first.payload.length ≤ maxFrameSize := by
      intro hs
      refine Nat.le_trans ?_ (hm hs)
      rw [SentMessage.payload, length_append]
      exact Nat.le_add_right _ _
    cases parts with
    | nil =>
      refine ⟨.idle, [delivery server first.payload (dataOp binary)], hrest, ?_,
        fun hs => ⟨trivial, hms hs⟩, hfirst, ends_delivers hnoPing (h.whole binary first.payload)⟩
      simp [MessageProgress.awaited, deliveries, SentMessage.payload, SentMessage.op]
    | cons p ps =>
      refine ⟨.inside binary [first.payload] (cons_ne_nil _ _) p ps, [], hrest, ?_,
        fun hs => ⟨?_, hms hs⟩, hfirst,
        ends_quiet hnoPing fun s => h.first binary first.payload s hfirst⟩
      · simp [MessageProgress.awaited, deliveries, SentMessage.payload, SentMessage.op]
      · simpa [MessageProgress.Fits, SentMessage.payload] using hm hs

theorem Reassembles.next_frame (h : Reassembles server body idle mid)
    {rest : List SentFrame} (hnoPing : pings [f] = []) {messages : List SentMessage}
    {binary : Bool} {buf : List Bytes} (hbuf : buf ≠ []) {part : Part} {parts : List Part}
    (hdata : f :: rest = continuations (part :: parts) ++ (messages.map SentMessage.frames).flatten)
    (hfits : server = true → (MessageProgress.inside binary buf hbuf part parts).Fits)
    (hms : server = true → ∀ m ∈ messages, m.payload.length ≤ maxFrameSize) :
    ∃ progress' delivered, DataStep server body idle mid f rest
      (.inside binary buf hbuf part parts) progress' messages messages delivered := by
  obtain ⟨rfl, hrest⟩ := List.cons.inj hdata
  have hlen : server = true → (buf ++ [part.payload]).flatten.length ≤ maxFrameSize := by
    intro hs
    have hall := hfits hs
    simp only [MessageProgress.Fits, length_append] at hall
    simp only [flatten_append, flatten_singleton, length_append]
    omega
  have hpart : server = true → part.payload.length ≤ maxFrameSize := by
    intro hs
    have hall := hlen hs
    simp only [flatten_append, flatten_singleton, length_append] at hall
    omega
  cases parts with
  | nil =>
    refine ⟨.idle, [delivery server (buf ++ [part.payload]).flatten (dataOp binary)], hrest, ?_,
      fun hs => ⟨trivial, hms hs⟩, hpart,
      ends_delivers hnoPing fun s => h.last binary buf part.payload s hbuf hlen⟩
    simp [MessageProgress.awaited]
  | cons p ps =>
    refine ⟨.inside binary (buf ++ [part.payload]) (by simp) p ps, [], hrest, ?_,
      fun hs => ⟨?_, hms hs⟩, hpart,
      ends_quiet hnoPing fun s => h.more binary buf part.payload s hbuf hlen⟩
    · simp [MessageProgress.awaited]
    · simpa [MessageProgress.Fits] using hfits hs

theorem Reassembles.control (h : Reassembles server body idle mid)
    (hkind : f.isData = false) (hfin : f.wire.fin = true) (hlen : f.wire.payload.length < 126)
    (r : ρ) (s : WsState) : Ends (body r f.wire.fin f.wire.op f.wire.payload) s
      (fun next s₁ => next = some r ∧ s₁.pieces = s.pieces ∧
        s₁.out.flatten = s.out.flatten ++ ((pings [f]).map pongBytes).flatten ∧
        s₁.events.filter isDelivery = s.events.filter isDelivery ++ []) fun _ _ => False := by
  have hop : f.wire.op = .ping ∨ f.wire.op = .pong := by
    by_contra hnot
    rw [not_or] at hnot
    rw [SentFrame.isData, decide_eq_true hnot] at hkind
    nomatch hkind
  rw [hfin, append_nil]
  rcases hop with hop | hop
  · rw [hop]
    refine (h.ping r _ s hlen).mono ?_ fun _ _ h => h
    rintro next s₁ ⟨hnext, hpieces, hout, hevents⟩
    exact ⟨hnext, hpieces, by simp [hout, pings, hop], hevents⟩
  · rw [hop]
    refine (h.pong r _ s).mono ?_ fun _ _ h => h
    rintro next s₁ ⟨hnext, hpieces, hout, hevents⟩
    exact ⟨hnext, hpieces, by simp [hout, pings, hop], hevents⟩

/-- **All the frames come**, and the receiver has put the messages together. -/
theorem Reassembles.run (h : Reassembles server body idle mid) {frames : List SentFrame}
    {progress : MessageProgress} {messages : List SentMessage} {turns : ℕ} {s : WsState}
    (hdata : frames.filter SentFrame.isData =
      progress.frames ++ (messages.map SentMessage.frames).flatten)
    (hcontrols : ∀ f ∈ frames, f.isData = false → f.wire.fin = true ∧ f.wire.payload.length < 126)
    (hfits : server = true → progress.Fits ∧ ∀ m ∈ messages, m.payload.length ≤ maxFrameSize)
    (hlimit : ∀ f ∈ frames, f.wire.payload.length < 2 ^ 32) (hturns : frames.length < turns)
    (hstream : s.pieces.flatten = (frames.map fun f => f.wire.bytes).flatten) :
    Ends (frameLoop server body turns (progress.state idle mid)) s (fun _ _ => False)
      (MessagesReceived s frames (progress.awaited server ++ deliveries server messages)) := by
  induction frames generalizing progress messages turns s with
  | nil =>
    have hnone := append_eq_nil_iff.mp hdata.symm
    have hidle : progress = .idle := by
      cases progress with
      | idle => rfl
      | inside binary buf hbuf part parts => exact absurd hnone.1 (cons_ne_nil _ _)
    have hmessages : messages = [] := by
      cases messages with
      | nil => rfl
      | cons m ms =>
        exact absurd (append_eq_nil_iff.mp hnone.2).1 m.frames_ne_nil
    obtain ⟨n, rfl⟩ : ∃ n, turns = n + 1 := ⟨turns - 1, by simp at hturns; omega⟩
    rw [frameLoop, Ends.bind]
    refine ends_readFrame_waits hstream ?_
    unfold MessagesReceived
    rw [if_pos nofun, hidle, hmessages]
    exact ⟨rfl, hstream, (append_nil _).symm, (append_nil _).symm⟩
  | cons f fs ih =>
    obtain ⟨n, rfl⟩ : ∃ n, turns = n + 1 := ⟨turns - 1, by simp at hturns; omega⟩
    have hturns' : fs.length < n := by simpa using hturns
    obtain ⟨hlimit, hlimits⟩ := forall_mem_cons.mp hlimit
    have hcontrols' : ∀ g ∈ fs, g.isData = false →
        g.wire.fin = true ∧ g.wire.payload.length < 126 :=
      fun g hg => hcontrols g (mem_cons_of_mem f hg)
    cases hkind : f.isData with
    | false =>
      obtain ⟨hfin, hlen⟩ := hcontrols f mem_cons_self hkind
      rw [filter_cons_of_neg (by simp [hkind])] at hdata
      have hsize : server = true → f.wire.payload.length ≤ maxFrameSize :=
        fun _ => Nat.le_trans hlen.le (by decide)
      exact ends_turn [] hlimit hsize hstream (h.control hkind hfin hlen _)
        fun s₁ hs₁ => ih hdata hcontrols' hfits hlimits hturns' hs₁
    | true =>
      rw [filter_cons_of_pos hkind] at hdata
      have hnoPing : pings [f] = [] := by
        have hop := (of_decide_eq_true hkind).1
        simp [pings, hop]
      obtain ⟨progress', messages', delivered, hstep⟩ : ∃ progress' messages' delivered,
          DataStep server body idle mid f (fs.filter SentFrame.isData) progress progress'
            messages messages' delivered := by
        cases progress with
        | inside binary buf hbuf part parts =>
          obtain ⟨progress', delivered, hstep⟩ := h.next_frame hnoPing hbuf hdata
            (fun hs => (hfits hs).1) fun hs => (hfits hs).2
          exact ⟨progress', messages, delivered, hstep⟩
        | idle =>
          cases messages with
          | nil => nomatch hdata
          | cons m ms =>
            obtain ⟨progress', delivered, hstep⟩ := h.first_frame hnoPing hdata
              (fun hs => (hfits hs).2 m mem_cons_self)
              fun hs m' hm => (hfits hs).2 m' (mem_cons_of_mem m hm)
            exact ⟨progress', ms, delivered, hstep⟩
      rw [hstep.awaited]
      exact ends_turn delivered hlimit hstep.size hstream hstep.acts
        fun s₁ hs₁ => ih hstep.frames hcontrols' hstep.fits hlimits hturns' hs₁

end Run

/-! ## The main result -/

theorem length_le_bytes (frames : List SentFrame) :
    frames.length ≤ (frames.map fun f => f.wire.bytes).flatten.length := by
  induction frames with
  | nil => exact le_rfl
  | cons f fs ih =>
    have hpos : 1 ≤ f.wire.bytes.length := by
      exact Nat.succ_le_succ (Nat.zero_le _)
    rw [map_cons, flatten_cons, length_append, length_cons]
    omega

theorem ends_receiver {server : Bool} (script : Script server)
    (hlimit : ∀ f ∈ script.frames, f.wire.payload.length < 2 ^ 32) {pieces : List Bytes}
    (hstream : pieces.flatten = (script.frames.map fun f => f.wire.bytes).flatten) :
    Ends (receiver server) ⟨pieces, [], []⟩ (fun _ _ => False)
      (MessagesReceived ⟨pieces, [], []⟩ script.frames
        (deliveries server script.messages)) := by
  have hturns : script.frames.length < pieces.flatten.length + 1 := by
    rw [hstream]
    exact Nat.lt_succ_of_le (length_le_bytes script.frames)
  have hdata : script.frames.filter SentFrame.isData =
      MessageProgress.idle.frames ++ (script.messages.map SentMessage.frames).flatten := script.data
  have hfits : server = true → MessageProgress.idle.Fits ∧
      ∀ m ∈ script.messages, m.payload.length ≤ maxFrameSize :=
    fun hs => ⟨trivial, script.sizes hs⟩
  cases server with
  | true =>
    unfold receiver resolveAccept
    rw [Ends.bind, Ends.get]
    exact acceptFrame_reassembles.run hdata script.controls hfits hlimit hturns hstream
  | false =>
    unfold receiver readCalls
    rw [Ends.bind, Ends.get]
    exact readTurn_reassembles.run hdata script.controls hfits hlimit hturns hstream

/-- A frame that cannot be counted stops the receiver. -/
theorem not_delivers {server : Bool} {script : Script server}
    (hlimit : ∀ f ∈ script.frames, f.wire.payload.length < 2 ^ 32) {f : SentFrame}
    (hf : f ∈ script.frames) (hlong : ¬f.wire.Countable) : ¬DeliversMessages server script := by
  rintro ⟨bytes, hstream, hdelivers⟩
  have hflat : [bytes].flatten = (script.frames.map fun f => f.wire.bytes).flatten := by
    rw [flatten_singleton]
    exact streamOf_eq hstream
  have hends := ends_receiver script hlimit hflat
  have hwaits := hdelivers [bytes] (flatten_singleton)
  cases hrun : receiver server ⟨[bytes], [], []⟩ with
  | ok a s => exact hwaits.of_ok hrun
  | error e s =>
    have hoverflow := hends.of_error hrun
    unfold MessagesReceived at hoverflow
    rw [if_neg fun hall => hlong (hall f hf), (hwaits.of_error hrun).1] at hoverflow
    nomatch hoverflow

theorem delivers_of_countable {server : Bool} {script : Script server}
    (hcount : ∀ f ∈ script.frames, f.wire.Countable) : DeliversMessages server script := by
  have hlimit : ∀ f ∈ script.frames, f.wire.payload.length < 2 ^ 32 :=
    fun f hf => Nat.lt_trans (show f.wire.payload.length < 2 ^ 31 from hcount f hf) (by decide)
  refine ⟨_, streamOf_of_maskable fun f hf _ => hcount f hf, fun pieces hstream => ?_⟩
  refine (ends_receiver script hlimit hstream).mono (fun _ _ h => h) fun e s hreceived => ?_
  unfold MessagesReceived at hreceived
  rw [if_pos hcount] at hreceived
  exact hreceived

/-- A text in two frames of a peer, masked with two keys, and a ping between them. -/
def splitText : Script true where
  messages := [.split false ⟨[104], some 7, .short, by decide⟩
    [⟨[105, 33], some 9, .medium, by decide⟩]]
  frames := [.peer ⟨false, .text, [104], some 7, .short, by decide⟩,
    .peer ⟨true, .ping, [1, 2], some 8, .short, by decide⟩,
    .peer ⟨true, .frame, [105, 33], some 9, .medium, by decide⟩]
  data := rfl
  controls := by
    simp [SentFrame.isData, SentFrame.wire]
  sizes := by
    simp [SentMessage.payload, maxFrameSize]

def maskedMessage (payload : Bytes) (h : payload.length < 2 ^ 63) : Script false where
  messages := [.whole true payload (some 1) h]
  frames := [.own .binary payload (some 1) h]
  data := rfl
  controls := by
    intro f hf hkind
    rw [mem_singleton.mp hf] at hkind
    nomatch hkind
  sizes := nofun

end Skynet.Analysis
