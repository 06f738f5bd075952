import Skynet.Analysis.GateRuns

/-!
# Packets that are too large for the gate

The gate compares a length with 16M when all that it announces is there.  So a header below
`2 ^ 31` closes the connection only with the end of its packet, and one from `2 ^ 31` on is a
negative number, for which the gate waits and goes on buffering.
-/

namespace Skynet.Analysis

open Library Model List Option Function

structure Oversized (s : Bytes) : Prop where
  header : 4 ≤ s.length
  size : 2 ^ 24 ≤ headerLength (s.take 4)

/-- A place in a stream that the gate comes to: behind a header below 16M with its packet
there, the gate takes the packet, or leaves it for the next header if nobody receives it. -/
inductive ComesTo (receives : Prop) : Bytes → Bytes → Prop
  | here (s : Bytes) : ComesTo receives s s
  | next {s t : Bytes} {k : ℕ} (hframe : HasFrame 4 headerLength s)
    (hsmall : headerLength (s.take 4) < 2 ^ 24)
    (hk : receives ∧ k = headerLength (s.take 4) ∨ ¬receives ∧ k = 0)
    (h : ComesTo receives (s.drop (4 + k)) t) : ComesTo receives s t

structure Incomplete (s : Bytes) : Prop where
  frame : ¬HasFrame 4 headerLength s
  small : ¬Oversized s

def OversizeComplete (receives : Prop) (s : Bytes) : Prop :=
  ∀ t, ComesTo receives s t → Oversized t →
    headerLength (t.take 4) < 2 ^ 31 ∧ HasFrame 4 headerLength t

section Dispatch

variable {q : ℤ → HeadTail ℕ} {contents : ℤ → List DataMessage} {i : ℤ} {bytes rest : Bytes}

theorem forward_none {g : Gate} {c : GateConnection} (h : ¬Receives g c) (n : ℤ) :
    g.forward c n = some ([], g, c) := by
  unfold Gate.forward
  by_cases hid : c.id ≤ 0
  · simp [hid]
  · have hnone : g.broker = 0 ∧ c.agent = 0 ∧ g.watchdog = 0 := by
      by_contra hne
      exact h ⟨by omega, by omega⟩
    simp [hid, hnone]

theorem BytesOf.clear {mp : NodePool DataMessage} {db : DataBuffer}
    (h : BytesOf mp q contents i db bytes) :
    ∃ mp', db.clear mp = some (mp', .zero) ∧ BytesOf mp' q contents i .zero [] := by
  obtain ⟨mp', hclear, hholds⟩ := DataBuffer.clear_spec h
  exact ⟨mp', hclear, rfl, [], hholds, ⟨0, rfl, rfl, rfl⟩, by simp⟩

/-- The loop stops in front of an incomplete packet, or closes the connection; by induction
on the rounds, of which each takes a header. -/
theorem dispatchLoop_oversize (id : ℤ) {fuel : ℕ} {g : Gate} {c : GateConnection}
    (h : BytesOf g.mp q contents i c.buffer bytes) (hhs : g.headerSize = 4)
    (hpending : Pending 4 c.buffer bytes rest) (hsmall : bytes.length < 2 ^ 31)
    (hover : OversizeComplete (Receives g c) rest) (hfuel : rest.length < 4 * fuel) :
    ∃ out mp' db' rest', Gate.dispatchLoop id fuel g c =
        some (out, { g with mp := mp' }, { c with buffer := db' }) ∧
      BytesOf mp' q contents i db' (unreadBytes 4 rest') ∧
      Pending 4 db' (unreadBytes 4 rest') rest' ∧ Incomplete rest' ∧
      ((∃ t, ComesTo (Receives g c) rest t ∧ Oversized t) → .close id ∈ out) := by
  induction fuel generalizing g c bytes rest with
  | zero => omega
  | succ fuel ih =>
    have hint : 4 ≤ rest.length → headerLength (rest.take 4) < 2 ^ 31 := by
      intro hle
      by_cases hlarge : 2 ^ 24 ≤ headerLength (rest.take 4)
      · exact (hover rest (.here rest) ⟨hle, hlarge⟩).1
      · omega
    by_cases hframe : HasFrame 4 headerLength rest
    · obtain ⟨mp', db', hread, hbytes, hheader, hless⟩ :=
        readheader_complete h hpending hsmall hint hframe
      have hlong := hframe.2.1
      have hnumber := hframe.2.2
      have hdrop : rest.length - 4 ≤ bytes.length := by
        rw [← length_drop]
        exact hless.elim Nat.le_of_lt fun hless => by rw [hless.1]
      rw [Nat.cast_ofNat, ← hhs] at hread
      generalize hn : headerLength (rest.take 4) = n at hread hheader hint hnumber
      simp only [Gate.dispatchLoop, hread, bind_eq_bind, bind_some]
      rw [if_neg (by omega)]
      by_cases hlarge : 2 ^ 24 ≤ n
      · obtain ⟨mp'', hclear, hzero⟩ := hbytes.clear
        refine ⟨[.close id, .error "Recv socket message > 16M".toList], mp'', .zero, [], ?_, hzero,
          .inl ⟨rfl, rfl⟩, ⟨?_, ?_⟩, fun _ => mem_cons_self⟩
        · rw [if_pos (by omega), if_pos (by omega), hclear]
          rfl
        · exact fun hf => absurd hf.2.1 (by decide)
        · exact fun ho => absurd ho.header (by decide)
      -- the gate goes on behind the header, or behind the packet
      have hgoes : ∀ {mp₁ : NodePool DataMessage} {db₁ : DataBuffer} {k : ℕ},
          Receives g c ∧ k = n ∨ ¬Receives g c ∧ k = 0 →
          BytesOf mp₁ q contents i db₁ (rest.drop (4 + k)) → db₁.header = 0 →
          ∃ out mp' db' rest', Gate.dispatchLoop id fuel { g with mp := mp₁ }
              { c with buffer := db₁ } =
                some (out, { g with mp := mp' }, { c with buffer := db' }) ∧
            BytesOf mp' q contents i db' (unreadBytes 4 rest') ∧
            Pending 4 db' (unreadBytes 4 rest') rest' ∧ Incomplete rest' ∧
            ((∃ t, ComesTo (Receives g c) rest t ∧ Oversized t) → .close id ∈ out) := by
        intro mp₁ db₁ k hk hbytes₁ hzero
        rw [← hn] at hk hlarge
        obtain ⟨out, mp', db', rest', hloop, hb, hp, hi, hclose⟩ := ih
          (g := { g with mp := mp₁ }) (c := { c with buffer := db₁ }) hbytes₁ hhs
          (.inl ⟨hzero, rfl⟩)
          (by rw [length_drop]; omega)
          (fun t ht => hover t (.next hframe (not_le.1 hlarge) hk ht))
          (by rw [length_drop]; omega)
        refine ⟨out, mp', db', rest', hloop, hb, hp, hi, ?_⟩
        rintro ⟨t, hcomes, ho⟩
        cases hcomes with
        | here => exact absurd ho.size hlarge
        | @next _ _ k' _ _ hk' ht =>
          obtain rfl : k = k' := by
            obtain ⟨hr, rfl⟩ | ⟨hr, rfl⟩ := hk
            · exact (hk'.resolve_right fun h => h.1 hr).2.symm
            · exact (hk'.resolve_left fun h => hr h.1).2.symm
          exact hclose ⟨t, ht, ho⟩
      by_cases hzero : n = 0
      · rw [if_neg (by omega)]
        refine hgoes (k := 0) ?_ hbytes (by omega)
        by_cases hr : Receives g c
        · exact .inl ⟨hr, hzero.symm⟩
        · exact .inr ⟨hr, rfl⟩
      rw [if_pos (by omega), if_neg (by omega)]
      by_cases hr : Receives g c
      · obtain ⟨mp'', db'', hforward, hbytes'⟩ := forward_spec (g := { g with mp := mp' })
          (c := { c with buffer := db' }) (n := n) hbytes (by rw [length_drop]; omega) hr
          (by omega) (by rw [length_drop]; exact hnumber)
        rw [drop_drop] at hbytes'
        have hreset := hbytes'.withHeader 0
        obtain ⟨out, mp₃, db₃, rest', hloop, hb, hp, hi, hclose⟩ :=
          hgoes (.inl ⟨hr, rfl⟩) hreset rfl
        refine ⟨deliver g c ((rest.drop 4).take n) ++ out, mp₃, db₃, rest', ?_, hb, hp, hi,
          fun ht => mem_append_right _ (hclose ht)⟩
        rw [hforward, bind_some]
        simp only [DataBuffer.reset, hloop, bind_some]
        rfl
      · have hreset := hbytes.withHeader 0
        obtain ⟨out, mp₃, db₃, rest', hloop, hb, hp, hi, hclose⟩ :=
          hgoes (.inr ⟨hr, rfl⟩) hreset rfl
        refine ⟨out, mp₃, db₃, rest', ?_, hb, hp, hi, hclose⟩
        rw [forward_none (by exact hr), bind_some]
        exact congrArg (fun r => r.bind some) hloop
    · obtain ⟨mp', db', hread, hbytes, hpending'⟩ :=
        readheader_incomplete h (by decide) hpending hsmall hint hframe
      rw [Nat.cast_ofNat, ← hhs] at hread
      have hnot : ¬Oversized rest := fun ho => hframe (hover rest (.here rest) ho).2
      refine ⟨[], mp', db', rest, ?_, hbytes, hpending', ⟨hframe, hnot⟩, ?_⟩
      · simp only [Gate.dispatchLoop, hread, bind_eq_bind, bind_some]
        rfl
      · rintro ⟨t, hcomes, ho⟩
        cases hcomes with
        | here => exact absurd ho hnot
        | next hf => exact absurd hf hframe

end Dispatch

/-! ## Steps -/

structure HeldBy (g : Gate) (held : ℤ → Bytes) : Prop where
  inStep : GateInStep 4 g held
  incomplete : ∀ id, Incomplete (held id)

def FromSocket (g : Gate) : GateEvent → Prop
  | .data _ buffer => buffer ≠ [] ∧ buffer.length + 2 ^ 24 < 2 ^ 31
  | .accept id ud _ => id = g.listenId ∧ g.lookup ud = none
  | _ => True

def OversizeDone (g : Gate) : GateEvent → Prop
  | .data id buffer => ∀ c held, g.lookup id = some c → HeldBy g held →
      OversizeComplete (Receives g c) (held id ++ buffer)
  | _ => True

def ComesToOversized (g : Gate) (c : GateConnection) (s : Bytes) : Prop :=
  ∃ t, ComesTo (Receives g c) s t ∧ Oversized t

def ClosesOversized (g : Gate) (held : ℤ → Bytes) (e : GateEvent) : Prop :=
  ∃ out g' held', g.step e = some (out, g') ∧ HeldBy g' held' ∧
    ∀ id buffer c, e = .data id buffer → g.lookup id = some c →
      ComesToOversized g c (held id ++ buffer) → .close id ∈ out

section Steps

variable {g : Gate} {held : ℤ → Bytes} {e : GateEvent}

theorem Incomplete.unread {s : Bytes} (h : Incomplete s) :
    (deframe 4 headerLength s).2 = s ∧ (unreadBytes 4 s).length < 2 ^ 24 := by
  refine ⟨by rw [deframe_of_not h.frame], ?_⟩
  unfold unreadBytes
  split
  · omega
  · rw [length_drop]
    by_contra hge
    refine h.frame ⟨by decide, by omega, ?_⟩
    by_contra hmore
    exact h.small ⟨by omega, by omega⟩

/-- Less than 16M are held of a packet. -/
theorem HeldBy.size (h : HeldBy g held) {id : ℤ} {c : GateConnection} (hc : g.lookup id = some c) :
    c.buffer.size < 2 ^ 24 := by
  obtain ⟨contents, -, hwaits⟩ := h.inStep.buffers
  obtain ⟨hrest, hlt⟩ := (h.incomplete id).unread
  rw [(hwaits id c hc).size, hrest]
  exact_mod_cast hlt

theorem HeldBy.data (h : HeldBy g held) {id : ℤ} {c : GateConnection} {buffer : Bytes}
    (hc : g.lookup id = some c) (hsocket : FromSocket g (.data id buffer))
    (hdone : OversizeDone g (.data id buffer)) :
    ∃ out g' held', g.step (.data id buffer) = some (out, g') ∧ HeldBy g' held' ∧
      (ComesToOversized g c (held id ++ buffer) → .close id ∈ out) := by
  obtain ⟨hne, hsmall⟩ := hsocket
  obtain ⟨contents, hholds, hwaits⟩ := h.inStep.buffers
  obtain ⟨hrest, hlt⟩ := (h.incomplete id).unread
  have hbytes := (hwaits id c hc).bytes hc hholds
  have hpending := (hwaits id c hc).pending
  rw [hrest] at hbytes hpending
  obtain ⟨mp', db', hpush, hbytes', hheader⟩ := DataBuffer.push_spec hbytes hne (by omega)
  have hsize := hbytes'.1
  have hfuel : (held id ++ buffer).length < 4 * (db'.size.toNat + 1) := by
    have hpos := length_pos_of_ne_nil hne
    rw [length_append] at hsize ⊢
    unfold unreadBytes at hsize
    split at hsize
    · omega
    · rw [length_drop] at hsize
      omega
  obtain ⟨out, mp'', db'', rest, hloop, hb, hp, hi, hclose⟩ := dispatchLoop_oversize id
    (g := { g with mp := mp' }) (c := { c with buffer := db' }) hbytes' h.inStep.width
    (hpending.push hheader) (by rw [length_append]; omega) (hdone c held hc h) hfuel
  refine ⟨out, _, Function.update held id rest, ?_,
    ⟨h.inStep.put hc hwaits hi.unread.1 hb hp, fun j => ?_⟩, hclose⟩
  · simp only [Gate.step, hc, Gate.dispatchMessage, hpush, bind_eq_bind, bind_some, hloop]
    rfl
  · by_cases hj : j = id
    · subst hj
      rwa [update_self]
    · rw [update_of_ne hj]
      exact h.incomplete j

theorem HeldBy.step (h : HeldBy g held) (hsocket : FromSocket g e) (hdone : OversizeDone g e) :
    ClosesOversized g held e := by
  -- what is no message of a connection is as in a run of clients that send frames
  have hother : FromClients 4 (g, held) e → HasReceiver 4 (g, held) e →
      (∀ id buffer c, e = .data id buffer → g.lookup id ≠ some c) →
      (∀ id, Incomplete (receivedAfter held e id)) → ClosesOversized g held e := by
    intro hclients hreceiver hdata hincomplete
    obtain ⟨out, g', hstep, hin⟩ := h.inStep.step (by decide) hclients hreceiver
    exact ⟨out, g', receivedAfter held e, hstep, ⟨hin, hincomplete⟩,
      fun id buffer c he hc => absurd hc (hdata id buffer c he)⟩
  cases e with
  | data id buffer =>
    cases hc : g.lookup id with
    | none =>
      refine ⟨_, g, held, by simp only [Gate.step, hc]; rfl, h, ?_⟩
      rintro _ _ c ⟨⟩ hc'
      rw [hc] at hc'
      cases hc'
    | some c =>
      obtain ⟨out, g', held', hstep, hheld, hclose⟩ := h.data hc hsocket hdone
      refine ⟨out, g', held', hstep, hheld, ?_⟩
      rintro _ _ d ⟨⟩ hd
      rw [hc] at hd
      cases hd
      exact hclose
  | accept id ud remoteName =>
    refine hother hsocket trivial (by rintro _ _ _ ⟨⟩) fun j => ?_
    by_cases hj : j = ud
    · subst hj
      rw [receivedAfter, update_self]
      exact ⟨fun hf => absurd hf.2.1 (by decide), fun ho => absurd ho.header (by decide)⟩
    · rw [receivedAfter, update_of_ne hj]
      exact h.incomplete j
  | connect | closed | kick | forward | broker | start | closeListen =>
    exact hother trivial trivial (by rintro _ _ _ ⟨⟩) h.incomplete

end Steps

/-! ## Runs -/

def longGate (watchdog clientTag maxConnection : ℕ) (listenId : ℤ) : Machine Gate GateEvent where
  start g := g = Gate.init true watchdog clientTag maxConnection listenId
  next g e := (g.step e).map Prod.snd

/-- SRC: databuffer.h:64-157; service_gate.c:194-214

**Packets that are too large close the connection** in every run in which each of them is
complete with the message that brings its header, or the rest of it; and between messages
less than 16M are held for each connection. -/
theorem oversize_closes {watchdog clientTag maxConnection : ℕ} {listenId : ℤ} {g : Gate}
    (h : (longGate watchdog clientTag maxConnection listenId).Reach
      (fun g e => FromSocket g e ∧ OversizeDone g e) g) :
    (∀ id c, g.lookup id = some c → c.buffer.size < 2 ^ 24) ∧
      ∀ e, FromSocket g e → OversizeDone g e →
        ∃ held, HeldBy g held ∧ ClosesOversized g held e := by
  obtain ⟨held, hheld⟩ : ∃ held, HeldBy g held := by
    refine h.invariant (I := fun g => ∃ held, HeldBy g held) ?_ ?_
    · rintro g rfl
      refine ⟨fun _ => [], ⟨rfl, nodup_nil, fun _ => [], NodePool.holds_empty,
        fun id c hc => by cases hc⟩, fun _ => ?_⟩
      exact ⟨fun hf => absurd hf.2.1 (by decide), fun ho => absurd ho.header (by decide)⟩
    · rintro g e g' ⟨held, hheld⟩ ⟨hsocket, hdone⟩ hnext
      obtain ⟨out, g'', held', hstep, hheld', -⟩ := hheld.step hsocket hdone
      simp only [longGate, hstep, map_some, Option.some.injEq] at hnext
      exact ⟨held', hnext ▸ hheld'⟩
  exact ⟨fun id c hc => hheld.size hc,
    fun e hsocket hdone => ⟨held, hheld, hheld.step hsocket hdone⟩⟩

section Witness

variable {g : Gate} {held : ℤ → Bytes}

/-- A buffer without bytes and without a header holds nothing of a packet. -/
theorem HeldBy.nothing (h : HeldBy g held) {id : ℤ} {c : GateConnection}
    (hc : g.lookup id = some c) (hsize : c.buffer.size = 0) (hheader : c.buffer.header = 0) :
    held id = [] := by
  obtain ⟨contents, -, hwaits⟩ := h.inStep.buffers
  obtain ⟨hrest, -⟩ := (h.incomplete id).unread
  have hnone := (hwaits id c hc).size
  have hpending := (hwaits id c hc).pending
  rw [hrest] at hnone hpending
  have hbytes : unreadBytes 4 (held id) = [] := length_eq_zero_iff.mp (by omega)
  obtain ⟨-, hheld⟩ | ⟨head, -, hpos, hhead, -⟩ := hpending
  · rw [hheld, hbytes]
  · omega

theorem ComesTo.of_oversized {receives : Prop} {s t : Bytes} (hs : Oversized s)
    (h : ComesTo receives s t) : t = s := by
  cases h with
  | here => rfl
  | next _ hsmall => exact absurd hs.size (not_le.mpr hsmall)

theorem ComesTo.of_short {receives : Prop} {s t : Bytes} (hs : s.length < 4)
    (h : ComesTo receives s t) : t = s := by
  cases h with
  | here => rfl
  | next hframe => exact absurd hframe.2.1 (not_le.mpr hs)

theorem take_header_16M (body : Bytes) : ([1, 0, 0, 0] ++ body).take 4 = [1, 0, 0, 0] :=
  take_left' rfl

theorem oversized_16M (body : Bytes) : Oversized ([1, 0, 0, 0] ++ body) := by
  refine ⟨?_, ?_⟩
  · rw [length_append]
    exact Nat.le_add_right _ _
  · rw [take_header_16M]
    decide

theorem oversizeComplete_16M (receives : Prop) {body : Bytes} (hbody : body.length = 2 ^ 24) :
    OversizeComplete receives ([1, 0, 0, 0] ++ body) := by
  have hlength : ([1, 0, 0, 0] ++ body).length = 4 + 2 ^ 24 := by
    rw [length_append, hbody]
    rfl
  intro t ht _
  obtain rfl := ht.of_oversized (oversized_16M body)
  rw [HasFrame, take_header_16M, hlength]
  decide

theorem oversizeComplete_small (receives : Prop) : OversizeComplete receives [0, 0, 0, 1, 42] := by
  intro t ht ho
  cases ht with
  | here => exact absurd ho.size (by decide)
  | next _ _ hk ht =>
    obtain ⟨-, rfl⟩ | ⟨-, rfl⟩ := hk
    · obtain rfl := ht.of_short (by decide)
      exact absurd ho.header (by decide)
    · obtain rfl := ht.of_short (by decide)
      exact absurd ho.header (by decide)

/-- The connection 5 of the gate, of which nothing is held. -/
def EmptyFive (g : Gate) : Prop :=
  ∃ c, g.lookup 5 = some c ∧ c.buffer.size = 0 ∧ c.buffer.header = 0

theorem EmptyFive.done (h : EmptyFive g) {buffer : Bytes}
    (hbuffer : ∀ receives, OversizeComplete receives buffer) : OversizeDone g (.data 5 buffer) := by
  intro c' held hc' hheld
  obtain ⟨c, hc, hsize, hheader⟩ := h
  rw [hheld.nothing hc hsize hheader]
  exact hbuffer _

theorem emptyFive_of (h : (g.lookup 5).map (fun c => (c.buffer.size, c.buffer.header)) =
    some (0, 0)) : EmptyFive g := by
  obtain ⟨c, hc, heq⟩ := map_eq_some_iff.mp h
  obtain ⟨hsize, hheader⟩ := Prod.mk.inj heq
  exact ⟨c, hc, hsize, hheader⟩

/-- A connection sends a small packet, and then one of 16M with one message. -/
theorem oversize_closes_16M : ∃ g out g',
    (longGate 7 0 8 3).run (Gate.init true 7 0 8 3) [.accept 3 5 [], .data 5 [0, 0, 0, 1, 42]] =
      some g ∧
    g.step (.data 5 ([1, 0, 0, 0] ++ replicate (2 ^ 24) 7)) = some (out, g') ∧ .close 5 ∈ out := by
  have haccept : ∃ g₁, (longGate 7 0 8 3).next (Gate.init true 7 0 8 3) (.accept 3 5 []) =
      some g₁ := ⟨_, rfl⟩
  obtain ⟨g₁, hg₁⟩ := haccept
  have hempty₁ : EmptyFive g₁ := by
    cases hg₁
    exact emptyFive_of (by decide +kernel)
  obtain ⟨g₂, hg₂, hmap⟩ : ∃ g₂, (longGate 7 0 8 3).next g₁ (.data 5 [0, 0, 0, 1, 42]) = some g₂ ∧
      (g₂.lookup 5).map (fun c => (c.buffer.size, c.buffer.header)) = some (0, 0) := by
    cases hg₁
    exact map_eq_some_iff.mp (by decide +kernel)
  have hempty₂ := emptyFive_of hmap
  have hopen : FromSocket (Gate.init true 7 0 8 3) (.accept 3 5 []) ∧
      OversizeDone (Gate.init true 7 0 8 3) (.accept 3 5 []) := ⟨⟨rfl, rfl⟩, trivial⟩
  have hsmall : FromSocket g₁ (.data 5 [0, 0, 0, 1, 42]) ∧
      OversizeDone g₁ (.data 5 [0, 0, 0, 1, 42]) :=
    ⟨⟨nofun, by decide⟩, hempty₁.done oversizeComplete_small⟩
  have hlarge : FromSocket g₂ (.data 5 ([1, 0, 0, 0] ++ replicate (2 ^ 24) 7)) := by
    refine ⟨append_ne_nil_of_left_ne_nil (cons_ne_nil _ _) _, ?_⟩
    rw [length_append, length_replicate]
    decide
  have hdone := hempty₂.done fun receives =>
    oversizeComplete_16M receives (length_replicate (n := 2 ^ 24) (a := (7 : UInt8)))
  have hreach : (longGate 7 0 8 3).Reach (fun g e => FromSocket g e ∧ OversizeDone g e) g₂ :=
    .step (.step (.start rfl) hopen hg₁) hsmall hg₂
  obtain ⟨held, hheld, out, g', held', hstep, -, hclose⟩ :=
    (oversize_closes hreach).2 _ hlarge hdone
  obtain ⟨c, hc, hsize, hheader⟩ := hempty₂
  have hrun : (longGate 7 0 8 3).run (Gate.init true 7 0 8 3)
      [.accept 3 5 [], .data 5 [0, 0, 0, 1, 42]] = some g₂ := by
    simp [Machine.run, hg₁, hg₂]
  refine ⟨g₂, out, g', hrun, hstep, hclose 5 _ c rfl hc ?_⟩
  rw [hheld.nothing hc hsize hheader]
  exact ⟨_, .here _, oversized_16M _⟩

end Witness

/-- **The lengths 2^31 and 16M do not close the connection**: the gate waits for their
packets. -/
theorem oversized_header_waits :
    ((Gate.init true 7 0 8 3).run [.accept 3 5 [], .data 5 [0x80, 0, 0, 0], .data 5 [1, 2, 3]]).map
      (fun r => (r.1.drop 2, r.2.conn.map fun c => (c.2.buffer.header, c.2.buffer.size))) =
        some ([], [(-2 ^ 31, 3)]) ∧
    ((Gate.init true 7 0 8 3).run [.accept 3 5 [], .data 5 [1, 0, 0, 0]]).map
      (fun r => (r.1.drop 2, r.2.conn.map fun c => c.2.buffer.header)) = some ([], [2 ^ 24]) := by
  decide +kernel

end Skynet.Analysis
