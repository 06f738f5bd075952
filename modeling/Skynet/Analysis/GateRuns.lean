import Skynet.Analysis.GateFrames

/-!
# Runs of the gate

The gate under any order of messages, with what each connection has received since it was
accepted as a record of the run.
-/

namespace Skynet.Analysis

open Library Model Function List Prod Option

/-! ## The table of connections -/

section Table

variable {conn : List (ℤ × GateConnection)} {g : Gate} {id j : ℤ} {c d : GateConnection}

def connOf (conn : List (ℤ × GateConnection)) (id : ℤ) : Option GateConnection :=
  (conn.find? fun c => c.1 = id).map snd

theorem lookup_eq (g : Gate) (id : ℤ) : g.lookup id = connOf g.conn id := rfl

theorem connOf_cons : connOf ((id, c) :: conn) j = if id = j then some c else connOf conn j := by
  unfold connOf
  by_cases h : id = j <;> simp [h]

theorem connOf_eq_none_iff : connOf conn id = none ↔ id ∉ conn.map fst := by
  unfold connOf
  rw [map_eq_none_iff, find?_eq_none, List.mem_map]
  constructor
  · rintro h ⟨e, he, rfl⟩
    exact h e he (by simp)
  · intro h e he hid
    exact h ⟨e, he, by simpa using hid⟩

theorem connOf_replaceF (h : connOf conn id = some d) :
    connOf (conn.replaceF fun e => if e.1 = id then some (id, c) else none) j =
      if id = j then some c else connOf conn j := by
  induction conn with
  | nil => simp [connOf] at h
  | cons e conn ih =>
    obtain ⟨k, e⟩ := e
    rw [connOf_cons] at h
    by_cases hk : k = id
    · subst hk
      simp only [replaceF, if_true]
      rw [connOf_cons, connOf_cons]
      by_cases hj : k = j <;> simp [hj]
    · rw [if_neg hk] at h
      simp only [replaceF, hk, if_false]
      rw [connOf_cons, connOf_cons, ih h]
      by_cases hj : k = j
      · subst hj
        simp [Ne.symm hk]
      · rw [if_neg hj, if_neg hj]

theorem connOf_eraseP (h : (conn.map fst).Nodup) :
    connOf (conn.eraseP fun e => e.1 = id) j = if id = j then none else connOf conn j := by
  induction conn with
  | nil => simp [connOf]
  | cons e conn ih =>
    obtain ⟨k, e⟩ := e
    obtain ⟨hk, hnodup⟩ := nodup_cons.mp h
    by_cases hid : k = id
    · subst hid
      rw [eraseP_cons_of_pos (by simp), connOf_cons]
      by_cases hj : k = j
      · subst hj
        rw [if_pos rfl, connOf_eq_none_iff]
        exact hk
      · rw [if_neg hj, if_neg hj]
    · rw [eraseP_cons_of_neg (by simpa using hid), connOf_cons, connOf_cons, ih hnodup]
      by_cases hj : k = j
      · subst hj
        simp [Ne.symm hid]
      · rw [if_neg hj, if_neg hj]

theorem lookup_setConnection (h : g.lookup id = some d) :
    (g.setConnection id c).lookup j = if id = j then some c else g.lookup j :=
  connOf_replaceF h

theorem keys_setConnection : (g.setConnection id c).conn.map fst = g.conn.map fst := by
  have hkeys : ∀ conn : List (ℤ × GateConnection),
      (conn.replaceF fun e => if e.1 = id then some (id, c) else none).map fst = conn.map fst := by
    intro conn
    induction conn with
    | nil => rfl
    | cons e conn ih =>
      by_cases hk : e.1 = id
      · simp [replaceF, hk]
      · simp only [replaceF, hk, if_false, map_cons, ih]
  exact hkeys g.conn

theorem keys_remove (h : (g.conn.map fst).Nodup) : ((g.remove id).conn.map fst).Nodup :=
  h.sublist (eraseP_sublist.map _)

theorem lookup_remove (h : (g.conn.map fst).Nodup) :
    (g.remove id).lookup j = if id = j then none else g.lookup j :=
  connOf_eraseP h

end Table

/-! ## In step -/

def receivedAfter (received : ℤ → Bytes) : GateEvent → ℤ → Bytes
  | .data id buffer => update received id (received id ++ buffer)
  | .accept _ ud _ => update received ud []
  | _ => received

def completedBy (hs : ℕ) (received buffer : Bytes) : List Bytes :=
  (deframe hs headerLength (received ++ buffer)).1.drop (deframe hs headerLength received).1.length

def gateMachine (long : Bool) (watchdog clientTag maxConnection : ℕ) (listenId : ℤ) :
    Machine (Gate × (ℤ → Bytes)) GateEvent where
  start s := s = (Gate.init long watchdog clientTag maxConnection listenId, fun _ => [])
  next s e := (s.1.step e).map fun r => (r.2, receivedAfter s.2 e)

def headerWidth (long : Bool) : ℕ := if long then 4 else 2

/-- Messages as the socket server sends them, from clients that send frames: no message is
empty, and a socket is announced by the one that listens, once. -/
def FromClients (hs : ℕ) (s : Gate × (ℤ → Bytes)) : GateEvent → Prop
  | .data id buffer => buffer ≠ [] ∧ ((s.1.lookup id).isSome → Framed hs (s.2 id ++ buffer))
  | .accept id ud _ => id = s.1.listenId ∧ s.1.lookup ud = none
  | _ => True

def HasReceiver (hs : ℕ) (s : Gate × (ℤ → Bytes)) : GateEvent → Prop
  | .data id buffer => ∀ c, s.1.lookup id = some c → c.buffer.size + buffer.length < 2 ^ 31 ∧
      ((∃ p ∈ completedBy hs (s.2 id) buffer, p ≠ []) → Receives s.1 c)
  | _ => True

def bufferLists (g : Gate) (id : ℤ) : HeadTail ℕ :=
  ((g.lookup id).map fun c => c.buffer.list).getD HeadTail.empty

structure Waits (hs : ℕ) (db : DataBuffer) (cs : List DataMessage) (received : Bytes) :
    Prop where
  size : db.size = (unreadBytes hs (deframe hs headerLength received).2).length
  stored : ∃ off : ℕ, db.offset = off ∧
    Stored DataMessage.buffer off cs (unreadBytes hs (deframe hs headerLength received).2)
  sized : ∀ m ∈ cs, SizedMessage m
  pending : Pending hs db (unreadBytes hs (deframe hs headerLength received).2)
    (deframe hs headerLength received).2

structure GateInStep (hs : ℕ) (g : Gate) (received : ℤ → Bytes) : Prop where
  width : g.headerSize = hs
  keys : (g.conn.map fst).Nodup
  buffers : ∃ contents, g.mp.Holds (bufferLists g) contents ∧
    ∀ id c, g.lookup id = some c → Waits hs c.buffer (contents id) (received id)

section Steps

variable {hs : ℕ} {g : Gate} {received : ℤ → Bytes}

theorem completedBy_eq (hs : ℕ) (s t : Bytes) :
    completedBy hs s t = (deframe hs headerLength ((deframe hs headerLength s).2 ++ t)).1 := by
  rw [completedBy, deframe_append, drop_left]

theorem Pending.push {db db' : DataBuffer} {bytes rest t : Bytes}
    (h : Pending hs db bytes rest) (hheader : db'.header = db.header) :
    Pending hs db' (bytes ++ t) (rest ++ t) := by
  rcases h with ⟨hzero, rfl⟩ | ⟨head, hlen, hpos, heq, rfl⟩
  · exact .inl ⟨hheader.trans hzero, rfl⟩
  · exact .inr ⟨head, hlen, hpos, hheader.trans heq, append_assoc _ _ _⟩

theorem bufferLists_setConnection {id : ℤ} {c d : GateConnection} (h : g.lookup id = some d)
    (mp : NodePool DataMessage) :
    bufferLists (Gate.setConnection { g with mp := mp } id c) =
      update (bufferLists g) id c.buffer.list := by
  have hlookup : ∀ j, (Gate.setConnection { g with mp := mp } id c).lookup j =
      if id = j then some c else g.lookup j := fun j => lookup_setConnection (d := d) h
  funext j
  unfold bufferLists
  rw [hlookup]
  by_cases hj : j = id
  · subst hj
    simp
  · rw [update_of_ne hj, if_neg (Ne.symm hj)]

theorem Waits.bytes {id : ℤ} {c : GateConnection} {contents : ℤ → List DataMessage}
    (h : Waits hs c.buffer (contents id) (received id)) (hc : g.lookup id = some c)
    (hholds : g.mp.Holds (bufferLists g) contents) :
    BytesOf g.mp (bufferLists g) contents id c.buffer
      (unreadBytes hs (deframe hs headerLength (received id)).2) := by
  have hlist : bufferLists g id = c.buffer.list := by
    rw [bufferLists, hc]
    rfl
  refine ⟨h.size, contents id, ?_, h.stored, h.sized⟩
  rw [← hlist, update_eq_self, update_eq_self]
  exact hholds

/-- The buffer of one connection is replaced, and the others stay in step. -/
theorem GateInStep.put {id : ℤ} {c : GateConnection} {contents : ℤ → List DataMessage}
    {mp : NodePool DataMessage} {db : DataBuffer} {r rest : Bytes}
    (h : GateInStep hs g received) (hc : g.lookup id = some c)
    (hwaits : ∀ j d, g.lookup j = some d → Waits hs d.buffer (contents j) (received j))
    (hrest : (deframe hs headerLength r).2 = rest)
    (hbytes : BytesOf mp (bufferLists g) contents id db (unreadBytes hs rest))
    (hpending : Pending hs db (unreadBytes hs rest) rest) :
    GateInStep hs (Gate.setConnection { g with mp := mp } id { c with buffer := db })
      (update received id r) := by
  subst hrest
  refine ⟨h.width, by rw [keys_setConnection]; exact h.keys, ?_⟩
  obtain ⟨hsize, cs, hblocks⟩ := hbytes
  refine ⟨update contents id cs, ?_, fun j d hd => ?_⟩
  · rw [bufferLists_setConnection hc]
    exact hblocks.holds
  · have hlookup : (Gate.setConnection { g with mp := mp } id { c with buffer := db }).lookup j =
      if id = j then some { c with buffer := db } else g.lookup j := lookup_setConnection hc
    rw [hlookup] at hd
    by_cases hj : j = id
    · subst hj
      rw [if_pos rfl, Option.some.injEq] at hd
      subst hd
      rw [update_self, update_self]
      exact ⟨hsize, hblocks.stored, hblocks.sized, hpending⟩
    · rw [if_neg (Ne.symm hj)] at hd
      rw [update_of_ne hj, update_of_ne hj]
      exact hwaits j d hd

theorem GateInStep.data (h : GateInStep hs g received) (hpos : 0 < hs) {id : ℤ} {c : GateConnection}
    {buffer : Bytes} (hc : g.lookup id = some c) (hne : buffer ≠ [])
    (hframed : Framed hs (received id ++ buffer))
    (hsmall : c.buffer.size + buffer.length < 2 ^ 31)
    (hreceives : (∃ p ∈ completedBy hs (received id) buffer, p ≠ []) → Receives g c) :
    ∃ g', g.step (.data id buffer) =
        some ((completedBy hs (received id) buffer).flatMap (deliver g c), g') ∧
      GateInStep hs g' (receivedAfter received (.data id buffer)) := by
  obtain ⟨hwidth, hkeys, contents, hholds, hwaits⟩ := h
  have hw := hwaits id c hc
  have hbytes := hw.bytes hc hholds
  have hlen : (unreadBytes hs (deframe hs headerLength (received id)).2).length + buffer.length <
      2 ^ 31 := by
    have hsize := hw.size
    omega
  obtain ⟨mp', db', hpush, hbytes', hheader⟩ := DataBuffer.push_spec hbytes hne hlen
  rw [completedBy_eq] at hreceives ⊢
  have hfuel : (unreadBytes hs (deframe hs headerLength (received id)).2 ++ buffer).length <
      db'.size.toNat + 1 := by
    have hsize := hbytes'.1
    omega
  obtain ⟨mp'', db'', hloop, hbytes'', hpending⟩ := dispatchLoop_spec id
    (g := { g with mp := mp' }) (c := { c with buffer := db' }) hbytes' hpos hwidth
    (hw.pending.push hheader) (by rw [length_append]; exact hlen)
    (hframed.below16M hpos).rest hreceives hfuel
  have hrest : (deframe hs headerLength (received id ++ buffer)).2 =
      (deframe hs headerLength ((deframe hs headerLength (received id)).2 ++ buffer)).2 := by
    rw [deframe_append]
  refine ⟨_, ?_, GateInStep.put ⟨hwidth, hkeys, contents, hholds, hwaits⟩ hc hwaits hrest hbytes''
    hpending⟩
  simp only [Gate.step, hc, Gate.dispatchMessage, hpush, bind_eq_bind, bind_some, hloop]
  rfl

theorem GateInStep.closed (h : GateInStep hs g received) (id : ℤ) :
    ∃ out g', g.step (.closed id) = some (out, g') ∧ GateInStep hs g' received := by
  have hin := h
  obtain ⟨hwidth, hkeys, contents, hholds, hwaits⟩ := h
  cases hc : g.lookup id with
  | none => exact ⟨[], g, by simp only [Gate.step, hc], hin⟩
  | some c =>
    have hbytes := (hwaits id c hc).bytes hc hholds
    obtain ⟨mp', hclear, hholds'⟩ := DataBuffer.clear_spec hbytes
    obtain ⟨g', hg'⟩ : ∃ g' : Gate, g' = { g.remove id with mp := mp' } := ⟨_, rfl⟩
    have hlookup : ∀ j, g'.lookup j = if id = j then none else g.lookup j := by
      intro j
      rw [hg']
      exact lookup_remove hkeys
    refine ⟨g'.report (Gate.decimal id ++ " close".toList), g', ?_, ?_, ?_,
      update contents id [], ?_, ?_⟩
    · simp only [Gate.step, hc, hclear, hg']
      rfl
    · rw [hg']
      exact hwidth
    · rw [hg']
      exact keys_remove hkeys
    · have hlists : bufferLists g' = update (bufferLists g) id HeadTail.empty := by
        funext j
        unfold bufferLists
        rw [hlookup]
        by_cases hj : j = id
        · subst hj
          simp
        · rw [update_of_ne hj, if_neg (Ne.symm hj)]
      rw [hlists, hg']
      exact hholds'
    · intro j d hd
      rw [hlookup] at hd
      by_cases hj : id = j
      · rw [if_pos hj] at hd
        cases hd
      · rw [if_neg hj] at hd
        rw [update_of_ne (Ne.symm hj)]
        exact hwaits j d hd

theorem GateInStep.accept (h : GateInStep hs g received) {id ud : ℤ} {remoteName : List Char}
    (hlisten : id = g.listenId) (hfresh : g.lookup ud = none) :
    ∃ out g', g.step (.accept id ud remoteName) = some (out, g') ∧
      GateInStep hs g' (receivedAfter received (.accept id ud remoteName)) := by
  obtain ⟨hwidth, hkeys, contents, hholds, hwaits⟩ := h
  have hsame : ∀ j d, g.lookup j = some d → receivedAfter received (.accept id ud remoteName) j =
      received j := by
    intro j d hd
    apply update_of_ne
    rintro rfl
    rw [hfresh] at hd
    cases hd
  by_cases hfull : g.conn.length = g.maxConnection
  · refine ⟨_, g, by
      simp only [Gate.step, hlisten, hfull, not_true, ne_eq, if_true, if_false]
      rfl,
      hwidth, hkeys, contents, hholds, ?_⟩
    intro j d hd
    rw [hsame j d hd]
    exact hwaits j d hd
  · refine ⟨_, { g with conn := (ud, ⟨ud, 0, 0, .zero⟩) :: g.conn }, by
      simp only [Gate.step, hlisten, hfull, not_true, ne_eq, if_false]
      rfl, hwidth, ?_, contents, ?_, ?_⟩
    · exact nodup_cons.mpr ⟨connOf_eq_none_iff.mp hfresh, hkeys⟩
    · have hlists : bufferLists { g with conn := (ud, ⟨ud, 0, 0, .zero⟩) :: g.conn } =
          bufferLists g := by
        funext j
        unfold bufferLists
        rw [lookup_eq, connOf_cons]
        by_cases hj : ud = j
        · subst hj
          rw [if_pos rfl, hfresh]
          rfl
        · rw [if_neg hj, lookup_eq]
      rw [hlists]
      exact hholds
    · intro j d hd
      rw [lookup_eq, connOf_cons] at hd
      by_cases hj : ud = j
      · subst hj
        rw [if_pos rfl, Option.some.injEq] at hd
        subst hd
        have hempty : contents ud = [] := by
          have hshows := hholds.shows ud
          have hnone : bufferLists g ud = HeadTail.empty := by
            rw [bufferLists, hfresh]
            rfl
          rw [hnone] at hshows
          cases hcs : contents ud with
          | nil => rfl
          | cons m cs =>
            rw [hcs] at hshows
            obtain ⟨a, ha, -⟩ := hshows
            cases ha
        have hnil : unreadBytes hs [] = [] := by
          unfold unreadBytes
          split <;> simp
        rw [receivedAfter, update_self, hempty]
        refine ⟨?_, ⟨0, rfl, rfl, ?_⟩, by simp, ?_⟩
        · rw [deframe_nil, hnil]
          rfl
        · rw [deframe_nil, hnil]
        · rw [deframe_nil, hnil]
          exact .inl ⟨rfl, rfl⟩
      · rw [if_neg hj] at hd
        rw [hsame j d hd]
        exact hwaits j d hd

theorem GateInStep.congr (h : GateInStep hs g received) {g' : Gate} (hwidth : g'.headerSize = g.headerSize)
    (hkeys : g'.conn.map fst = g.conn.map fst) (hmp : g'.mp = g.mp)
    (hbuffer : ∀ j, (g'.lookup j).map GateConnection.buffer =
      (g.lookup j).map GateConnection.buffer) : GateInStep hs g' received := by
  obtain ⟨hw, hk, contents, hholds, hwaits⟩ := h
  have hlists : bufferLists g' = bufferLists g := by
    funext j
    have hj := congrArg (Option.map DataBuffer.list) (hbuffer j)
    rw [Option.map_map, Option.map_map] at hj
    exact congrArg (fun o => Option.getD o HeadTail.empty) hj
  refine ⟨hwidth.trans hw, by rw [hkeys]; exact hk, contents, by rw [hmp, hlists]; exact hholds, ?_⟩
  intro j d hd
  have hj := hbuffer j
  rw [hd] at hj
  cases hd' : g.lookup j with
  | none =>
    rw [hd'] at hj
    cases hj
  | some d' =>
    rw [hd', map_some, map_some, Option.some.injEq] at hj
    rw [hj]
    exact hwaits j d' hd'

/-- Every message that the socket server and the clients send is taken, and the gate stays
in step. -/
theorem GateInStep.step (h : GateInStep hs g received) (hpos : 0 < hs) {e : GateEvent}
    (hclients : FromClients hs (g, received) e) (hreceiver : HasReceiver hs (g, received) e) :
    ∃ out g', g.step e = some (out, g') ∧ GateInStep hs g' (receivedAfter received e) := by
  cases e with
  | data id buffer =>
    cases hc : g.lookup id with
    | none =>
      refine ⟨_, g, by simp only [Gate.step, hc]; rfl, h.width, h.keys, ?_⟩
      obtain ⟨contents, hholds, hwaits⟩ := h.buffers
      refine ⟨contents, hholds, fun j d hd => ?_⟩
      have hj : j ≠ id := by
        rintro rfl
        rw [hc] at hd
        cases hd
      rw [receivedAfter, update_of_ne hj]
      exact hwaits j d hd
    | some c =>
      obtain ⟨hsmall, hreceives⟩ := hreceiver c hc
      have hsome : (g.lookup id).isSome := by
        rw [hc]
        rfl
      obtain ⟨g', hstep, hin⟩ := h.data hpos hc hclients.1 (hclients.2 hsome) hsmall hreceives
      exact ⟨_, g', hstep, hin⟩
  | connect id =>
    by_cases hid : id = g.listenId
    · exact ⟨_, g, if_pos hid, h⟩
    · cases hc : g.lookup id with
      | none => exact ⟨_, g, by simp only [Gate.step, hid, if_false, hc]; rfl, h⟩
      | some c => exact ⟨_, g, by simp only [Gate.step, hid, if_false, hc]; rfl, h⟩
  | closed id => exact h.closed id
  | accept id ud remoteName => exact h.accept hclients.1 hclients.2
  | kick uid =>
    cases hc : g.lookup uid with
    | none => exact ⟨_, g, by simp only [Gate.step, hc]; rfl, h⟩
    | some c => exact ⟨_, g, by simp only [Gate.step, hc]; rfl, h⟩
  | forward id agent client =>
    cases hc : g.lookup id with
    | none => exact ⟨_, g, by simp only [Gate.step, hc]; rfl, h⟩
    | some c =>
      refine ⟨[], g.setConnection id { c with agent := agent, client := client }, ?_,
        h.congr rfl keys_setConnection rfl fun j => ?_⟩
      · simp only [Gate.step, hc]
      rw [lookup_setConnection hc]
      by_cases hj : id = j
      · subst hj
        rw [if_pos rfl, hc]
        rfl
      · rw [if_neg hj]
  | broker handle => exact ⟨_, _, rfl, h.congr rfl rfl rfl fun _ => rfl⟩
  | start uid =>
    cases hc : g.lookup uid with
    | none => exact ⟨_, g, by simp only [Gate.step, hc]; rfl, h⟩
    | some c => exact ⟨_, g, by simp only [Gate.step, hc]; rfl, h⟩
  | closeListen =>
    by_cases hid : g.listenId ≥ 0
    · exact ⟨_, _, if_pos hid, h.congr rfl rfl rfl fun _ => rfl⟩
    · exact ⟨_, g, if_neg hid, h⟩

end Steps

section Runs

variable {long : Bool} {watchdog clientTag maxConnection : ℕ} {listenId : ℤ}
  {s : Gate × (ℤ → Bytes)} {e : GateEvent}

theorem headerWidth_pos (long : Bool) : 0 < headerWidth long := by
  cases long <;> decide

theorem gateInStep_of_reach (h : (gateMachine long watchdog clientTag maxConnection listenId).Reach
      (fun s e => FromClients (headerWidth long) s e ∧ HasReceiver (headerWidth long) s e) s) :
    GateInStep (headerWidth long) s.1 s.2 := by
  refine h.invariant (I := fun s => GateInStep (headerWidth long) s.1 s.2) ?_ ?_
  · rintro s rfl
    refine ⟨?_, nodup_nil, fun _ => [], NodePool.holds_empty, fun id c hc => by cases hc⟩
    cases long <;> rfl
  · intro s e s' hin hok hnext
    obtain ⟨out, g', hstep, hin'⟩ := hin.step (headerWidth_pos long) hok.1 hok.2
    simp only [gateMachine, hstep, map_some, Option.some.injEq] at hnext
    subst hnext
    exact hin'

/-- In every run in which the payloads that are complete have a receiver, every message is
taken, a message of a connection makes the gate pass on exactly the payloads that it
completes, which are the next ones of the client's frames, and each buffer has the size of
what is unread. -/
theorem gate_in_step (h : (gateMachine long watchdog clientTag maxConnection listenId).Reach
      (fun s e => FromClients (headerWidth long) s e ∧ HasReceiver (headerWidth long) s e) s)
    (hclients : FromClients (headerWidth long) s e)
    (hreceiver : HasReceiver (headerWidth long) s e) :
    ∃ out g', s.1.step e = some (out, g') ∧
      (∀ id buffer c, e = .data id buffer → s.1.lookup id = some c →
        out = (completedBy (headerWidth long) (s.2 id) buffer).flatMap (deliver s.1 c) ∧
        ∀ payloads, (∀ p ∈ payloads, p.length < 256 ^ headerWidth long) →
          s.2 id ++ buffer <+: (payloads.map (encodeFrame (headerWidth long))).flatten →
          (deframe (headerWidth long) headerLength (s.2 id)).1 ++
            completedBy (headerWidth long) (s.2 id) buffer <+: payloads) ∧
      ∀ id c, g'.lookup id = some c → c.buffer.size = (unreadBytes (headerWidth long)
          (deframe (headerWidth long) headerLength (receivedAfter s.2 e id)).2).length := by
  have hin := gateInStep_of_reach h
  have hpos := headerWidth_pos long
  obtain ⟨out, g', hstep, hin'⟩ := hin.step hpos hclients hreceiver
  refine ⟨out, g', hstep, ?_, ?_⟩
  · rintro id buffer c rfl hc
    obtain ⟨hsmall, hreceives⟩ := hreceiver c hc
    have hsome : (s.1.lookup id).isSome := by
      rw [hc]
      rfl
    obtain ⟨g'', hdata, -⟩ := hin.data hpos hc hclients.1 (hclients.2 hsome) hsmall hreceives
    rw [hdata, Option.some.injEq, Prod.mk.injEq] at hstep
    refine ⟨hstep.1.symm, fun payloads hfit hprefix => ?_⟩
    have hfirst := deframe_prefix hpos hfit hprefix
    rwa [deframe_append, ← completedBy_eq] at hfirst
  · intro id c hc
    obtain ⟨contents, -, hwaits⟩ := hin'.buffers
    exact (hwaits id c hc).size

end Runs

def gateWithClient (watchdog : ℕ) : Gate :=
  { Gate.init false watchdog 0 8 3 with conn := [(5, ⟨5, 0, 0, .zero⟩)] }

theorem reach_gateWithClient (watchdog : ℕ) :
    (gateMachine false watchdog 0 8 3).Reach
      (fun s e => FromClients 2 s e ∧ HasReceiver 2 s e) (gateWithClient watchdog, fun _ => []) := by
  have hstart : (gateMachine false watchdog 0 8 3).Reach
      (fun s e => FromClients 2 s e ∧ HasReceiver 2 s e)
      (Gate.init false watchdog 0 8 3, fun _ => []) := .start rfl
  refine hstart.step (a := .accept 3 5 []) ⟨⟨rfl, rfl⟩, trivial⟩ ?_
  have hreceived : receivedAfter (fun _ => []) (.accept 3 5 []) = fun _ => [] :=
    update_eq_self 5 fun _ : ℤ => ([] : Bytes)
  have hstep : (Gate.init false watchdog 0 8 3).step (.accept 3 5 []) =
      some (_, gateWithClient watchdog) := rfl
  simp only [gateMachine, hstep, hreceived, map_some]

/-- A frame and the header of the next one, for the watchdog. -/
theorem gate_in_step_frame :
    ∃ out g', (gateWithClient 7).step (.data 5 [0, 1, 65, 0, 2]) = some (out, g') ∧
      (∀ id buffer c, GateEvent.data 5 [0, 1, 65, 0, 2] = .data id buffer →
        (gateWithClient 7).lookup id = some c →
        out = (completedBy 2 [] buffer).flatMap (deliver (gateWithClient 7) c) ∧
        ∀ payloads, (∀ p ∈ payloads, p.length < 256 ^ 2) →
          [] ++ buffer <+: (payloads.map (encodeFrame 2)).flatten →
          (deframe 2 headerLength []).1 ++ completedBy 2 [] buffer <+: payloads) ∧
      ∀ id c, g'.lookup id = some c → c.buffer.size = (unreadBytes 2 (deframe 2 headerLength
          (receivedAfter (fun _ => []) (.data 5 [0, 1, 65, 0, 2]) id)).2).length := by
  refine gate_in_step (reach_gateWithClient 7) ⟨by simp, fun _ => ⟨[[65], [0, 0]], by simp [headerWidth], ?_⟩⟩ ?_
  · exact ⟨[0, 0], by decide⟩
  · intro c hc
    have hc' : c = ⟨5, 0, 0, .zero⟩ := (Option.some.inj hc).symm
    subst hc'
    exact ⟨by decide, fun _ => ⟨by decide, .inr (.inr (by decide))⟩⟩

/-- Without a receiver the payload `0, 1` is taken for a header, and the broker that comes
later gets a byte of the next header for a payload. -/
theorem unread_payload_is_header :
    (((gateWithClient 0).run [.data 5 [0, 2, 0, 1], .broker 9, .data 5 [0, 1, 66]]).map
      fun r => r.1) = some [.send 0 9 0x10003 5 [0]] ∧
    (deframe 2 headerLength [0, 2, 0, 1, 0, 1, 66]).1 = [[0, 1], [66]] := by
  constructor
  · with_unfolding_all rfl
  · have hfit : ∀ p ∈ ([[0, 1], [66]] : List Bytes), p.length < 256 ^ 2 := by decide
    exact congrArg fst (deframe_encodeFrame (by decide) hfit)

end Skynet.Analysis
