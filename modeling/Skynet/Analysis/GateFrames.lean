import Skynet.Library.Frames
import Skynet.Library.Machine
import Skynet.Analysis.GateBuffers

/-!
# The gate stays in step with its clients

Where every payload that is complete has a receiver, the gate passes on exactly the payloads
of a client's frames, however they are cut into messages, and its buffer holds what has come
behind the last header that it read.  A payload without a receiver stays in the buffer, and
the next header is read from it.
-/

namespace Skynet.Analysis

open Library Model List Option

def headerLength (head : Bytes) : ℕ := leNat head.reverse

def encodeHeader (hs : ℕ) (payload : Bytes) : Bytes := (leBytes hs payload.length).reverse

def encodeFrame (hs : ℕ) (payload : Bytes) : Bytes := encodeHeader hs payload ++ payload

def Framed (hs : ℕ) (s : Bytes) : Prop :=
  ∃ payloads : List Bytes, (∀ p ∈ payloads, p.length < 2 ^ 24 ∧ p.length < 256 ^ hs) ∧
    s <+: (payloads.map (encodeFrame hs)).flatten

structure Below16M (hs : ℕ) (s : Bytes) : Prop where
  payloads : ∀ p ∈ (deframe hs headerLength s).1, p.length < 2 ^ 24
  header : hs ≤ (deframe hs headerLength s).2.length →
    headerLength ((deframe hs headerLength s).2.take hs) < 2 ^ 24

theorem length_encodeHeader (hs : ℕ) (p : Bytes) : (encodeHeader hs p).length = hs := by
  rw [encodeHeader, length_reverse, length_leBytes]

theorem headerLength_encodeHeader {hs : ℕ} {p : Bytes} (h : p.length < 256 ^ hs) :
    headerLength (encodeHeader hs p) = p.length := by
  rw [headerLength, encodeHeader, reverse_reverse, leNat_leBytes_of_lt h]

section Stream

variable {hs : ℕ} {s t : Bytes} {payloads : List Bytes}

theorem deframe_nil (hs : ℕ) : deframe hs headerLength [] = ([], []) := by
  apply deframe_of_not
  rintro ⟨hpos, hle, -⟩
  rw [length_nil] at hle
  omega

theorem deframe_encodeFrame (hpos : 0 < hs) (hfit : ∀ p ∈ payloads, p.length < 256 ^ hs) :
    deframe hs headerLength (payloads.map (encodeFrame hs)).flatten = (payloads, []) := by
  have hhead : ∀ p ∈ payloads, (encodeHeader hs p).length = hs ∧
      headerLength (encodeHeader hs p) = p.length :=
    fun p hp => ⟨length_encodeHeader hs p, headerLength_encodeHeader (hfit p hp)⟩
  have hframes := deframe_frames hpos payloads hhead []
  rw [deframe_nil, append_nil, append_nil] at hframes
  exact hframes

theorem deframe_prefix (hpos : 0 < hs) (hfit : ∀ p ∈ payloads, p.length < 256 ^ hs)
    (h : s <+: (payloads.map (encodeFrame hs)).flatten) :
    (deframe hs headerLength s).1 <+: payloads := by
  obtain ⟨u, hu⟩ := h
  have hall : deframe hs headerLength (s ++ u) = (payloads, []) := by
    rw [hu]
    exact deframe_encodeFrame hpos hfit
  rw [deframe_append, Prod.mk.injEq] at hall
  exact ⟨_, hall.1⟩

theorem Framed.below16M (hpos : 0 < hs) (h : Framed hs s) : Below16M hs s := by
  obtain ⟨payloads, hsmall, u, hu⟩ := h
  have hframes := deframe_encodeFrame hpos fun p hp => (hsmall p hp).2
  rw [← hu, deframe_append, Prod.mk.injEq] at hframes
  obtain ⟨hpayloads, hrest⟩ := hframes
  constructor
  · intro p hp
    exact (hsmall p (by rw [← hpayloads]; exact mem_append_left _ hp)).1
  · intro hle
    -- What is left and what is still to come begins with a complete frame.
    by_cases hframe : HasFrame hs headerLength ((deframe hs headerLength s).2 ++ u)
    · have hfirst := deframe_of hframe
      have hmem : (((deframe hs headerLength s).2 ++ u).drop hs).take
          (headerLength (((deframe hs headerLength s).2 ++ u).take hs)) ∈ payloads := by
        rw [← hpayloads, hfirst]
        exact mem_append_right _ mem_cons_self
      have hlen := (hsmall _ hmem).1
      rw [length_take, length_drop, Nat.min_eq_left hframe.2.2,
        take_append_of_le_length hle] at hlen
      exact hlen
    · rw [deframe_of_not hframe] at hrest
      have hempty := (append_eq_nil_iff.mp hrest).1
      rw [hempty, length_nil] at hle
      omega

theorem Below16M.rest (h : Below16M hs (s ++ t)) :
    Below16M hs ((deframe hs headerLength s).2 ++ t) := by
  obtain ⟨hpayloads, hheader⟩ := h
  rw [deframe_append] at hpayloads hheader
  exact ⟨fun p hp => hpayloads p (mem_append_right _ hp), hheader⟩

theorem Below16M.first (h : Below16M hs s) (hle : hs ≤ s.length) :
    headerLength (s.take hs) < 2 ^ 24 := by
  by_cases hframe : HasFrame hs headerLength s
  · have hlen := h.payloads ((s.drop hs).take (headerLength (s.take hs)))
      (by rw [deframe_of hframe]; exact mem_cons_self)
    rwa [length_take, length_drop, Nat.min_eq_left hframe.2.2] at hlen
  · have hheader := h.header
    rw [deframe_of_not hframe] at hheader
    exact hheader hle

theorem Below16M.next (h : Below16M hs s) (hframe : HasFrame hs headerLength s) :
    Below16M hs (s.drop (hs + headerLength (s.take hs))) := by
  obtain ⟨hpayloads, hheader⟩ := h
  rw [deframe_of hframe] at hpayloads hheader
  exact ⟨fun p hp => hpayloads p (mem_cons_of_mem _ hp), hheader⟩

end Stream

/-- What a buffer holds of an incomplete frame: the header is read as soon as it is
there. -/
def unreadBytes (hs : ℕ) (rest : Bytes) : Bytes :=
  if rest.length < hs then rest else rest.drop hs

def Pending (hs : ℕ) (db : DataBuffer) (bytes rest : Bytes) : Prop :=
  (db.header = 0 ∧ rest = bytes) ∨
    ∃ head, head.length = hs ∧ 0 < headerLength head ∧ db.header = headerLength head ∧
      rest = head ++ bytes

def deliver (g : Gate) (c : GateConnection) (payload : Bytes) : List GateEffect :=
  if payload = [] then []
  else if g.broker ≠ 0 then [.send 0 g.broker (g.clientTag ||| ptypeTagDontcopy) c.id payload]
  else if c.agent ≠ 0 then
    [.send c.client c.agent (g.clientTag ||| ptypeTagDontcopy) c.id payload]
  else if g.watchdog ≠ 0 then
    [.send 0 g.watchdog (gatePtypeText ||| ptypeTagDontcopy) c.id
      (Gate.bytesOf (Gate.decimal c.id ++ " data ".toList) ++ payload)]
  else []

def Receives (g : Gate) (c : GateConnection) : Prop :=
  0 < c.id ∧ (g.broker ≠ 0 ∨ c.agent ≠ 0 ∨ g.watchdog ≠ 0)

section Dispatch

variable {q : ℤ → HeadTail ℕ} {contents : ℤ → List DataMessage} {i : ℤ} {hs : ℕ}

variable {mp : NodePool DataMessage}

theorem BytesOf.withHeader {db : DataBuffer} {s : Bytes} (h : BytesOf mp q contents i db s)
    (header : ℤ) : BytesOf mp q contents i { db with header := header } s := by
  obtain ⟨hsize, cs, hblocks⟩ := h
  exact ⟨hsize, cs, hblocks.holds, hblocks.stored, hblocks.sized⟩

variable {bytes rest : Bytes}

theorem readheader_incomplete {db : DataBuffer}
    (h : BytesOf mp q contents i db bytes) (hpos : 0 < hs)
    (hpending : Pending hs db bytes rest) (hsmall : bytes.length < 2 ^ 31)
    (hfirst : hs ≤ rest.length → headerLength (rest.take hs) < 2 ^ 31)
    (hframe : ¬HasFrame hs headerLength rest) :
    ∃ mp' db', db.readheader mp hs = some (-1, mp', db') ∧
      BytesOf mp' q contents i db' (unreadBytes hs rest) ∧ Pending hs db' (unreadBytes hs rest) rest := by
  have hsize := h.1
  rcases hpending with ⟨hzero, rfl⟩ | ⟨head, hlen, hnonzero, hheader, rfl⟩
  · by_cases hshort : rest.length < hs
    · have hunread : unreadBytes hs rest = rest := if_pos hshort
      refine ⟨mp, db, ?_, by rwa [hunread], .inl ⟨hzero, hunread.symm⟩⟩
      rw [DataBuffer.readheader, if_pos ⟨hzero, by omega⟩]
      rfl
    · have hunread : unreadBytes hs rest = rest.drop hs := if_neg hshort
      obtain ⟨mp', db', hread, hbytes, -⟩ := DataBuffer.read_spec h hsmall hpos (by omega)
      have hnumber : DataBuffer.headerNumber (rest.take hs) = headerLength (rest.take hs) :=
        toInt32_of_lt (hfirst (by omega))
      have hmore : rest.length - hs < headerLength (rest.take hs) := by
        by_contra hle
        exact hframe ⟨hpos, by omega, by omega⟩
      refine ⟨mp', { db' with header := headerLength (rest.take hs) }, ?_, ?_, .inr ⟨rest.take hs,
        by rw [length_take]; omega, by omega, rfl,
        by rw [hunread, take_append_drop]⟩⟩
      · have hlt : db'.size < headerLength (rest.take hs) := by
          rw [hbytes.1, length_drop]
          omega
        simp only [DataBuffer.readheader, hzero, true_and, if_true, hread, map_some, hnumber,
          bind_eq_bind, bind_some, hlt]
        rw [if_neg (by omega)]
        rfl
      · rw [hunread]
        exact hbytes.withHeader _
  · have hunread : unreadBytes hs (head ++ bytes) = bytes := by
      rw [unreadBytes, if_neg (by rw [length_append]; omega), ← hlen, drop_left]
    have hmore : bytes.length < headerLength head := by
      by_contra hle
      refine hframe ⟨hpos, by rw [length_append]; omega, ?_⟩
      rw [← hlen, take_left, length_append]
      omega
    refine ⟨mp, db, ?_, by rwa [hunread], .inr ⟨head, hlen, hnonzero, hheader, by rw [hunread]⟩⟩
    have hne : db.header ≠ 0 := by omega
    simp only [DataBuffer.readheader, hne, false_and, if_false, bind_eq_bind, bind_some]
    rw [if_pos (by omega)]
    rfl

theorem readheader_complete {db : DataBuffer}
    (h : BytesOf mp q contents i db bytes)
    (hpending : Pending hs db bytes rest) (hsmall : bytes.length < 2 ^ 31)
    (hfirst : hs ≤ rest.length → headerLength (rest.take hs) < 2 ^ 31)
    (hframe : HasFrame hs headerLength rest) :
    ∃ mp' db', db.readheader mp hs = some ((headerLength (rest.take hs) : ℤ), mp', db') ∧
      BytesOf mp' q contents i db' (rest.drop hs) ∧ db'.header = headerLength (rest.take hs) ∧
      ((rest.drop hs).length < bytes.length ∨
        rest.drop hs = bytes ∧ 0 < headerLength (rest.take hs)) := by
  have hsize := h.1
  obtain ⟨hpos, hle, hnumber⟩ := hframe
  rcases hpending with ⟨hzero, rfl⟩ | ⟨head, hlen, hnonzero, hheader, rfl⟩
  · obtain ⟨mp', db', hread, hbytes, -⟩ := DataBuffer.read_spec h hsmall hpos hle
    have hnumber' : DataBuffer.headerNumber (rest.take hs) = headerLength (rest.take hs) :=
      toInt32_of_lt (hfirst hle)
    refine ⟨mp', { db' with header := headerLength (rest.take hs) }, ?_, hbytes.withHeader _, rfl,
      .inl (by rw [length_drop]; omega)⟩
    have hge : ¬db'.size < headerLength (rest.take hs) := by
      rw [hbytes.1, length_drop]
      omega
    simp only [DataBuffer.readheader, hzero, true_and, if_true, hread, map_some, hnumber',
      bind_eq_bind, bind_some, hge]
    rw [if_neg (by omega)]
    rfl
  · have htake : (head ++ bytes).take hs = head := by rw [← hlen, take_left]
    have hdrop : (head ++ bytes).drop hs = bytes := by rw [← hlen, drop_left]
    rw [htake, length_append] at hnumber
    refine ⟨mp, db, ?_, by rwa [hdrop], by rwa [htake], .inr ⟨hdrop, by rwa [htake]⟩⟩
    have hne : db.header ≠ 0 := by omega
    simp only [DataBuffer.readheader, hne, false_and, if_false, bind_eq_bind, bind_some]
    rw [if_neg (by omega), hheader, htake]
    rfl

theorem forward_spec {g : Gate} {c : GateConnection} {bytes : Bytes} {n : ℕ}
    (h : BytesOf g.mp q contents i c.buffer bytes) (hsmall : bytes.length < 2 ^ 31)
    (hreceives : Receives g c) (hpos : 0 < n) (hle : n ≤ bytes.length) :
    ∃ mp' db', g.forward c n =
        some (deliver g c (bytes.take n), { g with mp := mp' }, { c with buffer := db' }) ∧
      BytesOf mp' q contents i db' (bytes.drop n) := by
  obtain ⟨mp', db', hread, hbytes, -⟩ := DataBuffer.read_spec h hsmall hpos hle
  obtain ⟨hid, hreceiver⟩ := hreceives
  have hne : bytes.take n ≠ [] := by
    rw [ne_eq, take_eq_nil_iff]
    rintro (h0 | h0)
    · omega
    · rw [h0, length_nil] at hle
      omega
  refine ⟨mp', db', ?_, hbytes⟩
  have hid' : ¬c.id ≤ 0 := by omega
  simp only [Gate.forward, hid', if_false, deliver, hne, hread, bind_eq_bind, bind_some]
  by_cases hbroker : g.broker ≠ 0
  · rw [if_pos hbroker, if_pos hbroker]
    rfl
  · rw [if_neg hbroker, if_neg hbroker]
    by_cases hagent : c.agent ≠ 0
    · rw [if_pos hagent, if_pos hagent]
      rfl
    · rw [if_neg hagent, if_neg hagent]
      have hwatchdog : g.watchdog ≠ 0 := (hreceiver.resolve_left hbroker).resolve_left hagent
      rw [if_pos hwatchdog, if_pos hwatchdog]
      rfl

/-- The loop of `dispatch_message` passes on the complete payloads, by induction on the
rounds. -/
theorem dispatchLoop_spec (id : ℤ) {fuel : ℕ} {g : Gate} {c : GateConnection}
    (h : BytesOf g.mp q contents i c.buffer bytes) (hpos : 0 < hs)
    (hhs : g.headerSize = hs) (hpending : Pending hs c.buffer bytes rest)
    (hsmall : bytes.length < 2 ^ 31) (hbelow : Below16M hs rest)
    (hreceives : (∃ p ∈ (deframe hs headerLength rest).1, p ≠ []) → Receives g c)
    (hfuel : bytes.length < fuel) :
    ∃ mp' db', Gate.dispatchLoop id fuel g c =
        some ((deframe hs headerLength rest).1.flatMap (deliver g c), { g with mp := mp' },
          { c with buffer := db' }) ∧
      BytesOf mp' q contents i db' (unreadBytes hs (deframe hs headerLength rest).2) ∧
      Pending hs db' (unreadBytes hs (deframe hs headerLength rest).2)
        (deframe hs headerLength rest).2 := by
  induction fuel generalizing g c bytes rest with
  | zero => omega
  | succ fuel ih =>
    have hint : hs ≤ rest.length → headerLength (rest.take hs) < 2 ^ 31 := fun hle =>
      (hbelow.first hle).trans (by decide)
    by_cases hframe : HasFrame hs headerLength rest
    · obtain ⟨mp', db', hread, hbytes, hheader, hless⟩ :=
        readheader_complete h hpending hsmall hint hframe
      rw [← hhs] at hread
      have hfirst := hbelow.first hframe.2.1
      have hnumber := hframe.2.2
      have hdrop : (rest.drop hs).length ≤ bytes.length := by
        rcases hless with hless | ⟨hless, -⟩
        · exact hless.le
        · rw [hless]
      have hnext := hbelow.next hframe
      rw [deframe_of hframe] at hreceives ⊢
      simp only [Gate.dispatchLoop, hread, bind_eq_bind, bind_some]
      rw [if_neg (by omega)]
      by_cases hzero : headerLength (rest.take hs) = 0
      · rw [hzero] at hheader hreceives hnext ⊢
        have hpending' : Pending hs db' (rest.drop hs) (rest.drop (hs + 0)) := .inl ⟨hheader, rfl⟩
        obtain ⟨mp'', db'', hloop, hdone⟩ := ih (g := { g with mp := mp' })
          (c := { c with buffer := db' }) hbytes hhs hpending' (by omega) hnext
          (fun ⟨p, hp, hne⟩ => hreceives ⟨p, mem_cons_of_mem _ hp, hne⟩) (by omega)
        refine ⟨mp'', db'', ?_, hdone⟩
        rw [if_neg (by omega), hloop, take_zero, flatMap_cons]
        rfl
      · rw [if_pos (by omega), if_neg (by omega)]
        have hne : (rest.drop hs).take (headerLength (rest.take hs)) ≠ [] := by
          rw [ne_eq, take_eq_nil_iff, drop_eq_nil_iff]
          omega
        have hrec := hreceives ⟨_, mem_cons_self, hne⟩
        obtain ⟨mp'', db'', hforward, hbytes'⟩ := forward_spec (g := { g with mp := mp' })
          (c := { c with buffer := db' }) (n := headerLength (rest.take hs)) hbytes (by omega) hrec
          (by omega) (by rw [length_drop]; exact hnumber)
        rw [drop_drop] at hbytes'
        have hpending' : Pending hs db''.reset (rest.drop (hs + headerLength (rest.take hs)))
            (rest.drop (hs + headerLength (rest.take hs))) := .inl ⟨rfl, rfl⟩
        obtain ⟨mp₃, db₃, hloop, hdone⟩ := ih (g := { g with mp := mp'' })
          (c := { c with buffer := db''.reset }) (hbytes'.withHeader 0) hhs hpending'
          (by simp only [length_drop] at hdrop ⊢; omega) hnext
          (fun ⟨p, hp, hne⟩ => hreceives ⟨p, mem_cons_of_mem _ hp, hne⟩)
          (by simp only [length_drop] at hdrop ⊢; omega)
        refine ⟨mp₃, db₃, ?_, hdone⟩
        rw [hforward, bind_some, hloop, bind_some, flatMap_cons]
        rfl
    · obtain ⟨mp', db', hread, hbytes, hpending'⟩ :=
        readheader_incomplete h hpos hpending hsmall hint hframe
      rw [← hhs] at hread
      rw [deframe_of_not hframe]
      refine ⟨mp', db', ?_, hbytes, hpending'⟩
      simp only [Gate.dispatchLoop, hread, bind_eq_bind, bind_some]
      rfl

end Dispatch

end Skynet.Analysis
