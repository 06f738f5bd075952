import Skynet.Analysis.LuaSeriReader
import Skynet.Library.Outcome
import Skynet.Model.WebSocket

/-!
# Frames of websockets, written and read

A frame of the protocol is read back as it is, however its bytes arrive, and what
`write_frame` writes is such a frame; but a payload of 2^31 bytes is more than the counter of
`lxor_str` and that of `driver.pop` count.
-/

namespace Skynet.Analysis

open Library Model WebSocket List

variable {s : WsState} {taken rest : Bytes} {server : Bool}

/-! ## Frames -/

inductive LengthForm
  | short
  | medium
  | long
  deriving DecidableEq

def LengthForm.bound : LengthForm → ℕ
  | .short => 126
  | .medium => 2 ^ 16
  | .long => 2 ^ 63

def LengthForm.low : LengthForm → ℕ → ℕ
  | .short, n => n
  | .medium, _ => 126
  | .long, _ => 127

def LengthForm.extension : LengthForm → ℕ → Bytes
  | .short, _ => []
  | .medium, n => packBig 2 n
  | .long, n => packBig 8 n

structure WireFrame where
  fin : Bool
  op : WsOp
  payload : Bytes
  key : Option UInt32
  form : LengthForm
  fits : payload.length < form.bound

namespace WireFrame

variable (f : WireFrame)

def body : Bytes :=
  match f.key with
  | none => f.payload
  | some key => packBig 4 key.toNat ++ xorBytes f.payload (packBig 4 key.toNat)

def bytes : Bytes := UInt8.ofNat ((if f.fin then 128 else 0) + f.op.code) ::
    UInt8.ofNat ((if f.key.isSome then 128 else 0) + f.form.low f.payload.length) ::
      (f.form.extension f.payload.length ++ f.body)

def Maskable : Prop := f.key.isSome → f.payload.length < 2 ^ 31

instance : Decidable f.Maskable := inferInstanceAs (Decidable (_ → _))

def Countable : Prop := f.payload.length < 2 ^ 31

instance : Decidable f.Countable := inferInstanceAs (Decidable (_ < _))

end WireFrame

/-! ## Reading bytes -/

variable {E : WsError → WsState → Prop} {Q : Bytes → WsState → Prop} {n : ℕ}

theorem ends_wsRead
    (hstream : s.pieces.flatten = taken ++ rest) (hn : taken.length = n)
    (hpos : 0 < n) (hint : n < 2 ^ 31)
    (hQ : ∀ pieces : List Bytes, pieces.flatten = rest →
      Q taken { s with pieces := pieces }) : Ends (WebSocket.read n) s Q E := by
  have hle : n ≤ s.pieces.flatten.length := by
    rw [hstream, length_append]
    omega
  obtain ⟨pieces, htake, hrest⟩ := takeExact_spec hle
  rw [hstream, take_left' hn] at htake
  rw [hstream, drop_left' hn] at hrest
  unfold WebSocket.read
  rw [Ends.bind, Ends.get, toInt32_of_lt hint, if_neg (by omega), if_neg (by omega),
    Int.toNat_natCast, htake, Ends.bind, Ends.set]
  exact Ends.pure.mpr (hQ pieces hrest)

theorem ends_wsRead_waits (hshort : s.pieces.flatten.length < n) (hint : n < 2 ^ 31)
    (hE : E .socketError s) : Ends (WebSocket.read n) s Q E := by
  unfold WebSocket.read
  rw [Ends.bind, Ends.get, toInt32_of_lt hint, if_neg (by omega), if_neg (by omega),
    Int.toNat_natCast, takeExact_of_lt hshort]
  exact Ends.throw.mpr hE

/-- A number of bytes that is negative as an `int`. -/
theorem ends_wsRead_overflow (hlong : 2 ^ 31 ≤ n) (hlimit : n < 2 ^ 32)
    (hE : E .intOverflow s) : Ends (WebSocket.read n) s Q E := by
  unfold WebSocket.read
  rw [Ends.bind, Ends.get, if_pos (toInt32_neg hlong hlimit)]
  exact Ends.throw.mpr hE

@[simp] theorem length_packBig (n x : ℕ) : (packBig n x).length = n := by
  rw [packBig, length_reverse, length_leBytes]

theorem unpackBig_packBig {n x : ℕ} (hn : x < 256 ^ n) (hx : x < 2 ^ 63) :
    unpackBig (packBig n x) = x := by
  rw [unpackBig, packBig, reverse_reverse, leNat_leBytes_of_lt hn, if_pos hx]
  exact Int.sub_zero _

theorem xorBytes_xorBytes (payload key : Bytes) :
    xorBytes (xorBytes payload key) key = payload := by
  refine ext_getElem (by simp [xorBytes]) fun i h₁ h₂ => ?_
  simp only [xorBytes, getElem_map, getElem_zipIdx, Nat.zero_add]
  rw [UInt8.xor_assoc, UInt8.xor_self, UInt8.xor_zero]

@[simp] theorem length_xorBytes (payload key : Bytes) :
    (xorBytes payload key).length = payload.length := by
  simp [xorBytes]

/-! ## Headers -/

theorem header_fin (fin : Bool) (op : WsOp) :
    (UInt8.ofNat ((if fin then 128 else 0) + op.code) &&& 0x80 ≠ 0) = (fin = true) := by
  cases fin <;> cases op <;> decide

theorem header_op (fin : Bool) (op : WsOp) :
    opOfCode (UInt8.ofNat ((if fin then 128 else 0) + op.code) &&& 0x0f).toNat = some op := by
  cases fin <;> cases op <;> decide

theorem header_mask (mask : Bool) {low : ℕ} (h : low < 128) :
    (UInt8.ofNat ((if mask then 128 else 0) + low) &&& 0x80 ≠ 0) = (mask = true) := by
  have hall : ∀ low : Fin 128, UInt8.ofNat low &&& 0x80 = 0 ∧
      UInt8.ofNat (128 + low) &&& 0x80 ≠ 0 := by decide
  cases mask
  · simpa using (hall ⟨low, h⟩).1
  · simpa using (hall ⟨low, h⟩).2

theorem header_low (mask : Bool) {low : ℕ} (h : low < 128) :
    UInt8.ofNat ((if mask then 128 else 0) + low) &&& 0x7f = UInt8.ofNat low := by
  have hall : ∀ low : Fin 128, UInt8.ofNat low &&& 0x7f = UInt8.ofNat low ∧
      UInt8.ofNat (128 + low) &&& 0x7f = UInt8.ofNat low := by decide
  cases mask
  · simpa using (hall ⟨low, h⟩).1
  · simpa using (hall ⟨low, h⟩).2

theorem LengthForm.low_lt {form : LengthForm} (h : n < form.bound) : form.low n < 128 := by
  cases form
  · exact Nat.lt_trans h (by decide)
  · exact (by decide : 126 < 128)
  · exact (by decide : 127 < 128)

theorem ends_readLength {form : LengthForm} {Q : ℤ → WsState → Prop}
    (h : n < form.bound)
    (hstream : s.pieces.flatten = form.extension n ++ rest)
    (hQ : ∀ pieces : List Bytes, pieces.flatten = rest → Q n { s with pieces := pieces }) :
    Ends (readLength (UInt8.ofNat (form.low n))) s Q E := by
  unfold readLength
  cases form with
  | short =>
    have hshort : n < 126 := h
    have hval : (UInt8.ofNat n).toNat = n := by
      exact Nat.mod_eq_of_lt (by omega)
    have hne : ∀ k : ℕ, k < 256 → 126 ≤ k → UInt8.ofNat n ≠ UInt8.ofNat k := by
      intro k hk hle heq
      have hnat := congrArg UInt8.toNat heq
      rw [hval, UInt8.toNat_ofNat', Nat.mod_eq_of_lt hk] at hnat
      omega
    have h126 : ¬UInt8.ofNat (LengthForm.short.low n) = 126 := hne 126 (by decide) le_rfl
    have h127 : ¬UInt8.ofNat (LengthForm.short.low n) = 127 := hne 127 (by decide) (by decide)
    rw [if_neg h126, if_neg h127]
    refine Ends.pure.mpr ?_
    change Q ((UInt8.ofNat n).toNat : ℤ) s
    rw [hval]
    exact hQ s.pieces hstream
  | medium =>
    have hmedium : n < 2 ^ 16 := h
    have h126 : UInt8.ofNat (LengthForm.medium.low n) = 126 := rfl
    rw [if_pos h126, Ends.bind]
    refine ends_wsRead hstream (length_packBig 2 n) (by decide) (by decide) fun pieces hrest => Ends.pure.mpr ?_
    rw [LengthForm.extension, unpackBig_packBig (by omega) (by omega)]
    exact hQ pieces hrest
  | long =>
    have hlong : n < 2 ^ 63 := h
    have h126 : ¬UInt8.ofNat (LengthForm.long.low n) = 126 := by
      change ¬UInt8.ofNat 127 = 126
      decide
    have h127 : UInt8.ofNat (LengthForm.long.low n) = 127 := rfl
    rw [if_neg h126, if_pos h127, Ends.bind]
    refine ends_wsRead hstream (length_packBig 8 n) (by decide) (by decide) fun pieces hrest => Ends.pure.mpr ?_
    rw [LengthForm.extension, unpackBig_packBig (by omega) hlong]
    exact hQ pieces hrest

theorem ends_readSized
    (hstream : s.pieces.flatten = taken ++ rest) (hint : taken.length < 2 ^ 31)
    (hQ : ∀ pieces : List Bytes, pieces.flatten = rest →
      Q taken { s with pieces := pieces }) : Ends (readSized taken.length) s Q E := by
  unfold readSized
  split
  · rw [Int.toNat_natCast]
    exact ends_wsRead hstream rfl (by omega) hint hQ
  · obtain rfl := length_eq_zero_iff.mp (by omega : taken.length = 0)
    exact Ends.pure.mpr (hQ s.pieces hstream)

theorem ends_readSized_overflow (hlong : 2 ^ 31 ≤ n) (hlimit : n < 2 ^ 32)
    (hE : E .intOverflow s) : Ends (readSized n) s Q E := by
  unfold readSized
  rw [if_pos (by omega), Int.toNat_natCast]
  exact ends_wsRead_overflow hlong hlimit hE

theorem ends_readPayload (f : WireFrame) (hlimit : f.payload.length < 2 ^ 32)
    (hstream : s.pieces.flatten = f.body ++ rest)
    (hQ : f.Countable → ∀ pieces : List Bytes, pieces.flatten = rest →
      Q f.payload { s with pieces := pieces })
    (hE : ¬f.Countable → ∀ s', E .intOverflow s') :
    Ends (readPayload f.key.isSome f.payload.length) s Q E := by
  unfold readPayload
  cases hkey : f.key with
  | none =>
    rw [WireFrame.body, hkey] at hstream
    by_cases hcount : f.Countable
    · exact ends_readSized hstream hcount (hQ hcount)
    · exact ends_readSized_overflow (Nat.not_lt.mp hcount) hlimit (hE hcount _)
  | some key =>
    rw [WireFrame.body, hkey] at hstream
    rw [append_assoc] at hstream
    rw [Option.isSome_some, if_pos rfl, Ends.bind]
    refine ends_wsRead hstream (length_packBig 4 _) (by decide) (by decide) fun pieces₁ h₁ => ?_
    rw [Ends.bind]
    by_cases hcount : f.Countable
    · rw [← length_xorBytes f.payload (packBig 4 key.toNat)]
      refine ends_readSized h₁ (by rwa [length_xorBytes]) fun pieces₂ h₂ => ?_
      unfold lxorStr
      rw [length_packBig, if_neg (by decide), length_xorBytes, xorBytes_xorBytes,
        if_neg (Nat.not_le.mpr hcount)]
      exact Ends.pure.mpr (hQ hcount pieces₂ h₂)
    · exact ends_readSized_overflow (Nat.not_lt.mp hcount) hlimit (hE hcount _)

/-- **A frame is read back**, if the bytes of its payload can be counted. -/
theorem ends_readFrame (f : WireFrame) {Q : Bool × WsOp × Bytes → WsState → Prop}
    (hlimit : f.payload.length < 2 ^ 32)
    (hsize : server = true → f.payload.length ≤ maxFrameSize)
    (hstream : s.pieces.flatten = f.bytes ++ rest)
    (hQ : f.Countable → ∀ pieces : List Bytes, pieces.flatten = rest →
      Q (f.fin, f.op, f.payload) { s with pieces := pieces })
    (hE : ¬f.Countable → ∀ s', E .intOverflow s') : Ends (readFrame server) s Q E := by
  have hlow := LengthForm.low_lt f.fits
  have hheader : s.pieces.flatten = [UInt8.ofNat ((if f.fin then 128 else 0) + f.op.code),
        UInt8.ofNat ((if f.key.isSome then 128 else 0) + f.form.low f.payload.length)] ++
      (f.form.extension f.payload.length ++ f.body ++ rest) := hstream
  unfold readFrame
  rw [Ends.bind]
  refine ends_wsRead hheader rfl (by decide) (by decide) fun pieces₁ h₁ => ?_
  change Ends (readAfter server (UInt8.ofNat ((if f.fin then 128 else 0) + f.op.code))
    (UInt8.ofNat ((if f.key.isSome then 128 else 0) + f.form.low f.payload.length))) _ Q E
  rw [append_assoc] at h₁
  unfold readAfter
  rw [Ends.bind, header_low _ hlow]
  refine ends_readLength f.fits h₁ fun pieces₂ h₂ => ?_
  have hroom : ¬(server = true ∧ (f.payload.length : ℤ) > maxFrameSize) := by
    rintro ⟨hserver, hlong⟩
    have := hsize hserver
    omega
  have hmask : decide (UInt8.ofNat ((if f.key.isSome then 128 else 0) +
      f.form.low f.payload.length) &&& 0x80 ≠ 0) = f.key.isSome := by
    simp only [header_mask _ hlow, Bool.decide_eq_true]
  rw [if_neg hroom, Ends.bind, hmask]
  refine ends_readPayload f hlimit h₂ (fun hcount pieces₃ h₃ => ?_) hE
  rw [header_op]
  have hfin : decide (UInt8.ofNat ((if f.fin then 128 else 0) + f.op.code) &&& 0x80 ≠ 0) =
      f.fin := by
    simp only [header_fin, Bool.decide_eq_true]
  refine Ends.pure.mpr ?_
  rw [hfin]
  exact hQ hcount pieces₃ h₃

theorem ends_readFrame_waits {Q : Bool × WsOp × Bytes → WsState → Prop}
    (hnone : s.pieces.flatten = []) (hE : E .socketError s) : Ends (readFrame server) s Q E := by
  unfold readFrame
  rw [Ends.bind]
  refine ends_wsRead_waits ?_ (by decide) hE
  rw [hnone]
  decide

/-! ## Writing -/

def ownForm (n : ℕ) : LengthForm :=
  if n < 126 then .short else if n < 0xffff then .medium else .long

theorem ownForm_fits (h : n < 2 ^ 63) : n < (ownForm n).bound := by
  unfold ownForm
  split
  · next hlt => exact hlt
  · split
    · next hlt => exact Nat.lt_trans hlt (by decide)
    · exact h

def ownFrame (op : WsOp) (payload : Bytes) (key : Option UInt32)
    (h : payload.length < 2 ^ 63) : WireFrame :=
  ⟨true, op, payload, key, ownForm payload.length, ownForm_fits h⟩

theorem or_header {mask low : ℕ} (hmask : mask = 0 ∨ mask = 128) (hlow : low < 128) :
    mask ||| low = mask + low := by
  rcases hmask with rfl | rfl
  · rw [Nat.zero_or, Nat.zero_add]
  · exact (Nat.two_pow_add_eq_or_of_lt (i := 7) hlow 1).symm

theorem packHeader_eq (op : WsOp) (mask : Bool) (n : ℕ) :
    packHeader op (if mask then 0x80 else 0x00) n = UInt8.ofNat (128 + op.code) ::
      UInt8.ofNat ((if mask then 128 else 0) + (ownForm n).low n) :: (ownForm n).extension n := by
  have hmask : (if mask then 0x80 else 0x00) = 0 ∨ (if mask then 0x80 else 0x00) = 128 := by
    cases mask
    · exact .inl rfl
    · exact .inr rfl
  have hcode : 0x80 ||| op.code = 128 + op.code := or_header (.inr rfl) (by cases op <;> decide)
  unfold packHeader ownForm
  rw [hcode]
  split
  · rw [or_header hmask (by omega)]
    rfl
  · split
    · rw [or_header hmask (by decide)]
      rfl
    · rw [or_header hmask (by decide)]
      rfl

theorem ends_writeData {data : Bytes} (hn : data.length = n) {Q : Unit → WsState → Prop}
    (hQ : ∀ ws : List Bytes, ws.flatten = data → Q () { s with out := s.out ++ ws }) :
    Ends (if n > 0 then write data else pure ()) s Q E := by
  split
  · exact Ends.modify.mpr (hQ [data] (by simp))
  · have hnil : data = [] := length_eq_zero_iff.mp (by omega)
    have hsame := hQ [] hnil.symm
    rw [append_nil] at hsame
    exact Ends.pure.mpr hsame

/-- What `write_frame` writes is a frame, if the bytes of its payload can be counted where it
is masked. -/
theorem ends_writeFrame {op : WsOp} {payload : Bytes} {key : Option UInt32}
    (h : payload.length < 2 ^ 63) {Q : Unit → WsState → Prop}
    (hQ : (ownFrame op payload key h).Maskable → ∀ ws : List Bytes,
      ws.flatten = (ownFrame op payload key h).bytes → Q () { s with out := s.out ++ ws })
    (hE : ¬(ownFrame op payload key h).Maskable → ∀ s', E .intOverflow s') :
    Ends (writeFrame op payload key) s Q E := by
  unfold writeFrame
  rw [Ends.bind, packHeader_eq]
  refine Ends.modify.mpr ?_
  rw [Ends.bind]
  unfold writeKey
  cases key with
  | none =>
    refine Ends.pure.mpr (ends_writeData rfl fun ws hws => ?_)
    rw [append_assoc]
    refine hQ nofun _ ?_
    rw [flatten_append, hws]
    simp [WireFrame.bytes, WireFrame.body, ownFrame]
  | some key =>
    rw [Ends.bind]
    refine Ends.modify.mpr ?_
    unfold lxorStr
    rw [length_packBig, if_neg (by decide)]
    split
    · next hlong =>
      refine Ends.throw.mpr (hE (fun hcount => ?_) _)
      exact absurd (hcount rfl) (Nat.not_lt.mpr hlong)
    · next hshort =>
      refine Ends.pure.mpr (ends_writeData (length_xorBytes _ _) fun ws hws => ?_)
      rw [append_assoc, append_assoc]
      refine hQ (fun _ => Nat.not_le.mp hshort) _ ?_
      rw [flatten_append, flatten_append, hws]
      simp [WireFrame.bytes, WireFrame.body, ownFrame]

end Skynet.Analysis
