import Skynet.Analysis.BsonReading

/-!
# What `bson.decode` reads

Each element moves a reader that lies inside of the received bytes forward, and leaves it
inside, or an error is raised.  Only the byte behind the end of a document can lie outside:
the length of the document is taken from its header, and `read_bytes` takes a negative
number of bytes for a step back.  And documents can be nested deeper than the C stack has
room for.

Whether decoding comes to such a document is told by a walk over the bytes, which knows of
every value how many bytes it takes and nothing else.
-/

namespace Skynet.Analysis

open Library Model List

/-! ## A walk over the bytes -/

/-- How a walk stops: where an error is raised, or where decoding does what it must not. -/
inductive WalkStop
  | raises
  | leaves
  deriving DecidableEq

/-- The bytes that something takes. -/
abbrev Walk : Type := Except WalkStop ℕ

/-- So many bytes, where they are left. -/
def fitting (n left : ℕ) : Walk := if n ≤ left then .ok n else .error .raises

section Walk

variable (doc : Bytes)

def sizeAt (p : ℕ) : ℤ := toInt32 (leNat ((doc.drop p).take 4))

/-- A text and the zero behind it. -/
def walkText (p left : ℕ) : Walk :=
  let text := (doc.drop p).take left
  if 0 ∈ text then .ok (text.idxOf 0 + 1) else .error .raises

/-- A length and what it counts, with so much more: the sum is an `int`. -/
def walkCounted (p left : ℕ) (more : ℤ) : Walk :=
  let taken := toInt32 (sizeAt doc p + more)
  if 4 ≤ left ∧ 0 ≤ taken ∧ taken ≤ left then .ok taken.toNat else .error .raises

def walkString (p left : ℕ) : Walk :=
  if sizeAt doc p ≤ 0 then .error .raises else walkCounted doc p left 4

def walkBinary (p left : ℕ) : Walk :=
  if 5 ≤ left ∧ 0 ≤ sizeAt doc p ∧ sizeAt doc p + 5 ≤ left then .ok (sizeAt doc p + 5).toNat
  else .error .raises

/-- A value of a type, where an embedded document takes `nested`. -/
def walkValue (nested : Walk) (bt p left : ℕ) : Walk :=
  match bt with
  | bsonReal => fitting 8 left
  | bsonBoolean => fitting 1 left
  | bsonString => walkString doc p left
  | bsonDocument => nested
  | bsonArray => nested
  | bsonBinary => walkBinary doc p left
  | bsonObjectid => fitting 12 left
  | bsonDate => fitting 8 left
  | bsonNull => .ok 0
  | bsonRegex => do
    let k ← walkText doc p left
    let n ← walkText doc (p + k) (left - k)
    return k + n
  | bsonInt32 => fitting 4 left
  | bsonTimestamp => do
    let k ← fitting 4 left
    let n ← fitting 4 (left - k)
    return k + n
  | bsonInt64 => fitting 8 left
  | bsonDbpointer => walkCounted doc p left 16
  | bsonJscode | bsonSymbol => walkCounted doc p left 4
  | bsonCodews => walkCounted doc p left 0
  | _ => if bt = bsonMinkey ∨ bt = bsonMaxkey then .ok 0 else .error .raises

/-- A document, given what its elements come to.  The byte at its end is read if its length
passes two checks, and a negative length passes them too. -/
def walkDict (elements : ℕ → ℕ → Except WalkStop Unit) (top p left : ℕ) : Walk :=
  let sz := sizeAt doc p
  if ¬(bsonStackRoom top = true ∧ 4 ≤ left) then .error .raises
  else if ¬((left : ℤ) + 1 - 2 ^ 31 < sz ∧ sz ≤ left) then .error .raises
  else if ¬(1 ≤ p + sz ∧ p + sz ≤ doc.length) then .error .leaves
  else if leNat ((doc.drop (p + sz - 1).toNat).take 1) ≠ 0 ∨ sz < 5 then .error .raises
  else do
    elements (p + 4) (sz - 5).toNat
    return sz.toNat

/-- The elements of a document, where the C stack has room for so many nested calls. -/
def walkElements : ℕ → ℕ → ℕ → ℕ → ℕ → Except WalkStop Unit
  | 0, _, _, _, _ => .error .leaves
  | fuel + 1, frames, top, p, left =>
    if left = 0 then .ok ()
    else do
      let k ← walkText doc (p + 1) (left - 1)
      let q := p + 1 + k
      let nested := match frames with
        | 0 => .error .leaves
        | frames + 1 =>
          walkDict doc (walkElements fuel frames (top + 2)) (top + 1) q (left - 1 - k)
      let n ← walkValue doc nested (leNat ((doc.drop p).take 1)) q (left - 1 - k)
      walkElements fuel frames top (q + n) (left - 1 - k - n)

/-- The whole document, of the length in its header. -/
def walkDocument (frames top : ℕ) : Walk :=
  let len := (sizeAt doc 0).toNat
  walkDict doc (walkElements doc (len + 1) frames (top + 1)) top 0 len

/-- There is a header, and the walk comes to no document of a negative length that leads
before the bytes, nor to one that is nested too deep. -/
def SoundDocument (frames top : ℕ) : Prop :=
  4 ≤ doc.length ∧ walkDocument doc frames top ≠ .error .leaves

end Walk

/-! ## Decoding goes as the walk does -/

variable {α β : Type} {doc : Bytes} {n : ℕ} {s s' : BsonState} {e : BsonStop}

def Decoded (r : EStateM.Result BsonStop BsonState (LuaValue Unit)) : Prop :=
  ∀ e, stoppedWith r = some e → ∃ err, e = .lua err

/-- Decoding stops as the walk does. -/
def StopsAs (w : Except WalkStop α) (e : BsonStop) (_ : BsonState) : Prop :=
  (∃ err, e = .lua err) ∧ w = .error .raises ∨
    (e = .outside ∨ e = .cStack) ∧ w = .error .leaves

/-- A part of decoding takes the bytes that the walk says, or stops as it does. -/
def Follows (s : BsonState) (m : BsonRead α) (w : Walk) : Prop :=
  Ends m s (fun _ s' => ∃ k : ℕ, w = .ok k ∧ s' = ahead s k ∧ k ≤ s.reader.size) (StopsAs w)

/-- Elements are read to their end, or they stop as the walk does. -/
def FollowsAll (s : BsonState) (m : BsonRead α) (w : Except WalkStop Unit) : Prop :=
  Ends m s (fun _ _ => w = .ok ()) (StopsAs w)

theorem Raises.stopsAs {w : Except WalkStop α} (h : Raises e s) (hw : w = .error .raises) :
    StopsAs w e s := .inl ⟨h, hw⟩

theorem StopsAs.bind {w : Except WalkStop α} (h : StopsAs w e s) (f : α → Except WalkStop β) :
    StopsAs (w >>= f) e s := by
  obtain ⟨hr, rfl⟩ | ⟨hr, rfl⟩ := h
  · exact .inl ⟨hr, rfl⟩
  · exact .inr ⟨hr, rfl⟩

theorem ahead_zero (s : BsonState) : ahead s (0 : ℕ) = s := by
  simp [ahead]

theorem ahead_ahead (s : BsonState) (k n : ℕ) :
    ahead (ahead s k) n = ahead s (k + n : ℕ) := by
  simp only [ahead, BsonState.mk.injEq, BsonReader.mk.injEq]
  omega

theorem Follows.pure {a : α} (h : 0 ≤ s.reader.size) : Follows s (pure a) (.ok 0) :=
  Ends.pure.2 ⟨0, rfl, (ahead_zero s).symm, h⟩

theorem Follows.raise {err : BsonError} {w : Walk} (hw : w = .error .raises) :
    Follows s (throw (.lua err) : BsonRead α) w :=
  Ends.throw.2 (.inl ⟨⟨err, rfl⟩, hw⟩)

theorem Follows.map {m : BsonRead α} {w : Walk} (h : Follows s m w) (g : α → β) :
    Follows s (m >>= fun a => Pure.pure (g a)) w := by
  unfold Follows
  rw [Ends.bind]
  exact Ends.mono h (fun _ _ h => Ends.pure.2 h) fun _ _ h => h

/-- One part after the other. -/
theorem Follows.bind {m : BsonRead α} {f : α → BsonRead β} {w : Walk} {w' : ℕ → Walk}
    (h : Follows s m w)
    (hf : ∀ a (k : ℕ), k ≤ s.reader.size → Follows (ahead s k) (f a) (w' k)) :
    Follows s (m >>= f) (do let k ← w; let n ← w' k; return k + n) := by
  unfold Follows
  rw [Ends.bind]
  apply Ends.mono h
  · rintro a _ ⟨k, rfl, rfl, hk⟩
    apply (hf a k hk).mono
    · rintro b _ ⟨n, hn, rfl, hle⟩
      refine ⟨k + n, ?_, ahead_ahead s k n, ?_⟩
      · show (w' k >>= fun n => Pure.pure (k + n)) = _
        rw [hn]
        rfl
      · simp only [ahead_size] at hle
        omega
    · exact fun _ _ h => h.bind _
  · exact fun _ _ h => h.bind _

theorem Follows.then {m : BsonRead α} {f : α → BsonRead β} {w : Walk}
    {w' : ℕ → Except WalkStop Unit} (h : Follows s m w)
    (hf : ∀ a (k : ℕ), k ≤ s.reader.size → FollowsAll (ahead s k) (f a) (w' k)) :
    FollowsAll s (m >>= f) (w >>= w') := by
  unfold FollowsAll
  rw [Ends.bind]
  apply Ends.mono h
  · rintro a _ ⟨k, rfl, rfl, hk⟩
    exact hf a k hk
  · exact fun _ _ h => h.bind _

/-! ## Values -/

theorem Within.readLe (k : ℕ) (h : Within doc.length s.reader) :
    Follows s (readLe doc k) (fitting k s.reader.size.toNat) := by
  have hsize := h.size
  apply h.ends_readLe.mono
  · rintro _ _ ⟨rfl, hle, -⟩
    exact ⟨k, if_pos (by omega), rfl, hle⟩
  · exact fun _ _ hr => hr.1.stopsAs (if_neg (by omega))

theorem Within.ends_readInt32 (h : Within doc.length s.reader) :
    Ends (readInt32 doc) s (fun v s' => s' = ahead s 4 ∧ 4 ≤ s.reader.size ∧
      v = sizeAt doc s.reader.ptr.toNat)
      fun e s' => Raises e s' ∧ s.reader.size < 4 := by
  unfold Model.readInt32
  rw [Ends.bind]
  apply h.ends_readLe.mono
  · rintro _ _ ⟨rfl, hle, rfl⟩
    exact Ends.pure.2 ⟨rfl, hle, rfl⟩
  · exact fun _ _ hr => hr

theorem Within.readCstring (h : Within doc.length s.reader) : Follows s (readCstring doc)
    (walkText doc s.reader.ptr.toNat s.reader.size.toNat) := by
  apply h.ends_readCstring.mono
  · rintro r _ ⟨rfl, hle, hmem, rest, hrest⟩
    refine ⟨r.length + 1, ?_, by simp [ahead], by omega⟩
    have htext : (doc.drop s.reader.ptr.toNat).take s.reader.size.toNat = r ++ 0 :: rest := hrest
    rw [walkText, htext, if_pos (by simp), idxOf_append_of_notMem hmem, idxOf_cons_self]
  · exact fun _ _ hr => hr.1.stopsAs (if_neg hr.2)

theorem ends_addLstring {p len : ℤ} (hp : 0 ≤ p) (hin : 0 ≤ len → p + len ≤ doc.length) :
    Ends (addLstring doc p len) s (fun l s' => s' = s ∧ 0 ≤ len ∧
      l = (doc.drop p.toNat).take len.toNat) fun e s' => Raises e s' ∧ len < 0 := by
  refine Ends.ite (fun hneg => Ends.throw.2 ⟨⟨_, rfl⟩, hneg⟩) fun hpos => ?_
  apply (ends_bytesAt s (Or.inr ⟨hp, by omega⟩)).mono
  · exact fun _ _ h => ⟨h.1, by omega, h.2⟩
  · exact fun _ _ h => h.elim

theorem Within.ends_readBytes (h : Within doc.length s.reader) {sz : ℤ} (hsz : 0 ≤ sz) :
    Ends (bsonReadBytes sz) s (fun p s' => p = s.reader.ptr ∧ sz ≤ s.reader.size ∧
      s' = ahead s sz) fun e s' => Raises e s' ∧ s.reader.size < sz := by
  have hint := h.int
  apply (Analysis.ends_readBytes s sz).mono
  · rintro _ _ ⟨rfl, hle, rfl⟩
    refine ⟨rfl, hle, ?_⟩
    rw [toInt32_eq (by omega) (by omega)]
    rfl
  · exact fun _ _ hr => hr

/-- A length, a step that depends on it, and a string that starts with the length: the step
goes back where the string is shorter than its length, by less than was read. -/
theorem Within.readCounted {type : ℕ} {step taken : ℤ → ℤ} {more : ℤ}
    (h : Within doc.length s.reader)
    (hstep : ∀ sz, -2 ^ 31 ≤ sz → sz < 2 ^ 31 → step sz = toInt32 (sz + (more - 4)))
    (htaken : ∀ sz, -2 ^ 31 ≤ sz → sz < 2 ^ 31 → taken sz = toInt32 (sz + more)) :
    Follows s (do
      let s ← get
      let sz ← Model.readInt32 doc
      let _ ← bsonReadBytes (step sz)
      makeObject doc type s.reader.ptr (taken sz))
      (walkCounted doc s.reader.ptr.toNat s.reader.size.toNat more) := by
  unfold Follows
  rw [Ends.bind, Ends.get, Ends.bind]
  have hsize := h.size
  have hint := h.int
  apply h.ends_readInt32.mono
  case hE => exact fun _ _ hr => hr.1.stopsAs (if_neg (by omega))
  rintro sz _ ⟨rfl, hroom, hsz⟩
  rw [Ends.bind, walkCounted, ← hsz]
  obtain ⟨hlow, hhigh⟩ : -2 ^ 31 ≤ sz ∧ sz < 2 ^ 31 := hsz ▸ toInt32_bounds _
  obtain ⟨hlow₁, hhigh₁, k₁, hk₁⟩ := toInt32_spec (sz + (more - 4))
  obtain ⟨hlow₂, hhigh₂, k₂, hk₂⟩ := toInt32_spec (sz + more)
  rw [hstep sz hlow hhigh, htaken sz hlow hhigh]
  apply (Analysis.ends_readBytes (ahead s 4) _).mono
  case hE =>
    rintro _ _ ⟨hr, hlong⟩
    simp only [ahead_size] at hlong
    exact hr.stopsAs (if_neg (by omega))
  rintro _ _ ⟨-, hle, rfl⟩
  simp only [ahead_size] at hle
  unfold makeObject
  rw [Ends.bind]
  have hfits := h.fits
  apply (ends_addLstring h.ptr fun hpos => by omega).mono
  case hE => exact fun _ _ hr => hr.1.stopsAs (if_neg (by omega))
  rintro _ _ ⟨rfl, hpos, -⟩
  refine Ends.pure.2 ⟨(toInt32 (sz + more)).toNat, if_pos (by omega), ?_, by omega⟩
  rw [toInt32_eq (v := (ahead s 4).reader.size - toInt32 (sz + (more - 4)))
    (by simp only [ahead_size]; omega) (by simp only [ahead_size]; omega)]
  simp only [ahead, BsonState.mk.injEq, BsonReader.mk.injEq]
  omega

theorem Within.readString (h : Within doc.length s.reader) : Follows s (do
      let sz ← Model.readInt32 doc
      if sz ≤ 0 then throw (.lua (.stringLength sz))
      else
        let p ← bsonReadBytes sz
        let s ← bytesAt doc p (sz - 1).toNat
        return (.scalar (.string s) : LuaValue Unit))
      (walkString doc s.reader.ptr.toNat s.reader.size.toNat) := by
  have hsize := h.size
  have hint := h.int
  unfold Follows walkString
  rw [Ends.bind]
  apply h.ends_readInt32.mono
  case hE =>
    rintro _ _ ⟨hr, hshort⟩
    refine hr.stopsAs ?_
    split
    · rfl
    · exact if_neg (by omega)
  rintro sz _ ⟨rfl, hroom, hsz⟩
  rw [walkCounted, ← hsz]
  obtain ⟨hlow, hhigh⟩ : -2 ^ 31 ≤ sz ∧ sz < 2 ^ 31 := hsz ▸ toInt32_bounds _
  obtain ⟨hlow₁, hhigh₁, k₁, hk₁⟩ := toInt32_spec (sz + 4)
  apply Ends.ite
  · exact fun hneg => Ends.throw.2 (.inl ⟨⟨_, rfl⟩, if_pos hneg⟩)
  intro hpos
  have hs₄ := h.move (k := 4) (by decide) hroom
  rw [if_neg hpos, Ends.bind]
  apply (hs₄.ends_readBytes (by omega : 0 ≤ sz)).mono
  case hE =>
    rintro _ _ ⟨hr, hlong⟩
    simp only [ahead_size] at hlong
    exact hr.stopsAs (if_neg (by omega))
  rintro _ _ ⟨rfl, hle, rfl⟩
  simp only [ahead_size, ahead_ptr] at hle ⊢
  have hptr := h.ptr
  have hfits := h.fits
  rw [Ends.bind]
  apply (ends_bytesAt _ (Or.inr ⟨by omega, by omega⟩)).mono
  case hE => exact fun _ _ h => h.elim
  rintro _ _ ⟨rfl, -⟩
  refine Ends.pure.2 ⟨(toInt32 (sz + 4)).toNat, if_pos (by omega), ?_, by omega⟩
  simp only [ahead, BsonState.mk.injEq, BsonReader.mk.injEq]
  omega

theorem Within.readBinary (h : Within doc.length s.reader) : Follows s (do
      let sz ← Model.readInt32 doc
      let subtype ← bsonReadByte doc
      let p ← bsonReadBytes sz
      let content ← addLstring doc p sz
      return bsonObject bsonBinary (UInt8.ofNat subtype :: content))
      (walkBinary doc s.reader.ptr.toNat s.reader.size.toNat) := by
  have hsize := h.size
  have hptr := h.ptr
  have hfits := h.fits
  unfold Follows walkBinary
  rw [Ends.bind]
  apply h.ends_readInt32.mono
  case hE => exact fun _ _ hr => hr.1.stopsAs (if_neg (by omega))
  rintro sz _ ⟨rfl, hroom, hsz⟩
  rw [← hsz, Ends.bind]
  have hs₄ := h.move (k := 4) (by decide) hroom
  apply (hs₄.ends_readLe (n := 1)).mono
  case hE =>
    rintro _ _ ⟨hr, hshort⟩
    simp only [ahead_size] at hshort
    exact hr.stopsAs (if_neg (by omega))
  rintro subtype _ ⟨rfl, hbyte, -⟩
  simp only [ahead_size, Nat.cast_one] at hbyte
  rw [Ends.bind]
  apply (Analysis.ends_readBytes (ahead (ahead s 4) (1 : ℕ)) sz).mono
  case hE =>
    rintro _ _ ⟨hr, hlong⟩
    simp only [ahead_size, Nat.cast_one] at hlong
    exact hr.stopsAs (if_neg (by omega))
  rintro _ _ ⟨rfl, hle, rfl⟩
  simp only [ahead_size, ahead_ptr, Nat.cast_one] at hle ⊢
  rw [Ends.bind]
  apply (ends_addLstring (by omega) fun hpos => by omega).mono
  case hE => exact fun _ _ hr => hr.1.stopsAs (if_neg (by omega))
  rintro _ _ ⟨rfl, hpos, -⟩
  have hint := h.int
  refine Ends.pure.2 ⟨(sz + 5).toNat, if_pos (by omega), ?_, by omega⟩
  rw [toInt32_eq (by omega) (by omega)]
  simp only [ahead, BsonState.mk.injEq, BsonReader.mk.injEq]
  omega

theorem Within.readObjectid (h : Within doc.length s.reader) : Follows s (do
      let p ← bsonReadBytes 12
      makeObject doc bsonObjectid p 12) (fitting 12 s.reader.size.toNat) := by
  have hsize := h.size
  have hfits := h.fits
  unfold Follows
  rw [Ends.bind]
  apply (h.ends_readBytes (by decide)).mono
  case hE => exact fun _ _ hr => hr.1.stopsAs (if_neg (by omega))
  rintro _ _ ⟨rfl, hle, rfl⟩
  unfold makeObject
  rw [Ends.bind]
  apply (ends_addLstring h.ptr fun _ => by omega).mono
  case hE => exact fun _ _ hr => absurd hr.2 (by decide)
  rintro _ _ ⟨rfl, -⟩
  exact Ends.pure.2 ⟨12, if_pos (by omega), rfl, hle⟩

theorem walkValue_string {w : Walk} {bt p left : ℕ} (h : bt = bsonString) :
    walkValue doc w bt p left = walkString doc p left := by
  unfold walkValue
  split
  all_goals first
    | exact absurd h (by decide)
    | contradiction
    | rfl

theorem walkValue_of_lt {w : Walk} {bt p left : ℕ} (h : 18 < bt) : walkValue doc w bt p left =
    if bt = bsonMinkey ∨ bt = bsonMaxkey then .ok 0 else .error .raises := by
  unfold walkValue
  split
  all_goals first
    | rfl
    | omega

theorem Within.at_ahead {k : ℕ} (h : Within doc.length s.reader) (hk : (k : ℤ) ≤ s.reader.size) :
    Within doc.length (ahead s k).reader ∧
      (ahead s k).reader.ptr.toNat = s.reader.ptr.toNat + k ∧
      (ahead s k).reader.size.toNat = s.reader.size.toNat - k := by
  have hptr := h.ptr
  have hsize := h.size
  refine ⟨h.move (by omega) hk, ?_, ?_⟩ <;> simp only [ahead_ptr, ahead_size] <;> omega

theorem Within.unpackValue {w : Walk} (nested : Bool → BsonRead (LuaValue Unit)) (bt : ℕ)
    (h : Within doc.length s.reader) (hnested : ∀ array, Follows s (nested array) w) :
    Follows s (unpackValue doc nested bt)
      (walkValue doc w bt s.reader.ptr.toNat s.reader.size.toNat) := by
  have hsize := h.size
  unfold Model.unpackValue
  split
  · exact (((h.readLe 8).map _).map _)
  · exact (h.readLe 1).map _
  · rw [walkValue_string rfl]
    exact h.readString
  · exact hnested false
  · exact hnested true
  · exact h.readBinary
  · exact h.readObjectid
  · exact (((h.readLe 8).map _).map _)
  · rw [walkValue_of_lt (by decide), if_pos (by decide)]
    exact .pure hsize
  · rw [walkValue_of_lt (by decide), if_pos (by decide)]
    exact .pure hsize
  · exact .pure hsize
  · refine h.readCstring.bind fun _ k hk => ?_
    obtain ⟨hs, hptr, hleft⟩ := h.at_ahead hk
    rw [← hptr, ← hleft]
    exact hs.readCstring.map _
  · exact (((h.readLe 4).map _).map _)
  · refine (h.readLe 4).bind fun _ k hk => ?_
    obtain ⟨hs, -, hleft⟩ := h.at_ahead hk
    rw [← hleft]
    exact (hs.readLe 4).map _
  · exact (((h.readLe 8).map _).map _)
  · exact h.readCounted (fun sz _ _ => rfl) fun sz _ _ => rfl
  · refine h.readCounted (fun sz hlow hhigh => ?_) fun sz _ _ => rfl
    rw [sub_self, add_zero, toInt32_eq hlow hhigh]
  · refine h.readCounted (fun sz hlow hhigh => ?_) fun sz _ _ => rfl
    rw [sub_self, add_zero, toInt32_eq hlow hhigh]
  · refine h.readCounted (fun sz _ _ => rfl) fun sz hlow hhigh => ?_
    rw [add_zero, toInt32_eq hlow hhigh]
  · unfold walkValue
    split
    all_goals first
      | contradiction
      | exact .raise (if_neg (by tauto))

/-! ## Documents -/

/-- What a loop over elements does in a reader that lies inside, and in one of a negative
size: the first byte is refused. -/
structure ReadsElements (doc : Bytes) (size : ℤ) (m : BsonRead (LuaValue Unit))
    (w : ℕ → ℕ → Except WalkStop Unit) : Prop where
  inside : ∀ s, Within doc.length s.reader → s.reader.size < size →
    FollowsAll s m (w s.reader.ptr.toNat s.reader.size.toNat)
  negative : ∀ s, s.reader.size < 0 → Ends m s (fun _ _ => False) Raises

variable {m : BsonRead (LuaValue Unit)} {w : ℕ → ℕ → Except WalkStop Unit}

/-- The step over a document and the byte behind it, of a length that an `int` holds: the
byte is read only if the length passes both checks, and the step is what it says. -/
theorem document_bounds (left sz : ℤ) (hleft : 0 ≤ left) (hint : left < 2 ^ 31 - 4)
    (hlow : -2 ^ 31 ≤ sz) (hhigh : sz < 2 ^ 31) :
    (toInt32 (sz - 5) ≤ left ∧ 1 ≤ toInt32 (left - toInt32 (sz - 5)) ↔
      left + 5 - 2 ^ 31 < sz ∧ sz ≤ left + 4) ∧
    (left + 5 - 2 ^ 31 < sz → sz ≤ left + 4 → toInt32 (sz - 5) = sz - 5 ∧
      toInt32 (left - (sz - 5)) = left - (sz - 5)) := by
  obtain ⟨hlow₁, hhigh₁, k₁, hk₁⟩ := toInt32_spec (sz - 5)
  obtain ⟨hlow₂, hhigh₂, k₂, hk₂⟩ := toInt32_spec (left - toInt32 (sz - 5))
  obtain ⟨hlow₃, hhigh₃, k₃, hk₃⟩ := toInt32_spec (left - (sz - 5))
  refine ⟨⟨fun h => ?_, fun h => ?_⟩, fun h h' => ?_⟩ <;> omega

theorem ends_withBsonReader {size : ℤ} {t : BsonReader} (hm : ReadsElements doc size m w)
    (hsize : t.size < size) (ht : 0 ≤ t.size → Within doc.length t) :
    Ends (withBsonReader t m) s
      (fun _ s' => s' = s ∧ 0 ≤ t.size ∧ w t.ptr.toNat t.size.toNat = .ok ())
      fun e s' => t.size < 0 ∧ Raises e s' ∨
        0 ≤ t.size ∧ StopsAs (w t.ptr.toNat t.size.toNat) e s' := by
  unfold withBsonReader
  rw [Ends.bind, Ends.get, Ends.bind, Ends.set, Ends.bind]
  by_cases hneg : t.size < 0
  · apply (hm.negative { s with reader := t } hneg).mono
    · exact fun _ _ h => h.elim
    · exact fun _ _ h => .inl ⟨hneg, h⟩
  · apply (hm.inside { s with reader := t } (ht (by omega)) hsize).mono
    · intro _ s₁ h₁
      rw [Ends.bind, Ends.modify]
      exact Ends.pure.2 ⟨rfl, by omega, h₁⟩
    · exact fun _ _ h => .inr ⟨by omega, h⟩

/-- **A document** is read as the walk goes. -/
theorem follows_unpackDictWith (top : ℕ) (hptr : 0 ≤ s.reader.ptr)
    (hint : s.reader.size < 2 ^ 31)
    (hheader : 4 ≤ s.reader.size → s.reader.ptr + 4 ≤ doc.length)
    (hm : ReadsElements doc s.reader.size m w) :
    Follows s (unpackDictWith doc m top)
      (walkDict doc w top s.reader.ptr.toNat s.reader.size.toNat) := by
  unfold walkDict
  apply Ends.ite
  case helse =>
    exact fun hroom => Ends.throw.2 (.inl ⟨⟨_, rfl⟩, if_pos fun h => hroom h.1⟩)
  intro hstack
  unfold Model.readInt32
  rw [Ends.bind, Ends.bind]
  apply (ends_readLe (n := 4) (fun h => ⟨hptr, hheader h⟩) hint).mono
  case hE =>
    rintro _ _ ⟨hr, hshort⟩
    simp only [Nat.cast_ofNat] at hshort
    exact hr.stopsAs (if_pos (by omega))
  rintro v _ ⟨rfl, hroom, hv⟩
  simp only [Nat.cast_ofNat] at hroom
  have hsz : toInt32 v = sizeAt doc s.reader.ptr.toNat := by rw [hv]; rfl
  rw [Ends.pure, Ends.bind, if_neg (not_not.2 ⟨hstack, by omega⟩), ← hsz]
  obtain ⟨hlow, hhigh⟩ := toInt32_bounds v
  clear hsz hv
  generalize toInt32 v = sz at hlow hhigh
  obtain ⟨hread, hexact⟩ := document_bounds (s.reader.size - 4) sz (by omega) (by omega)
    hlow hhigh
  apply (Analysis.ends_readBytes _ _).mono
  case hE =>
    rintro _ _ ⟨hr, hshort⟩
    refine hr.stopsAs (if_pos fun h => ?_)
    have hpass := hread.2 ⟨by omega, by omega⟩
    simp only [ahead_size, Nat.cast_ofNat] at hshort
    omega
  rintro bytes _ ⟨rfl, hle, rfl⟩
  simp only [ahead_size, ahead_ptr, Nat.cast_ofNat] at hle ⊢
  rw [Ends.bind]
  by_cases hbyte : 1 ≤ toInt32 (s.reader.size - 4 - toInt32 (sz - 5))
  case neg =>
    apply (ends_readLe (n := 1) (fun h => absurd h hbyte) (toInt32_bounds _).2).mono
    · exact fun _ _ h => absurd h.2.1 hbyte
    · rintro _ _ ⟨hr, -⟩
      exact hr.stopsAs (if_pos fun h => hbyte (hread.2 ⟨by omega, by omega⟩).2)
  obtain ⟨hrange₁, hrange₂⟩ := hread.1 ⟨hle, hbyte⟩
  obtain ⟨hstep, hleft⟩ := hexact hrange₁ hrange₂
  rw [hstep, hleft] at hbyte ⊢
  rw [if_neg (not_not.2 ⟨by omega, by omega⟩)]
  by_cases hin : 1 ≤ s.reader.ptr + sz ∧ s.reader.ptr + sz ≤ doc.length
  case neg =>
    apply (ends_readLe_outside (n := 1) (by decide) hbyte (by dsimp only; omega)).mono
    · exact fun _ _ h => h.elim
    · rintro _ _ ⟨rfl, -⟩
      exact .inr ⟨.inl rfl, if_pos (by omega)⟩
  rw [if_neg (not_not.2 ⟨by omega, by omega⟩)]
  apply (ends_readLe (n := 1) (fun _ => by dsimp only; omega) (by dsimp only; omega)).mono
  case hE =>
    rintro _ _ ⟨-, hshort⟩
    exact absurd hbyte (by simpa using hshort)
  rintro last _ ⟨rfl, -, hlast⟩
  have hend : (s.reader.ptr + 4 + (sz - 5)).toNat = ((s.reader.ptr.toNat : ℤ) + sz - 1).toNat := by
    omega
  dsimp only at hlast
  rw [hend] at hlast
  rw [← hlast]
  apply Ends.ite
  · exact fun hne => Ends.throw.2 (.inl ⟨⟨_, rfl⟩, if_pos (.inl hne)⟩)
  intro hzero
  have hfirst : (s.reader.ptr + 4).toNat = s.reader.ptr.toNat + 4 := by omega
  apply (ends_withBsonReader hm (t := ⟨s.reader.ptr + 4, sz - 5⟩) (by dsimp only; omega)
    fun hpos => ⟨by dsimp only; omega, hpos, by dsimp only; omega, by dsimp only; omega⟩).mono
  · rintro _ s' ⟨rfl, hpos, hw⟩
    dsimp only at hpos hw
    rw [hfirst] at hw
    refine ⟨sz.toNat, ?_, ?_, by omega⟩
    · rw [if_neg (by omega), hw]
      rfl
    · simp only [ahead, BsonState.mk.injEq, BsonReader.mk.injEq]
      omega
  · rintro e s' (⟨hneg, hr⟩ | ⟨hpos, hstop⟩)
    · dsimp only at hneg
      exact hr.stopsAs (if_pos (.inr (by omega)))
    · dsimp only at hpos hstop
      rw [hfirst] at hstop
      rw [if_neg (by omega)]
      exact hstop.bind _

theorem Within.unpackDictWith (top : ℕ) (h : Within doc.length s.reader)
    (hm : ReadsElements doc s.reader.size m w) : Follows s (unpackDictWith doc m top)
      (walkDict doc w top s.reader.ptr.toNat s.reader.size.toNat) := by
  have hfits := h.fits
  exact follows_unpackDictWith top h.ptr h.int (fun _ => by omega) hm

theorem ReadsElements.mono {size size' : ℤ} (h : ReadsElements doc size m w) (hle : size' ≤ size) :
    ReadsElements doc size' m w :=
  ⟨fun s hs hlt => h.inside s hs (lt_of_lt_of_le hlt hle), h.negative⟩

/-- **The elements of a document** are read inside, one after the other, and each takes at
least two bytes. -/
theorem elements_unpackElements (fuel frames top : ℕ) (array : Bool) (entries : LuaEntries Unit)
    (hfuel : 0 < fuel) : ReadsElements doc fuel
      (unpackElements doc fuel (some frames) top array entries)
      (walkElements doc fuel frames top) := by
  induction fuel generalizing frames top array entries with
  | zero => exact absurd hfuel (lt_irrefl 0)
  | succ fuel ih =>
    constructor
    case inside =>
      intro s hs hlt
      unfold unpackElements walkElements FollowsAll
      have hsize := hs.size
      have hptr := hs.ptr
      rw [Ends.bind, Ends.get]
      apply Ends.ite
      · intro hzero
        rw [if_pos (by omega)]
        exact Ends.pure.2 rfl
      intro hne
      rw [if_neg (by omega), Ends.bind]
      apply (hs.ends_readLe (n := 1)).mono
      case hE => exact fun _ _ h => absurd h.2 (by simp only [Nat.cast_one]; omega)
      rintro bt _ ⟨rfl, hbyte, rfl⟩
      simp only [Nat.cast_one] at hbyte
      obtain ⟨hs₁, hptr₁, hsize₁⟩ := hs.at_ahead (k := 1) hbyte
      rw [← hptr₁, ← hsize₁]
      refine hs₁.readCstring.then fun key k hk => ?_
      obtain ⟨hs₂, hptr₂, hsize₂⟩ := hs₁.at_ahead hk
      rw [← hptr₂, ← hsize₂]
      have hlt₂ : (ahead (ahead s (1 : ℕ)) k).reader.size < fuel := by
        simp only [ahead_size, Nat.cast_one]
        omega
      have hfuel' : 0 < fuel := by
        have hpos := hs₂.size
        omega
      refine (hs₂.unpackValue _ _ fun array => ?_).then fun v n hn => ?_
      · cases frames with
        | zero => exact Ends.throw.2 (.inr ⟨.inr rfl, rfl⟩)
        | succ frames =>
          exact hs₂.unpackDictWith (top + 1)
            ((ih frames (top + 2) array [] hfuel').mono (le_of_lt hlt₂))
      · obtain ⟨hs₃, hptr₃, hsize₃⟩ := hs₂.at_ahead hn
        rw [← hptr₃, ← hsize₃]
        refine (ih frames top array _ hfuel').inside _ hs₃ ?_
        rw [ahead_size]
        omega
    case negative =>
      intro s hneg
      unfold unpackElements
      rw [Ends.bind, Ends.get, if_neg (by omega), Ends.bind]
      apply (ends_readLe (n := 1) (fun h => by omega) (by omega)).mono
      · omega
      · exact fun _ _ h => h.1

/-! ## Decoding -/

theorem follows_ldecode (frames top : ℕ) (hheader : 4 ≤ doc.length) :
    Ends (ldecode doc (some frames) top) .init
      (fun _ _ => ∃ k, walkDocument doc frames top = .ok k)
      (StopsAs (walkDocument doc frames top)) := by
  unfold ldecode walkDocument
  rw [Ends.bind]
  have hin : ((4 : ℕ) : ℤ) ≤ doc.length := by exact_mod_cast hheader
  apply (ends_bytesAt .init (Or.inr ⟨le_refl 0, by rwa [zero_add]⟩)).mono
  case hE => exact fun _ _ h => h.elim
  rintro b _ ⟨rfl, rfl⟩
  have hlen : toInt32 (leNat ((doc.drop (0 : ℤ).toNat).take 4)) = sizeAt doc 0 := rfl
  rw [hlen]
  unfold withBsonReader
  rw [Ends.bind, Ends.get, Ends.bind, Ends.set, Ends.bind]
  have helements : ReadsElements doc (sizeAt doc 0) _ _ :=
    (elements_unpackElements ((sizeAt doc 0).toNat + 1) frames (top + 1) false []
      (Nat.succ_pos _)).mono (by omega)
  apply (follows_unpackDictWith (s := ⟨⟨0, sizeAt doc 0⟩⟩) top (le_refl 0)
    (toInt32_bounds _).2 (fun _ => by simpa using hheader) helements).mono
  · rintro _ s' ⟨k, hk, -⟩
    rw [Ends.bind, Ends.modify]
    exact Ends.pure.2 ⟨k, hk⟩
  · exact fun _ _ h => h

/-- **Decoding stays inside** of the bytes that were received exactly if there are four of
them, and the walk comes to no document of a negative length that leads before them, nor to
one for which the C stack has no room.  It always ends.
SRC: lua-bson.c:95-176, 600-740, 913-926 -/
theorem decode_inside_iff (frames top : ℕ) (doc : Bytes) :
    Decoded (bsonDecodeOn (some frames) top doc) ↔ SoundDocument doc frames top := by
  by_cases hheader : 4 ≤ doc.length
  case neg =>
    refine iff_of_false (fun h => ?_) fun h => hheader h.1
    have hrun : bsonDecodeOn (some frames) top doc = .error .outside .init := by
      have hout : ¬((4 : ℕ) = 0 ∨ (0 : ℤ) ≤ 0 ∧ 0 + ((4 : ℕ) : ℤ) ≤ doc.length) := by omega
      unfold bsonDecodeOn ldecode bytesAt
      rw [if_neg hout]
      rfl
    obtain ⟨err, herr⟩ := h .outside (by rw [hrun]; rfl)
    cases herr
  have hends := follows_ldecode frames top hheader
  unfold SoundDocument Decoded
  cases hrun : bsonDecodeOn (some frames) top doc with
  | ok v s' =>
    obtain ⟨k, hk⟩ := hends.of_ok hrun
    rw [hk]
    exact iff_of_true (by rintro _ ⟨⟩) ⟨hheader, by rintro ⟨⟩⟩
  | error e s' =>
    obtain ⟨⟨err, rfl⟩, hwalk⟩ | ⟨he, hwalk⟩ := hends.of_error hrun
    · rw [hwalk]
      refine iff_of_true ?_ ⟨hheader, by rintro ⟨⟩⟩
      rintro _ ⟨⟩
      exact ⟨err, rfl⟩
    · rw [hwalk]
      refine iff_of_false (fun h => ?_) fun h => h.2 rfl
      obtain ⟨err, rfl⟩ := h e rfl
      obtain he | he := he <;> cases he

example : walkDocument [13, 0, 0, 0, 3, 0x61, 0, 5, 0, 0, 0, 0, 0] 1 1 = .ok 13 ∧
    walkDocument [13, 0, 0, 0, 3, 0x61, 0, 5, 0, 0, 0, 0, 0] 0 1 = .error .leaves := by
  decide +kernel

/-- **Before the document.**  An embedded document that states the length -16: `read_bytes`
goes back by 21 bytes, and the byte that is to end the document is read ten bytes before
the reply. -/
theorem length_steps_back : ¬Decoded (bsonDecodeOn (some 1000) 1
    [13, 0, 0, 0, 3, 0x61, 0, 0xf0, 0xff, 0xff, 0xff, 0, 0]) := by
  have hstop : stoppedWith (bsonDecodeOn (some 1000) 1
      [13, 0, 0, 0, 3, 0x61, 0, 0xf0, 0xff, 0xff, 0xff, 0, 0]) = some .outside := by
    decide +kernel
  intro h
  obtain ⟨err, herr⟩ := h _ hstop
  cases herr

end Skynet.Analysis
