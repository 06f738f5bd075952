import Skynet.Analysis.BsonReading
import Skynet.Analysis.LuaSeriTables
import Skynet.Model.BsonEncode

/-!
# What `bson.encode` writes

Encoding that succeeds appends to the buffer.  The lengths that are patched are those of what
was appended, since the buffer has fewer than `2 ^ 31` bytes.
-/

namespace Skynet.Analysis

open Library Model List

/-! ## The format -/

def element (type : ℕ) (key content : Bytes) : Bytes :=
  UInt8.ofNat type :: (key ++ 0 :: content)

def document (x : Bytes) : Bytes := leBytes 4 (x.length + 5) ++ (x ++ [0])

/-- The types of the strings that stand for values that Lua does not have, without those that
are copied as they are. -/
def objectTypes : List ℕ :=
  [bsonBinary, bsonObjectid, bsonDate, bsonTimestamp, bsonRegex, bsonNull, bsonMinkey, bsonMaxkey]

/-- The content of an object. -/
inductive ObjectBytes : ℕ → Bytes → Bytes → Prop
  | binary (str : Bytes) :
    ObjectBytes bsonBinary str (leBytes 4 (((str.length : ℤ) - 1) % 2 ^ 32).toNat ++ str)
  | objectid {str : Bytes} (h : str.length = 12) : ObjectBytes bsonObjectid str str
  | date {str : Bytes} (h : str.length = 4) :
    ObjectBytes bsonDate str (leBytes 8 (leNat str * 1000))
  | timestamp {str : Bytes} (h : str.length = 8) : ObjectBytes bsonTimestamp str str
  | regex {str r1 r2 : Bytes} (h : splitRegex str = some (r1, r2)) :
    ObjectBytes bsonRegex str (r1 ++ 0 :: (r2 ++ [0]))
  | empty {type : ℕ} (h : type = bsonMinkey ∨ type = bsonMaxkey ∨ type = bsonNull)
      (str : Bytes) : ObjectBytes type str []
  | other {type : ℕ} (h : type ∉ objectTypes) (str content : Bytes) :
    ObjectBytes type str content

inductive KeyText : Bool → LuaValue ℕ → Bytes → Prop
  | string (s : Bytes) : KeyText false (.scalar (.string s)) s
  | index {i : ℕ} (h : i + 1 < 2 ^ 31) : KeyText true (intKey (i + 1 : ℕ)) (bsonNumstr i)

def indexedEntries (border : ℕ) (es : LuaEntries ℕ) : LuaEntries ℕ :=
  (range' 1 border).map fun (i : ℕ) => (intKey i, rawgeti es i)

def packedEntries (border : ℕ) (es : LuaEntries ℕ) : LuaEntries ℕ :=
  if isRawarray border es then indexedEntries border es else es

mutual

/-- What is written for a value: its type and its content. -/
inductive Written : LuaValue ℕ → ℕ → Bytes → Prop
  | boolean (b : Bool) : Written (.scalar (.boolean b)) bsonBoolean [UInt8.ofNat b.toNat]
  | int32 {i : BitVec 64} (h : is32bit i = true) :
    Written (.scalar (.integer i)) bsonInt32 (leBytes 4 (i.toInt % 2 ^ 32).toNat)
  | int64 (i : BitVec 64) : Written (.scalar (.integer i)) bsonInt64 (leBytes 8 i.toNat)
  | real (d : BitVec 64) : Written (.scalar (.real d)) bsonReal (leBytes 8 d.toNat)
  | string {s : Bytes} (h : ∀ subt str, s ≠ 0 :: subt :: str) :
    Written (.scalar (.string s)) bsonString (leBytes 4 (s.length + 1) ++ (s ++ [0]))
  | object {subt : UInt8} {str content : Bytes}
      (h : ObjectBytes subt.toNat str content) :
    Written (.scalar (.string (0 :: subt :: str))) subt.toNat content
  | table {border : ℕ} {es : LuaEntries ℕ} {x : Bytes}
      (h : WrittenEntries (isRawarray border es) (packedEntries border es) x) :
    Written (.table border es) (if isRawarray border es then bsonArray else bsonDocument)
      (document x)

inductive WrittenEntries : Bool → LuaEntries ℕ → Bytes → Prop
  | nil (array : Bool) : WrittenEntries array [] []
  | cons {array : Bool} {k v : LuaValue ℕ} {text content x : Bytes} {type : ℕ}
      {es : LuaEntries ℕ} (hk : KeyText array k text) (hv : Written v type content)
      (h : WrittenEntries array es x) :
    WrittenEntries array ((k, v) :: es) (element type text content ++ x)

end

/-! ## Appending -/

structure BufferFits (b : BsonBuffer) : Prop where
  inside : (b.bytes.length : ℤ) ≤ b.cap
  int : b.cap < 2 ^ 31

def Grows {α : Type} (m : BsonWrite α) (P : Bytes → Prop) : Prop :=
  ∀ ⦃b a b'⦄, BufferFits b → m b = .ok a b' → BufferFits b' ∧ ∃ x, b'.bytes = b.bytes ++ x ∧ P x

section Programs

variable {α β : Type} {m : BsonWrite α} {f : α → BsonWrite β} {P Q : Bytes → Prop}
  {b b' : BsonBuffer}

theorem write_bind {c : β} : (m >>= f) b = .ok c b' ↔
    ∃ a b₁, m b = .ok a b₁ ∧ f a b₁ = .ok c b' := by
  change EStateM.bind m f b = .ok c b' ↔ _
  unfold EStateM.bind
  cases hm : m b with
  | ok a b₁ => simp
  | error e b₁ => simp

theorem Grows.mono (h : Grows m P) (hPQ : ∀ x, P x → Q x) : Grows m Q := by
  intro b a b' hb hm
  obtain ⟨hb', x, hx, hP⟩ := h hb hm
  exact ⟨hb', x, hx, hPQ x hP⟩

theorem Grows.bind (hm : Grows m P) (hf : ∀ a x, P x → Grows (f a) fun y => Q (x ++ y)) :
    Grows (m >>= f) Q := by
  intro b c b' hb h
  obtain ⟨a, b₁, hfirst, hsecond⟩ := write_bind.1 h
  obtain ⟨hb₁, x, hx, hP⟩ := hm hb hfirst
  obtain ⟨hb', y, hy, hQ⟩ := hf a x hP hb₁ hsecond
  exact ⟨hb', x ++ y, by rw [hy, hx, append_assoc], hQ⟩

theorem Grows.throw {e : BsonEncodeStop} : Grows (throw e : BsonWrite α) P :=
  fun _ _ _ _ h => by cases h

theorem Grows.pure {a : α} (h : P []) : Grows (pure a : BsonWrite α) P := by
  intro b c b' hb hm
  cases hm
  exact ⟨hb, [], (append_nil _).symm, h⟩

theorem Grows.ite {c : Prop} [Decidable c] {m' : BsonWrite α} (hthen : c → Grows m P)
    (helse : ¬c → Grows m' P) : Grows (if c then m else m') P := by
  split
  · next h => exact hthen h
  · next h => exact helse h

theorem Grows.small (h : Grows m P) : Grows m fun x => P x ∧ x.length < 2 ^ 31 := by
  intro b a b' hb hm
  obtain ⟨hb', x, hx, hP⟩ := h hb hm
  have hlen := congrArg List.length hx
  rw [length_append] at hlen
  have hinside := hb'.inside
  have hint := hb'.int
  exact ⟨hb', x, hx, hP, by omega⟩

theorem Grows.forM {ι : Type} {g : ι → BsonWrite PUnit} {R : ι → Bytes → Prop}
    (l : List ι) (h : ∀ i ∈ l, Grows (g i) (R i)) :
    Grows (l.forM g) fun x => ∃ xs, Forall₂ R l xs ∧ x = xs.flatten := by
  induction l with
  | nil => exact .pure ⟨[], .nil, rfl⟩
  | cons i l ih =>
    refine (h i mem_cons_self).bind fun _ x hx => ?_
    refine (ih fun j hj => h j (mem_cons_of_mem _ hj)).mono ?_
    rintro y ⟨xs, hxs, rfl⟩
    exact ⟨x :: xs, .cons hx hxs, rfl⟩

end Programs

/-! ## The buffer -/

theorem reserveLoop_spec {need cap cap' : ℤ} {n : ℕ} (h : reserveLoop need n cap = some cap') :
    need < cap' ∧ cap' < 2 ^ 31 := by
  induction n generalizing cap with
  | zero => cases h
  | succ n ih =>
    unfold reserveLoop at h
    split at h
    · exact ih h
    · cases h
      exact ⟨by omega, (toInt32_bounds _).2⟩

theorem grows_reserve (sz : ℤ) : Grows (bsonReserve sz) fun x => x = [] := by
  intro b a b' hb h
  obtain ⟨b₁, b₂, hget, h⟩ := write_bind.1 h
  cases hget
  by_cases hneed : toInt32 (b.bytes.length + toInt32 sz) ≤ b.cap
  · rw [if_pos hneed] at h
    cases h
    exact ⟨hb, [], (append_nil _).symm, rfl⟩
  · rw [if_neg hneed] at h
    cases hcap : reserveLoop (toInt32 (b.bytes.length + toInt32 sz)) 32 b.cap with
    | none =>
      rw [hcap] at h
      cases h
    | some cap =>
      rw [hcap] at h
      cases h
      obtain ⟨hlt, hint⟩ := reserveLoop_spec hcap
      have hinside := hb.inside
      exact ⟨⟨by simp only; omega, hint⟩, [], (append_nil _).symm, rfl⟩

theorem grows_put (bytes : Bytes) : Grows (bsonPut bytes) fun x => x = bytes := by
  intro b a b' hb h
  obtain ⟨b₁, b₂, hget, h⟩ := write_bind.1 h
  cases hget
  split at h
  · next hroom =>
    cases h
    exact ⟨⟨by simpa using hroom, hb.int⟩, bytes, rfl, rfl⟩
  · cases h

theorem grows_bytes (bytes : Bytes) : Grows (bsonWriteBytes bytes) fun x => x = bytes := by
  refine (grows_reserve _).bind ?_
  rintro _ _ rfl
  exact grows_put bytes

theorem leBytes_length (n : ℕ) : leBytes 4 ((n : ℤ) % 2 ^ 32).toNat = leBytes 4 n := by
  have hvalue : ((n : ℤ) % 2 ^ 32).toNat = n % 256 ^ 4 := by omega
  rw [hvalue, leBytes_mod]

variable {P : Bytes → Prop} {m : BsonWrite Unit}

theorem grows_length (hm : Grows m P) (v : ℕ → ℕ → ℤ) (len : Bytes → ℤ)
    (hv : ∀ off x, P x → off + 4 + x.length < 2 ^ 31 → v off (off + 4 + x.length) = len x) :
    Grows (do
      let off ← reserveLength
      m
      let b ← get
      writeLength (v off b.bytes.length) off)
      fun x => ∃ y, P y ∧ x = leBytes 4 (len y % 2 ^ 32).toNat ++ y := by
  intro b a b' hb h
  obtain ⟨off, b₁, hreserve, h⟩ := write_bind.1 h
  obtain ⟨_, b₂, hbody, h⟩ := write_bind.1 h
  obtain ⟨_, b₃, hget, h⟩ := write_bind.1 h
  cases hget
  cases h
  obtain ⟨b₀, _, hget, hreserve⟩ := write_bind.1 hreserve
  cases hget
  obtain ⟨_, _, hzeros, hreserve⟩ := write_bind.1 hreserve
  cases hreserve
  obtain ⟨hb₁, x, hx, rfl⟩ := grows_bytes _ hb hzeros
  obtain ⟨hb₂, y, hy, hP⟩ := hm hb₁ hbody
  have hbytes : b₂.bytes = b.bytes ++ ([0, 0, 0, 0] ++ y) := by
    rw [hy, hx, append_assoc]
  have hlen : b₂.bytes.length = b.bytes.length + 4 + y.length := by
    rw [hbytes, length_append, length_append]
    simp only [length_cons, length_nil]
    omega
  have hinside := hb₂.inside
  have hint := hb₂.int
  have htake : b₂.bytes.take b.bytes.length = b.bytes := by rw [hbytes, take_left]
  have hdrop : b₂.bytes.drop (b.bytes.length + 4) = y := by
    rw [hbytes, ← drop_drop, drop_left]
    rfl
  have hpatched : b₂.bytes.take b.bytes.length ++
      leBytes 4 (v b.bytes.length b₂.bytes.length % 2 ^ 32).toNat ++
        b₂.bytes.drop (b.bytes.length + 4) =
      b.bytes ++ (leBytes 4 (len y % 2 ^ 32).toNat ++ y) := by
    rw [htake, hdrop, hlen, hv _ _ hP (by omega), append_assoc]
  refine ⟨⟨?_, hint⟩, _, hpatched, y, hP, rfl⟩
  simp only [hpatched, length_append, length_leBytes]
  omega

/-! ## Strings and numbers -/

theorem grows_byte (v : ℕ) : Grows (writeByte v) fun x => x = [UInt8.ofNat v] := grows_bytes _

theorem grows_string (s : Bytes) : Grows (writeString s) fun x => x = s ++ [0] := by
  refine (grows_reserve _).bind ?_
  rintro _ _ rfl
  exact Grows.ite (fun _ => grows_put _) fun _ => .throw

theorem grows_key (type : ℕ) (key : Bytes) :
    Grows (appendKey type key) fun x => x = UInt8.ofNat type :: (key ++ [0]) := by
  refine (grows_byte type).bind ?_
  rintro _ _ rfl
  exact (grows_string key).mono fun _ h => by rw [h]; rfl

theorem grows_element {type : ℕ} {key : Bytes} (hm : Grows m P) : Grows
    (do appendKey type key; m) fun x => ∃ y, P y ∧ x = element type key y := by
  refine (grows_key type key).bind ?_
  rintro _ _ rfl
  refine hm.mono fun y hy => ⟨y, hy, ?_⟩
  simp [element]

def WritesElement (key : Bytes) (v : LuaValue ℕ) (x : Bytes) : Prop :=
  ∃ type content, Written v type content ∧ x = element type key content

theorem grows_integer (key : Bytes) (i : BitVec 64) :
    Grows (appendInteger key i) (WritesElement key (.scalar (.integer i))) := by
  refine Grows.ite (fun h => ?_) fun _ => ?_
  · refine (grows_element (grows_bytes _)).mono ?_
    rintro _ ⟨_, rfl, rfl⟩
    exact ⟨_, _, .int32 h, rfl⟩
  · refine (grows_element (grows_bytes _)).mono ?_
    rintro _ ⟨_, rfl, rfl⟩
    exact ⟨_, _, .int64 i, rfl⟩

theorem grows_real (key : Bytes) (d : BitVec 64) :
    Grows (appendReal key d) (WritesElement key (.scalar (.real d))) := by
  refine (grows_element (grows_bytes _)).mono ?_
  rintro _ ⟨_, rfl, rfl⟩
  exact ⟨_, _, .real d, rfl⟩

theorem grows_binary (str : Bytes) : Grows (writeBinary str) (ObjectBytes bsonBinary str) := by
  have hlength := grows_length (grows_bytes str) (fun _ _ => (str.length : ℤ) - 1)
    (fun _ => (str.length : ℤ) - 1) (fun _ _ _ _ => rfl)
  intro b a b' hb h
  obtain ⟨hb', x, hx, y, rfl, rfl⟩ := hlength hb h
  exact ⟨hb', _, hx, .binary y⟩

theorem grows_regex (str : Bytes) : Grows (writeRegex str) (ObjectBytes bsonRegex str) := by
  unfold writeRegex
  split
  · next r1 r2 hsplit =>
    refine (grows_string r1).bind ?_
    rintro _ _ rfl
    refine (grows_string r2).mono ?_
    rintro _ rfl
    have hbytes : r1 ++ [0] ++ (r2 ++ [0]) = r1 ++ 0 :: (r2 ++ [0]) := by simp
    rw [hbytes]
    exact .regex hsplit
  · exact Grows.ite (fun _ => .throw) fun _ => .throw

theorem grows_timestamp {str : Bytes} (h : str.length = 8) :
    Grows (do
      writeInt32 (leNat (str.take 4))
      writeInt32 (leNat (str.drop 4)))
      (ObjectBytes bsonTimestamp str) := by
  have hcopy : ∀ l : Bytes, l.length = 4 → leBytes 4 ((leNat l : ℤ) % 2 ^ 32).toNat = l := by
    intro l hl
    rw [leBytes_length, ← hl, leBytes_leNat]
  refine (grows_bytes _).bind ?_
  rintro _ _ rfl
  refine (grows_bytes _).mono ?_
  rintro _ rfl
  rw [hcopy _ (by simp [h]), hcopy _ (by simp [h]), take_append_drop]
  exact .timestamp h

theorem grows_object (subt : ℕ) (str : Bytes) :
    Grows (writeObject subt str) (ObjectBytes subt str) := by
  have hcopied : subt ∉ objectTypes → Grows (bsonWriteBytes str) (ObjectBytes subt str) :=
    fun h => (grows_bytes str).mono fun x _ => .other h str x
  unfold writeObject
  split
  · exact grows_binary str
  · refine Grows.ite (fun _ => .throw) fun h => ?_
    rw [not_not] at h
    exact (grows_bytes str).mono fun x hx => by rw [hx]; exact .objectid h
  · exact hcopied (by decide)
  · exact hcopied (by decide)
  · exact hcopied (by decide)
  · exact hcopied (by decide)
  · refine Grows.ite (fun _ => .throw) fun h => ?_
    rw [not_not] at h
    refine (grows_bytes _).mono ?_
    rintro _ rfl
    have hlt := leNat_lt str
    rw [h] at hlt
    rw [BitVec.toNat_ofNat, Nat.mod_eq_of_lt (by omega)]
    exact .date h
  · refine Grows.ite (fun _ => .throw) fun h => ?_
    rw [not_not] at h
    exact grows_timestamp h
  · exact grows_regex str
  · exact .pure (.empty (.inl rfl) str)
  · exact .pure (.empty (.inr (.inl rfl)) str)
  · exact .pure (.empty (.inr (.inr rfl)) str)
  · refine Grows.ite (fun _ => .throw) fun _ => ?_
    exact (grows_bytes _).mono fun x _ => .other (by decide) str x
  · exact .throw

theorem grows_appendString (key s : Bytes) :
    Grows (appendString key s) (WritesElement key (.scalar (.string s))) := by
  unfold appendString
  split
  · refine (grows_element (grows_object _ _)).mono ?_
    rintro _ ⟨_, hbytes, rfl⟩
    exact ⟨_, _, .object hbytes, rfl⟩
  · next hplain =>
    have hlength := grows_length (grows_string s) (fun _ _ => (s.length : ℤ) + 1)
      (fun x => (x.length : ℤ)) (fun _ _ hx _ => by rw [hx]; simp)
    refine (grows_element hlength).mono ?_
    rintro _ ⟨_, ⟨_, rfl, rfl⟩, rfl⟩
    have hwritten : Written (.scalar (.string s)) _ _ :=
      .string fun subt str heq => hplain subt str heq
    refine ⟨_, _, hwritten, ?_⟩
    rw [leBytes_length, length_append, length_singleton]

/-! ## Tables -/

theorem grows_document (hm : Grows m P) :
    Grows (packDocument m) fun x => ∃ y, P y ∧ x = document y := by
  have hbody : Grows (do m; writeByte 0) fun x => ∃ y, P y ∧ x = y ++ [0] := by
    refine hm.bind fun _ y hy => ?_
    exact (grows_byte 0).mono fun _ hx => ⟨y, hy, by rw [hx]; rfl⟩
  have hlength := grows_length hbody (fun off size => toInt32 ((size : ℤ) - off))
    (fun x => (x.length : ℤ) + 4) fun off x _ hlt => by
      rw [toInt32_eq (by omega) (by omega)]
      omega
  simp only [bind_assoc] at hlength
  refine Grows.mono hlength ?_
  rintro _ ⟨_, ⟨y, hy, rfl⟩, rfl⟩
  refine ⟨y, hy, ?_⟩
  have hlen : ((y ++ [0]).length : ℤ) + 4 = ((y.length + 5 : ℕ) : ℤ) := by
    rw [length_append, length_singleton]
    omega
  rw [hlen, leBytes_length]
  rfl

theorem grows_simpleDict {append : Bytes → LuaValue ℕ → BsonWrite Unit}
    (hone : ∀ key v, Grows (append key v) (WritesElement key v)) (es : LuaEntries ℕ) :
    Grows (packSimpleDict append es) fun x => ∃ y, WrittenEntries false es y ∧ x = document y := by
  refine grows_document ?_
  refine (Grows.forM (R := fun e x => ∃ key, e.1 = .scalar (.string key) ∧ WritesElement key e.2 x)
    es ?_).mono ?_
  · rintro ⟨k, v⟩ -
    unfold packDictData
    split
    · exact .throw
    · exact .throw
    · next key v heq =>
      cases heq
      exact (hone key v).mono fun x hx => ⟨key, rfl, hx⟩
    · exact .throw
  · rintro _ ⟨xs, hxs, rfl⟩
    induction hxs with
    | nil => exact .nil false
    | @cons e x es xs hx _ ih =>
      obtain ⟨k, v⟩ := e
      obtain ⟨key, rfl, type, content, hv, rfl⟩ := hx
      exact .cons (.string key) hv ih

variable {es : LuaEntries ℕ}

theorem length_le_flatten {l : List ℕ} {xs : List Bytes}
    (h : Forall₂ (fun (i : ℕ) => WritesElement (bsonNumstr (i - 1)) (rawgeti es i)) l xs) :
    l.length ≤ xs.flatten.length := by
  induction h with
  | nil => exact le_refl 0
  | cons hx _ ih =>
    obtain ⟨type, content, -, rfl⟩ := hx
    simp only [length_cons, flatten_cons, length_append, element]
    omega

theorem writtenEntries_indexed {l : List ℕ} {xs : List Bytes} (hl : ∀ i ∈ l, 0 < i ∧ i < 2 ^ 31)
    (h : Forall₂ (fun (i : ℕ) => WritesElement (bsonNumstr (i - 1)) (rawgeti es i)) l xs) :
    WrittenEntries true (l.map fun (i : ℕ) => (intKey i, rawgeti es i)) xs.flatten := by
  induction h with
  | nil => exact .nil true
  | @cons i x l xs hx _ ih =>
    obtain ⟨hpos, hlt⟩ := hl i mem_cons_self
    obtain ⟨j, rfl⟩ := Nat.exists_eq_succ_of_ne_zero hpos.ne'
    obtain ⟨type, content, hv, rfl⟩ := hx
    exact .cons (.index hlt) hv (ih fun i hi => hl i (mem_cons_of_mem _ hi))

theorem grows_array {append : Bytes → LuaValue ℕ → BsonWrite Unit}
    (hone : ∀ key v, Grows (append key v) (WritesElement key v)) (border : ℕ)
    (es : LuaEntries ℕ) :
    Grows (packArray append border es) fun x =>
      ∃ y, WrittenEntries true (indexedEntries border es) y ∧ x = document y := by
  refine grows_document ?_
  have hall := Grows.forM (g := fun i => append (bsonNumstr (i - 1)) (rawgeti es i))
    (R := fun (i : ℕ) => WritesElement (bsonNumstr (i - 1)) (rawgeti es i))
    (range' 1 border) fun i _ => hone _ _
  refine hall.small.mono ?_
  rintro _ ⟨⟨xs, hxs, rfl⟩, hlt⟩
  have hlen := length_le_flatten hxs
  rw [length_range'] at hlen
  refine writtenEntries_indexed (fun i hi => ?_) hxs
  rw [mem_range'_1] at hi
  omega

theorem grows_table (room top : ℕ) (key : Bytes) (border : ℕ) (es : LuaEntries ℕ)
    (hone : ∀ top key v, Grows (appendOne room top key v) (WritesElement key v)) :
    Grows (appendOne (room + 1) top key (.table border es))
      (WritesElement key (.table border es)) := by
  have hwritten : ∀ {x}, WrittenEntries (isRawarray border es) (packedEntries border es) x →
      Written (.table border es) _ (document x) := .table
  refine Grows.ite (fun _ => ?_) fun _ => .throw
  unfold packedEntries at hwritten
  cases harray : isRawarray border es with
  | true =>
    rw [harray] at hwritten
    refine (grows_element (grows_array (hone _) border es)).mono ?_
    rintro _ ⟨_, ⟨y, hy, rfl⟩, rfl⟩
    exact ⟨_, _, hwritten hy, rfl⟩
  | false =>
    rw [harray] at hwritten
    refine (grows_element (grows_simpleDict (hone _) es)).mono ?_
    rintro _ ⟨_, ⟨y, hy, rfl⟩, rfl⟩
    exact ⟨_, _, hwritten hy, rfl⟩

/-- **What `append_one` writes.** -/
theorem grows_appendOne (room : ℕ) : ∀ top key v,
    Grows (appendOne room top key v) (WritesElement key v) := by
  have hscalar : ∀ room top key w,
      Grows (appendOne room top key (.scalar w)) (WritesElement key (.scalar w)) := by
    intro room top key w
    cases w with
    | integer i => rw [appendOne]; exact grows_integer key i
    | real d => rw [appendOne]; exact grows_real key d
    | string s => rw [appendOne]; exact grows_appendString key s
    | boolean b =>
      rw [appendOne]
      refine (grows_element (grows_byte _)).mono ?_
      rintro _ ⟨_, rfl, rfl⟩
      exact ⟨_, _, .boolean b, rfl⟩
    | nil => rw [appendOne]; exact .throw
    | lightuserdata p => rw [appendOne]; exact .throw
  have hother : ∀ room top key t,
      Grows (appendOne room top key (.other t)) (WritesElement key (.other t)) := by
    intro room top key t
    rw [appendOne]
    exact Grows.ite (fun _ => .throw) fun _ => .throw
  induction room with
  | zero =>
    intro top key v
    cases v with
    | scalar w => exact hscalar 0 top key w
    | other t => exact hother 0 top key t
    | table border es =>
      exact .throw
  | succ room ih =>
    intro top key v
    cases v with
    | scalar w => exact hscalar _ top key w
    | other t => exact hother _ top key t
    | table border es => exact grows_table room top key border es ih

/-- **What `bson.encode` writes**, in fewer than `2 ^ 31` bytes. -/
theorem encode_written {top border : ℕ} {doc : Bytes}
    (h : bsonEncode top (.table border es) = .ok doc) :
    ∃ x, WrittenEntries false es x ∧ doc = document x ∧ doc.length < 2 ^ 31 := by
  have hgrows := grows_simpleDict (fun key v => grows_appendOne bsonMaxDepth (top + 2) key v) es
  rw [bsonEncode] at h
  split at h
  · next b hb =>
    cases h
    have hcreate : BufferFits .create := ⟨by decide, by decide⟩
    obtain ⟨-, x, hx, ⟨y, hy, rfl⟩, hlt⟩ := hgrows.small hcreate hb
    have hdoc : b.bytes = document y := hx
    exact ⟨y, hy, hdoc, hdoc ▸ hlt⟩
  · cases h

end Skynet.Analysis
