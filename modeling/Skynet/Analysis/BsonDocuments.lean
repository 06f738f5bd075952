import Skynet.Analysis.BsonReadBack

/-!
# Documents that are read back

What the format carries, and what is read of a value that was written: it is the same as the
value exactly when it is carried.  Keys are text, and those of an array come back from their
digits; a table comes back if its entries do and none was left out.
-/

namespace Skynet.Analysis

open Library Model List UInt8 Nat BitVec

/-! ## What the format carries -/

def CarriedString : Bytes → Prop
  | 0 :: subt :: str => CarriedObject subt.toNat str
  | _ => True

def ListedString : Bytes → Prop
  | 0 :: subt :: _ => subt.toNat ∈ objectTypes
  | _ => True

def SplitString : Bytes → Prop
  | 0 :: subt :: str => SplitObject subt.toNat str
  | _ => True

def CarriedScalar : Scalar → Prop
  | .string s => CarriedString s
  | _ => True

/-- The keys that come back: those of an array where the table is packed as one, and strings
without zeros otherwise. -/
def CarriedKey (border : ℕ) (es : LuaEntries ℕ) (k : LuaValue ℕ) : Prop :=
  if isRawarray border es then ∃ i : ℕ, 1 ≤ i ∧ i ≤ border ∧ k = intKey i
  else ∀ s, k = .scalar (.string s) → 0 ∉ s

inductive Carried : ℕ → LuaValue ℕ → Prop
  | scalar {top : ℕ} {w : Scalar} (h : CarriedScalar w) : Carried top (.scalar w)
  | table {top border : ℕ} {es : LuaEntries ℕ} (hroom : bsonStackRoom top = true)
      (hkeys : ∀ e ∈ es, CarriedKey border es e.1) (hvalues : ∀ e ∈ es, Carried (top + 2) e.2) :
    Carried top (.table border es)

inductive EveryString {β : Type} (S K : Bytes → Prop) : LuaValue β → Prop
  | scalar {w : Scalar} (h : ∀ s, w = .string s → S s) : EveryString S K (.scalar w)
  | other (t : String) : EveryString S K (.other t)
  | table {border : β} {es : LuaEntries β} (hkeys : ∀ e ∈ es, ∀ s, e.1 = .scalar (.string s) → K s)
      (hvalues : ∀ e ∈ es, EveryString S K e.2) : EveryString S K (.table border es)

/-! ## Scalars -/

theorem same_scalar {v w : Scalar} : Same (.scalar v) (.scalar w) ↔ v = w := by
  constructor
  · intro h
    cases h
    rfl
  · rintro rfl
    exact .scalar v

section Scalars

variable {doc : Bytes} {s : BsonState} (nested : Bool → BsonRead (LuaValue Unit))

theorem ends_real {d : BitVec 64} (h : Ahead doc s.reader (leBytes 8 d.toNat)) :
    Ends (unpackValue doc nested bsonReal) s
      (fun v s' => s'.reader = readerOn s.reader 8 ∧ v = .scalar (.real d)) fun _ _ => False := by
  simp only [unpackValue]
  rw [Ends.bind]
  apply (h.ends_readInt64 d.isLt).mono
  · rintro w s' ⟨hs', rfl⟩
    exact Ends.pure.2 ⟨hs', by rw [BitVec.ofNat_toNat, setWidth_eq]⟩
  · exact fun _ _ h => h

theorem ends_int64 {i : BitVec 64} (h : Ahead doc s.reader (leBytes 8 i.toNat)) :
    Ends (unpackValue doc nested bsonInt64) s
      (fun v s' => s'.reader = readerOn s.reader 8 ∧ v = .scalar (.integer i))
      fun _ _ => False := by
  simp only [unpackValue]
  rw [Ends.bind]
  apply (h.ends_readInt64 i.isLt).mono
  · rintro w s' ⟨hs', rfl⟩
    exact Ends.pure.2 ⟨hs', by rw [BitVec.ofNat_toNat, setWidth_eq]⟩
  · exact fun _ _ h => h

theorem ends_int32 {i : BitVec 64} (hi : is32bit i = true)
    (h : Ahead doc s.reader (leBytes 4 (i.toInt % 2 ^ 32).toNat)) :
    Ends (unpackValue doc nested bsonInt32) s
      (fun v s' => s'.reader = readerOn s.reader 4 ∧ v = .scalar (.integer i))
      fun _ _ => False := by
  simp only [is32bit, Bool.and_eq_true, decide_eq_true_eq] at hi
  simp only [unpackValue]
  rw [Ends.bind]
  apply h.ends_readInt32.mono
  · rintro w s' ⟨hs', rfl⟩
    refine Ends.pure.2 ⟨hs', ?_⟩
    have hvalue : toInt32 (((i.toInt % 2 ^ 32).toNat % 2 ^ 32 : ℕ) : ℤ) = i.toInt := by
      obtain ⟨hlow, hhigh, k, hk⟩ := toInt32_spec (((i.toInt % 2 ^ 32).toNat % 2 ^ 32 : ℕ) : ℤ)
      omega
    rw [hvalue, ofInt_toInt]
  · exact fun _ _ h => h

theorem ends_boolean {b : Bool} (h : Ahead doc s.reader [UInt8.ofNat b.toNat]) :
    Ends (unpackValue doc nested bsonBoolean) s
      (fun v s' => s'.reader = readerOn s.reader 1 ∧ v = .scalar (.boolean b))
      fun _ _ => False := by
  simp only [unpackValue]
  rw [Ends.bind]
  apply (h.ends_readLe (n := 1) rfl).mono
  · rintro w s' ⟨hs', rfl⟩
    exact Ends.pure.2 ⟨hs', by cases b <;> rfl⟩
  · exact fun _ _ h => h

theorem ends_string {str : Bytes}
    (h : Ahead doc s.reader (leBytes 4 (str.length + 1) ++ (str ++ [0]))) :
    Ends (unpackValue doc nested bsonString) s
      (fun v s' => s'.reader = readerOn s.reader (4 + (str.length + 1)) ∧
        v = .scalar (.string str)) fun _ _ => False := by
  have hsize := h.size
  have hint := h.within.int
  simp only [length_append, length_leBytes, length_singleton] at hsize
  simp only [unpackValue]
  rw [Ends.bind]
  apply h.left.ends_readInt32.mono
  case hE => exact fun _ _ h => h
  rintro sz s₁ ⟨hs₁, rfl⟩
  have hsz : toInt32 (((str.length + 1) % 2 ^ 32 : ℕ) : ℤ) = str.length + 1 := by
    rw [toInt32_eq (by omega) (by omega)]
    omega
  have hrest : Ahead doc s₁.reader (str ++ [0]) := by
    rw [hs₁]
    exact h.rest
  rw [hsz, if_neg (by omega), Ends.bind]
  apply (hrest.ends_readBytes (by simp)).mono
  case hE => exact fun _ _ h => h
  rintro p s₂ ⟨rfl, hs₂⟩
  rw [Ends.bind]
  apply (hrest.left.ends_bytesAt s₂ (by omega)).mono
  case hE => exact fun _ _ h => h
  rintro _ _ ⟨rfl, rfl⟩
  refine Ends.pure.2 ⟨?_, rfl⟩
  rw [hs₂, hs₁, length_append, length_singleton]
  simp only [readerOn, BsonReader.mk.injEq]
  omega

theorem ends_scalar {w : Scalar} {type : ℕ} {content : Bytes}
    (hw : Written (.scalar w) type content)
    (hstring : ∀ str, w = .string str → ListedString str ∧ SplitString str)
    (h : Ahead doc s.reader content) :
    Ends (unpackValue doc nested type) s
      (fun v s' => s'.reader = readerOn s.reader content.length ∧ v.isNil = false ∧
        (Same (.scalar w) v ↔ CarriedScalar w)) fun _ _ => ¬ CarriedScalar w := by
  cases hw with
  | boolean b =>
    apply (ends_boolean nested h).mono
    · rintro v s' ⟨hs', rfl⟩
      exact ⟨hs', rfl, iff_of_true (.scalar _) trivial⟩
    · exact fun _ _ h => h.elim
  | int32 hi =>
    apply (ends_int32 nested hi h).mono
    · rintro v s' ⟨hs', rfl⟩
      exact ⟨hs', rfl, iff_of_true (.scalar _) trivial⟩
    · exact fun _ _ h => h.elim
  | int64 i =>
    apply (ends_int64 nested h).mono
    · rintro v s' ⟨hs', rfl⟩
      exact ⟨hs', rfl, iff_of_true (.scalar _) trivial⟩
    · exact fun _ _ h => h.elim
  | real d =>
    apply (ends_real nested h).mono
    · rintro v s' ⟨hs', rfl⟩
      exact ⟨hs', rfl, iff_of_true (.scalar _) trivial⟩
    · exact fun _ _ h => h.elim
  | @string str hplain =>
    have hcarried : CarriedString str := by
      unfold CarriedString
      split
      · next subt rest => exact absurd rfl (hplain subt rest)
      · trivial
    apply (ends_string nested h).mono
    · rintro v s' ⟨hs', rfl⟩
      refine ⟨?_, rfl, iff_of_true (.scalar _) hcarried⟩
      rw [hs', length_append, length_leBytes, length_append, length_singleton]
    · exact fun _ _ h => h.elim
  | @object subt str _ hbytes =>
    obtain ⟨hlisted, hsplit⟩ := hstring _ rfl
    apply (ends_object nested hbytes hlisted hsplit h).mono
    · rintro v s' ⟨hs', c, rfl, hc⟩
      refine ⟨hs', rfl, ?_⟩
      rw [bsonObject, same_scalar, UInt8.ofNat_toNat, CarriedScalar, CarriedString, ← hc]
      simp [eq_comm]
    · exact fun _ _ h => h

end Scalars

/-! ## Keys -/

theorem digit_byte {d : ℕ} (h : d < 10) : (UInt8.ofNat (0x30 + d)).toNat = 0x30 + d := by
  rw [toNat_ofNat']
  omega

theorem leadingDecimal_digits {l : List ℕ} (h : ∀ d ∈ l, d < 10) :
    leadingDecimal (l.reverse.map fun d => UInt8.ofNat (0x30 + d)) = ofDigits 10 l := by
  have hall : (l.reverse.map fun d => UInt8.ofNat (0x30 + d)).takeWhile
      (fun b => 0x30 ≤ b && b ≤ 0x39) = l.reverse.map fun d => UInt8.ofNat (0x30 + d) := by
    rw [takeWhile_eq_self_iff]
    intro b hb
    obtain ⟨d, hd, rfl⟩ := mem_map.1 hb
    have hlt := h d (mem_reverse.1 hd)
    simp only [Bool.and_eq_true, decide_eq_true_eq, le_iff_toNat_le, digit_byte hlt]
    exact ⟨by simp, by simp; omega⟩
  rw [leadingDecimal, hall, foldl_map, foldl_reverse, ofDigits_eq_foldr]
  clear hall
  induction l with
  | nil => rfl
  | cons d l ih =>
    have hlt := h d mem_cons_self
    rw [foldr_cons, foldr_cons, ih fun e he => h e (mem_cons_of_mem _ he), digit_byte hlt]
    simp only [cast_id]
    omega

theorem numstr_eq {i : ℕ} (h : i < 2 ^ 31) : ∃ l : List ℕ, l ≠ [] ∧ (∀ d ∈ l, d < 10) ∧
    ofDigits 10 l = i ∧ bsonNumstr i = l.reverse.map fun d => UInt8.ofNat (0x30 + d) := by
  have hmod : i % 2 ^ 32 = i := Nat.mod_eq_of_lt (by omega)
  rw [bsonNumstr, hmod]
  by_cases hi : i = 0
  · exact ⟨[0], by simp, by simp, by simp [hi], by simp [hi]⟩
  · refine ⟨Nat.digits 10 i, digits_ne_nil_iff_ne_zero.2 hi,
      fun d hd => digits_lt_base (by decide) hd, ofDigits_digits 10 i, ?_⟩
    rw [if_neg hi]

theorem strtol_numstr {i : ℕ} (h : i < 2 ^ 31) : strtol (bsonNumstr i) = i := by
  obtain ⟨l, hne, hdigits, hvalue, htext⟩ := numstr_eq h
  have hdecimal := leadingDecimal_digits hdigits
  rw [hvalue, ← htext] at hdecimal
  -- the first byte is a digit: no space and no sign
  obtain ⟨b, s, hs, hb⟩ : ∃ b s, bsonNumstr i = b :: s ∧ 0x30 ≤ b.toNat ∧ b.toNat ≤ 0x39 := by
    cases hs : bsonNumstr i with
    | nil => simp [htext, hne] at hs
    | cons b s =>
      have hmem : b ∈ l.reverse.map fun d => UInt8.ofNat (0x30 + d) := by
        rw [← htext, hs]
        exact mem_cons_self
      obtain ⟨d, hd, rfl⟩ := mem_map.1 hmem
      have hlt := hdigits d (mem_reverse.1 hd)
      exact ⟨_, s, rfl, by rw [digit_byte hlt]; omega, by rw [digit_byte hlt]; omega⟩
  have hspace : ¬(b = 0x20 || 0x09 ≤ b && b ≤ 0x0d) = true := by
    simp only [Bool.or_eq_true, Bool.and_eq_true, decide_eq_true_eq, le_iff_toNat_le,
      ← UInt8.toNat_inj, UInt8.reduceToNat]
    omega
  rw [hs] at hdecimal ⊢
  rw [strtol, dropWhile_cons, if_neg hspace]
  split
  · next heq =>
    rw [(List.cons.inj heq).1] at hb
    exact absurd hb (by decide)
  · next heq =>
    rw [(List.cons.inj heq).1] at hb
    exact absurd hb (by decide)
  · omega

theorem numstr_nonzero {i : ℕ} (h : i < 2 ^ 31) : 0 ∉ bsonNumstr i := by
  obtain ⟨l, -, hdigits, -, htext⟩ := numstr_eq h
  rw [htext]
  intro hmem
  obtain ⟨d, hd, hzero⟩ := mem_map.1 hmem
  have hbyte := digit_byte (hdigits d (mem_reverse.1 hd))
  rw [hzero] at hbyte
  change 0 = 0x30 + d at hbyte
  omega

theorem KeyText.same {array : Bool} {k : LuaValue ℕ} {text : Bytes}
    (h : KeyText array k text) : Same k (entryKey array text) := by
  cases h with
  | string s => exact .scalar _
  | @index i hi =>
    rw [entryKey, if_pos rfl, strtol_numstr (by omega), toInt32_eq (by omega) (by omega), intKey]
    exact .scalar _

theorem KeyText.nonzero {array : Bool} {k : LuaValue ℕ} {text : Bytes}
    (h : KeyText array k text) (hk : ∀ s, k = .scalar (.string s) → 0 ∉ s) : 0 ∉ text := by
  cases h with
  | string => exact hk _ rfl
  | index hi => exact numstr_nonzero (by omega)

/-! ## Tables -/

def InStep (v : LuaValue ℕ) : Prop :=
  EveryString (fun s => ListedString s ∧ SplitString s) (fun k => 0 ∉ k) v

structure ReadsAs (top : ℕ) (e : LuaValue ℕ × LuaValue ℕ) (f : LuaValue Unit × LuaValue Unit) :
    Prop where
  key : Same e.1 f.1
  value : Same e.2 f.2 ↔ Carried top e.2

section Tables

variable {border top : ℕ} {es l : LuaEntries ℕ} {fs : LuaEntries Unit}

theorem SameEntries.exists_of_mem : ∀ {es : LuaEntries ℕ} {fs : LuaEntries Unit},
    SameEntries es fs → ∀ e ∈ es, ∃ f ∈ fs, Same e.1 f.1 ∧ Same e.2 f.2
  | _, _, .nil, _, he => by cases he
  | _, _, .cons hk hv h, e, he => by
    rcases mem_cons.1 he with rfl | he
    · exact ⟨_, mem_cons_self, hk, hv⟩
    · obtain ⟨f, hf, hsame⟩ := h.exists_of_mem e he
      exact ⟨f, mem_cons_of_mem _ hf, hsame⟩

theorem readsAs_of_mem (h : Forall₂ (ReadsAs top) l fs) {f : LuaValue Unit × LuaValue Unit}
    (hf : f ∈ fs) : ∃ e ∈ l, ReadsAs top e f := by
  induction h with
  | nil => cases hf
  | cons he _ ih =>
    rcases mem_cons.1 hf with rfl | hf
    · exact ⟨_, mem_cons_self, he⟩
    · obtain ⟨e, hmem, he⟩ := ih hf
      exact ⟨e, mem_cons_of_mem _ hmem, he⟩

theorem sameEntries_of_readsAs (h : Forall₂ (ReadsAs top) l fs)
    (hl : ∀ e ∈ l, Carried top e.2) : SameEntries l fs := by
  induction h with
  | nil => exact .nil
  | cons he _ ih =>
    exact .cons he.key (he.value.2 (hl _ mem_cons_self))
      (ih fun e hmem => hl e (mem_cons_of_mem _ hmem))

theorem Same.eq_scalar {k : LuaValue ℕ} {k' : LuaValue Unit} {w : Scalar} (h : Same k k')
    (hw : Same (.scalar w) k') : k = .scalar w := by
  cases hw
  cases h
  rfl

theorem mem_indexedEntries {e : LuaValue ℕ × LuaValue ℕ} : e ∈ indexedEntries border es ↔
    ∃ i : ℕ, 1 ≤ i ∧ i ≤ border ∧ e = (intKey i, rawgeti es i) := by
  simp only [indexedEntries, mem_map, mem_range'_1]
  constructor
  · rintro ⟨i, hi, rfl⟩
    exact ⟨i, hi.1, by omega, rfl⟩
  · rintro ⟨i, hone, hi, rfl⟩
    exact ⟨i, ⟨hone, by omega⟩, rfl⟩

theorem perm_indexedEntries (hvalid : ValidTable border es) (hborder : border < 2 ^ 31)
    (hkeys : ∀ e ∈ es, ∃ i : ℕ, 1 ≤ i ∧ i ≤ border ∧ e.1 = intKey i)
    (hnil : ∀ e ∈ indexedEntries border es, e.2.isNil = false) :
    es.Perm (indexedEntries border es) := by
  have hnodup : es.Nodup := by
    apply List.Pairwise.imp_of_mem _ hvalid.distinct
    rintro e f he - hne rfl
    obtain ⟨i, -, -, hi⟩ := hkeys e he
    simp [hi, intKey, sameKey] at hne
  have hnodup' : (indexedEntries border es).Nodup := by
    refine Nodup.map_on ?_ nodup_range'
    intro i hi j hj heq
    rw [mem_range'_1] at hi hj
    exact intKey_inj (by omega) (by omega) (Prod.mk.inj heq).1
  rw [perm_ext_iff_of_nodup hnodup hnodup']
  rintro ⟨k, v⟩
  rw [mem_indexedEntries]
  constructor
  · intro he
    obtain ⟨i, hone, hi, hk⟩ := hkeys _ he
    subst hk
    exact ⟨i, hone, hi, by rw [rawgeti, rawget_of_mem hvalid.distinct he]⟩
  · rintro ⟨i, hone, hi, heq⟩
    have hvalue := hnil _ (mem_indexedEntries.2 ⟨i, hone, hi, rfl⟩)
    rw [heq]
    exact mem_of_rawget hvalue

theorem same_table_iff (hvalid : ValidTable border es) (hroom : bsonStackRoom top = true)
    (hborder : isRawarray border es = true → border < 2 ^ 31)
    (hzeros : ∀ e ∈ es, ∀ s, e.1 = .scalar (.string s) → 0 ∉ s)
    (hpacked : ∀ e ∈ packedEntries border es, (∃ w, e.1 = .scalar w) ∧ e.2.isNil = false)
    (h : Forall₂ (ReadsAs (top + 2)) (packedEntries border es) fs) :
    Same (.table border es) (.table () fs) ↔ Carried top (.table border es) := by
  constructor
  · intro hsame
    -- each entry is among those that were packed
    have hentry : ∀ e ∈ es, e ∈ packedEntries border es ∧ Carried (top + 2) e.2 := by
      rintro ⟨k, v⟩ he
      cases hsame with
      | table hperm hentries =>
        obtain ⟨f, hf, hk, hv⟩ := hentries.exists_of_mem _ (hperm.mem_iff.1 he)
        obtain ⟨⟨k', v'⟩, hmem, hreads⟩ := readsAs_of_mem h hf
        obtain ⟨⟨w, hw⟩, -⟩ := hpacked _ hmem
        subst hw
        obtain rfl := hk.eq_scalar hreads.key
        have hvalue : v' = v := by
          rw [packedEntries] at hmem
          split at hmem
          · obtain ⟨i, -, -, heq⟩ := mem_indexedEntries.1 hmem
            obtain ⟨hkey, rfl⟩ := Prod.mk.inj heq
            rw [rawgeti]
            rw [intKey] at hkey
            rw [← hkey]
            exact rawget_of_mem hvalid.distinct he
          · rw [← rawget_of_mem hvalid.distinct hmem, rawget_of_mem hvalid.distinct he]
        subst hvalue
        exact ⟨hmem, hreads.value.1 hv⟩
    refine .table hroom (fun e he => ?_) fun e he => (hentry e he).2
    have hmem := (hentry e he).1
    unfold packedEntries at hmem
    unfold CarriedKey
    split
    · next harray =>
      rw [if_pos harray] at hmem
      obtain ⟨i, hone, hi, rfl⟩ := mem_indexedEntries.1 hmem
      exact ⟨i, hone, hi, rfl⟩
    · exact hzeros e he
  · intro hcarried
    cases hcarried with
    | table _ hkeys hvalues =>
      unfold packedEntries at h hpacked
      cases harray : isRawarray border es with
      | true =>
        rw [if_pos harray] at h hpacked
        have hint : ∀ e ∈ es, ∃ i : ℕ, 1 ≤ i ∧ i ≤ border ∧ e.1 = intKey i := by
          intro e he
          have hkey := hkeys e he
          rw [CarriedKey, if_pos harray] at hkey
          exact hkey
        have hperm := perm_indexedEntries hvalid (hborder harray) hint fun e he =>
          (hpacked e he).2
        exact .table hperm (sameEntries_of_readsAs h fun e he =>
          hvalues e (hperm.mem_iff.2 he))
      | false =>
        rw [if_neg (by rw [harray]; exact Bool.false_ne_true)] at h
        exact .table (Perm.refl es) (sameEntries_of_readsAs h hvalues)

end Tables

/-! ## Documents -/

section Documents

variable {doc : Bytes} {s : BsonState}

theorem ends_document {m : BsonRead (LuaValue Unit)} {x : Bytes} {top : ℕ}
    {Q : LuaValue Unit → Prop} {E : Prop} (h : Ahead doc s.reader (document x))
    (hroom : bsonStackRoom top = true)
    (hm : ∀ t : BsonState, Within doc.length t.reader → remaining doc t.reader = x →
      t.reader.size = x.length → Ends m t (fun v _ => Q v) fun _ _ => E) :
    Ends (unpackDictWith doc m top) s
      (fun v s' => s'.reader = readerOn s.reader (document x).length ∧ Q v) fun _ _ => E := by
  have hlen : (document x).length = x.length + 5 := by
    simp [document]
    omega
  have hsize := h.size
  have hint := h.within.int
  unfold unpackDictWith
  rw [if_pos hroom, Ends.bind]
  apply h.left.ends_readInt32.mono
  case hE => exact fun _ _ h => h.elim
  rintro sz s₁ ⟨hs₁, rfl⟩
  have hsz : toInt32 ((((x.length + 5 : ℕ) % 2 ^ 32 : ℕ) : ℤ)) = x.length + 5 := by
    rw [toInt32_eq (by omega) (by omega)]
    omega
  have hstep : toInt32 ((x.length : ℤ) + 5 - 5) = x.length := by
    rw [toInt32_eq (by omega) (by omega)]
    omega
  rw [hsz, hstep, Ends.bind]
  have hrest : Ahead doc s₁.reader (x ++ [0]) := by
    rw [hs₁]
    exact h.rest
  apply (hrest.left.ends_readBytes rfl).mono
  case hE => exact fun _ _ h => h.elim
  rintro p s₂ ⟨rfl, hs₂⟩
  have hlast : Ahead doc s₂.reader [0] := by
    rw [hs₂]
    exact hrest.rest
  rw [Ends.bind]
  apply (hlast.ends_readLe (n := 1) rfl).mono
  case hE => exact fun _ _ h => h.elim
  rintro last s₃ ⟨hs₃, rfl⟩
  rw [if_neg (by simp [leNat])]
  unfold withBsonReader
  rw [Ends.bind, Ends.get, Ends.bind, Ends.set, Ends.bind]
  have hwithin : Within doc.length (⟨s₁.reader.ptr, x.length⟩ : BsonReader) := by
    obtain ⟨hptr, hpos, hfits, hlt⟩ := hrest.within
    have hroom := hrest.left.size
    exact ⟨hptr, by simp, by simp only; omega, by simp only; omega⟩
  have hx : remaining doc (⟨s₁.reader.ptr, x.length⟩ : BsonReader) = x := by
    exact hrest.left.take
  apply (hm { s₃ with reader := ⟨s₁.reader.ptr, x.length⟩ } hwithin hx rfl).mono
  case hE => exact fun _ _ h => h
  intro v s₄ hv
  rw [Ends.bind, Ends.modify]
  refine Ends.pure.2 ⟨?_, hv⟩
  simp only [hs₃, hs₂, hs₁, readerOn, BsonReader.mk.injEq]
  omega

/-- What is read of a value that was written: it is the same exactly when it is carried, and
what stops is not carried. -/
def ReadBack (doc : Bytes) (v : LuaValue ℕ) (type : ℕ) (content : Bytes) : Prop :=
  ∀ (fuel top : ℕ) (s : BsonState), Ahead doc s.reader content → s.reader.size < fuel →
    Ends (unpackValue doc (fun array =>
        unpackDictWith doc (unpackElements doc fuel none (top + 2) array []) (top + 1)) type) s
      (fun v' s' => s'.reader = readerOn s.reader content.length ∧ v'.isNil = false ∧
        (Same v v' ↔ Carried (top + 1) v)) fun _ _ => ¬ Carried (top + 1) v

theorem written_type_lt {v : LuaValue ℕ} {type : ℕ} {content : Bytes}
    (h : Written v type content) : type < 256 := by
  cases h with
  | @object subt _ _ _ => exact subt.toNat_lt
  | table _ => split <;> decide
  | _ => decide

variable {es : LuaEntries ℕ}

theorem ends_elements {array : Bool} {top : ℕ} : ∀ {x : Bytes}
    {fuel : ℕ} {done : LuaEntries Unit} {s : BsonState}, WrittenEntries array es x →
    (∀ e ∈ es, ∀ type content, Written e.2 type content → content.length < x.length →
      ReadBack doc e.2 type content) →
    (∀ e ∈ es, ∀ s, e.1 = .scalar (.string s) → 0 ∉ s) →
    es.Pairwise (fun e f => sameKey e.1 f.1 = false) →
    (∀ e ∈ es, ∀ k', Same e.1 k' → NewKey done k') →
    Within doc.length s.reader → remaining doc s.reader = x → s.reader.size < fuel →
    Ends (unpackElements doc fuel none top array done) s
      (fun v _ => ∃ fs, v = .table () (done ++ fs) ∧ Forall₂ (ReadsAs (top + 1)) es fs)
      fun _ _ => ∃ e ∈ es, ¬ Carried (top + 1) e.2 := by
  induction es with
  | nil =>
    intro x fuel done s h _ _ _ _ hs hx hfuel
    cases h
    have hlen := hs.length_remaining
    rw [hx] at hlen
    obtain ⟨fuel, rfl⟩ : ∃ k, fuel = k + 1 := exists_eq_succ_of_ne_zero (by
      omega)
    unfold unpackElements
    have hempty : s.reader.size = 0 := hlen.symm
    rw [Ends.bind, Ends.get, if_pos hempty]
    exact Ends.pure.2 ⟨[], by rw [append_nil], .nil⟩
  | cons e es ih =>
    intro x fuel done s h hvalue hzeros hdistinct hdone hs hx hfuel
    cases h with
    | @cons _ k v text content x type _ hk hv hrest =>
      have hbytes : remaining doc s.reader =
          [UInt8.ofNat type] ++ ((text ++ [0]) ++ (content ++ x)) := by
        rw [hx]
        simp [element]
      have hlen := hs.length_remaining
      rw [hbytes] at hlen
      simp only [length_append, length_singleton] at hlen
      obtain ⟨fuel, rfl⟩ : ∃ k, fuel = k + 1 := exists_eq_succ_of_ne_zero (by omega)
      unfold unpackElements
      rw [Ends.bind, Ends.get, if_neg (by omega), Ends.bind]
      -- the type
      apply ((ahead_of_remaining hs hbytes).ends_readLe (n := 1) rfl).mono
      case hE => exact fun _ _ h => h.elim
      rintro bt s₁ ⟨hs₁, rfl⟩
      have htype : leNat [UInt8.ofNat type] = type := by
        have hlt := written_type_lt hv
        simp only [leNat, toNat_ofNat']
        omega
      have hwithin₁ : Within doc.length s₁.reader := by
        rw [hs₁]
        exact hs.readerOn (by omega)
      have hbytes₁ : remaining doc s₁.reader = (text ++ [0]) ++ (content ++ x) := by
        rw [hs₁]
        exact remaining_rest hs hbytes
      -- the key
      rw [htype, Ends.bind]
      have hnonzero := hk.nonzero (hzeros _ mem_cons_self)
      apply ((ahead_of_remaining hwithin₁ hbytes₁).ends_readCstring hnonzero).mono
      case hE => exact fun _ _ h => h.elim
      rintro _ s₂ ⟨hs₂, rfl⟩
      rename_i text
      have hkeylen : text.length + 1 = (text ++ [0]).length := by simp
      have hwithin₂ : Within doc.length s₂.reader := by
        rw [hs₂, hkeylen]
        exact hwithin₁.readerOn (ahead_of_remaining hwithin₁ hbytes₁).size
      have hbytes₂ : remaining doc s₂.reader = content ++ x := by
        rw [hs₂, hkeylen]
        exact remaining_rest hwithin₁ hbytes₁
      -- the value
      have hsize₂ : s₂.reader.size < fuel := by
        rw [hs₂, hs₁]
        simp only [readerOn]
        omega
      rw [Ends.bind]
      have hcontent : content.length < (element type text content ++ x).length := by
        simp only [element, length_append, length_cons]
        omega
      have hread := hvalue _ mem_cons_self type content hv hcontent fuel top s₂
        (ahead_of_remaining hwithin₂ hbytes₂) hsize₂
      apply hread.mono
      case hE => exact fun _ _ hnot => ⟨_, mem_cons_self, hnot⟩
      rintro v' s₃ ⟨hs₃, hnil, hsame⟩
      have hwithin₃ : Within doc.length s₃.reader := by
        rw [hs₃]
        exact hwithin₂.readerOn (ahead_of_remaining hwithin₂ hbytes₂).size
      have hbytes₃ : remaining doc s₃.reader = x := by
        rw [hs₃]
        exact remaining_rest hwithin₂ hbytes₂
      have hnew := hdone _ mem_cons_self _ hk.same
      rw [assign_new hnew hnil]
      rw [pairwise_cons] at hdistinct
      have hdone' : ∀ e ∈ es, ∀ k', Same e.1 k' →
          NewKey (done ++ [(entryKey array text, v')]) k' := by
        intro e he k' hk' f hf
        rcases mem_append.1 hf with hf | hf
        · exact hdone e (mem_cons_of_mem _ he) k' hk' f hf
        · rw [mem_singleton.1 hf, hk.same.sameKey_eq hk']
          exact hdistinct.1 e he
      have hsize₃ : s₃.reader.size < fuel := by
        rw [hs₃]
        simp only [readerOn]
        omega
      apply (ih hrest (fun e he type content hv hlt => hvalue e (mem_cons_of_mem _ he) type
        content hv (by simp only [length_append]; omega))
        (fun e he => hzeros e (mem_cons_of_mem _ he)) hdistinct.2 hdone' hwithin₃ hbytes₃
        hsize₃).mono
      · rintro _ _ ⟨fs, rfl, hfs⟩
        exact ⟨(entryKey array text, v') :: fs, by simp, .cons ⟨hk.same, hsame⟩ hfs⟩
      · rintro _ _ ⟨e, he, hnot⟩
        exact ⟨e, mem_cons_of_mem _ he, hnot⟩

theorem WrittenEntries.length_le {array : Bool} {l : LuaEntries ℕ} : ∀ {x : Bytes},
    WrittenEntries array l x → l.length ≤ x.length := by
  induction l with
  | nil => exact fun _ => Nat.zero_le _
  | cons e l ih =>
    intro x h
    cases h with
    | cons _ _ hrest =>
      have hle := ih hrest
      simp only [element, length_cons, length_append]
      omega

theorem WrittenEntries.packed {array : Bool} {l : LuaEntries ℕ} : ∀ {x : Bytes},
    WrittenEntries array l x → ∀ e ∈ l, (∃ w, e.1 = .scalar w) ∧ e.2.isNil = false := by
  induction l with
  | nil => simp
  | cons e l ih =>
    intro x h f hf
    cases h with
    | cons hk hv hrest =>
      rcases mem_cons.1 hf with rfl | hf
      · refine ⟨?_, by cases hv <;> rfl⟩
        cases hk with
        | string s => exact ⟨_, rfl⟩
        | index _ => exact ⟨_, rfl⟩
      · exact ih hrest f hf

theorem mem_of_packed {border : ℕ} {e : LuaValue ℕ × LuaValue ℕ}
    (he : e ∈ packedEntries border es) (hnil : e.2.isNil = false) : e ∈ es := by
  unfold packedEntries at he
  split at he
  · obtain ⟨i, -, -, rfl⟩ := mem_indexedEntries.1 he
    exact mem_of_rawget hnil
  · exact he

theorem packed_distinct {border : ℕ} (hvalid : ValidTable border es)
    (hborder : isRawarray border es = true → border < 2 ^ 31) :
    (packedEntries border es).Pairwise fun e f => sameKey e.1 f.1 = false := by
  unfold packedEntries
  split
  · next harray =>
    have hlt := hborder harray
    have hnodup : (range' 1 border).Pairwise (· ≠ ·) := nodup_range'
    refine pairwise_map.2 (List.Pairwise.imp_of_mem ?_ hnodup)
    intro i j hi hj hne
    rw [mem_range'_1] at hi hj
    rw [Bool.eq_false_iff]
    intro hsame
    obtain ⟨w, hw, hw'⟩ := sameKey_iff.1 hsame
    exact hne (intKey_inj (by omega) (by omega) (hw.trans hw'.symm))
  · exact hvalid.distinct

/-- **A table that was written is read**, if the values inside are. -/
theorem readBack_table {border : ℕ} {x : Bytes}
    (hx : WrittenEntries (isRawarray border es) (packedEntries border es) x)
    (hvalid : ValidTable border es)
    (hzeros : ∀ e ∈ es, ∀ s, e.1 = .scalar (.string s) → 0 ∉ s)
    (hvalue : ∀ e ∈ es, ∀ type content, Written e.2 type content →
      content.length < x.length → ReadBack doc e.2 type content) {fuel : ℕ} (top : ℕ)
    (h : Ahead doc s.reader (document x)) (hfuel : s.reader.size < fuel) :
    Ends (unpackDictWith doc (unpackElements doc fuel none (top + 1) (isRawarray border es) []) top) s
      (fun v s' => s'.reader = readerOn s.reader (document x).length ∧ v.isNil = false ∧
        (Same (.table border es) v ↔ Carried top (.table border es)))
      fun _ _ => ¬ Carried top (.table border es) := by
  cases hroom : bsonStackRoom top with
  | false =>
    unfold unpackDictWith
    rw [if_neg (by rw [hroom]; exact Bool.false_ne_true)]
    refine Ends.throw.2 fun hcarried => ?_
    cases hcarried with
    | table hroom' _ _ =>
      rw [hroom] at hroom'
      cases hroom'
  | true =>
    have hpacked := hx.packed
    have hsize := h.size
    have hint := h.within.int
    have hborder : isRawarray border es = true → border < 2 ^ 31 := by
      intro harray
      have hle := hx.length_le
      rw [packedEntries, if_pos harray, indexedEntries, length_map, length_range'] at hle
      simp only [document, length_append, length_leBytes] at hsize
      omega
    have hmem : ∀ e ∈ packedEntries border es, e ∈ es :=
      fun e he => mem_of_packed he (hpacked e he).2
    refine (ends_document h hroom (Q := fun v => v.isNil = false ∧
      (Same (.table border es) v ↔ Carried top (.table border es)))
      (E := ∃ e ∈ packedEntries border es, ¬ Carried (top + 2) e.2) ?_).mono
      (fun _ _ h => h) ?_
    · intro t hwithin hbytes hlen
      apply (ends_elements hx (fun e he => hvalue e (hmem e he)) (fun e he => hzeros e (hmem e he))
        (packed_distinct hvalid hborder) (by simp [NewKey]) hwithin hbytes ?_).mono
      · rintro v - ⟨fs, rfl, hfs⟩
        exact ⟨rfl, same_table_iff hvalid hroom hborder hzeros hpacked hfs⟩
      · exact fun _ _ h => h
      · simp only [document, length_append, length_leBytes] at hsize
        omega
    · rintro _ _ ⟨e, he, hnot⟩ hcarried
      cases hcarried with
      | table _ _ hvalues => exact hnot (hvalues e (hmem e he))

/-- **A value that was written is read.** -/
theorem written_readBack (n : ℕ) : ∀ {v : LuaValue ℕ} {type : ℕ} {content : Bytes},
    content.length < n → Written v type content → ValidValue v → InStep v →
      ReadBack doc v type content := by
  induction n with
  | zero => exact fun h => absurd h (Nat.not_lt_zero _)
  | succ n ih =>
    intro v type content hlt hv hvalid hstep fuel top s hahead hfuel
    cases v with
    | other t => cases hv
    | scalar w =>
      have hstring : ∀ str, w = .string str → ListedString str ∧ SplitString str := by
        cases hstep with
        | scalar h => exact h
      have hcarried : Carried (top + 1) (.scalar w) ↔ CarriedScalar w := by
        constructor
        · intro h
          cases h with
          | scalar h => exact h
        · exact .scalar
      rw [hcarried]
      exact ends_scalar _ hv hstring hahead
    | table border es =>
      cases hv with
      | @table _ _ x hx =>
        cases hvalid with
        | table hvalid hvalids =>
          cases hstep with
          | table hzeros hsteps =>
            have hvalue : ∀ e ∈ es, ∀ type content, Written e.2 type content →
                content.length < x.length → ReadBack doc e.2 type content := by
              intro e he type content hv hcontent
              have hdoc : x.length ≤ (document x).length := by
                simp only [document, length_append]
                omega
              exact ih (by omega) hv (hvalids e he) (hsteps e he)
            have hread := readBack_table hx hvalid hzeros hvalue (top + 1) hahead hfuel
            cases harray : isRawarray border es with
            | true =>
              rw [harray] at hread
              exact hread
            | false =>
              rw [harray] at hread
              exact hread

end Documents

end Skynet.Analysis
