import Skynet.Analysis.BsonDocuments

/-!
# The BSON round trip

A table that is encoded comes back as it was if the format carries it.  Nothing refuses the
others: keys with zeros, tables with more keys than an array has that are packed as one, and
strings that stand for a value but are not well formed.  Where no zero in a regex shifts the
reader, none of them comes back.
-/

namespace Skynet.Analysis

open Library Model List

/-! ## Keys have no zeros -/

def Always {α : Type} (m : BsonRead α) (Q : α → Prop) : Prop :=
  ∀ s, Ends m s (fun a _ => Q a) fun _ _ => True

section Always

variable {α β : Type} {m : BsonRead α} {f : α → BsonRead β} {P : α → Prop} {Q : β → Prop}

theorem Always.any : Always m fun _ => True := by
  intro s
  have hend : Ends m s (fun _ _ => True) fun _ _ => True :=
    Ends.iff_endState (P := fun _ => True) |>.2 trivial
  exact hend

theorem Always.pure {a : α} (h : P a) : Always (pure a) P := fun _ => Ends.pure.2 h

theorem Always.throw {e : BsonStop} : Always (throw e) P := fun _ => Ends.throw.2 trivial

theorem Always.next (hm : Always m P) (hf : ∀ a, P a → Always (f a) Q) : Always (m >>= f) Q := by
  intro s
  rw [Ends.bind]
  apply (hm s).mono
  · exact fun a s' ha => hf a ha s'
  · exact fun _ _ h => h

theorem Always.bind (hf : ∀ a, Always (f a) Q) : Always (m >>= f) Q :=
  Always.any.next fun a _ => hf a

theorem Always.ite {c : Prop} [Decidable c] {m' : BsonRead α} (hthen : Always m P)
    (helse : Always m' P) : Always (if c then m else m') P := by
  split
  · exact hthen
  · exact helse

end Always

section Zeros

variable (doc : Bytes)

def NoZeroKeys {β : Type} (v : LuaValue β) : Prop := EveryString (fun _ => True) (fun k => 0 ∉ k) v

theorem noZeroKeys_scalar {β : Type} (w : Scalar) : NoZeroKeys (.scalar w : LuaValue β) :=
  .scalar fun _ _ => trivial

theorem always_bytesAt_one (p : ℤ) : Always (bytesAt doc p 1) fun b => leNat b ≠ 0 → 0 ∉ b := by
  refine .ite (.pure fun hne hmem => ?_) .throw
  have hlen : ((doc.drop p.toNat).take 1).length ≤ 1 := length_take_le 1 _
  cases hb : (doc.drop p.toNat).take 1 with
  | nil =>
    rw [hb] at hmem
    cases hmem
  | cons c l =>
    rw [hb, length_cons] at hlen
    obtain rfl : l = [] := eq_nil_of_length_eq_zero (by omega)
    rw [hb, mem_singleton] at hmem
    rw [hb, ← hmem] at hne
    exact hne rfl

theorem always_scanCstring (p : ℤ) (left : ℕ) : Always (scanCstring doc p left) fun r => 0 ∉ r := by
  induction left generalizing p with
  | zero => exact .throw
  | succ left ih =>
    refine (always_bytesAt_one doc p).next fun b hb => ?_
    intro s
    refine Ends.ite (fun _ => Ends.pure.2 not_mem_nil) fun hne => ?_
    have hrest : Always (do
        let rest ← scanCstring doc (p + 1) left
        return b ++ rest) fun r => 0 ∉ r := by
      refine (ih (p + 1)).next fun rest hrest => .pure ?_
      rw [mem_append]
      exact not_or.2 ⟨hb hne, hrest⟩
    exact hrest s

theorem always_readCstring : Always (readCstring doc) fun r => 0 ∉ r := by
  refine .bind fun s => (always_scanCstring doc _ _).next fun r hr => ?_
  exact .bind fun _ => .pure hr

theorem always_unpackValue {nested : Bool → BsonRead (LuaValue Unit)}
    (hnested : ∀ array, Always (nested array) NoZeroKeys) (bt : ℕ) :
    Always (unpackValue doc nested bt) NoZeroKeys := by
  have hobject : ∀ type p len, Always (makeObject doc type p len) NoZeroKeys :=
    fun type p len => .bind fun _ => .pure (noZeroKeys_scalar _)
  have hpure : ∀ {w}, Always (Pure.pure (.scalar w) : BsonRead (LuaValue Unit)) NoZeroKeys :=
    .pure (noZeroKeys_scalar _)
  unfold unpackValue
  split
  · exact .bind fun _ => hpure
  · exact .bind fun _ => hpure
  · exact .bind fun _ => .ite .throw (.bind fun _ => .bind fun _ => hpure)
  · exact hnested false
  · exact hnested true
  · exact .bind fun _ => .bind fun _ => .bind fun _ => .bind fun _ => hpure
  · exact .bind fun _ => hobject _ _ _
  · exact .bind fun _ => hpure
  · exact hpure
  · exact hpure
  · exact hpure
  · exact .bind fun _ => .bind fun _ => hpure
  · exact .bind fun _ => hpure
  · exact .bind fun _ => .bind fun _ => hpure
  · exact .bind fun _ => hpure
  · exact .bind fun _ => .bind fun _ => .bind fun _ => hobject _ _ _
  · exact .bind fun _ => .bind fun _ => .bind fun _ => hobject _ _ _
  · exact .bind fun _ => .bind fun _ => .bind fun _ => hobject _ _ _
  · exact .bind fun _ => .bind fun _ => .bind fun _ => hobject _ _ _
  · exact .throw

theorem always_unpackDictWith {m : BsonRead (LuaValue Unit)} (hm : Always m NoZeroKeys) (top : ℕ) :
    Always (unpackDictWith doc m top) NoZeroKeys := by
  refine .ite ?_ .throw
  refine .bind fun _ => .bind fun _ => .bind fun _ => ?_
  refine .ite .throw (.bind fun _ => .bind fun _ => hm.next fun v hv => .bind fun _ => .pure hv)

theorem noZeroKeys_assign {t : LuaEntries Unit} {k v : LuaValue Unit}
    (ht : NoZeroKeys (.table () t)) (hk : ∀ s, k = .scalar (.string s) → 0 ∉ s)
    (hv : NoZeroKeys v) : NoZeroKeys (.table () (assign t k v)) := by
  cases ht with
  | table hkeys hvalues =>
    unfold assign
    split
    · exact .table (fun e he => hkeys e (mem_of_mem_filter he))
        fun e he => hvalues e (mem_of_mem_filter he)
    · split
      · refine .table (fun e he => ?_) fun e he => ?_
        all_goals
          obtain ⟨f, hf, rfl⟩ := mem_map.1 he
          split
        · exact hkeys f hf
        · exact hkeys f hf
        · exact hv
        · exact hvalues f hf
      · refine .table (fun e he => ?_) fun e he => ?_
        all_goals rcases mem_append.1 he with he | he
        · exact hkeys e he
        · rw [mem_singleton.1 he]
          exact hk
        · exact hvalues e he
        · rw [mem_singleton.1 he]
          exact hv

/-- **The keys of what is decoded** have no zeros. -/
theorem always_unpackElements (fuel : ℕ) : ∀ (top : ℕ) (array : Bool) (done : LuaEntries Unit),
    NoZeroKeys (.table () done) → Always (unpackElements doc fuel none top array done) NoZeroKeys := by
  induction fuel with
  | zero => exact fun _ _ _ _ => .throw
  | succ fuel ih =>
    intro top array done hdone
    refine .bind fun _ => .ite (.pure hdone) (.bind fun bt => ?_)
    refine (always_readCstring doc).next fun key hkey => ?_
    have hempty : NoZeroKeys (.table () ([] : LuaEntries Unit)) := .table (by simp) (by simp)
    have hnested : ∀ array, Always (unpackDictWith doc (unpackElements doc fuel none (top + 2) array [])
        (top + 1)) NoZeroKeys :=
      fun array => always_unpackDictWith doc (ih (top + 2) array [] hempty) (top + 1)
    refine (always_unpackValue doc hnested bt).next fun v hv => ?_
    refine ih top array _ (noZeroKeys_assign hdone ?_ hv)
    intro s hs
    unfold entryKey at hs
    split at hs
    · cases hs
    · cases hs
      exact hkey

end Zeros

theorem Same.noZeroKeys {v : LuaValue ℕ} {v' : LuaValue Unit} (h : Same v v')
    (hv' : NoZeroKeys v') : NoZeroKeys v := by
  induction hv' generalizing v with
  | scalar _ =>
    cases h
    exact noZeroKeys_scalar _
  | other t => cases h
  | @table _ fs hkeys hvalues ih =>
    cases h with
    | table hperm hentries =>
      refine .table (fun e he s hs => ?_) fun e he => ?_
      · obtain ⟨⟨k', v'⟩, hf, hk, -⟩ := hentries.exists_of_mem e (hperm.mem_iff.1 he)
        rw [hs] at hk
        cases hk
        exact hkeys _ hf s rfl
      · obtain ⟨f, hf, -, hv⟩ := hentries.exists_of_mem e (hperm.mem_iff.1 he)
        exact ih f hf hv

/-! ## The round trip -/

section RoundTrip

variable {v : LuaValue ℕ} {S S' K K' : Bytes → Prop}

theorem EveryString.both (h : EveryString S K v) (h' : EveryString S' K' v) :
    EveryString (fun s => S s ∧ S' s) (fun k => K k ∧ K' k) v := by
  induction h with
  | scalar hs =>
    cases h' with
    | scalar hs' => exact .scalar fun s hw => ⟨hs s hw, hs' s hw⟩
  | other t => exact .other t
  | table hkeys _ ih =>
    cases h' with
    | table hkeys' hvalues' =>
      exact .table (fun e he s hs => ⟨hkeys e he s hs, hkeys' e he s hs⟩)
        fun e he => ih e he (hvalues' e he)

theorem EveryString.mono (h : EveryString S K v) (hS : ∀ s, S s → S' s) (hK : ∀ k, K k → K' k) :
    EveryString S' K' v := by
  induction h with
  | scalar hs => exact .scalar fun s hw => hS s (hs s hw)
  | other t => exact .other t
  | table hkeys _ ih => exact .table (fun e he s hs => hK s (hkeys e he s hs)) ih

def RegexesSplit (v : LuaValue ℕ) : Prop := EveryString SplitString (fun _ => True) v

def Listed (v : LuaValue ℕ) : Prop := EveryString ListedString (fun _ => True) v

theorem Listed.inStep (hlisted : Listed v) (hsplit : RegexesSplit v) (hzeros : NoZeroKeys v) :
    InStep v :=
  ((hlisted.both hsplit).both hzeros).mono (fun _ h => h.1) fun _ h => h.2

theorem carried_split {s : Bytes} (h : CarriedString s) : SplitString s := by
  unfold SplitString
  split
  · intro htype r1 r2 hparts
    rw [CarriedString, htype] at h
    obtain ⟨q1, q2, rfl, hq1, hq2⟩ := h
    rw [splitRegex_parts hq2, Option.some.injEq, Prod.mk.injEq] at hparts
    rw [← hparts.1]
    exact hq1
  · trivial

theorem Carried.split {top : ℕ} (h : Carried top v) : RegexesSplit v ∧ NoZeroKeys v := by
  induction h with
  | @scalar _ w h =>
    refine ⟨.scalar fun s hs => carried_split ?_, noZeroKeys_scalar w⟩
    rw [hs] at h
    exact h
  | @table _ border es _ hkeys _ ih =>
    refine ⟨.table (fun _ _ _ _ => trivial) fun e he => (ih e he).1,
      .table (fun e he s hs => ?_) fun e he => (ih e he).2⟩
    have hkey := hkeys e he
    unfold CarriedKey at hkey
    split at hkey
    · obtain ⟨i, -, -, hi⟩ := hkey
      rw [hs] at hi
      cases hi
    · exact hkey s hs

def ComesBack (top : ℕ) (doc : Bytes) (v : LuaValue ℕ) : Prop :=
  ∃ v' s', bsonDecode top doc = .ok v' s' ∧ Same v v'

theorem packedEntries_document {border : ℕ} {es : LuaEntries ℕ} {x : Bytes}
    (hvalid : ValidTable border es) (h : WrittenEntries false es x) :
    isRawarray border es = false ∧ packedEntries border es = es := by
  have hstring : ∀ {l : LuaEntries ℕ} {x : Bytes}, WrittenEntries false l x →
      ∀ e ∈ l, ∃ s, e.1 = .scalar (.string s) := by
    intro l
    induction l with
    | nil => simp
    | cons f l ih =>
      intro x h e he
      cases h with
      | cons hk _ hrest =>
        rcases mem_cons.1 he with rfl | he
        · cases hk with
          | string => exact ⟨_, rfl⟩
        · exact ih hrest e he
  have harray : isRawarray border es = false := by
    rw [Bool.eq_false_iff]
    intro hraw
    rw [isRawarray, Bool.and_eq_true, decide_eq_true_eq] at hraw
    rcases hvalid.present with hzero | hvalue
    · omega
    · obtain ⟨s, hs⟩ := hstring h _ (mem_of_rawget hvalue)
      cases hs
  exact ⟨harray, by rw [packedEntries, harray, if_neg Bool.false_ne_true]⟩

theorem ends_encoded (top : ℕ) {border : ℕ} {es : LuaEntries ℕ} {x : Bytes}
    (hvalid : ValidValue (.table border es)) (hstep : InStep (.table border es))
    (h : WrittenEntries false es x) (hlen : (document x).length < 2 ^ 31) :
    Ends (ldecode (document x) none top) .init
      (fun v _ => Same (.table border es) v ↔ Carried top (.table border es))
      fun _ _ => ¬ Carried top (.table border es) := by
  have hsize : (document x).length = x.length + 5 := by
    simp only [document, length_append, length_leBytes, length_singleton]
    omega
  obtain ⟨hborder, hvalids⟩ : ValidTable border es ∧ ∀ e ∈ es, ValidValue e.2 := by
    cases hvalid with
    | table hborder hvalids => exact ⟨hborder, hvalids⟩
  obtain ⟨hzeros, hsteps⟩ : (∀ e ∈ es, ∀ s, e.1 = .scalar (.string s) → 0 ∉ s) ∧
      ∀ e ∈ es, InStep e.2 := by
    cases hstep with
    | table hzeros hsteps => exact ⟨hzeros, hsteps⟩
  obtain ⟨harray, hpacked⟩ := packedEntries_document hborder h
  have hx : WrittenEntries (isRawarray border es) (packedEntries border es) x := by
    rw [harray, hpacked]
    exact h
  have hahead : Ahead (document x) ⟨0, (document x).length⟩ (document x) := by
    have hall : remaining (document x) ⟨0, (document x).length⟩ = document x := by
      rw [remaining, Int.toNat_natCast, Int.toNat_zero, drop_zero, take_length]
    exact ⟨⟨le_refl 0, by simp, by simp, by simp only; omega⟩, hall.symm ▸ prefix_refl _⟩
  have hvalue : ∀ e ∈ es, ∀ type content, Written e.2 type content → content.length < x.length →
      ReadBack (document x) e.2 type content := by
    intro e he type content hv _
    exact written_readBack (content.length + 1) (Nat.lt_succ_self _) hv (hvalids e he) (hsteps e he)
  unfold ldecode
  rw [Ends.bind]
  have hheader : Ahead (document x) ⟨0, (document x).length⟩ (leBytes 4 (x.length + 5)) :=
    Ahead.left hahead
  apply (hheader.ends_bytesAt .init (n := 4) (by simp)).mono
  case hE => exact fun _ _ h => h.elim
  rintro _ _ ⟨rfl, rfl⟩
  have hlength : toInt32 (leNat (leBytes 4 (x.length + 5)) : ℤ) = (document x).length := by
    rw [leNat_leBytes_of_lt (by omega), toInt32_eq (by omega) (by omega), hsize]
  rw [hlength]
  unfold withBsonReader
  rw [Ends.bind, Ends.get, Ends.bind, Ends.set, Ends.bind]
  have hread := readBack_table (s := ⟨⟨0, (document x).length⟩⟩) hx hborder hzeros hvalue
    top hahead (Int.lt_succ_self _)
  rw [harray] at hread
  apply hread.mono
  · rintro v s' ⟨-, -, hsame⟩
    rw [Ends.bind, Ends.modify]
    exact Ends.pure.2 hsame
  · exact fun _ _ h => h

theorem always_ldecode (doc : Bytes) (top : ℕ) : Always (ldecode doc none top) NoZeroKeys := by
  have hempty : NoZeroKeys (.table () ([] : LuaEntries Unit)) := .table (by simp) (by simp)
  refine .bind fun _ => .bind fun _ => .bind fun _ => ?_
  refine (always_unpackDictWith doc (always_unpackElements doc _ _ _ _ hempty) top).next ?_
  exact fun v hv => .bind fun _ => .pure hv

/-- **The BSON round trip.**  What the format carries comes back, and where every regex is in
step nothing else does. -/
theorem bson_round_trip {etop dtop border : ℕ} {es : LuaEntries ℕ} {doc : Bytes}
    (hvalid : ValidValue (.table border es)) (hlisted : Listed (.table border es))
    (h : bsonEncode etop (.table border es) = .ok doc) :
    (Carried dtop (.table border es) → ComesBack dtop doc (.table border es)) ∧
    (RegexesSplit (.table border es) → ComesBack dtop doc (.table border es) →
      Carried dtop (.table border es)) := by
  obtain ⟨x, hx, rfl, hlen⟩ := encode_written h
  refine ⟨fun hcarried => ?_, fun hsplit hround => ?_⟩
  · obtain ⟨hsplit, hzeros⟩ := hcarried.split
    have hread := ends_encoded dtop hvalid (hlisted.inStep hsplit hzeros) hx hlen
    have hends : Ends (ldecode (document x) none dtop) .init
        (fun v _ => Same (.table border es) v) fun _ _ => False :=
      hread.mono (fun _ _ h => h.2 hcarried) fun _ _ h => h hcarried
    exact hends.returns
  · obtain ⟨v, s', hv, hsame⟩ := hround
    have hzeros : NoZeroKeys v := (always_ldecode (document x) dtop .init).of_ok hv
    have hread := ends_encoded dtop hvalid
      (hlisted.inStep hsplit (hsame.noZeroKeys hzeros)) hx hlen
    exact (hread.of_ok hv).1 hsame

def sampleArray : LuaEntries ℕ :=
  [(intKey 1, .scalar (.real 4611686018427387904)), (intKey 2, .scalar (.string [120]))]

def sampleEntries : LuaEntries ℕ := [(.scalar (.string [97]), .table 2 sampleArray),
    (.scalar (.string [98]), .scalar (.string [0, 5, 0, 122])),
    (.scalar (.string [110]), .scalar (.integer 1099511627776))]

def sampleDocument : Bytes :=
  [53, 0, 0, 0, 4, 97, 0, 25, 0, 0, 0, 1, 48, 0, 0, 0, 0, 0, 0, 0, 0, 64, 2, 49, 0, 2, 0, 0, 0,
    120, 0, 0, 5, 98, 0, 1, 0, 0, 0, 0, 122, 18, 110, 0, 0, 0, 0, 0, 0, 1, 0, 0, 0]

theorem bson_round_trip_sample :
    bsonEncode 1 (.table 0 sampleEntries) = .ok sampleDocument ∧
      ComesBack 1 sampleDocument (.table 0 sampleEntries) := by
  have hencode : bsonEncode 1 (.table 0 sampleEntries) = .ok sampleDocument := by decide +kernel
  have hvalid : ValidValue (.table 0 sampleEntries) := by
    have harray : ValidValue (.table 2 sampleArray) := by
      refine .table ⟨by simp [sampleArray, intKey, UsableKey], by decide, by decide, .inr rfl,
        rfl⟩ ?_
      simp only [sampleArray, forall_mem_cons]
      exact ⟨.scalar _, .scalar _, by simp⟩
    refine .table ⟨by simp [sampleEntries, UsableKey], by decide, by decide, .inl rfl, rfl⟩ ?_
    simp only [sampleEntries, forall_mem_cons]
    exact ⟨harray, .scalar _, .scalar _, by simp⟩
  have hlisted : Listed (.table 0 sampleEntries) := by
    have harray : Listed (.table 2 sampleArray) := by
      refine .table (fun _ _ _ _ => trivial) ?_
      simp only [sampleArray, forall_mem_cons]
      refine ⟨.scalar (by simp), .scalar ?_, by simp⟩
      rintro _ ⟨⟩
      trivial
    refine .table (fun _ _ _ _ => trivial) ?_
    simp only [sampleEntries, forall_mem_cons]
    refine ⟨harray, .scalar ?_, .scalar (by simp), by simp⟩
    rintro _ ⟨⟩
    exact mem_cons_self
  have hcarried : Carried 1 (.table 0 sampleEntries) := by
    have harray : Carried 3 (.table 2 sampleArray) := by
      refine .table (by decide) ?_ ?_
      · simp only [sampleArray, forall_mem_cons]
        exact ⟨⟨1, by decide, by decide, rfl⟩, ⟨2, by decide, by decide, rfl⟩, by simp⟩
      · simp only [sampleArray, forall_mem_cons]
        exact ⟨.scalar trivial, .scalar trivial, by simp⟩
    refine .table (by decide) ?_ ?_
    · simp only [sampleEntries, forall_mem_cons]
      refine ⟨?_, ?_, ?_, by simp⟩
      all_goals
        rintro s ⟨⟩
        decide
    · simp only [sampleEntries, forall_mem_cons]
      exact ⟨harray, .scalar (cons_ne_nil _ _), .scalar trivial, by simp⟩
  exact ⟨hencode, (bson_round_trip hvalid hlisted hencode).1 hcarried⟩

/-- A key with a zero is written as it is, and the document cannot be decoded. -/
theorem zero_in_key : ¬ ∀ (border : ℕ) (es : LuaEntries ℕ) (doc : Bytes),
    ValidValue (.table border es) → Listed (.table border es) →
      bsonEncode 1 (.table border es) = .ok doc → ComesBack 1 doc (.table border es) := by
  intro hall
  have hvalid : ValidValue (.table 0 [(.scalar (.string [97, 0, 98]),
      .scalar (.boolean true))]) := by
    refine .table ⟨?_, by decide, by decide, .inl rfl, rfl⟩ ?_
    · simp [UsableKey]
    · rintro e he
      rw [mem_singleton.1 he]
      exact .scalar _
  have hlisted : Listed (.table 0 [(.scalar (.string [97, 0, 98]), .scalar (.boolean true))]) := by
    refine .table (fun _ _ _ _ => trivial) ?_
    rintro e he
    rw [mem_singleton.1 he]
    exact .scalar fun _ hw => by cases hw
  have hencode : bsonEncode 1 (.table 0 [(.scalar (.string [97, 0, 98]),
      .scalar (.boolean true))]) = .ok [11, 0, 0, 0, 8, 97, 0, 98, 0, 1, 0] := by
    decide +kernel
  obtain ⟨v, s, hdecode, -⟩ := hall _ _ _ hvalid hlisted hencode
  have herror : returned (bsonDecode 1 [11, 0, 0, 0, 8, 97, 0, 98, 0, 1, 0]) = false := by
    decide +kernel
  rw [hdecode] at herror
  cases herror

end RoundTrip

end Skynet.Analysis
