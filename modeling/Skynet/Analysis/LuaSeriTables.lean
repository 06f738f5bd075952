import Mathlib.Data.List.Nodup
import Mathlib.Data.List.Perm.Basic
import Skynet.Model.LuaSeri

/-!
# Tables as finite maps

A table is written as the values of an array part and the entries that are not among them.
Together they are the entries of the table, each once, whatever the border; and a table
that is built from entries with new keys has exactly these entries.
-/

namespace Skynet.Analysis

open Model List

/-! ## Equal values -/

mutual

/-- An unpacked value is equal to a packed one: equal scalars, and tables with the same
entries in some order. -/
inductive Same : LuaValue ℕ → LuaValue Unit → Prop
  | scalar (v : Scalar) : Same (.scalar v) (.scalar v)
  | table {border : ℕ} {es es' : LuaEntries ℕ} {fs : LuaEntries Unit} (hperm : es.Perm es')
      (hsame : SameEntries es' fs) : Same (.table border es) (.table () fs)

inductive SameEntries : LuaEntries ℕ → LuaEntries Unit → Prop
  | nil : SameEntries [] []
  | cons {k v : LuaValue ℕ} {k' v' : LuaValue Unit} {es : LuaEntries ℕ}
      {fs : LuaEntries Unit} (hk : Same k k') (hv : Same v v') (h : SameEntries es fs) :
      SameEntries ((k, v) :: es) ((k', v') :: fs)

end

variable {es : LuaEntries ℕ} {fs : LuaEntries Unit} {k v : LuaValue ℕ}
  {k' v' : LuaValue Unit}

theorem SameEntries.concat : ∀ {es : LuaEntries ℕ} {fs : LuaEntries Unit},
    SameEntries es fs → Same k k' → Same v v' → SameEntries (es ++ [(k, v)]) (fs ++ [(k', v')])
  | _, _, .nil, hk, hv => .cons hk hv .nil
  | _, _, .cons hk₁ hv₁ h, hk, hv => .cons hk₁ hv₁ (h.concat hk hv)

theorem Same.isNil_eq (h : Same v v') : v'.isNil = v.isNil := by
  cases h with
  | scalar w => cases w <;> rfl
  | table => rfl

theorem Same.sameKey_eq {a b : LuaValue ℕ} {a' b' : LuaValue Unit} (ha : Same a a')
    (hb : Same b b') : sameKey a' b' = sameKey a b := by
  cases ha <;> cases hb <;> rfl

def NewKey {β : Type} (t : LuaEntries β) (k : LuaValue β) : Prop := ∀ e ∈ t, sameKey e.1 k = false

theorem SameEntries.newKey (hk : Same k k') :
    ∀ {es : LuaEntries ℕ} {fs : LuaEntries Unit}, SameEntries es fs → NewKey es k → NewKey fs k'
  | _, _, .nil, _ => by simp [NewKey]
  | _, _, .cons hk₁ hv₁ h, hnew => by
    intro f hf
    rcases mem_cons.mp hf with rfl | hf
    · rw [hk₁.sameKey_eq hk]
      exact hnew _ mem_cons_self
    · exact h.newKey hk (fun e he => hnew e (mem_cons_of_mem _ he)) f hf

theorem assign_new {t : LuaEntries Unit} (hnew : NewKey t k') (hv : v'.isNil = false) :
    assign t k' v' = t ++ [(k', v')] := by
  have hnone : (t.any fun e => sameKey e.1 k') = false := by
    rw [any_eq_false]
    intro e he
    rw [hnew e he]
    simp
  simp [assign, hv, hnone]

theorem assign_nil {t : LuaEntries Unit} (hnew : NewKey t k') (hv : v'.isNil = true) :
    assign t k' v' = t := by
  rw [assign, if_pos hv, filter_eq_self]
  intro e he
  rw [hnew e he]
  rfl

/-! ## The entries of a Lua table -/

/-- The keys that a table may have: not nil, and of the reals only those that are neither
NaN nor an integer. -/
def UsableKey : LuaValue ℕ → Prop
  | .scalar .nil => False
  | .scalar (.real d) => toInteger d = none ∧ isNaN d = false
  | _ => True

/-- What Lua guarantees of a table that it enumerates: the keys are usable and different,
no value is nil, and the border is one. -/
structure ValidTable (border : ℕ) (es : LuaEntries ℕ) : Prop where
  keys : ∀ e ∈ es, UsableKey e.1
  values : ∀ e ∈ es, e.2.isNil = false
  distinct : es.Pairwise fun e f => sameKey e.1 f.1 = false
  present : border = 0 ∨ (rawgeti es border).isNil = false
  absent : (rawgeti es (border + 1)).isNil = true

inductive ValidValue : LuaValue ℕ → Prop
  | scalar (w : Scalar) : ValidValue (.scalar w)
  | other (t : String) : ValidValue (.other t)
  | table {border : ℕ} {es : LuaEntries ℕ} (hvalid : ValidTable border es)
      (hvalues : ∀ e ∈ es, ValidValue e.2) : ValidValue (.table border es)

def intKey {β : Type} (i : ℤ) : LuaValue β := .scalar (.integer (BitVec.ofInt 64 i))

theorem sameKey_iff {β : Type} {a b : LuaValue β} :
    sameKey a b = true ↔ ∃ w, a = .scalar w ∧ b = .scalar w := by
  cases a <;> cases b <;> simp [sameKey, eq_comm]

theorem sameKey_symm {β : Type} (a b : LuaValue β) : sameKey a b = sameKey b a := by
  rw [Bool.eq_iff_iff, sameKey_iff, sameKey_iff]
  exact exists_congr fun w => and_comm

theorem sameKey_congr {β : Type} {a b : LuaValue β} (h : sameKey a b = true)
    (c : LuaValue β) : sameKey a c = sameKey b c := by
  obtain ⟨w, rfl, rfl⟩ := sameKey_iff.1 h
  rfl

theorem isNil_iff {β : Type} {v : LuaValue β} : v.isNil = true ↔ v = .scalar .nil := by
  constructor
  · intro h
    unfold LuaValue.isNil at h
    split at h
    · rfl
    · cases h
  · rintro rfl
    rfl

theorem rawget_of_mem (hdistinct : es.Pairwise fun e f => sameKey e.1 f.1 = false)
    {w : Scalar} (hmem : (.scalar w, v) ∈ es) : rawget es (.scalar w) = v := by
  induction es with
  | nil => cases hmem
  | cons e es ih =>
    rw [pairwise_cons] at hdistinct
    rcases mem_cons.mp hmem with rfl | htail
    · simp [rawget, sameKey]
    · have hother : sameKey e.1 (.scalar w) = false := hdistinct.1 _ htail
      have hrest := ih hdistinct.2 htail
      simpa [rawget, hother] using hrest

theorem mem_of_rawget {w : Scalar} (h : (rawget es (.scalar w)).isNil = false) :
    (.scalar w, rawget es (.scalar w)) ∈ es := by
  unfold rawget at h ⊢
  cases hfind : es.find? fun e => sameKey e.1 (.scalar w) with
  | none =>
    rw [hfind] at h
    cases h
  | some e =>
    have hkey := find?_some hfind
    obtain ⟨x, hx, hw⟩ := sameKey_iff.mp hkey
    have hmem := mem_of_find?_eq_some hfind
    cases hw
    simpa [← hx] using hmem

/-! ## Array part and hash part -/

def arrayEntries (es : LuaEntries ℕ) (n : ℕ) : LuaEntries ℕ := (range' 1 n).filterMap fun (i : ℕ) =>
    if (rawgeti es i).isNil then none else some (intKey i, rawgeti es i)

def hashEntries (border : ℕ) (es : LuaEntries ℕ) : LuaEntries ℕ :=
  es.filter fun e => !inArray border e.1

theorem arrayEntries_succ (es : LuaEntries ℕ) (n : ℕ) :
    arrayEntries es (n + 1) = arrayEntries es n ++
      if (rawgeti es (n + 1 : ℕ)).isNil then []
      else [(intKey (n + 1 : ℕ), rawgeti es (n + 1 : ℕ))] := by
  have hone : 1 + n = n + 1 := Nat.add_comm 1 n
  rw [arrayEntries, range'_1_concat, filterMap_append, hone]
  congr 1
  by_cases hnil : (rawgeti es (n + 1 : ℕ)).isNil = true
  · simp only [filterMap_cons, filterMap_nil, hnil, if_true]
  · simp only [filterMap_cons, filterMap_nil, hnil, if_false, Bool.false_eq_true]

variable {e : LuaValue ℕ × LuaValue ℕ}

theorem mem_arrayEntries {n : ℕ} :
    e ∈ arrayEntries es n ↔
      ∃ i : ℕ, 1 ≤ i ∧ i ≤ n ∧ (rawgeti es i).isNil = false ∧ e = (intKey i, rawgeti es i) := by
  simp only [arrayEntries, mem_filterMap, mem_range'_1]
  constructor
  · rintro ⟨i, hi, he⟩
    split at he
    case isTrue => cases he
    case isFalse hnil =>
      cases he
      exact ⟨i, hi.1, by omega, by simpa using hnil, rfl⟩
  · rintro ⟨i, hone, hn, hnil, rfl⟩
    exact ⟨i, ⟨hone, by omega⟩, by simp [hnil]⟩

theorem toInt_intKey {i : ℕ} (hi : i < 2 ^ 31) : (BitVec.ofInt 64 (i : ℤ)).toInt = i := by
  rw [BitVec.toInt_ofInt, Int.bmod_eq_of_le] <;> omega

theorem intKey_inj {i j : ℕ} (hi : i < 2 ^ 31) (hj : j < 2 ^ 31)
    (h : (intKey i : LuaValue ℕ) = intKey j) : i = j := by
  simp only [intKey, LuaValue.scalar.injEq, Scalar.integer.injEq] at h
  have hint := congrArg BitVec.toInt h
  rw [toInt_intKey hi, toInt_intKey hj] at hint
  omega

theorem inArray_intKey {border i : ℕ} (hone : 1 ≤ i) (hi : i ≤ (arraySize border).toNat)
    (hsize : (arraySize border).toNat < 2 ^ 31) : inArray border (intKey i) = true := by
  simp only [inArray, intKey, toInt_intKey (Nat.lt_of_le_of_lt hi hsize), Bool.and_eq_true,
    decide_eq_true_eq]
  omega

theorem mem_filter_inArray {border : ℕ} (hvalid : ValidTable border es)
    (hsize : (arraySize border).toNat < 2 ^ 31) :
    e ∈ es.filter (fun e => inArray border e.1) ↔ e ∈ arrayEntries es (arraySize border).toNat := by
  rw [mem_filter, mem_arrayEntries]
  constructor
  · rintro ⟨hmem, hin⟩
    obtain ⟨k, v⟩ := e
    have hvalue := hvalid.values _ hmem
    cases k with
    | table => cases hin
    | other => cases hin
    | scalar w =>
      cases w with
      | integer x =>
        simp only [inArray, Bool.and_eq_true, decide_eq_true_eq] at hin
        have hcast : (x.toInt.toNat : ℤ) = x.toInt := Int.toNat_of_nonneg hin.1.le
        have hkey : BitVec.ofInt 64 (x.toInt.toNat : ℤ) = x := by
          rw [hcast, BitVec.ofInt_toInt]
        have hget : rawgeti es x.toInt.toNat = v := by
          rw [rawgeti, hkey]
          exact rawget_of_mem hvalid.distinct hmem
        refine ⟨x.toInt.toNat, by omega, by omega, ?_, ?_⟩
        · rw [hget]
          exact hvalue
        · rw [hget, intKey, hkey]
      | _ => cases hin
  · rintro ⟨i, hone, hi, hnil, rfl⟩
    exact ⟨mem_of_rawget hnil, inArray_intKey hone hi hsize⟩

theorem newKey_arrayEntries {n i : ℕ} (hi : n < i) (hsize : i < 2 ^ 31) :
    NewKey (arrayEntries es n) (intKey i) := by
  intro e he
  obtain ⟨j, -, hj, -, rfl⟩ := mem_arrayEntries.mp he
  rw [Bool.eq_false_iff]
  intro hsame
  obtain ⟨w, hw, hw'⟩ := sameKey_iff.mp hsame
  have := intKey_inj (by omega) hsize (hw.trans hw'.symm)
  omega

theorem nodup_arrayEntries {n : ℕ} (hsize : n < 2 ^ 31) : (arrayEntries es n).Nodup := by
  induction n with
  | zero => simp [arrayEntries]
  | succ n ih =>
    rw [arrayEntries_succ]
    split
    case isTrue => simpa using ih (by omega)
    case isFalse =>
      rw [nodup_append]
      refine ⟨ih (by omega), by simp, ?_⟩
      intro e he f hf heq
      have hnew := newKey_arrayEntries (Nat.lt_succ_self n) hsize e he
      rw [heq, mem_singleton.mp hf] at hnew
      simp [intKey, sameKey] at hnew

/-- **Array part and hash part are the table**, each entry once. -/
theorem perm_parts {border : ℕ} (hvalid : ValidTable border es)
    (hsize : (arraySize border).toNat < 2 ^ 31) :
    es.Perm (arrayEntries es (arraySize border).toNat ++ hashEntries border es) := by
  have hsplit := (filter_append_perm (fun e => inArray border e.1) es).symm
  refine hsplit.trans (Perm.append_right _ ?_)
  -- both lists have each of their elements once, and the same ones
  have hnodup : (es.filter fun e => inArray border e.1).Nodup := by
    have hfilter : (es.filter fun e => inArray border e.1).Pairwise
        fun e f => sameKey e.1 f.1 = false := hvalid.distinct.filter _
    apply List.Pairwise.imp_of_mem _ hfilter
    intro e f he _ hne heq
    subst heq
    have hin := (mem_filter.mp he).2
    obtain ⟨k, v⟩ := e
    cases k with
    | scalar w => simp [sameKey] at hne
    | _ => cases hin
  rw [perm_ext_iff_of_nodup hnodup (nodup_arrayEntries hsize)]
  intro e
  exact mem_filter_inArray hvalid hsize

theorem newKey_of_hash {border : ℕ} {done rest : LuaEntries ℕ} (hvalid : ValidTable border es)
    (hsize : (arraySize border).toNat < 2 ^ 31) (hparts : hashEntries border es = done ++ e :: rest)
    : NewKey (arrayEntries es (arraySize border).toNat ++ done) e.1 := by
  have hdistinct : (hashEntries border es).Pairwise fun e f => sameKey e.1 f.1 = false :=
    hvalid.distinct.filter _
  rw [hparts, pairwise_append] at hdistinct
  intro f hf
  rcases mem_append.mp hf with harray | hdone
  · obtain ⟨i, hone, hi, -, rfl⟩ := mem_arrayEntries.mp harray
    have hmem : e ∈ hashEntries border es := by
      rw [hparts]
      simp
    have hnot := (mem_filter.mp hmem).2
    rw [Bool.eq_false_iff]
    intro hsame
    obtain ⟨w, hw, hw'⟩ := sameKey_iff.mp hsame
    rw [hw', ← hw, inArray_intKey hone hi hsize] at hnot
    cases hnot
  · exact hdistinct.2.2 f hdone e mem_cons_self

end Skynet.Analysis
