import Skynet.Analysis.ShareDataRead

/-!
# A shared table equals its source

A table whose integer keys fit in an `int` and that has no table as a key, at any depth, is
shared as it is.  No other table is: a shared table gives back only strings and integers that
fit.  An integer that does not fit is looked up as another one, which is right only where the
other one is no key, so what is shared is compared for a set of keys that are looked up.
-/

namespace Skynet.Analysis

open Library Model List

/-- The keys of a table and of those inside fit, and what is looked up but is no key is none
as an `int` either. -/
inductive KeysFit (looked : Scalar → Prop) : LuaValue ℕ → Prop
  | scalar (w : Scalar) : KeysFit looked (.scalar w)
  | other (t : String) : KeysFit looked (.other t)
  | table {border : ℕ} {es : LuaEntries ℕ} (hkeys : ∀ e ∈ es, FitsKey e.1)
      (habsent : ∀ w, looked w → (rawget es (.scalar w)).isNil = true →
        (rawget es (.scalar (narrowKey w))).isNil = true)
      (hvalues : ∀ e ∈ es, KeysFit looked e.2) : KeysFit looked (.table border es)

/-- What is shared equals its source: the same scalar; or a table that gives for every key
the value of the source, and nil for every other string and integer that is looked up, and
whose keys come once each, and then the end. -/
inductive Shares (looked : Scalar → Prop) (strs : Strings) : ConfValue → LuaValue ℕ → Prop
  | scalar {cv : ConfValue} {w : Scalar} (h : pushvalue strs cv = .scalar w) :
    Shares looked strs cv (.scalar w)
  | table {array : List ConfValue} {hash : List (Option (ConfNode ConfValue))} {border : ℕ}
      {es : LuaEntries ℕ} (value : Scalar → ConfValue)
      (hindex : ∀ w v, (.scalar w, v) ∈ es →
        lindexconf ⟨⟨array, hash⟩, strs⟩ w = .ok (pushvalue strs (value w)))
      (hvalue : ∀ w v, (.scalar w, v) ∈ es → Shares looked strs (value w) v)
      (habsent : ∀ w, looked w → IsLookup w → (rawget es (.scalar w)).isNil = true →
        lindexconf ⟨⟨array, hash⟩, strs⟩ w = .ok (.scalar .nil))
      (hkeys : ∃ ks, Iterates (lnextkey ⟨⟨array, hash⟩, strs⟩) .nil ks ∧
        (ks.map LuaValue.scalar).Perm (es.map Prod.fst)) :
    Shares looked strs (.table array hash) (.table border es)

/-! ## What is built is right -/

variable {looked : Scalar → Prop}

def Stands (looked : Scalar → Prop) (strs : Strings) (v : LuaValue ℕ) (cv : ConfValue) : Prop :=
  cv.isNil = false ∧ (ValidValue v → KeysFit looked v → ∀ final : Strings, strs <+: final →
    final.Nodup → Shares looked final cv v)

variable {es : LuaEntries ℕ}

theorem fitEntries_of_valid {border : ℕ}
    (hvalid : ValidValue (.table border es)) (hfit : KeysFit looked (.table border es)) :
    FitEntries es := by
  cases hvalid with
  | table hvalid _ =>
    cases hfit with
    | table hkeys _ _ => exact ⟨hkeys, hvalid.values, hvalid.distinct⟩

theorem converts_setvalue {conv : ℕ → LuaEntries ℕ → Conv ConfTable}
    (hconv : ∀ border es, ValidValue (.table border es) → KeysFit looked (.table border es) →
      Converts (conv border es) fun tbl strs => ∀ final : Strings, strs <+: final →
        final.Nodup → Shares looked final tbl.value (.table border es))
    {v : LuaValue ℕ} (hnil : v.isNil = false) (hvalid : ValidValue v) (hfit : KeysFit looked v) :
    Converts (setvalue conv v) fun cv strs => Stands looked strs v cv := by
  have hscalar : ∀ {cv : ConfValue} {w : Scalar}, cv.isNil = false →
      (∀ strs, pushvalue strs cv = .scalar w) → ∀ strs, Stands looked strs (.scalar w) cv :=
    fun hcv hpush strs => ⟨hcv, fun _ _ final _ _ => .scalar (hpush final)⟩
  cases v with
  | other t => exact .throw
  | table border es =>
    refine (hconv border es hvalid hfit).bind ?_
    intro tbl strs cv strs' hshares hnodup h
    obtain ⟨rfl, rfl⟩ := conv_pure.1 h
    exact ⟨hnodup, prefix_rfl, rfl, fun _ _ => hshares⟩
  | scalar w =>
    cases w with
    | nil => cases hnil
    | boolean b => exact .pure (hscalar rfl fun _ => rfl)
    | integer n => exact .pure (hscalar rfl fun _ => rfl)
    | real d => exact .pure (hscalar rfl fun _ => rfl)
    | lightuserdata p => exact .throw
    | string s =>
      refine (converts_stringindex s).bind ?_
      intro i strs cv strs' hi hnodup h
      obtain ⟨rfl, rfl⟩ := conv_pure.1 h
      obtain ⟨j, hj, rfl⟩ := hi
      refine ⟨hnodup, prefix_rfl, rfl, fun _ _ final hsub _ => .scalar ?_⟩
      have hcast : (((j + 2 : ℕ) : ℤ) - 2).toNat = j := by omega
      rw [pushvalue, stringAt, hcast, getD_eq_getElem?_getD,
        getElem?_of_prefix hsub hj, Option.getD_some]

theorem FilledTable.shares {c : Conf} {asize border : ℕ}
    (h : FilledTable (Stands looked) c asize es) (hvalid : ValidValue (.table border es))
    (hfit : KeysFit looked (.table border es)) :
    Shares looked c.strings c.root.value (.table border es) := by
  have hvalues : ∀ e ∈ es, ValidValue e.2 ∧ KeysFit looked e.2 := by
    intro e he
    cases hvalid with
    | table _ hvalid =>
      cases hfit with
      | table _ _ hfit => exact ⟨hvalid e he, hfit e he⟩
  have hchoice : ∀ w, ∃ cv, ∀ v, (.scalar w, v) ∈ es →
      lindexconf c w = .ok (pushvalue c.strings cv) ∧ Stands looked c.strings v cv := by
    intro w
    by_cases hw : ∃ v, (.scalar w, v) ∈ es
    · obtain ⟨v, hmem⟩ := hw
      obtain ⟨cv, hindex, hcv⟩ := h.index_value hmem
      refine ⟨cv, fun v' hmem' => ⟨hindex, ?_⟩⟩
      rw [← rawget_entry h.entries hmem', rawget_entry h.entries hmem]
      exact hcv
    · exact ⟨.nil, fun v hmem => absurd ⟨v, hmem⟩ hw⟩
  choose value hvalue using hchoice
  refine .table value (fun w v hmem => (hvalue w v hmem).1) ?_ ?_
    ⟨_, h.iterates, h.keys_perm⟩
  · intro w v hmem
    exact (hvalue w v hmem).2.2 (hvalues _ hmem).1 (hvalues _ hmem).2 c.strings
      prefix_rfl h.nodup
  · intro w hlooked hw hnil
    cases hfit with
    | table _ habsent _ => exact h.index_nil hw (habsent w hlooked hnil)

/-- **What `convtable` makes of a table** whose keys fit. -/
theorem convtable_filled (calls : ℕ) : ∀ border es, ValidValue (.table border es) →
    KeysFit looked (.table border es) → Converts (convtable calls border es) fun tbl strs =>
      ∃ asize, ∀ final : Strings, strs <+: final → final.Nodup →
        FilledTable (Stands looked) ⟨tbl, final⟩ asize es := by
  induction calls with
  | zero => exact fun _ _ _ _ => .throw
  | succ calls ih =>
    intro border es hvalid hfit strs tbl strs' h hnodup
    have hes := fitEntries_of_valid hvalid hfit
    have hvalues : ∀ e ∈ es, ValidValue e.2 ∧ KeysFit looked e.2 := by
      intro e he
      cases hvalid with
      | table _ hvalid =>
        cases hfit with
        | table _ _ hfit => exact ⟨hvalid e he, hfit e he⟩
    have hconv : ∀ border es, ValidValue (.table border es) → KeysFit looked (.table border es) →
        Converts (convtable calls border es) fun tbl strs => ∀ final : Strings,
          strs <+: final → final.Nodup → Shares looked final tbl.value (.table border es) := by
      intro border es hvalid hfit
      refine (ih border es hvalid hfit).mono ?_
      rintro tbl strs ⟨asize, hfilled⟩ final hfinal hnodup
      exact (hfilled final hfinal hnodup).shares hvalid hfit
    have hval : Converting (Stands looked) (convtable calls) es := by
      refine ⟨?_, fun e he => ?_⟩
      · intro strs strs' v cv hstands hsub
        exact ⟨hstands.1, fun hv hf final hfinal => hstands.2 hv hf final (hsub.trans hfinal)⟩
      · exact converts_setvalue hconv (hes.values e he) (hvalues e he).1 (hvalues e he).2
    obtain ⟨hnodup', hsub, asize, -, hsmall, hbuilt⟩ := convtable_built hval hes h hnodup
    refine ⟨hnodup', hsub, asize, fun final hfinal hfnodup => ?_⟩
    exact ⟨⟨hbuilt.hash.mono hval hfinal, hbuilt.full⟩, hes, hfnodup, hsmall,
      fun hstands _ => hstands.1⟩

/-! ## What a shared table gives back -/

/-- The integer keys of the nodes are `int`s, in a table and in those inside, and the array
parts are as long as an `int` says. -/
inductive IntValue : ConfValue → Prop
  | nil : IntValue .nil
  | real (n : BitVec 64) : IntValue (.real n)
  | string (i : ℤ) : IntValue (.string i)
  | boolean (b : Bool) : IntValue (.boolean b)
  | integer (d : BitVec 64) : IntValue (.integer d)
  | table {array : List ConfValue} {hash : List (Option (ConfNode ConfValue))}
      (hlen : array.length < 2 ^ 31) (harray : ∀ cv ∈ array, IntValue cv)
      (hkey : ∀ n, some n ∈ hash → n.keytype = .integer → toInt32 n.key = n.key)
      (hvalue : ∀ n, some n ∈ hash → IntValue n.v) : IntValue (.table array hash)

theorem mem_hash_of_node {tbl : ConfTable} {i : ℕ} {n : ConfNode ConfValue}
    (h : tbl.node i = some n) : some n ∈ tbl.hash := by
  rw [ConfTable.node, Option.join_eq_some_iff] at h
  exact mem_of_getElem? h

section Ints

variable {conv : ℕ → LuaEntries ℕ → Conv ConfTable} {strs strs' : Strings}
  {tbl tbl' : ConfTable}

theorem IntValue.setNode (h : IntValue tbl.value) (i : ℕ) {n : ConfNode ConfValue}
    (hkey : n.keytype = .integer → toInt32 n.key = n.key) (hvalue : IntValue n.v) :
    IntValue (tbl.setNode i n).value := by
  cases h with
  | table hlen harray hkeys hvalues =>
    refine .table hlen harray ?_ ?_
    · intro m hm
      rcases mem_or_eq_of_mem_set hm with hm | hm
      · exact hkeys m hm
      · rw [Option.some.inj hm]
        exact hkey
    · intro m hm
      rcases mem_or_eq_of_mem_set hm with hm | hm
      · exact hvalues m hm
      · rw [Option.some.inj hm]
        exact hvalue

theorem IntValue.node (h : IntValue tbl.value) {i : ℕ} {n : ConfNode ConfValue}
    (hn : tbl.node i = some n) :
    (n.keytype = .integer → toInt32 n.key = n.key) ∧ IntValue n.v := by
  cases h with
  | table _ _ hkeys hvalues => exact ⟨hkeys n (mem_hash_of_node hn), hvalues n (mem_hash_of_node hn)⟩

variable (hconv : ∀ border es, Converts (conv border es) fun tbl _ => IntValue tbl.value)

include hconv

theorem ints_setvalue (v : LuaValue ℕ) : Converts (setvalue conv v) fun cv _ => IntValue cv := by
  cases v with
  | other t => exact .throw
  | table border es =>
    refine (hconv border es).bind ?_
    intro tbl strs cv strs' hints hnodup h
    obtain ⟨rfl, rfl⟩ := conv_pure.1 h
    exact ⟨hnodup, prefix_rfl, hints⟩
  | scalar w =>
    cases w with
    | nil => exact .pure fun _ => .nil
    | boolean b => exact .pure fun _ => .boolean b
    | integer n => exact .pure fun _ => .integer n
    | real d => exact .pure fun _ => .real d
    | lightuserdata p => exact .throw
    | string s =>
      refine (converts_stringindex s).bind ?_
      intro i strs cv strs' _ hnodup h
      obtain ⟨rfl, rfl⟩ := conv_pure.1 h
      exact ⟨hnodup, prefix_rfl, .string i⟩

theorem ints_setarray (hI : IntValue tbl.value) (v : LuaValue ℕ) (key : ℤ) :
    Converts (setarray conv tbl v key) fun tbl _ => IntValue tbl.value := by
  refine (ints_setvalue hconv v).bind ?_
  intro cv strs tbl' strs' hcv hnodup h
  obtain ⟨rfl, rfl⟩ := conv_pure.1 h
  refine ⟨hnodup, prefix_rfl, ?_⟩
  cases hI with
  | table hlen harray hkeys hvalues =>
    refine .table (by simpa using hlen) ?_ hkeys hvalues
    intro cv' hmem
    rcases mem_or_eq_of_mem_set hmem with hmem | rfl
    · exact harray cv' hmem
    · exact hcv

omit hconv in
theorem ints_ishashkey (sizearray : ℤ) (k : LuaValue ℕ) :
    Converts (ishashkey sizearray k) fun place _ =>
      ∀ key keyhash, place = .hash key keyhash .integer → toInt32 key = key := by
  have hstring : ∀ s : Bytes, Converts (do
      let key ← stringindex s
      return KeyPlace.hash key (calchash s) .string) fun place _ =>
        ∀ key keyhash, place = .hash key keyhash .integer → toInt32 key = key := by
    intro s
    refine (converts_stringindex s).bind ?_
    intro i strs place strs' _ hnodup h
    obtain ⟨rfl, rfl⟩ := conv_pure.1 h
    exact ⟨hnodup, prefix_rfl, fun _ _ heq => by cases heq⟩
  unfold ishashkey
  split
  · next n =>
    by_cases hin : 0 < toInt32 n.toInt ∧ toInt32 n.toInt ≤ sizearray
    · simp only [hin, and_self, if_true]
      exact .pure fun _ _ _ heq => by cases heq
    · simp only [hin, if_false]
      refine .pure fun _ _ _ heq => ?_
      cases heq
      exact toInt32_toInt32 _
  · exact hstring _
  · exact hstring []

theorem ints_fillnocolliding (es : LuaEntries ℕ) (hI : IntValue tbl.value) :
    Converts (fillnocolliding conv es tbl) fun tbl _ => IntValue tbl.value := by
  intro strs tbl' strs' h hnodup
  refine converts_foldlM (fun _ tbl _ => IntValue tbl.value) ?_ h hnodup hI
  intro done e rest tbl strs tbl' strs' _ hI hnodup h
  refine Converts.bind (Q := fun tbl _ => IntValue tbl.value)
    (ints_ishashkey tbl.array.length e.1) ?_ h hnodup
  intro place strs tbl' strs' hplace hnodup h
  cases place with
  | array key => exact ints_setarray hconv hI e.2 key h hnodup
  | hash key keyhash keytype =>
    cases hmain : tbl.node (mainSlot keyhash tbl.hash.length) with
    | some n =>
      simp only [hmain] at h
      obtain ⟨rfl, rfl⟩ := conv_pure.1 h
      exact ⟨hnodup, prefix_rfl, hI⟩
    | none =>
      simp only [hmain] at h
      refine Converts.bind (Q := fun tbl _ => IntValue tbl.value)
        (ints_setvalue hconv e.2) ?_ h hnodup
      intro cv strs tbl' strs' hcv hnodup h
      obtain ⟨rfl, rfl⟩ := conv_pure.1 h
      refine ⟨hnodup, prefix_rfl, hI.setNode _ ?_ hcv⟩
      rintro rfl
      exact hplace key keyhash rfl

theorem ints_collide (hI : IntValue tbl.value) (emptyslot : ℕ) (v : LuaValue ℕ) (key : ℤ)
    (keyhash : UInt32) (keytype : KeyType) (hkey : keytype = .integer → toInt32 key = key) :
    Converts (collide conv tbl emptyslot v key keyhash keytype)
      fun p _ => IntValue p.1.value := by
  unfold collide
  split
  · exact .throw
  · next mainpos hmain =>
    split
    · exact .pure fun _ => hI
    · split
      · exact .throw
      · next i _ =>
        refine (ints_setvalue hconv v).bind ?_
        intro cv strs p strs' hcv hnodup h
        obtain ⟨rfl, rfl⟩ := conv_pure.1 h
        obtain ⟨hmkey, hmvalue⟩ := hI.node hmain
        have hmain' := hI.setNode (mainSlot keyhash tbl.hash.length)
          (n := { mainpos with next := some i, nocolliding := false }) hmkey hmvalue
        exact ⟨hnodup, prefix_rfl, hmain'.setNode _ hkey hcv⟩

theorem ints_fillcolliding (es : LuaEntries ℕ) (hI : IntValue tbl.value) :
    Converts (fillcolliding conv es tbl) fun tbl _ => IntValue tbl.value := by
  intro strs tbl' strs' h hnodup
  obtain ⟨p, strs₁, hloop, hlast⟩ := conv_bind.1 h
  obtain ⟨rfl, rfl⟩ := conv_pure.1 hlast
  refine converts_foldlM (fun _ p _ => IntValue p.1.value) ?_ hloop hnodup hI
  rintro done e rest ⟨tbl, emptyslot⟩ strs p strs' _ hI hnodup h
  refine Converts.bind (Q := fun p _ => IntValue p.1.value)
    (ints_ishashkey tbl.array.length e.1) ?_ h hnodup
  intro place strs p strs' hplace hnodup h
  cases place with
  | array key =>
    obtain ⟨rfl, rfl⟩ := conv_pure.1 h
    exact ⟨hnodup, prefix_rfl, hI⟩
  | hash key keyhash keytype =>
    refine ints_collide hconv hI emptyslot e.2 key keyhash keytype ?_ h hnodup
    rintro rfl
    exact hplace key keyhash rfl

end Ints

theorem intValue_emptyTable {asize size : ℕ} (hasize : asize < 2 ^ 31) :
    IntValue (emptyTable asize size).value := by
  refine .table ((length_replicate ..).trans_lt hasize) ?_ ?_ ?_
  · intro cv hcv
    rw [eq_of_mem_replicate hcv]
    exact .nil
  · intro n hn
    cases eq_of_mem_replicate hn
  · intro n hn
    cases eq_of_mem_replicate hn

theorem ints_convtable (calls : ℕ) : ∀ border es,
    Converts (convtable calls border es) fun tbl _ => IntValue tbl.value := by
  induction calls with
  | zero => exact fun _ _ => .throw
  | succ calls ih =>
    intro border es strs tbl strs' h hnodup
    rw [convtable] at h
    split at h
    · cases h
    · have hsmall : (toInt32 border).toNat < 2 ^ 31 := by
        have := (toInt32_bounds border).2
        omega
      obtain ⟨size, strs₁, hlift, h⟩ := conv_bind.1 h
      obtain ⟨-, rfl⟩ := conv_lift hlift
      have hempty := @intValue_emptyTable (toInt32 border).toNat size hsmall
      split at h
      · obtain ⟨tbl₁, strs₁, hfirst, hsecond⟩ := conv_bind.1 h
        obtain ⟨hnodup₁, hsub₁, hI₁⟩ := ints_fillnocolliding ih es hempty hfirst hnodup
        obtain ⟨hnodup', hsub', hI'⟩ := ints_fillcolliding ih es hI₁ hsecond hnodup₁
        exact ⟨hnodup', hsub₁.trans hsub', hI'⟩
      · refine converts_foldlM (fun _ tbl _ => IntValue tbl.value) ?_ h hnodup hempty
        intro done i rest tbl strs tbl' strs' _ hI hnodup h
        exact ints_setarray ih hI _ _ h hnodup

section Back

variable {c : Conf} {k w : Scalar}

theorem fits_intKey {i : ℤ} (hlow : -2 ^ 31 ≤ i) (hhigh : i < 2 ^ 31) : FitsKey (intKey i) := by
  have hnarrow : toInt32 i = i := by
    unfold toInt32
    exact Int.bmod_eq_of_le (by omega) (by omega)
  rw [intKey, FitsKey, toInt_ofInt_narrow hnarrow, hnarrow]

theorem fits_pushkey (hI : IntValue c.root.value) {i : ℕ} {n : ConfNode ConfValue}
    (hn : c.root.node i = some n) : FitsKey (.scalar (pushkey c.strings n)) := by
  obtain ⟨hkey, -⟩ := hI.node hn
  rw [pushkey]
  cases htype : n.keytype with
  | integer =>
    have hnarrow := hkey htype
    rw [FitsKey, toInt_ofInt_narrow hnarrow, hnarrow]
  | string => trivial

theorem fits_keyOfSlot (hI : IntValue c.root.value) {i : ℕ}
    (h : keyOfSlot c i = .ok (some w)) : FitsKey (.scalar w) := by
  unfold keyOfSlot at h
  split at h
  · split at h
    · cases h
    · next n hn =>
      cases h
      exact fits_pushkey hI hn
  · cases h

theorem fits_nextFrom (hI : IntValue c.root.value) {i : ℕ}
    (h : nextFrom c i = .ok (some w)) : FitsKey (.scalar w) := by
  unfold nextFrom at h
  split at h
  · next j hj =>
    cases h
    have hlen : c.root.array.length < 2 ^ 31 := by
      cases hI with
      | table hlen _ _ _ => exact hlen
    have hmem := mem_of_find?_eq_some hj
    rw [mem_range'_1] at hmem
    exact fits_intKey (by omega) (by omega)
  · exact fits_keyOfSlot hI h

theorem fits_nextOfKey (hI : IntValue c.root.value) {key : LookupKey}
    (h : nextOfKey c key = .ok (some w)) : FitsKey (.scalar w) := by
  unfold nextOfKey at h
  cases hslot : lookupKey c key with
  | error e =>
    rw [hslot] at h
    cases h
  | ok o =>
    rw [hslot] at h
    cases o with
    | none => cases h
    | some i => exact fits_keyOfSlot hI h

theorem fits_lnextkey (hI : IntValue c.root.value) (h : lnextkey c k = .ok (some w)) :
    FitsKey (.scalar w) := by
  unfold lnextkey at h
  split at h
  · exact fits_nextFrom hI h
  · simp only at h
    split at h
    · exact fits_nextFrom hI h
    · exact fits_nextOfKey hI h
  · cases h
  · exact fits_nextOfKey hI h
  · cases h

theorem fits_iterates (hI : IntValue c.root.value) {ks : List Scalar}
    (h : Iterates (lnextkey c) k ks) : ∀ w ∈ ks, FitsKey (.scalar w) := by
  induction h with
  | done => simp
  | step h _ ih =>
    intro w hw
    rcases mem_cons.1 hw with rfl | hw
    · exact fits_lnextkey hI h
    · exact ih w hw

theorem pushvalue_table {strs : Strings} {cv : ConfValue} {tbl : ConfTable}
    (h : pushvalue strs cv = .table tbl) : cv = tbl.value := by
  cases cv <;> cases h
  rfl

theorem intValue_lindexconf (hI : IntValue c.root.value) {tbl : ConfTable}
    (h : lindexconf c w = .ok (.table tbl)) : IntValue tbl.value := by
  have hslot : ∀ key, (lookupKey c key).map (valueOfSlot c) = .ok (.table tbl) →
      IntValue tbl.value := by
    intro key h
    cases hkey : lookupKey c key with
    | error e =>
      rw [hkey] at h
      cases h
    | ok o =>
      rw [hkey, Except.map, Except.ok.injEq] at h
      cases o with
      | none => cases h
      | some i =>
        rw [valueOfSlot] at h
        cases hn : c.root.node i with
        | none =>
          rw [hn] at h
          cases h
        | some n =>
          rw [hn] at h
          rw [← pushvalue_table h]
          exact (hI.node hn).2
  unfold lindexconf at h
  split at h
  · simp only at h
    split at h
    · rw [Except.ok.injEq] at h
      rw [← pushvalue_table h, getD_eq_getElem?_getD]
      cases hI with
      | table _ harray _ _ =>
        cases hat : c.root.array[(toInt32 _ - 1).toNat]? with
        | none => exact .nil
        | some cv => exact harray cv (mem_of_getElem? hat)
    · exact hslot _ h
  · cases h
  · exact hslot _ h
  · cases h

end Back

theorem Shares.pushvalue_ne_nil {strs : Strings} {cv : ConfValue} {v : LuaValue ℕ}
    (h : Shares looked strs cv v) (hv : v.isNil = false) : pushvalue strs cv ≠ .scalar .nil := by
  cases h with
  | scalar h =>
    rw [h]
    rintro heq
    cases heq
    cases hv
  | table => simp [pushvalue]

theorem Shares.keysFit {strs : Strings} {cv : ConfValue} {v : LuaValue ℕ}
    (h : Shares looked strs cv v) : ValidValue v → IntValue cv → KeysFit looked v := by
  induction h with
  | scalar _ => exact fun _ _ => .scalar _
  | @table array hash border es value hindex hvalue habsent hkeys ih =>
    intro hvalid hI
    obtain ⟨hvalid, hvalids⟩ : ValidTable border es ∧ ∀ e ∈ es, ValidValue e.2 := by
      cases hvalid with
      | table hvalid hvalids => exact ⟨hvalid, hvalids⟩
    have hroot : IntValue (Conf.root ⟨⟨array, hash⟩, strs⟩).value := hI
    obtain ⟨ks, hiter, hperm⟩ := hkeys
    have hkey : ∀ e ∈ es, ∃ w, e.1 = .scalar w ∧ FitsKey (.scalar w) := by
      intro e he
      have hmem := hperm.mem_iff.2 (mem_map_of_mem he)
      obtain ⟨w, hw, heq⟩ := mem_map.1 hmem
      exact ⟨w, heq.symm, fits_iterates hroot hiter w hw⟩
    refine .table ?_ ?_ ?_
    · intro e he
      obtain ⟨w, hw, hfits⟩ := hkey e he
      rw [hw]
      exact hfits
    · intro w hlooked hnil
      cases w with
      | integer n =>
        -- The value of the narrowed key would be what is found for the absent one.
        by_contra hnarrow
        rw [Bool.not_eq_true] at hnarrow
        have hmem := mem_of_rawget hnarrow
        have hfound := hindex _ _ hmem
        rw [← lindexconf_narrow, habsent _ hlooked trivial hnil, Except.ok.injEq] at hfound
        exact (hvalue _ _ hmem).pushvalue_ne_nil (hvalid.values _ hmem) hfound.symm
      | _ => exact hnil
    · rintro ⟨k, v⟩ he
      obtain ⟨w, rfl, -⟩ := hkey _ he
      refine ih w v he (hvalids _ he) ?_
      have hat := hindex w v he
      cases hcv : value w with
      | table array' hash' =>
        rw [hcv] at hat
        exact intValue_lindexconf hroot hat
      | nil => exact .nil
      | real n => exact .real n
      | string i => exact .string i
      | boolean b => exact .boolean b
      | integer d => exact .integer d

/-! ## Sharing a table -/

theorem lnewconf_convtable {calls border : ℕ} {c : Conf}
    (h : lnewconf calls (.table border es) = .ok c) :
    convtable calls border es [] = .ok (c.root, c.strings) := by
  rw [lnewconf] at h
  split at h
  · cases h
  · next tbl strs hconv =>
    split at h
    · cases h
      exact hconv
    · cases h

/-- **A shared table equals its source** exactly when its keys fit, at any depth, and no
integer that is looked up is narrowed to a key of a table that does not have it. -/
theorem shared_table_equals (looked : Scalar → Prop) {calls border : ℕ} {es : LuaEntries ℕ}
    {c : Conf} (hvalid : ValidValue (.table border es))
    (h : lnewconf calls (.table border es) = .ok c) :
    Shares looked c.strings c.root.value (.table border es) ↔
      KeysFit looked (.table border es) := by
  have hconv := lnewconf_convtable h
  constructor
  · intro hshares
    obtain ⟨-, -, hI⟩ := ints_convtable calls border es hconv nodup_nil
    exact hshares.keysFit hvalid hI
  · intro hfit
    obtain ⟨hnodup, -, asize, hfilled⟩ :=
      convtable_filled calls border es hvalid hfit hconv nodup_nil
    exact (hfilled c.strings prefix_rfl hnodup).shares hvalid hfit

def nestedEntries : LuaEntries ℕ :=
  [(intKey 1, .scalar (.boolean true)), (intKey (-5), .scalar (.string [120])),
    (.scalar (.string [107]), .table 0 [(.scalar (.string [120]), .scalar (.string []))])]

theorem validValue_nestedEntries : ValidValue (.table 1 nestedEntries) := by
  refine .table ⟨?_, by decide, by decide, .inr rfl, rfl⟩ ?_
  · intro e he
    simp only [nestedEntries, mem_cons, not_mem_nil, or_false] at he
    rcases he with rfl | rfl | rfl <;> trivial
  · intro e he
    simp only [nestedEntries, mem_cons, not_mem_nil, or_false] at he
    rcases he with rfl | rfl | rfl
    · exact .scalar _
    · exact .scalar _
    · refine .table ⟨?_, by decide, by decide, .inl rfl, rfl⟩ ?_
      · simp [UsableKey]
      · rintro e he
        rw [mem_singleton.1 he]
        exact .scalar _

def nestedConf : Conf :=
  { root := ⟨[.boolean true],
      [some ⟨.table [] [some ⟨.string 4, 2, none, 153, .string, true⟩], 3, none, 138, .string,
        true⟩, some ⟨.string 2, -5, none, 4294967291, .integer, true⟩]⟩
    strings := [[120], [107], []] }

theorem shared_table_equals_nested : ∃ c, lnewconf 2 (.table 1 nestedEntries) = .ok c ∧
    Shares (fun w => narrowKey w = w) c.strings c.root.value (.table 1 nestedEntries) := by
  have hnew : lnewconf 2 (.table 1 nestedEntries) = .ok nestedConf := by
    with_unfolding_all rfl
  refine ⟨_, hnew, (shared_table_equals _ validValue_nestedEntries hnew).2 ?_⟩
  refine .table ?_ (fun w hw hnil => by rwa [hw]) ?_
  · intro e he
    simp only [nestedEntries, mem_cons, not_mem_nil, or_false] at he
    rcases he with rfl | rfl | rfl
    · exact fits_intKey (by decide) (by decide)
    · exact fits_intKey (by decide) (by decide)
    · trivial
  · intro e he
    simp only [nestedEntries, mem_cons, not_mem_nil, or_false] at he
    rcases he with rfl | rfl | rfl
    · exact .scalar _
    · exact .scalar _
    · refine .table ?_ (fun w hw hnil => by rwa [hw]) ?_
      · simp [FitsKey]
      · rintro e he
        rw [mem_singleton.1 he]
        exact .scalar _

/-- A table with the key 2^32 + 5 is shared, and the key 5 has its value. -/
theorem wide_key_found : ¬ ∀ (border : ℕ) (es : LuaEntries ℕ) (c : Conf),
    ValidValue (.table border es) → lnewconf 1 (.table border es) = .ok c →
      Shares (fun _ => True) c.strings c.root.value (.table border es) := by
  intro hall
  have hvalid : ValidValue (.table 0 [(intKey (2 ^ 32 + 5), .scalar (.integer 1))]) := by
    refine .table ⟨?_, by decide, by decide, .inl rfl, rfl⟩ ?_
    · simp [intKey, UsableKey]
    · rintro e he
      rw [mem_singleton.1 he]
      exact .scalar _
  have hnew : lnewconf 1 (.table 0 [(intKey (2 ^ 32 + 5), .scalar (.integer 1))]) =
      .ok ⟨⟨[], [some ⟨.integer 1, 5, none, 5, .integer, true⟩]⟩, []⟩ := by
    with_unfolding_all rfl
  cases hall 0 _ _ hvalid hnew with
  | table value hindex hvalue habsent hkeys =>
    have hfive := habsent (.integer 5) trivial trivial rfl
    have hone : lindexconf ⟨⟨[], [some ⟨.integer 1, 5, none, 5, .integer, true⟩]⟩, []⟩
        (.integer 5) = .ok (.scalar (.integer 1)) := by
      with_unfolding_all rfl
    cases hone.symm.trans hfive

end Skynet.Analysis
