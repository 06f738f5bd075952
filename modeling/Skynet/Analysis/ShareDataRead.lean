import Skynet.Analysis.ShareDataBuild

/-!
# Reading a shared table

In a table that is filled the chain from the main position of a key has the slot of the key,
if there is one, so `lookup_key` finds this slot, and iteration goes on with the slot behind
it.
-/

namespace Skynet.Analysis

open Library Model List Option

/-! ## Looking up -/

def lookupOf : LookupKey → LuaValue ℕ
  | .integer key => intKey key
  | .string str => .scalar (.string str)

def LookupKey.Narrow : LookupKey → Prop
  | .integer key => toInt32 key = key
  | .string _ => True

theorem toInt32_toInt32 (v : ℤ) : toInt32 (toInt32 v) = toInt32 v := by
  obtain ⟨hlow, hhigh⟩ := toInt32_bounds v
  have hself : ∀ w : ℤ, -2 ^ 31 ≤ w → w < 2 ^ 31 → toInt32 w = w := by
    intro w hlow hhigh
    unfold toInt32
    exact Int.bmod_eq_of_le (by omega) (by omega)
  exact hself _ hlow hhigh

theorem toInt_ofInt_narrow {key : ℤ} (h : toInt32 key = key) :
    (BitVec.ofInt 64 key).toInt = key := by
  have hbounds := toInt32_bounds key
  rw [BitVec.toInt_ofInt]
  exact Int.bmod_eq_of_le (by omega) (by omega)

section Lookup

variable {Val : Strings → LuaValue ℕ → ConfValue → Prop} {c : Conf} {asize : ℕ}
  {es : LuaEntries ℕ} {k : LookupKey}

theorem found_iff {e : LuaValue ℕ × LuaValue ℕ} {n : ConfNode ConfValue}
    (hat : NodeAt Val c.strings e n) (hk : LookupKey.Narrow k) :
    n.found c.strings k = true ↔ e.1 = lookupOf k := by
  obtain ⟨key, v⟩ := e
  have hkey := hat.key
  have hhash := hat.hash
  unfold KeyAt at hkey
  split at hkey
  · next x hx =>
    subst hx
    obtain ⟨hkey, htype⟩ := hkey
    cases k with
    | integer i =>
      simp only [ConfNode.found, htype, hkey, hhash, hashOf, LookupKey.hash, lookupOf, intKey,
        Bool.and_eq_true, decide_eq_true_eq, LuaValue.scalar.injEq, Scalar.integer.injEq]
      constructor
      · rintro ⟨-, rfl⟩
        exact (BitVec.ofInt_toInt).symm
      · intro h
        rw [h, toInt_ofInt_narrow hk]
        exact ⟨rfl, rfl⟩
    | string s => simp [ConfNode.found, htype, lookupOf]
  · next x hx =>
    subst hx
    obtain ⟨⟨j, hj, hkey⟩, htype⟩ := hkey
    have hstring : stringAt c.strings n.key = x := by
      rw [stringAt, hkey, getD_eq_getElem?_getD]
      have hcast : (((j + 2 : ℕ) : ℤ) - 2).toNat = j := by omega
      rw [hcast, hj, getD_some]
    cases k with
    | integer i => simp [ConfNode.found, htype, lookupOf, intKey]
    | string s =>
      simp only [ConfNode.found, htype, hstring, hhash, hashOf, LookupKey.hash, lookupOf,
        Bool.and_eq_true, decide_eq_true_eq, LuaValue.scalar.injEq, Scalar.string.injEq]
      constructor
      · rintro ⟨-, rfl⟩
        rfl
      · rintro rfl
        exact ⟨rfl, rfl⟩
  · exact hkey.elim

theorem lookupLoop_spec {i : ℕ} {l : List ℕ} (h : Chain (nextSlot c.root) i l) :
    ∀ {fuel : ℕ}, l.length ≤ fuel → lookupLoop c k fuel i =
      .ok (l.find? fun x => (c.root.node x).any fun n => n.found c.strings k) := by
  induction h with
  | last h =>
    intro fuel hfuel
    obtain ⟨fuel, rfl⟩ := Nat.exists_eq_succ_of_ne_zero (Nat.ne_of_gt hfuel)
    obtain ⟨n, hn, hnext⟩ := map_eq_some_iff.1 h
    rw [lookupLoop, hn]
    cases hfound : n.found c.strings k with
    | true => simp [hn, hfound]
    | false => simp [hn, hfound, hnext]
  | cons h hl ih =>
    intro fuel hfuel
    obtain ⟨fuel, rfl⟩ := Nat.exists_eq_succ_of_ne_zero (Nat.ne_of_gt (Nat.lt_of_lt_of_le
      (Nat.succ_pos _) hfuel))
    obtain ⟨n, hn, hnext⟩ := map_eq_some_iff.1 h
    rw [lookupLoop, hn]
    cases hfound : n.found c.strings k with
    | true => simp [hn, hfound]
    | false =>
      have hrest := ih (Nat.le_of_succ_le_succ hfuel)
      simp [hn, hfound, hnext, hrest]

theorem chain_fits {i : ℕ} {l : List ℕ} (h : Chain (nextSlot c.root) i l) :
    l.length ≤ c.root.hash.length := by
  refine h.length_le fun x hx => ?_
  have hsome := h.isSome hx
  rw [nextSlot, isSome_map, isSome_iff_exists] at hsome
  obtain ⟨n, hn⟩ := hsome
  exact node_lt hn

variable (hbuilt : Built Val c.strings asize es c.root)
  (hnodup : c.strings.Nodup) (hk : LookupKey.Narrow k)

include hbuilt hnodup hk in
theorem lookupKey_present {i : ℕ} {n : ConfNode ConfValue} (hn : c.root.node i = some n)
    (hfound : n.found c.strings k = true) : lookupKey c k = .ok (some i) := by
  have hpos : c.root.hash.length ≠ 0 := Nat.ne_of_gt (Nat.lt_of_le_of_lt (Nat.zero_le i)
    (node_lt hn))
  have hhash : k.hash = n.keyhash := by
    unfold ConfNode.found at hfound
    rw [Bool.and_eq_true, decide_eq_true_eq] at hfound
    exact hfound.1
  obtain ⟨main, hmain⟩ := hbuilt.full _ (mainSlot_lt (Nat.pos_of_ne_zero hpos) n.keyhash)
  rw [lookupKey, if_neg hpos]
  simp only [hhash, hmain]
  have hgo : ¬ (n.keyhash ≠ main.keyhash ∧ main.nocolliding = true) := by
    rintro ⟨hne, hcolliding⟩
    by_cases hi : i = mainSlot n.keyhash c.root.hash.length
    · rw [← hi, hn, Option.some.injEq] at hmain
      exact hne (by rw [hmain])
    · rw [hbuilt.hash.colliding i n main hn hmain hi] at hcolliding
      cases hcolliding
  rw [if_neg hgo]
  obtain ⟨l, hl, hmem⟩ := hbuilt.hash.chains i n hn
  rw [lookupLoop_spec hl (chain_fits hl)]
  have hany : (l.find? fun x => (c.root.node x).any fun n => n.found c.strings k).isSome := by
    rw [find?_isSome]
    exact ⟨i, hmem, by simp [hn, hfound]⟩
  obtain ⟨x, hx⟩ := isSome_iff_exists.1 hany
  have hxfound := find?_some hx
  rw [Option.any_eq_true] at hxfound
  obtain ⟨m, hm, hmfound⟩ := hxfound
  obtain ⟨e, -, -, hat, -⟩ := hbuilt.hash.nodes i n hn
  obtain ⟨f, -, -, hat', -⟩ := hbuilt.hash.nodes x m hm
  have hkeys : e.1 = f.1 := ((found_iff hat hk).1 hfound).trans ((found_iff hat' hk).1 hmfound).symm
  have hekey := hat.key
  rw [hkeys] at hekey
  obtain ⟨hkey, htype⟩ := hekey.unique hnodup hat'.key
  rw [hx, hbuilt.hash.once i x n m hn hm hkey htype]

include hbuilt in
theorem lookupKey_absent (hno : ∀ i n, c.root.node i = some n → n.found c.strings k = false) :
    lookupKey c k = .ok none := by
  rw [lookupKey]
  split
  · rfl
  · next hpos =>
    have hlt := mainSlot_lt (Nat.pos_of_ne_zero hpos) k.hash
    obtain ⟨main, hmain⟩ := hbuilt.full _ hlt
    simp only [hmain]
    split
    · rfl
    · obtain ⟨l, hl, hmem⟩ := hbuilt.hash.chains _ main hmain
      obtain ⟨-, l₂, -, hsuffix⟩ := hl.suffix hmem
      rw [lookupLoop_spec hsuffix (chain_fits hsuffix)]
      congr 1
      rw [find?_eq_none]
      intro x _ hx
      rw [Option.any_eq_true] at hx
      obtain ⟨n, hn, hfound⟩ := hx
      rw [hno x n hn] at hfound
      cases hfound

include hbuilt hnodup hk in
theorem lookup_value {v : LuaValue ℕ} (hmem : (lookupOf k, v) ∈ es)
    (hout : inPart asize (lookupOf k) = false) :
    ∃ cv, (lookupKey c k).map (valueOfSlot c) = .ok (pushvalue c.strings cv) ∧
      Val c.strings v cv := by
  obtain ⟨i, n, hn, hat⟩ := hbuilt.hash.placed _ hmem hout
  have hfound := (found_iff hat hk).2 rfl
  refine ⟨n.v, ?_, hat.value⟩
  rw [lookupKey_present hbuilt hnodup hk hn hfound]
  simp [Except.map, valueOfSlot, hn]

include hbuilt hk in
theorem lookup_nothing (hno : ∀ v, (lookupOf k, v) ∈ es → inPart asize (lookupOf k) = true) :
    (lookupKey c k).map (valueOfSlot c) = .ok (.scalar .nil) := by
  have habsent : lookupKey c k = .ok none := by
    refine lookupKey_absent hbuilt fun i n hn => ?_
    rw [Bool.eq_false_iff]
    intro hfound
    obtain ⟨⟨key, v⟩, he, hout, hat, -⟩ := hbuilt.hash.nodes i n hn
    have hkey := (found_iff hat hk).1 hfound
    subst hkey
    rw [hno v he] at hout
    cases hout
  rw [habsent]
  rfl

end Lookup

/-! ## The two readers -/

def narrowKey : Scalar → Scalar
  | .integer n => .integer (BitVec.ofInt 64 (toInt32 n.toInt))
  | w => w

def IsLookup : Scalar → Prop
  | .integer _ | .string _ => True
  | _ => False

inductive Iterates (next : Scalar → Except ConfReadError (Option Scalar)) :
    Scalar → List Scalar → Prop
  | done {k : Scalar} (h : next k = .ok none) : Iterates next k []
  | step {k k' : Scalar} {ks : List Scalar} (h : next k = .ok (some k'))
    (hks : Iterates next k' ks) : Iterates next k (k' :: ks)

section Readers

variable {Val : Strings → LuaValue ℕ → ConfValue → Prop} {c : Conf} {asize : ℕ}
  {es : LuaEntries ℕ}

structure FilledTable (Val : Strings → LuaValue ℕ → ConfValue → Prop) (c : Conf) (asize : ℕ)
    (es : LuaEntries ℕ) : Prop where
  built : Built Val c.strings asize es c.root
  entries : FitEntries es
  nodup : c.strings.Nodup
  small : asize < 2 ^ 31
  notNil : ∀ {v cv}, Val c.strings v cv → v.isNil = false → cv.isNil = false

theorem narrow_toInt32 (v : ℤ) : LookupKey.Narrow (.integer (toInt32 v)) := toInt32_toInt32 v

variable {w : Scalar}

theorem rawget_entry (hes : FitEntries es) {v : LuaValue ℕ}
    (h : (.scalar w, v) ∈ es) : rawget es (.scalar w) = v :=
  rawget_of_mem hes.distinct h

theorem not_mem_of_nil (hes : FitEntries es)
    (h : (rawget es (.scalar w)).isNil = true) (v : LuaValue ℕ) : (.scalar w, v) ∉ es := by
  intro hmem
  have hvalue := hes.values _ hmem
  rw [← rawget_entry hes hmem, h] at hvalue
  cases hvalue

theorem inPart_intKey {key : ℤ} (h : toInt32 key = key) :
    inPart asize (intKey key) = true ↔ 0 < key ∧ key ≤ asize := by
  simp [inPart, intKey, toInt_ofInt_narrow h]

theorem FilledTable.arrayAt (h : FilledTable Val c asize es) {i : ℕ} (hi : i < asize) :
    ArrayAt Val c.strings (rawgeti es (i + 1 : ℕ)) (c.root.array.getD i .nil) := by
  obtain ⟨cv, hcv, hat⟩ := h.built.hash.array i (by rwa [h.built.hash.arrayLen])
  rw [getD_eq_getElem?_getD, hcv]
  exact hat

theorem FilledTable.index_value (h : FilledTable Val c asize es) {v : LuaValue ℕ}
    (hmem : (.scalar w, v) ∈ es) :
    ∃ cv, lindexconf c w = .ok (pushvalue c.strings cv) ∧ Val c.strings v cv := by
  have hfits := h.entries.fits _ hmem
  cases w with
  | integer n =>
    have hnarrow : toInt32 n.toInt = n.toInt := hfits
    rw [lindexconf, h.built.hash.arrayLen, hnarrow]
    split
    · have hat := h.arrayAt (i := (n.toInt - 1).toNat) (by omega)
      have hcast : (((n.toInt - 1).toNat + 1 : ℕ) : ℤ) = n.toInt := by omega
      rw [hcast, rawgeti, BitVec.ofInt_toInt, rawget_entry h.entries hmem, ArrayAt,
        if_neg (by simp [h.entries.values _ hmem])] at hat
      exact ⟨_, rfl, hat⟩
    · next hout =>
      have hkey : lookupOf (.integer n.toInt) = .scalar (.integer n) := by
        rw [lookupOf, intKey, BitVec.ofInt_toInt]
      refine lookup_value (k := .integer n.toInt) h.built h.nodup hnarrow (hkey ▸ hmem) ?_
      rw [Bool.eq_false_iff, lookupOf]
      exact fun hin => hout ((inPart_intKey hnarrow).1 hin)
  | string s => exact lookup_value (k := .string s) h.built h.nodup trivial hmem rfl
  | _ => exact hfits.elim

theorem FilledTable.index_nil (h : FilledTable Val c asize es) (hw : IsLookup w)
    (hnil : (rawget es (.scalar (narrowKey w))).isNil = true) :
    lindexconf c w = .ok (.scalar .nil) := by
  cases w with
  | integer n =>
    rw [lindexconf, h.built.hash.arrayLen]
    split
    · have hat := h.arrayAt (i := (toInt32 n.toInt - 1).toNat) (by omega)
      have hcast : (((toInt32 n.toInt - 1).toNat + 1 : ℕ) : ℤ) = toInt32 n.toInt := by omega
      rw [hcast, rawgeti] at hat
      rw [narrowKey] at hnil
      rw [ArrayAt, if_pos hnil] at hat
      rw [hat]
      rfl
    · refine lookup_nothing h.built (narrow_toInt32 _) fun v hmem => ?_
      exact absurd hmem (not_mem_of_nil h.entries hnil v)
  | string s =>
    refine lookup_nothing (k := .string s) h.built trivial fun v hmem => ?_
    exact absurd hmem (not_mem_of_nil h.entries hnil v)
  | _ => exact hw.elim

theorem lindexconf_narrow (c : Conf) (n : BitVec 64) :
    lindexconf c (.integer n) = lindexconf c (narrowKey (.integer n)) := by
  simp only [narrowKey, lindexconf, toInt_ofInt_narrow (toInt32_toInt32 n.toInt), toInt32_toInt32]

/-! ## Iterating -/

def slotKeys (c : Conf) (i : ℕ) : List Scalar :=
  (range' i (c.root.hash.length - i)).filterMap fun i =>
    (c.root.node i).map (pushkey c.strings)

def arrayKeys (c : Conf) (i : ℕ) : List Scalar :=
  (range' i (c.root.array.length - i)).filterMap fun i =>
    if (c.root.array.getD i .nil).isNil then none
    else some (.integer (BitVec.ofInt 64 (i + 1 : ℕ)))

theorem pushkey_eq {e : LuaValue ℕ × LuaValue ℕ} {n : ConfNode ConfValue}
    (hat : NodeAt Val c.strings e n) : e.1 = .scalar (pushkey c.strings n) := by
  have hkey := hat.key
  unfold KeyAt at hkey
  split at hkey
  · next x hx =>
    rw [hx, pushkey, hkey.2, hkey.1, BitVec.ofInt_toInt]
  · next x hx =>
    obtain ⟨⟨j, hj, hkey⟩, htype⟩ := hkey
    rw [hx, pushkey, htype, stringAt, hkey, getD_eq_getElem?_getD]
    have hcast : (((j + 2 : ℕ) : ℤ) - 2).toNat = j := by omega
    rw [hcast, hj, getD_some]
  · exact hkey.elim

section

variable (h : FilledTable Val c asize es)
include h

theorem FilledTable.next_slot {i : ℕ} {n : ConfNode ConfValue}
    (hn : c.root.node i = some n) : lnextkey c (pushkey c.strings n) = keyOfSlot c (i + 1) := by
  obtain ⟨e, he, hout, hat, -⟩ := h.built.hash.nodes i n hn
  have hkey := pushkey_eq hat
  have hfits := h.entries.fits e he
  rw [hkey] at hfits hout
  have hgo : ∀ k : LookupKey, LookupKey.Narrow k →
      lookupOf k = .scalar (pushkey c.strings n) → nextOfKey c k = keyOfSlot c (i + 1) := by
    intro k hk hlookup
    have hfound := (found_iff hat hk).2 (hkey.trans hlookup.symm)
    rw [nextOfKey, lookupKey_present h.built h.nodup hk hn hfound]
    rfl
  cases hw : pushkey c.strings n with
  | integer x =>
    rw [hw] at hfits hout hgo
    have hnarrow : toInt32 x.toInt = x.toInt := hfits
    have hint : intKey x.toInt = (.scalar (.integer x) : LuaValue ℕ) := by
      rw [intKey, BitVec.ofInt_toInt]
    rw [lnextkey, h.built.hash.arrayLen, hnarrow, if_neg]
    · exact hgo (.integer x.toInt) hnarrow hint
    · rw [← hint, Bool.eq_false_iff] at hout
      exact fun hin => hout ((inPart_intKey hnarrow).2 hin)
  | string s =>
    rw [hw] at hgo
    exact hgo (.string s) trivial rfl
  | _ =>
    rw [hw] at hfits
    exact hfits.elim

theorem FilledTable.iterates_slots (m : ℕ) :
    ∀ (i : ℕ) (k : Scalar), i + m = c.root.hash.length → lnextkey c k = keyOfSlot c i →
      Iterates (lnextkey c) k (slotKeys c i) := by
  induction m with
  | zero =>
    intro i k hi hk
    have hnil : slotKeys c i = [] := by
      rw [slotKeys, ← hi]
      simp
    rw [hnil]
    refine .done ?_
    rw [hk, keyOfSlot, if_neg (by omega)]
  | succ m ih =>
    intro i k hi hk
    obtain ⟨n, hn⟩ := h.built.full i (by omega)
    have hcons : slotKeys c i = pushkey c.strings n :: slotKeys c (i + 1) := by
      have hlen : c.root.hash.length - i = (c.root.hash.length - (i + 1)) + 1 := by omega
      rw [slotKeys, hlen, range'_succ, filterMap_cons, hn]
      rfl
    rw [hcons]
    refine .step ?_ (ih (i + 1) _ (by omega) (h.next_slot hn))
    rw [hk, keyOfSlot, if_pos (by omega), hn]

theorem FilledTable.iterates_from (m : ℕ) :
    ∀ (i : ℕ) (k : Scalar), i + m = asize → lnextkey c k = nextFrom c i →
      Iterates (lnextkey c) k (arrayKeys c i ++ slotKeys c 0) := by
  have hlen := h.built.hash.arrayLen
  induction m with
  | zero =>
    intro i k hi hk
    have hnil : arrayKeys c i = [] := by
      rw [arrayKeys, hlen, ← hi]
      simp
    rw [hnil, nil_append]
    refine h.iterates_slots c.root.hash.length 0 k (Nat.zero_add _) ?_
    have hnone : arrayNext c i = none := by
      rw [arrayNext, hlen, ← hi]
      simp
    rw [hk, nextFrom, hnone]
  | succ m ih =>
    intro i k hi hk
    have hsub : c.root.array.length - i = (c.root.array.length - (i + 1)) + 1 := by omega
    cases hnil : (c.root.array.getD i .nil).isNil with
    | true =>
      have hkeys : arrayKeys c i = arrayKeys c (i + 1) := by
        rw [arrayKeys, hsub, range'_succ, filterMap_cons, if_pos hnil]
        rfl
      have hnext : arrayNext c i = arrayNext c (i + 1) := by
        rw [arrayNext, hsub, range'_succ, find?_cons, hnil]
        rfl
      rw [hkeys]
      refine ih (i + 1) k (by omega) ?_
      rw [hk, nextFrom, hnext, nextFrom]
    | false =>
      have hkeys : arrayKeys c i =
          .integer (BitVec.ofInt 64 (i + 1 : ℕ)) :: arrayKeys c (i + 1) := by
        rw [arrayKeys, hsub, range'_succ, filterMap_cons, hnil, if_neg Bool.false_ne_true]
        rfl
      have hnext : arrayNext c i = some i := by
        rw [arrayNext, hsub, range'_succ, find?_cons, hnil]
        rfl
      rw [hkeys, cons_append]
      have hsmall := h.small
      have hint : (BitVec.ofInt 64 ((i + 1 : ℕ) : ℤ)).toInt = (i + 1 : ℕ) := toInt_intKey (by omega)
      have hnarrow : toInt32 ((i + 1 : ℕ) : ℤ) = (i + 1 : ℕ) := by
        unfold toInt32
        exact Int.bmod_eq_of_le (by omega) (by omega)
      refine .step ?_ (ih (i + 1) _ (by omega) ?_)
      · rw [hk, nextFrom, hnext]
      · rw [lnextkey, hint, hnarrow, hlen, if_pos (by omega), Int.toNat_natCast]

theorem FilledTable.iterates :
    Iterates (lnextkey c) .nil (arrayKeys c 0 ++ slotKeys c 0) :=
  h.iterates_from asize 0 .nil (Nat.zero_add _) rfl

theorem FilledTable.mem_arrayKeys :
    w ∈ arrayKeys c 0 ↔ ∃ v, (.scalar w, v) ∈ es ∧ inPart asize (.scalar w) = true := by
  have hlen := h.built.hash.arrayLen
  have hsmall := h.small
  simp only [arrayKeys, hlen, mem_filterMap, mem_range'_1]
  constructor
  · rintro ⟨i, hi, hw⟩
    split at hw
    · cases hw
    · next hnil =>
      cases hw
      have hat := h.arrayAt (i := i) (by omega)
      have hvalue : (rawgeti es ((i + 1 : ℕ) : ℤ)).isNil = false := by
        rw [Bool.eq_false_iff]
        intro hnil'
        rw [ArrayAt, if_pos hnil'] at hat
        rw [hat] at hnil
        exact hnil rfl
      refine ⟨_, mem_of_rawget hvalue, ?_⟩
      rw [inPart, toInt_intKey (by omega)]
      simp only [Bool.and_eq_true, decide_eq_true_eq]
      omega
  · rintro ⟨v, hmem, hin⟩
    cases w with
    | integer n =>
      simp only [inPart, Bool.and_eq_true, decide_eq_true_eq] at hin
      have hcast : (((n.toInt - 1).toNat + 1 : ℕ) : ℤ) = n.toInt := by omega
      have hat := h.arrayAt (i := (n.toInt - 1).toNat) (by omega)
      rw [hcast, rawgeti, BitVec.ofInt_toInt, rawget_entry h.entries hmem, ArrayAt,
        if_neg (by simp [h.entries.values _ hmem])] at hat
      refine ⟨(n.toInt - 1).toNat, by omega, ?_⟩
      rw [h.notNil hat (h.entries.values _ hmem), if_neg Bool.false_ne_true, hcast,
        BitVec.ofInt_toInt]
    | _ => cases hin

theorem FilledTable.mem_slotKeys :
    w ∈ slotKeys c 0 ↔ ∃ v, (.scalar w, v) ∈ es ∧ inPart asize (.scalar w) = false := by
  simp only [slotKeys, mem_filterMap, mem_range'_1, map_eq_some_iff]
  constructor
  · rintro ⟨i, -, n, hn, rfl⟩
    obtain ⟨⟨k, v⟩, he, hout, hat, -⟩ := h.built.hash.nodes i n hn
    have hkey : k = .scalar (pushkey c.strings n) := pushkey_eq hat
    subst hkey
    exact ⟨v, he, hout⟩
  · rintro ⟨v, hmem, hout⟩
    obtain ⟨i, n, hn, hat⟩ := h.built.hash.placed _ hmem hout
    refine ⟨i, by have := node_lt hn; omega, n, hn, ?_⟩
    exact (LuaValue.scalar.inj (pushkey_eq hat)).symm

theorem FilledTable.nodup_slotKeys : (slotKeys c 0).Nodup := by
  refine Nodup.filterMap ?_ nodup_range'
  intro i j w hi hj
  obtain ⟨n, hn, hw⟩ := map_eq_some_iff.1 hi
  obtain ⟨m, hm, hw'⟩ := map_eq_some_iff.1 hj
  obtain ⟨e, -, -, hat, -⟩ := h.built.hash.nodes i n hn
  obtain ⟨f, -, -, hat', -⟩ := h.built.hash.nodes j m hm
  have hkeys : e.1 = f.1 := by
    rw [pushkey_eq hat, pushkey_eq hat', hw, hw']
  have hekey := hat.key
  rw [hkeys] at hekey
  obtain ⟨hkey, htype⟩ := hekey.unique h.nodup hat'.key
  exact h.built.hash.once i j n m hn hm hkey htype

theorem FilledTable.nodup_arrayKeys : (arrayKeys c 0).Nodup := by
  have hlen := h.built.hash.arrayLen
  have hsmall := h.small
  rw [arrayKeys, hlen, Nat.sub_zero, Nodup, pairwise_filterMap]
  have hrange := nodup_range' (s := 0) (n := asize)
  refine hrange.imp_of_mem ?_
  intro i j hi hj hne w hw w' hw' heq
  rw [mem_range'_1] at hi hj
  split at hw
  · cases hw
  · split at hw'
    · cases hw'
    · cases hw
      cases hw'
      have hkeys : (intKey ((i + 1 : ℕ) : ℤ) : LuaValue ℕ) = intKey ((j + 1 : ℕ) : ℤ) := by
        rw [intKey, intKey, heq]
      have := intKey_inj (by omega) (by omega) hkeys
      omega

/-- **Iteration gives every key once.** -/
theorem FilledTable.keys_perm :
    ((arrayKeys c 0 ++ slotKeys c 0).map LuaValue.scalar).Perm (es.map Prod.fst) := by
  have hscalar : Function.Injective (LuaValue.scalar (β := ℕ)) :=
    fun _ _ heq => LuaValue.scalar.inj heq
  have hnodup : ((arrayKeys c 0 ++ slotKeys c 0).map (LuaValue.scalar (β := ℕ))).Nodup := by
    refine Nodup.map hscalar (nodup_append.2
      ⟨h.nodup_arrayKeys, h.nodup_slotKeys, ?_⟩)
    rintro w hw w' hw' rfl
    obtain ⟨-, -, hin⟩ := h.mem_arrayKeys.1 hw
    obtain ⟨-, -, hout⟩ := h.mem_slotKeys.1 hw'
    rw [hin] at hout
    cases hout
  have hkeys : (es.map Prod.fst).Nodup := by
    rw [Nodup, pairwise_map]
    refine h.entries.distinct.imp_of_mem fun {e f} he _ hother heq => ?_
    rw [← heq, sameKey_self (h.entries.fits e he)] at hother
    cases hother
  rw [perm_ext_iff_of_nodup hnodup hkeys]
  intro k
  rw [List.mem_map, List.mem_map]
  constructor
  · rintro ⟨w, hw, rfl⟩
    rcases mem_append.1 hw with hw | hw
    · obtain ⟨v, hmem, -⟩ := h.mem_arrayKeys.1 hw
      exact ⟨_, hmem, rfl⟩
    · obtain ⟨v, hmem, -⟩ := h.mem_slotKeys.1 hw
      exact ⟨_, hmem, rfl⟩
  · rintro ⟨⟨k, v⟩, hmem, rfl⟩
    obtain ⟨w, rfl⟩ : ∃ w, k = .scalar w := by
      have hfits := h.entries.fits _ hmem
      cases k with
      | scalar w => exact ⟨w, rfl⟩
      | table => exact hfits.elim
      | other => exact hfits.elim
    refine ⟨w, mem_append.2 ?_, rfl⟩
    cases hin : inPart asize (.scalar w) with
    | true => exact .inl (h.mem_arrayKeys.2 ⟨v, hmem, hin⟩)
    | false => exact .inr (h.mem_slotKeys.2 ⟨v, hmem, hin⟩)

end

end Readers

end Skynet.Analysis
