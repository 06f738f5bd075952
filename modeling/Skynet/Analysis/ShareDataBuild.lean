import Skynet.Analysis.LuaSeriPack
import Skynet.Analysis.LuaSeriTables
import Skynet.Library.SlotChain
import Skynet.Model.ShareData

/-!
# Filling a shared table

Where the integer keys fit in an `int` and no key is a table, `fillnocolliding` puts one
entry of each main position there, and `fillcolliding` links every other entry into the chain
of its main position.  In the end every entry has a slot of its own and no slot is free.
-/

namespace Skynet.Analysis

open Library Model List Option

/-- The strings with a number, by the number. -/
abbrev Strings : Type := List Bytes

/-! ## Steps of a conversion -/

variable {strs strs' : Strings}

theorem conv_bind {α β : Type} {m : Conv α} {f : α → Conv β} {b : β} :
    (m >>= f) strs = .ok (b, strs') ↔
      ∃ a strs₁, m strs = .ok (a, strs₁) ∧ f a strs₁ = .ok (b, strs') := by
  constructor
  · intro h
    cases hm : m strs with
    | error e =>
      simp only [bind, StateT.bind, Except.bind, hm] at h
      cases h
    | ok p =>
      simp only [bind, StateT.bind, Except.bind, hm] at h
      exact ⟨p.1, p.2, rfl, h⟩
  · rintro ⟨a, strs₁, hm, hf⟩
    simp only [bind, StateT.bind, Except.bind, hm]
    exact hf

variable {α : Type}

theorem conv_pure {a b : α} : (pure a : Conv α) strs = .ok (b, strs') ↔ a = b ∧ strs = strs' := by
  show Except.ok (a, strs) = .ok (b, strs') ↔ _
  rw [Except.ok.injEq, Prod.mk.injEq]

theorem conv_lift {m : Except ConfError α} {a : α}
    (h : (liftM m : Conv α) strs = .ok (a, strs')) : m = .ok a ∧ strs = strs' := by
  cases m with
  | error e => cases h
  | ok b =>
    cases h
    exact ⟨rfl, rfl⟩

theorem conv_throw {e : ConfError} {b : α} : ¬ (throw e : Conv α) strs = .ok (b, strs') := by
  intro h
  cases h

/-- A conversion that succeeds keeps the numbers of the strings, gives no string two, and
leaves what `P` says. -/
def Converts {α : Type} (m : Conv α) (P : α → Strings → Prop) : Prop :=
  ∀ ⦃strs a strs'⦄, m strs = .ok (a, strs') → strs.Nodup → strs'.Nodup ∧ strs <+: strs' ∧ P a strs'

theorem Converts.mono {m : Conv α} {P Q : α → Strings → Prop} (h : Converts m P)
    (hPQ : ∀ a strs, P a strs → Q a strs) : Converts m Q := by
  intro strs a strs' hm hnodup
  obtain ⟨hnodup', hsub, hP⟩ := h hm hnodup
  exact ⟨hnodup', hsub, hPQ a strs' hP⟩

theorem Converts.pure {a : α} {P : α → Strings → Prop}
    (h : ∀ strs, P a strs) : Converts (pure a) P := by
  intro strs b strs' hm hnodup
  obtain ⟨rfl, rfl⟩ := conv_pure.1 hm
  exact ⟨hnodup, prefix_rfl, h strs⟩

theorem Converts.throw {e : ConfError} {P : α → Strings → Prop} : Converts (throw e) P :=
  fun _ _ _ hm _ => absurd hm conv_throw

theorem Converts.bind {α β : Type} {m : Conv α} {f : α → Conv β} {P : α → Strings → Prop}
    {Q : β → Strings → Prop} (hm : Converts m P)
    (hf : ∀ ⦃a strs b strs'⦄, P a strs → strs.Nodup → f a strs = .ok (b, strs') →
      strs'.Nodup ∧ strs <+: strs' ∧ Q b strs') : Converts (m >>= f) Q := by
  intro strs b strs' h hnodup
  obtain ⟨a, strs₁, hfirst, hsecond⟩ := conv_bind.1 h
  obtain ⟨hnodup₁, hsub₁, hP⟩ := hm hfirst hnodup
  obtain ⟨hnodup', hsub', hQ⟩ := hf hP hnodup₁ hsecond
  exact ⟨hnodup', hsub₁.trans hsub', hQ⟩

theorem converts_foldlM {α β : Type} {f : β → α → Conv β} {es : List α}
    (I : List α → β → Strings → Prop)
    (hstep : ∀ ⦃done e rest b strs b' strs'⦄, es = done ++ e :: rest → I done b strs →
      strs.Nodup → f b e strs = .ok (b', strs') →
      strs'.Nodup ∧ strs <+: strs' ∧ I (done ++ [e]) b' strs') {b b' : β}
    (h : es.foldlM f b strs = .ok (b', strs')) (hnodup : strs.Nodup) (hI : I [] b strs) :
    strs'.Nodup ∧ strs <+: strs' ∧ I es b' strs' := by
  have hgo : ∀ (rest done : List α) (b : β) (strs : Strings), es = done ++ rest →
      I done b strs → strs.Nodup → rest.foldlM f b strs = .ok (b', strs') →
      strs'.Nodup ∧ strs <+: strs' ∧ I es b' strs' := by
    intro rest
    induction rest with
    | nil =>
      intro done b strs hes hI hnodup h
      obtain ⟨rfl, rfl⟩ := conv_pure.1 h
      rw [append_nil] at hes
      exact ⟨hnodup, prefix_rfl, hes ▸ hI⟩
    | cons e rest ih =>
      intro done b strs hes hI hnodup h
      obtain ⟨b₁, strs₁, hfirst, hrest⟩ := conv_bind.1 h
      obtain ⟨hnodup₁, hsub₁, hI₁⟩ := hstep hes hI hnodup hfirst
      obtain ⟨hnodup', hsub', hI'⟩ := ih (done ++ [e]) b₁ strs₁ (by simp [hes]) hI₁ hnodup₁ hrest
      exact ⟨hnodup', hsub₁.trans hsub', hI'⟩
  exact hgo es [] b strs rfl hI hnodup h

/-! ## Keys -/

def FitsKey : LuaValue ℕ → Prop
  | .scalar (.integer n) => toInt32 n.toInt = n.toInt
  | .scalar (.string _) => True
  | _ => False

def inPart (sizearray : ℤ) : LuaValue ℕ → Bool
  | .scalar (.integer n) => 0 < n.toInt && n.toInt ≤ sizearray
  | _ => false

def hashOf : LuaValue ℕ → UInt32
  | .scalar (.integer n) => UInt32.ofInt n.toInt
  | .scalar (.string s) => calchash s
  | _ => 0

def KeyAt (strs : Strings) (k : LuaValue ℕ) (key : ℤ) (keytype : KeyType) : Prop :=
  match k with
  | .scalar (.integer n) => key = n.toInt ∧ keytype = .integer
  | .scalar (.string s) => (∃ j : ℕ, strs[j]? = some s ∧ key = (j + 2 : ℕ)) ∧ keytype = .string
  | _ => False

section Keys

variable {strs strs' : Strings} {k k' : LuaValue ℕ} {key : ℤ} {keytype : KeyType}

theorem getElem?_of_prefix {α : Type} {l l' : List α} (h : l <+: l') {i : ℕ} {a : α}
    (ha : l[i]? = some a) : l'[i]? = some a := by
  obtain ⟨r, rfl⟩ := h
  rw [getElem?_append_left (List.getElem?_eq_some_iff.1 ha).1]
  exact ha

theorem KeyAt.mono (h : KeyAt strs k key keytype) (hsub : strs <+: strs') :
    KeyAt strs' k key keytype := by
  unfold KeyAt at h ⊢
  split at h
  · exact h
  · obtain ⟨⟨j, hj, hkey⟩, htype⟩ := h
    exact ⟨⟨j, getElem?_of_prefix hsub hj, hkey⟩, htype⟩
  · exact h.elim

theorem KeyAt.inj (h : KeyAt strs k key keytype) (h' : KeyAt strs k' key keytype) : k = k' := by
  unfold KeyAt at h h'
  split at h
  · split at h'
    · rw [BitVec.eq_of_toInt_eq (h.1.symm.trans h'.1)]
    · rw [h.2] at h'
      cases h'.2
    · exact h'.elim
  · obtain ⟨⟨j, hj, hkey⟩, htype⟩ := h
    split at h'
    · rw [htype] at h'
      cases h'.2
    · obtain ⟨⟨i, hi, hkey'⟩, -⟩ := h'
      obtain rfl : i = j := by omega
      rw [hi, some.injEq] at hj
      rw [hj]
    · exact h'.elim
  · exact h.elim

theorem KeyAt.unique {key' : ℤ} {keytype' : KeyType} (hnodup : strs.Nodup)
    (h : KeyAt strs k key keytype) (h' : KeyAt strs k key' keytype') :
    key = key' ∧ keytype = keytype' := by
  unfold KeyAt at h h'
  split at h
  · exact ⟨h.1.trans h'.1.symm, h.2.trans h'.2.symm⟩
  · obtain ⟨⟨j, hj, hkey⟩, htype⟩ := h
    obtain ⟨⟨i, hi, hkey'⟩, htype'⟩ := h'
    have hij : i = j := by
      have hlt := (List.getElem?_eq_some_iff.1 hj).1
      exact ((getElem?_inj hlt hnodup).1 (hj.trans hi.symm)).symm
    exact ⟨by omega, htype.trans htype'.symm⟩
  · exact h.elim

theorem converts_stringindex (str : Bytes) :
    Converts (stringindex str) fun i strs => ∃ j : ℕ, strs[j]? = some str ∧ i = (j + 2 : ℕ) := by
  intro strs i strs' h hnodup
  obtain ⟨l, l', hget, h⟩ := conv_bind.1 h
  cases hget
  cases hidx : strs.idxOf? str with
  | some j =>
    simp only [hidx] at h
    obtain ⟨rfl, rfl⟩ := conv_pure.1 h
    obtain ⟨hlt, hat, -⟩ := idxOf?_eq_some_iff.1 hidx
    exact ⟨hnodup, prefix_rfl, j, List.getElem?_eq_some_iff.2 ⟨hlt, hat⟩, rfl⟩
  | none =>
    simp only [hidx] at h
    have hnew : str ∉ strs := idxOf?_eq_none_iff.1 hidx
    have hstate : strs' = strs ++ [str] ∧ i = (strs.length + 2 : ℕ) := by
      cases h
      exact ⟨rfl, rfl⟩
    obtain ⟨rfl, rfl⟩ := hstate
    refine ⟨?_, prefix_append _ _, strs.length, by simp, rfl⟩
    rw [nodup_append]
    refine ⟨hnodup, nodup_singleton _, ?_⟩
    rintro a ha b hb rfl
    rw [mem_singleton.1 hb] at ha
    exact hnew ha

theorem converts_ishashkey {sizearray : ℤ} (hk : FitsKey k) :
    Converts (ishashkey sizearray k) fun place strs =>
      match place with
      | .array key => inPart sizearray k = true ∧ k = intKey key ∧ 0 < key ∧ key ≤ sizearray
      | .hash key keyhash keytype =>
        inPart sizearray k = false ∧ KeyAt strs k key keytype ∧ keyhash = hashOf k := by
  unfold FitsKey at hk
  split at hk
  · simp only [ishashkey, hk]
    split
    · next hin =>
      refine .pure fun strs => ⟨by simp [inPart, hin], ?_, hin⟩
      rw [intKey, BitVec.ofInt_toInt]
    · next hout =>
      refine .pure fun strs => ⟨?_, ⟨rfl, rfl⟩, rfl⟩
      simpa [inPart] using hout
  · next s =>
    refine (converts_stringindex s).bind ?_
    intro i strs b strs' hi hnodup h
    obtain ⟨rfl, rfl⟩ := conv_pure.1 h
    exact ⟨hnodup, prefix_rfl, rfl, ⟨hi, rfl⟩, rfl⟩
  · exact hk.elim

end Keys

/-! ## The loops -/

section Loops

variable {conv : ℕ → LuaEntries ℕ → Conv ConfTable} {es done : LuaEntries ℕ}
  {Val : Strings → LuaValue ℕ → ConfValue → Prop} {strs strs' : Strings} {tbl : ConfTable}
  {size : ℕ}

structure NodeAt (Val : Strings → LuaValue ℕ → ConfValue → Prop) (strs : Strings)
    (e : LuaValue ℕ × LuaValue ℕ) (n : ConfNode ConfValue) : Prop where
  key : KeyAt strs e.1 n.key n.keytype
  hash : n.keyhash = hashOf e.1
  value : Val strs e.2 n.v

def ArrayAt (Val : Strings → LuaValue ℕ → ConfValue → Prop) (strs : Strings) (v : LuaValue ℕ)
    (cv : ConfValue) : Prop :=
  if v.isNil then cv = .nil else Val strs v cv

def ArrayPart (Val : Strings → LuaValue ℕ → ConfValue → Prop) (strs : Strings)
    (done : LuaEntries ℕ) (tbl : ConfTable) : Prop :=
  ∀ i < tbl.array.length, ∃ cv, tbl.array[i]? = some cv ∧
    ArrayAt Val strs (rawgeti done (i + 1 : ℕ)) cv

/-- What is asked of the relation between a Lua value and what stands for it: more strings
leave it, it is what `setvalue` gives for the values of the table, and nil stands for no
value. -/
structure Converting (Val : Strings → LuaValue ℕ → ConfValue → Prop)
    (conv : ℕ → LuaEntries ℕ → Conv ConfTable) (es : LuaEntries ℕ) : Prop where
  mono : ∀ {strs strs' v cv}, Val strs v cv → strs <+: strs' → Val strs' v cv
  setvalue : ∀ e ∈ es, Converts (setvalue conv e.2) fun cv strs => Val strs e.2 cv

structure FitEntries (es : LuaEntries ℕ) : Prop where
  fits : ∀ e ∈ es, FitsKey e.1
  values : ∀ e ∈ es, e.2.isNil = false
  distinct : es.Pairwise fun e f => sameKey e.1 f.1 = false

variable {e : LuaValue ℕ × LuaValue ℕ} {n : ConfNode ConfValue}

theorem NodeAt.mono (hval : Converting Val conv es) (h : NodeAt Val strs e n)
    (hsub : strs <+: strs') : NodeAt Val strs' e n :=
  ⟨h.key.mono hsub, h.hash, hval.mono h.value hsub⟩

theorem ArrayPart.mono (hval : Converting Val conv es) (h : ArrayPart Val strs done tbl)
    (hsub : strs <+: strs') : ArrayPart Val strs' done tbl := by
  intro i hi
  obtain ⟨cv, hcv, hat⟩ := h i hi
  refine ⟨cv, hcv, ?_⟩
  unfold ArrayAt at hat ⊢
  split
  · next hnil =>
    rw [if_pos hnil] at hat
    exact hat
  · next hnil =>
    rw [if_neg hnil] at hat
    exact hval.mono hat hsub

theorem sameKey_self {k : LuaValue ℕ} (h : FitsKey k) : sameKey k k = true := by
  unfold FitsKey at h
  split at h
  · simp [sameKey]
  · simp [sameKey]
  · exact h.elim

theorem FitEntries.newKey (hes : FitEntries es)
    {rest : LuaEntries ℕ} (hsplit : es = done ++ e :: rest) : NewKey done e.1 := by
  have hdistinct := hes.distinct
  rw [hsplit, pairwise_append] at hdistinct
  intro f hf
  exact hdistinct.2.2 f hf e mem_cons_self

theorem FitEntries.eq_of_key (hes : FitEntries es) {e f : LuaValue ℕ × LuaValue ℕ}
    (he : e ∈ es) (hf : f ∈ es) (hkey : e.1 = f.1) : e = f := by
  by_contra hne
  have hsymm : Std.Symm fun e f : LuaValue ℕ × LuaValue ℕ => sameKey e.1 f.1 = false :=
    ⟨fun a b h => (sameKey_symm b.1 a.1).trans h⟩
  have hother := hes.distinct.forall he hf hne
  rw [← hkey, sameKey_self (hes.fits e he)] at hother
  cases hother

theorem rawgeti_concat {k v : LuaValue ℕ} (hnew : NewKey done k) (i : ℤ) :
    rawgeti (done ++ [(k, v)]) i =
      if sameKey k (intKey i) then v else rawgeti done i := by
  rw [rawgeti, rawget, find?_append]
  change _ = if sameKey k (intKey i) then v else rawget done (intKey i)
  cases hk : sameKey k (intKey i) with
  | true =>
    have hnone : (done.find? fun e => sameKey e.1 (intKey i)) = none := by
      rw [find?_eq_none]
      intro e he hei
      obtain ⟨w, hw, hwi⟩ := sameKey_iff.1 hei
      obtain ⟨w', hw', hwi'⟩ := sameKey_iff.1 hk
      have hsame : sameKey e.1 k = true := by
        rw [hwi] at hwi'
        exact sameKey_iff.2 ⟨w, hw, by rw [hw', LuaValue.scalar.inj hwi']⟩
      rw [hnew e he] at hsame
      cases hsame
    simp only [intKey] at hk hnone
    simp [hnone, hk]
  | false =>
    simp only [intKey] at hk
    simp [hk, rawget, intKey]

theorem ArrayPart.other (h : ArrayPart Val strs done tbl) (hnew : NewKey done e.1)
    (hlen : tbl.array.length < 2 ^ 31) (hout : inPart tbl.array.length e.1 = false) : ArrayPart Val
    strs (done ++ [e]) tbl := by
  intro i hi
  obtain ⟨cv, hcv, hat⟩ := h i hi
  refine ⟨cv, hcv, ?_⟩
  have hne : sameKey e.1 (intKey (i + 1 : ℕ)) = false := by
    rw [Bool.eq_false_iff]
    intro hsame
    obtain ⟨w, hw, hwi⟩ := sameKey_iff.1 hsame
    rw [hw, ← hwi, intKey, inPart, toInt_intKey (by omega)] at hout
    simp only [Bool.and_eq_false_iff, decide_eq_false_iff_not] at hout
    omega
  rw [rawgeti_concat hnew, hne, if_neg Bool.false_ne_true]
  exact hat

theorem ArrayPart.set (h : ArrayPart Val strs done tbl)
    (hnew : NewKey done e.1) {key : ℤ} (hkey : e.1 = intKey key) (hpos : 0 < key)
    (hle : key ≤ tbl.array.length) (hlen : tbl.array.length < 2 ^ 31) {cv : ConfValue}
    (hcv : ArrayAt Val strs e.2 cv) :
    ArrayPart Val strs (done ++ [e])
      { tbl with array := tbl.array.set (key - 1).toNat cv } := by
  obtain ⟨k, v⟩ := e
  subst hkey
  intro i hi
  simp only [length_set] at hi
  rw [rawgeti_concat hnew, getElem?_set]
  have hsame : sameKey (intKey key : LuaValue ℕ) (intKey (i + 1 : ℕ)) = true ↔
      (key - 1).toNat = i := by
    constructor
    · intro hs
      obtain ⟨w, hw, hw'⟩ := sameKey_iff.1 hs
      have hkeys : (intKey (key.toNat : ℤ) : LuaValue ℕ) = intKey ((i + 1 : ℕ) : ℤ) := by
        rw [Int.toNat_of_nonneg hpos.le]
        exact hw.trans hw'.symm
      have := intKey_inj (by omega) (by omega) hkeys
      omega
    · rintro rfl
      have hcast : (((key - 1).toNat + 1 : ℕ) : ℤ) = key := by omega
      rw [hcast]
      exact sameKey_iff.2 ⟨_, rfl, rfl⟩
  by_cases hi' : (key - 1).toNat = i
  · rw [if_pos hi', if_pos (by omega), if_pos (hsame.2 hi')]
    exact ⟨cv, rfl, hcv⟩
  · rw [if_neg hi', if_neg (fun hs => hi' (hsame.1 hs))]
    exact h i hi

/-! ## The first loop -/

theorem node_setNode {i : ℕ} (hi : i < tbl.hash.length) (n : ConfNode ConfValue) (j : ℕ) :
    (tbl.setNode i n).node j = if j = i then some n else tbl.node j := by
  rw [ConfTable.node, ConfTable.setNode, getElem?_set]
  by_cases hij : i = j
  · subst hij
    simp [hi]
  · simp [hij, Ne.symm hij, ConfTable.node]

theorem node_lt {i : ℕ} (h : tbl.node i = some n) : i < tbl.hash.length := by
  rw [ConfTable.node] at h
  by_contra hge
  rw [getElem?_eq_none (Nat.le_of_not_lt hge)] at h
  cases h

theorem mainSlot_lt (h : 0 < size) (keyhash : UInt32) : mainSlot keyhash size < size :=
  Nat.mod_lt _ h

/-- After some entries in `fillnocolliding`: what there is lies in its main position, alone,
and no main position of an entry is free. -/
structure FirstPass (Val : Strings → LuaValue ℕ → ConfValue → Prop) (strs : Strings)
    (asize size : ℕ) (done : LuaEntries ℕ) (tbl : ConfTable) : Prop where
  arrayLen : tbl.array.length = asize
  hashLen : tbl.hash.length = size
  array : ArrayPart Val strs done tbl
  nodes : ∀ i n, tbl.node i = some n → ∃ e ∈ done, inPart asize e.1 = false ∧
    NodeAt Val strs e n ∧ i = mainSlot n.keyhash size ∧ n.next = none ∧ n.nocolliding = true
  mains : ∀ e ∈ done, inPart asize e.1 = false →
    (tbl.node (mainSlot (hashOf e.1) size)).isSome = true

variable {asize : ℕ}

theorem FirstPass.mono (hval : Converting Val conv es)
    (h : FirstPass Val strs asize size done tbl) (hsub : strs <+: strs') :
    FirstPass Val strs' asize size done tbl where
  arrayLen := h.arrayLen
  hashLen := h.hashLen
  array := h.array.mono hval hsub
  nodes i n hn := by
    obtain ⟨e, he, hout, hat, hrest⟩ := h.nodes i n hn
    exact ⟨e, he, hout, hat.mono hval hsub, hrest⟩
  mains := h.mains

theorem mem_concat_left {α : Type} {l : List α} {a b : α} (h : a ∈ l) : a ∈ l ++ [b] :=
  mem_append_left _ h

theorem FirstPass.setArray (h : FirstPass Val strs asize size done tbl) (hasize : asize < 2 ^ 31)
    (hnew : NewKey done e.1) {key : ℤ} (hkey : e.1 = intKey key)
    (hin : inPart asize e.1 = true) (hpos : 0 < key) (hle : key ≤ asize) {cv : ConfValue}
    (hcv : ArrayAt Val strs e.2 cv) :
    FirstPass Val strs asize size (done ++ [e])
      { tbl with array := tbl.array.set (key - 1).toNat cv } := by
  have hlen := h.arrayLen
  refine ⟨by simpa using hlen, h.hashLen,
    h.array.set hnew hkey hpos (by omega) (by omega) hcv, ?_, ?_⟩
  · intro i n hn
    obtain ⟨f, hf, hrest⟩ := h.nodes i n hn
    exact ⟨f, mem_concat_left hf, hrest⟩
  · intro f hf hout
    rcases mem_append.1 hf with hf | hf
    · exact h.mains f hf hout
    · rw [mem_singleton.1 hf, hin] at hout
      cases hout

theorem FirstPass.setHash (h : FirstPass Val strs asize size done tbl) (hasize : asize < 2 ^ 31)
    (hsize : 0 < size) (hnew : NewKey done e.1) (hout : inPart asize e.1 = false)
    (hat : NodeAt Val strs e n) (hnext : n.next = none) (hcolliding : n.nocolliding = true) :
    FirstPass Val strs asize size (done ++ [e]) (tbl.setNode (mainSlot n.keyhash size) n) := by
  have hlt : mainSlot n.keyhash size < tbl.hash.length := by
    rw [h.hashLen]
    exact mainSlot_lt hsize _
  refine ⟨h.arrayLen, by simpa [ConfTable.setNode] using h.hashLen, ?_, ?_, ?_⟩
  · have hlen := h.arrayLen
    exact h.array.other hnew (by omega) (by rw [hlen]; exact hout)
  · intro i m hm
    rw [node_setNode hlt] at hm
    split at hm
    · next hi =>
      cases hm
      exact ⟨e, by simp, hout, hat, hi, hnext, hcolliding⟩
    · obtain ⟨f, hf, hrest⟩ := h.nodes i m hm
      exact ⟨f, mem_concat_left hf, hrest⟩
  · intro f hf hfout
    rw [node_setNode hlt]
    split
    · rfl
    · next hne =>
      rcases mem_append.1 hf with hf | hf
      · exact h.mains f hf hfout
      · rw [mem_singleton.1 hf, ← hat.hash] at hne
        exact absurd rfl hne

theorem FirstPass.skip (h : FirstPass Val strs asize size done tbl) (hasize : asize < 2 ^ 31)
    (hnew : NewKey done e.1) (hout : inPart asize e.1 = false)
    (hmain : (tbl.node (mainSlot (hashOf e.1) size)).isSome = true) :
    FirstPass Val strs asize size (done ++ [e]) tbl := by
  have hlen := h.arrayLen
  refine ⟨hlen, h.hashLen, h.array.other hnew (by omega) (by rw [hlen]; exact hout), ?_, ?_⟩
  · intro i n hn
    obtain ⟨f, hf, hrest⟩ := h.nodes i n hn
    exact ⟨f, mem_concat_left hf, hrest⟩
  · intro f hf hfout
    rcases mem_append.1 hf with hf | hf
    · exact h.mains f hf hfout
    · rw [mem_singleton.1 hf]
      exact hmain

variable {tbl' : ConfTable}

theorem setarray_ok {v : LuaValue ℕ} {key : ℤ}
    (hset : Converts (setvalue conv v) fun cv strs => Val strs v cv) (hnil : v.isNil = false)
    (h : setarray conv tbl v key strs = .ok (tbl', strs')) (hnodup : strs.Nodup) :
    strs'.Nodup ∧ strs <+: strs' ∧ ∃ cv, ArrayAt Val strs' v cv ∧
      tbl' = { tbl with array := tbl.array.set (key - 1).toNat cv } := by
  obtain ⟨cv, strs₁, hfirst, hrest⟩ := conv_bind.1 h
  obtain ⟨rfl, rfl⟩ := conv_pure.1 hrest
  obtain ⟨hnodup', hsub, hcv⟩ := hset hfirst hnodup
  refine ⟨hnodup', hsub, cv, ?_, rfl⟩
  rw [ArrayAt, hnil, if_neg Bool.false_ne_true]
  exact hcv

/-- **The first loop** gives every main position of an entry a node. -/
theorem fillnocolliding_spec (hval : Converting Val conv es) (hes : FitEntries es)
    (hasize : asize < 2 ^ 31) (hsize : 0 < size)
    (h : fillnocolliding conv es tbl strs = .ok (tbl', strs')) (hnodup : strs.Nodup)
    (hinit : FirstPass Val strs asize size [] tbl) :
    strs'.Nodup ∧ strs <+: strs' ∧ FirstPass Val strs' asize size es tbl' := by
  refine converts_foldlM (fun done tbl strs => FirstPass Val strs asize size done tbl) ?_ h
    hnodup hinit
  intro done e rest tbl strs tbl' strs' hsplit hI hnodup h
  have hmem : e ∈ es := by
    rw [hsplit]
    simp
  have hnew := hes.newKey hsplit
  obtain ⟨place, strs₁, hplace, hrest⟩ := conv_bind.1 h
  obtain ⟨hnodup₁, hsub₁, hwhere⟩ := converts_ishashkey (hes.fits e hmem) hplace hnodup
  have hI₁ := hI.mono hval hsub₁
  cases place with
  | array key =>
    obtain ⟨hin, hkey, hpos, hle⟩ := hwhere
    rw [hI.arrayLen] at hin hle
    obtain ⟨hnodup', hsub', cv, hcv, rfl⟩ :=
      setarray_ok (hval.setvalue e hmem) (hes.values e hmem) hrest hnodup₁
    exact ⟨hnodup', hsub₁.trans hsub',
      (hI₁.mono hval hsub').setArray hasize hnew hkey hin hpos hle hcv⟩
  | hash key keyhash keytype =>
    obtain ⟨hout, hkey, rfl⟩ := hwhere
    rw [hI.arrayLen] at hout
    simp only [hI.hashLen] at hrest
    cases hmain : tbl.node (mainSlot (hashOf e.1) size) with
    | some n =>
      simp only [hmain] at hrest
      obtain ⟨rfl, rfl⟩ := conv_pure.1 hrest
      exact ⟨hnodup₁, hsub₁, hI₁.skip hasize hnew hout (by rw [hmain]; rfl)⟩
    | none =>
      simp only [hmain] at hrest
      obtain ⟨cv, strs₂, hset, hlast⟩ := conv_bind.1 hrest
      obtain ⟨rfl, rfl⟩ := conv_pure.1 hlast
      obtain ⟨hnodup', hsub', hcv⟩ := hval.setvalue e hmem hset hnodup₁
      have hat : NodeAt Val strs₂ e ⟨cv, key, none, hashOf e.1, keytype, true⟩ :=
        ⟨hkey.mono hsub', rfl, hcv⟩
      exact ⟨hnodup', hsub₁.trans hsub',
        (hI₁.mono hval hsub').setHash hasize hsize hnew hout hat rfl rfl⟩

/-! ## The second loop -/

def nextSlot (tbl : ConfTable) (i : ℕ) : Option (Option ℕ) := (tbl.node i).map ConfNode.next

/-- After some entries in `fillcolliding`: a node is in its main position or its entry is
done, what is done has a node, no key has two, and every node is in the chain of its main
position, which says that it is shared. -/
structure SecondPass (Val : Strings → LuaValue ℕ → ConfValue → Prop) (strs : Strings)
    (asize size : ℕ) (es done : LuaEntries ℕ) (tbl : ConfTable) : Prop where
  arrayLen : tbl.array.length = asize
  hashLen : tbl.hash.length = size
  array : ArrayPart Val strs es tbl
  nodes : ∀ i n, tbl.node i = some n → ∃ e ∈ es, inPart asize e.1 = false ∧
    NodeAt Val strs e n ∧ (i = mainSlot n.keyhash size ∨ e ∈ done)
  placed : ∀ e ∈ done, inPart asize e.1 = false → ∃ i n, tbl.node i = some n ∧ NodeAt Val strs e n
  mains : ∀ e ∈ es, inPart asize e.1 = false → ∃ n, tbl.node (mainSlot (hashOf e.1) size) = some n ∧
      mainSlot n.keyhash size = mainSlot (hashOf e.1) size
  once : ∀ i j n m, tbl.node i = some n → tbl.node j = some m → n.key = m.key →
    n.keytype = m.keytype → i = j
  chains : ∀ i n, tbl.node i = some n →
    ∃ l, Chain (nextSlot tbl) (mainSlot n.keyhash size) l ∧ i ∈ l
  colliding : ∀ i n m, tbl.node i = some n → tbl.node (mainSlot n.keyhash size) = some m →
    i ≠ mainSlot n.keyhash size → m.nocolliding = false

theorem SecondPass.mono (hval : Converting Val conv es)
    (h : SecondPass Val strs asize size es done tbl) (hsub : strs <+: strs') :
    SecondPass Val strs' asize size es done tbl where
  arrayLen := h.arrayLen
  hashLen := h.hashLen
  array := h.array.mono hval hsub
  nodes i n hn := by
    obtain ⟨e, he, hout, hat, hrest⟩ := h.nodes i n hn
    exact ⟨e, he, hout, hat.mono hval hsub, hrest⟩
  placed e he hout := by
    obtain ⟨i, n, hn, hat⟩ := h.placed e he hout
    exact ⟨i, n, hn, hat.mono hval hsub⟩
  mains := h.mains
  once := h.once
  chains := h.chains
  colliding := h.colliding

theorem FirstPass.second (h : FirstPass Val strs asize size es tbl) :
    SecondPass Val strs asize size es [] tbl where
  arrayLen := h.arrayLen
  hashLen := h.hashLen
  array := h.array
  nodes i n hn := by
    obtain ⟨e, he, hout, hat, hmain, -⟩ := h.nodes i n hn
    exact ⟨e, he, hout, hat, .inl hmain⟩
  placed e he := by cases he
  mains e he hout := by
    obtain ⟨n, hn⟩ := isSome_iff_exists.1 (h.mains e he hout)
    obtain ⟨f, -, -, -, hmain, -⟩ := h.nodes _ n hn
    exact ⟨n, hn, hmain.symm⟩
  once i j n m hn hm hkey htype := by
    obtain ⟨e, -, -, hat, hi, -⟩ := h.nodes i n hn
    obtain ⟨f, -, -, hat', hj, -⟩ := h.nodes j m hm
    have hkey' := hat.key
    rw [hkey, htype] at hkey'
    rw [hi, hj, hat.hash, hat'.hash, hkey'.inj hat'.key]
  chains i n hn := by
    obtain ⟨e, -, -, -, hi, hnext, -⟩ := h.nodes i n hn
    refine ⟨[i], ?_, by simp⟩
    rw [← hi]
    refine .last ?_
    rw [nextSlot, hn, map_some, hnext]
  colliding i n m hn hm hne := by
    obtain ⟨e, -, -, -, hi, -⟩ := h.nodes i n hn
    exact absurd hi hne

theorem freeSlot_spec {k i : ℕ} (h : tbl.freeSlot k = some i) :
    i < tbl.hash.length ∧ tbl.node i = none := by
  have hnone : tbl.node i = none := by
    simpa using find?_some h
  have hmem := mem_of_find?_eq_some h
  rw [mem_range'_1] at hmem
  exact ⟨by omega, hnone⟩

theorem SecondPass.skip (h : SecondPass Val strs asize size es done tbl)
    (hplaced : inPart asize e.1 = false → ∃ i n, tbl.node i = some n ∧ NodeAt Val strs e n) :
    SecondPass Val strs asize size es (done ++ [e]) tbl where
  arrayLen := h.arrayLen
  hashLen := h.hashLen
  array := h.array
  nodes i n hn := by
    obtain ⟨f, hf, hout, hat, hrest⟩ := h.nodes i n hn
    exact ⟨f, hf, hout, hat, hrest.imp_right mem_concat_left⟩
  placed f hf hout := by
    rcases mem_append.1 hf with hf | hf
    · exact h.placed f hf hout
    · rw [mem_singleton.1 hf] at hout ⊢
      exact hplaced hout
  mains := h.mains
  once := h.once
  chains := h.chains
  colliding := h.colliding

section Insert

variable {m i : ℕ} {mainpos new : ConfNode ConfValue}

def insertNode (tbl : ConfTable) (m i : ℕ) (mainpos new : ConfNode ConfValue) : ConfTable :=
  (tbl.setNode m { mainpos with next := some i, nocolliding := false }).setNode i new

theorem node_insertNode (hm : tbl.node m = some mainpos) (hi : i < tbl.hash.length) (j : ℕ) :
    (insertNode tbl m i mainpos new).node j =
      if j = i then some new
      else if j = m then some { mainpos with next := some i, nocolliding := false }
      else tbl.node j := by
  have hlen : i < (tbl.setNode m
      { mainpos with next := some i, nocolliding := false }).hash.length := by
    simpa [ConfTable.setNode] using hi
  rw [insertNode, node_setNode hlen, node_setNode (node_lt hm)]

theorem nextSlot_insertNode (hm : tbl.node m = some mainpos) (hi : i < tbl.hash.length)
    (hfree : tbl.node i = none) (hnext : new.next = mainpos.next) :
    nextSlot (insertNode tbl m i mainpos new) = Chain.insert (nextSlot tbl) m i := by
  have hne : i ≠ m := by
    rintro rfl
    rw [hfree] at hm
    cases hm
  funext j
  rw [nextSlot, node_insertNode hm hi, Chain.insert]
  by_cases hji : j = i
  · subst hji
    rw [if_pos rfl, if_neg hne, if_pos rfl, nextSlot, hm, map_some, hnext]
    rfl
  · rw [if_neg hji]
    by_cases hjm : j = m
    · rw [if_pos hjm, if_pos hjm]
      rfl
    · rw [if_neg hjm, if_neg hjm, if_neg hji]
      rfl

/-- A node after the insertion is the new one, or a node that there was, with its key and
its value. -/
theorem insertNode_cases (hm : tbl.node m = some mainpos) (hi : i < tbl.hash.length) {j : ℕ}
    {n : ConfNode ConfValue} (h : (insertNode tbl m i mainpos new).node j = some n) :
    (j = i ∧ n = new) ∨ ∃ n₀, tbl.node j = some n₀ ∧ n.key = n₀.key ∧ n.keytype = n₀.keytype ∧
      n.keyhash = n₀.keyhash ∧ n.v = n₀.v := by
  rw [node_insertNode hm hi] at h
  split at h
  · next hj => exact .inl ⟨hj, (some.inj h).symm⟩
  · split at h
    · next hj =>
      cases h
      exact .inr ⟨mainpos, by rw [hj, hm], rfl, rfl, rfl, rfl⟩
    · exact .inr ⟨n, h, rfl, rfl, rfl, rfl⟩

theorem insertNode_keeps (new : ConfNode ConfValue) (hm : tbl.node m = some mainpos) (hi : i < tbl.hash.length)
    (hfree : tbl.node i = none) {j : ℕ} {n₀ : ConfNode ConfValue} (h : tbl.node j = some n₀) :
    ∃ n, (insertNode tbl m i mainpos new).node j = some n ∧ n.key = n₀.key ∧
      n.keytype = n₀.keytype ∧ n.keyhash = n₀.keyhash ∧ n.v = n₀.v ∧
      (n.nocolliding = n₀.nocolliding ∨ n.nocolliding = false) := by
  have hji : j ≠ i := by
    rintro rfl
    rw [hfree] at h
    cases h
  rw [node_insertNode hm hi, if_neg hji]
  by_cases hjm : j = m
  · subst hjm
    obtain rfl := some.inj (hm.symm.trans h)
    exact ⟨_, if_pos rfl, rfl, rfl, rfl, rfl, .inr rfl⟩
  · rw [if_neg hjm]
    exact ⟨n₀, h, rfl, rfl, rfl, rfl, .inl rfl⟩

theorem SecondPass.insert (h : SecondPass Val strs asize size es done tbl)
    (hes : FitEntries es) {e : LuaValue ℕ × LuaValue ℕ} (hmem : e ∈ es)
    (hnew : NewKey done e.1) (hout : inPart asize e.1 = false) (hat : NodeAt Val strs e new)
    (hm : tbl.node (mainSlot new.keyhash size) = some mainpos)
    (hother : ¬ (mainpos.keytype = new.keytype ∧ mainpos.key = new.key))
    (hi : i < tbl.hash.length) (hfree : tbl.node i = none) (hnext : new.next = mainpos.next) :
    SecondPass Val strs asize size es (done ++ [e])
      (insertNode tbl (mainSlot new.keyhash size) i mainpos new) := by
  have hlinks := nextSlot_insertNode hm hi hfree hnext
  have hnone : nextSlot tbl i = none := by
    rw [nextSlot, hfree]
    rfl
  have hsome : (nextSlot tbl (mainSlot new.keyhash size)).isSome = true := by
    rw [nextSlot, hm]
    rfl
  have hfirst : ∀ {j n}, tbl.node j = some n → n.key = new.key → n.keytype = new.keytype →
      False := by
    intro j n hn hkey htype
    obtain ⟨f, hf, -, hfat, hwhere⟩ := h.nodes j n hn
    have hfkey := hfat.key
    rw [hkey, htype] at hfkey
    obtain rfl := hes.eq_of_key hf hmem (hfkey.inj hat.key)
    rcases hwhere with hj | hdone
    · rw [hfat.hash, ← hat.hash] at hj
      rw [hj, hm, some.injEq] at hn
      exact hother ⟨hn ▸ htype, hn ▸ hkey⟩
    · have hself := hnew _ hdone
      rw [sameKey_self (hes.fits _ hf)] at hself
      cases hself
  refine ⟨h.arrayLen, by simpa [insertNode, ConfTable.setNode] using h.hashLen, h.array,
    ?_, ?_, ?_, ?_, ?_, ?_⟩
  · intro j n hn
    rcases insertNode_cases hm hi hn with ⟨rfl, rfl⟩ | ⟨n₀, hn₀, hkey, htype, hhash, hv⟩
    · exact ⟨e, hmem, hout, hat, .inr (by simp)⟩
    · obtain ⟨f, hf, hfout, hfat, hwhere⟩ := h.nodes j n₀ hn₀
      refine ⟨f, hf, hfout, ⟨?_, ?_, ?_⟩, ?_⟩
      · rw [hkey, htype]
        exact hfat.key
      · rw [hhash, hfat.hash]
      · rw [hv]
        exact hfat.value
      · rw [hhash]
        exact hwhere.imp_right mem_concat_left
  · intro f hf hfout
    rcases mem_append.1 hf with hf | hf
    · obtain ⟨j, n₀, hn₀, hfat⟩ := h.placed f hf hfout
      obtain ⟨n, hn, hkey, htype, hhash, hv, -⟩ := insertNode_keeps new hm hi hfree hn₀
      refine ⟨j, n, hn, ⟨?_, ?_, ?_⟩⟩
      · rw [hkey, htype]
        exact hfat.key
      · rw [hhash, hfat.hash]
      · rw [hv]
        exact hfat.value
    · obtain rfl := mem_singleton.1 hf
      refine ⟨i, new, ?_, hat⟩
      rw [node_insertNode hm hi, if_pos rfl]
  · intro f hf hfout
    obtain ⟨n₀, hn₀, hmain⟩ := h.mains f hf hfout
    obtain ⟨n, hn, -, -, hhash, -⟩ := insertNode_keeps new hm hi hfree hn₀
    exact ⟨n, hn, by rw [hhash, hmain]⟩
  · intro j k n n' hn hn' hkey htype
    rcases insertNode_cases hm hi hn with ⟨rfl, rfl⟩ | ⟨n₀, hn₀, hk, ht, -⟩
    · rcases insertNode_cases hm hi hn' with ⟨rfl, rfl⟩ | ⟨n₀', hn₀', hk', ht', -⟩
      · rfl
      · exact (hfirst hn₀' (hk'.symm.trans hkey.symm) (ht'.symm.trans htype.symm)).elim
    · rcases insertNode_cases hm hi hn' with ⟨rfl, rfl⟩ | ⟨n₀', hn₀', hk', ht', -⟩
      · exact (hfirst hn₀ (hk.symm.trans hkey) (ht.symm.trans htype)).elim
      · exact h.once j k n₀ n₀' hn₀ hn₀' (hk.symm.trans (hkey.trans hk'))
          (ht.symm.trans (htype.trans ht'))
  · intro j n hn
    rw [hlinks]
    rcases insertNode_cases hm hi hn with ⟨rfl, rfl⟩ | ⟨n₀, hn₀, -, -, hhash, -⟩
    · obtain ⟨n₁, hn₁, hmain⟩ := h.mains e hmem hout
      rw [← hat.hash] at hn₁ hmain
      obtain ⟨l, hl, -⟩ := h.chains _ n₁ hn₁
      rw [hmain] at hl
      exact Chain.insert_mem hnone hl
    · rw [hhash]
      obtain ⟨l, hl, hj⟩ := h.chains j n₀ hn₀
      obtain ⟨l', hl', hsub⟩ := Chain.insert_chain hnone hsome hl
      exact ⟨l', hl', hsub j hj⟩
  · intro j n n' hn hn' hne
    rcases insertNode_cases hm hi hn with ⟨rfl, rfl⟩ | ⟨n₀, hn₀, -, -, hhash, -⟩
    · rw [node_insertNode hm hi, if_neg (fun hj => hne hj.symm), if_pos rfl, some.injEq] at hn'
      rw [← hn']
    · rw [hhash] at hn' hne
      obtain ⟨f, hf, hfout, hfat, -⟩ := h.nodes j n₀ hn₀
      obtain ⟨n₁, hn₁, -⟩ := h.mains f hf hfout
      rw [← hfat.hash] at hn₁
      obtain ⟨n₂, hn₂, -, -, -, -, hcolliding⟩ := insertNode_keeps new hm hi hfree hn₁
      rw [hn', some.injEq] at hn₂
      rw [hn₂]
      rcases hcolliding with heq | hfalse
      · rw [heq]
        exact h.colliding j n₀ n₁ hn₀ hn₁ hne
      · exact hfalse

end Insert

theorem SecondPass.collide (hval : Converting Val conv es) (hes : FitEntries es) (hmem : e ∈ es)
    (hnew : NewKey done e.1) (hout : inPart asize e.1 = false) {key : ℤ} {keytype : KeyType}
    {emptyslot k : ℕ} (hkey : KeyAt strs e.1 key keytype)
    (hI : SecondPass Val strs asize size es done tbl)
    (h : collide conv tbl emptyslot e.2 key (hashOf e.1) keytype strs = .ok ((tbl', k), strs'))
    (hnodup : strs.Nodup) : strs'.Nodup ∧ strs <+: strs' ∧ SecondPass Val strs' asize size es
    (done ++ [e]) tbl' := by
  rw [Model.collide, hI.hashLen] at h
  cases hmain : tbl.node (mainSlot (hashOf e.1) size) with
  | none =>
    rw [hmain] at h
    exact absurd h conv_throw
  | some mainpos =>
    rw [hmain] at h
    simp only at h
    split at h
    · next hsame =>
      obtain ⟨heq, rfl⟩ := conv_pure.1 h
      cases heq
      refine ⟨hnodup, prefix_rfl, hI.skip fun _ => ⟨_, mainpos, hmain, ?_⟩⟩
      obtain ⟨f, hf, -, hfat, -⟩ := hI.nodes _ _ hmain
      have hfkey := hfat.key
      rw [hsame.1, hsame.2] at hfkey
      rw [hes.eq_of_key hmem hf (hkey.inj hfkey)]
      exact hfat
    · next hother =>
      cases hfree : tbl.freeSlot emptyslot with
      | none =>
        rw [hfree] at h
        exact absurd h conv_throw
      | some i =>
        rw [hfree] at h
        obtain ⟨cv, strs₁, hset, hlast⟩ := conv_bind.1 h
        obtain ⟨heq, rfl⟩ := conv_pure.1 hlast
        cases heq
        obtain ⟨hnodup', hsub', hcv⟩ := hval.setvalue e hmem hset hnodup
        obtain ⟨hi, hnone⟩ := freeSlot_spec hfree
        have hat : NodeAt Val strs₁ e ⟨cv, key, mainpos.next, hashOf e.1, keytype, false⟩ :=
          ⟨hkey.mono hsub', rfl, hcv⟩
        exact ⟨hnodup', hsub', (hI.mono hval hsub').insert hes hmem hnew hout hat hmain hother
          hi hnone rfl⟩

/-- **The second loop** gives every entry a node. -/
theorem fillcolliding_spec (hval : Converting Val conv es) (hes : FitEntries es)
    (h : fillcolliding conv es tbl strs = .ok (tbl', strs'))
    (hnodup : strs.Nodup) (hinit : SecondPass Val strs asize size es [] tbl) :
    strs'.Nodup ∧ strs <+: strs' ∧ SecondPass Val strs' asize size es es tbl' := by
  obtain ⟨⟨tbl₁, k⟩, strs₁, hloop, hlast⟩ := conv_bind.1 h
  obtain ⟨rfl, rfl⟩ := conv_pure.1 hlast
  refine converts_foldlM (fun done p strs => SecondPass Val strs asize size es done p.1) ?_
    hloop hnodup hinit
  rintro done e rest ⟨tbl, emptyslot⟩ strs ⟨tbl', k⟩ strs' hsplit hI hnodup h
  have hmem : e ∈ es := by
    rw [hsplit]
    simp
  have hnew := hes.newKey hsplit
  obtain ⟨place, strs₁, hplace, hrest⟩ := conv_bind.1 h
  obtain ⟨hnodup₁, hsub₁, hwhere⟩ := converts_ishashkey (hes.fits e hmem) hplace hnodup
  have hI₁ := hI.mono hval hsub₁
  cases place with
  | array key =>
    rw [hI.arrayLen] at hwhere
    obtain ⟨heq, rfl⟩ := conv_pure.1 hrest
    cases heq
    refine ⟨hnodup₁, hsub₁, hI₁.skip fun hout => ?_⟩
    rw [hwhere.1] at hout
    cases hout
  | hash key keyhash keytype =>
    obtain ⟨hout, hkey, rfl⟩ := hwhere
    rw [hI.arrayLen] at hout
    obtain ⟨hnodup', hsub', hI'⟩ := hI₁.collide hval hes hmem hnew hout hkey hrest hnodup₁
    exact ⟨hnodup', hsub₁.trans hsub', hI'⟩

theorem countKey_spec {k : LuaValue ℕ} (hk : FitsKey k) (n : ℕ) :
    countKey asize n k = .ok (if inPart asize k then n else n + 1) := by
  unfold FitsKey at hk
  split at hk
  · simp [countKey, inPart]
  · simp [countKey, inPart]
  · exact hk.elim

theorem countsize_spec (hfits : ∀ e ∈ es, FitsKey e.1) {n : ℕ}
    (h : countsize es asize = .ok n) : n = (es.filter fun e => !inPart asize e.1).length := by
  have hgo : ∀ (l : LuaEntries ℕ) (k : ℕ), (∀ e ∈ l, FitsKey e.1) →
      l.foldlM (fun n e => countKey asize n e.1) k = .ok n →
      n = k + (l.filter fun e => !inPart asize e.1).length := by
    intro l
    induction l with
    | nil =>
      intro k _ h
      exact (Except.ok.inj h).symm
    | cons e l ih =>
      intro k hfits h
      rw [foldlM_cons, countKey_spec (hfits e mem_cons_self)] at h
      have hrest := ih _ (fun f hf => hfits f (mem_cons_of_mem e hf)) h
      rw [hrest, filter_cons]
      cases inPart asize e.1 with
      | true => simp
      | false =>
        simp only [Bool.not_false, Bool.false_eq_true, if_true, if_false, length_cons]
        omega
  have hcount := hgo es 0 hfits h
  omega

/-! ## A table that is filled -/

/-- A shared table that is filled: the array part, the hash part after the two loops, and no
slot is free. -/
structure Built (Val : Strings → LuaValue ℕ → ConfValue → Prop) (strs : Strings)
    (asize : ℕ) (es : LuaEntries ℕ) (tbl : ConfTable) : Prop where
  hash : SecondPass Val strs asize tbl.hash.length es es tbl
  full : ∀ i < tbl.hash.length, ∃ n, tbl.node i = some n

theorem SecondPass.full (h : SecondPass Val strs asize size es es tbl) (hes : FitEntries es)
    (hcount : size = (es.filter fun e => !inPart asize e.1).length) :
    ∀ i < size, ∃ n, tbl.node i = some n := by
  have hslot : ∀ e : LuaValue ℕ × LuaValue ℕ, ∃ i, e ∈ es → inPart asize e.1 = false →
      ∃ n, tbl.node i = some n ∧ NodeAt Val strs e n := by
    intro e
    by_cases he : e ∈ es ∧ inPart asize e.1 = false
    · obtain ⟨i, n, hn⟩ := h.placed e he.1 he.2
      exact ⟨i, fun _ _ => ⟨n, hn⟩⟩
    · exact ⟨0, fun hmem hout => absurd ⟨hmem, hout⟩ he⟩
  choose slot hslot using hslot
  have hmem : ∀ e ∈ es.filter (fun e => !inPart asize e.1), e ∈ es ∧ inPart asize e.1 = false := by
    intro e he
    simpa using mem_filter.1 he
  have hnodup : ((es.filter fun e => !inPart asize e.1).map slot).Nodup := by
    have hdistinct : (es.filter fun e => !inPart asize e.1).Pairwise
        fun e f => sameKey e.1 f.1 = false := hes.distinct.filter _
    rw [Nodup, pairwise_map]
    refine hdistinct.imp_of_mem fun {e f} he hf hother heq => ?_
    obtain ⟨n, hn, hat⟩ := hslot e (hmem e he).1 (hmem e he).2
    obtain ⟨m, hm, hat'⟩ := hslot f (hmem f hf).1 (hmem f hf).2
    rw [heq, hm, some.injEq] at hn
    have hkey := hat.key
    rw [← hn] at hkey
    rw [hkey.inj hat'.key, sameKey_self (hes.fits f (hmem f hf).1)] at hother
    cases hother
  have hsub : (es.filter fun e => !inPart asize e.1).map slot ⊆ range size := by
    intro i hi
    obtain ⟨e, he, rfl⟩ := mem_map.1 hi
    obtain ⟨n, hn, -⟩ := hslot e (hmem e he).1 (hmem e he).2
    rw [mem_range, ← h.hashLen]
    exact node_lt hn
  have hperm := (subperm_of_subset hnodup hsub).perm_of_length_le (by
    rw [length_range, length_map, ← hcount])
  intro i hi
  obtain ⟨e, he, rfl⟩ := mem_map.1 (hperm.mem_iff.2 (mem_range.2 hi))
  obtain ⟨n, hn, -⟩ := hslot e (hmem e he).1 (hmem e he).2
  exact ⟨n, hn⟩

def emptyTable (asize size : ℕ) : ConfTable := ⟨replicate asize .nil, replicate size none⟩

theorem node_emptyTable (i : ℕ) : (emptyTable asize size).node i = none := by
  rw [ConfTable.node, emptyTable]
  simp only [getElem?_replicate]
  split <;> rfl

theorem arrayPart_emptyTable : ArrayPart Val strs [] (emptyTable asize size) := by
  intro i hi
  refine ⟨.nil, ?_, ?_⟩
  · rw [emptyTable, length_replicate] at hi
    rw [emptyTable, getElem?_replicate, if_pos hi]
  · have hnil : (rawgeti ([] : LuaEntries ℕ) ((i + 1 : ℕ) : ℤ)).isNil = true := rfl
    rw [ArrayAt, if_pos hnil]

theorem firstPass_emptyTable : FirstPass Val strs asize size [] (emptyTable asize size) where
  arrayLen := length_replicate
  hashLen := length_replicate
  array := arrayPart_emptyTable
  nodes i n hn := by
    rw [node_emptyTable] at hn
    cases hn
  mains e he := by cases he

theorem fillArray_spec (hval : Converting Val conv es) (tbl : ConfTable)
    (hlen : tbl.array.length = asize) (hhash : tbl.hash = [])
    (h : (range' 1 asize).foldlM
      (fun tbl (i : ℕ) => setarray conv tbl (rawgeti es i) i) tbl strs = .ok (tbl', strs'))
    (hnodup : strs.Nodup) :
    strs'.Nodup ∧ strs <+: strs' ∧ tbl'.hash = [] ∧ tbl'.array.length = asize ∧
      ∀ i < asize, ∃ cv, tbl'.array[i]? = some cv ∧
        ArrayAt Val strs' (rawgeti es (i + 1 : ℕ)) cv := by
  have hrule := converts_foldlM (f := fun tbl (i : ℕ) => setarray conv tbl (rawgeti es i) i)
    (fun done tbl strs => tbl.hash = [] ∧ tbl.array.length = asize ∧
      ∀ i ∈ done, ∃ cv, tbl.array[i - 1]? = some cv ∧ ArrayAt Val strs (rawgeti es (i : ℕ)) cv)
    ?_ h hnodup ⟨hhash, hlen, by simp⟩
  · obtain ⟨hnodup', hsub, hhash', hlen', harray⟩ := hrule
    refine ⟨hnodup', hsub, hhash', hlen', fun i hi => ?_⟩
    exact harray (i + 1) (mem_range'_1.2 ⟨by omega, by omega⟩)
  · intro done i rest tbl strs tbl' strs' hsplit hI hnodup h
    have hi : 1 ≤ i ∧ i < 1 + asize := by
      rw [← mem_range'_1, hsplit]
      simp
    have hfresh : i ∉ done := by
      have hnodup := nodup_range' (s := 1) (n := asize)
      rw [hsplit, nodup_append] at hnodup
      exact fun hmem => hnodup.2.2 i hmem i mem_cons_self rfl
    have hpos : ∀ j ∈ done, 1 ≤ j := by
      intro j hj
      have hmem : j ∈ range' 1 asize := by
        rw [hsplit]
        exact mem_append_left _ hj
      exact (mem_range'_1.1 hmem).1
    obtain ⟨cv, strs₁, hset, hlast⟩ := conv_bind.1 h
    obtain ⟨rfl, rfl⟩ := conv_pure.1 hlast
    have hconv : strs₁.Nodup ∧ strs <+: strs₁ ∧ ArrayAt Val strs₁ (rawgeti es (i : ℕ)) cv := by
      cases hnil : (rawgeti es (i : ℕ)).isNil with
      | true =>
        rw [isNil_iff.1 hnil] at hset
        obtain ⟨rfl, rfl⟩ := conv_pure.1 hset
        refine ⟨hnodup, prefix_rfl, ?_⟩
        rw [ArrayAt, if_pos hnil]
      | false =>
        have hmem := mem_of_rawget hnil
        obtain ⟨hnodup', hsub, hcv⟩ := hval.setvalue _ hmem hset hnodup
        refine ⟨hnodup', hsub, ?_⟩
        rw [ArrayAt, if_neg (by simp [hnil])]
        exact hcv
    obtain ⟨hnodup', hsub, hcv⟩ := hconv
    refine ⟨hnodup', hsub, hI.1, by simpa using hI.2.1, ?_⟩
    intro j hj
    have hcast : ((i : ℤ) - 1).toNat = i - 1 := by omega
    simp only [hcast, getElem?_set]
    rcases mem_append.1 hj with hj | hj
    · have hne : i - 1 ≠ j - 1 := by
        have := hpos j hj
        intro heq
        exact hfresh (by rwa [show i = j by omega])
      rw [if_neg hne]
      obtain ⟨cv', hcv', hat⟩ := hI.2.2 j hj
      refine ⟨cv', hcv', ?_⟩
      unfold ArrayAt at hat ⊢
      split
      · next hnil => rwa [if_pos hnil] at hat
      · next hnil =>
        rw [if_neg hnil] at hat
        exact hval.mono hat hsub
    · obtain rfl := mem_singleton.1 hj
      rw [if_pos rfl, if_pos (by omega)]
      exact ⟨cv, rfl, hcv⟩

theorem built_of_array {tbl : ConfTable} (hhash : tbl.hash = [])
    (hlen : tbl.array.length = asize) (harray : ArrayPart Val strs es tbl)
    (hin : ∀ e ∈ es, inPart asize e.1 = true) : Built Val strs asize es tbl := by
  have hnode : ∀ i, tbl.node i = none := by
    intro i
    rw [ConfTable.node, hhash]
    rfl
  have hno : ∀ e ∈ es, inPart asize e.1 = false → False := by
    intro e he hout
    rw [hin e he] at hout
    cases hout
  refine ⟨⟨hlen, rfl, harray, ?_, fun e he hout => (hno e he hout).elim,
    fun e he hout => (hno e he hout).elim, ?_, ?_, ?_⟩, ?_⟩
  · intro i n hn
    rw [hnode] at hn
    cases hn
  · intro i j n m hn
    rw [hnode] at hn
    cases hn
  · intro i n hn
    rw [hnode] at hn
    cases hn
  · intro i n m hn
    rw [hnode] at hn
    cases hn
  · intro i hi
    rw [hhash] at hi
    cases hi

/-- **What `convtable` builds.** -/
theorem convtable_built {calls border : ℕ} (hval : Converting Val (convtable calls) es)
    (hes : FitEntries es) (h : convtable (calls + 1) border es strs = .ok (tbl, strs'))
    (hnodup : strs.Nodup) :
    strs'.Nodup ∧ strs <+: strs' ∧ ∃ asize : ℕ, (asize : ℤ) = toInt32 border ∧
      asize < 2 ^ 31 ∧ Built Val strs' asize es tbl := by
  rw [convtable] at h
  split at h
  · cases h
  · have hcast : ((toInt32 border).toNat : ℤ) = toInt32 border := by omega
    have hbound : (toInt32 border).toNat < 2 ^ 31 := by
      have := (toInt32_bounds border).2
      omega
    obtain ⟨size, strs₁, hlift, h⟩ := conv_bind.1 h
    obtain ⟨hcount, rfl⟩ := conv_lift hlift
    rw [← hcast] at hcount h
    generalize (toInt32 border).toNat = asize at hcast hbound hcount h
    have hsize := countsize_spec hes.fits hcount
    rw [Int.toNat_natCast] at h
    split at h
    · next hne =>
      obtain ⟨tbl₁, strs₁, hfirst, hsecond⟩ := conv_bind.1 h
      obtain ⟨hnodup₁, hsub₁, hI₁⟩ := fillnocolliding_spec hval hes hbound
        (Nat.pos_of_ne_zero hne) hfirst hnodup firstPass_emptyTable
      obtain ⟨hnodup', hsub', hI'⟩ := fillcolliding_spec hval hes hsecond hnodup₁ hI₁.second
      have hfull := hI'.full hes hsize
      obtain rfl := hI'.hashLen
      exact ⟨hnodup', hsub₁.trans hsub', asize, hcast, hbound, hI', hfull⟩
    · next hzero =>
      obtain rfl : size = 0 := by simpa using hzero
      obtain ⟨hnodup', hsub, hhash, hlen, harray⟩ := fillArray_spec hval
        (emptyTable asize 0) length_replicate rfl h hnodup
      refine ⟨hnodup', hsub, asize, hcast, hbound, built_of_array hhash hlen ?_ ?_⟩
      · intro i hi
        exact harray i (by omega)
      · intro e he
        by_contra hout
        have hmem : e ∈ es.filter fun e => !inPart asize e.1 :=
          mem_filter.2 ⟨he, by simpa using hout⟩
        rw [length_eq_zero_iff.1 hsize.symm] at hmem
        cases hmem

end Loops

end Skynet.Analysis
