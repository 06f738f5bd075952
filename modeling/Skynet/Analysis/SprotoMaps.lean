import Skynet.Model.SprotoDecode

/-!
# The elements of a map in sproto

An array that is a map of pairs is decoded with one table for all its pairs, which `decode`
does not clear: a pair that lacks its key or its value finds those of the pairs before it,
where the code means to raise an error.  Everything else that an element gives to its map
comes from its own bytes.
-/

namespace Skynet.Analysis

open Library Model List

/-! ## Maps, entry by entry -/

/-- The value of the field is an element of a map. -/
abbrev IsMapElement (args : SprotoArg) : Prop :=
  args.type = sprotoTStruct ∧ 0 ≤ args.mainindex ∧ 0 < args.index

def ownEntry (sub : SubDecode) (args : SprotoArg) :
    Except DecodeError (SprotoData × SprotoData) := do
  let s ← sub args args.mainindex []
  match args.ktagname with
  | some ktagname => pairOf args ktagname s.result
  | none =>
    match s.key with
    | none => throw (.noMainIndex args.mainindex args.tagname)
    | some k => return (k, .table s.result)

def eachCall (mem : ℕ → UInt8) (sub : SubDecode) (mainindexTag : ℤ)
    (self : DecodeUd) (args : SprotoArg) : Except DecodeError DecodeUd :=
  if IsMapElement args then do
    let kv ← ownEntry sub args
    (self.enterArray args).settable kv.1 kv.2
  else decodeCall mem sub mainindexTag self args

/-- Where every element of a map gives the entry of its own bytes, the struct is decoded to
this table too. -/
def EntryByEntry (types : List SprotoType) (levels : ℕ) (mem : ℕ → UInt8) (st : SprotoType)
    (size mainindexTag : ℤ) (result table : Assignments) : Prop :=
  ∃ r self, decodeWith types
    (eachCall mem (decodeSub types (decodeStruct types levels) mem) mainindexTag) mem st size
    result = .ok (r, self) ∧ self.result = table

def CarriesField (types : List SprotoType) (mem : ℕ → UInt8) (args : SprotoArg)
    (name : Bytes) : Prop :=
  ∃ st, args.subtype.bind (types[·]?) = some st ∧
    ∃ c ∈ fieldCalls types (bytesFrom mem args.value) st args.length, c.tagname = name

def PairComplete (types : List SprotoType) (mem : ℕ → UInt8) (args : SprotoArg) : Prop :=
  ∀ ktagname, args.ktagname = some ktagname → CarriesField types mem args ktagname ∧
    ∃ vtagname, args.vtagname = some vtagname ∧ CarriesField types mem args vtagname

def HasName (t : Assignments) (name : Bytes) : Prop :=
  ∃ k ∈ t.map Prod.fst, k.isName name = true

theorem getfield_append (t u : Assignments) (name : Bytes) :
    getfield (t ++ u) name = (getfield u name).or (getfield t name) := by
  simp only [getfield, reverse_append, find?_append]
  cases u.reverse.find? _ <;> rfl

theorem getfield_isSome {t : Assignments} {name : Bytes} :
    (getfield t name).isSome ↔ HasName t name := by
  simp [getfield, HasName]

variable {mem : ℕ → UInt8} {sub : SubDecode} {mainindexTag : ℤ} {self s s' : DecodeUd}
  {args : SprotoArg} {calls : List SprotoArg} {k v : SprotoData} {t : Assignments}

/-! ## Tables with more in them -/

theorem map_eq_ok {ε α β : Type} {x : Except ε α} {f : α → β} {b : β} :
    x.map f = .ok b ↔ ∃ a, x = .ok a ∧ f a = b := by
  cases x <;> simp [Except.map]

def withEntry (e : Option Assignments) (self : DecodeUd) : DecodeUd := { self with mapEntry := e }

def behind (t : Assignments) (self : DecodeUd) : DecodeUd :=
  { self with result := t ++ self.result, array := self.array.map (t.length + ·) }

structure Commutes (f : DecodeUd → DecodeUd) : Prop where
  enterArray : ∀ self args, (f self).enterArray args = f (self.enterArray args)
  settable : ∀ self k v, (f self).settable k v = (self.settable k v).map f
  save : ∀ self m args v, (f self).save m args v = (self.save m args v).map f

theorem commutes_withEntry (e : Option Assignments) : Commutes (withEntry e) := by
  have hset : ∀ self k v,
      (withEntry e self).settable k v = (self.settable k v).map (withEntry e) := by
    intro self k v
    unfold DecodeUd.settable withEntry
    dsimp only
    split
    · rfl
    · split <;> rfl
  refine ⟨fun self args => ?_, hset, fun self m args v => ?_⟩
  · unfold DecodeUd.enterArray withEntry
    split <;> rfl
  · unfold DecodeUd.save
    split
    · exact hset ..
    · rfl

theorem modify_behind (t u : Assignments) (i : ℕ)
    (g : SprotoData × SprotoData → SprotoData × SprotoData) :
    (t ++ u).modify (t.length + i) g = t ++ u.modify i g := by
  induction t with
  | nil => simp
  | cons a t ih =>
    rw [length_cons, Nat.add_right_comm, cons_append, modify_succ_cons, ih]
    rfl

theorem commutes_behind (t : Assignments) : Commutes (behind t) := by
  have hset : ∀ self k v, (behind t self).settable k v = (self.settable k v).map (behind t) := by
    intro self k v
    unfold DecodeUd.settable behind
    cases self.array with
    | none => rfl
    | some i =>
      dsimp only [Option.map_some]
      split
      · rfl
      · simp [Except.map, pure, Except.pure, modify_behind]
  refine ⟨fun self args => ?_, hset, fun self m args v => ?_⟩
  · unfold DecodeUd.enterArray behind
    split <;> simp
  · unfold DecodeUd.save
    split
    · exact hset ..
    · simp [behind, Except.map, pure, Except.pure]

def TagNamed (self : DecodeUd) : Prop :=
  ∀ tag name, self.arrayTag = some (tag, name) → HasName self.result name

structure NamesTo (old new : DecodeUd) (name : Bytes) : Prop where
  names : ∀ n, HasName new.result n ↔ HasName old.result n ∨ n = name
  tag : TagNamed new

theorem hasName_add {t : Assignments} {name n : Bytes} {v : SprotoData} :
    HasName (t ++ [(.string name, v)]) n ↔ HasName t n ∨ n = name := by
  unfold HasName
  simp [SprotoData.isName, eq_comm (a := n)]

theorem settable_keys (h : self.settable k v = .ok s) :
    s.result.map Prod.fst = self.result.map Prod.fst ∧ s.arrayTag = self.arrayTag := by
  unfold DecodeUd.settable at h
  split at h
  · nomatch h
  · split at h
    · nomatch h
    · cases h
      refine ⟨?_, rfl⟩
      apply ext_getElem?
      intro j
      simp only [getElem?_map, getElem?_modify]
      split <;> cases self.result[j]? <;> rfl

theorem TagNamed.settable (htag : TagNamed self) (h : self.settable k v = .ok s) :
    TagNamed s ∧ ∀ n, HasName s.result n ↔ HasName self.result n := by
  obtain ⟨hkeys, harray⟩ := settable_keys h
  have hnames : ∀ n, HasName s.result n ↔ HasName self.result n := by
    intro n
    unfold HasName
    rw [hkeys]
  refine ⟨fun tag name hname => (hnames name).2 (htag tag name ?_), hnames⟩
  rw [← harray, hname]

theorem TagNamed.enterArray (htag : TagNamed self) (args : SprotoArg) :
    TagNamed (self.enterArray args) ∧ ∀ n, HasName (self.enterArray args).result n ↔
      HasName self.result n ∨ args.index ≠ 0 ∧ n = args.tagname := by
  unfold DecodeUd.enterArray
  split
  · next hnew =>
    refine ⟨fun tag name hname => ?_, fun n => ?_⟩
    · cases hname
      exact hasName_add.2 (.inr rfl)
    · simp only [hasName_add, hnew.1, ne_eq, not_false_eq_true, true_and]
  · next hold =>
    refine ⟨htag, fun n => ⟨.inl, ?_⟩⟩
    rintro (hname | ⟨hindex, rfl⟩)
    · exact hname
    · exact htag args.tagid _ (not_not.1 fun hne => hold ⟨hindex, hne⟩)

theorem NamesTo.save (htag : TagNamed self)
    (h : (self.enterArray args).save mainindexTag args v = .ok s) :
    NamesTo self s args.tagname := by
  obtain ⟨htag', hnames⟩ := htag.enterArray args
  unfold DecodeUd.save at h
  split at h
  · next hindex =>
    obtain ⟨hend, hsame⟩ := htag'.settable h
    exact ⟨fun n => by rw [hsame, hnames]; simp [hindex.ne'], hend⟩
  · cases h
    refine ⟨fun n => ?_, fun tag name hname => hasName_add.2 (.inl (htag' tag name hname))⟩
    rw [hasName_add, hnames]
    tauto

theorem NamesTo.settable (htag : TagNamed self) (hindex : args.index ≠ 0)
    (h : (self.enterArray args).settable k v = .ok s) : NamesTo self s args.tagname := by
  obtain ⟨htag', hnames⟩ := htag.enterArray args
  obtain ⟨hend, hsame⟩ := htag'.settable h
  exact ⟨fun n => by rw [hsame, hnames]; simp [hindex], hend⟩

theorem setIntoMap_pair {ktagname : Bytes} (hindex : args.index ≠ 0)
    (hk : args.ktagname = some ktagname) :
    setIntoMap sub self args = (do
      let s ← sub args args.mainindex (self.mapEntry.getD [])
      let kv ← pairOf args ktagname s.result
      Except.map (withEntry (some s.result)) (self.settable kv.1 kv.2)) := by
  unfold setIntoMap
  rw [if_neg hindex, hk]
  simp only [← (commutes_withEntry _).settable]
  rfl

theorem setIntoMap_indexed (hindex : args.index ≠ 0) (hk : args.ktagname = none) :
    setIntoMap sub self args = ownEntry sub args >>= fun kv => self.settable kv.1 kv.2 := by
  unfold setIntoMap ownEntry
  rw [if_neg hindex, hk]
  simp only [bind_assoc]
  congr
  funext s
  cases s.key <;> rfl

theorem NamesTo.setIntoMap (htag : TagNamed self)
    (h : setIntoMap sub (self.enterArray args) args = .ok s) : NamesTo self s args.tagname := by
  have hindex : args.index ≠ 0 := by
    intro hzero
    rw [Model.setIntoMap, if_pos hzero] at h
    nomatch h
  cases hk : args.ktagname with
  | some ktagname =>
    rw [setIntoMap_pair hindex hk] at h
    obtain ⟨s₁, -, h⟩ := bind_eq_ok.1 h
    obtain ⟨kv, -, h⟩ := bind_eq_ok.1 h
    obtain ⟨s₂, hput, rfl⟩ := map_eq_ok.1 h
    have hset := NamesTo.settable htag hindex hput
    exact ⟨hset.names, hset.tag⟩
  | none =>
    rw [setIntoMap_indexed hindex hk] at h
    obtain ⟨kv, -, h⟩ := bind_eq_ok.1 h
    exact .settable htag hindex h

theorem decodeCall_names (htag : TagNamed self)
    (h : decodeCall mem sub mainindexTag self args = .ok s) : NamesTo self s args.tagname := by
  unfold decodeCall at h
  split at h
  · next hindex =>
    cases h
    obtain ⟨hend, hnames⟩ := htag.enterArray args
    exact ⟨fun n => by rw [hnames]; simp [hindex.ne], hend⟩
  · split at h
    · exact .setIntoMap htag h
    · obtain ⟨v, -, h⟩ := bind_eq_ok.1 h
      exact .save htag h

theorem foldlM_names (htag : TagNamed self)
    (h : calls.foldlM (decodeCall mem sub mainindexTag) self = .ok s) (n : Bytes) :
    HasName s.result n ↔ HasName self.result n ∨ ∃ c ∈ calls, c.tagname = n := by
  induction calls generalizing self with
  | nil =>
    cases h
    simp
  | cons c calls ih =>
    obtain ⟨s₁, hc, h⟩ := bind_eq_ok.1 h
    obtain ⟨hnames, htag⟩ := decodeCall_names htag hc
    rw [ih htag h, hnames]
    simp only [mem_cons, exists_eq_or_imp]
    tauto

/-! ## Tables that are there before -/

theorem foldlM_commutes {f : DecodeUd → DecodeUd}
    {cb : DecodeUd → SprotoArg → Except DecodeError DecodeUd}
    (hcb : ∀ self args, cb (f self) args = (cb self args).map f) (calls : List SprotoArg)
    (self : DecodeUd) : calls.foldlM cb (f self) = (calls.foldlM cb self).map f := by
  induction calls generalizing self with
  | nil => rfl
  | cons args calls ih =>
    rw [foldlM_cons, foldlM_cons, hcb]
    cases cb self args with
    | error e => rfl
    | ok s => exact ih s

theorem decodeCall_commutes {f : DecodeUd → DecodeUd} (hf : Commutes f)
    (hmap : ¬args.index < 0 → args.type = sprotoTStruct ∧ args.mainindex ≥ 0 →
      setIntoMap sub (f (self.enterArray args)) args =
        (setIntoMap sub (self.enterArray args) args).map f) :
    decodeCall mem sub mainindexTag (f self) args =
      (decodeCall mem sub mainindexTag self args).map f := by
  unfold decodeCall
  rw [hf.enterArray]
  split
  · rfl
  · next hindex =>
    split
    · next hm => exact hmap hindex hm
    · cases pushedValue mem sub args with
      | error e => rfl
      | ok v => exact hf.save ..

theorem setIntoMap_behind (t : Assignments) (self : DecodeUd) :
    setIntoMap sub (behind t self) args = (setIntoMap sub self args).map (behind t) := by
  by_cases hindex : args.index = 0
  · simp [setIntoMap, hindex, Except.map, throw, throwThe, MonadExceptOf.throw]
  · cases hk : args.ktagname with
    | some ktagname =>
      rw [setIntoMap_pair hindex hk, setIntoMap_pair hindex hk]
      have hentry : (behind t self).mapEntry = self.mapEntry := rfl
      rw [hentry]
      cases sub args args.mainindex (self.mapEntry.getD []) with
      | error e => rfl
      | ok s =>
        dsimp only [bind, Except.bind]
        cases pairOf args ktagname s.result with
        | error e => rfl
        | ok kv =>
          dsimp only
          rw [(commutes_behind t).settable]
          cases self.settable kv.1 kv.2 <;> rfl
    | none =>
      rw [setIntoMap_indexed hindex hk, setIntoMap_indexed hindex hk]
      cases ownEntry sub args with
      | error e => rfl
      | ok kv => exact (commutes_behind t).settable ..

/-- What `sproto_decode` returns, behind its calls. -/
def decodeEnd (types : List SprotoType) (mem : ℕ → UInt8) (st : SprotoType) (size : ℤ)
    (self : DecodeUd) : Except DecodeError (ℤ × DecodeUd) :=
  match (sprotoDecode (fun _ => 0) mem types st size).1 with
  | none => throw .noSuchField
  | some r => if r < 0 then throw .decodeError else return (r, self)

theorem decodeWith_eq_ok {types : List SprotoType} {st : SprotoType} {size r : ℤ}
    {cb : DecodeUd → SprotoArg → Except DecodeError DecodeUd} {t : Assignments} {self : DecodeUd} :
    decodeWith types cb mem st size t = .ok (r, self) ↔
      (fieldCalls types mem st size).foldlM cb (DecodeUd.new t) = .ok self ∧
        (sprotoDecode (fun _ => 0) mem types st size).1 = some r ∧ ¬ r < 0 := by
  have hend : ∀ s, decodeEnd types mem st size s = .ok (r, self) ↔
      s = self ∧ (sprotoDecode (fun _ => 0) mem types st size).1 = some r ∧ ¬ r < 0 := by
    intro s
    unfold decodeEnd
    cases (sprotoDecode (fun _ => 0) mem types st size).1 with
    | none => exact ⟨by rintro ⟨⟩, fun h => by cases h.2.1⟩
    | some n =>
      dsimp only
      split
      · next hneg =>
        refine ⟨by rintro ⟨⟩, fun h => ?_⟩
        obtain rfl := Option.some.inj h.2.1
        exact absurd hneg h.2.2
      · next hpos =>
        constructor
        · rintro ⟨⟩
          exact ⟨rfl, rfl, hpos⟩
        · rintro ⟨rfl, ⟨⟩, -⟩
          rfl
  constructor
  · intro h
    obtain ⟨s, hfold, hs⟩ := bind_eq_ok.1 h
    obtain ⟨rfl, hr⟩ := (hend s).1 hs
    exact ⟨hfold, hr⟩
  · rintro ⟨hfold, hr⟩
    exact bind_eq_ok.2 ⟨self, hfold, (hend self).2 ⟨rfl, hr⟩⟩

theorem decodeStruct_behind (types : List SprotoType) (levels : ℕ) (mem : ℕ → UInt8)
    (st : SprotoType) (size mainindexTag : ℤ) (t : Assignments) :
    decodeStruct types levels mem st size mainindexTag t =
      (decodeStruct types levels mem st size mainindexTag []).map (Prod.map id (behind t)) := by
  have hnew : DecodeUd.new t = behind t (DecodeUd.new []) := by
    simp [DecodeUd.new, behind]
  have hwith : ∀ cb : DecodeUd → SprotoArg → Except DecodeError DecodeUd,
      (∀ self args, cb (behind t self) args = (cb self args).map (behind t)) →
      decodeWith types cb mem st size t =
        (decodeWith types cb mem st size []).map (Prod.map id (behind t)) := by
    intro cb hcb
    unfold decodeWith
    rw [hnew, foldlM_commutes hcb]
    cases (fieldCalls types mem st size).foldlM cb (DecodeUd.new []) with
    | error e => rfl
    | ok s =>
      change decodeEnd types mem st size (behind t s) =
        (decodeEnd types mem st size s).map (Prod.map id (behind t))
      unfold decodeEnd
      split
      · rfl
      · split <;> rfl
  cases levels with
  | zero => exact hwith _ fun _ _ => rfl
  | succ levels =>
    exact hwith _ fun self args =>
      decodeCall_commutes (commutes_behind t) fun _ _ => setIntoMap_behind t _

/-! ## Pairs by their own bytes -/

section Levels

variable {types : List SprotoType} {levels : ℕ}

theorem decodeStruct_names {st : SprotoType} {size r : ℤ}
    (h : decodeStruct types levels mem st size mainindexTag [] = .ok (r, s)) (n : Bytes) :
    HasName s.result n ↔ ∃ c ∈ fieldCalls types mem st size, c.tagname = n := by
  have hempty : ¬HasName ([] : Assignments) n := by
    simp [HasName]
  cases levels with
  | zero =>
    obtain ⟨hfold, -⟩ := decodeWith_eq_ok.1 h
    cases hcalls : fieldCalls types mem st size with
    | nil =>
      rw [hcalls] at hfold
      cases hfold
      exact iff_of_false hempty (by simp)
    | cons c calls =>
      rw [hcalls] at hfold
      nomatch hfold
  | succ levels =>
    obtain ⟨hfold, -⟩ := decodeWith_eq_ok.1 h
    rw [foldlM_names (by simp [TagNamed, DecodeUd.new]) hfold]
    exact or_iff_right hempty

theorem decodeSub_names {m : ℤ}
    (h : decodeSub types (decodeStruct types levels) mem args m [] = .ok s) (n : Bytes) :
    HasName s.result n ↔ CarriesField types mem args n := by
  unfold decodeSub at h
  unfold CarriesField
  cases hst : args.subtype.bind (types[·]?) with
  | none =>
    rw [hst] at h
    nomatch h
  | some st =>
    rw [hst] at h
    obtain ⟨⟨r, s₁⟩, hrun, h⟩ := bind_eq_ok.1 h
    dsimp only at h
    split at h
    · nomatch h
    · cases h
      rw [decodeStruct_names hrun]
      simp

theorem decodeSub_behind (m : ℤ) (t : Assignments) :
    decodeSub types (decodeStruct types levels) mem args m t =
      (decodeSub types (decodeStruct types levels) mem args m []).map (behind t) := by
  unfold decodeSub
  split
  · rfl
  · rw [decodeStruct_behind (t := t)]
    cases decodeStruct types levels _ _ args.length m [] with
    | error e => rfl
    | ok rs =>
      change (if rs.1 ≠ args.length then _ else _) =
        Except.map _ (if rs.1 ≠ args.length then _ else _)
      split <;> rfl

theorem pairOf_behind {ktagname vtagname : Bytes} {t u : Assignments}
    (hv : args.vtagname = some vtagname) (hkey : HasName u ktagname) (hvalue : HasName u vtagname) :
    pairOf args ktagname (t ++ u) = pairOf args ktagname u := by
  obtain ⟨k, hk⟩ := Option.isSome_iff_exists.1 (getfield_isSome.2 hkey)
  obtain ⟨v, hv'⟩ := Option.isSome_iff_exists.1 (getfield_isSome.2 hvalue)
  simp [pairOf, hv, getfield_append, hk, hv']

theorem pairComplete_of_entry {kv : SprotoData × SprotoData}
    (h : ownEntry (decodeSub types (decodeStruct types levels) mem) args = .ok kv) :
    PairComplete types mem args := by
  intro ktagname hk
  obtain ⟨s, hsub, h⟩ := bind_eq_ok.1 h
  rw [hk] at h
  dsimp only at h
  unfold pairOf at h
  split at h
  · nomatch h
  · next k hkey =>
    split at h
    · nomatch h
    · next v hvalue =>
      obtain ⟨vtagname, hv, hvalue⟩ := Option.bind_eq_some_iff.1 hvalue
      have hname : ∀ {n : Bytes} {d : SprotoData}, getfield s.result n = some d →
          CarriesField types mem args n := fun hd =>
        (decodeSub_names hsub _).1 (getfield_isSome.1 (Option.isSome_of_eq_some hd))
      exact ⟨hname hkey, vtagname, hv, hname hvalue⟩

theorem eachCall_of_decodeCall (hpair : IsMapElement args → PairComplete types mem args)
    (h : decodeCall mem (decodeSub types (decodeStruct types levels) mem) mainindexTag self args =
      .ok s) :
    eachCall mem (decodeSub types (decodeStruct types levels) mem) mainindexTag
      (withEntry none self) args = .ok (withEntry none s) := by
  have hf := commutes_withEntry none
  unfold eachCall
  by_cases helem : IsMapElement args
  · rw [if_pos helem, hf.enterArray]
    unfold decodeCall at h
    rw [if_neg (by omega), if_pos ⟨helem.1, helem.2.1⟩] at h
    have hindex : args.index ≠ 0 := helem.2.2.ne'
    have hput : ∀ {kv : SprotoData × SprotoData} {u : DecodeUd},
        (self.enterArray args).settable kv.1 kv.2 = .ok u →
        (withEntry none (self.enterArray args)).settable kv.1 kv.2 = .ok (withEntry none u) := by
      intro kv u hu
      rw [hf.settable, hu]
      rfl
    cases hk : args.ktagname with
    | some ktagname =>
      rw [setIntoMap_pair hindex hk, decodeSub_behind] at h
      obtain ⟨s₁, hsub, h⟩ := bind_eq_ok.1 h
      obtain ⟨s₀, hown, rfl⟩ := map_eq_ok.1 hsub
      obtain ⟨kv, hkv, h⟩ := bind_eq_ok.1 h
      obtain ⟨u, hu, rfl⟩ := map_eq_ok.1 h
      obtain ⟨hkey, vtagname, hv, hvalue⟩ := hpair helem ktagname hk
      have hkv' : pairOf args ktagname s₀.result = .ok kv := by
        rw [← hkv]
        exact (pairOf_behind hv ((decodeSub_names hown _).2 hkey)
          ((decodeSub_names hown _).2 hvalue)).symm
      refine bind_eq_ok.2 ⟨kv, bind_eq_ok.2 ⟨s₀, hown, ?_⟩, (hput hu :)⟩
      rw [hk]
      exact hkv'
    | none =>
      rw [setIntoMap_indexed hindex hk] at h
      obtain ⟨kv, hkv, h⟩ := bind_eq_ok.1 h
      exact bind_eq_ok.2 ⟨kv, hkv, hput h⟩
  · rw [if_neg helem, decodeCall_commutes hf, h]
    · rfl
    · intro hneg hstruct
      have hzero : args.index = 0 := by
        by_contra hne
        exact helem ⟨hstruct.1, hstruct.2, by omega⟩
      simp [setIntoMap, hzero, Except.map, throw, throwThe, MonadExceptOf.throw]

theorem foldlM_eachCall (hpair : ∀ c ∈ calls, IsMapElement c → PairComplete types mem c)
    (h : calls.foldlM (decodeCall mem (decodeSub types (decodeStruct types levels) mem)
      mainindexTag) self = .ok s) :
    calls.foldlM (eachCall mem (decodeSub types (decodeStruct types levels) mem) mainindexTag)
      (withEntry none self) = .ok (withEntry none s) := by
  induction calls generalizing self with
  | nil =>
    cases h
    rfl
  | cons c calls ih =>
    obtain ⟨s₁, hc, h⟩ := bind_eq_ok.1 h
    have hnow := eachCall_of_decodeCall (hpair c (mem_cons_self ..)) hc
    have hrest := ih (fun d hd => hpair d (mem_cons_of_mem _ hd)) h
    exact bind_eq_ok.2 ⟨_, hnow, hrest⟩

theorem pairComplete_of_foldlM
    (h : calls.foldlM (eachCall mem (decodeSub types (decodeStruct types levels) mem)
      mainindexTag) self = .ok s) : ∀ c ∈ calls, IsMapElement c → PairComplete types mem c := by
  induction calls generalizing self with
  | nil => nofun
  | cons c calls ih =>
    obtain ⟨s₁, hc, h⟩ := bind_eq_ok.1 h
    intro d hd helem
    rcases mem_cons.1 hd with rfl | hd
    · rw [eachCall, if_pos helem] at hc
      obtain ⟨kv, hkv, -⟩ := bind_eq_ok.1 hc
      exact pairComplete_of_entry hkv
    · exact ih h d hd helem

end Levels

/-! ## The main result -/

/-- A decoding that ends well has made every map of the struct from the entries that its
elements have by their own bytes, exactly if every pair of a map has its key and its value
among its bytes.
SRC: lsproto.c:461-594, sproto.c:1058-1154 -/
theorem maps_entry_by_entry_iff (types : List SprotoType) (levels : ℕ) (mem : ℕ → UInt8)
    (st : SprotoType) (size mainindexTag : ℤ) (result : Assignments) (r : ℤ) (s : DecodeUd)
    (h : decodeStruct types (levels + 1) mem st size mainindexTag result = .ok (r, s)) :
    EntryByEntry types levels mem st size mainindexTag result s.result ↔
      ∀ args ∈ fieldCalls types mem st size, IsMapElement args → PairComplete types mem args := by
  constructor
  · rintro ⟨r', s', hrun, -⟩
    exact pairComplete_of_foldlM (decodeWith_eq_ok.1 hrun).1
  · intro hpair
    obtain ⟨hfold, hr⟩ := decodeWith_eq_ok.1 h
    exact ⟨r, withEntry none s, decodeWith_eq_ok.2 ⟨foldlM_eachCall hpair hfold, hr⟩, rfl⟩

def pairType : SprotoType := ⟨[0x70], 0, 2, [⟨0, sprotoTInteger, [0x6b], none, -1, -1, 0⟩,
    ⟨1, sprotoTInteger, [0x76], none, -1, -1, 0⟩]⟩

def pairMapType : SprotoType :=
  ⟨[0x74], 0, 1, [⟨0, sprotoTStruct ||| sprotoTArray, [0x6d], some 0, 0, 1, 0⟩]⟩

def completePairs : ℕ → UInt8 := fun i =>
  [1, 0, 0, 0, 20, 0, 0, 0, 6, 0, 0, 0, 2, 0, 4, 0, 16, 0, 6, 0, 0, 0, 2, 0, 6, 0, 20, 0].getD i 0

def lackingPairs : ℕ → UInt8 := fun i =>
  [1, 0, 0, 0, 18, 0, 0, 0, 6, 0, 0, 0, 2, 0, 4, 0, 16, 0, 4, 0, 0, 0, 1, 0, 6, 0].getD i 0

def integersOf : Except DecodeError (ℤ × DecodeUd) → List (BitVec 64 × BitVec 64)
  | .ok (_, s) =>
    match getfield s.result [0x6d] with
    | some (.table t) => t.filterMap fun
      | (.integer k, .integer v) => some (k, v)
      | _ => none
    | _ => []
  | .error _ => []

theorem ok_of_toBool {ε α : Type} {x : Except ε α} (h : x.toBool = true) : ∃ a, x = .ok a := by
  cases x with
  | error e => nomatch h
  | ok a => exact ⟨a, rfl⟩

/-- Two pairs that have both fields. -/
theorem maps_entry_by_entry_iff_pairs : ∃ r s,
    decodeStruct [pairType] 2 completePairs pairMapType 28 (-1) [] = .ok (r, s) ∧
      EntryByEntry [pairType] 1 completePairs pairMapType 28 (-1) [] s.result := by
  obtain ⟨⟨r, s⟩, h⟩ := ok_of_toBool (x := decodeStruct [pairType] 2 completePairs pairMapType 28
    (-1) []) (by decide +kernel)
  refine ⟨r, s, h, (maps_entry_by_entry_iff _ 1 _ _ _ _ _ r s h).2 ?_⟩
  have hfields : ∀ args ∈ fieldCalls [pairType] completePairs pairMapType 28,
      args.subtype = some 0 ∧ args.ktagname = some [0x6b] ∧ args.vtagname = some [0x76] ∧
        (fieldCalls [pairType] (bytesFrom completePairs args.value) pairType args.length).map
          SprotoArg.tagname = [[0x6b], [0x76]] := by decide +kernel
  intro args hargs _ ktagname hk
  obtain ⟨hst, hkey, hvalue, hnames⟩ := hfields args hargs
  obtain rfl := Option.some.inj (hkey.symm.trans hk)
  have hcarries : ∀ n ∈ [[0x6b], [0x76]], CarriesField [pairType] completePairs args n := by
    intro n hn
    rw [← hnames] at hn
    exact ⟨pairType, by rw [hst]; rfl, mem_map.1 hn⟩
  exact ⟨hcarries _ (by decide), _, hvalue, hcarries _ (by decide)⟩

/-- **A pair takes the value of another.**  The second pair has no value, and the map has
that of the first one for its key, where the code means to raise an error. -/
theorem pair_takes_value :
    integersOf (decodeStruct [pairType] 2 lackingPairs pairMapType 26 (-1) []) = [(1, 7), (2, 7)] ∧
      ¬∀ (types : List SprotoType) (levels : ℕ) (mem : ℕ → UInt8) (st : SprotoType)
        (size mainindexTag : ℤ) (result : Assignments) (r : ℤ) (s : DecodeUd),
        decodeStruct types (levels + 1) mem st size mainindexTag result = .ok (r, s) →
          EntryByEntry types levels mem st size mainindexTag result s.result := by
  refine ⟨by decide +kernel, fun hall => ?_⟩
  obtain ⟨⟨r, s⟩, h⟩ := ok_of_toBool (x := decodeStruct [pairType] 2 lackingPairs pairMapType 26
    (-1) []) (by decide +kernel)
  obtain ⟨r', s', hrun, -⟩ := hall [pairType] 1 lackingPairs pairMapType 26 (-1) [] r s h
  have hfails : (decodeWith [pairType] (eachCall lackingPairs (decodeSub [pairType]
      (decodeStruct [pairType] 1) lackingPairs) (-1)) lackingPairs pairMapType 26 []).toBool =
      false := by decide +kernel
  rw [hrun] at hfails
  nomatch hfails

end Skynet.Analysis
