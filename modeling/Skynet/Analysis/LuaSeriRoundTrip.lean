import Skynet.Analysis.LuaSeriPack
import Skynet.Analysis.LuaSeriTables
import Skynet.Analysis.LuaSeriUnpack

/-!
# `skynet.unpack` undoes `skynet.pack`

For each value the bytes that `pack_one` appends are read back by `unpack_one` as an equal
value, whatever follows them; the induction is on the depth that is left.  The array part
of a table is read back from its array size, so a border that is negative as an `int` must
at least leave the cookie of the table header empty.
-/

namespace Skynet.Analysis

open Library Model List

variable {buf : Bytes} {rb : ReadBlock} {levels top : ℕ}

/-! ## Packing with errors -/

def Emits (f : WriteBlock → Except PackError WriteBlock) (bs : Bytes) : Prop :=
  ∀ b, ∃ b', f b = .ok b' ∧ written b' = written b ++ bs ∧ (ByteCounted b → ByteCounted b')

theorem Appends.writes {f : WriteBlock → WriteBlock} {bs : Bytes} (h : Appends f bs) :
    Emits (fun b => .ok (f b)) bs :=
  fun b => ⟨f b, rfl, h b⟩

theorem Appends.then {f : WriteBlock → WriteBlock}
    {g : WriteBlock → Except PackError WriteBlock} {bs cs : Bytes} (hf : Appends f bs)
    (hg : Emits g cs) : Emits (fun b => g (f b)) (bs ++ cs) := by
  intro b
  obtain ⟨b', h, hcontents, hcounted⟩ := hg (f b)
  refine ⟨b', h, ?_, ?_⟩
  · rw [hcontents, (hf b).1, append_assoc]
  · intro hb
    exact hcounted ((hf b).2 hb)

theorem Emits.bind {f g : WriteBlock → Except PackError WriteBlock} {bs cs : Bytes}
    (hf : Emits f bs) (hg : Emits g cs) : Emits (fun b => f b >>= g) (bs ++ cs) := by
  intro b
  obtain ⟨b₁, h₁, hcontents₁, hcounted₁⟩ := hf b
  obtain ⟨b₂, h₂, hcontents₂, hcounted₂⟩ := hg b₁
  refine ⟨b₂, ?_, ?_, ?_⟩
  · simp only [h₁]
    exact h₂
  · rw [hcontents₂, hcontents₁, append_assoc]
  · intro hb
    exact hcounted₂ (hcounted₁ hb)

theorem Emits.foldlM {α : Type} {f : WriteBlock → α → Except PackError WriteBlock}
    {enc : α → Bytes} {l : List α} (h : ∀ a ∈ l, Emits (f · a) (enc a)) :
    Emits (fun b => l.foldlM f b) (l.flatMap enc) := by
  induction l with
  | nil =>
    intro b
    exact ⟨b, rfl, by simp, fun hb => hb⟩
  | cons a l ih =>
    have hhead := h a mem_cons_self
    have htail := ih fun a' ha' => h a' (mem_cons_of_mem a ha')
    exact hhead.bind htail

/-! ## Values that can be packed -/

/-- A value that Lua can hold, with strings shorter than 2^31 bytes and without functions,
threads and full userdata, nested at most as deep as `pack_one` goes from here. -/
def WellFormed : ℕ → LuaValue ℕ → Prop
  | 0, _ => False
  | _ + 1, .scalar v => ShortString v
  | levels + 1, .table border es =>
    ValidTable border es ∧ ∀ e ∈ es, WellFormed levels e.1 ∧ WellFormed levels e.2
  | _ + 1, .other _ => False

/-- The border of a table as an `int` is not negative, or the five bits of it that the
header of the table takes are zero. -/
def GoodBorder (border : ℕ) : Prop := 0 ≤ arraySize border ∨ arraySize border % 32 = 0

def GoodBorders : ℕ → LuaValue ℕ → Prop
  | levels + 1, .table border es =>
    GoodBorder border ∧ ∀ e ∈ es, GoodBorders levels e.1 ∧ GoodBorders levels e.2
  | _, _ => True

def tableHeaderSize (border : ℕ) : ℕ :=
  if (maxCookie : ℤ) - 1 ≤ arraySize border then 1 + integerSize (arraySize border) else 1

def packedSize : ℕ → LuaValue ℕ → ℕ
  | _ + 1, .scalar v => scalarSize v
  | levels + 1, .table border es =>
    tableHeaderSize border
      + ((range' 1 (arraySize border).toNat).map
          fun (i : ℕ) => packedSize levels (rawgeti es i)).sum
      + ((hashEntries border es).map
          fun e => packedSize levels e.1 + packedSize levels e.2).sum
      + 1
  | _, _ => 0

/-- Room on the Lua stack for tables nested so deep: every level keeps at most a table and a key
there.  `pack_one` gives up behind `maxDepth` levels, so the room for that many is asked for,
whatever the depth of the values. -/
def Room (levels top : ℕ) : Prop := top + 2 * levels + extraStack + luaMinStack ≤ luaiMaxStack

theorem Room.stackRoom {levels top : ℕ} (h : Room levels top) : stackRoom top = true := by
  unfold Room at h
  simp only [Model.stackRoom, decide_eq_true_eq]
  omega

theorem Room.inner {levels top k : ℕ} (h : Room (levels + 1) top) (hk : k ≤ 2) :
    Room levels (top + k) := by
  unfold Room at h ⊢
  omega

/-! ## Reading back -/

theorem enterTable_ample {Q : UnpackHost → ReadBlock → Prop} {E : UnpackError → ReadBlock → Prop}
    (h : Q .ample rb) : Ends (enterTable .ample) rb Q E := by
  unfold enterTable
  exact Ends.pure.mpr h

theorem createTable_ample {n : ℤ} {Q : Unit → ReadBlock → Prop}
    {E : UnpackError → ReadBlock → Prop} (h : Q () rb) : Ends (createTable .ample n) rb Q E := by
  unfold createTable
  apply Ends.bind.mpr
  exact Ends.get.mpr (Ends.pure.mpr h)

/-- `push_value` behind the first byte of `bs` reads a value equal to `v` and nothing of
what follows. -/
def Decodes (v : LuaValue ℕ) (top : ℕ) (bs : Bytes) : Prop := ∃ t rest, bs = t :: rest ∧
    ∀ buf rb fuel tail, Reading buf rb → unread rb = rest ++ tail →
      3 * (unread rb).length + 3 ≤ fuel →
      Ends (pushValue (unpackTable fuel .ample top) (t.toNat &&& 7) (t.toNat >>> 3)) rb
        (fun v' rb' => Reading buf rb' ∧ unread rb' = tail ∧ Same v v') (fun _ _ => False)

structure Packs (levels : ℕ) (v : LuaValue ℕ) (bs : Bytes) : Prop where
  size : bs.length = packedSize levels v
  writes : ∀ top, Room levels top → Emits (packOne levels top v) bs
  reads : ∀ top, Room levels top → Decodes v top bs

theorem leNat_singleton (t : UInt8) : leNat [t] = t.toNat := by
  simp [leNat]

theorem Decodes.unpackOne {v : LuaValue ℕ} {bs tail : Bytes} {fuel : ℕ}
    (hv : Decodes v top bs) (h : Reading buf rb) (hleft : unread rb = bs ++ tail)
    (hfuel : 3 * (unread rb).length + 1 ≤ fuel) :
    Ends (Model.unpackOne fuel .ample top) rb
      (fun v' rb' => Reading buf rb' ∧ unread rb' = tail ∧ Same v v') (fun _ _ => False) := by
  obtain ⟨t, rest, rfl, hread⟩ := hv
  cases fuel with
  | zero => omega
  | succ fuel =>
    have hcut : cut 1 (unread rb) = some ([t], rest ++ tail) := by
      rw [hleft]
      exact cut_append (l := [t]) rfl
    unfold Model.unpackOne
    apply Ends.bind.mpr
    apply (rbReadOr_ends h 1 528).mono
    · rintro l rb₁ ⟨h₁, hl⟩
      rw [hcut, Option.some.injEq, Prod.mk.injEq] at hl
      have hlength := cut_length hcut
      rw [← hl.1, leNat_singleton]
      apply hread buf rb₁ fuel tail h₁ hl.2.symm
      rw [← hl.2]
      omega
    · rintro e rb₁ ⟨-, -, hnone⟩
      rw [hcut] at hnone
      cases hnone

theorem decodes_scalar {v : Scalar} {bs : Bytes}
    (h : ∀ tail, header (bs ++ tail) = .scalar v tail) : Decodes (.scalar v) top bs := by
  cases bs with
  | nil =>
    have := h []
    simp [header, cut] at this
  | cons t rest =>
    refine ⟨t, rest, rfl, ?_⟩
    intro buf rb fuel tail hreading hleft _
    have hheader : headerOf (t.toNat &&& 7) (t.toNat >>> 3) (unread rb) = .scalar v tail := by
      have hcut : cut 1 (t :: rest ++ tail) = some ([t], rest ++ tail) := cut_append (l := [t]) rfl
      have := h tail
      rw [header, hcut] at this
      simpa only [leNat_singleton, hleft] using this
    have htype : t.toNat &&& 7 ≠ typeTable := by
      intro htable
      rw [htable] at hheader
      exact tableAt_ne_scalar hheader
    apply (pushValue_ends hreading _ _ htype).mono
    · rintro v' rb' ⟨h', w, rfl, hw⟩
      rw [hheader] at hw
      cases hw
      exact ⟨h', rfl, .scalar v⟩
    · rintro e rb' (⟨-, -, hstop⟩ | ⟨-, hlong⟩)
      · rw [hheader] at hstop
        cases hstop
      · rw [hheader] at hlong
        cases hlong

theorem packs_scalar {v : Scalar} (h : ShortString v) :
    ∃ bs, Packs (levels + 1) (.scalar v) bs := by
  obtain ⟨bs, hsize, happends, hheader⟩ := packScalar_writes h
  exact ⟨bs, hsize, fun top _ => happends.writes, fun top _ => decodes_scalar hheader⟩

/-! ## Tables -/

theorem toInt32_ofInt {v : ℤ} (h : -2 ^ 31 ≤ v ∧ v < 2 ^ 31) :
    toInt32 (BitVec.ofInt 64 v).toInt = v := by
  have hint : (BitVec.ofInt 64 v).toInt = v := by
    rw [BitVec.toInt_ofInt, Int.bmod_eq_of_le] <;> omega
  rw [hint, toInt32, Int.bmod_eq_of_le] <;> omega

/-- **The header of a table with a good border** reads back as its array size. -/
theorem wbTableHeader_appends {border : ℕ} (h : GoodBorder border) :
    ∃ (c : ℤ) (bs : Bytes), bs.length + 1 = tableHeaderSize border ∧
      Appends (wbTableHeader · border) (combineType typeTable c :: bs) ∧
      ∀ tail, tableAt (c % 32).toNat (bs ++ tail) = .table (arraySize border).toNat tail := by
  have hcookie : (maxCookie : ℤ) = 32 := rfl
  by_cases hlarge : (maxCookie : ℤ) - 1 ≤ arraySize border
  · obtain ⟨c, bs, hc, hreal, hsize, happend, hat⟩ := wbInteger_appends (arraySize border)
    refine ⟨(maxCookie - 1 : ℤ), combineType typeNumber c :: bs, ?_, ?_, ?_⟩
    · rw [tableHeaderSize, if_pos hlarge, length_cons, hsize]
      omega
    · simp only [wbTableHeader, if_pos hlarge]
      exact (wbPush_appends _).comp happend
    · intro tail
      have hcut : cut 1 (combineType typeNumber c :: bs ++ tail)
          = some ([combineType typeNumber c], bs ++ tail) :=
        cut_append (l := [combineType typeNumber c]) rfl
      have hcookie' : ((maxCookie - 1 : ℤ) % 32).toNat = maxCookie - 1 := rfl
      have hc' : ((c : ℤ) % 32).toNat = c := by omega
      have hvalue : toInt32 (BitVec.ofInt 64 (arraySize border)).toInt = arraySize border :=
        toInt32_ofInt (toInt32_bounds _)
      rw [tableAt, if_pos hcookie', hcut]
      simp only [leNat_singleton, combineType_type (t := typeNumber) (by decide),
        combineType_cookie (t := typeNumber) (by decide), if_true, hc', hat, hvalue]
  · refine ⟨arraySize border, [], ?_, ?_, ?_⟩
    · rw [tableHeaderSize, if_neg hlarge]
      rfl
    · simp only [wbTableHeader, if_neg hlarge]
      exact wbPush_appends _
    · intro tail
      have hsmall : (arraySize border % 32).toNat = (arraySize border).toNat := by
        cases h with
        | inl h => omega
        | inr h => omega
      have hne : (arraySize border % 32).toNat ≠ maxCookie - 1 := by
        omega
      rw [tableAt, if_neg hne, hsmall]
      rfl

theorem Decodes.shortens {v : LuaValue ℕ} {bs tail : Bytes} {rb rb' : ReadBlock}
    (h : Decodes v top bs) (hleft : unread rb = bs ++ tail) (hleft' : unread rb' = tail) :
    (unread rb').length < (unread rb).length := by
  obtain ⟨t, rest, rfl, -⟩ := h
  rw [hleft, hleft', length_append, length_cons]
  omega

variable {t : LuaEntries Unit} {es : LuaEntries ℕ}

theorem SameEntries.rawseti {n : ℕ} {v' : LuaValue Unit} (ht : SameEntries (arrayEntries es n) t)
    (hv : Same (rawgeti es (n + 1 : ℕ)) v') (hsize : n + 1 < 2 ^ 31) : SameEntries
    (arrayEntries es (n + 1)) (rawseti t (n + 1 : ℕ) v') := by
  have hkey : Same (intKey (n + 1 : ℕ)) (intKey (n + 1 : ℕ)) := .scalar _
  have hnew : NewKey t (intKey (n + 1 : ℕ)) :=
    ht.newKey hkey (newKey_arrayEntries (Nat.lt_succ_self n) hsize)
  rw [arrayEntries_succ, Model.rawseti]
  cases hnil : (rawgeti es (n + 1 : ℕ)).isNil with
  | true =>
    rw [if_pos rfl, append_nil]
    change SameEntries _ (assign t (intKey (n + 1 : ℕ)) v')
    rw [assign_nil hnew (hv.isNil_eq.trans hnil)]
    exact ht
  | false =>
    change SameEntries _ (assign t (intKey (n + 1 : ℕ)) v')
    rw [assign_new hnew (hv.isNil_eq.trans hnil)]
    exact ht.concat hkey hv

/-- **The array part** reads back: `m` values from the key `i + 1` on. -/
theorem unpackArray_reads {enc : ℕ → Bytes} {n : ℕ} {size : ℤ}
    (hn : size.toNat = n) (hsize : n < 2 ^ 31)
    (hdec : ∀ i, 1 ≤ i → i ≤ n → Decodes (rawgeti es i) top (enc i)) {m i fuel : ℕ}
    {tail : Bytes} (him : i + m = n) (h : Reading buf rb)
    (hleft : unread rb = (range' (i + 1) m).flatMap enc ++ tail)
    (ht : SameEntries (arrayEntries es i) t) (hfuel : 3 * (unread rb).length + 2 ≤ fuel) :
    Ends (unpackArray fuel .ample top (i + 1 : ℕ) size t) rb
      (fun t' rb' => Reading buf rb' ∧ unread rb' = tail ∧ SameEntries (arrayEntries es n) t')
      (fun _ _ => False) := by
  induction m generalizing i fuel t rb with
  | zero =>
    cases fuel with
    | zero => omega
    | succ fuel =>
      have hi : i = n := by omega
      subst hi
      have hend : ¬((i + 1 : ℕ) : ℤ) ≤ size := by omega
      unfold unpackArray
      rw [if_neg hend]
      exact Ends.pure.mpr ⟨h, by simpa using hleft, ht⟩
  | succ m ih =>
    cases fuel with
    | zero => omega
    | succ fuel =>
      have hmore : ((i + 1 : ℕ) : ℤ) ≤ size := by omega
      have hhead := hdec (i + 1) (by omega) (by omega)
      rw [range'_succ, flatMap_cons, append_assoc] at hleft
      unfold unpackArray
      rw [if_pos hmore]
      apply Ends.bind.mpr
      apply (hhead.unpackOne h hleft (by omega)).mono
      · rintro v' rb₁ ⟨h₁, hleft₁, hv⟩
        have hshort := hhead.shortens hleft hleft₁
        exact ih (by omega) h₁ hleft₁ (ht.rawseti hv (by omega)) (by omega)
      · intro e rb₁ hfalse
        exact hfalse

theorem rawset_assigns {k : LuaValue ℕ} {k' v' : LuaValue Unit}
    (hk : Same k k') (husable : UsableKey k) :
    Ends (rawset t k' v') rb (fun t' rb' => rb' = rb ∧ t' = assign t k' v')
      (fun _ _ => False) := by
  cases hk with
  | table => exact Ends.pure.mpr ⟨rfl, rfl⟩
  | scalar w =>
    cases w with
    | real d =>
      simp only [rawset, husable.1, husable.2]
      exact Ends.pure.mpr ⟨rfl, rfl⟩
    | _ => exact Ends.pure.mpr ⟨rfl, rfl⟩

variable {enc : LuaValue ℕ → Bytes}

/-- **The hash part** reads back: the entries `rest` behind those of `done`. -/
theorem unpackHash_reads {border : ℕ} {closing : Bytes} (hvalid : ValidTable border es)
    (hsize : (arraySize border).toNat < 2 ^ 31)
    (hkey : ∀ e ∈ es, Decodes e.1 top (enc e.1))
    (hvalue : ∀ e ∈ es, Decodes e.2 (top + 1) (enc e.2))
    (hnil : Decodes (.scalar .nil) top closing) {done rest : LuaEntries ℕ} {fuel : ℕ}
    {tail : Bytes} (hparts : hashEntries border es = done ++ rest)
    (h : Reading buf rb)
    (hleft : unread rb = (rest.flatMap fun e => enc e.1 ++ enc e.2) ++ (closing ++ tail))
    (ht : SameEntries (arrayEntries es (arraySize border).toNat ++ done) t)
    (hfuel : 3 * (unread rb).length + 2 ≤ fuel) :
    Ends (unpackHash fuel .ample top t) rb
      (fun t' rb' => Reading buf rb' ∧ unread rb' = tail ∧
        SameEntries (arrayEntries es (arraySize border).toNat ++ hashEntries border es) t')
      (fun _ _ => False) := by
  induction rest generalizing done fuel t rb with
  | nil =>
    cases fuel with
    | zero => omega
    | succ fuel =>
      unfold unpackHash
      apply Ends.bind.mpr
      apply (hnil.unpackOne h hleft (by omega)).mono
      · rintro k' rb₁ ⟨h₁, hleft₁, hk⟩
        have hclosed : k'.isNil = true := hk.isNil_eq
        rw [if_pos hclosed]
        rw [append_nil] at hparts
        rw [hparts]
        exact Ends.pure.mpr ⟨h₁, hleft₁, ht⟩
      · intro e rb₁ hfalse
        exact hfalse
  | cons e rest ih =>
    cases fuel with
    | zero => omega
    | succ fuel =>
      have hmem : e ∈ es := by
        have : e ∈ hashEntries border es := by
          rw [hparts]
          simp
        exact (mem_filter.mp this).1
      have husable := hvalid.keys e hmem
      rw [flatMap_cons, append_assoc, append_assoc] at hleft
      unfold unpackHash
      apply Ends.bind.mpr
      apply ((hkey e hmem).unpackOne h hleft (by omega)).mono
      · rintro k' rb₁ ⟨h₁, hleft₁, hk⟩
        have hshort₁ := (hkey e hmem).shortens hleft hleft₁
        have hnotnil : ¬k'.isNil = true := by
          rw [hk.isNil_eq]
          intro hn
          obtain ⟨k, v⟩ := e
          cases k with
          | scalar w =>
            cases w with
            | nil => exact husable
            | _ => cases hn
          | _ => cases hn
        rw [if_neg hnotnil]
        apply Ends.bind.mpr
        apply ((hvalue e hmem).unpackOne h₁ hleft₁ (by omega)).mono
        · rintro v' rb₂ ⟨h₂, hleft₂, hv⟩
          have hshort₂ := (hvalue e hmem).shortens hleft₁ hleft₂
          apply Ends.bind.mpr
          apply (rawset_assigns hk husable).mono
          · rintro t' rb₃ ⟨rfl, rfl⟩
            have hnew : NewKey t k' := ht.newKey hk (newKey_of_hash hvalid hsize hparts)
            have hvalued : v'.isNil = false := hv.isNil_eq.trans (hvalid.values e hmem)
            have hnext := ht.concat hk hv
            rw [← assign_new hnew hvalued, append_assoc] at hnext
            have hparts' : hashEntries border es = done ++ [e] ++ rest := by simpa using hparts
            exact ih hparts' h₂ hleft₂ hnext (by omega)
          · intro e' rb₃ hfalse
            exact hfalse
        · intro e' rb₂ hfalse
          exact hfalse
      · intro e' rb₁ hfalse
        exact hfalse

/-! ## Values -/

section Table

variable {border : ℕ} {es : LuaEntries ℕ} {enc : LuaValue ℕ → Bytes}

def arrayBytes (enc : LuaValue ℕ → Bytes) (border : ℕ) (es : LuaEntries ℕ) : Bytes :=
  (range' 1 (arraySize border).toNat).flatMap fun (i : ℕ) => enc (rawgeti es i)

def hashBytes (enc : LuaValue ℕ → Bytes) (border : ℕ) (es : LuaEntries ℕ) : Bytes :=
  (hashEntries border es).flatMap fun e => enc e.1 ++ enc e.2

theorem wbTableArray_writes {hbs : Bytes} (hheader : Appends (wbTableHeader · border) hbs)
    (harray : ∀ i : ℕ, 1 ≤ i → i ≤ (arraySize border).toNat →
      Emits (packOne levels (top + 1) (rawgeti es i)) (enc (rawgeti es i))) :
    Emits (wbTableArray (packOne levels) top border es)
      (hbs ++ arrayBytes enc border es) := by
  have hvalues : Emits (fun wb => (range' 1 (arraySize border).toNat).foldlM
      (fun wb (i : ℕ) => packOne levels (top + 1) (rawgeti es i) wb) wb)
      (arrayBytes enc border es) := by
    apply Emits.foldlM
    intro i hi
    rw [mem_range'_1] at hi
    exact harray i hi.1 (by omega)
  exact hheader.then hvalues

theorem wbTableHash_writes {closing : Bytes} (hnil : Appends wbNil closing)
    (hhash : ∀ e ∈ es, Emits (packOne levels (top + 2) e.1) (enc e.1) ∧
      Emits (packOne levels (top + 2) e.2) (enc e.2)) :
    Emits (wbTableHash (packOne levels) top border es) (hashBytes enc border es ++ closing) := by
  have hbytes : hashBytes enc border es
      = es.flatMap fun e => if inArray border e.1 then [] else enc e.1 ++ enc e.2 := by
    unfold hashBytes hashEntries
    induction es with
    | nil => rfl
    | cons e es ih =>
      have hrest := ih fun f hf => hhash f (mem_cons_of_mem e hf)
      cases he : inArray border e.1 <;> simp [he, hrest]
  rw [hbytes]
  refine Emits.bind (Emits.foldlM ?_) hnil.writes
  intro e he
  cases hin : inArray border e.1 with
  | true =>
    intro b
    exact ⟨b, rfl, by simp, fun hb => hb⟩
  | false =>
    exact (hhash e he).1.bind (hhash e he).2

theorem decodes_table {c : ℤ} {hbs closing : Bytes} (hvalid : ValidTable border es)
    (hroom : Room (levels + 1) top)
    (hheader : ∀ tail, tableAt (c % 32).toNat (hbs ++ tail) = .table (arraySize border).toNat tail)
    (harray : ∀ i : ℕ, 1 ≤ i → i ≤ (arraySize border).toNat →
      Decodes (rawgeti es i) (top + 1) (enc (rawgeti es i)))
    (hhash : ∀ e ∈ es, Decodes e.1 (top + 1) (enc e.1) ∧ Decodes e.2 (top + 2) (enc e.2))
    (hnil : Decodes (.scalar .nil) (top + 1) closing) :
    Decodes (.table border es) top
      (combineType typeTable c :: (hbs ++ (arrayBytes enc border es
        ++ (hashBytes enc border es ++ closing)))) := by
  have hsize : (arraySize border).toNat < 2 ^ 31 := by
    have := (toInt32_bounds border).2
    change arraySize border < 2 ^ 31 at this
    omega
  refine ⟨_, _, rfl, ?_⟩
  intro buf rb fuel tail h hleft hfuel
  rw [combineType_type (by decide), combineType_cookie (by decide)]
  change Ends (unpackTable fuel .ample top (c % 32).toNat) rb _ _
  simp only [append_assoc] at hleft
  cases fuel with
  | zero => omega
  | succ fuel =>
    have htable := hheader
      (arrayBytes enc border es ++ (hashBytes enc border es ++ (closing ++ tail)))
    rw [← hleft] at htable
    unfold unpackTable
    apply Ends.bind.mpr
    apply (unpackArraySize_ends h _).mono
    · rintro n rb₁ ⟨h₁, hn⟩
      have hshort₁ := tableAt_length hn
      rw [htable, Header.table.injEq] at hn
      apply Ends.bind.mpr
      apply enterTable_ample
      apply Ends.bind.mpr
      apply (checkStack_ends top).mono
      · rintro _ rb₂ ⟨rfl, -⟩
        apply Ends.bind.mpr
        apply createTable_ample
        apply Ends.bind.mpr
        apply (unpackArray_reads hn.1.symm hsize harray (Nat.zero_add _) h₁ hn.2.symm
          (t := []) SameEntries.nil (by omega)).mono
        · rintro t rb₃ ⟨h₃, hleft₃, ht⟩
          have hshort₃ : (unread rb₃).length ≤ (unread rb₂).length := by
            have := congrArg List.length hn.2
            rw [length_append, ← hleft₃] at this
            omega
          rw [← append_nil (arrayEntries es _)] at ht
          apply Ends.bind.mpr
          apply (unpackHash_reads hvalid hsize (fun e he => (hhash e he).1)
            (fun e he => (hhash e he).2) hnil (nil_append _).symm h₃ hleft₃ ht
            (by omega)).mono
          · rintro t' rb₄ ⟨h₄, hleft₄, ht'⟩
            exact Ends.pure.mpr ⟨h₄, hleft₄, .table (perm_parts hvalid hsize) ht'⟩
          · intro e rb₄ hfalse
            exact hfalse
        · intro e rb₃ hfalse
          exact hfalse
      · rintro e rb₂ ⟨-, -, hfull⟩
        rw [hroom.stackRoom] at hfull
        cases hfull
    · rintro e rb₁ ⟨-, -, hstop⟩
      rw [htable] at hstop
      cases hstop

end Table

theorem rawgeti_cases (es : LuaEntries ℕ) (i : ℤ) :
    rawgeti es i = .scalar .nil ∨ ∃ e ∈ es, rawgeti es i = e.2 := by
  cases hnil : (rawgeti es i).isNil with
  | true =>
    left
    unfold LuaValue.isNil at hnil
    split at hnil
    case h_1 h => exact h
    case h_2 => cases hnil
  | false =>
    right
    exact ⟨_, mem_of_rawget hnil, rfl⟩

/-- **A table reads back** if its entries do and its border is good. -/
theorem packs_table {border : ℕ} (hvalid : ValidTable border es) (hgood : GoodBorder border)
    (henc : ∀ e ∈ es, Packs levels e.1 (enc e.1) ∧ Packs levels e.2 (enc e.2))
    (hnil : 0 < levels → Packs levels (.scalar .nil) (enc (.scalar .nil)))
    (hlevels : es ≠ [] → 0 < levels) : ∃ bs, Packs (levels + 1) (.table border es) bs := by
  obtain ⟨closing, hnilsize, hnilappends, hnilheader⟩ := wbNil_writes
  obtain ⟨c, hbs, hsize, hheader, htable⟩ := wbTableHeader_appends hgood
  have harray : ∀ i : ℕ, 1 ≤ i → i ≤ (arraySize border).toNat →
      Packs levels (rawgeti es i) (enc (rawgeti es i)) := by
    intro i hone hi
    have hpos : es ≠ [] := by
      rintro rfl
      have hzero : border = 0 := by
        rcases hvalid.present with h | h
        · exact h
        · cases h
      rw [hzero] at hi
      have : (arraySize 0).toNat = 0 := by decide +kernel
      omega
    rcases rawgeti_cases es i with h | ⟨e, he, h⟩
    · rw [h]
      exact hnil (hlevels hpos)
    · rw [h]
      exact (henc e he).2
  refine ⟨combineType typeTable c :: (hbs ++ (arrayBytes enc border es
    ++ (hashBytes enc border es ++ closing))), ?_, ?_, ?_⟩
  · have harraysize : (arrayBytes enc border es).length
        = ((range' 1 (arraySize border).toNat).map
            fun (i : ℕ) => packedSize levels (rawgeti es i)).sum := by
      rw [arrayBytes, length_flatMap]
      congr 1
      apply map_congr_left
      intro i hi
      rw [mem_range'_1] at hi
      exact (harray i hi.1 (by omega)).size
    have hhashsize : (hashBytes enc border es).length
        = ((hashEntries border es).map
            fun e => packedSize levels e.1 + packedSize levels e.2).sum := by
      rw [hashBytes, length_flatMap]
      congr 1
      apply map_congr_left
      intro e he
      have hmem := (mem_filter.mp he).1
      rw [length_append, (henc e hmem).1.size, (henc e hmem).2.size]
    simp only [length_cons, length_append, harraysize, hhashsize, hnilsize, packedSize, scalarSize]
    omega
  · intro top hroom
    have hhash : Emits (wbTableHash (packOne levels) top border es)
        (hashBytes enc border es ++ closing) :=
      wbTableHash_writes hnilappends fun e he =>
        ⟨(henc e he).1.writes _ (hroom.inner (by omega)),
          (henc e he).2.writes _ (hroom.inner (by omega))⟩
    have hwrites := (wbTableArray_writes hheader
      fun i hone hi => (harray i hone hi).writes _ (hroom.inner (by omega))).bind hhash
    intro b
    have hb := hwrites b
    simp only [cons_append, append_assoc] at hb
    simp only [packOne, wbTable, hroom.stackRoom, if_true]
    exact hb
  · intro top hroom
    exact decodes_table hvalid hroom htable
      (fun i hone hi => (harray i hone hi).reads _ (hroom.inner (by omega)))
      (fun e he => ⟨(henc e he).1.reads _ (hroom.inner (by omega)),
        (henc e he).2.reads _ (hroom.inner (by omega))⟩)
      (decodes_scalar hnilheader)

/-- **Every value with good borders reads back**, by induction on the depth that is
left. -/
theorem packs_value : ∀ {levels : ℕ} {v : LuaValue ℕ}, WellFormed levels v →
    GoodBorders levels v → ∃ bs, Packs levels v bs
  | 0, _, hwf, _ => hwf.elim
  | _ + 1, .scalar _, hwf, _ => packs_scalar hwf
  | _ + 1, .other _, hwf, _ => hwf.elim
  | levels + 1, .table border es, hwf, hgood => by
    have hchoice : ∀ v, ∃ bs, WellFormed levels v → GoodBorders levels v → Packs levels v bs := by
      intro v
      by_cases h : WellFormed levels v ∧ GoodBorders levels v
      · obtain ⟨bs, hbs⟩ := packs_value h.1 h.2
        exact ⟨bs, fun _ _ => hbs⟩
      · exact ⟨[], fun hwf hgood => absurd ⟨hwf, hgood⟩ h⟩
    choose enc henc using hchoice
    have hentries : ∀ e ∈ es, Packs levels e.1 (enc e.1) ∧ Packs levels e.2 (enc e.2) := by
      intro e he
      exact ⟨henc _ (hwf.2 e he).1 (hgood.2 e he).1, henc _ (hwf.2 e he).2 (hgood.2 e he).2⟩
    apply packs_table hwf.1 hgood.1 hentries
    · intro hpos
      obtain ⟨k, rfl⟩ := Nat.exists_eq_add_of_lt hpos
      exact henc _ trivial trivial
    · intro hne
      obtain ⟨e, he⟩ := exists_mem_of_ne_nil es hne
      cases levels with
      | zero => exact (hwf.2 e he).1.elim
      | succ levels => exact Nat.succ_pos levels

/-! ## The whole call -/

def RoundTrips (base top : ℕ) (vs : List (LuaValue ℕ)) : Prop :=
  ∃ block vs' rb, luaseriPack base vs = .ok block ∧
    luaseriUnpack top (.buffer block) = .ok vs' rb ∧ Forall₂ Same vs vs'

theorem unpackLoop_reads {done rest : List (LuaValue ℕ)}
    {vs : List (LuaValue Unit)} {fuel : ℕ} (h : Reading buf rb)
    (hdec : ∀ v ∈ rest, ∀ i < done.length + rest.length, Decodes v (top + i) (enc v))
    (hroom : ∀ i ≤ done.length + rest.length, stackRoom (top + i) = true)
    (hleft : unread rb = rest.flatMap enc) (hvs : Forall₂ Same done vs)
    (hfuel : 3 * (unread rb).length + 2 ≤ fuel) :
    Ends (unpackLoop fuel .ample top done.length vs) rb
      (fun vs' _ => Forall₂ Same (done ++ rest) vs') (fun _ _ => False) := by
  induction rest generalizing done vs fuel rb with
  | nil =>
    cases fuel with
    | zero => omega
    | succ fuel =>
      apply unpackLoop_ends h
      · intro _ hfull
        rw [hroom _ (by omega)] at hfull
        cases hfull
      · intro _ _
        rw [append_nil]
        exact hvs
      · intro _ t rb₁ _ hcut
        have := cut_length hcut
        rw [hleft] at this
        simp at this
  | cons v rest ih =>
    cases fuel with
    | zero => omega
    | succ fuel =>
      obtain ⟨t, bs, henc, hread⟩ := hdec v mem_cons_self done.length (by simp)
      rw [flatMap_cons, henc] at hleft
      have hcut : cut 1 (unread rb) = some ([t], bs ++ rest.flatMap enc) := by
        rw [hleft]
        exact cut_append (l := [t]) rfl
      apply unpackLoop_ends h
      · intro _ hfull
        rw [hroom _ (by omega)] at hfull
        cases hfull
      · intro _ hnone
        rw [hcut] at hnone
        cases hnone
      · intro _ t' rb₁ h₁ hcut'
        have hlength := cut_length hcut'
        rw [hcut, Option.some.injEq, Prod.mk.injEq] at hcut'
        rw [← hcut'.1, leNat_singleton]
        apply (hread buf rb₁ fuel _ h₁ hcut'.2.symm (by omega)).mono
        · rintro v' rb₂ ⟨h₂, hleft₂, hv⟩
          have hshort : (unread rb₂).length ≤ (unread rb₁).length := by
            rw [hleft₂, ← hcut'.2, length_append]
            omega
          have hcount : (done ++ [v]).length + rest.length = done.length + (v :: rest).length := by
            simp only [length_append, length_cons, length_nil]
            omega
          have hnext : Ends (unpackLoop fuel .ample top (done ++ [v]).length (vs ++ [v'])) rb₂
              (fun vs' _ => Forall₂ Same (done ++ [v] ++ rest) vs')
              (fun _ _ => False) := by
            apply ih h₂ _ _ hleft₂ (rel_append hvs (.cons hv .nil)) (by omega)
            · intro w hw i hi
              exact hdec w (mem_cons_of_mem v hw) i (hcount ▸ hi)
            · intro i hi
              exact hroom i (hcount ▸ hi)
          simpa using hnext
        · intro e rb₂ hfalse
          exact hfalse

/-- **`skynet.unpack` undoes `skynet.pack`** if every border is good, the packed values take
less than 2^31 bytes, and both calls have room on the stack. -/
theorem unpack_pack {base top : ℕ} {vs : List (LuaValue ℕ)}
    (hwf : ∀ v ∈ vs, WellFormed (maxDepth + 1) v) (hgood : ∀ v ∈ vs, GoodBorders (maxDepth + 1) v)
    (hsize : (vs.map (packedSize (maxDepth + 1))).sum < 2 ^ 31)
    (hbase : Room (maxDepth + 1) (base + vs.length)) (htop : Room (maxDepth + 1) (top + vs.length))
    : RoundTrips base top vs := by
  have hchoice : ∀ v, ∃ bs, v ∈ vs → Packs (maxDepth + 1) v bs := by
    intro v
    by_cases hv : v ∈ vs
    · obtain ⟨bs, hbs⟩ := packs_value (hwf v hv) (hgood v hv)
      exact ⟨bs, fun _ => hbs⟩
    · exact ⟨[], fun h => absurd h hv⟩
  choose enc henc using hchoice
  -- what is packed
  have hlength : (vs.flatMap enc).length = (vs.map (packedSize (maxDepth + 1))).sum := by
    rw [length_flatMap]
    congr 1
    apply map_congr_left
    intro v hv
    exact (henc v hv).size
  rw [← hlength] at hsize
  have hpack : luaseriPack base vs = .ok (vs.flatMap enc) := by
    have hwrites : Emits (packFrom base vs) (vs.flatMap enc) := by
      apply Emits.foldlM
      intro v hv
      exact (henc v hv).writes _ hbase
    obtain ⟨wb, hwb, hcontents, hcounted⟩ := hwrites .init
    have hstart : ByteCounted WriteBlock.init := by
      exact (toInt32_of_lt (n := 0) (by decide)).symm
    have hcopy := seri_eq (hcounted hstart) (by rw [hcontents]; exact hsize)
    unfold luaseriPack
    rw [hwb]
    rw [hcontents] at hcopy
    exact hcopy
  -- what is unpacked
  have hlen := toInt32_of_lt hsize
  by_cases hempty : ((vs.flatMap enc).length : ℤ) = 0
  · have hvs : vs = [] := by
      cases vs with
      | nil => rfl
      | cons v vs =>
        obtain ⟨t, bs, hbs, -⟩ := (henc v mem_cons_self).reads _ htop
        rw [flatMap_cons, hbs, cons_append, length_cons] at hempty
        omega
    subst hvs
    exact ⟨_, [], rballInit [] 0, hpack, luaseriUnpack_nil _ top, .nil⟩
  · have hroom : ∀ i ≤ vs.length, Room (maxDepth + 1) (top + i) := by
      unfold Room at htop ⊢
      omega
    have hloop : Ends (unpackLoop (unpackFuel (vs.flatMap enc).length) .ample top
        ([] : List (LuaValue ℕ)).length []) (rballInit (vs.flatMap enc) (vs.flatMap enc).length)
        (fun vs' _ => Forall₂ Same ([] ++ vs) vs') (fun _ _ => False) := by
      apply unpackLoop_reads (reading_init _) _ _ (unread_init _ _) .nil
      · rw [unread_init, unpackFuel, Int.toNat_natCast]
      · intro v hv i hi
        exact (henc v hv).reads _ (hroom i (by simpa using Nat.le_of_lt hi))
      · intro i hi
        exact (hroom i (by simpa using hi)).stackRoom
    obtain ⟨vs', rb, hunpack, hsame⟩ := hloop.returns
    refine ⟨_, vs', rb, hpack, ?_, by simpa using hsame⟩
    simp only [luaseriUnpack, luaseriUnpackOn, hlen, hempty, if_false]
    exact hunpack

def holeEntries : LuaEntries ℕ :=
  [(intKey 1, .scalar (.boolean true)), (intKey 3, .scalar (.boolean false)),
    (.scalar (.string [107]), .scalar (.integer 7))]

theorem unpack_pack_hole : RoundTrips 10 20 [.scalar (.integer 70000), .table 3 holeEntries] := by
  have hkeys : ∀ e ∈ holeEntries, UsableKey e.1 := forall_mem_cons.mpr ⟨trivial, forall_mem_cons.mpr
      ⟨trivial, forall_mem_singleton.mpr trivial⟩⟩
  have hvalid : ValidTable 3 holeEntries :=
    ⟨hkeys, by decide, by decide, .inr (by decide), by decide⟩
  have hstring : ([107] : Bytes).length < 2 ^ 31 := by decide
  have hvalues : ∀ e ∈ holeEntries, WellFormed 32 e.1 ∧ WellFormed 32 e.2 :=
    forall_mem_cons.mpr ⟨⟨trivial, trivial⟩, forall_mem_cons.mpr
      ⟨⟨trivial, trivial⟩, forall_mem_singleton.mpr ⟨hstring, trivial⟩⟩⟩
  have hborders : ∀ e ∈ holeEntries, GoodBorders 32 e.1 ∧ GoodBorders 32 e.2 :=
    forall_mem_cons.mpr ⟨⟨trivial, trivial⟩, forall_mem_cons.mpr
      ⟨⟨trivial, trivial⟩, forall_mem_singleton.mpr ⟨trivial, trivial⟩⟩⟩
  apply unpack_pack
  · exact forall_mem_cons.mpr
      ⟨trivial, forall_mem_singleton.mpr ⟨hvalid, hvalues⟩⟩
  · exact forall_mem_cons.mpr
      ⟨trivial, forall_mem_singleton.mpr ⟨.inl (by decide +kernel), hborders⟩⟩
  · decide +kernel
  · unfold Room
    decide
  · unfold Room
    decide

def readsBack (top : ℕ) : Except PackError Bytes → Bool
  | .ok block => returned (luaseriUnpack top (.buffer block))
  | .error _ => false

theorem RoundTrips.readsBack {base top : ℕ} {vs : List (LuaValue ℕ)}
    (h : RoundTrips base top vs) : readsBack top (luaseriPack base vs) = true := by
  obtain ⟨block, vs', rb, hpack, hunpack, -⟩ := h
  calc Analysis.readsBack top (luaseriPack base vs)
      = Analysis.readsBack top (.ok block) := congrArg _ hpack
    _ = returned (.ok vs' rb) := congrArg returned hunpack
    _ = true := rfl

def sparseEntries : LuaEntries ℕ :=
  (range 32).map (fun i => (intKey (2 ^ i), .scalar (.boolean true)))
    ++ [(intKey (2 ^ 31 + 1), .scalar (.boolean true))]

theorem sparseEntries_forall {P : LuaValue ℕ × LuaValue ℕ → Prop}
    (h : ∀ i, P (intKey i, .scalar (.boolean true))) : ∀ e ∈ sparseEntries, P e := by
  intro e he
  rcases mem_append.mp he with hmap | hlast
  · obtain ⟨i, -, rfl⟩ := mem_map.mp hmap
    exact h _
  · rw [mem_singleton.mp hlast]
    exact h _

theorem validTable_sparse : ValidTable (2 ^ 31 + 1) sparseEntries where
  keys := sparseEntries_forall fun _ => trivial
  values := sparseEntries_forall fun _ => rfl
  distinct := by decide +kernel
  present := .inr (by decide +kernel)
  absent := by decide +kernel

/-- **A border of 2^31 + 1** is what `lua_rawlen` finds for this table: it doubles its way
up the powers of two, meets 2^32 absent and searches down.  As an `int` the border is
negative, and what is left of it in the header of the table makes the first key a value of
the array part: the block cannot be read. -/
theorem sparse_table_lost :
    WellFormed (maxDepth + 1) (.table (2 ^ 31 + 1) sparseEntries) ∧
      ¬RoundTrips 10 10 [.table (2 ^ 31 + 1) sparseEntries] := by
  refine ⟨⟨validTable_sparse, sparseEntries_forall fun _ => ⟨trivial, trivial⟩⟩, ?_⟩
  intro h
  have hreads := h.readsBack
  have hfails : readsBack 10 (luaseriPack 10 [.table (2 ^ 31 + 1) sparseEntries]) = false := by
    decide +kernel
  rw [hfails] at hreads
  cases hreads

end Skynet.Analysis
