import Skynet.Analysis.LuaSeriReader

/-!
# What `skynet.pack` writes

The chain of blocks is the sequence of the bytes pushed.  Every writing function appends
bytes that depend on the value alone; for a scalar these are a header that reads back as
the scalar, whatever follows.

What `seri` returns after any sequence of `wb_push`: the ranges that were pushed, in order,
as long as their total fits the `int` that counts them.
-/

namespace Skynet.Analysis

open Library Model List Option

/-! ## The chain of blocks -/

def written (b : WriteBlock) : Bytes := (b.filled.map (·.1)).flatten ++ b.current

def ByteCounted (b : WriteBlock) : Prop := b.len = toInt32 (written b).length

theorem toInt32_add (x y : ℤ) : toInt32 (toInt32 x + y) = toInt32 (x + y) := by
  simp [toInt32]

@[simp] theorem written_store (b : WriteBlock) (buf : Bytes)
    (h : b.ptr + buf.length ≤ blockSize) : written (b.store buf h) = written b ++ buf := by
  simp [written, WriteBlock.store]

@[simp] theorem written_grow (b : WriteBlock) (h : b.ptr = blockSize) :
    written (b.grow h) = written b := by
  simp [written, WriteBlock.grow]

theorem ByteCounted.store {b : WriteBlock} (hb : ByteCounted b) (buf : Bytes)
    (h : b.ptr + buf.length ≤ blockSize) : ByteCounted (b.store buf h) := by
  unfold ByteCounted at hb ⊢
  rw [written_store, length_append, Nat.cast_add, ← toInt32_add, ← hb]
  rfl

theorem ByteCounted.grow {b : WriteBlock} (hb : ByteCounted b) (h : b.ptr = blockSize) :
    ByteCounted (b.grow h) := by
  unfold ByteCounted at hb ⊢
  rw [written_grow, ← hb]
  rfl

def Appends (f : WriteBlock → WriteBlock) (bs : Bytes) : Prop :=
  ∀ b, written (f b) = written b ++ bs ∧ (ByteCounted b → ByteCounted (f b))

theorem wbPushAgain_appends (b : WriteBlock) (h : b.ptr = blockSize) (buf : Bytes) :
    written (wbPushAgain b h buf) = written b ++ buf ∧
      (ByteCounted b → ByteCounted (wbPushAgain b h buf)) := by
  induction b, h, buf using wbPushAgain.induct with
  | case1 b h buf hfit =>
    rw [wbPushAgain, dif_pos hfit]
    constructor
    · rw [written_store, written_grow]
    · intro hb
      exact (hb.grow h).store _ _
  | case2 b h buf hfit hcopy hstore ih =>
    rw [wbPushAgain, dif_neg hfit]
    constructor
    · rw [ih.1, written_store, written_grow, append_assoc, take_append_drop]
    · intro hb
      exact ih.2 ((hb.grow h).store _ _)

/-- **`wb_push` appends** the bytes, over as many blocks as they take. -/
theorem wbPush_appends (buf : Bytes) : Appends (wbPush · buf) buf := by
  intro b
  simp only [wbPush]
  split
  case isTrue h => exact wbPushAgain_appends b h buf
  case isFalse h =>
    split
    case isTrue hfit =>
      constructor
      · rw [written_store]
      · intro hb
        exact hb.store _ _
    case isFalse hfit =>
      obtain ⟨hcontents, hcounted⟩ := wbPushAgain_appends _ _ _
      constructor
      · rw [hcontents, written_store, append_assoc, take_append_drop]
      · intro hb
        exact hcounted (hb.store _ _)

/-- Two writers, one after the other. -/
theorem Appends.comp {f g : WriteBlock → WriteBlock} {bs cs : Bytes}
    (hf : Appends f bs) (hg : Appends g cs) : Appends (fun b => g (f b)) (bs ++ cs) := by
  intro b
  constructor
  · rw [(hg (f b)).1, (hf b).1, append_assoc]
  · intro hb
    exact (hg (f b)).2 ((hf b).2 hb)

theorem wbPush_cons_appends (t : UInt8) (buf : Bytes) :
    Appends (fun b => wbPush (wbPush b [t]) buf) (t :: buf) :=
  (wbPush_appends [t]).comp (wbPush_appends buf)

theorem copyBlocks_eq (filled : List FullBlock) (current : Bytes) (h : current.length ≤ blockSize) :
    copyBlocks (filled.map (·.1) ++ [current])
      ((filled.map (·.1)).flatten ++ current).length
      = (filled.map (·.1)).flatten ++ current := by
  induction filled with
  | nil =>
    simp only [map_nil, flatten_nil, nil_append, copyBlocks, append_nil]
    split
    case isTrue hfull =>
      have hlen : current.length = blockSize := by omega
      rw [← hlen, take_length]
    case isFalse => rw [take_length]
  | cons b filled ih =>
    simp only [map_cons, flatten_cons, cons_append, append_assoc, copyBlocks]
    have hlen : blockSize ≤ (b.1 ++ ((filled.map (·.1)).flatten ++ current)).length := by
      rw [length_append, b.2]
      omega
    have hrest : (b.1 ++ ((filled.map (·.1)).flatten ++ current)).length - blockSize
        = ((filled.map (·.1)).flatten ++ current).length := by
      rw [length_append, b.2]
      omega
    rw [if_pos hlen, hrest, ih, take_of_length_le (by rw [b.2])]

/-- **`seri` copies the whole chain** if its length is an `int`. -/
theorem seri_eq {b : WriteBlock} (hb : ByteCounted b) (hlen : (written b).length < 2 ^ 31) :
    seri b b.len = .ok (written b) := by
  have heq : b.len = (written b).length := by
    rw [hb, toInt32_of_lt hlen]
  unfold seri
  rw [heq, if_neg (by omega), Int.toNat_natCast]
  exact congrArg Except.ok (copyBlocks_eq b.filled b.current b.bound)

/-! ## Headers -/

theorem combineType_toNat {t : ℕ} (ht : t < 8) (v : ℤ) :
    (combineType t v).toNat = t + (v % 32).toNat * 8 := by
  have hor : t ||| (v % 32).toNat <<< 3 = t + (v % 32).toNat * 8 := by
    rw [Nat.or_comm, ← Nat.shiftLeft_add_eq_or_of_lt (by omega), Nat.shiftLeft_eq]
    omega
  rw [combineType, hor, UInt8.toNat_ofNat', Nat.mod_eq_of_lt]
  omega

theorem combineType_type {t : ℕ} (ht : t < 8) (v : ℤ) : (combineType t v).toNat &&& 7 = t := by
  rw [show 7 = 2 ^ 3 - 1 from rfl, Nat.and_two_pow_sub_one_eq_mod, combineType_toNat ht]
  omega

theorem combineType_cookie {t : ℕ} (ht : t < 8) (v : ℤ) :
    (combineType t v).toNat >>> 3 = (v % 32).toNat := by
  rw [combineType_toNat ht, Nat.shiftRight_eq_div_pow]
  omega

theorem header_combineType {t : ℕ} (ht : t < 8) (v : ℤ) (bs : Bytes) :
    header (combineType t v :: bs) = headerOf t (v % 32).toNat bs := by
  have hcut : cut 1 (combineType t v :: bs) = some ([combineType t v], bs) :=
    cut_append (l := [combineType t v]) rfl
  have hbyte : leNat [combineType t v] = (combineType t v).toNat := by
    simp [leNat]
  rw [header, hcut]
  simp only [hbyte, combineType_type ht, combineType_cookie ht]

theorem scalarOf_append {k : ℕ} {value : Bytes → Scalar} {l tail : Bytes}
    (h : l.length = k) : scalarOf k value (l ++ tail) = .scalar (value l) tail := by
  rw [scalarOf, cut_append h]

/-! ## Numbers -/

@[simp] theorem length_valueBytes (k : ℕ) (v : ℤ) : (valueBytes k v).length = k :=
  length_leBytes k _

theorem leNat_valueBytes (k : ℕ) (v : ℤ) : (leNat (valueBytes k v) : ℤ) = v % 256 ^ k := by
  have hpos : (0 : ℤ) < 256 ^ k := Int.pow_pos (by decide)
  have hmod := Int.emod_nonneg v hpos.ne'
  have hlt := Int.emod_lt_of_pos v hpos
  have hbound : (v % 256 ^ k).toNat < 256 ^ k := by
    apply (Int.toNat_lt hmod).mpr
    exact hlt
  rw [valueBytes, leNat_leBytes_of_lt hbound, Int.toNat_of_nonneg hmod]

def integerSize (v : ℤ) : ℕ :=
  if v = 0 then 1
  else if v ≠ toInt32 v then 9
  else if v < 0 then 5
  else if v < 0x100 then 2
  else if v < 0x10000 then 3
  else 5

theorem toInt32_bounds (v : ℤ) : -2 ^ 31 ≤ toInt32 v ∧ toInt32 v < 2 ^ 31 := by
  have hle := Int.le_bmod (x := v) (m := 2 ^ 32) (by norm_num)
  have hlt := Int.bmod_lt (x := v) (m := 2 ^ 32) (by norm_num)
  unfold toInt32
  constructor <;> omega

theorem toInt32_emod (v : ℤ) : toInt32 (v % 2 ^ 32) = toInt32 v := by
  have hcast : (2 : ℤ) ^ 32 = (2 ^ 32 : ℕ) := by norm_num
  rw [hcast, toInt32, toInt32, Int.emod_bmod]

/-- **An integer is read back** from what `wb_integer` writes: a header whose cookie is not
the one of a real, and the bytes behind it. -/
theorem wbInteger_appends (v : ℤ) :
    ∃ (c : ℕ) (bs : Bytes), c < 32 ∧ c ≠ typeNumberReal ∧ bs.length + 1 = integerSize v ∧
      Appends (wbInteger · v) (combineType typeNumber c :: bs) ∧
      ∀ tail, integerAt c (bs ++ tail) = some (BitVec.ofInt 64 v, tail) := by
  have happend : ∀ (k : ℕ) (tail : Bytes),
      cut k (valueBytes k v ++ tail) = some (valueBytes k v, tail) := fun k tail =>
    cut_append (length_valueBytes k v)
  have hsmall : ∀ k, 0 ≤ v → v < 256 ^ k →
      BitVec.ofNat 64 (leNat (valueBytes k v)) = BitVec.ofInt 64 v := by
    intro k hnonneg hlt
    rw [← BitVec.ofInt_natCast, leNat_valueBytes, Int.emod_eq_of_lt hnonneg hlt]
  have hdword : v = toInt32 v →
      BitVec.ofInt 64 (toInt32 (leNat (valueBytes 4 v))) = BitVec.ofInt 64 v := by
    intro heq
    rw [leNat_valueBytes, show (256 : ℤ) ^ 4 = 2 ^ 32 by norm_num, toInt32_emod, ← heq]
  by_cases hzero : v = 0
  · subst hzero
    exact ⟨typeNumberZero, [], by decide, by decide, rfl, wbPush_appends _, fun tail => rfl⟩
  by_cases hlong : v ≠ toInt32 v
  · refine ⟨typeNumberQword, valueBytes 8 v, by decide, by decide, ?_, ?_, ?_⟩
    · simp [integerSize, hzero, hlong]
    · simp only [wbInteger, hzero, if_false, if_pos hlong]
      exact wbPush_cons_appends _ _
    · intro tail
      have hvalue : BitVec.ofNat 64 (leNat (valueBytes 8 v)) = BitVec.ofInt 64 v := by
        rw [← BitVec.ofInt_natCast, leNat_valueBytes]
        apply BitVec.eq_of_toInt_eq
        rw [BitVec.toInt_ofInt, BitVec.toInt_ofInt,
          show (256 : ℤ) ^ 8 = (2 ^ 64 : ℕ) by norm_num, Int.emod_bmod]
      simp only [integerAt, typeNumberQword, happend, map_some, hvalue]
  have heq : v = toInt32 v := not_not.mp hlong
  by_cases hneg : v < 0
  · refine ⟨typeNumberDword, valueBytes 4 v, by decide, by decide, ?_, ?_, ?_⟩
    · simp [integerSize, hzero, ← heq, hneg]
    · simp only [wbInteger, hzero, if_false, if_neg hlong, if_pos hneg]
      exact wbPush_cons_appends _ _
    · intro tail
      simp only [integerAt, typeNumberDword, happend, map_some, hdword heq]
  by_cases hbyte : v < 0x100
  · refine ⟨typeNumberByte, valueBytes 1 v, by decide, by decide, ?_, ?_, ?_⟩
    · simp [integerSize, hzero, ← heq, hneg, hbyte]
    · simp only [wbInteger, hzero, if_false, if_neg hlong, if_neg hneg, if_pos hbyte]
      exact wbPush_cons_appends _ _
    · intro tail
      have hvalue := hsmall 1 (by omega) (by simpa using hbyte)
      simp only [integerAt, typeNumberByte, happend, map_some, hvalue]
  by_cases hword : v < 0x10000
  · refine ⟨typeNumberWord, valueBytes 2 v, by decide, by decide, ?_, ?_, ?_⟩
    · simp [integerSize, hzero, ← heq, hneg, hbyte, hword]
    · simp only [wbInteger, hzero, if_false, if_neg hlong, if_neg hneg, if_neg hbyte, if_pos hword]
      exact wbPush_cons_appends _ _
    · intro tail
      have hvalue := hsmall 2 (by omega) (by simpa using hword)
      simp only [integerAt, typeNumberWord, happend, map_some, hvalue]
  · refine ⟨typeNumberDword, valueBytes 4 v, by decide, by decide, ?_, ?_, ?_⟩
    · simp [integerSize, hzero, ← heq, hneg, hbyte, hword]
    · simp only [wbInteger, hzero, if_false, if_neg hlong, if_neg hneg, if_neg hbyte, if_neg hword]
      exact wbPush_cons_appends _ _
    · intro tail
      simp only [integerAt, typeNumberDword, happend, map_some, hdword heq]

/-! ## Scalars -/

def ShortString : Scalar → Prop
  | .string str => str.length < 2 ^ 31
  | _ => True

def scalarSize : Scalar → ℕ
  | .nil | .boolean _ => 1
  | .integer x => integerSize x.toInt
  | .real _ | .lightuserdata _ => 9
  | .string str =>
    (if str.length < maxCookie then 1 else if str.length < 0x10000 then 3 else 5) + str.length

def WritesScalar (f : WriteBlock → WriteBlock) (v : Scalar) : Prop :=
  ∃ bs, bs.length = scalarSize v ∧ Appends f bs ∧ ∀ tail, header (bs ++ tail) = .scalar v tail

theorem wbNil_writes : WritesScalar wbNil .nil := by
  refine ⟨[combineType typeNil 0], rfl, ?_, ?_⟩
  · exact wbPush_appends _
  · intro tail
    exact header_combineType (by decide) _ _

theorem wbBoolean_writes (x : Bool) : WritesScalar (wbBoolean · x) (.boolean x) := by
  refine ⟨_, rfl, wbPush_appends _, ?_⟩
  intro tail
  rw [singleton_append, header_combineType (by decide)]
  cases x <;> rfl

theorem wbInteger_writes (x : BitVec 64) : WritesScalar (wbInteger · x.toInt) (.integer x) := by
  obtain ⟨c, bs, hc, hreal, hsize, happend, hat⟩ := wbInteger_appends x.toInt
  refine ⟨combineType typeNumber c :: bs, hsize, happend, ?_⟩
  intro tail
  have hcookie : ((c : ℤ) % 32).toNat = c := by omega
  rw [cons_append, header_combineType (by decide), hcookie, headerOf, if_neg hreal, hat,
    BitVec.ofInt_toInt]

theorem headerOf_real (bs : Bytes) :
    headerOf typeNumber ((typeNumberReal : ℤ) % 32).toNat bs
      = scalarOf 8 (fun l => .real (BitVec.ofNat 64 (leNat l))) bs := rfl

theorem headerOf_pointer (cookie : ℕ) (bs : Bytes) :
    headerOf typeUserdata cookie bs
      = scalarOf 8 (fun l => .lightuserdata (BitVec.ofNat 64 (leNat l))) bs := rfl

theorem headerOf_word {bs l rest : Bytes} (h : cut 2 bs = some (l, rest)) :
    headerOf typeLongString ((2 : ℤ) % 32).toNat bs = scalarOf (leNat l) .string rest := by
  rw [headerOf, if_pos (by decide), h]

theorem headerOf_dword {bs l rest : Bytes} (h : cut 4 bs = some (l, rest)) (hn : leNat l < 2 ^ 31) :
    headerOf typeLongString ((4 : ℤ) % 32).toNat bs = scalarOf (leNat l) .string rest := by
  rw [headerOf, if_neg (by decide), if_pos (by decide), h]
  exact if_pos hn

theorem wbReal_writes (d : BitVec 64) : WritesScalar (wbReal · d) (.real d) := by
  refine ⟨_, ?_, wbPush_cons_appends _ _, ?_⟩
  · simp [scalarSize]
  · intro tail
    rw [cons_append, header_combineType (by decide), headerOf_real,
      scalarOf_append (length_leBytes 8 _), leNat_leBytes_of_lt d.isLt, BitVec.ofNat_toNat,
      BitVec.setWidth_eq]

theorem wbPointer_writes (x : BitVec 64) : WritesScalar (wbPointer · x) (.lightuserdata x) := by
  refine ⟨combineType typeUserdata 0 :: leBytes 8 x.toNat, ?_, ?_, ?_⟩
  · simp [scalarSize]
  · exact wbPush_cons_appends _ _
  · intro tail
    rw [cons_append, header_combineType (by decide), headerOf_pointer,
      scalarOf_append (length_leBytes 8 _), leNat_leBytes_of_lt x.isLt, BitVec.ofNat_toNat,
      BitVec.setWidth_eq]

theorem wbString_long {str : Bytes} {cookie : ℤ} {k : ℕ} :
    Appends
      (fun wb => wbPush (wbPush (wbPush wb [combineType typeLongString cookie])
        (valueBytes k str.length)) str)
      (combineType typeLongString cookie :: (valueBytes k str.length ++ str)) :=
  (wbPush_cons_appends _ _).comp (wbPush_appends str)

theorem leNat_length {k : ℕ} {str : Bytes} (h : str.length < 256 ^ k) :
    leNat (valueBytes k str.length) = str.length := by
  have hcast : (str.length : ℤ) < 256 ^ k := by exact_mod_cast h
  have hvalue := leNat_valueBytes k str.length
  rw [Int.emod_eq_of_lt (by omega) hcast] at hvalue
  exact_mod_cast hvalue

theorem wbString_writes {str : Bytes} (h : str.length < 2 ^ 31) :
    WritesScalar (wbString · str (toInt32 str.length)) (.string str) := by
  rw [toInt32_of_lt h]
  have htake : str.take (str.length : ℤ).toNat = str := by simp
  by_cases hshort : str.length < maxCookie
  · have hcookie : ((str.length : ℤ) % 32).toNat = str.length := by
      have : maxCookie = 32 := rfl
      omega
    refine ⟨combineType typeShortString str.length :: str, ?_, ?_, ?_⟩
    · simp only [scalarSize, if_pos hshort, length_cons]
      omega
    · simp only [wbString, htake, Nat.cast_lt, if_pos hshort]
      by_cases hpos : 0 < str.length
      · have hpos' : 0 < (str.length : ℤ) := by omega
        simp only [if_pos hpos']
        exact wbPush_cons_appends _ _
      · have hempty : str = [] := eq_nil_of_length_eq_zero (by omega)
        subst hempty
        exact wbPush_appends _
    · intro tail
      rw [cons_append, header_combineType (by decide)]
      rw [hcookie]
      exact scalarOf_append rfl
  by_cases hword : str.length < 0x10000
  · have hword' : (str.length : ℤ) < 0x10000 := by exact_mod_cast hword
    refine ⟨combineType typeLongString 2 :: (valueBytes 2 str.length ++ str), ?_, ?_, ?_⟩
    · simp only [scalarSize, if_neg hshort, if_pos hword, length_cons, length_append,
        length_valueBytes]
      omega
    · simp only [wbString, htake, Nat.cast_lt, if_neg hshort, if_pos hword']
      exact wbString_long
    · intro tail
      have hlength : leNat (valueBytes 2 str.length) = str.length := leNat_length (by omega)
      rw [cons_append, header_combineType (by decide), append_assoc,
        headerOf_word (cut_append (length_valueBytes 2 _)), hlength]
      exact scalarOf_append rfl
  · have hword' : ¬(str.length : ℤ) < 0x10000 := by exact_mod_cast hword
    refine ⟨combineType typeLongString 4 :: (valueBytes 4 str.length ++ str), ?_, ?_, ?_⟩
    · simp only [scalarSize, if_neg hshort, if_neg hword, length_cons, length_append,
        length_valueBytes]
      omega
    · simp only [wbString, htake, Nat.cast_lt, if_neg hshort, if_neg hword']
      exact wbString_long
    · intro tail
      have hlength : leNat (valueBytes 4 str.length) = str.length := leNat_length (by omega)
      rw [cons_append, header_combineType (by decide), append_assoc,
        headerOf_dword (cut_append (length_valueBytes 4 _)) (hlength.trans_lt h), hlength]
      exact scalarOf_append rfl

/-- **A scalar is read back** from what `pack_one` writes. -/
theorem packScalar_writes {v : Scalar} (h : ShortString v) : WritesScalar (packScalar · v) v := by
  cases v with
  | nil => exact wbNil_writes
  | boolean x => exact wbBoolean_writes x
  | integer x => exact wbInteger_writes x
  | real d => exact wbReal_writes d
  | lightuserdata x => exact wbPointer_writes x
  | string str => exact wbString_writes h

/-- A range that `wb_push` can be given: its size is an `int`. -/
abbrev Pushed : Type := { buf : Bytes // buf.length < 2 ^ 31 }

/-- The chain of blocks after a sequence of `wb_push`. -/
def pushAllBlocks (bufs : List Pushed) : WriteBlock :=
  bufs.foldl (fun b buf => wbPush b buf.1) .init

def pushedBytes (bufs : List Pushed) : Bytes := bufs.flatMap (·.1)

/-- `seri` copies exactly what was pushed, and the length that it is given, and pushes to the
stack, is that of what was pushed. -/
def BlocksTransparent (bufs : List Pushed) : Prop :=
  seri (pushAllBlocks bufs) (pushAllBlocks bufs).len = .ok (pushedBytes bufs) ∧
    (pushAllBlocks bufs).len = (pushedBytes bufs).length

theorem pushAll_appends (bufs : List Pushed) :
    Appends (fun b => bufs.foldl (fun b buf => wbPush b buf.1) b) (pushedBytes bufs) := by
  induction bufs with
  | nil => exact fun b => ⟨(List.append_nil _).symm, id⟩
  | cons buf bufs ih => exact (wbPush_appends buf.1).comp ih

theorem pushAllBlocks_written (bufs : List Pushed) :
    written (pushAllBlocks bufs) = pushedBytes bufs ∧ ByteCounted (pushAllBlocks bufs) := by
  obtain ⟨hwritten, hcounted⟩ := pushAll_appends bufs .init
  have hstart : ByteCounted WriteBlock.init := by
    unfold ByteCounted toInt32
    decide
  exact ⟨hwritten, hcounted hstart⟩

/-- An `int` does not count more bytes than it can hold. -/
theorem len_ne_of_wide {bufs : List Pushed} (h : 2 ^ 31 ≤ (pushedBytes bufs).length) :
    (pushAllBlocks bufs).len ≠ (pushedBytes bufs).length := by
  obtain ⟨hwritten, hcounted⟩ := pushAllBlocks_written bufs
  have hbound := (toInt32_bounds (pushedBytes bufs).length).2
  rw [hcounted, hwritten]
  omega

/-- **The block writer is transparent** exactly for totals below 2^31 bytes. -/
theorem blocks_transparent_iff (bufs : List Pushed) :
    BlocksTransparent bufs ↔ (pushedBytes bufs).length < 2 ^ 31 := by
  obtain ⟨hwritten, hcounted⟩ := pushAllBlocks_written bufs
  constructor
  · intro h
    by_contra hwide
    exact len_ne_of_wide (Nat.le_of_not_lt hwide) h.2
  · intro hlt
    rw [← hwritten] at hlt
    refine ⟨hwritten ▸ seri_eq hcounted hlt, ?_⟩
    rw [hcounted, hwritten, toInt32_of_lt (hwritten ▸ hlt)]

/-- Two ranges of `n` bytes each. -/
def twoRanges (n : ℕ) (h : n < 2 ^ 31) : List Pushed :=
  List.replicate 2 ⟨List.replicate n 0, by rwa [List.length_replicate]⟩

theorem pushedBytes_twoRanges {n : ℕ} (h : n < 2 ^ 31) :
    (pushedBytes (twoRanges n h)).length = 2 * n := by
  simp [twoRanges, pushedBytes, Nat.two_mul]

/-- Two ranges of 2^30 bytes are counted as a negative number. -/
theorem wide_total_not_copied : ¬ BlocksTransparent (twoRanges (2 ^ 30) (by decide)) := by
  intro h
  refine len_ne_of_wide ?_ h.2
  rw [pushedBytes_twoRanges]
  decide

end Skynet.Analysis
