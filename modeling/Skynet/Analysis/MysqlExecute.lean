import Skynet.Analysis.LuaSeriReader
import Skynet.Model.Mysql

/-!
# The parameters of a statement reach the server

A server cuts the packet of `COM_STMT_EXECUTE` into the fields of its layout and reads the values
that the bitmap does not call NULL.  It gets the arguments, whatever they are, unless the last of
them is nil: then `#args` is less than their number, and the list is refused.
-/

namespace Skynet.Analysis

open Library Model Model.Mysql List

/-! ## What the server reads -/

inductive SqlValue where
  | null
  | tiny (b : UInt8)
  | bigint (n : BitVec 64)
  | double (d : BitVec 64)
  | text (s : Bytes)

/-- The value of an argument: a double that is an integer is that integer. -/
def sqlValue : Scalar → SqlValue
  | .boolean b => .tiny (if b then 1 else 0)
  | .integer n => .bigint n
  | .real d => (toInteger d).elim (.double d) .bigint
  | .string s => .text s
  | _ => .null

def lengthCoded : Bytes → Option (ℕ × Bytes)
  | [] => none
  | b :: s =>
    if b < 0xfb then some (b.toNat, s)
    else if b = 0xfc then (cut 2 s).map fun p => (leNat p.1, p.2)
    else if b = 0xfd then (cut 3 s).map fun p => (leNat p.1, p.2)
    else if b = 0xfe then (cut 8 s).map fun p => (leNat p.1, p.2)
    else none

def readValue (typ : ℕ) (s : Bytes) : Option (SqlValue × Bytes) :=
  match typ with
  | 0x01 => (cut 1 s).map fun p => (.tiny (UInt8.ofNat (leNat p.1)), p.2)
  | 0x05 => (cut 8 s).map fun p => (.double (BitVec.ofNat 64 (leNat p.1)), p.2)
  | 0x08 => (cut 8 s).map fun p => (.bigint (BitVec.ofNat 64 (leNat p.1)), p.2)
  | 0x0f => do
    let (n, s) ← lengthCoded s
    let (text, s) ← cut n s
    some (.text text, s)
  | _ => none

/-- The values of the columns that are not NULL, each with its type. -/
def readValues : List (Bool × ℕ) → Bytes → Option (List SqlValue × Bytes)
  | [], s => some ([], s)
  | (true, _) :: cols, s => do
    let (vs, s) ← readValues cols s
    some (.null :: vs, s)
  | (false, typ) :: cols, s => do
    let (v, s) ← readValue typ s
    let (vs, s) ← readValues cols s
    some (v :: vs, s)

/-- Whether parameter `i + 1` is NULL, and its type. -/
def columns (n : ℕ) (bitmap types : Bytes) : List (Bool × ℕ) := (range n).map fun i =>
    ((bitmap.getD (i / 8) 0).toNat.testBit (i % 8), leNat ((types.drop (2 * i)).take 2))

/-- `COM_STMT_EXECUTE` of a statement with `n` parameters, in one packet: the statement and the
values. -/
def readExecute (n : ℕ) (packet : Bytes) : Option (ℕ × List SqlValue) := do
  let (size, s) ← cut 3 packet
  let (number, s) ← cut 1 s
  guard (leNat size = s.length ∧ leNat size < 2 ^ 24 - 1 ∧ number = [0])
  let (command, s) ← cut 1 s
  let (id, s) ← cut 4 s
  let (flags, s) ← cut 1 s
  let (iterations, s) ← cut 4 s
  guard (command = [0x17] ∧ flags = [0] ∧ leNat iterations = 1)
  let (bitmap, s) ← cut ((n + 7) / 8) s
  let (bound, s) ← cut (min n 1) s
  guard (bound = replicate (min n 1) 1)
  let (types, s) ← cut (2 * n) s
  let (vs, s) ← readValues (columns n bitmap types) s
  guard (s = [])
  some (leNat id, vs)

/-! ## The argument is of a type that MySQL has, and the packet allows it -/

def IsParameter : Scalar → Prop
  | .lightuserdata _ => False
  | _ => True

def valueSize : Scalar → ℕ
  | .boolean _ => 1
  | .integer _ => 8
  | .real _ => 8
  | .string s => s.length + if s.length < 251 then 1 else if s.length < 2 ^ 16 then 3 else
      if s.length < 2 ^ 24 then 4 else 9
  | _ => 0

/-- The size of the packet without its header. -/
def executeSize (args : List Scalar) : ℕ :=
  10 + (args.length + 7) / 8 + min args.length 1 + 2 * args.length + (args.map valueSize).sum

/-- The list is not refused, and the server gets the statement and the arguments. -/
def ParametersSurvive (stmt : Statement) (args : List Scalar) : Prop :=
  ∃ packet, composeStmtExecute stmt cursorTypeNoCursor args = .ok packet ∧
    readExecute stmt.param_count.toNat packet = some (stmt.prepare_id.toNat, args.map sqlValue)

theorem binsearch_lt (args : List Scalar) {i j : ℕ} (h : i < j) : binsearch args i j < j := by
  fun_induction binsearch args i j with
  | case1 i j hlt hnil ih => have := ih (by omega); omega
  | case2 i j hlt hsome ih => exact ih (by omega)
  | case3 i j hle => exact h

theorem argAt_length (args : List Scalar) : argAt args args.length = args.getLast?.getD .nil := by
  rw [argAt, getD_eq_getElem?_getD, getLast?_eq_getElem?]

theorem getn_eq_length_iff (args : List Scalar) :
    getn args = args.length ↔ args = [] ∨ args.getLast? ≠ some .nil := by
  obtain rfl | ⟨args, v, rfl⟩ := eq_nil_or_concat args
  · simp [getn]
  · rw [concat_eq_append]
    have hlast : argAt (args ++ [v]) (args ++ [v]).length = v := by rw [argAt_length]; simp
    have hpos : 0 < (args ++ [v]).length := by simp
    rw [getn, hlast, getLast?_concat]
    simp only [hpos, true_and, append_eq_nil_iff, cons_ne_self, and_false, false_or,
      ne_eq, Option.some.injEq]
    constructor
    · rintro h rfl
      rw [if_pos rfl] at h
      split at h
      · omega
      · exact absurd h (binsearch_lt _ hpos).ne
    · intro h
      rw [if_neg h]

section
variable {args : List Scalar} {argNum : ℕ}

theorem nullByte_bits (f k : ℕ) :
    (nullByte args argNum f k).2 = f + k ∧ ∀ j, (nullByte args argNum f k).1.testBit j =
      decide (j < k ∧ f + j < argNum ∧ argAt args (f + j) = .nil) := by
  induction k with
  | zero => simp [nullByte]
  | succ k ih =>
    obtain ⟨hindex, hbits⟩ := ih
    unfold nullByte at hindex hbits ⊢
    rw [range_succ, foldl_append, foldl_cons, foldl_nil]
    generalize List.foldl _ (0, f) (range k) = r at hindex hbits ⊢
    refine ⟨by rw [hindex]; rfl, fun j => ?_⟩
    have hbit : ∀ b : ℕ, (b ||| (1 <<< k)).testBit j = (b.testBit j || decide (k = j)) := fun b => by
      rw [Nat.testBit_or, Nat.one_shiftLeft, Nat.testBit_two_pow]
    rw [hindex]
    by_cases hj : j = k
    · subst hj
      split_ifs with hlt hnil <;> simp_all
    · have hle : j < k + 1 ↔ j < k := by omega
      split_ifs <;> simp [hbit, hbits, hle, Ne.symm hj]

theorem nullMap_eq (c : ℕ) :
    nullMap args argNum c = ((range c).map fun i =>
      UInt8.ofNat (nullByte args argNum (1 + 8 * i) 8).1, 1 + 8 * c) := by
  induction c with
  | zero => rfl
  | succ c ih =>
    unfold nullMap at ih ⊢
    rw [range_succ, foldl_append, ih, foldl_cons, foldl_nil, map_append, (nullByte_bits _ _).1]
    rfl

end

/-- **The bitmap** tells which arguments are nil. -/
theorem nullMap_bit {args : List Scalar} (hlast : args.getLast? ≠ some .nil) {i : ℕ}
    (hi : i < args.length) :
    ((nullMap args args.length ((args.length + 7) / 8)).1.getD (i / 8) 0).toNat.testBit (i % 8) =
      decide (args[i] = .nil) := by
  have hbyte : i / 8 < (args.length + 7) / 8 := by omega
  have harg : argAt args (1 + 8 * (i / 8) + i % 8) = args[i] := by
    rw [argAt, show 1 + 8 * (i / 8) + i % 8 - 1 = i by omega]
    exact getD_eq_getElem _ _ hi
  have hend : args[i] = .nil → i + 1 < args.length := fun hnil => by
    by_contra hge
    rw [getLast?_eq_getElem?, show args.length - 1 = i by omega,
      getElem?_eq_getElem hi, hnil] at hlast
    exact hlast rfl
  rw [nullMap_eq, getD_eq_getElem _ _ (by simpa using hbyte), getElem_map,
    getElem_range, UInt8.toNat_ofNat', Nat.testBit_mod_two_pow, (nullByte_bits _ _).2, harg]
  have h8 : i % 8 < 8 := by omega
  simp only [h8, decide_true, true_and, Bool.true_and, decide_eq_decide]
  exact ⟨And.right, fun hnil => ⟨by have := hend hnil; omega, hnil⟩⟩

/-! ## Values -/

/-- Lua writes the lengths as the server reads them. -/
theorem lengthCoded_setLengthCodedBin {n : ℕ} (h : n < 2 ^ 64) (s : Bytes) :
    lengthCoded (setLengthCodedBin n ++ s) = some (n, s) := by
  have hmap : ∀ k, n < 256 ^ k →
      (cut k (leBytes k n ++ s)).map (fun p => (leNat p.1, p.2)) = some (n, s) := fun k hk => by
    rw [cut_append (length_leBytes k n), Option.map_some, leNat_leBytes_of_lt hk]
  unfold setLengthCodedBin
  split_ifs with h1 h2 h3
  · have hb : (UInt8.ofNat n).toNat = n := by rw [UInt8.toNat_ofNat']; omega
    have hlt : UInt8.ofNat n < 0xfb := by rw [UInt8.lt_iff_toNat_lt, hb]; exact h1
    rw [singleton_append, lengthCoded, if_pos hlt, hb]
  · exact hmap 2 h2
  · exact hmap 3 h3
  · exact hmap 8 h

theorem length_setLengthCodedBin (n : ℕ) : (setLengthCodedBin n).length =
    if n < 251 then 1 else if n < 2 ^ 16 then 3 else if n < 2 ^ 24 then 4 else 9 := by
  simp only [setLengthCodedBin, Nat.one_shiftLeft]
  split_ifs <;> simp

theorem ofNat_leBytes_toNat (n : BitVec 64) : BitVec.ofNat 64 (leNat (leBytes 8 n.toNat)) = n := by
  rw [leNat_leBytes_of_lt n.isLt, BitVec.ofNat_toNat, BitVec.setWidth_eq]

/-- What is stored of an argument has the size of its layout, and reads back. -/
theorem storeTypes_reads {v : Scalar} (hv : IsParameter v) (hsize : valueSize v < 2 ^ 24) :
    ∃ typ vs, storeTypes v = some (leBytes 2 typ, vs) ∧ typ < 2 ^ 16 ∧ vs.length = valueSize v ∧
      (v = .nil → vs = [] ∧ sqlValue v = .null) ∧
      (v ≠ .nil → ∀ s, readValue typ (vs ++ s) = some (sqlValue v, s)) := by
  have hnumber (n : BitVec 64) (s : Bytes) : cut 8 (leBytes 8 n.toNat ++ s) = _ :=
    cut_append (length_leBytes 8 _)
  cases v with
  | nil => exact ⟨0x06, [], rfl, by decide, rfl, fun _ => ⟨rfl, rfl⟩, fun h => absurd rfl h⟩
  | boolean b =>
    refine ⟨0x01, _, rfl, by decide, rfl, by rintro ⟨⟩, fun _ s => ?_⟩
    cases b <;> simp [readValue, cut, sqlValue, leNat]
  | integer n =>
    refine ⟨0x08, _, rfl, by decide, length_leBytes 8 _, by rintro ⟨⟩, fun _ s => ?_⟩
    rw [readValue, hnumber, Option.map_some, ofNat_leBytes_toNat]
    rfl
  | real d =>
    cases hd : toInteger d with
    | none =>
      refine ⟨0x05, leBytes 8 d.toNat, by rw [storeTypes, hd], by decide, length_leBytes 8 _,
        by rintro ⟨⟩, fun _ s => ?_⟩
      rw [readValue, hnumber, Option.map_some, ofNat_leBytes_toNat, sqlValue, hd]
      rfl
    | some n =>
      refine ⟨0x08, leBytes 8 n.toNat, by rw [storeTypes, hd], by decide, length_leBytes 8 _,
        by rintro ⟨⟩, fun _ s => ?_⟩
      rw [readValue, hnumber, Option.map_some, ofNat_leBytes_toNat, sqlValue, hd]
      rfl
  | lightuserdata p => exact hv.elim
  | string s =>
    refine ⟨0x0f, _, rfl, by decide, ?_, by rintro ⟨⟩, fun _ t => ?_⟩
    · rw [length_append, length_setLengthCodedBin, Nat.add_comm, valueSize]
    · have hlen : s.length < 2 ^ 64 := by simp only [valueSize] at hsize; omega
      simp only [readValue, append_assoc, lengthCoded_setLengthCodedBin hlen, sqlValue,
        cut_append (rfl : s.length = s.length), Option.bind_eq_bind, Option.bind_some]

/-- The loop over the arguments: the types are in pairs of bytes, and with them the values
read back. -/
theorem storeArgs_reads (args : List Scalar) (hkind : ∀ v ∈ args, IsParameter v)
    (hsize : (args.map valueSize).sum < 2 ^ 24) : ∃ (typs : List ℕ) (vs : Bytes),
      typs.length = args.length ∧ (∀ typ ∈ typs, typ < 2 ^ 16) ∧
      vs.length = (args.map valueSize).sum ∧
      (∀ ts vs', storeArgs args ts vs' = .ok (ts ++ typs.flatMap (leBytes 2), vs' ++ vs)) ∧
      ∀ s, readValues (zip (args.map fun v => decide (v = .nil)) typs) (vs ++ s) =
        some (args.map sqlValue, s) := by
  induction args with
  | nil => exact ⟨[], [], rfl, nofun, rfl, fun ts vs' => by simp [storeArgs], fun s => rfl⟩
  | cons v args ih =>
    rw [map_cons, sum_cons] at hsize
    obtain ⟨typs, vs, hlen, htyps, hvs, hstore, hread⟩ := ih
      (fun w hw => hkind w (mem_cons_of_mem _ hw)) (by omega)
    obtain ⟨typ, bytes, hv, htyp, hbytes, hnil, hsome⟩ :=
      storeTypes_reads (hkind v mem_cons_self) (by omega)
    refine ⟨typ :: typs, bytes ++ vs, by simp [hlen], by simpa using ⟨htyp, htyps⟩,
      by simp [hbytes, hvs], fun ts vs' => ?_, fun s => ?_⟩
    · simp [storeArgs, hv, hstore]
    · rw [map_cons, zip_cons_cons, append_assoc]
      by_cases h : v = .nil
      · obtain ⟨rfl, hnull⟩ := hnil h
        rw [h] at hnull
        simp [readValues, h, hread, hnull]
      · simp [readValues, h, hsome h, hread]

theorem take_drop_flatMap (typs : List ℕ) {i : ℕ} (hi : i < typs.length) :
    ((typs.flatMap (leBytes 2)).drop (2 * i)).take 2 = leBytes 2 typs[i] := by
  induction typs generalizing i with
  | nil => cases hi
  | cons typ typs ih =>
    cases i with
    | zero => simp [leBytes]
    | succ i =>
      rw [flatMap_cons, show 2 * (i + 1) = (leBytes 2 typ).length + 2 * i by simp; omega,
        ← drop_drop, drop_left, getElem_cons_succ]
      exact ih (by simpa using hi)

/-! ## The packet -/

theorem columns_eq {args : List Scalar} (hlast : args.getLast? ≠ some .nil) {typs : List ℕ}
    (hlen : typs.length = args.length) (htyps : ∀ typ ∈ typs, typ < 2 ^ 16) :
    columns args.length (nullMap args args.length ((args.length + 7) / 8)).1
        (typs.flatMap (leBytes 2)) =
      zip (args.map fun v => decide (v = .nil)) typs := by
  apply ext_getElem (by simp [columns, hlen])
  intro i hi _
  have hi : i < args.length := by simpa [columns] using hi
  simp only [columns, getElem_map, getElem_range, getElem_zip, nullMap_bit hlast hi]
  rw [take_drop_flatMap typs (hlen ▸ hi), leNat_leBytes_of_lt (htyps _ (getElem_mem _))]

/-- A server that is sent the fields of the layout reads them. -/
theorem readExecute_fields {n id : ℕ} {bitmap types values : Bytes} {vs : List SqlValue}
    (hid : id < 2 ^ 32) (hbitmap : bitmap.length = (n + 7) / 8) (htypes : types.length = 2 * n)
    (hvalues : readValues (columns n bitmap types) values = some (vs, []))
    (hsize : 10 + (n + 7) / 8 + min n 1 + 2 * n + values.length < 2 ^ 24 - 1) :
    ∃ packet, composePacket (-1) (comStmtExecute :: leBytes 4 id ++
        cursorTypeNoCursor :: leBytes 4 0x01 ++ bitmap ++ replicate (min n 1) 1 ++ types ++
        values) = .ok packet ∧ readExecute n packet = some (id, vs) := by
  generalize hreq : comStmtExecute :: leBytes 4 id ++ _ ++ _ ++ _ ++ _ ++ values = req
  have hlen : req.length = 10 + (n + 7) / 8 + min n 1 + 2 * n + values.length := by
    simp [← hreq, hbitmap, htypes]
    omega
  refine ⟨_, if_pos (by omega), ?_⟩
  have hcons (b : UInt8) (s : Bytes) : cut 1 (b :: s) = some ([b], s) := by simp [cut]
  have hle (k m : ℕ) (s : Bytes) : cut k (leBytes k m ++ s) = some (leBytes k m, s) :=
    cut_append (length_leBytes k m)
  have hbound (s : Bytes) : cut (min n 1) (replicate (min n 1) 1 ++ s) = _ :=
    cut_append List.length_replicate
  have hframe : leNat (leBytes 3 req.length) = req.length := leNat_leBytes_of_lt (by omega)
  have hnumber : UInt8.ofNat (-1 + 1 : ℤ).toNat = 0 := rfl
  have hstmt : leNat (leBytes 4 id) = id := leNat_leBytes_of_lt (by omega)
  have hone : leNat (leBytes 4 0x01) = 1 := rfl
  have hlt : req.length < 2 ^ 24 - 1 := by omega
  simp only [readExecute, append_assoc, singleton_append, hle, hcons, hframe, hnumber,
    Option.bind_eq_bind, Option.bind_some, hlt, and_self, guard, if_true, Option.pure_def]
  simp only [← hreq, append_assoc, cons_append, hcons, hle, cut_append hbitmap, hbound,
    cut_append htypes, hvalues, hone, and_self, if_true, Option.bind_some, hstmt]

/-- **Parameters survive the wire** exactly if there are none or the last is not nil. -/
theorem parameters_survive_iff (stmt : Statement) (args : List Scalar)
    (hcount : args.length = stmt.param_count.toNat) (hkind : ∀ v ∈ args, IsParameter v)
    (hsize : executeSize args < 2 ^ 24 - 1) :
    ParametersSurvive stmt args ↔ args = [] ∨ args.getLast? ≠ some .nil := by
  rw [← getn_eq_length_iff]
  constructor
  · rintro ⟨packet, hok, -⟩
    by_contra hne
    rw [composeStmtExecute, if_pos (fun h => hne (h.trans hcount.symm))] at hok
    cases hok
  · intro hgetn
    have hlast : args.getLast? ≠ some .nil := by
      obtain rfl | h := (getn_eq_length_iff args).mp hgetn
      · nofun
      · exact h
    have hsum : (args.map valueSize).sum < 2 ^ 24 := by unfold executeSize at hsize; omega
    obtain ⟨typs, vs, hlen, htyps, hvs, hstore, hread⟩ := storeArgs_reads args hkind hsum
    have hcols := columns_eq hlast hlen htyps ▸ hread []
    obtain ⟨packet, hpacket, hreads⟩ := readExecute_fields stmt.prepare_id.isLt
      (by rw [nullMap_eq]; simp) (by simp [hlen, Nat.mul_comm]) (append_nil vs ▸ hcols)
      (by rw [hvs]; exact hsize)
    refine ⟨packet, ?_, hcount ▸ hreads⟩
    rw [composeStmtExecute, if_neg (fun h => h (hgetn.trans hcount)), hgetn, take_length,
      hstore [] []]
    cases args with
    | nil =>
      obtain rfl := eq_nil_of_length_eq_zero hlen
      obtain rfl := eq_nil_of_length_eq_zero hvs
      exact hpacket
    | cons v args =>
      rw [show min (v :: args).length 1 = 1 by simp] at hpacket
      exact hpacket

/-- Two arguments with a nil between them. -/
theorem parameters_survive_three : ParametersSurvive ⟨1, 3⟩ [.boolean true, .nil, .string [104]] :=
  (parameters_survive_iff _ _ rfl (by simp [IsParameter]) (by decide)).mpr (.inr (by decide))

/-- One argument, and it is nil. -/
theorem last_nil_is_refused : composeStmtExecute ⟨1, 1⟩ cursorTypeNoCursor [.nil] =
      .error "require stmt.param_count 1 get arg_num 0" ∧
    ¬ParametersSurvive ⟨1, 1⟩ [.nil] := by
  have hgetn : getn [.nil] = 0 := by simp [getn, argAt, binsearch]
  have hrefused : composeStmtExecute ⟨1, 1⟩ cursorTypeNoCursor [.nil] =
      .error "require stmt.param_count 1 get arg_num 0" := by
    rw [composeStmtExecute, hgetn]
    rfl
  refine ⟨hrefused, ?_⟩
  rintro ⟨packet, hok, -⟩
  rw [hrefused] at hok
  cases hok

end Skynet.Analysis
