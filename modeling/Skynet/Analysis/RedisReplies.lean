import Mathlib.Data.List.ReduceOption
import Mathlib.Data.List.TakeWhile
import Skynet.Analysis.LuaSeriReader
import Skynet.Library.Frames
import Skynet.Model.Redis

/-!
# The redis client stays in step with the server

A request has a line end before each of its strings and one at the end, where the protocol has one
behind each.  The reader of a reply takes the bytes of the reply, also where a part is an error.
-/

namespace Skynet.Analysis

open Library Model Redis RedisOp List Resp

variable {s text rest : Bytes} {fuel n : ℕ} {l : List (Option Bytes)}

/-! ## Requests -/

def requestLines (count : ℕ) (l : List (Option Bytes)) : Bytes :=
  countCache count ++ (l.map elementLines).flatten ++ crlf

def elementResp : Option Bytes → Resp
  | some text => .bulk text
  | none => .nilBulk

theorem request_eq (l : List (Option Bytes)) : Resp.request l = .array (l.map elementResp) := by
  congr 1

theorem elementLines_shift (l : List (Option Bytes)) :
    (l.map elementLines).flatten ++ crlf = crlf ++ encodeAll (l.map elementResp) := by
  induction l with
  | nil => rfl
  | cons e l ih =>
    have hone : elementLines e ++ crlf = crlf ++ (elementResp e).encode := by
      cases e with
      | none => rfl
      | some text => simp [elementLines, headerCache, elementResp, encode, Resp.line, crlf]
    rw [map_cons, flatten_cons, append_assoc, ih, ← append_assoc, hone,
      append_assoc, map_cons, encodeAll]

theorem requestLines_eq (l : List (Option Bytes)) :
    requestLines l.length l = (Resp.request l).encode := by
  rw [requestLines, append_assoc, elementLines_shift, request_eq, encode, length_map]
  simp [countCache, Resp.line, crlf]

theorem upper_length (s : Bytes) : (upper s).length = s.length := length_map ..

theorem commandCache_eq (cmd : Bytes) : commandCache cmd = elementLines (some (upper cmd)) := by
  simp [commandCache, elementLines, headerCache, upper_length]

theorem composeMessage_nil (cmd : Bytes) :
    composeMessage cmd .nil = requestLines 1 [some (upper cmd)] := by
  simp [composeMessage, commandNpCache, requestLines, countCache, commandCache_eq, decimalBytes]

theorem composeMessage_string (cmd v : Bytes) :
    composeMessage cmd (.string v) = requestLines 2 [some (upper cmd), some v] := by
  simp [composeMessage, requestLines, countCache, commandCache_eq, decimalBytes, elementLines]

theorem composeMessage_table (cmd : Bytes) (get : ℕ → Option Bytes) (n : ℕ) :
    composeMessage cmd (.table get n) = requestLines (n + 1)
      (some (upper cmd) :: (range n).map fun i => get (i + 1)) := by
  simp [composeMessage, requestLines, commandCache_eq, Function.comp_def]

theorem requestLines_lt {more : List (Option Bytes)} (hmore : more ≠ [])
    {count : ℕ} (hcount : count ≤ (l ++ more).length) :
    (requestLines count l).length < (Resp.request (l ++ more)).encode.length := by
  have hdigits := decimalBytes_length_le hcount
  have hpos : 0 < ((more.map elementLines).flatten).length := by
    cases more with
    | nil => exact absurd rfl hmore
    | cons e more =>
      have hlen : 0 < (elementLines e).length := by
        cases e with
        | none => decide
        | some text => simp [elementLines, headerCache, crlf]
      rw [map_cons, flatten_cons, length_append]
      omega
  rw [← requestLines_eq, requestLines, requestLines]
  simp only [length_append, countCache, length_cons, map_append, flatten_append] at hdigits hpos ⊢
  omega

/-! ## Tables -/

theorem index_map_range (t : RedisList) (h : n ≤ t.entries.length) :
    (range n).map (fun i => Redis.index t (i + 1)) = t.entries.take n := by
  refine ext_getElem? fun i => ?_
  rw [getElem?_map, getElem?_take]
  by_cases hi : i < n
  · rw [if_pos hi, getElem?_range hi, getElem?_eq_getElem (Nat.lt_of_lt_of_le hi h)]
    simp [Redis.index, getElem?_eq_getElem (Nat.lt_of_lt_of_le hi h)]
  · rw [if_neg hi, getElem?_eq_none (by simpa using hi)]
    rfl

theorem border_le (t : RedisList) : t.border ≤ t.entries.length := by
  rcases t.isBorder.1 with hzero | hsome
  · omega
  · by_contra hlt
    rw [getElem?_eq_none (by omega)] at hsome
    exact hsome rfl

theorem ipairs_eq (t : RedisList) :
    (ipairs t).map (fun v => headerCache v.length ++ v)
      = (t.entries.takeWhile Option.isSome).map elementLines := by
  unfold ipairs
  have hsome : ∀ e ∈ t.entries.takeWhile Option.isSome, e.isSome = true :=
    fun e he => mem_takeWhile_imp he
  generalize t.entries.takeWhile Option.isSome = l at hsome
  induction l with
  | nil => rfl
  | cons e l ih =>
    obtain ⟨v, rfl⟩ := Option.isSome_iff_exists.mp (hsome e mem_cons_self)
    rw [reduceOption_cons_of_some, map_cons, map_cons,
      ih fun e he => hsome e (mem_cons_of_mem _ he)]
    rfl

theorem composeTable_eq (t : RedisList) :
    composeTable t = requestLines t.border (t.entries.takeWhile Option.isSome) := by
  rw [composeTable, ipairs_eq, requestLines]

theorem border_eq (t : RedisList) (h : none ∉ t.entries) : t.border = t.entries.length := by
  refine Nat.le_antisymm (border_le t) ?_
  by_contra hlt
  have hlt : t.border < t.entries.length := Nat.not_le.mp hlt
  have hborder := t.isBorder.2
  rw [getElem?_eq_getElem hlt] at hborder
  exact h (hborder ▸ getElem_mem hlt)

theorem takeWhile_isSome_eq (t : RedisList) :
    t.entries.takeWhile Option.isSome = t.entries ↔ none ∉ t.entries := by
  rw [takeWhile_eq_self_iff]
  constructor
  · exact fun h hmem => nomatch h none hmem
  · intro h e he
    cases e with
    | none => exact absurd he h
    | some v => rfl

/-! ## What is written -/

def tableArguments (t : RedisList) : Option ℕ → List (Option Bytes)
  | none => t.entries
  | some n => (range n).map fun i => Redis.index t (i + 1)

def elements : RedisOp → List (List (Option Bytes))
  | .call name args => [some (upper name) :: args]
  | .callTable name t n => [some (upper name) :: tableArguments t n]
  | .exists key => [[some existsName, key]]
  | .existsTable t n => [some existsName :: tableArguments t n]
  | .sismember key value => [[some sismemberName, key, value]]
  | .pipeline ops _ => ops.map RedisList.entries

def requestBytes (op : RedisOp) : Bytes :=
  ((elements op).map fun l => (Resp.request l).encode).flatten

/-- No argument is left out: the first one of a call is not `nil`, the border of a table is at its
last entry where its length is not given, and an operation of a pipeline has no holes. -/
def KeepsArguments : RedisOp → Prop
  | .call _ args => args.head? ≠ some none
  | .callTable _ t n | .existsTable t n => n = none → t.border = t.entries.length
  | .exists key => key ≠ none
  | .sismember _ _ => True
  | .pipeline ops _ => ∀ t ∈ ops, none ∉ t.entries

theorem lines_keep (l more : List (Option Bytes)) {count : ℕ}
    (hcount : count ≤ (l ++ more).length) (hsame : more = [] → count = l.length) :
    (requestLines count l = (Resp.request (l ++ more)).encode ↔ more = [])
      ∧ (requestLines count l = (Resp.request (l ++ more)).encode
        ∨ (requestLines count l).length < (Resp.request (l ++ more)).encode.length) := by
  by_cases hmore : more = []
  · have heq : requestLines count l = (Resp.request (l ++ more)).encode := by
      rw [hsame hmore, hmore, append_nil, requestLines_eq]
    exact ⟨iff_of_true heq hmore, .inl heq⟩
  · have hlt := requestLines_lt hmore hcount
    refine ⟨iff_of_false (fun heq => ?_) hmore, .inr hlt⟩
    rw [heq] at hlt
    exact Nat.lt_irrefl _ hlt

theorem composeTable_keep (t : RedisList) :
    (composeTable t = (Resp.request t.entries).encode ↔ none ∉ t.entries)
      ∧ (composeTable t = (Resp.request t.entries).encode
        ∨ (composeTable t).length < (Resp.request t.entries).encode.length) := by
  have hsplit : t.entries.takeWhile Option.isSome ++ t.entries.dropWhile Option.isSome
      = t.entries := takeWhile_append_dropWhile
  have hnil : t.entries.dropWhile Option.isSome = [] ↔ none ∉ t.entries := by
    rw [← takeWhile_isSome_eq]
    constructor
    · intro h
      rw [h, append_nil] at hsplit
      exact hsplit
    · intro h
      rw [h] at hsplit
      exact append_right_eq_self.mp hsplit
  have hcount : t.border
      ≤ (t.entries.takeWhile Option.isSome ++ t.entries.dropWhile Option.isSome).length := by
    rw [hsplit]
    exact border_le t
  have hkeep := lines_keep _ _ hcount fun h => by
    have hnone := hnil.mp h
    rw [(takeWhile_isSome_eq t).mpr hnone]
    exact border_eq t hnone
  rw [hsplit, hnil] at hkeep
  rw [composeTable_eq]
  exact hkeep

theorem upper_upper (s : Bytes) : upper (upper s) = upper s := by
  unfold upper
  rw [map_map]
  refine map_congr_left fun b _ => ?_
  simp only [Function.comp_apply]
  split
  · next h =>
    rw [if_neg]
    simp only [Bool.and_eq_true, decide_eq_true_eq, UInt8.le_iff_toNat_le, UInt8.toNat_sub] at h ⊢
    obtain ⟨hlow, hhigh⟩ := h
    change b.toNat ≤ 122 at hhigh
    change ¬ (97 ≤ (2 ^ 8 - 32 + b.toNat) % 2 ^ 8 ∧ (2 ^ 8 - 32 + b.toNat) % 2 ^ 8 ≤ 122)
    omega
  · rfl

/-- The bytes of a request are what they should be if and only if `p` holds, and shorter where they
are not. -/
def KeepsBytes (bytes expected : Bytes) (p : Prop) : Prop :=
  (bytes = expected ↔ p) ∧ (bytes = expected ∨ bytes.length < expected.length)

variable {bytes : Bytes}

theorem single_keep (l more : List (Option Bytes)) (p : Prop)
    {count : ℕ} (hbytes : bytes = requestLines count l) (hcount : count ≤ (l ++ more).length)
    (hsame : more = [] → count = l.length) (hp : p ↔ more = []) :
    KeepsBytes bytes [(Resp.request (l ++ more)).encode].flatten p := by
  rw [KeepsBytes, flatten_singleton, hbytes, hp]
  exact lines_keep l more hcount hsame

theorem table_keep (cmd : Bytes) (t : RedisList) (n : Option ℕ) :
    KeepsBytes (composeMessage cmd (.table (Redis.index t) (n.getD t.border)))
      [(Resp.request (some (upper cmd) :: tableArguments t n)).encode].flatten
      (n = none → t.border = t.entries.length) := by
  cases n with
  | some n =>
    have hbytes := composeMessage_table cmd (Redis.index t) n
    have hkeep := single_keep _ [] (some n = none → t.border = t.entries.length)
      hbytes (by simp) (fun _ => by simp) (iff_of_true nofun rfl)
    rw [append_nil] at hkeep
    exact hkeep
  | none =>
    have hbytes := composeMessage_table cmd (Redis.index t) t.border
    rw [index_map_range t (border_le t)] at hbytes
    have hsplit : some (upper cmd) :: t.entries.take t.border ++ t.entries.drop t.border
        = some (upper cmd) :: t.entries := by
      rw [cons_append, take_append_drop]
    have hle := border_le t
    have hkeep := single_keep _ (t.entries.drop t.border)
      (@none ℕ = none → t.border = t.entries.length) hbytes (by simp [hle])
      (fun _ => by simp [hle]) (by
        rw [drop_eq_nil_iff]
        exact ⟨fun h => (h rfl).ge, fun h _ => Nat.le_antisymm hle h⟩)
    rw [hsplit] at hkeep
    exact hkeep

theorem nil_keep (cmd : Bytes) (args : List (Option Bytes)) :
    KeepsBytes (composeMessage cmd .nil) [(Resp.request (some (upper cmd) :: args)).encode].flatten
      (args = []) :=
  single_keep [some (upper cmd)] args (args = []) (composeMessage_nil cmd) (by simp)
    (fun _ => rfl) Iff.rfl

theorem full_keep {l : List (Option Bytes)} {p : Prop}
    (hbytes : bytes = requestLines l.length l) (hp : p) :
    KeepsBytes bytes [(Resp.request l).encode].flatten p := by
  have hkeep := single_keep l [] p hbytes (by simp) (fun _ => rfl) (iff_of_true hp rfl)
  rw [append_nil] at hkeep
  exact hkeep

theorem tablePack_eq (cmd : Bytes) (args : List (Option Bytes)) :
    composeMessage cmd (tablePack args)
      = requestLines (some (upper cmd) :: args).length (some (upper cmd) :: args) := by
  rw [tablePack, composeMessage_table]
  congr 2
  refine ext_getElem? fun i => ?_
  rw [getElem?_map]
  by_cases hi : i < args.length
  · simp [hi]
  · rw [getElem?_eq_none (by simpa using hi), getElem?_eq_none (by simpa using hi)]
    rfl

theorem message_keep {op : RedisOp} (h : op.message = some bytes) :
    KeepsBytes bytes (requestBytes op) (KeepsArguments op) := by
  cases op with
  | call name args =>
    cases args with
    | nil =>
      cases h
      have hkeep := nil_keep (upper name) []
      rw [upper_upper] at hkeep
      exact ⟨hkeep.1.trans (iff_of_true rfl nofun), hkeep.2⟩
    | cons v rest =>
      cases v with
      | none =>
        cases h
        have hkeep := nil_keep (upper name) (none :: rest)
        rw [upper_upper] at hkeep
        exact ⟨hkeep.1.trans (iff_of_false nofun fun hne => hne rfl), hkeep.2⟩
      | some v =>
        cases h
        have hbytes := tablePack_eq (upper name) (some v :: rest)
        rw [upper_upper] at hbytes
        exact full_keep hbytes nofun
  | callTable name t n =>
    cases h
    have hkeep := table_keep (upper name) t n
    rw [upper_upper] at hkeep
    exact hkeep
  | «exists» key =>
    cases key with
    | none =>
      cases h
      have hkeep := nil_keep existsName [none]
      exact ⟨hkeep.1.trans (iff_of_false nofun fun hne => hne rfl), hkeep.2⟩
    | some key =>
      cases h
      exact full_keep (composeMessage_string existsName key) nofun
  | existsTable t n =>
    cases h
    exact table_keep existsName t n
  | sismember key value =>
    cases h
    exact full_keep (tablePack_eq sismemberName [key, value]) trivial
  | pipeline ops resp =>
    obtain ⟨-, h⟩ := Option.ite_none_left_eq_some.mp h
    cases h
    have heach : ∀ t ∈ ops, composeTable t = (Resp.request t.entries).encode
        ∨ (composeTable t).length < (Resp.request t.entries).encode.length :=
      fun t _ => (composeTable_keep t).2
    obtain ⟨hiff, hshort⟩ := flatten_eq_iff heach
    have hmap : requestBytes (.pipeline ops resp)
        = (ops.map fun t => (Resp.request t.entries).encode).flatten := by
      simp [requestBytes, elements, Function.comp_def]
    rw [KeepsBytes, hmap]
    exact ⟨hiff.trans (forall₂_congr fun t _ => (composeTable_keep t).1), hshort⟩

/-! ## Replies -/

theorem readline_line (h : 13 ∉ text) :
    readline (text ++ [13, 10] ++ rest) = some (text, rest) := by
  induction text with
  | nil => rfl
  | cons b text ih =>
    rw [mem_cons, not_or] at h
    have hne : b ≠ 13 := fun heq => h.1 heq.symm
    rw [cons_append, cons_append, readline, ih h.2]
    · rfl
    · exact fun _ heq _ => hne heq

theorem takeWhile_digits (n : ℕ) : (decimalBytes n).takeWhile decimalDigit = decimalBytes n :=
  takeWhile_eq_self_iff.mpr fun _ hb => decimalBytes_digits _ hb

theorem dropWhile_digits (n : ℕ) : (decimalBytes n).dropWhile decimalDigit = [] :=
  dropWhile_eq_nil_iff.mpr fun _ hb => decimalBytes_digits _ hb

theorem digit_range {b : UInt8} (h : decimalDigit b = true) : 48 ≤ b.toNat ∧ b.toNat ≤ 57 := by
  simp only [decimalDigit, Bool.and_eq_true, decide_eq_true_eq, UInt8.le_iff_toNat_le] at h
  exact h

theorem digit_ne {b : UInt8} (h : decimalDigit b = true) {v : ℕ} (hv : v < 48) (hlt : v < 256) :
    b ≠ UInt8.ofNat v := by
  rintro rfl
  have hrange := digit_range h
  rw [UInt8.toNat_ofNat', Nat.mod_eq_of_lt hlt] at hrange
  omega

theorem digit_not_space {b : UInt8} (h : decimalDigit b = true) : Redis.isSpace b = false := by
  have hrange := digit_range h
  simp only [Redis.isSpace, Bool.or_eq_false_iff, Bool.and_eq_false_iff, decide_eq_false_iff_not,
    UInt8.le_iff_toNat_le, ← UInt8.toNat_inj]
  refine ⟨?_, .inr ?_⟩
  · change ¬ b.toNat = 32
    omega
  · change ¬ b.toNat ≤ 13
    omega

theorem tonumber_digits (h : n < 2 ^ 63) : tonumber (decimalBytes n) = some (n : ℤ) := by
  obtain ⟨b, l, hl⟩ := exists_cons_of_ne_nil (decimalBytes_ne_nil n)
  have hb : decimalDigit b = true := decimalBytes_digits b (hl ▸ mem_cons_self)
  have hspace : (decimalBytes n).dropWhile Redis.isSpace = decimalBytes n := by
    rw [hl, dropWhile_cons_of_neg]
    rw [digit_not_space hb]
    nofun
  have hhead : (decimalBytes n).head? = some b := by rw [hl]; rfl
  have hminus : b ≠ 45 := digit_ne hb (show 45 < 48 by decide) (by decide)
  have hplus : b ≠ 43 := digit_ne hb (show 43 < 48 by decide) (by decide)
  simp only [tonumber, hspace, hhead, Option.some.injEq, hminus, hplus, or_self, if_false,
    takeWhile_digits, dropWhile_digits, dropWhile_nil, decimalValue_decimalBytes]
  rw [if_pos ⟨decimalBytes_ne_nil n, trivial, by omega, by exact_mod_cast h⟩]

theorem tonumber_minus {n : ℕ} (h : n ≤ 2 ^ 63) :
    tonumber (45 :: decimalBytes n) = some (-(n : ℤ)) := by
  have hspace : (45 :: decimalBytes n).dropWhile Redis.isSpace = 45 :: decimalBytes n := rfl
  simp only [tonumber, hspace, head?_cons, true_or, if_true, drop_one,
    tail_cons, takeWhile_digits, dropWhile_digits, dropWhile_nil,
    decimalValue_decimalBytes]
  rw [if_pos ⟨decimalBytes_ne_nil n, trivial, by omega, by omega⟩]

theorem tonumber_int {i : ℤ} (hlow : -2 ^ 63 ≤ i) (hhigh : i < 2 ^ 63) :
    tonumber (intBytes i) = some i := by
  unfold intBytes
  split
  · rw [tonumber_minus (by omega)]
    congr 1
    omega
  · rw [tonumber_digits (by omega)]
    congr 1
    omega

theorem int_no_line (i : ℤ) : 13 ∉ intBytes i := by
  have hdigits (n : ℕ) : 13 ∉ decimalBytes n := fun hmem =>
    absurd (decimalBytes_digits _ hmem) (by decide)
  unfold intBytes
  split
  · rw [mem_cons, not_or]
    exact ⟨by decide, hdigits _⟩
  · exact hdigits _

mutual

def replyValue : Resp → RedisValue
  | .status text | .error text | .bulk text => .string text
  | .integer i => .integer i
  | .nilBulk | .nilArray => .nil
  | .array l => .table (replyValues l)

def replyValues : List Resp → List RedisValue
  | [] => []
  | r :: l => replyValue r :: replyValues l

end

def replyResult (r : Resp) : Bool × RedisValue := (!r.failed, replyValue r)

theorem replyResults_fst (l : List Resp) : (l.map replyResult).all Prod.fst = !anyFailed l := by
  induction l with
  | nil => rfl
  | cons r l ih => rw [map_cons, all_cons, ih, anyFailed, Bool.not_or, replyResult]

theorem replyResults_snd (l : List Resp) : (l.map replyResult).map Prod.snd = replyValues l := by
  induction l with
  | nil => rfl
  | cons r l ih => rw [map_cons, map_cons, ih, replyValues, replyResult]

theorem line_append (c : UInt8) (text rest : Bytes) :
    Resp.line c text ++ rest = c :: text ++ [13, 10] ++ rest := by
  simp [Resp.line]

theorem readline_resp {c : UInt8} (hc : c ≠ 13) (h : 13 ∉ text) :
    readline (Resp.line c text ++ rest) = some (c :: text, rest) := by
  rw [line_append]
  refine readline_line ?_
  rw [mem_cons, not_or]
  exact ⟨hc.symm, h⟩

theorem decimal_no_line (n : ℕ) : 13 ∉ decimalBytes n := fun hmem =>
  absurd (decimalBytes_digits _ hmem) (by decide)

/-- A string that an `int` counts is read. -/
theorem read_append {a : Bytes} (rest : Bytes) (hpos : a ≠ [])
    (h : a.length < 2 ^ 31) : Redis.read a.length (a ++ rest) = some (a, rest) := by
  have hpos := length_pos_of_ne_nil hpos
  rw [Redis.read, toInt32_of_lt h, Int.toNat_natCast, if_pos ⟨by omega, by simp⟩]
  simp

theorem read_bulk {text : Bytes} (rest : Bytes) (h : text.length + 2 < 2 ^ 31) :
    Redis.read ((text.length : ℤ) + 2) (text ++ [13, 10] ++ rest)
      = some (text ++ [13, 10], rest) := by
  have hlength : (text ++ [13, 10]).length = text.length + 2 := length_append
  have hread := read_append (a := text ++ [13, 10]) rest (by simp) (by rwa [hlength])
  rwa [hlength, Nat.cast_add] at hread

mutual

/-- A reply is read if its depth has room on the stack, by induction on the reply. -/
theorem readResponse_encode : (r : Resp) → r.WellFormed → ∀ {levels : ℕ} {rest : Bytes},
    r.depth ≤ levels → readResponse levels (r.encode ++ rest) = some (replyResult r, rest)
  | .status text, h, levels + 1, rest, _ => by
    rw [readResponse, encode, readline_resp (by decide) h]
    rfl
  | .error text, h, levels + 1, rest, _ => by
    rw [readResponse, encode, readline_resp (by decide) h]
    rfl
  | .integer i, h, levels + 1, rest, _ => by
    rw [readResponse, encode, readline_resp (by decide) (int_no_line i)]
    simp only [Option.bind_eq_bind, Option.bind_some, tonumber_int h.1 h.2]
    rfl
  | .bulk text, h, levels + 1, rest, _ => by
    rw [Resp.WellFormed] at h
    have hread := read_bulk rest h
    have hlong : text.length < 2 ^ 63 := by omega
    rw [readResponse, encode, append_assoc, append_assoc,
      readline_resp (by decide) (decimal_no_line _), ← append_assoc,
      Option.bind_eq_bind, Option.bind_some]
    change (tonumber (decimalBytes text.length)).bind _ = _
    rw [tonumber_digits hlong, Option.bind_some, if_neg (by omega), hread, Option.bind_some]
    simp [replyResult, replyValue, Resp.failed]
  | .nilBulk, _, levels + 1, rest, _ => by
    rw [readResponse, encode, readline_resp (by decide) (by decide)]
    rfl
  | .nilArray, _, levels + 1, rest, _ => by
    rw [readResponse, encode, readline_resp (by decide) (by decide)]
    rfl
  | .array l, h, levels + 1, rest, hdepth => by
    obtain ⟨hlen, hall⟩ := h
    have hmany : readMany (readResponse levels) l.length (encodeAll l ++ rest)
        = some (l.map replyResult, rest) :=
      readMany_encodeAll l hall (Nat.le_of_succ_le_succ hdepth)
    rw [readResponse, encode, append_assoc, readline_resp (by decide) (decimal_no_line _)]
    simp only [Option.bind_eq_bind, Option.bind_some, tonumber_digits hlen, Int.toNat_natCast,
      hmany]
    rw [if_neg (by omega), replyResults_fst, replyResults_snd]
    rfl
  | .status _, _, 0, _, h | .error _, _, 0, _, h | .integer _, _, 0, _, h | .bulk _, _, 0, _, h
  | .nilBulk, _, 0, _, h | .nilArray, _, 0, _, h | .array _, _, 0, _, h => by
    simp [Resp.depth] at h

theorem readMany_encodeAll : (l : List Resp) → AllWellFormed l →
    ∀ {levels : ℕ} {rest : Bytes}, depthAll l ≤ levels →
    readMany (readResponse levels) l.length (encodeAll l ++ rest)
      = some (l.map replyResult, rest)
  | [], _, _, _, _ => rfl
  | r :: l, h, levels, rest, hdepth => by
    have hdepth : max r.depth (depthAll l) ≤ levels := hdepth
    have hr : readResponse levels (r.encode ++ (encodeAll l ++ rest))
        = some (replyResult r, encodeAll l ++ rest) :=
      readResponse_encode r h.1 (Nat.le_trans (Nat.le_max_left ..) hdepth)
    have hl : readMany (readResponse levels) l.length (encodeAll l ++ rest)
        = some (l.map replyResult, rest) :=
      readMany_encodeAll l h.2 (Nat.le_trans (Nat.le_max_right ..) hdepth)
    rw [encodeAll, append_assoc, length_cons, readMany, hr]
    simp only [Option.bind_eq_bind, Option.bind_some, hl]
    rfl

end

mutual

/-- A reply that is nested deeper raises an error. -/
theorem readResponse_deep : (r : Resp) → r.WellFormed → ∀ {levels : ℕ} {rest : Bytes},
    levels < r.depth → readResponse levels (r.encode ++ rest) = none
  | _, _, 0, _, _ => rfl
  | .array l, h, levels + 1, rest, hdepth => by
    obtain ⟨hlen, hall⟩ := h
    have hmany : readMany (readResponse levels) l.length (encodeAll l ++ rest) = none :=
      readMany_deep l hall (Nat.lt_of_succ_lt_succ hdepth)
    rw [readResponse, encode, append_assoc, readline_resp (by decide) (decimal_no_line _)]
    simp only [Option.bind_eq_bind, Option.bind_some, tonumber_digits hlen, Int.toNat_natCast,
      hmany]
    rw [if_neg (by omega), Option.bind_none]
  | .status _, _, _ + 1, _, h | .error _, _, _ + 1, _, h | .integer _, _, _ + 1, _, h
  | .bulk _, _, _ + 1, _, h | .nilBulk, _, _ + 1, _, h | .nilArray, _, _ + 1, _, h => by
    simp [Resp.depth] at h

theorem readMany_deep : (l : List Resp) → AllWellFormed l →
    ∀ {levels : ℕ} {rest : Bytes}, levels < depthAll l →
    readMany (readResponse levels) l.length (encodeAll l ++ rest) = none
  | [], _, _, _, h => by
    simp [depthAll] at h
  | r :: l, h, levels, rest, hdepth => by
    rw [encodeAll, append_assoc, length_cons, readMany]
    by_cases hr : r.depth ≤ levels
    · have hdepth : levels < max r.depth (depthAll l) := hdepth
      have hl : readMany (readResponse levels) l.length (encodeAll l ++ rest) = none :=
        readMany_deep l h.2 (by omega)
      rw [readResponse_encode r h.1 hr]
      simp only [Option.bind_eq_bind, Option.bind_some, hl, Option.bind_none]
    · rw [readResponse_deep r h.1 (Nat.lt_of_not_le hr)]
      rfl

end

/-! ## Operations -/

def replyCount : RedisOp → ℕ
  | .pipeline ops _ => ops.length
  | _ => 1

structure RedisExchange where
  op : RedisOp
  sends : op.message ≠ none
  replies : List Resp
  count : replies.length = replyCount op
  wellFormed : AllWellFormed replies

def lastResult (replies : List Resp) : Bool × RedisValue :=
  ((replies.map replyResult).getLast?).getD (false, .nil)

def isZero : RedisValue → Bool
  | .integer 0 => true
  | _ => false

def ReadsBoolean : RedisOp → Prop
  | .exists _ | .existsTable _ _ | .sismember _ _ => True
  | _ => False

/-- The result that an operation should have: the value of its reply, a boolean for it, or the
values of all replies. -/
def expectedResult (e : RedisExchange) : Bool × RedisValue :=
  let last := lastResult e.replies
  match e.op with
  | .pipeline _ true => (true, .results (e.replies.map replyResult))
  | .exists _ | .existsTable _ _ | .sismember _ _ =>
    if last.1 then (true, .boolean !isZero last.2) else last
  | _ => last

def actualResult (e : RedisExchange) : Bool × RedisValue :=
  let last := lastResult e.replies
  match e.op with
  | .pipeline _ true => (true, .results (e.replies.map replyResult))
  | .exists _ | .existsTable _ _ | .sismember _ _ => (last.1, .boolean !isZero last.2)
  | _ => last

theorem actualResult_iff (e : RedisExchange) : actualResult e = expectedResult e ↔
    (ReadsBoolean e.op → ∀ r ∈ e.replies, r.failed = false) := by
  obtain ⟨op, hsends, replies, hcount, hwell⟩ := e
  have hboolean (hop : replyCount op = 1) : (((lastResult replies).1,
      RedisValue.boolean !isZero (lastResult replies).2)
        = if (lastResult replies).1 then (true, .boolean !isZero (lastResult replies).2)
          else lastResult replies) ↔ ∀ r ∈ replies, r.failed = false := by
    obtain ⟨r, rfl⟩ := length_eq_one_iff.mp (hcount.trans hop)
    have hlast : lastResult [r] = replyResult r := rfl
    rw [hlast, replyResult]
    cases hfailed : r.failed with
    | false => simp [hfailed]
    | true =>
      refine iff_of_false (fun heq => ?_) fun hall => ?_
      · have hvalue : RedisValue.boolean _ = replyValue r := congrArg Prod.snd heq
        cases r <;> simp [replyValue] at hvalue
      · exact nomatch hfailed.symm.trans (hall r (mem_singleton_self r))
  cases op with
  | call name args => exact iff_of_true rfl nofun
  | callTable name t n => exact iff_of_true rfl nofun
  | «exists» key => exact (hboolean rfl).trans ⟨fun h _ => h, fun h => h trivial⟩
  | existsTable t n => exact (hboolean rfl).trans ⟨fun h _ => h, fun h => h trivial⟩
  | sismember key value => exact (hboolean rfl).trans ⟨fun h _ => h, fun h => h trivial⟩
  | pipeline ops resp =>
    cases resp with
    | true => exact iff_of_true rfl nofun
    | false => exact iff_of_true rfl nofun

/-- The response function of an operation, while its replies have room on the stack. -/
theorem response_eq {levels : ℕ} (e : RedisExchange) (rest : Bytes)
    (hroom : depthAll e.replies ≤ levels) :
    e.op.response levels (encodeAll e.replies ++ rest) = some (actualResult e, rest) := by
  have hmany := @readMany_encodeAll e.replies e.wellFormed levels rest hroom
  obtain ⟨op, hsends, replies, hcount, hwell⟩ := e
  have hsingle (hop : replyCount op = 1) : ∃ r, replies = [r] ∧
      readResponse levels (encodeAll replies ++ rest) = some (replyResult r, rest) := by
    obtain ⟨r, rfl⟩ := length_eq_one_iff.mp (hcount.trans hop)
    refine ⟨r, rfl, ?_⟩
    rw [encodeAll, encodeAll, append_nil]
    exact readResponse_encode r hwell.1 (Nat.le_trans (Nat.le_max_left ..) hroom)
  cases op with
  | call | callTable =>
    obtain ⟨r, rfl, hread⟩ := hsingle rfl
    exact hread
  | «exists» | existsTable | sismember =>
    obtain ⟨r, rfl, hread⟩ := hsingle rfl
    rw [response, readBoolean, hread]
    rfl
  | pipeline ops resp =>
    rw [response, ← show replies.length = ops.length from hcount, hmany]
    cases resp with
    | true => rfl
    | false => rfl

theorem response_deep {levels : ℕ} (e : RedisExchange) (rest : Bytes)
    (hdeep : levels < depthAll e.replies) :
    e.op.response levels (encodeAll e.replies ++ rest) = none := by
  have hmany := @readMany_deep e.replies e.wellFormed levels rest hdeep
  obtain ⟨op, hsends, replies, hcount, hwell⟩ := e
  have hsingle (hop : replyCount op = 1) :
      readResponse levels (encodeAll replies ++ rest) = none := by
    obtain ⟨r, rfl⟩ := length_eq_one_iff.mp (hcount.trans hop)
    have hdeep : levels < max r.depth 0 := hdeep
    rw [encodeAll, encodeAll, append_nil]
    exact readResponse_deep r hwell.1 (by omega)
  cases op with
  | call | callTable => exact hsingle rfl
  | «exists» | existsTable | sismember =>
    rw [response, readBoolean, hsingle rfl]
    rfl
  | pipeline ops resp =>
    rw [response, ← show replies.length = ops.length from hcount, hmany]
    rfl

/-! ## Connections -/

def replyBytes (l : List RedisExchange) : Bytes := (l.map fun e => encodeAll e.replies).flatten

/-- The replies of a connection are read exactly if each of them has room on the stack. -/
theorem readAll_eq (levels : ℕ) (l : List RedisExchange) (rest : Bytes) :
    readAll levels (l.map RedisExchange.op) (replyBytes l ++ rest) =
      if ∀ e ∈ l, depthAll e.replies ≤ levels then some (l.map actualResult, rest) else none := by
  induction l with
  | nil =>
    rw [if_pos nofun]
    rfl
  | cons e l ih =>
    have hbytes : replyBytes (e :: l) ++ rest
        = encodeAll e.replies ++ (replyBytes l ++ rest) := by
      rw [replyBytes, map_cons, flatten_cons, append_assoc, replyBytes]
    rw [hbytes, map_cons, readAll, if_neg e.sends]
    by_cases he : depthAll e.replies ≤ levels
    · rw [response_eq e _ he]
      simp only [Option.bind_eq_bind, Option.bind_some, ih, forall_mem_cons, he, true_and]
      split
      · rfl
      · rfl
    · rw [response_deep e _ (Nat.lt_of_not_le he), if_neg fun h => he (h e mem_cons_self)]
      rfl

def messageBytes (e : RedisExchange) : Bytes := e.op.message.getD []

theorem message_eq (e : RedisExchange) : e.op.message = some (messageBytes e) := by
  obtain ⟨bytes, hbytes⟩ := Option.ne_none_iff_exists'.mp e.sends
  rw [messageBytes, hbytes, Option.getD_some]

theorem written_eq (l : List RedisExchange) :
    RedisOp.written (l.map RedisExchange.op) = (l.map messageBytes).flatten := by
  rw [RedisOp.written, filterMap_map, ← filterMap_eq_map]
  congr 1
  refine filterMap_congr fun e _ => ?_
  exact message_eq e

/-- A connection writes the requests of its operations, the strings of each behind a count of them,
and takes for each operation its replies from what comes back, and nothing more. -/
def RedisInStep (levels : ℕ) (l : List RedisExchange) (rest : Bytes) : Prop :=
  RedisOp.written (l.map RedisExchange.op) = (l.map fun e => requestBytes e.op).flatten
    ∧ readAll levels (l.map RedisExchange.op) (replyBytes l ++ rest)
      = some (l.map expectedResult, rest)

def holedSet : RedisList where
  entries := [some [115, 101, 116], some [107], none, some [120]]
  last := by decide
  border := 4
  isBorder := by decide

def holedExchange : RedisExchange where
  op := .pipeline [holedSet] false
  sends := by decide
  replies := [.status [79, 75]]
  count := rfl
  wellFormed := by
    refine ⟨?_, trivial⟩
    change (13 : UInt8) ∉ [79, 75]
    decide

end Skynet.Analysis
