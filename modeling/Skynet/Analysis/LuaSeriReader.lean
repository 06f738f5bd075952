import Skynet.Library.Walk
import Skynet.Model.LuaSeri

/-!
# Serialized streams, header by header

A reading of the format that knows no table values and no read pointer: each step looks at
the next header of the stream and at what the open tables expect, and moves on.  It stops
where the stream ends or is malformed, and it marks the positions at which the code does
something else than that.
-/

namespace Skynet.Analysis

open Library Model

/-! ## Headers -/

def cut (k : ℕ) (bs : Bytes) : Option (Bytes × Bytes) :=
  if k ≤ bs.length then some (bs.take k, bs.drop k) else none

def integerAt (cookie : ℕ) (bs : Bytes) : Option (BitVec 64 × Bytes) :=
  match cookie with
  | typeNumberZero => some (0, bs)
  | typeNumberByte => (cut 1 bs).map fun p => (BitVec.ofNat 64 (leNat p.1), p.2)
  | typeNumberWord => (cut 2 bs).map fun p => (BitVec.ofNat 64 (leNat p.1), p.2)
  | typeNumberDword => (cut 4 bs).map fun p => (BitVec.ofInt 64 (toInt32 (leNat p.1)), p.2)
  | typeNumberQword => (cut 8 bs).map fun p => (BitVec.ofNat 64 (leNat p.1), p.2)
  | _ => none

/-- What a stream begins with: no whole header, a scalar, a table whose array part has `n`
values, or a string that announces a 32-bit length of 2^31 or more. -/
inductive Header where
  | stop
  | scalar (v : Scalar) (rest : Bytes)
  | table (n : ℕ) (rest : Bytes)
  | tooLong

def scalarOf (k : ℕ) (value : Bytes → Scalar) (bs : Bytes) : Header :=
  match cut k bs with
  | none => .stop
  | some (l, rest) => .scalar (value l) rest

def tableAt (cookie : ℕ) (bs : Bytes) : Header :=
  if cookie = maxCookie - 1 then
    match cut 1 bs with
    | none => .stop
    | some (t, bs) =>
      if leNat t &&& 7 = typeNumber then
        match integerAt (leNat t >>> 3) bs with
        | none => .stop
        | some (n, rest) => .table (toInt32 n.toInt).toNat rest
      else .stop
  else .table cookie bs

/-- The header that a byte of this type and cookie begins. -/
def headerOf (type cookie : ℕ) (bs : Bytes) : Header :=
  match type with
  | typeNil => .scalar .nil bs
  | typeBoolean => .scalar (.boolean (cookie ≠ 0)) bs
  | typeNumber =>
    if cookie = typeNumberReal then scalarOf 8 (fun l => .real (BitVec.ofNat 64 (leNat l))) bs
    else
      match integerAt cookie bs with
      | none => .stop
      | some (n, rest) => .scalar (.integer n) rest
  | typeUserdata => scalarOf 8 (fun l => .lightuserdata (BitVec.ofNat 64 (leNat l))) bs
  | typeShortString => scalarOf cookie .string bs
  | typeLongString =>
    if cookie = 2 then
      match cut 2 bs with
      | none => .stop
      | some (n, bs) => scalarOf (leNat n) .string bs
    else if cookie = 4 then
      match cut 4 bs with
      | none => .stop
      | some (n, bs) => if leNat n < 2 ^ 31 then scalarOf (leNat n) .string bs else .tooLong
    else .stop
  | typeTable => tableAt cookie bs
  | _ => .stop

def header (bs : Bytes) : Header :=
  match cut 1 bs with
  | none => .stop
  | some (t, bs) => headerOf (leNat t &&& 7) (leNat t >>> 3) bs

/-! ## Positions -/

/-- What an open table waits for: `n` more values of its array part and then a key; the value
of a key, which may be NaN; or nothing more, because a value for the key NaN is complete. -/
inductive Expecting where
  | elements (n : ℕ)
  | value (nan : Bool)
  | refused
deriving DecidableEq, Repr

/-- A position: the values complete at the top level, the open tables with the innermost
first, and the stream that is left. -/
structure Position where
  count : ℕ
  opened : List Expecting
  rest : Bytes

inductive Item where
  | nil
  | nan
  | other
deriving DecidableEq, Repr

def itemOf : Scalar → Item
  | .nil => .nil
  | .real d => if isNaN d then .nan else .other
  | _ => .other

/-- Where a complete value leads: a nil key closes its table, which is a value of the table
around it. -/
def complete (rest : Bytes) (count : ℕ) : Item → List Expecting → Position
  | _, [] => ⟨count + 1, [], rest⟩
  | _, .elements (n + 1) :: opened => ⟨count, .elements n :: opened, rest⟩
  | .nil, .elements 0 :: opened => complete rest count .other opened
  | .nan, .elements 0 :: opened => ⟨count, .value true :: opened, rest⟩
  | .other, .elements 0 :: opened => ⟨count, .value false :: opened, rest⟩
  | _, .value false :: opened => ⟨count, .elements 0 :: opened, rest⟩
  | _, .value true :: opened => ⟨count, .refused :: opened, rest⟩
  | _, .refused :: opened => ⟨count, .refused :: opened, rest⟩

namespace Expecting

def slots : Expecting → ℕ
  | .elements _ => 1
  | .value _ => 2
  | .refused => 2

end Expecting

/-- Whether the C stack has room for a table inside `k` open ones. -/
def hasFrame (host : UnpackHost) (k : ℕ) : Bool := host.frames.all fun n => k < n

namespace Position

def slots (top : ℕ) (p : Position) : ℕ := top + p.count + (p.opened.map Expecting.slots).sum

def Refused (p : Position) : Prop := p.opened.head? = some .refused

def Crowded (top : ℕ) (p : Position) : Prop :=
  p.opened = [] ∧ p.count % 8 = 7 ∧ stackRoom (top + p.count) = false

/-- Whether a table with an array part of `n` values can be opened: the C stack and the Lua
stack have room for it, and there is memory for its array part. -/
def opens (host : UnpackHost) (top n : ℕ) (rest : Bytes) (p : Position) : Bool :=
  hasFrame host p.opened.length && stackRoom (p.slots top) && host.memory rest.length n

def BadHeader (host : UnpackHost) (top : ℕ) (p : Position) : Prop :=
  match header p.rest with
  | .tooLong => True
  | .table n rest => p.opens host top n rest = false
  | _ => False

def Faulty (host : UnpackHost) (top : ℕ) (p : Position) : Prop :=
  p.Refused ∨ p.Crowded top ∨ p.BadHeader host top

instance (p : Position) : Decidable p.Refused := inferInstanceAs (Decidable (_ = _))

instance (top : ℕ) (p : Position) : Decidable (p.Crowded top) := inferInstanceAs (Decidable (_ ∧ _))

instance (host : UnpackHost) (top : ℕ) (p : Position) : Decidable (p.BadHeader host top) :=
  match h : header p.rest with
  | .tooLong => .isTrue (by simp [BadHeader, h])
  | .table n rest => decidable_of_iff (p.opens host top n rest = false) (by simp [BadHeader, h])
  | .scalar _ _ | .stop => .isFalse (by simp [BadHeader, h])

instance (host : UnpackHost) (top : ℕ) (p : Position) : Decidable (p.Faulty host top) :=
  inferInstanceAs (Decidable (_ ∨ _ ∨ _))

/-- The next position; there is none behind the end of the stream, a malformed header and a
faulty position. -/
def next (host : UnpackHost) (top : ℕ) (p : Position) : Option Position :=
  if p.Faulty host top then none
  else
    match header p.rest with
    | .scalar v rest => some (complete rest p.count (itemOf v) p.opened)
    | .table n rest => some ⟨p.count, .elements n :: p.opened, rest⟩
    | _ => none

def start (bs : Bytes) : Position := ⟨0, [], bs⟩

end Position

/-- **The streams that are read or reported**: header by header no position is faulty. -/
def Readable (host : UnpackHost) (top : ℕ) (bs : Bytes) : Prop :=
  ∀ p, Leads (Position.next host top) (Position.start bs) p → ¬p.Faulty host top

open List

variable {bs : Bytes} {rb : ReadBlock}

/-! ## The reader on a stream -/

def Inside (n : ℕ) (r : Read) : Prop := 0 ≤ r.sz ∧ 0 ≤ r.ptr ∧ r.ptr + r.sz ≤ n

structure Reading (bs : Bytes) (rb : ReadBlock) : Prop where
  buffer : rb.buffer = bs
  ptr : 0 ≤ rb.ptr
  len : 0 ≤ rb.len
  total : rb.ptr + rb.len = bs.length
  reads : ∀ r ∈ rb.reads, Inside bs.length r

def unread (rb : ReadBlock) : Bytes := rb.buffer.drop rb.ptr.toNat

def Invalid (e : UnpackError) : Prop := ∃ len line, e = .invalidStream len line

theorem reading_init (bs : Bytes) : Reading bs (rballInit bs bs.length) where
  buffer := rfl
  ptr := by simp [rballInit]
  len := by simp [rballInit]
  total := by simp [rballInit]
  reads := by simp [rballInit]

@[simp] theorem unread_init (bs : Bytes) (size : ℤ) : unread (rballInit bs size) = bs := by
  simp [unread, rballInit]

theorem Reading.length_unread (h : Reading bs rb) : ((unread rb).length : ℤ) = rb.len := by
  have htotal := h.total
  have hptr := h.ptr
  have hlen := h.len
  rw [unread, length_drop, h.buffer]
  omega

theorem cut_eq_some {k : ℕ} {bs l rest : Bytes} (h : cut k bs = some (l, rest)) :
    l.length = k ∧ bs = l ++ rest := by
  unfold cut at h
  split at h
  case isTrue hk =>
    simp only [Option.some.injEq, Prod.mk.injEq] at h
    rw [← h.1, ← h.2]
    exact ⟨length_take_of_le hk, (take_append_drop k bs).symm⟩
  case isFalse => cases h

theorem cut_append {k : ℕ} {l rest : Bytes} (h : l.length = k) :
    cut k (l ++ rest) = some (l, rest) := by
  subst h
  simp [cut]

theorem cut_length {k : ℕ} {bs l rest : Bytes} (h : cut k bs = some (l, rest)) :
    rest.length + k = bs.length := by
  obtain ⟨hl, rfl⟩ := cut_eq_some h
  rw [length_append]
  omega

/-! ## The reading functions -/

theorem rbRead_ends (h : Reading bs rb) (k : ℕ) :
    Ends (rbRead k) rb
      (fun o rb' => Reading bs rb' ∧
        match o with
        | some l => cut k (unread rb) = some (l, unread rb')
        | none => rb' = rb ∧ cut k (unread rb) = none)
      (fun _ _ => False) := by
  have hlen := h.length_unread
  have htotal := h.total
  have hptr := h.ptr
  unfold Ends rbRead cut
  by_cases hk : rb.len < k
  · have hshort : ¬k ≤ (unread rb).length := by omega
    simp only [hk, if_true, hshort, if_false]
    exact ⟨h, trivial, trivial⟩
  · have hroom : k ≤ (unread rb).length := by omega
    simp only [hk, if_false, hroom, if_true, Option.some.injEq, Prod.mk.injEq]
    refine ⟨⟨h.buffer, by simp; omega, by simp; omega, by simp; omega, ?_⟩, by simp [unread], ?_⟩
    · intro r hr
      rcases mem_append.mp hr with hr | hr
      · exact h.reads r hr
      · rw [mem_singleton.mp hr]
        exact ⟨by simp, by simpa using hptr, by simp; omega⟩
    · have hsum : (rb.ptr + k).toNat = rb.ptr.toNat + k := by omega
      simp only [unread, drop_drop, hsum]

@[simp] theorem invalidStream_ends {α : Type} {line : ℕ} {Q : α → ReadBlock → Prop}
    {E : UnpackError → ReadBlock → Prop} :
    Ends (invalidStream line) rb Q E ↔ E (.invalidStream rb.len line) rb := by
  simp [invalidStream]

theorem rbReadOr_ends (h : Reading bs rb) (k line : ℕ) :
    Ends (rbReadOr k line) rb
      (fun l rb' => Reading bs rb' ∧ cut k (unread rb) = some (l, unread rb'))
      (fun e rb' => Invalid e ∧ Reading bs rb' ∧ cut k (unread rb) = none) := by
  apply Ends.bind.mpr
  apply (rbRead_ends h k).mono
  · rintro o rb' ⟨h', ho⟩
    cases o with
    | some l => exact Ends.pure.mpr ⟨h', ho⟩
    | none => exact invalidStream_ends.mpr ⟨⟨_, _, rfl⟩, h', ho.2⟩
  · rintro e rb' hfalse
    exact hfalse.elim

theorem getInteger_ends (h : Reading bs rb) (cookie : ℕ) :
    Ends (getInteger cookie) rb
      (fun n rb' => Reading bs rb' ∧ integerAt cookie (unread rb) = some (n, unread rb'))
      (fun e rb' => Invalid e ∧ Reading bs rb' ∧ integerAt cookie (unread rb) = none) := by
  unfold getInteger
  split
  case h_1 => exact Ends.pure.mpr ⟨h, rfl⟩
  case h_6 =>
    have hnone : integerAt cookie (unread rb) = none := by
      unfold integerAt
      split <;> first | contradiction | rfl
    exact invalidStream_ends.mpr ⟨⟨_, _, rfl⟩, h, hnone⟩
  all_goals
    apply Ends.bind.mpr
    apply (rbReadOr_ends h _ _).mono
    · rintro l rb' ⟨h', hcut⟩
      exact Ends.pure.mpr ⟨h', by simp [integerAt, hcut]⟩
    · rintro e rb' ⟨he, h', hcut⟩
      exact ⟨he, h', by simp [integerAt, hcut]⟩

theorem toInt32_of_lt {n : ℕ} (h : n < 2 ^ 31) : toInt32 n = n := by
  unfold toInt32
  rw [Int.bmod_eq_of_le] <;> omega

theorem toInt32_neg {n : ℕ} (h : 2 ^ 31 ≤ n) (hn : n < 2 ^ 32) : toInt32 n < 0 := by
  unfold toInt32
  rw [Int.bmod_def]
  split <;> omega

theorem getBuffer_ends (h : Reading bs rb) (k : ℕ) :
    Ends (getBuffer k) rb
      (fun l rb' => Reading bs rb' ∧ cut k (unread rb) = some (l, unread rb'))
      (fun e rb' => Invalid e ∧ Reading bs rb' ∧ cut k (unread rb) = none) := by
  apply Ends.bind.mpr
  apply (rbReadOr_ends h k _).mono
  · rintro l rb' hl
    exact Ends.pure.mpr hl
  · intro e rb' he
    exact he

/-- **A negative length** passes the check of `rb_read` and is refused by Lua. -/
theorem getBuffer_negative (h : Reading bs rb) {len : ℤ} (hlen : len < 0) :
    Ends (getBuffer len) rb (fun _ _ => False) (fun e _ => e = .blockTooBig) := by
  have hpass : ¬rb.len < len := by
    have := h.len
    omega
  unfold getBuffer rbReadOr
  simp only [Ends.bind]
  unfold Ends rbRead
  simp only [hpass, if_false, hlen, if_true]
  rfl

theorem unpackArraySize_ends (h : Reading bs rb) (cookie : ℕ) :
    Ends (unpackArraySize cookie) rb
      (fun n rb' => Reading bs rb' ∧ tableAt cookie (unread rb) = .table n.toNat (unread rb'))
      (fun e rb' => Invalid e ∧ Reading bs rb' ∧ tableAt cookie (unread rb) = .stop) := by
  unfold unpackArraySize tableAt
  split
  case isTrue =>
    apply Ends.bind.mpr
    apply (rbReadOr_ends h 1 _).mono
    · rintro t rb₁ ⟨h₁, hcut⟩
      rw [hcut]
      by_cases htype : leNat t &&& 7 = typeNumber
      · simp only [htype, ne_eq, not_true, false_or, if_true]
        split
        case isTrue hreal =>
          rw [hreal]
          exact invalidStream_ends.mpr ⟨⟨_, _, rfl⟩, h₁, rfl⟩
        case isFalse =>
          apply Ends.bind.mpr
          apply (getInteger_ends h₁ _).mono
          · rintro n rb₂ ⟨h₂, hn⟩
            rw [hn]
            exact Ends.pure.mpr ⟨h₂, rfl⟩
          · rintro e rb₂ ⟨he, h₂, hn⟩
            rw [hn]
            exact ⟨he, h₂, rfl⟩
      · simp only [htype, ne_eq, not_false_eq_true, true_or, if_true, if_false]
        exact invalidStream_ends.mpr ⟨⟨_, _, rfl⟩, h₁, trivial⟩
    · rintro e rb₁ ⟨he, h₁, hcut⟩
      rw [hcut]
      exact ⟨he, h₁, rfl⟩
  case isFalse => exact Ends.pure.mpr ⟨h, by simp⟩

/-- How a value that is not a table may fail: the stream is invalid, or the length of a
string is 2^31 or more. -/
def ScalarFails (bs : Bytes) (h : Header) (e : UnpackError) (rb : ReadBlock) : Prop :=
  Invalid e ∧ Reading bs rb ∧ h = .stop ∨ e = .blockTooBig ∧ h = .tooLong

theorem scalarOf_ends {α : Type} {k : ℕ} {m : Unpack α} (make : α → Scalar)
    (value : Bytes → Scalar) (decode : Bytes → α) (hvalue : ∀ l, make (decode l) = value l)
    (hm : Ends m rb
      (fun a rb' => Reading bs rb' ∧ ∃ l, a = decode l ∧ cut k (unread rb) = some (l, unread rb'))
      (fun e rb' => Invalid e ∧ Reading bs rb' ∧ cut k (unread rb) = none)) :
    Ends (do
        let a ← m
        return (LuaValue.scalar (make a) : LuaValue Unit)) rb
      (fun v rb' => Reading bs rb' ∧
        ∃ w, v = .scalar w ∧ scalarOf k value (unread rb) = .scalar w (unread rb'))
      (ScalarFails bs (scalarOf k value (unread rb))) := by
  apply Ends.bind.mpr
  apply hm.mono
  · rintro a rb' ⟨h', l, rfl, hcut⟩
    refine Ends.pure.mpr ⟨h', make (decode l), rfl, ?_⟩
    rw [scalarOf, hcut, hvalue]
  · rintro e rb' ⟨he, h', hcut⟩
    left
    refine ⟨he, h', ?_⟩
    rw [scalarOf, hcut]

theorem string_ends (h : Reading bs rb) (k : ℕ) :
    Ends (do
        let s ← getBuffer k
        return (LuaValue.scalar (.string s) : LuaValue Unit)) rb
      (fun v rb' => Reading bs rb' ∧
        ∃ w, v = .scalar w ∧ scalarOf k .string (unread rb) = .scalar w (unread rb'))
      (ScalarFails bs (scalarOf k .string (unread rb))) := by
  apply scalarOf_ends _ _ id fun _ => rfl
  apply (getBuffer_ends h k).mono
  · rintro l rb' ⟨h', hcut⟩
    exact ⟨h', l, rfl, hcut⟩
  · intro e rb' he
    exact he

theorem longString_ends (h : Reading bs rb) {n : ℕ} (hn : n < 256 ^ 4) :
    Ends (do
        let s ← getBuffer (toInt32 n)
        return (LuaValue.scalar (.string s) : LuaValue Unit)) rb
      (fun v rb' => Reading bs rb' ∧ ∃ w, v = .scalar w ∧
        (if n < 2 ^ 31 then scalarOf n .string (unread rb) else .tooLong)
          = .scalar w (unread rb'))
      (ScalarFails bs (if n < 2 ^ 31 then scalarOf n .string (unread rb) else .tooLong)) := by
  cases Nat.lt_or_ge n (2 ^ 31) with
  | inl hlt =>
    rw [toInt32_of_lt hlt, if_pos hlt]
    exact string_ends h n
  | inr hge =>
    -- the length is negative as an `int`
    have hneg : toInt32 n < 0 := toInt32_neg hge (hn.trans_eq (by norm_num))
    rw [if_neg (Nat.not_lt.mpr hge)]
    apply Ends.bind.mpr
    apply (getBuffer_negative h hneg).mono
    · intro l rb₁ hfalse
      exact hfalse.elim
    · intro e rb₁ he
      exact .inr ⟨he, rfl⟩

theorem eightBytes_ends (h : Reading bs rb) (line : ℕ) (make : BitVec 64 → Scalar) :
    Ends (do
        let a ← (do
          let n ← rbReadOr 8 line
          return BitVec.ofNat 64 (leNat n) : Unpack (BitVec 64))
        return (LuaValue.scalar (make a) : LuaValue Unit)) rb
      (fun v rb' => Reading bs rb' ∧ ∃ w, v = .scalar w ∧
        scalarOf 8 (fun l => make (BitVec.ofNat 64 (leNat l))) (unread rb)
          = .scalar w (unread rb'))
      (ScalarFails bs
        (scalarOf 8 (fun l => make (BitVec.ofNat 64 (leNat l))) (unread rb))) := by
  apply scalarOf_ends _ _ (fun l => BitVec.ofNat 64 (leNat l)) fun _ => rfl
  apply Ends.bind.mpr
  apply (rbReadOr_ends h 8 line).mono
  · rintro l rb' ⟨h', hcut⟩
    exact Ends.pure.mpr ⟨h', l, rfl, hcut⟩
  · intro e rb' he
    exact he

/-- **`push_value` of what is not a table** does what the header says. -/
theorem pushValue_ends (h : Reading bs rb) (table : ℕ → Unpack (LuaValue Unit))
    {type : ℕ} (cookie : ℕ) (htype : type ≠ typeTable) :
    Ends (pushValue table type cookie) rb
      (fun v rb' => Reading bs rb' ∧ ∃ w, v = .scalar w ∧
        headerOf type cookie (unread rb) = .scalar w (unread rb'))
      (ScalarFails bs (headerOf type cookie (unread rb))) := by
  unfold pushValue
  split
  case h_1 => exact Ends.pure.mpr ⟨h, .nil, rfl, rfl⟩
  case h_2 => exact Ends.pure.mpr ⟨h, .boolean _, rfl, rfl⟩
  case h_3 =>
    unfold headerOf
    apply Ends.ite
    · intro hreal
      rw [if_pos hreal]
      exact eightBytes_ends h 407 .real
    · intro hint
      rw [if_neg hint]
      apply Ends.bind.mpr
      apply (getInteger_ends h cookie).mono
      · rintro n rb' ⟨h', hn⟩
        rw [hn]
        exact Ends.pure.mpr ⟨h', .integer n, rfl, rfl⟩
      · rintro e rb' ⟨he, h', hn⟩
        rw [hn]
        exact .inl ⟨he, h', rfl⟩
  case h_4 => exact eightBytes_ends h 417 .lightuserdata
  case h_5 => exact string_ends h cookie
  case h_6 =>
    unfold headerOf
    apply Ends.ite
    · intro htwo
      rw [if_pos htwo]
      apply Ends.bind.mpr
      apply (rbReadOr_ends h 2 493).mono
      · rintro n rb₁ ⟨h₁, hcut⟩
        rw [hcut]
        exact string_ends h₁ (leNat n)
      · rintro e rb₁ ⟨he, h₁, hcut⟩
        rw [hcut]
        exact .inl ⟨he, h₁, rfl⟩
    · intro htwo
      rw [if_neg htwo]
      apply Ends.ite
      · intro hfour
        rw [if_neg hfour]
        exact invalidStream_ends.mpr (.inl ⟨⟨_, _, rfl⟩, h, rfl⟩)
      · intro hfour
        rw [if_pos (not_not.mp hfour)]
        apply Ends.bind.mpr
        apply (rbReadOr_ends h 4 504).mono
        · intro n rb₁ hread
          have hbound := leNat_lt n
          rw [(cut_eq_some hread.2).1] at hbound
          rw [hread.2]
          exact longString_ends hread.1 hbound
        · intro e rb₁ hread
          rw [hread.2.2]
          exact .inl ⟨hread.1, hread.2.1, rfl⟩
  case h_7 => exact absurd rfl htype
  case h_8 =>
    have hstop : headerOf type cookie (unread rb) = .stop := by
      unfold headerOf
      split <;> first | contradiction | rfl
    exact invalidStream_ends.mpr (.inl ⟨⟨_, _, rfl⟩, h, hstop⟩)

end Skynet.Analysis
