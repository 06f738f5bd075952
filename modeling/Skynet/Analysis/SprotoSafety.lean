import Skynet.Analysis.LuaSeriReader
import Skynet.Analysis.SprotoReading
import Skynet.Model.SprotoDecode

/-!
# `sproto_decode` and the end of its input

Where decoding reads behind the data, or hands a range behind it to the callback.  The
length of a record's data is compared after `SIZEOF_LENGTH` was added to it as a
`uint32_t`, so the lengths from `2 ^ 32 - 4` on pass.  What comes of such a length depends
on the field: `Overruns` says of which fields it is that something goes wrong.  And the
names of a pair are read from the type of a map unasked, also where it has no two fields.
-/

namespace Skynet.Analysis

open Library Model AccessLog

def InRange (size : ℕ) (args : SprotoArg) : Prop :=
  ∀ off, args.value = .data off → 0 ≤ args.length ∧ off + args.length ≤ size

/-- Nothing was read or handed out that is not in the data. -/
abbrev StaysIn (size : ℕ) (log : AccessLog SprotoArg) : Prop := log.Inside size (InRange size)

/-- The program stops as it may, in the data. -/
abbrev StopsIn (size : ℕ) (e : DecodeStop) (log : AccessLog SprotoArg) : Prop :=
  e = .failed ∧ StaysIn size log

/-- However it ends, the program stays in the data. -/
abbrev EndsIn {α : Type} (size : ℕ) (m : Decode α) (log : AccessLog SprotoArg) : Prop :=
  Ends m log (fun _ log' => StaysIn size log') (StopsIn size)

/-- However it ends, the program has left the data or stops as it may not. -/
abbrev EndsOut {α : Type} (size : ℕ) (m : Decode α) (log : AccessLog SprotoArg) : Prop :=
  Ends m log (fun _ log' => ¬ StaysIn size log') fun e log' => ¬ StopsIn size e log'

theorem EndsOut.not_endsIn {α : Type} {size : ℕ} {m : Decode α} {log : AccessLog SprotoArg}
    (h : EndsOut size m log) : ¬ EndsIn size m log := by
  intro hin
  cases hrun : m log with
  | ok a log' => exact h.of_ok hrun (hin.of_ok hrun)
  | error e log' => exact h.of_error hrun (hin.of_error hrun)

variable {cb : SprotoCallback} {mem : ℕ → UInt8} {size : ℕ} {log : AccessLog SprotoArg}
  {args : SprotoArg}

@[simp] theorem ends_callback {Q : ℤ → AccessLog SprotoArg → Prop}
    {E : DecodeStop → AccessLog SprotoArg → Prop} :
    Ends (callback cb args) log Q E ↔ Q (cb (log.calls ++ [args])) (log.note args) := by
  simp only [callback, Ends.bind, Ends.noteCall, Ends.pure]

theorem StaysIn.note_word (h : StaysIn size log) {v : BitVec 64} (hv : args.value = .word v) :
    StaysIn size (log.note args) := by
  apply inside_note.2 ⟨h, ?_⟩
  intro off hoff
  rw [hv] at hoff
  cases hoff

theorem StaysIn.read (h : StaysIn size log) {p n : ℕ} (hn : 0 < n) (hp : p + n ≤ size) :
    StaysIn size (log.read p n) :=
  (inside_read hn).2 ⟨h, hp⟩

/-! ## Arrays -/

theorem decodeArrayObject_in (args : SprotoArg) (stream : ℕ) (sz index : ℤ)
    (hsz : sz < 2 ^ 31) (hin : sz ≤ 0 ∨ stream + sz ≤ size) (h : StaysIn size log) :
    EndsIn size (decodeArrayObject cb mem args stream sz index) log := by
  fun_induction decodeArrayObject cb mem args stream sz index generalizing log with
  | case1 stream sz index hpos hshort => exact Ends.throw.2 ⟨rfl, h⟩
  | case2 stream sz index hpos hlong ih =>
    simp only [sizeofLength, Nat.cast_ofNat] at *
    apply Ends.bind.2
    apply ends_todword.2
    have hread : StaysIn size (log.read stream 4) := h.read (by decide) (by omega)
    refine Ends.ite (fun _ => Ends.throw.2 ⟨rfl, hread⟩) fun hfits => ?_
    have hint : toInt32 (dwordAt mem stream) = dwordAt mem stream := toInt32_of_lt (by omega)
    have hnote : StaysIn size ((log.read stream 4).note
        { args with
          index := index
          value := .data (stream + 4)
          length := toInt32 (dwordAt mem stream) }) := by
      apply inside_note.2 ⟨hread, ?_⟩
      intro off hoff
      cases hoff
      simp only [hint]
      omega
    apply Ends.bind.2
    apply ends_callback.2
    refine Ends.ite (fun _ => Ends.throw.2 ⟨rfl, hnote⟩) fun _ => ?_
    exact ih _ (by omega) (by omega) hnote
  | case3 stream sz index hpos => exact Ends.pure.2 h

theorem decodeInt32s_in (args : SprotoArg) (stream i n : ℕ)
    (hin : n = 0 ∨ stream + (i + n) * 4 ≤ size) (h : StaysIn size log) :
    EndsIn size (decodeInt32s cb mem args stream i n) log := by
  induction n generalizing i log with
  | zero => exact Ends.pure.2 h
  | succ n ih =>
    unfold decodeInt32s
    simp only [Ends.bind, ends_todword, ends_callback, sizeofInt32]
    apply ih (i + 1) (by omega)
    exact (h.read (by decide) (by omega)).note_word rfl

theorem decodeInt64s_in (args : SprotoArg) (stream i n : ℕ)
    (hin : n = 0 ∨ stream + (i + n) * 8 ≤ size) (h : StaysIn size log) :
    EndsIn size (decodeInt64s cb mem args stream i n) log := by
  induction n generalizing i log with
  | zero => exact Ends.pure.2 h
  | succ n ih =>
    unfold decodeInt64s
    simp only [Ends.bind, ends_todword, ends_callback, sizeofInt64, sizeofInt32]
    apply ih (i + 1) (by omega)
    exact ((h.read (by decide) (by omega)).read (by decide) (by omega)).note_word rfl

theorem decodeBooleans_in (args : SprotoArg) (stream i n : ℕ)
    (hin : n = 0 ∨ stream + (i + n) ≤ size) (h : StaysIn size log) :
    EndsIn size (decodeBooleans cb mem args stream i n) log := by
  induction n generalizing i log with
  | zero => exact Ends.pure.2 h
  | succ n ih =>
    unfold decodeBooleans
    simp only [Ends.bind, Ends.readByte, ends_callback]
    apply ih (i + 1) (by omega)
    exact (h.read (by decide) (by omega)).note_word rfl

/-! ## Lengths that wrap -/

def Wraps (sz : ℕ) : Prop := 2 ^ 32 - 4 ≤ sz

theorem toInt32_of_wraps {sz : ℕ} (h : Wraps sz) (hlt : sz < 2 ^ 32) :
    toInt32 sz = (sz : ℤ) - 2 ^ 32 := by
  simp only [Wraps] at h
  unfold toInt32
  rw [Int.bmod_def]
  omega

/-- What goes wrong with a length that wraps, by the field: a string or a struct is handed
out with a negative length; the elements of an array of booleans are read on behind the
data; of an array of integers or doubles, the byte with the size of the elements is behind
the data, or it is 4 and the rest of the length is a multiple of it.  `rest` is the number
of bytes from the length on, `len` is the byte behind it. -/
def Overruns (f : SprotoField) (sz : ℕ) (rest : ℤ) (len : UInt8) : Prop := Wraps sz ∧
    if f.isArray then
      if f.type ^^^ sprotoTArray = sprotoTDouble ∨ f.type ^^^ sprotoTArray = sprotoTInteger then
        rest = 4 ∨ len.toNat = 4 ∧ sz = 2 ^ 32 - 3
      else f.type ^^^ sprotoTArray = sprotoTBoolean
    else f.type = sprotoTString ∨ f.type = sprotoTStruct

theorem decodeArray_in (args : SprotoArg) (stream : ℕ) (hsize : size < 2 ^ 31)
    (hlen : stream + 4 ≤ size)
    (hfits : Wraps (dwordAt mem stream) ∨ stream + 4 + dwordAt mem stream ≤ size)
    (hover : Wraps (dwordAt mem stream) → (args.type = sprotoTDouble ∨ args.type = sprotoTInteger →
        stream + 4 < size ∧ ¬ ((mem (stream + 4)).toNat = 4 ∧ dwordAt mem stream = 2 ^ 32 - 3)) ∧
      args.type ≠ sprotoTBoolean)
    (h : StaysIn size log) : EndsIn size (decodeArray cb mem args stream) log := by
  have hread : StaysIn size (log.read stream 4) := h.read (by decide) hlen
  have hdword := dwordAt_lt mem stream
  unfold decodeArray
  simp only [Ends.bind, ends_todword, sizeofLength, sizeofInt32, sizeofInt64]
  apply Ends.ite
  · intro _
    simp only [Ends.bind, ends_callback, Ends.pure]
    apply inside_note.2 ⟨hread, ?_⟩
    intro off hoff
    cases hoff
  · intro hne
    apply Ends.ite
    · intro hint
      have hbyte : stream + 4 + 1 ≤ size := by
        rcases hfits with hw | hfits
        · have := ((hover hw).1 hint).1
          omega
        · omega
      have hread' : StaysIn size ((log.read stream 4).read (stream + 4) 1) :=
        hread.read (by decide) hbyte
      simp only [Ends.bind, Ends.readByte]
      apply Ends.ite
      · intro hfour
        refine Ends.ite (fun _ => Ends.throw.2 ⟨rfl, hread'⟩) fun hmod => ?_
        apply decodeInt32s_in _ _ _ _ _ hread'
        rcases hfits with hw | hfits
        · have hnot := ((hover hw).1 hint).2
          simp only [Wraps] at hw
          omega
        · omega
      · intro _
        apply Ends.ite
        · intro _
          refine Ends.ite (fun _ => Ends.throw.2 ⟨rfl, hread'⟩) fun hmod => ?_
          apply decodeInt64s_in _ _ _ _ _ hread'
          rcases hfits with hw | hfits
          · simp only [Wraps] at hw
            omega
          · omega
        · exact fun _ => Ends.throw.2 ⟨rfl, hread'⟩
    · intro _
      apply Ends.ite
      · intro hbool
        apply decodeBooleans_in _ _ _ _ _ hread
        rcases hfits with hw | hfits
        · exact absurd hbool (hover hw).2
        · omega
      · intro _
        apply Ends.ite
        · intro _
          rcases hfits with hw | hfits
          · have hneg := toInt32_of_wraps hw hdword
            exact decodeArrayObject_in _ _ _ _ (by omega) (Or.inl (by omega)) hread
          · have hint : toInt32 (dwordAt mem stream) = dwordAt mem stream :=
              toInt32_of_lt (by omega)
            exact decodeArrayObject_in _ _ _ _ (by omega) (Or.inr (by omega)) hread
        · exact fun _ => Ends.throw.2 ⟨rfl, hread⟩

theorem decodeObject_in (args : SprotoArg) (stream : ℕ) (hsize : size < 2 ^ 31)
    (hlen : stream + 4 ≤ size)
    (hfits : Wraps (dwordAt mem stream) ∨ stream + 4 + dwordAt mem stream ≤ size)
    (hover : Wraps (dwordAt mem stream) → ¬ (args.type = sprotoTString ∨ args.type = sprotoTStruct))
    (h : StaysIn size log) : EndsIn size (decodeObject cb mem args stream) log := by
  have hread : StaysIn size (log.read stream 4) := h.read (by decide) hlen
  unfold decodeObject
  simp only [sizeofLength, sizeofInt32, sizeofInt64]
  apply Ends.ite
  · intro _
    simp only [Ends.bind, ends_todword]
    apply Ends.ite
    · intro hfour
      have hfits : stream + 4 + 4 ≤ size := by
        simp only [Wraps] at hfits
        omega
      simp only [Ends.bind, ends_todword, ends_callback, Ends.pure]
      exact (hread.read (by decide) hfits).note_word rfl
    · intro _
      refine Ends.ite (fun _ => Ends.throw.2 ⟨rfl, hread⟩) fun height => ?_
      have hfits : stream + 4 + 8 ≤ size := by
        simp only [Wraps] at hfits
        omega
      simp only [Ends.bind, ends_todword, ends_callback, Ends.pure]
      exact ((hread.read (by decide) (by omega)).read (by decide) (by omega)).note_word rfl
  · intro _
    apply Ends.ite
    · intro hstring
      simp only [Ends.bind, ends_todword, ends_callback]
      have hfits : stream + 4 + dwordAt mem stream ≤ size := by
        rcases hfits with hw | hfits
        · exact absurd hstring (hover hw)
        · exact hfits
      have hint : toInt32 (dwordAt mem stream) = dwordAt mem stream := toInt32_of_lt (by omega)
      have hnote : StaysIn size ((log.read stream 4).note
          { args with
            value := .data (stream + 4)
            length := toInt32 (dwordAt mem stream) }) := by
        apply inside_note.2 ⟨hread, ?_⟩
        intro off hoff
        cases hoff
        simp only [hint]
        omega
      apply Ends.ite
      · exact fun _ => Ends.throw.2 ⟨rfl, hnote⟩
      · exact fun _ => Ends.pure.2 hnote
    · exact fun _ => Ends.throw.2 ⟨rfl, h⟩

/-- A map of a type that has no two fields, or of none. -/
def Nameless (types : List SprotoType) (f : SprotoField) : Prop :=
  f.isArray = true ∧ 0 < f.map ∧ (f.st.bind (types[·]?)).bind (·.f[1]?) = none

/-- What the callback is told of an array, before its names are looked up. -/
abbrev arrayArg (f : SprotoField) : SprotoArg :=
  { tagname := f.name, tagid := f.tag, type := f.type ^^^ sprotoTArray, subtype := f.st
    value := .null, length := 0, index := 0, mainindex := f.key, extra := f.extra
    ktagname := none, vtagname := none }

theorem withNames_eq {types : List SprotoType} {f : SprotoField} (harray : f.isArray = true)
    (h : ¬ Nameless types f) (args : SprotoArg) :
    ∃ args', args'.type = args.type ∧ withNames types f args = pure args' := by
  unfold withNames
  by_cases hmap : f.map > 0
  · rw [if_pos hmap]
    obtain ⟨value, hvalue⟩ := Option.ne_none_iff_exists'.1 fun hn => h ⟨harray, hmap, hn⟩
    obtain ⟨st, hst, hone⟩ := Option.bind_eq_some_iff.1 hvalue
    have hlen := (List.getElem?_eq_some_iff.1 hone).1
    obtain ⟨key, hzero⟩ : ∃ key, st.f[0]? = some key :=
      ⟨_, List.getElem?_eq_getElem (by omega)⟩
    refine ⟨{ args with ktagname := some key.name, vtagname := some value.name }, rfl, ?_⟩
    simp only [fieldName, hst, Option.bind_some, hzero, hone]
    rfl
  · rw [if_neg hmap]
    exact ⟨args, rfl, rfl⟩

theorem withNames_none {types : List SprotoType} {f : SprotoField} (h : Nameless types f)
    (args : SprotoArg) : withNames types f args = throw .noSuchName := by
  obtain ⟨-, hmap, hnone⟩ := h
  rw [withNames, if_pos hmap]
  unfold fieldName
  rw [hnone]
  cases (f.st.bind (types[·]?)).bind (·.f[0]?) with
  | none => rfl
  | some g => rfl

theorem decodeField_in (types : List SprotoType) (f : SprotoField) (value : ℤ) (stream : ℕ)
    (hsize : size < 2 ^ 31)
    (hdata : value < 0 → stream + 4 ≤ size ∧
      (Wraps (dwordAt mem stream) ∨ stream + 4 + dwordAt mem stream ≤ size) ∧
      ¬ Nameless types f ∧ ¬ Overruns f (dwordAt mem stream) (size - stream) (mem (stream + 4)))
    (h : StaysIn size log) : EndsIn size (decodeField cb mem types f value stream) log := by
  apply Ends.ite
  · intro hneg
    obtain ⟨hlen, hfits, hnames, hover⟩ := hdata hneg
    apply Ends.ite
    · intro harray
      obtain ⟨args, htype, hargs⟩ := withNames_eq harray hnames (arrayArg f)
      rw [hargs, pure_bind]
      apply decodeArray_in _ _ hsize hlen hfits _ h
      rw [htype]
      intro hw
      have hnot : ¬ (if f.type ^^^ sprotoTArray = sprotoTDouble ∨
          f.type ^^^ sprotoTArray = sprotoTInteger then
          ((size : ℤ) - stream = 4 ∨ (mem (stream + 4)).toNat = 4 ∧ dwordAt mem stream = 2 ^ 32 - 3)
          else f.type ^^^ sprotoTArray = sprotoTBoolean) := by
        intro hbad
        apply hover
        refine ⟨hw, ?_⟩
        rw [if_pos harray]
        exact hbad
      constructor
      · intro hint
        rw [if_pos hint] at hnot
        constructor
        · by_contra hend
          exact hnot (Or.inl (by omega))
        · exact fun hfour => hnot (Or.inr hfour)
      · intro hbool
        have hbool' : f.type ^^^ sprotoTArray = sprotoTBoolean := hbool
        rw [hbool', if_neg (by decide)] at hnot
        exact hnot (Eq.refl _)
    · intro harray
      apply decodeObject_in _ _ hsize hlen hfits _ h
      intro hw hstring
      apply hover
      refine ⟨hw, ?_⟩
      rw [if_neg harray]
      exact hstring
  · intro _
    refine Ends.ite (fun _ => Ends.throw.2 ⟨rfl, h⟩) fun _ => ?_
    simp only [Ends.bind, ends_callback, Ends.pure]
    exact h.note_word rfl

/-! ## What was done stays in the log -/

theorem logGrows_callback : LogGrows (callback cb args) := LogGrows.noteCall.bind fun _ => .pure _

theorem logGrows_decodeArrayObject (args : SprotoArg) (stream : ℕ) (sz index : ℤ) :
    LogGrows (decodeArrayObject cb mem args stream sz index) := by
  fun_induction decodeArrayObject cb mem args stream sz index with
  | case1 stream sz index hpos hshort => exact .throw _
  | case2 stream sz index hpos hlong ih =>
    apply logGrows_todword.bind
    intro hsz
    refine LogGrows.ite (fun _ => .throw _) fun _ => ?_
    apply logGrows_callback.bind
    intro r
    exact .ite (fun _ => .throw _) fun _ => ih hsz
  | case3 stream sz index hpos => exact .pure _

theorem logGrows_decodeInt32s (args : SprotoArg) (stream i n : ℕ) :
    LogGrows (decodeInt32s cb mem args stream i n) := by
  induction n generalizing i with
  | zero => exact .pure _
  | succ n ih => exact logGrows_todword.bind fun _ => logGrows_callback.bind fun _ => ih _

theorem logGrows_decodeInt64s (args : SprotoArg) (stream i n : ℕ) :
    LogGrows (decodeInt64s cb mem args stream i n) := by
  induction n generalizing i with
  | zero => exact .pure _
  | succ n ih =>
    exact logGrows_todword.bind fun _ => logGrows_todword.bind fun _ =>
      logGrows_callback.bind fun _ => ih _

theorem logGrows_decodeBooleans (args : SprotoArg) (stream i n : ℕ) :
    LogGrows (decodeBooleans cb mem args stream i n) := by
  induction n generalizing i with
  | zero => exact .pure _
  | succ n ih => exact LogGrows.readByte.bind fun _ => logGrows_callback.bind fun _ => ih _

theorem logGrows_decodeArray (args : SprotoArg) (stream : ℕ) :
    LogGrows (decodeArray cb mem args stream) := by
  apply logGrows_todword.bind
  intro sz
  refine LogGrows.ite (fun _ => logGrows_callback.bind fun _ => .pure _) fun _ => ?_
  apply LogGrows.ite
  · intro _
    apply LogGrows.readByte.bind
    intro len
    refine LogGrows.ite (fun _ => .ite (fun _ => .throw _) fun _ => logGrows_decodeInt32s _ _ _ _)
      fun _ => ?_
    apply LogGrows.ite
    · exact fun _ => .ite (fun _ => .throw _) fun _ => logGrows_decodeInt64s _ _ _ _
    · exact fun _ => .throw _
  · intro _
    apply LogGrows.ite
    · exact fun _ => logGrows_decodeBooleans _ _ _ _
    · exact fun _ => .ite (fun _ => logGrows_decodeArrayObject _ _ _ _) fun _ => .throw _

theorem logGrows_decodeObject (args : SprotoArg) (stream : ℕ) :
    LogGrows (decodeObject cb mem args stream) := by
  apply LogGrows.ite
  · intro _
    apply logGrows_todword.bind
    intro sz
    refine LogGrows.ite (fun _ => logGrows_todword.bind fun _ => logGrows_callback.bind fun _ => .pure _)
      fun _ => ?_
    apply LogGrows.ite
    · exact fun _ => .throw _
    · exact fun _ => logGrows_todword.bind fun _ => logGrows_todword.bind fun _ =>
        logGrows_callback.bind fun _ => .pure _
  · intro _
    apply LogGrows.ite
    · exact fun _ => logGrows_todword.bind fun _ => logGrows_callback.bind fun _ =>
        .ite (fun _ => .throw _) fun _ => .pure _
    · exact fun _ => .throw _

theorem logGrows_withNames (types : List SprotoType) (f : SprotoField) (args : SprotoArg) :
    LogGrows (withNames types f args) := by
  have hname : ∀ i, LogGrows (fieldName types f i) := fun i => by
    unfold fieldName
    split
    · exact .throw _
    · exact .pure _
  exact .ite (fun _ => (hname 0).bind fun _ => (hname 1).bind fun _ => .pure _) fun _ => .pure _

theorem logGrows_decodeField (types : List SprotoType) (f : SprotoField) (value : ℤ)
    (stream : ℕ) : LogGrows (decodeField cb mem types f value stream) := by
  apply LogGrows.ite
  · exact fun _ => .ite (fun _ => (logGrows_withNames types f _).bind fun _ =>
      logGrows_decodeArray _ _) fun _ => logGrows_decodeObject _ _
  · exact fun _ => .ite (fun _ => .throw _) fun _ => logGrows_callback.bind fun _ => .pure _

theorem logGrows_skipData (value : ℤ) (s : DecodeState) : LogGrows (skipData mem value s) := by
  apply LogGrows.ite
  · intro _
    apply LogGrows.ite
    · exact fun _ => .throw _
    · exact fun _ => logGrows_todword.bind fun _ => .ite (fun _ => .throw _) fun _ => .pure _
  · exact fun _ => .pure _

theorem logGrows_decodeRecord (types : List SprotoType) (st : SprotoType) (record : ℕ)
    (s : DecodeState) : LogGrows (decodeRecord cb mem types st record s) := by
  apply logGrows_toword.bind
  intro value
  refine LogGrows.ite (fun _ => .pure _) fun _ => ?_
  apply (logGrows_skipData _ _).bind
  intro s'
  cases findtag st (s.tag + 1) with
  | none => exact .pure _
  | some f => exact (logGrows_decodeField _ _ _ _).bind fun _ => .pure _

theorem logGrows_decodeLoop (types : List SprotoType) (st : SprotoType) (i n : ℕ)
    (s : DecodeState) : LogGrows (decodeLoop cb mem types st i n s) := by
  induction n generalizing i s with
  | zero => exact .pure _
  | succ n ih => exact (logGrows_decodeRecord _ _ _ _).bind fun _ => ih _ _

/-! ## Fields that overrun -/

theorem decodeInt32s_out (args : SprotoArg) (stream i n : ℕ)
    (hout : size < stream + (i + (n + 1)) * 4) :
    EndsOut size (decodeInt32s cb mem args stream i (n + 1)) log := by
  induction n generalizing i log with
  | zero =>
    unfold decodeInt32s
    simp only [Ends.bind, ends_todword, ends_callback, sizeofInt32]
    apply Ends.pure.2
    intro h
    have hread := (inside_note.1 h).1
    have hle := ((inside_read (by decide)).1 hread).2
    omega
  | succ n ih =>
    unfold decodeInt32s
    simp only [Ends.bind, ends_todword, ends_callback, sizeofInt32]
    exact ih (i + 1) (by omega)

theorem decodeBooleans_out (args : SprotoArg) (stream i n : ℕ)
    (hout : size < stream + (i + (n + 1))) :
    EndsOut size (decodeBooleans cb mem args stream i (n + 1)) log := by
  induction n generalizing i log with
  | zero =>
    unfold decodeBooleans
    simp only [Ends.bind, Ends.readByte, ends_callback]
    apply Ends.pure.2
    intro h
    have hread := (inside_note.1 h).1
    have hle := ((inside_read (by decide)).1 hread).2
    omega
  | succ n ih =>
    unfold decodeBooleans
    simp only [Ends.bind, Ends.readByte, ends_callback]
    exact ih (i + 1) (by omega)

theorem decodeArray_out (args : SprotoArg) (stream : ℕ) (hsize : size < 2 ^ 31)
    (hw : Wraps (dwordAt mem stream))
    (hover : if args.type = sprotoTDouble ∨ args.type = sprotoTInteger then
        (size : ℤ) - stream = 4 ∨ (mem (stream + 4)).toNat = 4 ∧ dwordAt mem stream = 2 ^ 32 - 3
      else args.type = sprotoTBoolean) :
    EndsOut size (decodeArray cb mem args stream) log := by
  have hdword := dwordAt_lt mem stream
  simp only [Wraps] at hw
  unfold decodeArray
  simp only [Ends.bind, ends_todword, sizeofLength, sizeofInt32, sizeofInt64]
  apply Ends.ite
  · intro hzero
    omega
  · intro _
    apply Ends.ite
    · intro hint
      rw [if_pos hint] at hover
      simp only [Ends.bind, Ends.readByte]
      by_cases hend : (size : ℤ) - stream = 4
      · -- the byte with the size of the elements is behind the data
        have hbad : ¬ StaysIn size ((log.read stream 4).read (stream + 4) 1) := by
          intro h
          have hle := ((inside_read (by decide)).1 h).2
          omega
        have hgrow : LogGrows (if (mem (stream + 4)).toNat = 4 then
            if (dwordAt mem stream - 1) % 4 ≠ 0 then throw .failed
            else decodeInt32s cb mem args (stream + 4 + 1) 0 ((dwordAt mem stream - 1) / 4)
          else if (mem (stream + 4)).toNat = 8 then
            if (dwordAt mem stream - 1) % 8 ≠ 0 then throw .failed
            else decodeInt64s cb mem args (stream + 4 + 1) 0 ((dwordAt mem stream - 1) / 8)
          else throw .failed : Decode Unit) :=
          .ite (fun _ => .ite (fun _ => .throw _) fun _ => logGrows_decodeInt32s _ _ _ _) fun _ =>
            .ite (fun _ => .ite (fun _ => .throw _) fun _ => logGrows_decodeInt64s _ _ _ _)
              fun _ => .throw _
        exact (hgrow _).mono (fun _ _ hg h => hbad (h.of_grows hg))
          fun _ _ hg h => hbad (h.2.of_grows hg)
      · -- the elements go on behind the data
        obtain ⟨hfour, hsz⟩ := hover.resolve_left hend
        rw [if_pos hfour, if_neg (by omega)]
        have hcount : (dwordAt mem stream - 1) / 4 = 0x3ffffffe + 1 := by omega
        rw [hcount]
        exact decodeInt32s_out _ _ _ _ (by omega)
    · intro hint
      rw [if_neg hint] at hover
      rw [if_pos hover]
      have hcount : dwordAt mem stream = (dwordAt mem stream - 1) + 1 := by omega
      rw [hcount]
      exact decodeBooleans_out _ _ _ _ (by omega)

theorem decodeField_out (types : List SprotoType) (f : SprotoField) (stream : ℕ) {value : ℤ}
    (hsize : size < 2 ^ 31) (hneg : value < 0)
    (hover : Nameless types f ∨
      Overruns f (dwordAt mem stream) (size - stream) (mem (stream + 4))) :
    EndsOut size (decodeField cb mem types f value stream) log := by
  have hdword := dwordAt_lt mem stream
  unfold decodeField
  rw [if_pos hneg]
  by_cases hnames : Nameless types f
  · rw [if_pos hnames.1, withNames_none hnames]
    exact Ends.bind.2 (Ends.throw.2 fun h => by cases h.1)
  obtain ⟨hw, hover⟩ := hover.resolve_left hnames
  by_cases harray : f.isArray = true
  · rw [if_pos harray] at hover ⊢
    obtain ⟨args, htype, hargs⟩ := withNames_eq harray hnames (arrayArg f)
    rw [hargs, pure_bind]
    exact decodeArray_out _ _ hsize hw (htype ▸ hover)
  · rw [if_neg harray] at hover ⊢
    unfold decodeObject
    have hnot : ¬ (f.type = sprotoTDouble ∨ f.type = sprotoTInteger) := by
      rcases hover with h | h <;> rw [h] <;> decide
    rw [if_neg hnot, if_pos hover]
    simp only [Ends.bind, ends_todword, ends_callback]
    -- the range has a negative length
    have hint := toInt32_of_wraps hw hdword
    have hbad : ∀ c : AccessLog SprotoArg, ∀ a : SprotoArg,
        a.value = .data (stream + sizeofLength) → a.length = toInt32 (dwordAt mem stream) →
        ¬ StaysIn size (c.note a) := by
      intro c a hvalue hlength h
      have hrange := (inside_note.1 h).2 _ hvalue
      omega
    apply Ends.ite
    · exact fun _ => Ends.throw.2 fun h => hbad _ _ rfl rfl h.2
    · exact fun _ => Ends.pure.2 (hbad _ _ rfl rfl)

/-! ## Records -/

def Holds (size : ℕ) (s : DecodeState) : Prop := (s.datastream : ℤ) + s.size = size ∧ 0 ≤ s.size

/-- A record of a field that overruns, or of a map without names that is not refused for
the length of its data. -/
def Troubled (mem : ℕ → UInt8) (types : List SprotoType) (st : SprotoType) (record : ℕ)
    (s : DecodeState) : Prop :=
  wordAt mem record = 0 ∧ 4 ≤ s.size ∧ ∃ f, findtag st (s.tag + 1) = some f ∧
      (Nameless types f ∧
          (Wraps (dwordAt mem s.datastream) ∨ (dwordAt mem s.datastream : ℤ) + 4 ≤ s.size) ∨
        Overruns f (dwordAt mem s.datastream) s.size (mem (s.datastream + 4)))

theorem word_eq_zero {value : ℕ} (heven : ¬ value &&& 1 ≠ 0) :
    (((value / 2 : ℕ) : ℤ) - 1 < 0) ↔ value = 0 := by
  rw [Nat.and_one_is_mod] at heven
  omega

theorem skipData_in {value : ℤ} {s : DecodeState} (hs : Holds size s) (h : StaysIn size log) :
    Ends (skipData mem value s) log
      (fun s' log' => StaysIn size log' ∧ Holds size s' ∧ (value < 0 → s.datastream + 4 ≤ size ∧
          (Wraps (dwordAt mem s.datastream) ∨ s.datastream + 4 + dwordAt mem s.datastream ≤ size)))
      (StopsIn size) := by
  have hs' := hs
  simp only [Holds] at hs'
  unfold skipData
  simp only [sizeofLength]
  apply Ends.ite
  · intro _
    refine Ends.ite (fun _ => Ends.throw.2 ⟨rfl, h⟩) fun hlen => ?_
    have hread : StaysIn size (log.read s.datastream 4) := h.read (by decide) (by omega)
    simp only [Ends.bind, ends_todword]
    refine Ends.ite (fun _ => Ends.throw.2 ⟨rfl, hread⟩) fun hfits => ?_
    apply Ends.pure.2
    refine ⟨hread, ?_, ?_⟩
    · simp only [Holds]
      omega
    · simp only [Wraps]
      omega
  · exact fun hnone => Ends.pure.2 ⟨h, hs, fun hneg => absurd hneg hnone⟩

theorem skipData_holds {value : ℤ} {s : DecodeState} (hs : Holds size s) :
    Ends (skipData mem value s) log (fun s' _ => Holds size s') fun _ _ => True := by
  apply Ends.ite
  · intro _
    refine Ends.ite (fun _ => Ends.throw.2 trivial) fun _ => ?_
    simp only [Ends.bind, ends_todword]
    refine Ends.ite (fun _ => Ends.throw.2 trivial) fun hfits => ?_
    apply Ends.pure.2
    simp only [Holds] at hs ⊢
    omega
  · exact fun _ => Ends.pure.2 hs

/-- **A record that is not troubled** keeps decoding in the data. -/
theorem decodeRecord_in (types : List SprotoType) (st : SprotoType) {record : ℕ}
    {s : DecodeState} (hsize : size < 2 ^ 31) (hrecord : record + 2 ≤ size)
    (hs : Holds size s) (hcalm : ¬ Troubled mem types st record s) (h : StaysIn size log) :
    Ends (decodeRecord cb mem types st record s) log
      (fun s' log' => StaysIn size log' ∧ Holds size s') (StopsIn size) := by
  have hread : StaysIn size (log.read record 2) := h.read (by decide) hrecord
  unfold decodeRecord
  simp only [Ends.bind, ends_toword]
  refine Ends.ite (fun _ => Ends.pure.2 ⟨hread, hs⟩) fun heven => ?_
  have hzero := word_eq_zero heven
  apply Ends.bind.2
  apply (skipData_in hs hread).mono
  · rintro s' log' ⟨hin, hs', hdata⟩
    cases hf : findtag st (s.tag + 1) with
    | none => exact Ends.pure.2 ⟨hin, hs'⟩
    | some f =>
      apply Ends.bind.2
      have hfield : EndsIn size (decodeField cb mem types f
          (((wordAt mem record / 2 : ℕ) : ℤ) - 1) s.datastream) log' := by
        apply decodeField_in types f _ _ hsize _ hin
        intro hneg
        obtain ⟨hlen, hfits⟩ := hdata hneg
        have hrest : (size : ℤ) - s.datastream = s.size := by
          have := hs.1
          omega
        have hfits' : Wraps (dwordAt mem s.datastream) ∨
            (dwordAt mem s.datastream : ℤ) + 4 ≤ s.size := by
          rcases hfits with hw | hfits
          · exact Or.inl hw
          · right
            omega
        rw [hrest]
        refine ⟨hlen, hfits, fun hnames => hcalm ?_, fun hover => hcalm ?_⟩
        · exact ⟨hzero.1 hneg, by omega, f, hf, Or.inl ⟨hnames, hfits'⟩⟩
        · exact ⟨hzero.1 hneg, by omega, f, hf, Or.inr hover⟩
      apply hfield.mono
      · exact fun _ log'' hq => Ends.pure.2 ⟨hq, hs'⟩
      · exact fun _ _ hq => hq
  · exact fun _ _ hq => hq

/-- **A troubled record** makes decoding leave the data. -/
theorem decodeRecord_out (types : List SprotoType) (st : SprotoType) {record : ℕ}
    {s : DecodeState} (hsize : size < 2 ^ 31) (hs : Holds size s)
    (htrouble : Troubled mem types st record s) :
    EndsOut size (decodeRecord cb mem types st record s) log := by
  obtain ⟨hzero, hlen, f, hf, hover⟩ := htrouble
  have hdword := dwordAt_lt mem s.datastream
  have hfits : Wraps (dwordAt mem s.datastream) ∨
      (dwordAt mem s.datastream : ℤ) + 4 ≤ s.size :=
    hover.elim (fun h => h.2) fun h => Or.inl h.1
  have hrest : s.size = (size : ℤ) - s.datastream := by
    have := hs.1
    omega
  unfold decodeRecord
  simp only [Ends.bind, ends_toword, hzero]
  rw [if_neg (by decide)]
  unfold skipData
  have hnot : ¬ s.size < ((dwordAt mem s.datastream + 4) % 2 ^ 32 : ℕ) := by
    simp only [Wraps] at hfits
    omega
  have hlen' : ¬ s.size < (sizeofLength : ℕ) := by
    simp only [sizeofLength]
    omega
  rw [if_pos (by decide), if_neg hlen']
  simp only [Ends.bind, ends_todword, sizeofLength]
  rw [if_neg hnot]
  simp only [Ends.pure, hf, Ends.bind]
  rw [hrest] at hover
  exact decodeField_out types f _ hsize (by decide) (hover.imp_left fun h => h.1)

def Calm (cb : SprotoCallback) (mem : ℕ → UInt8) (types : List SprotoType)
    (st : SprotoType) (i : ℕ) : ℕ → DecodeState → AccessLog SprotoArg → Prop
  | 0, _, _ => True
  | n + 1, s, log =>
    ¬ Troubled mem types st (sizeofHeader + i * sizeofField) s ∧
      match decodeRecord cb mem types st (sizeofHeader + i * sizeofField) s log with
      | .ok s' log' => Calm cb mem types st (i + 1) n s' log'
      | .error _ _ => True

/-- **The loop stays in the data** exactly if it comes to no troubled record. -/
theorem decodeLoop_in_iff (types : List SprotoType) (st : SprotoType) (i n : ℕ)
    (s : DecodeState) (hsize : size < 2 ^ 31)
    (hrecords : sizeofHeader + (i + n) * sizeofField ≤ size) (hs : Holds size s)
    (h : StaysIn size log) :
    EndsIn size (decodeLoop cb mem types st i n s) log ↔ Calm cb mem types st i n s log := by
  induction n generalizing i s log with
  | zero => exact iff_of_true (Ends.pure.2 h) trivial
  | succ n ih =>
    have hrecord : sizeofHeader + i * sizeofField + 2 ≤ size := by
      simp only [sizeofHeader, sizeofField] at *
      omega
    have hnext : sizeofHeader + (i + 1 + n) * sizeofField ≤ size := by
      simp only [sizeofHeader, sizeofField] at *
      omega
    rw [Calm]
    by_cases htrouble : Troubled mem types st (sizeofHeader + i * sizeofField) s
    · apply iff_of_false _ (fun hu => hu.1 htrouble)
      have hout := @decodeRecord_out cb mem size log types st _ s hsize hs htrouble
      have hgrow : ∀ s', LogGrows (decodeLoop cb mem types st (i + 1) n s') :=
        fun s' => logGrows_decodeLoop types st (i + 1) n s'
      have hend : EndsOut size (decodeLoop cb mem types st i (n + 1) s) log := by
        rw [decodeLoop]
        apply Ends.bind.2
        apply hout.mono
        · intro s' log' hbad
          exact (hgrow s' log').mono (fun _ _ hg hin => hbad (hin.of_grows hg))
            fun _ _ hg hin => hbad (hin.2.of_grows hg)
        · exact fun _ _ hbad => hbad
      exact hend.not_endsIn
    · have hin := @decodeRecord_in cb mem size log types st _ s hsize hrecord hs htrouble h
      rw [decodeLoop, EndsIn, Ends.bind]
      cases hrun : decodeRecord cb mem types st (sizeofHeader + i * sizeofField) s log with
      | ok s' log' =>
        have hnow := hin.of_ok hrun
        rw [Ends.iff_of_ok hrun]
        simp only [htrouble, not_false_eq_true, true_and]
        exact ih (i + 1) s' hnext hnow.2 hnow.1
      | error e log' =>
        rw [Ends.iff_of_error hrun]
        simp only [htrouble, not_false_eq_true, true_and, iff_true]
        exact hin.of_error hrun

theorem decodeLoop_holds (types : List SprotoType) (st : SprotoType) (i n : ℕ)
    (s : DecodeState) (hs : Holds size s) :
    Ends (decodeLoop cb mem types st i n s) log (fun s' _ => Holds size s')
      fun _ _ => True := by
  induction n generalizing i s log with
  | zero => exact Ends.pure.2 hs
  | succ n ih =>
    rw [decodeLoop, decodeRecord]
    simp only [Ends.bind, ends_toword]
    refine Ends.ite (fun _ => Ends.pure.2 (ih _ _ hs)) fun _ => ?_
    apply Ends.bind.2
    apply (skipData_holds hs).mono
    · intro s' log' hs'
      cases findtag st (s.tag + 1) with
      | none => exact Ends.pure.2 (ih _ _ hs')
      | some f =>
        apply Ends.bind.2
        apply (logGrows_decodeField types f _ _ log').mono
        · exact fun _ _ _ => Ends.pure.2 (ih _ _ hs')
        · exact fun _ _ _ => trivial
    · exact fun _ _ _ => trivial

/-! ## Main result -/

def startState (mem : ℕ → UInt8) (size : ℤ) : DecodeState :=
  ⟨-1, sizeofHeader + wordAt mem 0 * sizeofField, size - sizeofHeader - wordAt mem 0 * sizeofField⟩

section Runs

variable (cb mem) (types : List SprotoType) (st : SprotoType) {size : ℤ}

theorem sprotoDecode_short (h : size < sizeofHeader) :
    sprotoDecode cb mem types st size = (some (-1), AccessLog.empty) := by
  simp only [sprotoDecode, decodeBody, if_pos h]
  rfl

theorem sprotoDecode_few (h : ¬ size < sizeofHeader)
    (hfields : size - sizeofHeader < wordAt mem 0 * sizeofField) :
    sprotoDecode cb mem types st size = (some (-1), AccessLog.empty.read 0 2) := by
  have hbody : decodeBody cb mem types st size AccessLog.empty =
      .error .failed (AccessLog.empty.read 0 2) := by
    rw [decodeBody, if_neg h]
    change EStateM.bind (toword mem 0) _ _ = _
    rw [EStateM.bind, toword_run]
    simp only [if_pos hfields]
    rfl
  simp only [sprotoDecode, hbody]

theorem sprotoDecode_loop (h : ¬ size < sizeofHeader)
    (hfields : ¬ size - sizeofHeader < wordAt mem 0 * sizeofField) :
    sprotoDecode cb mem types st size =
      match decodeLoop cb mem types st 0 (wordAt mem 0) (startState mem size)
        (AccessLog.empty.read 0 2) with
      | .ok s log => (some (size - s.size), log)
      | .error .failed log => (some (-1), log)
      | .error .noSuchName log => (none, log) := by
  have hbody : decodeBody cb mem types st size AccessLog.empty =
      (decodeLoop cb mem types st 0 (wordAt mem 0) (startState mem size) >>=
        fun s => pure (size - s.size)) (AccessLog.empty.read 0 2) := by
    rw [decodeBody, if_neg h]
    change EStateM.bind (toword mem 0) _ _ = _
    rw [EStateM.bind, toword_run]
    simp only [if_neg hfields]
    rfl
  cases hrun : decodeLoop cb mem types st 0 (wordAt mem 0) (startState mem size)
    (AccessLog.empty.read 0 2) with
  | ok s log =>
    have hend : decodeBody cb mem types st size AccessLog.empty = .ok (size - s.size) log := by
      rw [hbody]
      change EStateM.bind _ _ _ = _
      rw [EStateM.bind, hrun]
      rfl
    simp only [sprotoDecode, hend]
  | error e log =>
    have hend : decodeBody cb mem types st size AccessLog.empty = .error e log := by
      rw [hbody]
      change EStateM.bind _ _ _ = _
      rw [EStateM.bind, hrun]
    cases e <;> simp only [sprotoDecode, hend]

end Runs

def SoundInput (cb : SprotoCallback) (mem : ℕ → UInt8) (types : List SprotoType)
    (st : SprotoType) (size : ℤ) : Prop :=
  ¬ size < sizeofHeader → ¬ size - sizeofHeader < wordAt mem 0 * sizeofField →
    Calm cb mem types st 0 (wordAt mem 0) (startState mem size)
      (AccessLog.empty.read 0 2)

/-- What `sproto_decode` did was done in the data, and it returns at most their number. -/
def DecodesInside (size : ℤ) (r : Option ℤ × AccessLog SprotoArg) : Prop :=
  StaysIn size.toNat r.2 ∧ ∃ n, r.1 = some n ∧ (n = -1 ∨ n ≤ size)

/-- **Decoding stays in its input** exactly if it comes to no record of a field of its
type whose length wraps and which overruns, nor to a map of a type that has no names for a
pair.  It always ends; whatever the callback returns, every byte it reads and every range
it hands out is then in the data, and it has used at most all of them. -/
theorem decode_safe_iff (cb : SprotoCallback) (mem : ℕ → UInt8) (types : List SprotoType)
    (st : SprotoType) (size : ℤ) (hsize : size < 2 ^ 31) :
    DecodesInside size (sprotoDecode cb mem types st size) ↔ SoundInput cb mem types st size := by
  by_cases hheader : size < sizeofHeader
  · rw [sprotoDecode_short cb mem types st hheader]
    exact iff_of_true ⟨inside_empty _ _, _, rfl, Or.inl rfl⟩ fun h => absurd hheader h
  have hread : StaysIn size.toNat ((AccessLog.empty : AccessLog SprotoArg).read 0 2) := by
    apply StaysIn.read (inside_empty _ _) (by decide)
    simp only [sizeofHeader] at hheader
    omega
  by_cases hfields : size - sizeofHeader < wordAt mem 0 * sizeofField
  · rw [sprotoDecode_few cb mem types st hheader hfields]
    exact iff_of_true ⟨hread, _, rfl, Or.inl rfl⟩ fun _ h => absurd hfields h
  have hs : Holds size.toNat (startState mem size) := by
    simp only [Holds, startState, sizeofHeader, sizeofField] at hheader hfields ⊢
    omega
  have hrecords : sizeofHeader + (0 + wordAt mem 0) * sizeofField ≤ size.toNat := by
    simp only [sizeofHeader, sizeofField] at hheader hfields ⊢
    omega
  have hloop := @decodeLoop_in_iff cb mem size.toNat _ types st 0 (wordAt mem 0) _
    (by omega) hrecords hs hread
  have hholds := @decodeLoop_holds cb mem size.toNat (AccessLog.empty.read 0 2) types st 0
    (wordAt mem 0) _ hs
  have hcond : SoundInput cb mem types st size ↔ Calm cb mem types st 0 (wordAt mem 0)
      (startState mem size) (AccessLog.empty.read 0 2) :=
    ⟨fun h => h hheader hfields, fun h _ _ => h⟩
  rw [hcond, ← hloop, sprotoDecode_loop cb mem types st hheader hfields, EndsIn]
  cases hrun : decodeLoop cb mem types st 0 (wordAt mem 0) (startState mem size)
    (AccessLog.empty.read 0 2) with
  | ok s log =>
    rw [Ends.iff_of_ok hrun]
    have hle : size - s.size ≤ size := by
      have := (hholds.of_ok hrun).2
      omega
    exact ⟨fun h => h.1, fun h => ⟨h, _, rfl, Or.inr hle⟩⟩
  | error e log =>
    rw [Ends.iff_of_error hrun]
    cases e with
    | failed => exact ⟨fun h => ⟨rfl, h.1⟩, fun h => ⟨h.2, _, rfl, Or.inl rfl⟩⟩
    | noSuchName =>
      refine iff_of_false ?_ fun h => by cases h.1
      rintro ⟨-, n, hn, -⟩
      cases hn

/-- Three bytes for a field of strings. -/
theorem decode_safe_iff_string :
    DecodesInside 11 (sprotoDecode (fun _ => 0)
      (fun i => [1, 0, 0, 0, 3, 0, 0, 0, 0x61, 0x62, 0x63].getD i 0) []
      ⟨[], 0, 1, [⟨0, sprotoTString, [], none, -1, -1, 0⟩]⟩ 11) := by
  apply (decode_safe_iff _ _ _ _ 11 (by decide)).2
  intro _ _
  refine ⟨?_, ?_⟩
  · rintro ⟨_, _, f, hf, ⟨⟨harray, -⟩, -⟩ | ⟨hw, -⟩⟩
    · obtain rfl := Option.some.inj ((rfl : _ = _).trans hf)
      exact absurd harray (by decide)
    · have hshort : ¬ Wraps 3 := by
        simp only [Wraps]
        omega
      exact hshort hw
  · split <;> trivial

/-- **Behind the data.**  A field of strings whose length is `2 ^ 32 - 1`: the callback is
given a range of length -1 that starts where the eight bytes of data end. -/
theorem length_wraps :
    ¬ StaysIn 8 (sprotoDecode (fun _ => 0)
      (fun i => [1, 0, 0, 0, 0xff, 0xff, 0xff, 0xff].getD i 0) []
      ⟨[], 0, 1, [⟨0, sprotoTString, [], none, -1, -1, 0⟩]⟩ 8).2 := by
  intro h
  have hcall : (⟨[], 0, sprotoTString, none, .data 8, -1, 0, -1, 0, none, none⟩ : SprotoArg) ∈
      (sprotoDecode (fun _ => 0) (fun i => [1, 0, 0, 0, 0xff, 0xff, 0xff, 0xff].getD i 0) []
        ⟨[], 0, 1, [⟨0, sprotoTString, [], none, -1, -1, 0⟩]⟩ 8).2.calls := by
    decide +kernel
  have hrange := h.calls _ hcall 8 rfl
  exact absurd hrange.1 (by decide)

end Skynet.Analysis
