import Skynet.Analysis.HttpChunked
import Skynet.Library.LittleEndian
import Skynet.Library.Decimal

/-!
# The bodies of requests, and responses

`read_request` leaves it to `tonumber` what a size is: a chunk may have a size below zero, which
takes bytes back, a length may be hexadecimal, negative or no number at all, and without a length
the body is what has come with the header section.  A response whose sizes are not negative is
read as it would be if it came at once.
-/

namespace Skynet.Analysis

open Library Model Http List

variable {s t body body' data line value : Bytes} {pieces pieces' : Pieces}
  {f i n : ℕ} {size sz : ℤ}

/-! ## Sizes -/

def isHex (b : UInt8) : Bool := (digitValue b).any (· < 16)

def hexSize (digits : Bytes) : ℕ :=
  (digits.filterMap digitValue).foldl (fun n d => n * 16 + d) 0

structure HexDigits (digits : Bytes) : Prop where
  nonempty : digits ≠ []
  hex : ∀ b ∈ digits, isHex b = true

/-- A line that gives the size `n`, with an extension or without. -/
inductive SizeLine : Bytes → ℕ → Prop
  | plain {digits : Bytes} (hdigits : HexDigits digits) : SizeLine digits (hexSize digits)
  | extended {digits ext : Bytes} (hdigits : HexDigits digits) (hext : ¬crlf <:+: ext) :
      SizeLine (digits ++ 59 :: ext) (hexSize digits)

/-- A chunked text up to the line of its last chunk: the data, and what is behind that line. -/
inductive ChunkedText : Bytes → Bytes → Bytes → Prop
  | last {line : Bytes} (hline : SizeLine line 0) (rest : Bytes) :
      ChunkedText (line ++ (crlf ++ rest)) [] rest
  | chunk {line data s body rest : Bytes} (hline : SizeLine line data.length)
      (hne : data ≠ []) (more : ChunkedText s body rest) :
      ChunkedText (line ++ (crlf ++ (data ++ (crlf ++ s)))) (data ++ body) rest

/-- The decimal digits of `n`, and blanks. -/
inductive Declares : Bytes → ℕ → Prop
  | mk {digits blanks : Bytes} (hne : digits ≠ []) (hdigits : ∀ b ∈ digits, isDigit b = true)
    (hblanks : ∀ b ∈ blanks, Http.isSpace b = true) :
      Declares (digits ++ blanks) (decimalValue digits)

/-- `tonumber` of a decimal numeral. -/
def ReadsDecimals (conf : HttpConf) : Prop :=
  ∀ value n, Declares value n → n < 2 ^ 63 → conf.tonumber value = some (n : ℚ)

theorem isHex_facts : ∀ b : UInt8, isHex b = true →
    Http.isSpace b = false ∧ b ≠ 45 ∧ b ≠ 43 ∧ (digitValue b).isSome = true ∧ b ≠ 13 :=
  byte_forall (by decide +kernel)

theorem HexDigits.values (h : HexDigits line) :
    line.filterMap digitValue ≠ [] ∧ ((line.filterMap digitValue).any fun d => 16 ≤ d) = false := by
  constructor
  · obtain ⟨b, line, rfl⟩ := exists_cons_of_ne_nil h.nonempty
    have hfacts := isHex_facts b (h.hex b mem_cons_self)
    obtain ⟨d, hd⟩ := Option.isSome_iff_exists.mp hfacts.2.2.2.1
    rw [filterMap_cons_some hd]
    exact cons_ne_nil d _
  · rw [any_eq_false]
    intro d hd
    obtain ⟨b, hb, hval⟩ := mem_filterMap.mp hd
    have hhex := h.hex b hb
    rw [isHex, hval] at hhex
    simpa using hhex

/-- `tonumber(s, 16)` of digits with more behind them. -/
theorem HexDigits.tonumber16 (h : HexDigits line) {tail : Bytes}
    (htail : ∀ b ∈ tail.head?, (digitValue b).isSome = false) :
    tonumber16 (line ++ tail) =
      if tail.dropWhile Http.isSpace = [] then some (wrap (hexSize line)) else none := by
  obtain ⟨hne, hany⟩ := h.values
  obtain ⟨b, rest, hcons⟩ := exists_cons_of_ne_nil h.nonempty
  obtain ⟨hspace, hminus, hplus, -⟩ := isHex_facts b (h.hex b (hcons ▸ mem_cons_self))
  have hstart : (line ++ tail).dropWhile Http.isSpace = line ++ tail := by
    rw [hcons, cons_append, dropWhile_cons_of_neg (by rw [hspace]; decide)]
  have hhead : (line ++ tail).head? = some b := by rw [hcons]; rfl
  have hall : ∀ x ∈ line, (digitValue x).isSome = true := fun x hx =>
    (isHex_facts x (h.hex x hx)).2.2.2.1
  have htake : (line ++ tail).takeWhile (fun x => (digitValue x).isSome) = line := by
    rw [takeWhile_append_of_pos hall]
    cases tail with
    | nil => exact append_nil line
    | cons x tail => rw [takeWhile_cons_of_neg (by rw [htail x rfl]; decide), append_nil]
  have hdrop : (line ++ tail).dropWhile (fun x => (digitValue x).isSome) = tail := by
    rw [dropWhile_append_of_pos hall]
    cases tail with
    | nil => rfl
    | cons x tail => rw [dropWhile_cons_of_neg (by rw [htail x rfl]; decide)]
  simp only [Http.tonumber16, hstart, hhead, Option.some.injEq, hminus, hplus, or_self, if_false,
    htake, hdrop, hne, hany, false_or, Bool.false_eq_true, ne_eq, ite_not, hexSize]

/-- A line of digits alone, for a number of 63 bits. -/
structure PlainSize (line : Bytes) : Prop where
  digits : HexDigits line
  small : hexSize line < 2 ^ 63

theorem wrap_small (h : n < 2 ^ 63) : wrap (n : ℤ) = n := by
  unfold wrap
  rw [Int.bmod_eq_of_le] <;> omega

theorem PlainSize.tonumber16 (h : PlainSize line) : tonumber16 line = some (hexSize line : ℤ) := by
  have hnumber := @HexDigits.tonumber16 _ h.digits [] (by simp)
  rw [append_nil] at hnumber
  rw [hnumber, wrap_small h.small]
  rfl

theorem HexDigits.no_crlf (h : HexDigits line) {tail : Bytes} (htail : ¬crlf <:+: tail) :
    ¬crlf <:+: line ++ tail := by
  have hcr : ∀ b ∈ line, b ≠ 13 := fun b hb => (isHex_facts b (h.hex b hb)).2.2.2.2
  clear h
  induction line with
  | nil => exact htail
  | cons b line ih =>
    rw [cons_append, infix_cons_iff]
    rintro (hpre | hin)
    · exact hcr b mem_cons_self (cons_prefix_cons.mp hpre).1.symm
    · exact ih (fun b hb => hcr b (mem_cons_of_mem _ hb)) hin

theorem SizeLine.no_crlf (h : SizeLine line n) : ¬crlf <:+: line := by
  cases h with
  | plain hdigits =>
    have hno := @HexDigits.no_crlf _ hdigits [] (by decide)
    rwa [append_nil] at hno
  | extended hdigits hext =>
    refine hdigits.no_crlf fun hin => ?_
    rw [infix_cons_iff] at hin
    obtain hpre | hin := hin
    · exact absurd (cons_prefix_cons.mp hpre).1 (by decide)
    · exact hext hin

/-- The first end of a line is behind it. -/
theorem firstAt_line (h : ¬crlf <:+: line) (rest : Bytes) :
    firstAt crlf (line ++ (crlf ++ rest)) = some line.length := by
  rw [firstAt_eq_some_iff crlf_ne_nil, drop_left]
  refine ⟨prefix_append crlf rest, fun j hj hpre => ?_⟩
  rw [drop_append_of_le_length hj.le] at hpre
  by_cases htwo : 2 ≤ (line.drop j).length
  · have hin : crlf <+: line.drop j := prefix_of_prefix_length_le hpre (prefix_append _ _) htwo
    exact h (hin.isInfix.trans (drop_suffix j line).isInfix)
  · obtain ⟨b, hb⟩ : ∃ b, line.drop j = [b] := by
      refine length_eq_one_iff.mp ?_
      rw [length_drop] at htwo ⊢
      omega
    rw [hb] at hpre
    have hlf := (cons_prefix_cons.mp hpre).2
    exact absurd (cons_prefix_cons.mp hlf).1 (by decide)

theorem SizeLine.plain_of_read (h : SizeLine line n) (hn : n < 2 ^ 63)
    (hread : tonumber16 line = some sz) : PlainSize line ∧ sz = n := by
  cases h with
  | plain hdigits =>
    have hplain : PlainSize line := ⟨hdigits, hn⟩
    rw [hplain.tonumber16] at hread
    exact ⟨hplain, (Option.some.inj hread).symm⟩
  | @extended digits ext hdigits hext =>
    rw [hdigits.tonumber16 (by rintro b ⟨⟩; decide)] at hread
    nomatch hread

/-! ## Chunks -/

/-- Every line that gives a size, as far as the chunks are read, is plain. -/
def SizesPlain (bodylimit : Option ℤ) (size : ℤ) (s : Bytes) : Prop :=
  ∀ size' s', Relation.ReflTransGen (NextChunk bodylimit) (size, s) (size', s') →
    ∀ f sz, firstAt crlf s' = some f → tonumber16 (s'.take f) = some sz → PlainSize (s'.take f)

variable {bodylimit : Option ℤ}

theorem SizesPlain.natural (h : SizesPlain bodylimit size s) : SizesNatural bodylimit size s := by
  intro size' s' hreach f sz hf hsz
  have hplain := h size' s' hreach f sz hf hsz
  rw [hplain.tonumber16] at hsz
  rw [← Option.some.inj hsz]
  exact Int.natCast_nonneg _

theorem SizesPlain.next (h : SizesPlain bodylimit size s) (hfirst : ChunkAt s f n)
    (hwithin : ¬PassesLimit bodylimit (wrap (size + n))) :
    SizesPlain bodylimit (wrap (size + n)) (behindChunk s f n) :=
  fun size' s' hreach => h size' s' (.head (.next hfirst hwithin) hreach)

theorem prefix_drop (h : crlf <+: s) : s = crlf ++ s.drop 2 := by
  obtain ⟨r, rfl⟩ := h
  rfl

theorem split_line (h : firstAt crlf s = some f) : s = s.take f ++ (crlf ++ s.drop (f + 2)) := by
  have hpre := ((firstAt_eq_some_iff crlf_ne_nil).mp h).1
  rw [← drop_drop, ← prefix_drop hpre, take_append_drop]

theorem ChunkAt.sizeLine (h : ChunkAt s f n) (hplain : PlainSize (s.take f)) :
    SizeLine (s.take f) n := by
  have hsize := h.size
  rw [hplain.tonumber16] at hsize
  have hn : hexSize (s.take f) = n := by exact_mod_cast Option.some.inj hsize
  exact hn ▸ .plain hplain.digits

/-- Chunks whose lines are plain are a chunked text; by induction on the chunks. -/
theorem Chunks.text (h : Chunks (fun _ => True) bodylimit size s data t)
    (hplain : SizesPlain bodylimit size s) : ChunkedText s data t := by
  induction h with
  | @last size s f line _ zero =>
    have hline := hplain size s .refl f 0 line zero
    have hsize := zero
    rw [hline.tonumber16] at hsize
    have hn : hexSize (s.take f) = 0 := by exact_mod_cast Option.some.inj hsize
    have htext := ChunkedText.last (hn ▸ SizeLine.plain hline.digits) (s.drop (f + 2))
    rwa [← split_line line] at htext
  | @chunk size s data t f n first _ within more ih =>
    have hline := first.sizeLine (hplain size s .refl f n first.line first.size)
    have hlen : ((s.drop (f + 2)).take n).length = n := length_take_of_le first.fits
    have hne : (s.drop (f + 2)).take n ≠ [] := fun hnil => first.pos (by rw [← hlen, hnil]; rfl)
    have htext := ChunkedText.chunk (hlen.symm ▸ hline) hne (ih (hplain.next first within))
    rwa [behindChunk, ← prefix_drop first.crln, take_append_drop, ← split_line first.line]
      at htext

/-- The sum of the sizes stays below `2 ^ 63`, so no sum wraps. -/
theorem Chunks.within {m l : ℕ} (h : Chunks (fun _ => True) (some (l : ℤ)) size s data t)
    (hsize : size = m) (hm : m ≤ l) (hlen : m + s.length < 2 ^ 63) : m + data.length ≤ l := by
  induction h generalizing m with
  | last => simpa using hm
  | @chunk size s data t f n first _ within more ih =>
    subst hsize
    have hfits := first.fits
    have hbehind : (behindChunk s f n).length + n ≤ s.length := by
      rw [behindChunk, length_drop, length_drop, length_drop]
      rw [length_drop] at hfits
      omega
    have hwrap : wrap ((m : ℤ) + n) = ((m + n : ℕ) : ℤ) := by
      exact wrap_small (by omega)
    have hle : m + n ≤ l := by
      rw [hwrap, PassesLimit, Option.any_some, decide_eq_true_iff, Nat.cast_lt] at within
      exact Nat.le_of_not_lt within
    have hmore := ih hwrap hle (by omega)
    rw [length_append, length_take_of_le first.fits]
    omega

/-- A chunked text has plain lines where they are read; by induction on the text. -/
theorem ChunkedText.plain (h : ChunkedText s data t) (hlen : s.length < 2 ^ 63) :
    SizesPlain bodylimit size s := by
  induction h generalizing size with
  | @last line hline rest =>
    have hfirst := firstAt_line hline.no_crlf rest
    intro size' s' hreach
    cases hreach.cases_head with
    | inl heq =>
      cases heq
      intro f sz hf hsz
      obtain rfl := Option.some.inj (hfirst.symm.trans hf)
      rw [take_left] at hsz ⊢
      exact (hline.plain_of_read (by decide) hsz).1
    | inr hnext =>
      obtain ⟨_, ⟨first, -⟩, -⟩ := hnext
      obtain rfl := Option.some.inj (hfirst.symm.trans first.line)
      have hsz := first.size
      rw [take_left] at hsz
      have hzero := (hline.plain_of_read (by decide) hsz).2
      exact absurd (by exact_mod_cast hzero) first.pos
  | @chunk line data s body rest hline hne more ih =>
    simp only [length_append] at hlen
    have hfirst := firstAt_line hline.no_crlf (data ++ (crlf ++ s))
    intro size' s' hreach
    cases hreach.cases_head with
    | inl heq =>
      cases heq
      intro f sz hf hsz
      obtain rfl := Option.some.inj (hfirst.symm.trans hf)
      rw [take_left] at hsz ⊢
      exact (hline.plain_of_read (by omega) hsz).1
    | inr hnext =>
      obtain ⟨_, @⟨_, _, f, n, first, -⟩, hreach⟩ := hnext
      obtain rfl := Option.some.inj (hfirst.symm.trans first.line)
      have hsz := first.size
      rw [take_left] at hsz
      obtain rfl : n = data.length := by
        exact_mod_cast (hline.plain_of_read (by omega) hsz).2
      have hbehind : behindChunk (line ++ (crlf ++ (data ++ (crlf ++ s)))) line.length data.length
          = s := by
        rw [behindChunk, ← drop_drop, drop_left]
        change List.drop 2 (List.drop data.length (data ++ (crlf ++ s))) = s
        rw [drop_left]
        rfl
      rw [hbehind] at hreach
      exact ih (by omega) size' s' hreach

variable {conf : HttpConf} {header : HttpHeader}

theorem isInteger_natCast (hn : n < 2 ^ 63) : isInteger (n : ℚ) = true := by
  simp only [isInteger, Rat.den_natCast, Rat.num_natCast, decide_eq_true_iff, true_and]
  omega

/-- A body with a length, if it is returned: the length is within the limit, and so many bytes
are there. -/
theorem identityBody_length {l : Option ℤ} (hs : body ++ pieces.flatten = s)
    (hn : n < 2 ^ 63) (hlength : contentLength conf header = some (n : ℚ))
    (h : identityBody conf l header body pieces = .ok (some body')) :
    (∀ m, l = some m → (n : ℤ) ≤ m) ∧ n ≤ s.length ∧ body' = s.take n := by
  rw [identityBody, hlength] at h
  dsimp only at h
  split at h
  · nomatch h
  · next hlimit =>
    refine ⟨fun m hm => ?_, ?_⟩
    · rw [hm, Option.any_some, decide_eq_true_iff, not_lt] at hlimit
      exact_mod_cast hlimit
    · split at h
      · next hle =>
        have hle' : n ≤ body.length := by exact_mod_cast hle
        rw [subTo, if_pos (isInteger_natCast hn), Rat.num_natCast, luaSub_take hle'] at h
        cases h
        rw [← hs, take_append_of_le_length hle', length_append]
        exact ⟨by omega, rfl⟩
      · next hlt =>
        have hle : body.length ≤ n := by
          have hlt' : body.length < n := by exact_mod_cast not_le.mp hlt
          exact hlt'.le
        have hsub : (n : ℚ) - body.length = ((n - body.length : ℕ) : ℚ) := by
          rw [Nat.cast_sub hle]
        rw [hsub, if_pos (isInteger_natCast (by omega)), Rat.num_natCast, Int.toNat_natCast] at h
        obtain ⟨⟨padding, pieces₁⟩, hread, h⟩ := except_bind_ok h
        cases h
        obtain ⟨hlen, rfl, -⟩ := readExact_sound hread
        refine ⟨?_, (read_behind hs hle).1⟩
        rw [← hs, length_append]
        omega

/-- The header section ends where a read ends. -/
def EndsWithRead (pieces : Pieces) (i : ℕ) : Prop := ∃ k, (pieces.take k).flatten.length = i + 4

/-- Nothing is left behind a section exactly if a read ends there; by induction on the reads. -/
theorem recvMore_rest {lines : List Bytes} {rest : Bytes}
    (hs : body ++ pieces.flatten = s) (hnone : firstAt crlf2 body = none)
    (hi : firstAt crlf2 s = some i) (hpre : ¬crlf <+: s)
    (h : recvMore body pieces = .ok (lines, rest, pieces')) :
    rest = [] ↔ ∃ k, body.length + (pieces.take k).flatten.length = i + 4 := by
  induction pieces generalizing body with
  | nil => cases h
  | cons bytes pieces ih =>
    have hs' : (body ++ bytes) ++ pieces.flatten = s := by
      rw [← hs, flatten_cons, append_assoc]
    -- the reads so far have not come to the end
    have hshort : body.length < i + 4 := by
      rw [← hs] at hi
      exact firstAt_append_of_none hnone hi crlf2_ne_nil
    rw [recvMore, findFrom_eq hnone] at h
    cases hfind : firstAt crlf2 (body ++ bytes) with
    | some e =>
      obtain rfl := Option.some.inj (hi.symm.trans (firstAt_stream hs' hfind))
      rw [hfind] at h
      cases h
      have hle := section_length_le hfind
      rw [length_append] at hle
      rw [drop_eq_nil_iff, length_append]
      constructor
      · intro hnil
        refine ⟨1, ?_⟩
        rw [take_succ_cons, take_zero, flatten_cons, flatten_nil, append_nil]
        omega
      · rintro ⟨k, hk⟩
        cases k with
        | zero =>
          rw [take_zero, flatten_nil, length_nil] at hk
          omega
        | succ k =>
          rw [take_succ_cons, flatten_cons, length_append] at hk
          omega
    | none =>
      rw [hfind] at h
      dsimp only at h
      split at h
      · next hpre' => exact absurd (prefix_stream hs' hpre').1 hpre
      · split at h
        · cases h
        · rw [ih hs' hfind h]
          constructor
          · rintro ⟨k, hk⟩
            refine ⟨k + 1, ?_⟩
            rw [take_succ_cons, flatten_cons, length_append, ← hk, length_append]
            omega
          · rintro ⟨k, hk⟩
            cases k with
            | zero =>
              rw [take_zero, flatten_nil, length_nil] at hk
              omega
            | succ k =>
              refine ⟨k, ?_⟩
              rw [take_succ_cons, flatten_cons, length_append] at hk
              rw [length_append]
              omega

/-! ## Requests -/

/-- The header section at the start of a stream, which ends at `i`, and its fields. -/
structure RequestHead (s : Bytes) (i : ℕ) (fields : HttpHeader) : Prop where
  ends : firstAt crlf2 s = some i
  parsed : parseheader ((headerLines s).drop 1) ∅ = .ok (true, fields)

def ChunkedMode (fields : HttpHeader) : Prop :=
  fields.get transferEncoding = some (.one chunkedMode)

/-- The body is within the limit, and it is what is declared of the text `t` behind the header
section: its chunks, so many bytes of it, or nothing. -/
structure BodyDeclared (bodylimit : Option ℕ) (fields : HttpHeader) (t body : Bytes) :
    Prop where
  within : ∀ l, bodylimit = some l → body.length ≤ l
  chunked : ChunkedMode fields → ∃ rest, ChunkedText t body rest
  length : ¬ChunkedMode fields → ∀ v, fields.get contentLengthName = some v →
    ∃ value n, v = .one value ∧ Declares value n ∧ n ≤ t.length ∧ body = t.take n
  absent : ¬ChunkedMode fields → fields.get contentLengthName = none → body = []

/-- The sizes of the chunks are digits alone, the length is a decimal numeral, and without either
nothing comes with the end of the header section. -/
structure SizesWellFormed (bodylimit : Option ℕ) (fields : HttpHeader) (pieces : Pieces)
    (i : ℕ) : Prop where
  chunked : ChunkedMode fields → SizesPlain (bodylimit.map Nat.cast) 0 (pieces.flatten.drop (i + 4))
  length : ¬ChunkedMode fields → ∀ v, fields.get contentLengthName = some v →
    ∃ value n, v = .one value ∧ Declares value n ∧ n < 2 ^ 63
  absent : ¬ChunkedMode fields → fields.get contentLengthName = none → EndsWithRead pieces i

variable {url method : Bytes} {header' : Option HttpHeader} {lines : List Bytes}

theorem isChunked_ok {fields : HttpHeader} {b : Bool} (h : isChunked fields = .ok b) :
    b = true ↔ ChunkedMode fields := by
  unfold isChunked at h
  unfold ChunkedMode
  cases hget : fields.get transferEncoding with
  | none =>
    rw [hget] at h
    cases h
    simp
  | some mode =>
    rw [hget] at h
    dsimp only at h
    split at h
    · next hmode =>
      cases h
      simp [hmode]
    · next hmode =>
      split at h
      · cases h
        simp [hmode]
      · nomatch h

theorem requestBody_request
    (h : requestBody conf bodylimit lines body pieces = .ok (.request url method header' body')) :
    lines ≠ [] ∧ ∃ fields, parseheader (lines.drop 1) ∅ = .ok (true, fields) ∧
      (ChunkedMode fields → ∃ r, recvchunkedbody bodylimit fields body pieces = .ok r ∧
        r.1 = body') ∧
      (¬ChunkedMode fields →
        identityBody conf bodylimit fields body pieces = .ok (some body')) := by
  obtain ⟨⟨method₁, url₁, httpver⟩, hmatch, h⟩ := except_bind_ok h
  have hlines : lines ≠ [] := by
    rintro rfl
    nomatch hmatch
  refine ⟨hlines, ?_⟩
  dsimp only at h
  split at h
  · nomatch h
  obtain ⟨⟨returned, fields⟩, hparse, h⟩ := except_bind_ok h
  cases returned with
  | false => nomatch h
  | true =>
    refine ⟨fields, hparse, ?_⟩
    rw [Bool.not_true, if_neg Bool.false_ne_true] at h
    split at h
    · nomatch h
    · next hmode =>
      have hchunked := (isChunked_ok hmode).mp rfl
      refine ⟨fun _ => ?_, fun hnot => absurd hchunked hnot⟩
      split at h
      · next hread =>
        cases h
        exact ⟨_, hread, rfl⟩
      · nomatch h
      · nomatch h
    · next hmode =>
      have hnot : ¬ChunkedMode fields := fun hchunked =>
        Bool.false_ne_true ((isChunked_ok hmode).mpr hchunked)
      refine ⟨fun hchunked => absurd hchunked hnot, fun _ => ?_⟩
      obtain ⟨o, hbody, h⟩ := except_bind_ok h
      cases o with
      | none => nomatch h
      | some body₁ =>
        cases h
        exact hbody

/-- SRC: httpd.lua:51-109; internal.lua:8-35, 103-142

**A request that is accepted has the body that is declared for it exactly where its sizes are
well formed**, for every cut of the stream and every limit.  No string has `2 ^ 63` bytes. -/
theorem request_body_iff {bodylimit : Option ℕ} (hconf : ReadsDecimals conf)
    (hlen : pieces.flatten.length < 2 ^ 63)
    (h : readRequest conf (bodylimit.map Nat.cast) pieces =
      .ok (.request url method header' body)) :
    ∃ i fields, RequestHead pieces.flatten i fields ∧
      (BodyDeclared bodylimit fields (pieces.flatten.drop (i + 4)) body ↔
        SizesWellFormed bodylimit fields pieces i) := by
  unfold readRequest at h
  split at h
  · next lines rest pieces₁ hread =>
    obtain ⟨hlines, fields, hparse, hchunked, hidentity⟩ := requestBody_request h
    obtain ⟨rfl, hend⟩ := recvheader_sound rfl hread
    have hpre : ¬crlf <+: ([] : Bytes) ++ pieces.flatten := fun hpre =>
      hlines (headerLines_empty hpre)
    obtain ⟨i, hi, hrest⟩ := hend.resolve_left fun hend => hpre hend.1
    rw [nil_append] at hi hrest hparse
    refine ⟨i, fields, ⟨hi, hparse⟩, ?_⟩
    have hbehind : (pieces.flatten.drop (i + 4)).length < 2 ^ 63 := by
      rw [length_drop]
      omega
    constructor
    · intro hbody
      refine ⟨fun hmode => ?_, fun hmode v hv => ?_, fun hmode hnone => ?_⟩
      · obtain ⟨rest, htext⟩ := hbody.chunked hmode
        exact htext.plain hbehind
      · obtain ⟨value, n, rfl, hvalue, hn, -⟩ := hbody.length hmode v hv
        exact ⟨value, n, rfl, hvalue, by omega⟩
      · have hempty := hidentity hmode
        rw [identityBody, contentLength, hnone] at hempty
        cases hempty
        obtain ⟨k, hk⟩ := (recvMore_rest rfl rfl hi hpre hread).mp (hbody.absent hmode hnone)
        exact ⟨k, by simpa using hk⟩
    · intro hsizes
      by_cases hmode : ChunkedMode fields
      · obtain ⟨r, hrun, rfl⟩ := hchunked hmode
        have hplain := hsizes.chunked hmode
        obtain ⟨t, rest', hchunks, -⟩ := recvchunkedbody_sound hrest hplain.natural hrun
        refine ⟨?_, fun _ => ⟨t, hchunks.text hplain⟩, fun hm => absurd hmode hm,
          fun hm => absurd hmode hm⟩
        rintro l rfl
        simpa using hchunks.within (m := 0) rfl (Nat.zero_le l) (by omega)
      · have hbody := hidentity hmode
        cases hfield : fields.get contentLengthName with
        | none =>
          rw [identityBody, contentLength, hfield] at hbody
          cases hbody
          obtain ⟨k, hk⟩ := hsizes.absent hmode hfield
          obtain rfl := (recvMore_rest rfl rfl hi hpre hread).mpr ⟨k, by simpa using hk⟩
          refine ⟨fun l _ => Nat.zero_le l, fun hm => absurd hm hmode, fun _ v hv => ?_,
            fun _ _ => rfl⟩
          rw [hfield] at hv
          nomatch hv
        | some v =>
          obtain ⟨value, n, rfl, hvalue, hn⟩ := hsizes.length hmode v hfield
          have hlength : contentLength conf fields = some (n : ℚ) := by
            rw [contentLength, hfield]
            exact hconf value n hvalue hn
          obtain ⟨hlimit, hle, rfl⟩ := identityBody_length hrest hn hlength hbody
          refine ⟨?_, fun hm => absurd hm hmode, fun _ v hv => ?_, fun _ hv => ?_⟩
          · rintro l rfl
            rw [length_take_of_le hle]
            exact_mod_cast hlimit l rfl
          · rw [hfield] at hv
            exact ⟨value, n, (Option.some.inj hv).symm, hvalue, hle, rfl⟩
          · rw [hfield] at hv
            nomatch hv
  · nomatch h
  · nomatch h

/-- `tonumber`, as far as the requests below need it. -/
def numeralConf : HttpConf where
  tonumber s :=
    if s = [49, 46, 48] then some 1
    else if s.takeWhile isDigit = [] ∨ (s.dropWhile isDigit).all Http.isSpace = false then none
    else some (decimalValue (s.takeWhile isDigit))

theorem isSpace_facts : ∀ b : UInt8, Http.isSpace b = true → isDigit b = false ∧ b ≠ 46 :=
  byte_forall (by decide +kernel)

theorem numeralConf_reads : ReadsDecimals numeralConf := by
  rintro _ _ ⟨hne, hdigits, hblanks⟩ -
  rename_i digits blanks
  have htake : (digits ++ blanks).takeWhile isDigit = digits := by
    rw [takeWhile_append_of_pos hdigits]
    cases blanks with
    | nil => exact append_nil digits
    | cons b blanks =>
      have hb := (isSpace_facts b (hblanks b mem_cons_self)).1
      rw [takeWhile_cons_of_neg (by rw [hb]; decide), append_nil]
  have hdrop : (digits ++ blanks).dropWhile isDigit = blanks := by
    rw [dropWhile_append_of_pos hdigits]
    cases blanks with
    | nil => rfl
    | cons b blanks =>
      have hb := (isSpace_facts b (hblanks b mem_cons_self)).1
      rw [dropWhile_cons_of_neg (by rw [hb]; decide)]
  have hpoint : digits ++ blanks ≠ [49, 46, 48] := by
    intro heq
    have hmem : (46 : UInt8) ∈ digits ++ blanks := by rw [heq]; decide
    obtain hmem | hmem := mem_append.mp hmem
    · exact absurd (hdigits 46 hmem) (by decide)
    · exact (isSpace_facts 46 (hblanks 46 hmem)).2 rfl
  simp only [numeralConf, htake, hdrop, hpoint, hne, if_false, false_or]
  simpa using hblanks

/-- `"POST / HTTP/1.0"` and the end of the line. -/
def postLine : Bytes := [80, 79, 83, 84, 32, 47, 32, 72, 84, 84, 80, 47, 49, 46, 48, 13, 10]

/-- `"content-length: 2"` and an empty line. -/
def twoBytes : Bytes :=
  [99, 111, 110, 116, 101, 110, 116, 45, 108, 101, 110, 103, 116, 104, 58, 32, 50, 13, 10, 13, 10]

/-- `"transfer-encoding: chunked"` and an empty line. -/
def inChunks : Bytes :=
  [116, 114, 97, 110, 115, 102, 101, 114, 45, 101, 110, 99, 111, 100, 105, 110, 103, 58, 32, 99,
   104, 117, 110, 107, 101, 100, 13, 10, 13, 10]

theorem request_body_two : ∃ i fields,
    RequestHead [postLine ++ twoBytes ++ [111, 107]].flatten i fields ∧
      (BodyDeclared (some 4) fields ([postLine ++ twoBytes ++ [111, 107]].flatten.drop (i + 4))
        [111, 107] ↔ SizesWellFormed (some 4) fields [postLine ++ twoBytes ++ [111, 107]] i) :=
  request_body_iff numeralConf_reads (by decide) rfl

/-- **Bodies that are not declared**: with the limit 0 a chunk of -1 bytes gives seven, and a
request without a length has what came with its header section. -/
theorem undeclared_bodies :
    (∃ url method header, readRequest numeralConf (some 0)
      [postLine ++ inChunks ++ [45, 49, 13, 10, 13, 10, 48, 13, 10, 13, 10]] =
        .ok (.request url method header [13, 10, 48, 13, 10, 13, 10])) ∧
    ∃ url method header, readRequest numeralConf none [postLine ++ [13, 10, 111, 107]] =
      .ok (.request url method header [111, 107]) :=
  ⟨⟨_, _, _, rfl⟩, _, _, _, rfl⟩

/-! ## Responses -/

variable {fields : HttpHeader} {code : ℚ}

/-- No chunk has a size below zero, and a length is an integer of Lua that is not. -/
structure SizesGiven (conf : HttpConf) (fields : HttpHeader) (t : Bytes) : Prop where
  chunks : ChunkedMode fields → SizesNatural none 0 t
  length : ¬ChunkedMode fields → ∀ l, contentLength conf fields = some l →
    ∃ n : ℕ, n < 2 ^ 63 ∧ l = n

theorem recvbody_length {closed : Bool} {l : ℚ} (hl : contentLength conf fields = some l) :
    identityBody conf none fields body pieces =
      (recvbody conf code fields body ⟨pieces, closed⟩).map some := by
  simp only [identityBody, recvbody, hl, Option.any_none, if_neg Bool.false_ne_true]
  split
  · rfl
  · split
    · cases readExact (l - body.length).num.toNat pieces <;> rfl
    · rfl

theorem recvbody_whole {closed : Bool} (hs : body ++ pieces.flatten = t)
    (hlength : ∀ l, contentLength conf fields = some l → ∃ n : ℕ, n < 2 ^ 63 ∧ l = n)
    (h : recvbody conf code fields body ⟨pieces, closed⟩ = .ok data) :
    recvbody conf code fields t ⟨[], false⟩ = .ok data := by
  cases hl : contentLength conf fields with
  | some l =>
    obtain ⟨n, hn, rfl⟩ := hlength l hl
    have hbody := (recvbody_length hl).trans (congrArg (Except.map some) h)
    obtain ⟨-, hle, rfl⟩ := identityBody_length hs hn hl hbody
    have hle' : (t.length : ℚ) ≥ n := by exact_mod_cast hle
    simp only [recvbody, hl, if_pos hle', subTo, isInteger_natCast hn, if_true, Rat.num_natCast,
      luaSub_take hle]
  | none =>
    simp only [recvbody, hl] at h ⊢
    split at h
    · next hno => rw [if_pos hno, h]
    · next hsome =>
      obtain ⟨rest, hread, h⟩ := except_bind_ok h
      cases h
      unfold readall at hread
      split at hread
      · nomatch hread
      · cases hread
        rw [if_neg hsome, hs]
        exact congrArg Except.ok (append_nil t)

/-- What a response is read as, it is read as when all of it has come. -/
theorem response_whole {closed : Bool} {r : Bytes × HttpHeader}
    (hs : body ++ pieces.flatten = t) (hsizes : SizesGiven conf fields t)
    (h : response conf code body fields ⟨pieces, closed⟩ = .ok r) :
    response conf code t fields ⟨[], false⟩ = .ok r := by
  obtain ⟨chunked, hchunked, h⟩ := except_bind_ok h
  have hmode := isChunked_ok hchunked
  rw [response, hchunked]
  cases chunked with
  | true =>
    cases hread : recvchunkedbody none fields body pieces with
    | error e =>
      simp only [hread, if_true] at h
      split at h <;> simp_all
    | ok r' =>
      simp only [hread, if_true] at h
      cases h
      obtain ⟨t', rest, hchunks, hend, hparse⟩ :=
        recvchunkedbody_sound hs (hsizes.chunks (hmode.mp rfl)) hread
      obtain ⟨body₁, _, hwhole, hs₁, rfl⟩ := readsLines_whole.recvChunks hchunks rfl (append_nil t)
        (Nat.lt_add_one t.length) []
      rw [flatten_nil, append_nil] at hs₁
      obtain rfl := hs₁
      obtain ⟨rest', hsec⟩ := recvheader_whole hend
      simp only [recvchunkedbody_ok (append_nil t) hwhole hsec hparse, bind, Except.bind, if_true,
        nil_append]
  | false =>
    obtain ⟨data, hread, h⟩ := except_bind_ok h
    cases h
    have hplain : ¬ChunkedMode fields := fun hm => nomatch hmode.mpr hm
    change (recvbody conf code fields t ⟨[], false⟩ >>= fun _ => _) = _
    rw [recvbody_whole hs (hsizes.length hplain) hread]
    rfl

theorem request_ok_iff {r : ℚ × Bytes × HttpHeader × Pieces}
    (hread : recvheader [] pieces = .ok (lines, body, pieces')) :
    Http.request conf header pieces = .ok r ↔ ∃ code fields,
      (lines.head?.bind matchStatus).bind conf.tonumber = some code ∧
        parseheader (lines.drop 1) header = .ok (true, fields) ∧
          (code, body, fields, pieces') = r := by
  simp only [Http.request, hread, bind, Except.bind]
  cases (lines.head?.bind matchStatus).bind conf.tonumber with
  | none => simp
  | some code =>
    cases parseheader (lines.drop 1) header with
    | error e => simp
    | ok p =>
      obtain ⟨returned, fields⟩ := p
      cases returned <;> simp

theorem request_whole (h : Http.request conf header pieces = .ok (code, body, fields, pieces')) :
    Http.request conf header [pieces.flatten] =
      .ok (code, body ++ pieces'.flatten, fields, []) := by
  cases hread : recvheader [] pieces with
  | error e =>
    rw [Http.request, hread] at h
    cases e <;> nomatch h
  | ok r =>
    obtain ⟨lines, rest, pieces₁⟩ := r
    obtain ⟨hlines, hend⟩ := recvheader_sound rfl hread
    obtain ⟨_, _, hcode, hparse, ⟨⟩⟩ := (request_ok_iff hread).mp h
    rw [nil_append] at hlines hend
    obtain ⟨hpre, -⟩ | ⟨i, hi, hrest⟩ := hend
    · rw [hlines, headerLines_empty hpre] at hcode
      nomatch hcode
    · have hwhole : recvheader [] [pieces.flatten] = .ok (lines, body ++ pieces'.flatten, []) := by
        rw [recvheader_more, recvMore, findFrom_eq rfl, nil_append, hi, hlines, hrest]
      exact (request_ok_iff hwhole).mpr ⟨_, _, hcode, hparse, rfl⟩

/-- **A response does not depend on the cut**: what is read of its pieces, whether or not the
end has been noticed by then, is read of all its bytes at once.
SRC: internal.lua:166-226 -/
theorem response_at_once {pieces left : Pieces} {r : Bytes × HttpHeader}
    (h : Http.request conf header pieces = .ok (code, body, fields, left))
    (hsizes : SizesGiven conf fields (body ++ left.flatten)) (closed : Bool)
    (hresponse : response conf code body fields ⟨left, closed⟩ = .ok r) :
    ∃ body', Http.request conf header [pieces.flatten] = .ok (code, body', fields, []) ∧
      response conf code body' fields ⟨[], false⟩ = .ok r :=
  ⟨_, request_whole h, response_whole rfl hsizes hresponse⟩

/-- `"HTTP/1.1 200 OK"` and an empty line. -/
def okHead : Bytes :=
  [72, 84, 84, 80, 47, 49, 46, 49, 32, 50, 48, 48, 32, 79, 75, 13, 10, 13, 10]

theorem response_at_once_two : ∃ body',
    Http.request numeralConf ∅ [[okHead ++ [111], [107]].flatten] = .ok (200, body', ∅, []) ∧
      response numeralConf 200 body' ∅ ⟨[], false⟩ = .ok ([111, 107], ∅) := by
  have hsizes : SizesGiven numeralConf ∅ [111, 107] := by
    refine ⟨fun h => ?_, fun _ l hl => ?_⟩
    · unfold ChunkedMode at h
      exact absurd h (by decide)
    · have hnone : contentLength numeralConf ∅ = none := rfl
      exact absurd hl (by simp [hnone])
  exact response_at_once rfl hsizes true rfl

end Skynet.Analysis
