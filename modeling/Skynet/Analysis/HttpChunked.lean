import Skynet.Analysis.HttpReads

/-!
# Header sections and chunked bodies, however they are cut

What `recvheader` and `recvchunkedbody` give for a stream depends on how it comes: a section
that starts with an empty line ends there or at a later one, a line with a size may be as long
as it likes if it comes at once, a size below zero is taken from what has come so far, and what
came behind a body is gone.  For all other streams it does not.
-/

namespace Skynet.Analysis

open Library Model Http List Option

variable {s t body body' data result result' : Bytes} {pieces pieces' : Pieces}
  {f i n turns : ℕ} {size sz : ℤ} {bodylimit : Option ℤ}

/-! ## Cuts -/

structure CutsTo (s body : Bytes) (pieces : Pieces) : Prop where
  stream : body ++ pieces.flatten = s
  nonempty : ∀ piece ∈ pieces, piece ≠ []

theorem cutsTo_whole (s : Bytes) : CutsTo s s [] := ⟨append_nil s, nofun⟩

theorem cutsTo_singles (s : Bytes) : CutsTo s [] (singles s) := by
  refine ⟨flatten_singles s, fun piece hpiece => ?_⟩
  obtain ⟨b, -, rfl⟩ := mem_map.mp hpiece
  exact cons_ne_nil b []

theorem cutsTo_one (hs : s ≠ []) : CutsTo s [] [s] := by
  refine ⟨append_nil s, fun piece hpiece => ?_⟩
  rw [mem_singleton.mp hpiece]
  exact hs

def headerOutcome :
    Except HttpStop (List Bytes × Bytes × Pieces) →
      Option (List Bytes × Bytes)
  | .ok (lines, rest, pieces) => some (lines, rest ++ pieces.flatten)
  | .error _ => none

def bodyOutcome :
    Except HttpStop (Bytes × Bool × HttpHeader × Pieces) →
      Option (Bytes × Bool × HttpHeader × Bytes)
  | .ok (result, returned, header, pieces) => some (result, returned, header, pieces.flatten)
  | .error _ => none

def HeaderUncut (s : Bytes) : Prop :=
  ∀ body pieces body' pieces', CutsTo s body pieces → CutsTo s body' pieces' →
    headerOutcome (recvheader body pieces) = headerOutcome (recvheader body' pieces')

def BodyUncut (bodylimit : Option ℤ) (header : HttpHeader) (s : Bytes) : Prop :=
  ∀ body pieces body' pieces', CutsTo s body pieces → CutsTo s body' pieces' →
    bodyOutcome (recvchunkedbody bodylimit header body pieces) =
      bodyOutcome (recvchunkedbody bodylimit header body' pieces')

/-! ## Header sections -/

/-- A section that starts with an empty line has no other end behind it, and another one ends
within what `recvheader` reads at most. -/
def HeaderPlain (s : Bytes) : Prop := (crlf <+: s → ¬crlf2 <:+: s) ∧
    (¬crlf <+: s → ∀ i, firstAt crlf2 s = some i → i + 4 ≤ limit + 1)

variable {rest : Bytes}

theorem HeaderPlain.short (h : HeaderPlain s) (hend : SectionEnd s rest) : ShortSection s := by
  by_cases hpre : crlf <+: s
  · exact .inl hpre
  · obtain ⟨hpre', -⟩ | ⟨i, hi, -⟩ := hend
    · exact absurd hpre' hpre
    · exact .inr ⟨i, hi, h.2 hpre i hi⟩

theorem HeaderPlain.unique {rest rest' : Bytes} (h : HeaderPlain s)
    (hend : SectionEnd s rest) (hend' : SectionEnd s rest') : rest = rest' := by
  have hno : crlf <+: s → ∀ i, firstAt crlf2 s ≠ some i := by
    intro hpre i hi
    have hnone := (firstAt_eq_none_iff crlf2_ne_nil).mpr (h.1 hpre)
    rw [hnone] at hi
    nomatch hi
  obtain ⟨hpre, rfl⟩ | ⟨i, hi, rfl⟩ := hend <;> obtain ⟨hpre', rfl⟩ | ⟨j, hj, rfl⟩ := hend'
  · rfl
  · exact absurd hj (hno hpre j)
  · exact absurd hi (hno hpre' i)
  · rw [some.inj (hi.symm.trans hj)]

theorem HeaderPlain.outcome (h : HeaderPlain s) {o : List Bytes × Bytes}
    (hs : body ++ pieces.flatten = s) (hs' : body' ++ pieces'.flatten = s)
    (ho : headerOutcome (recvheader body pieces) = some o) :
    headerOutcome (recvheader body' pieces') = some o := by
  cases hread : recvheader body pieces with
  | error e =>
    rw [hread] at ho
    nomatch ho
  | ok r =>
    obtain ⟨lines, rest, pieces₁⟩ := r
    rw [hread] at ho
    obtain ⟨hlines, hend⟩ := recvheader_sound hs hread
    obtain ⟨lines', rest', pieces₂, hread'⟩ := recvheader_ok hs' (h.short hend)
    obtain ⟨hlines', hend'⟩ := recvheader_sound hs' hread'
    rw [hread', ← ho]
    change some (lines', rest' ++ pieces₂.flatten) = some (lines, rest ++ pieces₁.flatten)
    rw [hlines, hlines', h.unique hend hend']

theorem outcome_eq {α : Type} {a b : Option α} (hab : ∀ o, a = some o → b = some o)
    (hba : ∀ o, b = some o → a = some o) : a = b :=
  ext fun o => ⟨hab o, hba o⟩

theorem recvheader_more (pieces : Pieces) : recvheader [] pieces = recvMore [] pieces := rfl

theorem recvheader_singles_long (hpre : ¬crlf <+: s) (hi : firstAt crlf2 s = some i)
    (hlong : limit + 1 < i + 4) : recvheader [] (singles s) = .error .nothing := by
  exact recvMore_singles_long (nil_append s) hpre hi hlong (Nat.zero_le limit)

/-- **Header sections.**  What `recvheader` gives does not depend on the cut exactly where the
section is plain. -/
theorem headerUncut_iff (s : Bytes) : HeaderUncut s ↔ HeaderPlain s := by
  constructor
  · intro h
    refine ⟨fun hpre hin => ?_, fun hpre i hi => ?_⟩
    · obtain ⟨i, hi⟩ : ∃ i, firstAt crlf2 s = some i := by
        cases hfirst : firstAt crlf2 s with
        | some i => exact ⟨i, rfl⟩
        | none => exact absurd hin ((firstAt_eq_none_iff crlf2_ne_nil).mp hfirst)
      have hle := section_length_le hi
      have hs : s ≠ [] := by
        rintro rfl
        cases hi
      have heq := h s [] [] [s] (cutsTo_whole s) (cutsTo_one hs)
      have hwhole : recvheader s [] = .ok ([], s.drop 2, []) := by
        rw [recvheader, if_pos hpre]
      have hone : recvheader [] [s] = .ok (headerLines s, s.drop (i + 4), []) := by
        rw [recvheader_more, recvMore, findFrom_eq rfl, nil_append, hi]
      rw [hwhole, hone] at heq
      have hdrop := (Prod.mk.inj (some.inj heq)).2
      have hlen := congrArg List.length hdrop
      rw [length_append, length_append, length_drop, length_drop] at hlen
      omega
    · by_contra hlong
      have heq := h s [] [] (singles s) (cutsTo_whole s) (cutsTo_singles s)
      have hwhole : recvheader s [] = .ok (headerLines s, s.drop (i + 4), []) := by
        rw [recvheader, if_neg hpre, hi]
      rw [hwhole, recvheader_singles_long hpre hi (Nat.not_le.mp hlong)] at heq
      cases heq
  · intro h body pieces body' pieces' hcut hcut'
    exact outcome_eq (fun o => h.outcome hcut.stream hcut'.stream)
      (fun o => h.outcome hcut'.stream hcut.stream)

/-! ## Chunks -/

structure ChunkAt (s : Bytes) (f n : ℕ) : Prop where
  line : firstAt crlf s = some f
  size : tonumber16 (s.take f) = some (n : ℤ)
  pos : n ≠ 0
  fits : n ≤ (s.drop (f + 2)).length
  crln : crlf <+: (s.drop (f + 2)).drop n

def behindChunk (s : Bytes) (f n : ℕ) : Bytes := ((s.drop (f + 2)).drop n).drop 2

def PassesLimit (bodylimit : Option ℤ) (size : ℤ) : Prop := bodylimit.any (· < size) = true

/-- The chunks of a stream up to the last, which has no data: their data, and what is behind
the line of the last.  `P` is what the lines have to be like. -/
inductive Chunks (P : ℕ → Prop) (bodylimit : Option ℤ) :
    ℤ → Bytes → Bytes → Bytes → Prop
  | last {size : ℤ} {s : Bytes} {f : ℕ} (line : firstAt crlf s = some f) (hline : P f)
      (zero : tonumber16 (s.take f) = some 0) : Chunks P bodylimit size s [] (s.drop (f + 2))
  | chunk {size : ℤ} {s data t : Bytes} {f n : ℕ} (first : ChunkAt s f n) (hline : P f)
      (within : ¬PassesLimit bodylimit (wrap (size + n)))
      (more : Chunks P bodylimit (wrap (size + n)) (behindChunk s f n) data t) :
      Chunks P bodylimit size s ((s.drop (f + 2)).take n ++ data) t

inductive NextChunk (bodylimit : Option ℤ) : ℤ × Bytes → ℤ × Bytes → Prop
  | next {size : ℤ} {s : Bytes} {f n : ℕ} (first : ChunkAt s f n)
      (within : ¬PassesLimit bodylimit (wrap (size + n))) :
      NextChunk bodylimit (size, s) (wrap (size + n), behindChunk s f n)

def SizesNatural (bodylimit : Option ℤ) (size : ℤ) (s : Bytes) : Prop :=
  ∀ size' s', Relation.ReflTransGen (NextChunk bodylimit) (size, s) (size', s') →
    ∀ f sz, firstAt crlf s' = some f → tonumber16 (s'.take f) = some sz → 0 ≤ sz

theorem SizesNatural.next (h : SizesNatural bodylimit size s) (hfirst : ChunkAt s f n)
    (hwithin : ¬PassesLimit bodylimit (wrap (size + n))) :
    SizesNatural bodylimit (wrap (size + n)) (behindChunk s f n) :=
  fun size' s' hreach => h size' s' (.head (.next hfirst hwithin) hreach)

theorem ChunkAt.behind_length (h : ChunkAt s f n) : (behindChunk s f n).length + 2 ≤ s.length := by
  have hle := line_length_le h.line
  rw [behindChunk, length_drop, length_drop, length_drop]
  omega

theorem recvChunks_chunk {body₁ body₂ body₃ : Bytes} {pieces₁ pieces₂ pieces₃ : Pieces}
    (hn : n ≠ 0) (hline : chunksize body pieces = .ok ((n : ℤ), body₁, pieces₁))
    (hwithin : ¬PassesLimit bodylimit (wrap (size + n)))
    (htake : takeChunk n body₁ pieces₁ = .ok (data, body₂, pieces₂))
    (hcrln : readcrln body₂ pieces₂ = .ok (body₃, pieces₃)) :
    recvChunks bodylimit (turns + 1) size result body pieces =
      recvChunks bodylimit turns (wrap (size + n)) (result ++ data) body₃ pieces₃ := by
  have hzero : ¬(n : ℤ) = 0 := by exact_mod_cast hn
  have hwithin' : ¬bodylimit.any (· < wrap (size + n)) = true := hwithin
  rw [recvChunks, hline]
  change (if (n : ℤ) = 0 then _ else _) = _
  rw [if_neg hzero]
  rw [if_neg hwithin', htake]
  change (readcrln body₂ pieces₂ >>= fun _ => _) = _
  rw [hcrln]
  rfl

theorem recvChunks_last (hline : chunksize body pieces = .ok (0, body', pieces')) :
    recvChunks bodylimit (turns + 1) size result body pieces = .ok (result, body', pieces') := by
  rw [recvChunks, hline]
  rfl

theorem recvChunks_sound (hs : body ++ pieces.flatten = s)
    (hnat : SizesNatural bodylimit size s)
    (h : recvChunks bodylimit turns size result body pieces = .ok (result', body', pieces')) :
    ∃ data, result' = result ++ data ∧
      Chunks (fun _ => True) bodylimit size s data (body' ++ pieces'.flatten) := by
  induction turns generalizing size result body pieces s with
  | zero => nomatch h
  | succ turns ih =>
    obtain ⟨⟨sz, body₁, pieces₁⟩, hline, h⟩ := except_bind_ok h
    obtain ⟨f, hf, hsz, hs₁⟩ := chunksize_sound hs hline
    dsimp only at h
    split at h
    · next hzero =>
      obtain ⟨rfl, hrest⟩ := Prod.mk.inj (Except.ok.inj h)
      obtain ⟨rfl, rfl⟩ := Prod.mk.inj hrest
      refine ⟨[], (append_nil result).symm, ?_⟩
      rw [hs₁]
      exact .last hf trivial (hzero ▸ hsz)
    · next hzero =>
      obtain ⟨n, rfl⟩ := Int.eq_ofNat_of_zero_le (hnat size s .refl f sz hf hsz)
      split at h
      · nomatch h
      · next hwithin =>
        obtain ⟨⟨data₁, body₂, pieces₂⟩, htake, h⟩ := except_bind_ok h
        obtain ⟨⟨body₃, pieces₃⟩, hcrln, h⟩ := except_bind_ok h
        obtain ⟨hfits, rfl, hs₂⟩ := takeChunk_sound hs₁ htake
        obtain ⟨hpre, hs₃⟩ := readcrln_sound hs₂ hcrln
        have hn : n ≠ 0 := by
          rintro rfl
          exact hzero rfl
        have hfirst : ChunkAt s f n := ⟨hf, hsz, hn, hfits, hpre⟩
        obtain ⟨data, rfl, hmore⟩ := ih hs₃ (hnat.next hfirst hwithin) h
        exact ⟨_, append_assoc _ _ _, .chunk hfirst trivial hwithin hmore⟩

/-- A way of coming, `A`, in which lines that are `P` are read. -/
structure ReadsLines (A : Bytes → Pieces → Prop) (P : ℕ → Prop) : Prop where
  line : ∀ {s body pieces f sz}, A body pieces → body ++ pieces.flatten = s →
    firstAt crlf s = some f → P f → tonumber16 (s.take f) = some sz →
      ∃ body' pieces', chunksize body pieces = .ok (sz, body', pieces') ∧
        body' ++ pieces'.flatten = s.drop (f + 2) ∧ A body' pieces'
  take : ∀ {s body pieces} {n : ℕ}, A body pieces → body ++ pieces.flatten = s → n ≤ s.length →
    ∃ body' pieces', takeChunk n body pieces = .ok (s.take n, body', pieces') ∧
      body' ++ pieces'.flatten = s.drop n ∧ A body' pieces'
  crln : ∀ {s body pieces}, A body pieces → body ++ pieces.flatten = s → crlf <+: s →
    ∃ body' pieces', readcrln body pieces = .ok (body', pieces') ∧
      body' ++ pieces'.flatten = s.drop 2 ∧ A body' pieces'

theorem readsLines_short : ReadsLines (fun _ _ => True) (· ≤ 127) where
  line := by
    rintro s body pieces f sz - hs hf hshort hsz
    obtain ⟨body', pieces', hline, hs'⟩ := chunksize_short hs hf hshort hsz
    exact ⟨body', pieces', hline, hs', trivial⟩
  take := by
    rintro s body pieces n - hs hn
    obtain ⟨body', pieces', htake, hs'⟩ := takeChunk_ok hs hn
    exact ⟨body', pieces', htake, hs', trivial⟩
  crln := by
    rintro s body pieces - hs hpre
    obtain ⟨body', pieces', hcrln, hs'⟩ := readcrln_ok hs hpre
    exact ⟨body', pieces', hcrln, hs', trivial⟩

theorem readsLines_whole : ReadsLines (fun _ pieces => pieces = []) (fun _ => True) where
  line := by
    rintro s body _ f sz rfl hs hf - hsz
    rw [flatten_nil, append_nil] at hs
    obtain rfl := hs
    exact ⟨_, _, chunksize_line hf hsz [], append_nil _, rfl⟩
  take := by
    rintro s body _ n rfl hs hn
    rw [flatten_nil, append_nil] at hs
    obtain rfl := hs
    refine ⟨body.drop n, [], ?_, append_nil _, rfl⟩
    have hle : (body.length : ℤ) ≥ n := by exact_mod_cast hn
    rw [takeChunk, if_pos hle, luaSub_take hn, luaSub_drop hn]
  crln := by
    rintro s body _ rfl hs hpre
    rw [flatten_nil, append_nil] at hs
    obtain rfl := hs
    refine ⟨body.drop 2, [], ?_, append_nil _, rfl⟩
    have hle : body.length ≥ 2 := hpre.length_le
    rw [readcrln, if_pos hle, if_pos (prefix_iff_take.mp hpre)]

theorem readsLines_singles :
    ReadsLines (fun body pieces => body = [] ∧ ∃ s, pieces = singles s) (· ≤ 127) where
  line := by
    rintro s _ _ f sz ⟨rfl, s, rfl⟩ hs hf hshort hsz
    obtain ⟨body', pieces', hline, hs'⟩ := chunksize_short hs hf hshort hsz
    obtain ⟨hbody, hpieces⟩ := chunksize_singles rfl s hline
    exact ⟨body', pieces', hline, hs', hbody, _, hpieces⟩
  take := by
    rintro s _ _ n ⟨rfl, s, rfl⟩ hs hn
    rw [nil_append, flatten_singles] at hs
    obtain rfl := hs
    exact ⟨_, _, takeChunk_singles hn, flatten_singles _, rfl, _, rfl⟩
  crln := by
    rintro s _ _ ⟨rfl, s, rfl⟩ hs hpre
    rw [nil_append, flatten_singles] at hs
    obtain rfl := hs
    exact ⟨_, _, readcrln_singles hpre, flatten_singles _, rfl, _, rfl⟩

theorem ReadsLines.recvChunk {A : Bytes → Pieces → Prop} {P : ℕ → Prop} (hA : ReadsLines A P)
    (ha : A body pieces) (hs : body ++ pieces.flatten = s) (hfirst : ChunkAt s f n) (hP : P f)
    (hwithin : ¬PassesLimit bodylimit (wrap (size + n))) (turns : ℕ) (result : Bytes) :
    ∃ body' pieces', A body' pieces' ∧ body' ++ pieces'.flatten = behindChunk s f n ∧
      recvChunks bodylimit (turns + 1) size result body pieces =
        recvChunks bodylimit turns (wrap (size + n)) (result ++ (s.drop (f + 2)).take n)
          body' pieces' := by
  obtain ⟨body₁, pieces₁, hline, hs₁, ha₁⟩ := hA.line ha hs hfirst.line hP hfirst.size
  obtain ⟨body₂, pieces₂, htake, hs₂, ha₂⟩ := hA.take ha₁ hs₁ hfirst.fits
  obtain ⟨body₃, pieces₃, hcrln, hs₃, ha₃⟩ := hA.crln ha₂ hs₂ hfirst.crln
  exact ⟨body₃, pieces₃, ha₃, hs₃, recvChunks_chunk hfirst.pos hline hwithin htake hcrln⟩

theorem ReadsLines.recvChunks {A : Bytes → Pieces → Prop} {P : ℕ → Prop} (hA : ReadsLines A P)
    (h : Chunks P bodylimit size s data t) (ha : A body pieces)
    (hs : body ++ pieces.flatten = s) (hturns : s.length < turns) (result : Bytes) :
    ∃ body' pieces', recvChunks bodylimit turns size result body pieces =
      .ok (result ++ data, body', pieces') ∧ body' ++ pieces'.flatten = t ∧ A body' pieces' := by
  induction h generalizing body pieces turns result with
  | last hf hP hzero =>
    obtain ⟨turns, rfl⟩ := Nat.exists_eq_succ_of_ne_zero (Nat.ne_zero_of_lt hturns)
    obtain ⟨body', pieces', hline, hs', ha'⟩ := hA.line ha hs hf hP hzero
    refine ⟨body', pieces', ?_, hs', ha'⟩
    rw [append_nil]
    exact recvChunks_last hline
  | @chunk size s data t f n hfirst hP hwithin hmore ih =>
    obtain ⟨turns, rfl⟩ := Nat.exists_eq_succ_of_ne_zero (Nat.ne_zero_of_lt hturns)
    obtain ⟨body₁, pieces₁, ha₁, hs₁, heq⟩ := hA.recvChunk ha hs hfirst hP hwithin turns result
    have hlen : (behindChunk s f n).length < turns := by
      have := hfirst.behind_length
      omega
    obtain ⟨body', pieces', hok, hs', ha'⟩ := ih ha₁ hs₁ hlen (result ++ (s.drop (f + 2)).take n)
    refine ⟨body', pieces', ?_, hs', ha'⟩
    rw [heq, hok, append_assoc]

theorem recvChunks_singles_long (h : Chunks (fun _ => True) bodylimit size s data t)
    (hlong : ¬Chunks (· ≤ 127) bodylimit size s data t) (hturns : s.length < turns)
    (result : Bytes) :
    recvChunks bodylimit turns size result [] (singles s) = .error .nothing := by
  induction h generalizing turns result with
  | last hf hP hzero =>
    obtain ⟨turns, rfl⟩ := Nat.exists_eq_succ_of_ne_zero (Nat.ne_zero_of_lt hturns)
    have hline := chunksize_singles_long (nil_append _) hf
      (Nat.not_le.mp fun hle => hlong (.last hf hle hzero)) (Nat.zero_le _)
    rw [recvChunks, hline]
    rfl
  | @chunk size s data t f n hfirst hP hwithin hmore ih =>
    obtain ⟨turns, rfl⟩ := Nat.exists_eq_succ_of_ne_zero (Nat.ne_zero_of_lt hturns)
    by_cases hle : f ≤ 127
    · have hrest := fun h => hlong (.chunk hfirst hle hwithin h)
      obtain ⟨body₁, pieces₁, ⟨rfl, s₁, rfl⟩, hs₁, heq⟩ :=
        readsLines_singles.recvChunk ⟨rfl, s, rfl⟩ (flatten_singles s) hfirst hle hwithin turns result
      rw [nil_append, flatten_singles] at hs₁
      have hlen := hfirst.behind_length
      rw [heq, hs₁]
      exact ih hrest (by omega) _
    · have hline := chunksize_singles_long (nil_append _) hfirst.line (Nat.not_le.mp hle)
        (Nat.zero_le _)
      rw [recvChunks, hline]
      rfl

/-! ## Chunked bodies -/

/-- A stream in which no size is below zero; and if it has a chunked body with a trailer, then
the lines of its chunks and the trailer are short, and nothing is behind it. -/
def BodyPlain (bodylimit : Option ℤ) (header : HttpHeader) (s : Bytes) : Prop :=
  SizesNatural bodylimit 0 s ∧
    ∀ data t, Chunks (fun _ => True) bodylimit 0 s data t → (∃ rest, SectionEnd t rest) →
      (∃ r, parseheader (headerLines t) header = .ok r) →
        Chunks (· ≤ 127) bodylimit 0 s data t ∧ ShortSection t ∧
          ∀ rest, SectionEnd t rest → rest = []

variable {header : HttpHeader}

theorem recvchunkedbody_ok {lines : List Bytes}
    {pieces₁ pieces₂ : Pieces} {r : Bool × HttpHeader} (hs : body ++ pieces.flatten = s)
    (hchunks : recvChunks bodylimit (s.length + 1) 0 [] body pieces = .ok (result, body', pieces₁))
    (hread : recvheader body' pieces₁ = .ok (lines, rest, pieces₂))
    (hparse : parseheader lines header = .ok r) :
    recvchunkedbody bodylimit header body pieces = .ok (result, r.1, r.2, pieces₂) := by
  rw [recvchunkedbody, hs, hchunks]
  change (recvheader body' pieces₁ >>= fun _ => _) = _
  rw [hread]
  change (parseheader lines header >>= fun _ => _) = _
  rw [hparse]
  rfl

theorem recvchunkedbody_sound {r : Bytes × Bool × HttpHeader × Pieces}
    (hs : body ++ pieces.flatten = s) (hnat : SizesNatural bodylimit 0 s)
    (h : recvchunkedbody bodylimit header body pieces = .ok r) :
    ∃ t rest, Chunks (fun _ => True) bodylimit 0 s r.1 t ∧ SectionEnd t (rest ++ r.2.2.2.flatten) ∧
      parseheader (headerLines t) header = .ok (r.2.1, r.2.2.1) := by
  obtain ⟨⟨result, body₁, pieces₁⟩, hchunks, h⟩ := except_bind_ok h
  obtain ⟨⟨lines, rest, pieces₂⟩, hread, h⟩ := except_bind_ok h
  obtain ⟨⟨returned, header'⟩, hparse, h⟩ := except_bind_ok h
  cases h
  obtain ⟨data, rfl, hdata⟩ := recvChunks_sound hs hnat hchunks
  obtain ⟨rfl, hend⟩ := recvheader_sound rfl hread
  exact ⟨_, rest, hdata, hend, hparse⟩

theorem BodyPlain.outcome (h : BodyPlain bodylimit header s) {o : Bytes × Bool × HttpHeader × Bytes}
    (hs : body ++ pieces.flatten = s) (hs' : body' ++ pieces'.flatten = s)
    (ho : bodyOutcome (recvchunkedbody bodylimit header body pieces) = some o) :
    bodyOutcome (recvchunkedbody bodylimit header body' pieces') = some o := by
  obtain ⟨hnat, hplain⟩ := h
  cases hbody : recvchunkedbody bodylimit header body pieces with
  | error e =>
    rw [hbody] at ho
    nomatch ho
  | ok r =>
    rw [hbody] at ho
    obtain ⟨t, rest, hchunks, hend, hparse⟩ := recvchunkedbody_sound hs hnat hbody
    obtain ⟨hshort, hsection, hlast⟩ := hplain _ t hchunks ⟨_, hend⟩ ⟨_, hparse⟩
    obtain ⟨body₁, pieces₁, hread, hs₁, -⟩ := readsLines_short.recvChunks hshort trivial hs'
      (Nat.lt_add_one s.length) []
    obtain ⟨lines, rest', pieces₂, hsec⟩ := recvheader_ok hs₁ hsection
    obtain ⟨rfl, hend'⟩ := recvheader_sound hs₁ hsec
    have hnil : r.2.2.2.flatten = [] := (append_eq_nil_iff.mp (hlast _ hend)).2
    have hnil' : pieces₂.flatten = [] := (append_eq_nil_iff.mp (hlast _ hend')).2
    rw [recvchunkedbody_ok hs' hread hsec hparse, ← ho]
    change some ([] ++ r.1, r.2.1, r.2.2.1, pieces₂.flatten) =
      some (r.1, r.2.1, r.2.2.1, r.2.2.2.flatten)
    rw [hnil, hnil', nil_append]

/-- A stream that ends with the trailer, byte by byte: the trailer is short, and it has one
end. -/
theorem recvheader_singles_last {lines : List Bytes}
    (h : recvheader [] (singles t) = .ok (lines, rest, pieces')) (hnil : pieces'.flatten = []) :
    ShortSection t ∧ ∀ rest, SectionEnd t rest → rest = [] := by
  by_cases hpre : crlf <+: t
  · refine ⟨.inl hpre, ?_⟩
    rw [recvheader_singles_empty hpre] at h
    cases h
    rw [flatten_singles] at hnil
    have hlen := drop_eq_nil_iff.mp hnil
    rintro rest (⟨-, rfl⟩ | ⟨i, hi, rfl⟩)
    · exact hnil
    · have := section_length_le hi
      omega
  · obtain ⟨-, hend⟩ := recvheader_sound (flatten_singles t) h
    obtain ⟨rfl, -⟩ := recvMore_singles rfl (fun h => crlf_ne_nil (prefix_nil.mp h)) t h
    rw [hnil] at hend
    obtain ⟨hpre', -⟩ | ⟨i, hi, hdrop⟩ := hend
    · exact absurd hpre' hpre
    · refine ⟨.inr ⟨i, hi, ?_⟩, ?_⟩
      · by_contra hlong
        rw [recvheader_singles_long hpre hi (Nat.not_le.mp hlong)] at h
        nomatch h
      · rintro rest (⟨hpre', -⟩ | ⟨j, hj, rfl⟩)
        · exact absurd hpre' hpre
        · rw [← some.inj (hi.symm.trans hj)]
          exact hdrop.symm

theorem recvheader_whole (h : SectionEnd t rest) :
    ∃ rest', recvheader t [] = .ok (headerLines t, rest', []) := by
  rw [recvheader]
  by_cases hpre : crlf <+: t
  · rw [if_pos hpre, headerLines_empty hpre]
    exact ⟨_, rfl⟩
  · obtain ⟨hpre', -⟩ | ⟨i, hi, -⟩ := h
    · exact absurd hpre' hpre
    · rw [if_neg hpre, hi]
      exact ⟨_, rfl⟩

theorem BodyUncut.plain (h : BodyUncut bodylimit header s)
    (hnat : SizesNatural bodylimit 0 s) : BodyPlain bodylimit header s := by
  refine ⟨hnat, ?_⟩
  rintro data t hchunks ⟨rest, hend⟩ ⟨r, hparse⟩
  obtain ⟨body₁, _, hread, hs₁, rfl⟩ := readsLines_whole.recvChunks hchunks rfl (append_nil s)
    (Nat.lt_add_one s.length) []
  rw [flatten_nil, append_nil] at hs₁
  obtain rfl := hs₁
  obtain ⟨rest', hsec⟩ := recvheader_whole hend
  have hwhole := recvchunkedbody_ok (append_nil s) hread hsec hparse
  have heq := h s [] [] (singles s) (cutsTo_whole s) (cutsTo_singles s)
  rw [hwhole] at heq
  by_cases hshort : Chunks (· ≤ 127) bodylimit 0 s data body₁
  · refine ⟨hshort, ?_⟩
    obtain ⟨body₂, _, hread', hs₂, rfl, s₂, rfl⟩ := readsLines_singles.recvChunks hshort
      ⟨rfl, s, rfl⟩ (flatten_singles s) (Nat.lt_add_one s.length) []
    rw [nil_append, flatten_singles] at hs₂
    obtain rfl := hs₂
    cases hsec' : recvheader [] (singles s₂) with
    | error e =>
      rw [recvchunkedbody, (cutsTo_singles s).stream, hread'] at heq
      change _ = bodyOutcome (recvheader [] (singles s₂) >>= fun _ => _) at heq
      rw [hsec'] at heq
      cases heq
    | ok r' =>
      obtain ⟨lines, rest₂, pieces₂⟩ := r'
      obtain ⟨rfl, -⟩ := recvheader_sound (flatten_singles s₂) hsec'
      rw [recvchunkedbody_ok (flatten_singles s) hread' hsec' hparse] at heq
      obtain ⟨-, heq⟩ := Prod.mk.inj (some.inj heq)
      obtain ⟨-, heq⟩ := Prod.mk.inj heq
      obtain ⟨-, hnil⟩ := Prod.mk.inj heq
      exact recvheader_singles_last hsec' hnil.symm
  · rw [recvchunkedbody, (cutsTo_singles s).stream,
      recvChunks_singles_long hchunks hshort (Nat.lt_add_one s.length) []] at heq
    cases heq

/-- **Reading HTTP does not depend on the cut** of a stream exactly where its header section is
plain, for `recvheader`; and for `recvchunkedbody`, among the streams with no size below zero,
exactly where its chunked body is plain. -/
theorem reading_uncut_iff (bodylimit : Option ℤ) (header : HttpHeader) (s : Bytes) :
    (HeaderUncut s ↔ HeaderPlain s) ∧ (BodyUncut bodylimit header s ∧ SizesNatural bodylimit 0 s ↔
        BodyPlain bodylimit header s) := by
  refine ⟨headerUncut_iff s, fun ⟨h, hnat⟩ => h.plain hnat, fun h => ⟨?_, h.1⟩⟩
  intro body pieces body' pieces' hcut hcut'
  exact outcome_eq (fun o => h.outcome hcut.stream hcut'.stream)
    (fun o => h.outcome hcut'.stream hcut.stream)

/-- A section that starts with an empty line, read at once and in two pieces; and a chunked body
with a byte behind it. -/
theorem emptyLine_depends_on_cut :
    ¬HeaderUncut [13, 10, 88, 13, 10, 13, 10] ∧ ¬BodyUncut none ∅ [48, 13, 10, 13, 10, 88] := by
  refine ⟨fun h => ?_, fun h => ?_⟩
  · have hcut : CutsTo [13, 10, 88, 13, 10, 13, 10] [] [[13, 10], [88, 13, 10, 13, 10]] :=
      ⟨rfl, by decide⟩
    have heq := h [] _ [] _ hcut (cutsTo_one (by decide))
    revert heq
    decide
  · have hcut : CutsTo [48, 13, 10, 13, 10, 88] [] [[48, 13, 10], [13, 10], [88]] :=
      ⟨rfl, by decide⟩
    have heq := h [] _ [] _ hcut (cutsTo_one (by decide))
    have hplace := congrArg (Option.map fun o => o.2.2.2) heq
    nomatch hplace

end Skynet.Analysis
