import Skynet.Model.Http

/-!
# Reads of HTTP and the cut of the stream

What the reading functions give depends on the stream alone, where it gives them anything:
what they leave is read already or still to come, but it is the same.  They do give it where
a line is short, and for every line where the whole stream has been read.
-/

namespace Skynet.Analysis

open Library Model Http List

variable {s body body' data : Bytes} {pieces pieces' : Pieces} {f i n : ℕ} {sz : ℤ}

theorem except_bind_ok {ε α β : Type} {x : Except ε α} {g : α → Except ε β} {b : β}
    (h : (do let a ← x; g a) = .ok b) : ∃ a, x = .ok a ∧ g a = .ok b := by
  cases x with
  | error e => nomatch h
  | ok a => exact ⟨a, rfl, h⟩

/-! ## Places in a stream -/

theorem crlf_ne_nil : crlf ≠ [] := nofun

theorem crlf2_ne_nil : crlf2 ≠ [] := nofun

theorem line_length_le (h : firstAt crlf s = some f) : f + 2 ≤ s.length := firstAt_add_length_le h

theorem section_length_le (h : firstAt crlf2 s = some i) : i + 4 ≤ s.length :=
  firstAt_add_length_le h

theorem firstAt_stream {sep : Bytes} (hs : body ++ pieces.flatten = s)
    (h : firstAt sep body = some i) : firstAt sep s = some i := by
  rw [← hs]
  exact firstAt_append h _

/-! ## Chunk sizes -/

theorem chunksize_line (h : firstAt crlf body = some f) (hsz : tonumber16 (body.take f) = some sz)
    (pieces : Pieces) : chunksize body pieces = .ok (sz, body.drop (f + 2), pieces) := by
  rw [chunksize.eq_def, h]
  dsimp only
  rw [hsz]

theorem chunksize_more (h : firstAt crlf body = none) (hle : body.length ≤ 128) (piece : Bytes)
    (pieces : Pieces) : chunksize body (piece :: pieces) = chunksize (body ++ piece) pieces := by
  rw [chunksize.eq_def, h]
  rw [if_neg (Nat.not_lt.mpr hle)]

theorem chunksize_long (h : firstAt crlf body = none) (hlong : 128 < body.length)
    (pieces : Pieces) : chunksize body pieces = .error .nothing := by
  rw [chunksize.eq_def, h]
  rw [if_pos hlong]

theorem line_read (hs : body ++ pieces.flatten = s) (h : firstAt crlf body = some f) :
    firstAt crlf s = some f ∧ s.take f = body.take f ∧
      body.drop (f + 2) ++ pieces.flatten = s.drop (f + 2) := by
  have hle := line_length_le h
  refine ⟨firstAt_stream hs h, ?_, ?_⟩
  · rw [← hs, take_append_of_le_length (by omega)]
  · rw [← hs, drop_append_of_le_length hle]

theorem chunksize_sound (hs : body ++ pieces.flatten = s)
    (h : chunksize body pieces = .ok (sz, body', pieces')) :
    ∃ f, firstAt crlf s = some f ∧ tonumber16 (s.take f) = some sz ∧
      body' ++ pieces'.flatten = s.drop (f + 2) := by
  induction pieces generalizing body with
  | nil =>
    rw [chunksize.eq_def] at h
    split at h
    · next f hf =>
      obtain ⟨hfirst, htake, hdrop⟩ := line_read hs hf
      split at h
      · next sz' hsz =>
        cases h
        exact ⟨f, hfirst, htake ▸ hsz, hdrop⟩
      · nomatch h
    · split at h <;> nomatch h
  | cons piece pieces ih =>
    rw [chunksize.eq_def] at h
    split at h
    · next f hf =>
      obtain ⟨hfirst, htake, hdrop⟩ := line_read hs hf
      split at h
      · next sz' hsz =>
        cases h
        exact ⟨f, hfirst, htake ▸ hsz, hdrop⟩
      · nomatch h
    · split at h
      · nomatch h
      · exact ih (by rw [← hs, flatten_cons, append_assoc]) h

theorem chunksize_short (hs : body ++ pieces.flatten = s) (hf : firstAt crlf s = some f)
    (hshort : f ≤ 127) (hsz : tonumber16 (s.take f) = some sz) :
    ∃ body' pieces', chunksize body pieces = .ok (sz, body', pieces') ∧
      body' ++ pieces'.flatten = s.drop (f + 2) := by
  induction pieces generalizing body with
  | nil =>
    rw [flatten_nil, append_nil] at hs
    rw [← hs] at hf hsz ⊢
    exact ⟨_, _, chunksize_line hf hsz [], append_nil _⟩
  | cons piece pieces ih =>
    cases hbody : firstAt crlf body with
    | some g =>
      obtain ⟨hfirst, htake, hdrop⟩ := line_read hs hbody
      obtain rfl : f = g := Option.some.inj (hf.symm.trans hfirst)
      rw [htake] at hsz
      exact ⟨_, _, chunksize_line hbody hsz _, hdrop⟩
    | none =>
      have hlt : body.length < f + 2 := by
        rw [← hs] at hf
        exact firstAt_append_of_none hbody hf crlf_ne_nil
      rw [chunksize_more hbody (by omega)]
      exact ih (by rw [← hs, flatten_cons, append_assoc])

/-! ## Data -/

theorem luaSub_take (h : n ≤ s.length) : luaSub s 1 n = s.take n := by
  have hstop : ¬(s.length : ℤ) < n := by omega
  have hpos : (0 : ℤ) ≤ n := by omega
  have hcount : ((n : ℤ) + 1 - 1).toNat = n := by omega
  simp only [luaSub, if_neg hstop, if_pos hpos, if_pos Int.one_pos, Int.sub_self, Int.toNat_zero,
    drop_zero, hcount]

theorem luaSub_drop (h : n ≤ s.length) : luaSub s (n + 1) (-1) = s.drop n := by
  have hstart : (0 : ℤ) < n + 1 := by omega
  have hstop : ¬(s.length : ℤ) < -1 := by omega
  have hneg : ¬(0 : ℤ) ≤ -1 := by omega
  have hskip : ((n : ℤ) + 1 - 1).toNat = n := by omega
  simp only [luaSub, if_pos hstart, if_neg hstop, if_neg hneg, hskip]
  refine take_of_length_le ?_
  rw [length_drop]
  split <;> omega

theorem readExact_ok (h : n ≤ pieces.flatten.length) :
    ∃ pieces', readExact n pieces = .ok (pieces.flatten.take n, pieces') ∧
      pieces'.flatten = pieces.flatten.drop n := by
  obtain ⟨pieces', htake, hrest⟩ := takeExact_spec h
  refine ⟨pieces', ?_, hrest⟩
  rw [readExact, htake]

theorem readExact_sound (h : readExact n pieces = .ok (data, pieces')) :
    n ≤ pieces.flatten.length ∧ data = pieces.flatten.take n ∧
      pieces'.flatten = pieces.flatten.drop n := by
  by_cases hle : n ≤ pieces.flatten.length
  · obtain ⟨pieces₁, hread, hrest⟩ := readExact_ok hle
    rw [hread] at h
    cases h
    exact ⟨hle, rfl, hrest⟩
  · rw [readExact, takeExact_of_lt (Nat.not_le.mp hle)] at h
    nomatch h

theorem read_behind (hs : body ++ pieces.flatten = s) (hle : body.length ≤ n) :
    body ++ pieces.flatten.take (n - body.length) = s.take n ∧
      pieces.flatten.drop (n - body.length) = s.drop n := by
  rw [← hs, take_append, take_of_length_le hle, drop_append, drop_eq_nil_of_le hle]
  exact ⟨rfl, rfl⟩

theorem takeChunk_sound (hs : body ++ pieces.flatten = s)
    (h : takeChunk n body pieces = .ok (data, body', pieces')) :
    n ≤ s.length ∧ data = s.take n ∧ body' ++ pieces'.flatten = s.drop n := by
  unfold takeChunk at h
  split at h
  · have hle' : n ≤ body.length := by omega
    rw [luaSub_take hle', luaSub_drop hle'] at h
    cases h
    refine ⟨?_, ?_, ?_⟩
    · rw [← hs, length_append]
      omega
    · rw [← hs, take_append_of_le_length hle']
    · rw [← hs, drop_append_of_le_length hle']
  · have hle : body.length ≤ n := by omega
    have hcount : ((n : ℤ) - body.length).toNat = n - body.length := by omega
    rw [hcount] at h
    obtain ⟨⟨bytes, pieces₁⟩, hread, hok⟩ := except_bind_ok h
    cases hok
    obtain ⟨hlen, rfl, hdrop⟩ := readExact_sound hread
    obtain ⟨htake, hrest⟩ := read_behind hs hle
    refine ⟨?_, htake, hdrop.trans hrest⟩
    rw [← hs, length_append]
    omega

theorem takeChunk_ok (hs : body ++ pieces.flatten = s) (h : n ≤ s.length) :
    ∃ body' pieces', takeChunk n body pieces = .ok (s.take n, body', pieces') ∧
      body' ++ pieces'.flatten = s.drop n := by
  unfold takeChunk
  split
  · have hle' : n ≤ body.length := by omega
    rw [luaSub_take hle', luaSub_drop hle']
    refine ⟨body.drop n, pieces, ?_, ?_⟩
    · rw [← hs, take_append_of_le_length hle']
    · rw [← hs, drop_append_of_le_length hle']
  · have hle : body.length ≤ n := by omega
    have hcount : ((n : ℤ) - body.length).toNat = n - body.length := by omega
    have hlen : n - body.length ≤ pieces.flatten.length := by
      rw [← hs, length_append] at h
      omega
    obtain ⟨pieces', hread, hrest⟩ := readExact_ok hlen
    obtain ⟨htake, hdrop⟩ := read_behind hs hle
    refine ⟨[], pieces', ?_, hrest.trans hdrop⟩
    rw [hcount, hread, ← htake]
    rfl

theorem prefix_iff_take : crlf <+: s ↔ s.take 2 = crlf :=
  ⟨fun h => (prefix_iff_eq_take.mp h).symm, fun h => h ▸ take_prefix 2 s⟩

theorem readcrln_sound (hs : body ++ pieces.flatten = s)
    (h : readcrln body pieces = .ok (body', pieces')) :
    crlf <+: s ∧ body' ++ pieces'.flatten = s.drop 2 := by
  unfold readcrln at h
  rw [prefix_iff_take]
  split at h
  · next hlen =>
    split at h
    · next heq =>
      cases h
      refine ⟨?_, ?_⟩
      · rw [← hs, take_append_of_le_length hlen, heq]
      · rw [← hs, drop_append_of_le_length hlen]
    · nomatch h
  · next hlen =>
    obtain ⟨⟨bytes, pieces₁⟩, hread, hok⟩ := except_bind_ok h
    obtain ⟨-, rfl, hdrop⟩ := readExact_sound hread
    obtain ⟨htake, hrest⟩ := read_behind hs (Nat.le_of_not_le hlen)
    dsimp only at hok
    rw [htake] at hok
    split at hok
    · next heq =>
      cases hok
      exact ⟨heq, hdrop.trans hrest⟩
    · nomatch hok

theorem readcrln_ok (hs : body ++ pieces.flatten = s) (h : crlf <+: s) :
    ∃ body' pieces', readcrln body pieces = .ok (body', pieces') ∧
      body' ++ pieces'.flatten = s.drop 2 := by
  have htwo := prefix_iff_take.mp h
  unfold readcrln
  split
  · next hlen =>
    rw [← hs, take_append_of_le_length hlen] at htwo
    rw [if_pos htwo]
    refine ⟨_, _, rfl, ?_⟩
    rw [← hs, drop_append_of_le_length hlen]
  · next hlen =>
    have hlen' : 2 - body.length ≤ pieces.flatten.length := by
      have := h.length_le
      rw [← hs, length_append] at this
      change 2 ≤ _ at this
      omega
    obtain ⟨pieces', hread, hrest⟩ := readExact_ok hlen'
    obtain ⟨htake, hdrop⟩ := read_behind hs (Nat.le_of_not_le hlen)
    refine ⟨[], pieces', ?_, hrest.trans hdrop⟩
    rw [hread]
    change (if body ++ _ = crlf then _ else _) = _
    rw [htake, if_pos htwo]

/-! ## Header sections -/

theorem findFrom_eq (hnone : firstAt crlf2 body = none) (bytes : Bytes) :
    findFrom crlf2 (body.length - 3) (body ++ bytes) = firstAt crlf2 (body ++ bytes) := by
  refine firstAt_drop fun j hj hat => ?_
  rw [drop_append_of_le_length (by omega)] at hat
  have hin : crlf2 <+: body.drop j := by
    refine prefix_of_prefix_length_le hat (prefix_append _ _) ?_
    rw [length_drop]
    change 4 ≤ _
    omega
  exact (firstAt_eq_none_iff crlf2_ne_nil).mp hnone
    (hin.isInfix.trans (drop_suffix j body).isInfix)

theorem line_of_section (h : crlf2 <:+: s) : ∃ f, firstAt crlf s = some f ∧
    (crlf <+: s.drop (f + 2) ∨ crlf2 <:+: s.drop (f + 2)) := by
  obtain ⟨i, hi⟩ : ∃ i, firstAt crlf2 s = some i := by
    cases hfirst : firstAt crlf2 s with
    | some i => exact ⟨i, rfl⟩
    | none => exact absurd h ((firstAt_eq_none_iff crlf2_ne_nil).mp hfirst)
  obtain ⟨hat, -⟩ := (firstAt_eq_some_iff crlf2_ne_nil).mp hi
  have hcrlf : crlf <+: s.drop i := IsPrefix.trans ⟨[13, 10], rfl⟩ hat
  obtain ⟨f, hf⟩ : ∃ f, firstAt crlf s = some f := by
    cases hfirst : firstAt crlf s with
    | some f => exact ⟨f, rfl⟩
    | none =>
      have hin := hcrlf.isInfix.trans (drop_suffix i s).isInfix
      exact absurd hin ((firstAt_eq_none_iff crlf_ne_nil).mp hfirst)
  obtain ⟨hline, hfirst⟩ := (firstAt_eq_some_iff crlf_ne_nil).mp hf
  have hle : f ≤ i := Nat.not_lt.mp fun hlt => hfirst i hlt hcrlf
  refine ⟨f, hf, ?_⟩
  rcases hle.eq_or_lt with rfl | hlt
  · left
    rw [← drop_drop]
    obtain ⟨r, hr⟩ := hat
    exact ⟨r, by rw [← hr]; rfl⟩
  · right
    -- The second byte of the line's end is not the first of another.
    have hne : i ≠ f + 1 := by
      rintro rfl
      obtain ⟨r, hr⟩ := hline
      obtain ⟨r', hr'⟩ := hat
      rw [← drop_drop, ← hr] at hr'
      nomatch hr'
    have hdrop : s.drop i = (s.drop (f + 2)).drop (i - (f + 2)) := by
      rw [drop_drop]
      congr 1
      omega
    rw [hdrop] at hat
    exact hat.isInfix.trans (drop_suffix _ _).isInfix

theorem headerLinesOf_append {m : ℕ} (h : crlf <+: body ∨ crlf2 <:+: body) (hn : body.length ≤ n)
    (hm : (body ++ data).length ≤ m) : headerLinesOf m (body ++ data) = headerLinesOf n body := by
  induction n generalizing body m with
  | zero =>
    obtain rfl := length_eq_zero_iff.mp (Nat.le_zero.mp hn)
    rcases h with h | h
    · exact absurd (prefix_nil.mp h) crlf_ne_nil
    · exact absurd (infix_nil.mp h) crlf2_ne_nil
  | succ n ih =>
    obtain ⟨f, hf, hrest⟩ : ∃ f, firstAt crlf body = some f ∧
        (f = 0 ∨ crlf <+: body.drop (f + 2) ∨ crlf2 <:+: body.drop (f + 2)) := by
      rcases h with h | h
      · exact ⟨0, (firstAt_eq_some_iff crlf_ne_nil).mpr ⟨h, nofun⟩, .inl rfl⟩
      · obtain ⟨f, hf, hrest⟩ := line_of_section h
        exact ⟨f, hf, .inr hrest⟩
    have hle := line_length_le hf
    obtain ⟨m, rfl⟩ : ∃ k, m = k + 1 := by
      rw [length_append] at hm
      exact ⟨m - 1, by omega⟩
    rw [headerLinesOf, headerLinesOf, hf, firstAt_append hf data]
    dsimp only
    by_cases hzero : f = 0
    · rw [if_pos hzero, if_pos hzero]
    · rw [if_neg hzero, if_neg hzero, take_append_of_le_length (by omega),
        drop_append_of_le_length hle]
      rw [ih (hrest.resolve_left hzero)]
      · rw [length_drop]
        omega
      · rw [length_append] at hm
        rw [length_append, length_drop]
        omega

theorem headerLines_stream (hs : body ++ pieces.flatten = s)
    (h : crlf <+: body ∨ crlf2 <:+: body) : headerLines s = headerLines body := by
  rw [← hs]
  exact headerLinesOf_append h le_rfl le_rfl

theorem headerLines_empty (h : crlf <+: s) : headerLines s = [] := by
  have hf : firstAt crlf s = some 0 := (firstAt_eq_some_iff crlf_ne_nil).mpr ⟨h, nofun⟩
  unfold headerLines
  cases s.length with
  | zero => rfl
  | succ n =>
    rw [headerLinesOf, hf]
    rfl

theorem section_read (hs : body ++ pieces.flatten = s) (h : firstAt crlf2 body = some i) :
    firstAt crlf2 s = some i ∧ headerLines s = headerLines body ∧
      body.drop (i + 4) ++ pieces.flatten = s.drop (i + 4) := by
  refine ⟨firstAt_stream hs h, headerLines_stream hs (.inr ?_), ?_⟩
  · obtain ⟨hat, -⟩ := (firstAt_eq_some_iff crlf2_ne_nil).mp h
    exact hat.isInfix.trans (drop_suffix i body).isInfix
  · rw [← hs, drop_append_of_le_length (section_length_le h)]

def SectionEnd (s rest : Bytes) : Prop :=
  crlf <+: s ∧ rest = s.drop 2 ∨ ∃ i, firstAt crlf2 s = some i ∧ rest = s.drop (i + 4)

def ShortSection (s : Bytes) : Prop :=
  crlf <+: s ∨ ∃ i, firstAt crlf2 s = some i ∧ i + 4 ≤ limit + 1

variable {lines : List Bytes} {rest : Bytes}

theorem prefix_stream (hs : body ++ pieces.flatten = s) (h : crlf <+: body) :
    crlf <+: s ∧ body.drop 2 ++ pieces.flatten = s.drop 2 := by
  have hle : 2 ≤ body.length := h.length_le
  rw [← hs, drop_append_of_le_length hle]
  exact ⟨h.trans (prefix_append _ _), rfl⟩

theorem recvMore_sound (hs : body ++ pieces.flatten = s) (hnone : firstAt crlf2 body = none)
    (h : recvMore body pieces = .ok (lines, rest, pieces')) :
    lines = headerLines s ∧ SectionEnd s (rest ++ pieces'.flatten) := by
  induction pieces generalizing body with
  | nil => nomatch h
  | cons bytes pieces ih =>
    have hs' : (body ++ bytes) ++ pieces.flatten = s := by
      rw [← hs, flatten_cons, append_assoc]
    rw [recvMore, findFrom_eq hnone] at h
    cases hfind : firstAt crlf2 (body ++ bytes) with
    | some e =>
      obtain ⟨hfirst, hlines, hdrop⟩ := section_read hs' hfind
      rw [hfind] at h
      cases h
      exact ⟨hlines.symm, .inr ⟨e, hfirst, hdrop⟩⟩
    | none =>
      rw [hfind] at h
      dsimp only at h
      split at h
      · next hpre =>
        obtain ⟨hpre', hdrop⟩ := prefix_stream hs' hpre
        cases h
        exact ⟨(headerLines_empty hpre').symm, .inl ⟨hpre', hdrop⟩⟩
      · split at h
        · nomatch h
        · exact ih hs' hfind h

/-- **What `recvheader` returns** are the lines of the section, and a place behind an empty
line. -/
theorem recvheader_sound (hs : body ++ pieces.flatten = s)
    (h : recvheader body pieces = .ok (lines, rest, pieces')) :
    lines = headerLines s ∧ SectionEnd s (rest ++ pieces'.flatten) := by
  unfold recvheader at h
  split at h
  · next hpre =>
    obtain ⟨hpre', hdrop⟩ := prefix_stream hs hpre
    cases h
    exact ⟨(headerLines_empty hpre').symm, .inl ⟨hpre', hdrop⟩⟩
  · split at h
    · next e he =>
      obtain ⟨hfirst, hlines, hdrop⟩ := section_read hs he
      cases h
      exact ⟨hlines.symm, .inr ⟨e, hfirst, hdrop⟩⟩
    · next hnone => exact recvMore_sound hs hnone h

theorem recvMore_ok (hs : body ++ pieces.flatten = s) (hnone : firstAt crlf2 body = none)
    (hpre : ¬crlf <+: body) (h : ShortSection s) :
    ∃ lines rest pieces', recvMore body pieces = .ok (lines, rest, pieces') := by
  induction pieces generalizing body with
  | nil =>
    rw [flatten_nil, append_nil] at hs
    rw [hs] at hnone hpre
    rcases h with h | ⟨i, hi, -⟩
    · exact absurd h hpre
    · rw [hnone] at hi
      nomatch hi
  | cons bytes pieces ih =>
    have hs' : (body ++ bytes) ++ pieces.flatten = s := by
      rw [← hs, flatten_cons, append_assoc]
    rw [recvMore, findFrom_eq hnone]
    cases hfind : firstAt crlf2 (body ++ bytes) with
    | some e => exact ⟨_, _, _, rfl⟩
    | none =>
      dsimp only
      split
      · exact ⟨_, _, _, rfl⟩
      · next hpre' =>
        have hlen : (body ++ bytes).length ≤ limit := by
          rcases h with h | ⟨i, hi, hle⟩
          · have hlt : (body ++ bytes).length < 2 := by
              by_contra hge
              rw [← hs'] at h
              refine hpre' (prefix_of_prefix_length_le h (prefix_append _ _) ?_)
              exact Nat.not_lt.mp hge
            exact Nat.le_trans hlt.le (by decide)
          · rw [← hs'] at hi
            have hlt : (body ++ bytes).length < i + 4 :=
              firstAt_append_of_none hfind hi crlf2_ne_nil
            omega
        rw [if_neg (Nat.not_lt.mpr hlen)]
        exact ih hs' hfind hpre'

theorem recvheader_ok (hs : body ++ pieces.flatten = s) (h : ShortSection s) :
    ∃ lines rest pieces', recvheader body pieces = .ok (lines, rest, pieces') := by
  unfold recvheader
  split
  · exact ⟨_, _, _, rfl⟩
  · next hpre =>
    split
    · exact ⟨_, _, _, rfl⟩
    · next hnone => exact recvMore_ok hs hnone hpre h

/-! ## Streams that come byte by byte -/

theorem chunksize_singles (hnone : firstAt crlf body = none) (data : Bytes)
    (h : chunksize body (singles data) = .ok (sz, body', pieces')) :
    body' = [] ∧ pieces' = singles pieces'.flatten := by
  induction data generalizing body with
  | nil =>
    rw [chunksize.eq_def, hnone] at h
    dsimp only at h
    split at h <;> nomatch h
  | cons b data ih =>
    by_cases hlong : 128 < body.length
    · rw [chunksize_long hnone hlong] at h
      nomatch h
    · change chunksize body ([b] :: singles data) = _ at h
      rw [chunksize_more hnone (Nat.not_lt.mp hlong)] at h
      cases hline : firstAt crlf (body ++ [b]) with
      | none => exact ih hline h
      | some f =>
        have hlt : body.length < f + 2 := firstAt_append_of_none hnone hline crlf_ne_nil
        rw [chunksize.eq_def, hline] at h
        dsimp only at h
        split at h
        · cases h
          refine ⟨drop_eq_nil_of_le ?_, by rw [flatten_singles]⟩
          rw [length_append, length_singleton]
          omega
        · nomatch h

theorem chunksize_singles_long (hs : body ++ data = s) (hf : firstAt crlf s = some f)
    (hlong : 127 < f) (hle : body.length ≤ 129) :
    chunksize body (singles data) = .error .nothing := by
  have hnone : firstAt crlf body = none := by
    rw [← hs] at hf
    refine firstAt_none_of_lt hf ?_
    change _ < f + 2
    omega
  induction data generalizing body with
  | nil =>
    rw [append_nil] at hs
    rw [hs, hf] at hnone
    nomatch hnone
  | cons b data ih =>
    by_cases hlong' : 128 < body.length
    · exact chunksize_long hnone hlong' _
    · change chunksize body ([b] :: singles data) = _
      rw [chunksize_more hnone (Nat.not_lt.mp hlong')]
      have hs' : (body ++ [b]) ++ data = s := by
        rw [← hs, append_assoc, singleton_append]
      have hlen : (body ++ [b]).length ≤ 129 := by
        rw [length_append, length_singleton]
        omega
      refine ih hs' hlen ?_
      rw [← hs'] at hf
      refine firstAt_none_of_lt hf ?_
      change _ < f + 2
      omega

theorem takeChunk_singles (h : n ≤ s.length) :
    takeChunk n [] (singles s) = .ok (s.take n, [], singles (s.drop n)) := by
  cases n with
  | zero => rfl
  | succ n =>
    have hneg : ¬(([] : Bytes).length : ℤ) ≥ (n + 1 : ℕ) := by
      rw [length_nil]
      omega
    have hcount : (((n + 1 : ℕ) : ℤ) - (([] : Bytes).length : ℤ)).toNat = n + 1 := by
      rw [length_nil]
      omega
    unfold takeChunk readExact
    rw [if_neg hneg, hcount, takeExact_singles h]
    rfl

theorem readcrln_singles (h : crlf <+: s) :
    readcrln [] (singles s) = .ok ([], singles (s.drop 2)) := by
  have hlen : 2 - ([] : Bytes).length ≤ s.length := h.length_le
  have htwo := prefix_iff_take.mp h
  unfold readcrln readExact
  rw [if_neg (by decide), takeExact_singles hlen]
  change (if s.take 2 = crlf then _ else _) = _
  rw [if_pos htwo]
  rfl

theorem recvheader_singles_empty (h : crlf <+: s) :
    recvheader [] (singles s) = .ok ([], [], singles (s.drop 2)) := by
  obtain ⟨r, rfl⟩ := h
  rfl

theorem recvMore_singles (hnone : firstAt crlf2 body = none) (hpre : ¬crlf <+: body)
    (data : Bytes) (h : recvMore body (singles data) = .ok (lines, rest, pieces')) :
    rest = [] ∧ pieces' = singles pieces'.flatten := by
  induction data generalizing body with
  | nil => nomatch h
  | cons b data ih =>
    change recvMore body ([b] :: singles data) = _ at h
    rw [recvMore, findFrom_eq hnone] at h
    cases hfind : firstAt crlf2 (body ++ [b]) with
    | some e =>
      have hlt : body.length < e + 4 := firstAt_append_of_none hnone hfind crlf2_ne_nil
      rw [hfind] at h
      cases h
      refine ⟨drop_eq_nil_of_le ?_, by rw [flatten_singles]⟩
      rw [length_append, length_singleton]
      omega
    | none =>
      rw [hfind] at h
      dsimp only at h
      split at h
      · next hpre' =>
        have hlt : body.length < 2 := by
          by_contra hge
          refine hpre (prefix_of_prefix_length_le hpre' (prefix_append _ _) ?_)
          exact Nat.not_lt.mp hge
        cases h
        refine ⟨drop_eq_nil_of_le ?_, by rw [flatten_singles]⟩
        rw [length_append, length_singleton]
        omega
      · next hpre' =>
        split at h
        · nomatch h
        · exact ih hfind hpre' h

theorem recvMore_singles_long (hs : body ++ data = s) (hpre : ¬crlf <+: s)
    (hi : firstAt crlf2 s = some i) (hlong : limit + 1 < i + 4) (hle : body.length ≤ limit) :
    recvMore body (singles data) = .error .nothing := by
  have hyet : ∀ {start rest : Bytes}, start ++ rest = s → start.length ≤ limit + 1 →
      firstAt crlf2 start = none := by
    intro start rest hstart hlen
    rw [← hstart] at hi
    exact firstAt_none_of_lt hi (Nat.lt_of_le_of_lt hlen hlong)
  induction data generalizing body with
  | nil =>
    have hnone := hyet hs (Nat.le_succ_of_le hle)
    rw [append_nil] at hs
    rw [hs, hi] at hnone
    nomatch hnone
  | cons b data ih =>
    have hs' : (body ++ [b]) ++ data = s := by
      rw [← hs, append_assoc, singleton_append]
    have hlen : (body ++ [b]).length ≤ limit + 1 := by
      rw [length_append, length_singleton]
      omega
    have hpre' : ¬crlf <+: body ++ [b] := by
      intro h
      rw [← hs'] at hpre
      exact hpre (h.trans (prefix_append _ _))
    change recvMore body ([b] :: singles data) = _
    rw [recvMore, findFrom_eq (hyet hs (Nat.le_succ_of_le hle)), hyet hs' hlen]
    dsimp only
    rw [if_neg hpre']
    split
    · rfl
    · next hshort => exact ih hs' (Nat.not_lt.mp hshort)

end Skynet.Analysis
