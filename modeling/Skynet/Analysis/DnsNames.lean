import Skynet.Library.Outcome
import Skynet.Library.Walk
import Skynet.Model.Dns

/-!
# Names in DNS packets

`unpack_name` walks over the labels of a name and follows its pointers, which lead anywhere
in the packet.  It ends exactly where that walk does not come back to where it has been, and
so does the reading of a response, name by name.
-/

namespace Skynet.Analysis

open Library Model Dns

variable {chunk : Bytes} {left off fuel n p q e : ℕ} {t t' : List Bytes}
  {jump : Option ℕ}

/-! ## The walk -/

/-- The number in `n` bytes of the packet, the highest first. -/
def numberAt (n : ℕ) (chunk : Bytes) (left : ℕ) : ℕ := leNat ((chunk.drop left).take n).reverse

/-- What stands at a place of a name. -/
inductive NamePart
  | zero
  | pointer (offset : ℕ)
  | label (next : ℕ)

def namePart (chunk : Bytes) (left : ℕ) : Option NamePart :=
  if left + 1 ≤ chunk.length then
    if numberAt 1 chunk left &&& 0xc0 = 0xc0 then
      if left + 2 ≤ chunk.length then some (.pointer (numberAt 2 chunk left &&& 0x3fff)) else none
    else if numberAt 1 chunk left = 0 then some .zero
    else if left + 1 + numberAt 1 chunk left ≤ chunk.length then
      some (.label (left + 1 + numberAt 1 chunk left))
    else none
  else none

/-- Where the name goes on. -/
def nameStep (chunk : Bytes) (left : ℕ) : Option ℕ :=
  match namePart chunk left with
  | some (.pointer offset) => some offset
  | some (.label next) => some next
  | _ => none

/-- A name is encoded in place from one place to another: labels, and at their end the zero
byte or a pointer. -/
inductive InPlace (chunk : Bytes) : ℕ → ℕ → Prop
  | zero {p : ℕ} (h : namePart chunk p = some .zero) : InPlace chunk p (p + 1)
  | pointer {p offset : ℕ} (h : namePart chunk p = some (.pointer offset)) : InPlace chunk p (p + 2)
  | label {p q e : ℕ} (h : namePart chunk p = some (.label q)) (hrest : InPlace chunk q e) :
    InPlace chunk p e

/-- The walk ends at a zero byte. -/
def NameReads (chunk : Bytes) (p : ℕ) : Prop :=
  ∃ z, Leads (nameStep chunk) p z ∧ namePart chunk z = some .zero

theorem nameStep_lt (h : nameStep chunk p = some q) : p < chunk.length := by
  unfold nameStep namePart at h
  grind

theorem InPlace.inside (h : InPlace chunk p e) : p < e ∧ e ≤ chunk.length := by
  induction h with
  | zero h => unfold namePart at h; grind
  | pointer h => unfold namePart at h; grind
  | label h _ ih => unfold namePart at h; grind

theorem InPlace.unique {e' : ℕ} (h : InPlace chunk p e) (h' : InPlace chunk p e') : e = e' := by
  induction h with
  | zero h => cases h' <;> simp_all
  | pointer h => cases h' <;> simp_all
  | label h _ ih =>
    cases h' with
    | zero h₁ => simp [h] at h₁
    | pointer h₁ => simp [h] at h₁
    | label h₁ hrest =>
      rw [h] at h₁
      cases h₁
      exact ih hrest

theorem NameReads.not_returns (h : NameReads chunk p) : ¬ Returns (nameStep chunk) p := by
  obtain ⟨z, hz, hzero⟩ := h
  intro hreturns
  have hend : Returns (nameStep chunk) z := by
    clear hzero
    induction hz with
    | refl => exact hreturns
    | tail _ hstep ih => exact ih.step hstep
  obtain ⟨q, hq⟩ := hend.goes_on
  rw [nameStep, hzero] at hq
  nomatch hq

/-! ## The loop of `unpack_name` -/

theorem unpackNumber_eq (n : ℕ) (chunk : Bytes) (left : ℕ) : unpackNumber n chunk left =
    if left + n ≤ chunk.length then .ok (numberAt n chunk left, left + n) else .error .error :=
  rfl

/-- One round. -/
theorem unpackLabels_succ (chunk : Bytes) (fuel left : ℕ) (t : List Bytes)
    (jump : Option ℕ) : unpackLabels chunk (fuel + 1) left t jump =
      match namePart chunk left with
      | none => .error .error
      | some .zero => .ok (t, jump.getD (left + 1))
      | some (.pointer offset) => unpackLabels chunk fuel offset t (some (jump.getD (left + 2)))
      | some (.label next) => unpackLabels chunk fuel next
          (t ++ [(chunk.drop (left + 1)).take (numberAt 1 chunk left)]) jump := by
  rw [unpackLabels, namePart]
  simp only [unpackString, unpackNumber_eq, bind, Except.bind]
  by_cases h₁ : left + 1 ≤ chunk.length
  · simp only [if_pos h₁]
    by_cases hpointer : numberAt 1 chunk left &&& 0xc0 = 0xc0
    · simp only [if_pos hpointer]
      by_cases h₂ : left + 2 ≤ chunk.length
      · simp only [if_pos h₂]
      · simp only [if_neg h₂]
    · by_cases hzero : numberAt 1 chunk left = 0
      · simp only [if_neg hpointer, if_pos hzero]
      · by_cases hlabel : left + 1 + numberAt 1 chunk left ≤ chunk.length
        · simp only [if_neg hpointer, if_neg hzero, if_pos hlabel]
        · simp only [if_neg hpointer, if_neg hzero, if_neg hlabel]
  · simp only [if_neg h₁]

/-- The rounds run out exactly where the walk goes on for as many steps. -/
theorem unpackLabels_endless_iff : unpackLabels chunk fuel left t jump = .error .endless ↔
    walk (nameStep chunk) fuel left ≠ none := by
  induction fuel generalizing left t jump with
  | zero => simp [unpackLabels, walk]
  | succ fuel ih =>
    rw [unpackLabels_succ, walk, nameStep]
    cases hpart : namePart chunk left with
    | none => simp
    | some part =>
      cases part with
      | zero => simp
      | pointer offset => exact ih
      | label next => exact ih

theorem unpackLabels_ok (h : unpackLabels chunk fuel left t jump = .ok (t', off)) :
    NameReads chunk left ∧ (jump = some off ∨ jump = none ∧ InPlace chunk left off) := by
  induction fuel generalizing left t jump with
  | zero => nomatch h
  | succ fuel ih =>
    rw [unpackLabels_succ] at h
    cases hpart : namePart chunk left with
    | none => simp [hpart] at h
    | some part =>
      rw [hpart] at h
      cases part with
      | zero =>
        obtain ⟨-, rfl⟩ := Prod.mk.inj (Except.ok.inj h)
        refine ⟨⟨left, .refl left, hpart⟩, ?_⟩
        cases jump with
        | none => exact .inr ⟨rfl, .zero hpart⟩
        | some j => exact .inl rfl
      | pointer offset =>
        obtain ⟨⟨z, hz, hzero⟩, hoff⟩ := ih h
        refine ⟨⟨z, .step (by rw [nameStep, hpart]) hz, hzero⟩, ?_⟩
        obtain hoff | ⟨hnone, -⟩ := hoff
        · cases jump with
          | none => exact .inr ⟨rfl, Option.some.inj hoff ▸ .pointer hpart⟩
          | some j => exact .inl hoff
        · nomatch hnone
      | label next =>
        obtain ⟨⟨z, hz, hzero⟩, hoff⟩ := ih h
        exact ⟨⟨z, .step (by rw [nameStep, hpart]) hz, hzero⟩,
          hoff.imp id fun hplace => ⟨hplace.1, .label hpart hplace.2⟩⟩

theorem unpackLabels_error (h : unpackLabels chunk fuel left t jump = .error .error) :
    ¬ NameReads chunk left := by
  induction fuel generalizing left t jump with
  | zero => nomatch h
  | succ fuel ih =>
    rintro ⟨z, hz, hzero⟩
    rw [unpackLabels_succ] at h
    have hnext : ∀ q, nameStep chunk left = some q → NameReads chunk q := by
      intro q hq
      rcases Relation.ReflTransGen.cases_head hz with rfl | ⟨q', hq', hz'⟩
      · rw [nameStep, hzero] at hq
        nomatch hq
      · exact ⟨z, Option.some.inj (hq.symm.trans hq') ▸ hz', hzero⟩
    cases hpart : namePart chunk left with
    | none =>
      rcases Relation.ReflTransGen.cases_head hz with rfl | ⟨q, hq, -⟩
      · rw [hpart] at hzero
        nomatch hzero
      · rw [nameStep, hpart] at hq
        nomatch hq
    | some part =>
      rw [hpart] at h
      rw [nameStep, hpart] at hnext
      cases part with
      | zero => nomatch h
      | pointer offset => exact ih h (hnext offset rfl)
      | label next => exact ih h (hnext next rfl)

/-- **The loop ends exactly where the walk does not come back.** -/
theorem unpackLabels_ends_iff :
    (∃ fuel, unpackLabels chunk fuel left t jump ≠ .error .endless) ↔
      ¬ Returns (nameStep chunk) left := by
  constructor
  · rintro ⟨fuel, h⟩ hreturns
    exact h (unpackLabels_endless_iff.mpr (hreturns.walk_ne_none fuel))
  · intro h
    refine ⟨chunk.length + 1, fun hendless => h ?_⟩
    exact returns_of_walk (fun _ _ => nameStep_lt) (unpackLabels_endless_iff.mp hendless)

theorem unpackName_cases (chunk : Bytes) (left : ℕ) :
    (unpackName chunk left = .error .endless ∧ Returns (nameStep chunk) left) ∨
    (unpackName chunk left = .error .error ∧ ¬ Returns (nameStep chunk) left ∧
      ¬ NameReads chunk left) ∨
    ∃ name off, unpackName chunk left = .ok (name, off) ∧ NameReads chunk left ∧
      InPlace chunk left off := by
  unfold unpackName
  cases h : unpackLabels chunk (chunk.length + 1) left [] none with
  | error fault =>
    cases fault with
    | endless =>
      exact .inl ⟨rfl, returns_of_walk (fun _ _ => nameStep_lt) (unpackLabels_endless_iff.mp h)⟩
    | error =>
      refine .inr (.inl ⟨rfl, ?_, unpackLabels_error h⟩)
      exact unpackLabels_ends_iff.mp ⟨_, by rw [h]; nofun⟩
  | ok r =>
    obtain ⟨hreads, hjump | ⟨-, hplace⟩⟩ := unpackLabels_ok h
    · nomatch hjump
    · exact .inr (.inr ⟨_, _, rfl, hreads, hplace⟩)

/-! ## Records -/

/-- An answer that can be read lies from one place to another. -/
def AnswerLies (chunk : Bytes) (p e : ℕ) : Prop :=
  NameReads chunk p ∧ ∃ n, InPlace chunk p n ∧ n + 10 ≤ chunk.length ∧
    e = n + 10 + numberAt 2 chunk (n + 8) ∧ e ≤ chunk.length ∧
    (numberAt 2 chunk n = qtypeA → 4 ≤ numberAt 2 chunk (n + 8)) ∧
    (numberAt 2 chunk n = qtypeAAAA → 16 ≤ numberAt 2 chunk (n + 8))

/-- The walks of the names of so many answers, of which the first begins at a place, do not
come back: as far as one answer can be read after the other. -/
def AnswersEnd (chunk : Bytes) : ℕ → ℕ → Prop
  | 0, _ => True
  | k + 1, p => ¬ Returns (nameStep chunk) p ∧ ∀ e, AnswerLies chunk p e → AnswersEnd chunk k e

/-- The same for a response: its question, with the name behind the header, and the answers
behind the question. -/
def ResponseEnds (chunk : Bytes) : Prop :=
  dnsHeaderLen ≤ chunk.length → numberAt 2 chunk 4 = 1 → ¬ Returns (nameStep chunk) dnsHeaderLen ∧
    ∀ n, NameReads chunk dnsHeaderLen → InPlace chunk dnsHeaderLen n → n + 4 ≤ chunk.length →
      AnswersEnd chunk (numberAt 2 chunk 6) (n + 4)

theorem unpackNumbers_cases (n count : ℕ) (hleft : left ≤ chunk.length) :
    (left + count * n ≤ chunk.length ∧ ∃ l, unpackNumbers n chunk count left = .ok l) ∨
    (¬ left + count * n ≤ chunk.length ∧ unpackNumbers n chunk count left = .error .error) := by
  induction count generalizing left with
  | zero => exact .inl ⟨by omega, [], rfl⟩
  | succ count ih =>
    rw [unpackNumbers, unpackNumber_eq, Nat.succ_mul]
    by_cases hn : left + n ≤ chunk.length
    · rw [if_pos hn]
      obtain ⟨hlen, l, hl⟩ | ⟨hlen, hl⟩ := ih hn
      · exact .inl ⟨by omega, numberAt n chunk left :: l, by simp only [bind, Except.bind, hl]⟩
      · exact .inr ⟨by omega, by simp only [bind, Except.bind, hl]⟩
    · exact .inr ⟨by omega, by rw [if_neg hn]; rfl⟩

theorem unpackRdata_cases (qtype : ℕ) (rdata : Bytes) :
    (((qtype = qtypeA → 4 ≤ rdata.length) ∧ (qtype = qtypeAAAA → 16 ≤ rdata.length)) ∧
      ∃ address, unpackRdata qtype rdata = .ok address) ∨
    (¬ ((qtype = qtypeA → 4 ≤ rdata.length) ∧ (qtype = qtypeAAAA → 16 ≤ rdata.length)) ∧
      unpackRdata qtype rdata = .error .error) := by
  unfold unpackRdata
  split
  · next hA =>
    have hne : qtype ≠ qtypeAAAA := by rw [hA]; decide
    obtain ⟨hlen, l, hl⟩ | ⟨hlen, hl⟩ := unpackNumbers_cases 1 4 rdata.length.zero_le
    · exact .inl ⟨⟨fun _ => by omega, fun h => absurd h hne⟩, _, by rw [hl]; rfl⟩
    · exact .inr ⟨fun h => hlen (by have := h.1 hA; omega), by rw [hl]; rfl⟩
  · next hA =>
    split
    · next hAAAA =>
      obtain ⟨hlen, l, hl⟩ | ⟨hlen, hl⟩ := unpackNumbers_cases 2 8 rdata.length.zero_le
      · exact .inl ⟨⟨fun h => absurd h hA, fun _ => by omega⟩, _, by rw [hl]; rfl⟩
      · exact .inr ⟨fun h => hlen (by have := h.2 hAAAA; omega), by rw [hl]; rfl⟩
    · next hAAAA => exact .inl ⟨⟨fun h => absurd h hA, fun h => absurd h hAAAA⟩, _, rfl⟩

/-- **What becomes of an answer**: its name never ends, or it lies from here to where the
reading goes on, or an error is raised. -/
theorem unpackAnswer_cases (chunk : Bytes) (p : ℕ) :
    (unpackAnswer chunk p = .error .endless ∧ Returns (nameStep chunk) p) ∨
    (¬ Returns (nameStep chunk) p ∧
      ((∃ a e, unpackAnswer chunk p = .ok (a, e) ∧ ∀ e', AnswerLies chunk p e' ↔ e' = e) ∨
        unpackAnswer chunk p = .error .error ∧ ∀ e, ¬ AnswerLies chunk p e)) := by
  unfold unpackAnswer
  obtain ⟨hname, hreturns⟩ | ⟨hname, hreturns, hreads⟩ | ⟨name, n, hname, hreads, hplace⟩ :=
    unpackName_cases chunk p
  · exact .inl ⟨by rw [hname]; rfl, hreturns⟩
  · exact .inr ⟨hreturns, .inr ⟨by rw [hname]; rfl, fun e h => hreads h.1⟩⟩
  · refine .inr ⟨hreads.not_returns, ?_⟩
    have hlies : ∀ e, AnswerLies chunk p e ↔ n + 10 ≤ chunk.length ∧
        e = n + 10 + numberAt 2 chunk (n + 8) ∧ e ≤ chunk.length ∧
        (numberAt 2 chunk n = qtypeA → 4 ≤ numberAt 2 chunk (n + 8)) ∧
        (numberAt 2 chunk n = qtypeAAAA → 16 ≤ numberAt 2 chunk (n + 8)) := by
      intro e
      refine ⟨fun ⟨_, n', hplace', h⟩ => hplace'.unique hplace ▸ h, fun h => ⟨hreads, n, hplace, h⟩⟩
    simp only [hname, unpackString, unpackNumber_eq, bind, Except.bind, hlies]
    by_cases h₁₀ : n + 10 ≤ chunk.length
    · simp only [if_pos (show n + 2 ≤ chunk.length by omega),
        if_pos (show n + 4 ≤ chunk.length by omega), if_pos (show n + 8 ≤ chunk.length by omega),
        if_pos h₁₀]
      by_cases hlen : n + 10 + numberAt 2 chunk (n + 8) ≤ chunk.length
      · have hrdata := unpackRdata_cases (numberAt 2 chunk n)
          ((chunk.drop (n + 10)).take (numberAt 2 chunk (n + 8)))
        rw [List.length_take, List.length_drop, Nat.min_eq_left (by omega)] at hrdata
        simp only [if_pos hlen]
        obtain ⟨hok, address, hrdata⟩ | ⟨hok, hrdata⟩ := hrdata
        · refine .inl ⟨⟨name, _, _, _, _, address⟩, _, by rw [hrdata], fun e => ?_⟩
          exact ⟨fun h => h.2.1, fun h => ⟨h₁₀, h, h ▸ hlen, hok⟩⟩
        · exact .inr ⟨by rw [hrdata], fun e h => hok h.2.2.2⟩
      · refine .inr ⟨?_, fun e h => hlen (h.2.1 ▸ h.2.2.1)⟩
        simp only [if_neg hlen]
    · refine .inr ⟨?_, fun e h => h₁₀ h.1⟩
      grind

theorem unpackAnswers_endless_iff {k : ℕ} :
    unpackAnswers chunk k p = .error .endless ↔ ¬ AnswersEnd chunk k p := by
  induction k generalizing p with
  | zero => simp [unpackAnswers, AnswersEnd]
  | succ k ih =>
    rw [unpackAnswers, AnswersEnd, not_and_or, not_not, bind_eq_error]
    obtain ⟨hanswer, hreturns⟩ | ⟨hreturns, ⟨a, e, hanswer, hlies⟩ | ⟨hanswer, hlies⟩⟩ :=
      unpackAnswer_cases chunk p
    · exact iff_of_true (.inl hanswer) (.inl hreturns)
    · have hrest : (do let answers ← unpackAnswers chunk k e; Except.ok (a :: answers)) =
          .error .endless ↔ unpackAnswers chunk k e = .error .endless := by
        rw [bind_eq_error]
        exact ⟨fun h => h.elim id nofun, .inl⟩
      simp only [hanswer, hreturns, hlies, forall_eq, false_or, ← ih, ← hrest]
      refine ⟨fun h => ?_, fun h => .inr ⟨_, rfl, h⟩⟩
      obtain h | ⟨_, ha, hr⟩ := h
      · nomatch h
      · cases ha
        exact hr
    · simp [hanswer, hreturns, hlies]

/-- The question is where the walk of its name does not come back, the name can be read, and
four bytes follow it. -/
theorem unpackQuestion_cases (chunk : Bytes) (p : ℕ) :
    (unpackQuestion chunk p = .error .endless ∧ Returns (nameStep chunk) p) ∨
    (¬ Returns (nameStep chunk) p ∧
      ((∃ q n, unpackQuestion chunk p = .ok (q, n + 4) ∧ NameReads chunk p ∧
          InPlace chunk p n ∧ n + 4 ≤ chunk.length) ∨
        unpackQuestion chunk p = .error .error ∧
          ∀ n, NameReads chunk p → InPlace chunk p n → ¬ n + 4 ≤ chunk.length)) := by
  unfold unpackQuestion
  obtain ⟨hname, hreturns⟩ | ⟨hname, hreturns, hreads⟩ | ⟨name, n, hname, hreads, hplace⟩ :=
    unpackName_cases chunk p
  · exact .inl ⟨by rw [hname]; rfl, hreturns⟩
  · exact .inr ⟨hreturns, .inr ⟨by rw [hname]; rfl, fun _ h => absurd h hreads⟩⟩
  · refine .inr ⟨hreads.not_returns, ?_⟩
    simp only [hname, unpackNumber_eq, bind, Except.bind]
    by_cases h₄ : n + 4 ≤ chunk.length
    · refine .inl ⟨⟨name, numberAt 2 chunk n, numberAt 2 chunk (n + 2)⟩, n, ?_, hreads, hplace, h₄⟩
      simp only [if_pos (show n + 2 ≤ chunk.length by omega), if_pos h₄]
    · refine .inr ⟨by grind, fun n' _ hplace' => hplace'.unique hplace ▸ h₄⟩

theorem unpackNumber_bind_endless {α : Type} {f : ℕ × ℕ → Except DnsFault α} :
    unpackNumber n chunk left >>= f = .error .endless ↔
      left + n ≤ chunk.length ∧ f (numberAt n chunk left, left + n) = .error .endless := by
  rw [unpackNumber_eq]
  split
  · next h => exact ⟨fun hf => ⟨h, hf⟩, And.right⟩
  · next h => exact ⟨nofun, fun hf => absurd hf.1 h⟩

/-- **A response is read to its end, or to an error,** exactly where no name that it comes to
goes on for ever. -/
theorem unpackPacket_endless_iff : unpackPacket chunk = .error .endless ↔ ¬ ResponseEnds chunk := by
  unfold unpackPacket ResponseEnds dnsHeaderLen
  simp only [unpackNumber_bind_endless, Nat.reduceAdd, Classical.not_imp]
  by_cases hlen : 12 ≤ chunk.length
  · by_cases hqd : numberAt 2 chunk 4 = 1
    · simp only [hlen, hqd, ne_eq, not_true_eq_false, if_false, true_and, bind_eq_error,
        not_and_or, not_not, show 2 ≤ chunk.length by omega, show 4 ≤ chunk.length by omega,
        show 6 ≤ chunk.length by omega, show 8 ≤ chunk.length by omega,
        show 10 ≤ chunk.length by omega]
      obtain ⟨hq, hreturns⟩ | ⟨hreturns, ⟨q, n, hq, hreads, hplace, hn⟩ | ⟨hq, hn⟩⟩ :=
        unpackQuestion_cases chunk 12
      · exact iff_of_true (.inl hq) (.inl hreturns)
      · have hrest : (∀ n, NameReads chunk 12 → InPlace chunk 12 n → n + 4 ≤ chunk.length →
            AnswersEnd chunk (numberAt 2 chunk 6) (n + 4)) ↔
            AnswersEnd chunk (numberAt 2 chunk 6) (n + 4) :=
          ⟨fun h => h n hreads hplace hn, fun h n' _ hplace' _ => hplace.unique hplace' ▸ h⟩
        rw [hrest, ← unpackAnswers_endless_iff, hq]
        simp [hreturns]
      · simp only [hq, hreturns, false_or, reduceCtorEq, Except.error.injEq, false_and, exists_false]
        exact iff_of_false id fun h => h fun n hr hp hlen => absurd hlen (hn n hr hp)
    · simp [hqd]
  · exact iff_of_false (fun h => hlen h.2.2.2.2.2.1) fun h => hlen h.1

/-! ## What is to hold -/

/-- `unpack_name` ends from the place, as does the decoding of the packet as a response, and
the place that it returns is behind the name's encoding in place and in the packet. -/
structure NamesDecode (chunk : Bytes) (left : ℕ) : Prop where
  ends : ∃ fuel, unpackLabels chunk fuel left [] none ≠ .error .endless
  response : unpackPacket chunk ≠ .error .endless
  offset : ∀ name off, unpackName chunk left = .ok (name, off) →
    InPlace chunk left off ∧ left < off ∧ off ≤ chunk.length

/-- **Names decode** exactly where no walk over labels and pointers comes back to where it
has been. -/
theorem names_decode_iff (chunk : Bytes) (left : ℕ) :
    NamesDecode chunk left ↔ ¬ Returns (nameStep chunk) left ∧ ResponseEnds chunk := by
  constructor
  · intro h
    exact ⟨unpackLabels_ends_iff.mp h.ends, not_not.mp (mt unpackPacket_endless_iff.mpr h.response)⟩
  · rintro ⟨hwalk, hresponse⟩
    refine ⟨unpackLabels_ends_iff.mpr hwalk, fun h => unpackPacket_endless_iff.mp h hresponse, ?_⟩
    intro name off hname
    obtain ⟨h, -⟩ | ⟨h, -⟩ | ⟨name', off', h, -, hplace⟩ := unpackName_cases chunk left
    · nomatch hname.symm.trans h
    · nomatch hname.symm.trans h
    · obtain ⟨-, rfl⟩ := Prod.mk.inj (Except.ok.inj (hname.symm.trans h))
      exact ⟨hplace, hplace.inside⟩

/-- A question whose name is a pointer to itself. -/
def pointerToItself : Bytes :=
  [0, 1, 0x81, 0x80, 0, 1, 0, 0, 0, 0, 0, 0, 0xc0, 0x0c, 0, 1, 0, 1]

theorem pointer_never_ends : ¬ NamesDecode pointerToItself 12 := by
  intro h
  have hstep : nameStep pointerToItself 12 = some 12 := by decide
  exact unpackLabels_ends_iff.mp h.ends ⟨12, 12, .refl 12, hstep, .refl 12⟩

end Skynet.Analysis
