import Skynet.Model.SprotoPack

/-!
# What `sproto_unpack` makes of its input

The bytes that an input stands for (`Yields`) do not depend on the destination, so a run
without one finds the size that is needed; and no run writes outside its destination.
-/

namespace Skynet.Analysis

open Library Model List

variable {header : UInt8} {is : List ℕ} {src rest l r : Bytes} {st : UnpackState}

/-! ## What is written -/

structure Took (st st' : UnpackState) (l : Bytes) : Prop where
  size : st'.size = st.size + l.length
  mem : l.length ≤ st.bufsz → st'.mem = store st.mem st.buffer l
  buffer : l.length ≤ st.bufsz → st'.buffer = st.buffer + l.length
  bufsz : l.length ≤ st.bufsz → st'.bufsz = st.bufsz - l.length

namespace Took

theorem nil (st : UnpackState) : Took st st [] := by
  constructor <;> simp

theorem trans {st st₁ st₂ : UnpackState} (h : Took st st₁ l) (h' : Took st₁ st₂ r) :
    Took st st₂ (l ++ r) := by
  have hlen : ((l ++ r).length : ℤ) = l.length + r.length := by simp
  constructor
  · rw [h'.size, h.size, length_append]
    omega
  · intro hroom
    have hbufsz := h.bufsz (by omega)
    rw [h'.mem (by omega), h.mem (by omega), h.buffer (by omega), store_store]
  · intro hroom
    have hbufsz := h.bufsz (by omega)
    rw [h'.buffer (by omega), h.buffer (by omega), length_append]
    omega
  · intro hroom
    have hbufsz := h.bufsz (by omega)
    rw [h'.bufsz (by omega), hbufsz]
    omega

theorem emit (st : UnpackState) (v : UInt8) : Took st (st.emit v) [v] := by
  unfold UnpackState.emit
  by_cases hroom : st.bufsz > 0
  · rw [if_pos hroom]
    exact ⟨rfl, fun _ => (store_singleton _ _ _).symm, fun _ => rfl, fun _ => rfl⟩
  · rw [if_neg hroom]
    have hnot : ¬ (([v] : Bytes).length : ℤ) ≤ st.bufsz := by
      simp only [length_singleton]
      omega
    exact ⟨rfl, fun h => absurd h hnot, fun h => absurd h hnot, fun h => absurd h hnot⟩

theorem copy (st : UnpackState) {n : ℕ} (hn : n ≤ src.length) :
    Took st
      { mem := if st.bufsz ≥ n then store st.mem st.buffer (src.take n) else st.mem
        bufsz := st.bufsz - n
        buffer := st.buffer + n
        size := st.size + n } (src.take n) := by
  have hlen : (src.take n).length = n := length_take_of_le hn
  constructor
  · rw [hlen]
  · intro hroom
    rw [hlen] at hroom
    rw [if_pos hroom]
  · intro _
    rw [hlen]
  · intro _
    rw [hlen]

end Took

/-! ## Bits -/

def BitsYield (header : UInt8) (is : List ℕ) (src rest l : Bytes) : Prop :=
  ∀ st, (sprotoUnpackBits header is src st).1 = some rest ∧
    Took st (sprotoUnpackBits header is src st).2 l

theorem bitsYield_nil : BitsYield header [] src src [] := fun st => ⟨rfl, Took.nil st⟩

theorem bitsYield_one {i : ℕ} (hi : header.toNat.testBit i = true) {v : UInt8}
    (h : BitsYield header is src rest l) : BitsYield header (i :: is) (v :: src) rest (v :: l) := by
  intro st
  have hstep : sprotoUnpackBits header (i :: is) (v :: src) st =
      sprotoUnpackBits header is src (st.emit v) := by
    rw [sprotoUnpackBits, if_pos hi]
  rw [hstep]
  exact ⟨(h _).1, (Took.emit st v).trans (h _).2⟩

theorem unpackBits_zero {i : ℕ} (hi : header.toNat.testBit i = false)
    (is : List ℕ) (src : Bytes) (st : UnpackState) :
    sprotoUnpackBits header (i :: is) src st = sprotoUnpackBits header is src (st.emit 0) := by
  conv_lhs => rw [sprotoUnpackBits.eq_def]
  simp [hi]

theorem bitsYield_zero {i : ℕ} (hi : header.toNat.testBit i = false)
    (h : BitsYield header is src rest l) : BitsYield header (i :: is) src rest (0 :: l) := by
  intro st
  rw [unpackBits_zero hi]
  exact ⟨(h _).1, (Took.emit st 0).trans (h _).2⟩

theorem bitsYield_or_fails (header : UInt8) (is : List ℕ) (src : Bytes) :
    (∀ st, (sprotoUnpackBits header is src st).1 = none) ∨
      ∃ rest l, BitsYield header is src rest l := by
  induction is generalizing src with
  | nil => exact .inr ⟨src, [], bitsYield_nil⟩
  | cons i is ih =>
    by_cases hi : header.toNat.testBit i = true
    · cases src with
      | nil =>
        left
        intro st
        rw [sprotoUnpackBits, if_pos hi]
      | cons v src =>
        cases ih src with
        | inl hfails =>
          left
          intro st
          rw [sprotoUnpackBits, if_pos hi]
          exact hfails _
        | inr hyields =>
          obtain ⟨rest, l, h⟩ := hyields
          exact .inr ⟨rest, v :: l, bitsYield_one hi h⟩
    · rw [Bool.not_eq_true] at hi
      cases ih src with
      | inl hfails =>
        left
        intro st
        rw [unpackBits_zero hi]
        exact hfails _
      | inr hyields =>
        obtain ⟨rest, l, h⟩ := hyields
        exact .inr ⟨rest, 0 :: l, bitsYield_zero hi h⟩

/-! ## The whole input -/

def Yields (src r : Bytes) : Prop :=
  ∀ st, (sprotoUnpackLoop src st).1 = true ∧ Took st (sprotoUnpackLoop src st).2 r

theorem yields_nil : Yields [] [] := by
  intro st
  rw [sprotoUnpackLoop]
  exact ⟨rfl, Took.nil st⟩

theorem yields_segment (hheader : header ≠ 0xff) (hbits : BitsYield header (range 8) src rest l)
    (h : Yields rest r) : Yields (header :: src) (l ++ r) := by
  intro st
  have hstep : sprotoUnpackLoop (header :: src) st =
      sprotoUnpackLoop rest (sprotoUnpackBits header (range 8) src st).2 := by
    rw [sprotoUnpackLoop.eq_def]
    simp only [hheader, ↓reduceIte]
    split
    · next rest' st' heq =>
      have hrest := (hbits st).1
      rw [heq] at hrest
      cases hrest
      rw [heq]
    · next st' heq =>
      have hrest := (hbits st).1
      rw [heq] at hrest
      cases hrest
  rw [hstep]
  exact ⟨(h _).1, (hbits st).2.trans (h _).2⟩

theorem yields_run {c : UInt8} (hlen : (c.toNat + 1) * 8 ≤ src.length)
    (h : Yields (src.drop ((c.toNat + 1) * 8)) r) :
    Yields (0xff :: c :: src) (src.take ((c.toNat + 1) * 8) ++ r) := by
  intro st
  rw [sprotoUnpackLoop.eq_def]
  simp only [↓reduceIte, if_neg (Nat.not_lt.mpr hlen)]
  exact ⟨(h _).1, (Took.copy st hlen).trans (h _).2⟩

/-- **Every input** is refused whatever the destination, or stands for certain bytes. -/
theorem yields_or_fails (src : Bytes) :
    (∀ st, (sprotoUnpackLoop src st).1 = false) ∨ ∃ r, Yields src r := by
  induction hn : src.length using Nat.strong_induction_on generalizing src with
  | _ n ih =>
    subst hn
    cases src with
    | nil => exact .inr ⟨[], yields_nil⟩
    | cons header src =>
      by_cases hff : header = 0xff
      · subst hff
        cases src with
        | nil =>
          left
          intro st
          rw [sprotoUnpackLoop.eq_def]
          simp
        | cons c src =>
          by_cases hlen : src.length < (c.toNat + 1) * 8
          · left
            intro st
            rw [sprotoUnpackLoop.eq_def]
            simp [hlen]
          · rw [Nat.not_lt] at hlen
            cases ih (src.drop ((c.toNat + 1) * 8)).length (by simp; omega) _ rfl with
            | inl hfails =>
              left
              intro st
              rw [sprotoUnpackLoop.eq_def]
              simp only [↓reduceIte, if_neg (Nat.not_lt.mpr hlen)]
              exact hfails _
            | inr hyields =>
              obtain ⟨r, hr⟩ := hyields
              exact .inr ⟨_, yields_run hlen hr⟩
      · cases bitsYield_or_fails header (range 8) src with
        | inl hbits =>
          left
          intro st
          rw [sprotoUnpackLoop.eq_def]
          simp only [hff, ↓reduceIte]
          split
          · next rest st' heq =>
            have hnone := hbits st
            rw [heq] at hnone
            cases hnone
          · rfl
        | inr hbits =>
          obtain ⟨rest, l, hbits⟩ := hbits
          have hshort : rest.length ≤ src.length :=
            length_sprotoUnpackBits (hbits ⟨fun _ => 0, 0, 0, 0⟩).1
          cases ih rest.length (by rw [length_cons]; omega) rest rfl with
          | inl hfails =>
            left
            intro st
            rw [sprotoUnpackLoop.eq_def]
            simp only [hff, ↓reduceIte]
            split
            · next rest' st' heq =>
              have hrest := (hbits st).1
              rw [heq] at hrest
              cases hrest
              exact hfails _
            · rfl
          | inr hyields =>
            obtain ⟨r, hr⟩ := hyields
            exact .inr ⟨_, yields_segment hff hbits hr⟩

/-! ## KeptBehind the destination -/

/-- From `st` to `st'` nothing was written behind the end of the destination, which lies
where it did. -/
structure KeptBehind (st st' : UnpackState) : Prop where
  limit : (st'.buffer : ℤ) + st'.bufsz = st.buffer + st.bufsz
  mem : ∀ j : ℕ, st.buffer + st.bufsz ≤ j → st'.mem j = st.mem j

namespace KeptBehind

theorem refl (st : UnpackState) : KeptBehind st st := ⟨rfl, fun _ _ => rfl⟩

theorem trans {st st₁ st₂ : UnpackState} (h : KeptBehind st st₁) (h' : KeptBehind st₁ st₂) :
    KeptBehind st st₂ where
  limit := h'.limit.trans h.limit
  mem j hj := by
    rw [h'.mem j (by rw [h.limit]; exact hj), h.mem j hj]

theorem emit (st : UnpackState) (v : UInt8) : KeptBehind st (st.emit v) := by
  unfold UnpackState.emit
  split
  · constructor
    · simp only [Nat.cast_add, Nat.cast_one]
      omega
    · intro j hj
      exact Function.update_of_ne (by omega) _ _
  · exact ⟨rfl, fun _ _ => rfl⟩

theorem bits (header : UInt8) (is : List ℕ) (src : Bytes) (st : UnpackState) :
    KeptBehind st (sprotoUnpackBits header is src st).2 := by
  induction is generalizing src st with
  | nil => exact refl st
  | cons i is ih =>
    rw [sprotoUnpackBits.eq_def]
    simp only
    split
    · cases src with
      | nil => exact refl st
      | cons v src => exact (emit st v).trans (ih src _)
    · exact (emit st 0).trans (ih src _)

theorem loop (src : Bytes) (st : UnpackState) : KeptBehind st (sprotoUnpackLoop src st).2 := by
  induction src, st using sprotoUnpackLoop.induct with
  | case1 st =>
    rw [sprotoUnpackLoop]
    exact refl st
  | case2 st =>
    rw [sprotoUnpackLoop.eq_def]
    simpa using refl st
  | case3 st c src n hlt =>
    rw [sprotoUnpackLoop.eq_def]
    simpa [hlt, n] using refl st
  | case4 st c src n hge ih =>
    rw [sprotoUnpackLoop.eq_def]
    simp only [↓reduceIte, if_neg hge, n] at ih ⊢
    refine trans ?_ ih
    constructor
    · simp only [Nat.cast_add]
      omega
    · intro j hj
      split
      · apply store_of_not_mem
        rw [length_take_of_le (by omega)]
        omega
      · rfl
  | case5 st header src hff rest st' heq ih =>
    rw [sprotoUnpackLoop.eq_def]
    simp only [hff, ↓reduceIte]
    have hbits := bits header (range 8) src st
    rw [heq] at hbits
    split
    · next rest₁ st₁ heq₁ =>
      rw [heq] at heq₁
      cases heq₁
      exact hbits.trans ih
    · next st₁ heq₁ =>
      rw [heq] at heq₁
      cases heq₁
  | case6 st header src hff st' heq =>
    rw [sprotoUnpackLoop.eq_def]
    simp only [hff, ↓reduceIte]
    have hbits := bits header (range 8) src st
    rw [heq] at hbits
    split
    · next rest₁ st₁ heq₁ =>
      rw [heq] at heq₁
      cases heq₁
    · next st₁ heq₁ =>
      rw [heq] at heq₁
      cases heq₁
      exact hbits

end KeptBehind

end Skynet.Analysis
