import Mathlib.Data.List.Infix

/-!
# The first occurrence of a list in a list

`firstAt sep s` is the first place of `s` at which the non-empty list `sep` occurs, as a
search from the front finds it.
-/

namespace Library

open List

variable {α : Type*} [DecidableEq α] {sep s t : List α} {i : ℕ}

/-- The first place of a list at which `sep` occurs, for `sep` not empty. -/
def firstAt (sep : List α) : List α → Option ℕ
  | [] => none
  | b :: s => if sep <+: b :: s then some 0 else (firstAt sep s).map (· + 1)

theorem firstAt_eq_none_iff (hsep : sep ≠ []) : firstAt sep s = none ↔ ¬ sep <:+: s := by
  induction s with
  | nil => simp [firstAt, hsep]
  | cons b s ih =>
    rw [firstAt, infix_cons_iff]
    by_cases hpre : sep <+: b :: s
    · simp [hpre]
    · simp [hpre, ih]

theorem firstAt_eq_some_iff (hsep : sep ≠ []) :
    firstAt sep s = some i ↔ sep <+: s.drop i ∧ ∀ j < i, ¬ sep <+: s.drop j := by
  induction s generalizing i with
  | nil => simp [firstAt, hsep]
  | cons b s ih =>
    rw [firstAt]
    by_cases hpre : sep <+: b :: s
    · rw [if_pos hpre, Option.some.injEq]
      constructor
      · rintro rfl
        exact ⟨hpre, by simp⟩
      · rintro ⟨-, hfirst⟩
        by_contra hi
        exact hfirst 0 (by omega) hpre
    · rw [if_neg hpre, Option.map_eq_some_iff]
      constructor
      · rintro ⟨j, hj, rfl⟩
        obtain ⟨hat, hfirst⟩ := ih.mp hj
        refine ⟨hat, fun k hk => ?_⟩
        cases k with
        | zero => exact hpre
        | succ k => exact hfirst k (by omega)
      · rintro ⟨hat, hfirst⟩
        cases i with
        | zero => exact absurd hat hpre
        | succ i =>
          exact ⟨i, ih.mpr ⟨hat, fun j hj => hfirst (j + 1) (by omega)⟩, rfl⟩

theorem firstAt_add_length_le (h : firstAt sep s = some i) : i + sep.length ≤ s.length := by
  induction s generalizing i with
  | nil => cases h
  | cons b s ih =>
    rw [firstAt] at h
    by_cases hpre : sep <+: b :: s
    · rw [if_pos hpre, Option.some.injEq] at h
      have := hpre.length_le
      omega
    · rw [if_neg hpre, Option.map_eq_some_iff] at h
      obtain ⟨j, hj, rfl⟩ := h
      have := ih hj
      rw [length_cons]
      omega

theorem firstAt_of_lt (h : s.length < sep.length) : firstAt sep s = none := by
  cases hfirst : firstAt sep s with
  | none => rfl
  | some i =>
    have := firstAt_add_length_le hfirst
    omega

theorem firstAt_append (h : firstAt sep s = some i) (t : List α) :
    firstAt sep (s ++ t) = some i := by
  induction s generalizing i with
  | nil => nomatch h
  | cons b s ih =>
    rw [firstAt] at h
    rw [cons_append, firstAt]
    by_cases hpre : sep <+: b :: s
    · rw [if_pos hpre] at h
      have hlong : sep <+: b :: (s ++ t) := hpre.trans (prefix_append (b :: s) t)
      rw [if_pos hlong]
      exact h
    · rw [if_neg hpre, Option.map_eq_some_iff] at h
      obtain ⟨j, hj, rfl⟩ := h
      have hlen := firstAt_add_length_le hj
      have hpre' : ¬sep <+: b :: (s ++ t) := by
        intro hlong
        refine hpre (prefix_of_prefix_length_le hlong (prefix_append (b :: s) t) ?_)
        rw [length_cons]
        omega
      rw [if_neg hpre', ih hj]
      rfl

theorem firstAt_append_of_none (h : firstAt sep s = none)
    (hi : firstAt sep (s ++ t) = some i) (hsep : sep ≠ []) : s.length < i + sep.length := by
  by_contra hle
  obtain ⟨hat, -⟩ := (firstAt_eq_some_iff hsep).mp hi
  have hle' : i ≤ s.length := by omega
  rw [drop_append_of_le_length hle'] at hat
  have hin : sep <+: s.drop i :=
    prefix_of_prefix_length_le hat (prefix_append _ _) (by rw [length_drop]; omega)
  exact (firstAt_eq_none_iff hsep).mp h (hin.isInfix.trans (drop_suffix i s).isInfix)

theorem firstAt_none_of_lt (h : firstAt sep (s ++ t) = some i)
    (hlt : s.length < i + sep.length) : firstAt sep s = none := by
  cases hs : firstAt sep s with
  | none => rfl
  | some j =>
    have hle := firstAt_add_length_le hs
    rw [firstAt_append hs t] at h
    cases h
    omega

theorem firstAt_drop {k : ℕ} (h : ∀ j < k, ¬sep <+: s.drop j) :
    (firstAt sep (s.drop k)).map (· + k) = firstAt sep s := by
  induction k generalizing s with
  | zero => cases hs : firstAt sep s <;> simp [hs]
  | succ k ih =>
    cases s with
    | nil => rfl
    | cons b s =>
      have hfirst : ¬sep <+: b :: s := h 0 (Nat.succ_pos k)
      rw [firstAt, if_neg hfirst, drop_succ_cons,
        ← ih fun j hj => h (j + 1) (Nat.succ_lt_succ hj), Option.map_map]
      rfl

end Library
