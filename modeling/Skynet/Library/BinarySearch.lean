import Mathlib.Data.Nat.Notation

/-!
# Binary search

The search loop `while (begin <= end)` of C over the positions `0` to `n - 1`, with what the
comparison at a position says.  `stop` is the position behind `end`, so that nothing is negative.
The comparison has to go from `lt` over `eq` to `gt`, as it does where the positions are sorted.
-/

namespace Library

/-- Where the search ends: at a position that is equal, or before the first that is greater. -/
inductive Searched
  | found (i : ℕ)
  | before (i : ℕ)
  deriving DecidableEq

/-- The loop; each round halves the interval, `rounds` bounds their number. -/
def binarySearch (cmp : ℕ → Ordering) : ℕ → ℕ → ℕ → Searched
  | 0, start, _ => .before start
  | rounds + 1, start, stop =>
    if start < stop then
      match cmp ((start + stop - 1) / 2) with
      | .eq => .found ((start + stop - 1) / 2)
      | .lt => binarySearch cmp rounds ((start + stop - 1) / 2 + 1) stop
      | .gt => binarySearch cmp rounds start ((start + stop - 1) / 2)
    else .before start

variable {cmp : ℕ → Ordering} {n rounds start stop i : ℕ}

theorem cmp_of_found (h : binarySearch cmp rounds start stop = .found i) :
    cmp i = .eq ∧ i < stop := by
  induction rounds generalizing start stop with
  | zero => cases h
  | succ rounds ih =>
    rw [binarySearch] at h
    split at h
    · split at h
      · next heq =>
        cases h
        exact ⟨heq, by omega⟩
      · exact ih h
      · obtain ⟨heq, hi⟩ := ih h
        exact ⟨heq, by omega⟩
    · cases h

/-- Positions that compare less come before those that are equal, and these before the others. -/
structure Ascending (cmp : ℕ → Ordering) (n : ℕ) : Prop where
  lt : ∀ i j, i < j → j < n → cmp j ≠ .gt → cmp i = .lt
  gt : ∀ i j, i < j → j < n → cmp i ≠ .lt → cmp j = .gt

theorem cmp_of_before (hasc : Ascending cmp n) (hstop : stop ≤ n) (hle : start ≤ stop)
    (hrounds : stop ≤ start + rounds) (hlow : ∀ j < start, cmp j = .lt)
    (hhigh : ∀ j, stop ≤ j → j < n → cmp j = .gt)
    (h : binarySearch cmp rounds start stop = .before i) :
    i ≤ n ∧ (∀ j < i, cmp j = .lt) ∧ ∀ j, i ≤ j → j < n → cmp j = .gt := by
  induction rounds generalizing start stop with
  | zero =>
    cases h
    exact ⟨by omega, hlow, fun j hj hn => hhigh j (by omega) hn⟩
  | succ rounds ih =>
    rw [binarySearch] at h
    split at h
    · split at h
      · cases h
      · next hmid =>
        refine ih hstop (by omega) (by omega) (fun j hj => ?_) hhigh h
        rcases Nat.lt_succ_iff_lt_or_eq.mp hj with hj | rfl
        · exact hasc.lt j _ hj (by omega) (by simp [hmid])
        · exact hmid
      · next hmid =>
        refine ih (by omega) (by omega) (by omega) hlow (fun j hj hn => ?_) h
        rcases Nat.lt_or_eq_of_le hj with hj | rfl
        · exact hasc.gt _ j hj hn (by simp [hmid])
        · exact hmid
    · cases h
      exact ⟨by omega, hlow, fun j hj hn => hhigh j (by omega) hn⟩

theorem found_of_cmp (hasc : Ascending cmp n) (hi : i < n) (heq : cmp i = .eq) :
    ∃ j, binarySearch cmp n 0 n = .found j := by
  cases h : binarySearch cmp n 0 n with
  | found j => exact ⟨j, rfl⟩
  | before j =>
    obtain ⟨-, hlow, hhigh⟩ := cmp_of_before hasc (Nat.le_refl n) (Nat.zero_le _) (by omega)
      (fun j hj => absurd hj (Nat.not_lt_zero j)) (fun j hj hn => absurd hn (by omega)) h
    rcases Nat.lt_or_ge i j with hlt | hge
    · rw [hlow i hlt] at heq
      cases heq
    · rw [hhigh i hge hi] at heq
      cases heq

end Library
