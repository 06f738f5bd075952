import Mathlib.Algebra.BigOperators.Group.Finset.Piecewise
import Mathlib.Algebra.Order.BigOperators.Group.Finset

/-!
# Counting over threads

A shared counter is related to the threads by a sum over their control points.  One step
moves one thread, so every such invariant rests on the same few facts: what the sum
becomes when one thread moves, and how one or two threads bound it from below.
-/

namespace Library

open Finset

variable {τ β : Type*} [Fintype τ] [DecidableEq τ]

def threadSum (w : β → ℕ) (pc : τ → β) : ℕ := ∑ t, w (pc t)

theorem threadSum_update (w : β → ℕ) (pc : τ → β) (t : τ) (b : β) :
    threadSum w (Function.update pc t b) + w (pc t) = threadSum w pc + w b := by
  have hcomp : (fun u => w (Function.update pc t b u)) =
      Function.update (fun u => w (pc u)) t (w b) := by
    funext u
    by_cases h : u = t
    · subst h; simp
    · simp [h]
  unfold threadSum
  rw [hcomp, sum_update_of_mem (mem_univ t)]
  have hsplit := sum_sdiff (f := fun u => w (pc u))
    (subset_univ {t})
  rw [sum_singleton] at hsplit
  omega

theorem threadSum_update_eq {w : β → ℕ} {pc : τ → β} {t : τ} {b : β}
    (h : w b = w (pc t)) : threadSum w (Function.update pc t b) = threadSum w pc := by
  have := threadSum_update w pc t b
  omega

/-- A sum is the weight of one thread and a rest that does not change when that thread
moves. -/
theorem threadSum_split (w : β → ℕ) (pc : τ → β) (t : τ) :
    ∃ rest, threadSum w pc = w (pc t) + rest ∧
      ∀ b, threadSum w (Function.update pc t b) = w b + rest := by
  have hpart : w (pc t) ≤ threadSum w pc :=
    single_le_sum (f := fun u => w (pc u)) (fun _ _ => Nat.zero_le _)
      (mem_univ t)
  refine ⟨threadSum w pc - w (pc t), by omega, fun b => ?_⟩
  have := threadSum_update w pc t b
  omega

omit [DecidableEq τ] in
theorem le_threadSum (w : β → ℕ) (pc : τ → β) (t : τ) : w (pc t) ≤ threadSum w pc :=
  single_le_sum (f := fun u => w (pc u)) (fun _ _ => Nat.zero_le _)
    (mem_univ t)

theorem add_le_threadSum (w : β → ℕ) (pc : τ → β) {t u : τ} (h : t ≠ u) :
    w (pc t) + w (pc u) ≤ threadSum w pc := by
  have := sum_le_sum_of_subset (f := fun v => w (pc v))
    (subset_univ ({t, u} : Finset τ))
  rwa [sum_pair h] at this

omit [DecidableEq τ] in
theorem eq_zero_of_threadSum {w : β → ℕ} {pc : τ → β} (h : threadSum w pc = 0) (t : τ) :
    w (pc t) = 0 := by
  have := le_threadSum w pc t
  omega

omit [DecidableEq τ] in
theorem threadSum_eq_zero {w : β → ℕ} {pc : τ → β} (h : ∀ t, w (pc t) = 0) : threadSum w pc = 0 :=
  sum_eq_zero fun t _ => h t

omit [Fintype τ] in
theorem card_filter_move {S S' : Finset τ} {p q : τ → Prop}
    [DecidablePred p] [DecidablePred q] (t : τ)
    (hoff : ∀ u, u ≠ t → (u ∈ S ∧ p u ↔ u ∈ S' ∧ q u)) :
    (S.filter p).card + (if t ∈ S' ∧ q t then 1 else 0) =
      (S'.filter q).card + (if t ∈ S ∧ p t then 1 else 0) := by
  have herase : (S.filter p).erase t = (S'.filter q).erase t := by
    ext u
    simp only [mem_erase, mem_filter]
    exact and_congr_right fun hne => hoff u hne
  have hcount : ∀ (R : Finset τ) (r : τ → Prop) [DecidablePred r],
      (R.filter r).card = ((R.filter r).erase t).card + (if t ∈ R ∧ r t then 1 else 0) := by
    intro R r _
    split
    · next h => rw [card_erase_add_one (mem_filter.mpr h)]
    · next h => rw [erase_eq_of_notMem fun hmem => h (mem_filter.mp hmem), add_zero]
  rw [hcount S p, hcount S' q, herase]
  omega

end Library
