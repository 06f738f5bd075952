import Mathlib.Data.Fintype.Pigeonhole
import Mathlib.Order.WellFounded

/-!
# Walks of a deterministic step

A step that is a function to `Option` walks along one path until it is `none`.  Where a
path ends is determined by where it begins, so two ends of one beginning are the same.
Among finitely many places it ends unless it comes back to where it has been.

Parties that wait for each other.  A graph in which every chain of waits comes to an end has no
cycle, and everybody's chain leads to somebody who does not wait.
-/

namespace Library

open Relation Option

variable {π : Type*}

def Leads (next : π → Option π) : π → π → Prop := ReflTransGen fun p q => next p = some q

namespace Leads

variable {next : π → Option π} {p q r : π}

theorem refl (p : π) : Leads next p p := ReflTransGen.refl

theorem trans (h : Leads next p q) (h' : Leads next q r) : Leads next p r := ReflTransGen.trans h h'

theorem step (h : next p = some q) (h' : Leads next q r) : Leads next p r := ReflTransGen.head h h'

theorem eq_of_end (h : Leads next p q) (hp : next p = none) : p = q := by
  induction h with
  | refl => rfl
  | tail _ hstep ih =>
    subst ih
    rw [hp] at hstep
    cases hstep

/-- **The end of a walk is determined** by its beginning. -/
theorem end_unique (hq : Leads next p q) (hr : Leads next p r) (hqend : next q = none)
    (hrend : next r = none) : q = r := by
  have hright : Relator.RightUnique fun p q => next p = some q := by
    intro a b c hb hc
    exact some.inj (hb.symm.trans hc)
  cases ReflTransGen.total_of_right_unique hright hq hr with
  | inl h => exact eq_of_end h hqend
  | inr h => exact (eq_of_end h hrend).symm

end Leads

/-- Where the walk is after a number of steps. -/
def walk (next : π → Option π) : ℕ → π → Option π
  | 0, p => some p
  | k + 1, p => (next p).bind (walk next k)

/-- The walk comes to a place to which it comes back. -/
def Returns (next : π → Option π) (p : π) : Prop :=
  ∃ q r, Leads next p q ∧ next q = some r ∧ Leads next r q

variable {next : π → Option π} {p q r : π}

theorem walk_add (j k : ℕ) (p : π) : walk next (j + k) p = (walk next j p).bind (walk next k) := by
  induction j generalizing p with
  | zero => rw [Nat.zero_add, walk, bind_some]
  | succ j ih =>
    rw [Nat.succ_add, walk, walk, bind_assoc]
    exact congrArg _ (funext ih)

theorem leads_of_walk {k : ℕ} (h : walk next k p = some q) : Leads next p q := by
  induction k generalizing p with
  | zero =>
    cases h
    exact .refl q
  | succ k ih =>
    obtain ⟨r, hstep, hrest⟩ := bind_eq_some_iff.mp h
    exact .step hstep (ih hrest)

/-- A walk that has come back to where it was goes on. -/
theorem Returns.step (h : Returns next p) (hlead : next p = some q) : Returns next q := by
  obtain ⟨c, r, hc, hr, hback⟩ := h
  rcases ReflTransGen.cases_head hc with rfl | ⟨p', hp', hc'⟩
  · obtain rfl := some.inj (hlead.symm.trans hr)
    exact ⟨p, q, hback, hr, hback⟩
  · obtain rfl := some.inj (hlead.symm.trans hp')
    exact ⟨c, r, hc', hr, hback⟩

theorem Returns.goes_on (h : Returns next p) : ∃ q, next p = some q := by
  obtain ⟨c, r, hc, hr, -⟩ := h
  rcases ReflTransGen.cases_head hc with rfl | ⟨p', hp', -⟩
  · exact ⟨r, hr⟩
  · exact ⟨p', hp'⟩

theorem Returns.walk_ne_none (h : Returns next p) (k : ℕ) : walk next k p ≠ none := by
  induction k generalizing p with
  | zero => exact some_ne_none p
  | succ k ih =>
    obtain ⟨q, hq⟩ := h.goes_on
    rw [walk, hq, bind_some]
    exact ih (h.step hq)

/-- **A walk among `n` places** that takes more than `n` steps comes back. -/
theorem returns_of_walk {next : ℕ → Option ℕ} {n p : ℕ} (hn : ∀ p q, next p = some q → p < n)
    (h : walk next (n + 1) p ≠ none) : Returns next p := by
  have hat : ∀ i : Fin (n + 1), ∃ q : Fin n, walk next i p = some q.1 := by
    intro i
    rw [show n + 1 = i + ((n - i) + 1) by omega, walk_add] at h
    cases hq : walk next i p with
    | none => exact absurd (by rw [hq]; rfl) h
    | some q =>
      cases hr : next q with
      | none => exact absurd (by rw [hq, bind_some, walk, hr]; rfl) h
      | some r => exact ⟨⟨q, hn q r hr⟩, rfl⟩
  choose at' hat using hat
  obtain ⟨i, j, hne, heq⟩ := Fintype.exists_ne_map_eq_of_card_lt at' (by simp)
  wlog hlt : i < j generalizing i j
  · exact this j i hne.symm heq.symm (lt_of_le_of_ne (not_lt.mp hlt) hne.symm)
  -- the walk from the place at step `i` is there again at step `j`
  obtain ⟨k, hk⟩ := Nat.exists_eq_add_of_lt (show i.1 < j.1 from hlt)
  have hback := hat j
  rw [hk, Nat.add_assoc, walk_add, hat i, bind_some, ← heq, walk] at hback
  obtain ⟨r, hr, hrest⟩ := bind_eq_some_iff.mp hback
  exact ⟨_, r, leads_of_walk (hat i), hr, leads_of_walk hrest⟩

variable {α : Type*} {waits waits' : α → α → Prop} {a b : α}

def NoDeadlock (waits : α → α → Prop) : Prop := WellFounded (flip waits)

theorem NoDeadlock.of_none (h : ∀ a b, ¬ waits a b) : NoDeadlock waits :=
  ⟨fun a => ⟨a, fun b hb => absurd hb (h a b)⟩⟩

theorem NoDeadlock.mono (h : NoDeadlock waits) (hle : ∀ a b, waits' a b → waits a b) :
    NoDeadlock waits' :=
  Subrelation.wf (fun {x y} hxy => hle y x hxy) h

theorem NoDeadlock.add (h : NoDeadlock waits) (hnot : ¬ ReflTransGen waits b a)
    (hle : ∀ x y, waits' x y → waits x y ∨ x = a ∧ y = b) : NoDeadlock waits' := by
  have hother (x : α) : ¬ ReflTransGen waits x a → Acc (flip waits') x := by
    induction x using h.induction with
    | h x ih =>
      refine fun hx => ⟨x, fun y hxy => ?_⟩
      rcases hle x y hxy with hold | ⟨rfl, -⟩
      · exact ih y hold fun hy => hx (.head hold hy)
      · exact absurd .refl hx
  refine ⟨fun x => ?_⟩
  induction x using h.induction with
  | h x ih =>
    refine ⟨x, fun y hxy => ?_⟩
    rcases hle x y hxy with hold | ⟨-, rfl⟩
    · exact ih y hold
    · exact hother y hnot

theorem NoDeadlock.not_cycle (h : NoDeadlock waits) (a : α) : ¬ TransGen waits a a := by
  induction a using h.induction with
  | h a ih =>
    intro hcycle
    obtain ⟨b, hab, hba⟩ := TransGen.head'_iff.mp hcycle
    exact ih b hab (TransGen.tail' hba hab)

theorem NoDeadlock.free (h : NoDeadlock waits) (a : α) :
    ∃ b, ReflTransGen waits a b ∧ ∀ c, ¬ waits b c := by
  induction a using h.induction with
  | h a ih =>
    by_cases hwaits : ∃ b, waits a b
    · obtain ⟨b, hab⟩ := hwaits
      obtain ⟨c, hbc, hfree⟩ := ih b hab
      exact ⟨c, .head hab hbc, hfree⟩
    · exact ⟨a, .refl, fun c hc => hwaits ⟨c, hc⟩⟩

end Library
