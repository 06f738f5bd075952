import Mathlib.Data.List.Nodup
import Mathlib.Data.List.Perm.Subperm

/-!
# Chains of slots

Slots of an array that hold the number of the next slot of their chain: `next i` is `none`
where slot `i` is free, `some none` at the end of a chain.  A free slot that is linked in
behind another one leaves every chain in place, with what it had.
-/

namespace Library

open List

inductive Chain (next : ℕ → Option (Option ℕ)) : ℕ → List ℕ → Prop
  | last {i : ℕ} (h : next i = some none) : Chain next i [i]
  | cons {i j : ℕ} {l : List ℕ} (h : next i = some (some j)) (hl : Chain next j l) :
    Chain next i (i :: l)

namespace Chain

variable {next : ℕ → Option (Option ℕ)} {i j m x : ℕ} {l l' : List ℕ}

theorem mem_head (h : Chain next i l) : i ∈ l := by
  cases h <;> simp

theorem unique (h : Chain next i l) (h' : Chain next i l') : l = l' := by
  induction h generalizing l' with
  | last h =>
    cases h' with
    | last => rfl
    | cons h₁ =>
      rw [h] at h₁
      cases h₁
  | cons h _ ih =>
    cases h' with
    | last h₁ =>
      rw [h] at h₁
      cases h₁
    | cons h₁ hl₁ =>
      rw [h] at h₁
      cases h₁
      rw [ih hl₁]

theorem isSome (h : Chain next i l) (hx : x ∈ l) : (next x).isSome = true := by
  induction h with
  | last h =>
    rw [mem_singleton.1 hx, h]
    rfl
  | cons h _ ih =>
    rcases mem_cons.1 hx with rfl | hx
    · rw [h]
      rfl
    · exact ih hx

theorem suffix (h : Chain next i l) (hx : x ∈ l) : ∃ l₁ l₂, l = l₁ ++ l₂ ∧ Chain next x l₂ := by
  induction h with
  | last h =>
    obtain rfl := mem_singleton.1 hx
    exact ⟨[], _, rfl, .last h⟩
  | cons h hl ih =>
    rcases mem_cons.1 hx with rfl | hx
    · exact ⟨[], _, rfl, .cons h hl⟩
    · obtain ⟨l₁, l₂, rfl, h₂⟩ := ih hx
      exact ⟨_ :: l₁, l₂, rfl, h₂⟩

theorem nodup (h : Chain next i l) : l.Nodup := by
  induction h with
  | last => exact nodup_singleton _
  | cons h hl ih =>
    refine nodup_cons.2 ⟨fun hmem => ?_, ih⟩
    obtain ⟨l₁, l₂, rfl, h₂⟩ := hl.suffix hmem
    have hsame := congrArg List.length ((Chain.cons h hl).unique h₂)
    simp only [length_cons, length_append] at hsame
    omega

theorem length_le (h : Chain next i l) {n : ℕ} (hn : ∀ x ∈ l, x < n) : l.length ≤ n := by
  have hsub : l ⊆ range n := fun x hx => mem_range.2 (hn x hx)
  have hle := (subperm_of_subset h.nodup hsub).length_le
  rwa [length_range] at hle

/-- The slots after slot `j`, which was free, is linked in behind slot `m`. -/
def insert (next : ℕ → Option (Option ℕ)) (m j : ℕ) : ℕ → Option (Option ℕ) := fun i =>
  if i = m then some (some j) else if i = j then next m else next i

theorem insert_self : insert next m j m = some (some j) := if_pos rfl

theorem insert_new (h : j ≠ m) : insert next m j j = next m := by
  rw [insert, if_neg h, if_pos rfl]

theorem insert_other (hm : i ≠ m) (hj : i ≠ j) : insert next m j i = next i := by
  rw [insert, if_neg hm, if_neg hj]

/-- **Every chain keeps what it had** when a free slot is linked in. -/
theorem insert_chain (hfree : next j = none) (hm : (next m).isSome = true) (h : Chain next i l) : ∃
    l', Chain (insert next m j) i l' ∧ ∀ x ∈ l, x ∈ l' := by
  have hjm : j ≠ m := by
    rintro rfl
    rw [hfree] at hm
    cases hm
  induction h with
  | last h =>
    rename_i i
    by_cases him : i = m
    · subst him
      refine ⟨[i, j], .cons insert_self (.last ((insert_new hjm).trans h)), fun x hx => ?_⟩
      rw [mem_singleton.1 hx]
      exact mem_cons_self
    · have hij : i ≠ j := by
        rintro rfl
        rw [hfree] at h
        cases h
      exact ⟨[i], .last ((insert_other him hij).trans h), fun x hx => hx⟩
  | cons h hl ih =>
    rename_i i k l
    obtain ⟨l', hl', hsub⟩ := ih
    by_cases him : i = m
    · subst him
      refine ⟨i :: j :: l', .cons insert_self (.cons ((insert_new hjm).trans h) hl'), ?_⟩
      intro x hx
      rcases mem_cons.1 hx with rfl | hx
      · exact mem_cons_self
      · exact mem_cons_of_mem _ (mem_cons_of_mem _ (hsub x hx))
    · have hij : i ≠ j := by
        rintro rfl
        rw [hfree] at h
        cases h
      refine ⟨i :: l', .cons ((insert_other him hij).trans h) hl', ?_⟩
      intro x hx
      rcases mem_cons.1 hx with rfl | hx
      · exact mem_cons_self
      · exact mem_cons_of_mem _ (hsub x hx)

theorem insert_mem (hfree : next j = none) (h : Chain next m l) :
    ∃ l', Chain (insert next m j) m l' ∧ j ∈ l' := by
  have hm : (next m).isSome = true := h.isSome h.mem_head
  obtain ⟨l', hl', -⟩ := insert_chain hfree hm h
  refine ⟨l', hl', ?_⟩
  cases hl' with
  | last h =>
    rw [insert_self] at h
    cases h
  | cons h hl =>
    rw [insert_self] at h
    cases h
    exact mem_cons_of_mem _ hl.mem_head

end Chain

end Library
