import Mathlib.Data.List.Nodup

/-!
# Intrusive linked lists

A FIFO list whose items carry the pointer to their successor: a head, a tail, and the
`next` pointer of every item that exists.  `Represents g l` says that the pointers spell
the list `l`, with every item in it once and no pointer set outside it; appending and
taking the first item are then the list operations.
-/

namespace Library

open List

structure LinkedFifo (ι : Type*) where
  head : Option ι
  tail : Option ι
  next : ι → Option ι

def succIn {ι : Type*} [DecidableEq ι] : List ι → ι → Option ι
  | a :: b :: l, i => if i = a then some b else succIn (b :: l) i
  | [_], _ => none
  | [], _ => none

variable {ι : Type*} [DecidableEq ι]

theorem succIn_of_not_mem {l : List ι} {i : ι} (h : i ∉ l) : succIn l i = none := by
  induction l with
  | nil => rfl
  | cons a l ih =>
    cases l with
    | nil => rfl
    | cons b l =>
      rw [mem_cons, not_or] at h
      rw [succIn, if_neg h.1, ih h.2]

theorem succIn_head (a : ι) (l : List ι) : succIn (a :: l) a = l.head? := by
  cases l with
  | nil => rfl
  | cons b l => rw [succIn, if_pos rfl, head?_cons]

theorem succIn_cons_of_ne {a i : ι} {l : List ι} (h : i ≠ a) : succIn (a :: l) i = succIn l i := by
  cases l with
  | nil => rfl
  | cons b l => rw [succIn, if_neg h]

theorem succIn_append {l : List ι} (hnodup : l.Nodup) (q i : ι) :
    succIn (l ++ [q]) i = if l.getLast? = some i then some q else succIn l i := by
  induction l with
  | nil => rfl
  | cons a l ih =>
    have hl := (nodup_cons.mp hnodup).2
    cases l with
    | nil =>
      by_cases hi : i = a
      · subst hi
        simp [succIn]
      · simp [succIn, hi, Ne.symm hi]
    | cons b l =>
      rw [getLast?_cons_cons]
      by_cases hi : i = a
      · subst hi
        have hne : (b :: l).getLast? ≠ some i := fun h =>
          (nodup_cons.mp hnodup).1 (mem_of_getLast? h)
        rw [if_neg hne]
        simp [succIn]
      · rw [cons_append, succIn_cons_of_ne hi, ih hl, succIn_cons_of_ne hi]

namespace LinkedFifo

def empty : LinkedFifo ι := ⟨none, none, fun _ => none⟩

def push (g : LinkedFifo ι) (q : ι) : LinkedFifo ι :=
  match g.tail with
  | some last => { g with next := Function.update g.next last (some q), tail := some q }
  | none => { g with head := some q, tail := some q }

def pop (g : LinkedFifo ι) : Option (ι × LinkedFifo ι) := g.head.map fun q =>
    (q, { head := g.next q
          tail := if g.next q = none then none else g.tail
          next := Function.update g.next q none })

structure Represents (g : LinkedFifo ι) (l : List ι) : Prop where
  nodup : l.Nodup
  head : g.head = l.head?
  tail : g.tail = l.getLast?
  next : ∀ i, g.next i = succIn l i

theorem represents_empty : Represents (empty : LinkedFifo ι) [] :=
  ⟨nodup_nil, rfl, rfl, fun _ => rfl⟩

namespace Represents

variable {g : LinkedFifo ι} {l : List ι}

theorem next_eq_none (h : Represents g l) {q : ι} (hq : q ∉ l) : g.next q = none := by
  rw [h.next, succIn_of_not_mem hq]

theorem push (h : Represents g l) {q : ι} (hq : q ∉ l) : Represents (g.push q) (l ++ [q]) := by
  have hnodup : (l ++ [q]).Nodup := by
    rw [nodup_append]
    refine ⟨h.nodup, nodup_singleton q, ?_⟩
    rintro a ha b hb rfl
    exact hq (mem_singleton.mp hb ▸ ha)
  unfold LinkedFifo.push
  rw [h.tail]
  cases hlast : l.getLast? with
  | none =>
    rw [getLast?_eq_none_iff] at hlast
    subst hlast
    exact ⟨hnodup, rfl, rfl, h.next⟩
  | some last =>
    refine ⟨hnodup, ?_, by simp, fun i => ?_⟩
    · cases l with
      | nil => cases hlast
      | cons a l => exact h.head
    · rw [succIn_append h.nodup, hlast]
      show Function.update g.next last (some q) i = _
      rw [Function.update_apply, h.next]
      by_cases hi : i = last
      · rw [if_pos hi, if_pos (by rw [hi])]
      · rw [if_neg hi, if_neg (by simpa using Ne.symm hi)]

theorem pop (h : Represents g l) : (l = [] ∧ g.pop = none) ∨
    ∃ q l' g', l = q :: l' ∧ g.pop = some (q, g') ∧ Represents g' l' := by
  cases l with
  | nil =>
    refine .inl ⟨rfl, ?_⟩
    rw [LinkedFifo.pop, h.head]
    rfl
  | cons q l =>
    obtain ⟨hq, hl⟩ := nodup_cons.mp h.nodup
    have hnext : g.next q = l.head? := by rw [h.next, succIn_head]
    refine .inr ⟨q, l, _, rfl, by rw [LinkedFifo.pop, h.head]; rfl, hl, hnext, ?_, fun i => ?_⟩
    · rw [hnext, h.tail]
      cases l with
      | nil => rfl
      | cons b l => simp
    · show Function.update g.next q none i = _
      rw [Function.update_apply]
      split
      · next hi => rw [hi, succIn_of_not_mem hq]
      · next hi => rw [h.next, succIn_cons_of_ne hi]

end Represents

end LinkedFifo

end Library
