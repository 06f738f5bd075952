import Mathlib.Data.List.Nodup

/-!
# Linked lists in one store

Several lists whose items lie in one store: the `next` pointers are shared, each list has
a head and a tail, and an item may move from one list to another.  `Holds next q l` says
that `q` is the list `l`; what is done to one list leaves every list without the items it
touches as it was.
-/

namespace Library

open List Function

structure HeadTail (ι : Type*) where
  head : Option ι
  tail : Option ι

variable {ι : Type*}

def Spells (next : ι → Option ι) : Option ι → List ι → Prop
  | p, [] => p = none
  | p, a :: l => p = some a ∧ Spells next (next a) l

namespace Spells

variable {next next' : ι → Option ι} {p : Option ι} {l : List ι}

theorem congr (h : Spells next p l) (hnext : ∀ a ∈ l, next' a = next a) : Spells next' p l := by
  induction l generalizing p with
  | nil => exact h
  | cons a l ih =>
    refine ⟨h.1, ?_⟩
    rw [hnext a mem_cons_self]
    exact ih h.2 fun b hb => hnext b (mem_cons_of_mem a hb)

theorem update [DecidableEq ι] (h : Spells next p l) {a : ι} (ha : a ∉ l) (v : Option ι) :
    Spells (Function.update next a v) p l := by
  apply h.congr
  intro b hb
  rw [update_of_ne]
  rintro rfl
  exact ha hb

theorem eq_head? (h : Spells next p l) : p = l.head? := by
  cases l with
  | nil => exact h
  | cons a l => exact h.1

theorem next_getLast (h : Spells next p l) {a : ι} (ha : l.getLast? = some a) : next a = none := by
  induction l generalizing p with
  | nil => cases ha
  | cons b l ih =>
    cases l with
    | nil =>
      have hb : b = a := by simpa using ha
      rw [← hb]
      exact h.2
    | cons c l =>
      rw [getLast?_cons_cons] at ha
      exact ih h.2 ha

theorem append [DecidableEq ι] (h : Spells next p l) (hnodup : l.Nodup) {a b : ι}
    (ha : l.getLast? = some a) (hb : b ∉ l) (hnone : next b = none) :
    Spells (Function.update next a (some b)) p (l ++ [b]) := by
  induction l generalizing p with
  | nil => cases ha
  | cons c l ih =>
    obtain ⟨hc, hl⟩ := nodup_cons.mp hnodup
    rw [mem_cons, not_or] at hb
    refine ⟨h.1, ?_⟩
    cases l with
    | nil =>
      have hca : c = a := by simpa using ha
      subst hca
      rw [update_self]
      exact ⟨rfl, by rw [update_of_ne hb.1]; exact hnone⟩
    | cons d l =>
      rw [getLast?_cons_cons] at ha
      have hne : c ≠ a := by
        rintro rfl
        exact hc (mem_of_getLast? ha)
      rw [update_of_ne hne]
      exact ih h.2 hl ha hb.2

end Spells

namespace HeadTail

structure Holds (next : ι → Option ι) (q : HeadTail ι) (l : List ι) : Prop where
  head : Spells next q.head l
  tail : q.tail = l.getLast?

/-- `q` is the list `l`, except that the tail of an empty list may be anything: how a list
stands while a loop takes its items. -/
structure Taken (next : ι → Option ι) (q : HeadTail ι) (l : List ι) : Prop where
  head : Spells next q.head l
  tail : l ≠ [] → q.tail = l.getLast?

def empty : HeadTail ι := ⟨none, none⟩

variable {next next' : ι → Option ι} {q : HeadTail ι} {a : ι} {l : List ι}

theorem holds_empty (next : ι → Option ι) : (empty : HeadTail ι).Holds next [] := ⟨rfl, rfl⟩

namespace Holds

theorem congr (h : q.Holds next l) (hnext : ∀ a ∈ l, next' a = next a) : q.Holds next' l :=
  ⟨h.head.congr hnext, h.tail⟩

theorem update [DecidableEq ι] (h : q.Holds next l) (ha : a ∉ l) (v : Option ι) :
    q.Holds (Function.update next a v) l :=
  ⟨h.head.update ha v, h.tail⟩

theorem taken (h : q.Holds next l) : q.Taken next l := ⟨h.head, fun _ => h.tail⟩

theorem single (h : next a = none) : Holds next ⟨some a, some a⟩ [a] := ⟨⟨rfl, h⟩, rfl⟩

theorem cons (h : q.Holds next l) (hl : l ≠ []) (ha : next a = q.head) :
    Holds next { q with head := some a } (a :: l) := by
  refine ⟨⟨rfl, by rw [ha]; exact h.head⟩, ?_⟩
  obtain ⟨b, l, rfl⟩ := exists_cons_of_ne_nil hl
  rw [getLast?_cons_cons]
  exact h.tail

theorem append [DecidableEq ι] (h : q.Holds next l) (hnodup : l.Nodup) {b : ι}
    (ha : q.tail = some a) (hb : b ∉ l) (hnone : next b = none) :
    Holds (Function.update next a (some b)) { q with tail := some b } (l ++ [b]) :=
  ⟨h.head.append hnodup (h.tail ▸ ha) hb hnone, by simp⟩

theorem drop (h : q.Holds next (a :: l)) :
    Holds next ⟨next a, if next a = none then none else q.tail⟩ l := by
  have hnext := h.head.2.eq_head?
  refine ⟨h.head.2, ?_⟩
  cases l with
  | nil => rw [hnext]; rfl
  | cons b l =>
    rw [hnext, h.tail, getLast?_cons_cons, if_neg (by simp)]

end Holds

namespace Taken

theorem drop (h : q.Taken next (a :: l)) : Taken next { q with head := next a } l := by
  refine ⟨h.head.2, fun hl => ?_⟩
  rw [h.tail (cons_ne_nil a l)]
  obtain ⟨b, l, rfl⟩ := exists_cons_of_ne_nil hl
  rw [getLast?_cons_cons]

theorem holds (h : q.Taken next l) (hl : l ≠ []) : q.Holds next l := ⟨h.head, h.tail hl⟩

theorem clear (h : q.Taken next []) : Holds next { q with tail := none } [] := ⟨h.head, rfl⟩

end Taken

end HeadTail

end Library
