import Mathlib.Data.List.Flatten
import Mathlib.Data.Nat.Notation
import Mathlib.Logic.Relation

/-!
# Blocks written in pieces

A writer sends blocks over a stream that takes any number of elements at a time.  An
`Outbox` is what has been written, the blocks that have been written whole, and the queue
of the others, of which only the first may have been begun.  The writer goes on with the
first block; a new block may be put anywhere behind the block that has been begun.

What has been written is then the blocks written whole and a prefix of the next, and the
blocks are begun in one order that only grows.
-/

namespace Library

open List Relation

/-- What has been written, the blocks written whole, and the queue of the others with how
much of each has been written. -/
structure Outbox (α β : Type*) where
  out : List α
  done : List β
  queue : List (β × ℕ)

namespace Outbox

variable {α β : Type*} {content : β → List α} {o o' : Outbox α β} {b : β}
  {queue front rest : List (β × ℕ)}

def begunPart (content : β → List α) : List (β × ℕ) → List α
  | [] => []
  | (b, n) :: _ => (content b).take n

def begunBlock : List (β × ℕ) → List β
  | [] => []
  | (b, n) :: _ => if n = 0 then [] else [b]

def blocks (o : Outbox α β) : List β := o.done ++ o.queue.map Prod.fst

def begun (o : Outbox α β) : List β := o.done ++ begunBlock o.queue

def Fresh (queue : List (β × ℕ)) : Prop := ∀ p ∈ queue, p.2 = 0

structure Intact (content : β → List α) (o : Outbox α β) : Prop where
  out : o.out = o.done.flatMap content ++ begunPart content o.queue
  rest : Fresh o.queue.tail

inductive Write (content : β → List α) : Outbox α β → Outbox α β → Prop
  | piece (out : List α) (done : List β) (b : β) (n m : ℕ) (rest : List (β × ℕ)) :
      Write content ⟨out, done, (b, n) :: rest⟩
        ⟨out ++ ((content b).drop n).take m, done, (b, n + m) :: rest⟩
  | whole (out : List α) (done : List β) (b : β) (n : ℕ) (rest : List (β × ℕ)) :
      Write content ⟨out, done, (b, n) :: rest⟩
        ⟨out ++ (content b).drop n, done ++ [b], rest⟩

inductive Insert (b : β) : Outbox α β → Outbox α β → Prop
  | before (out : List α) (done : List β) (front rest : List (β × ℕ)) (fresh : Fresh rest) :
      Insert b ⟨out, done, front ++ rest⟩ ⟨out, done, front ++ (b, 0) :: rest⟩

inductive Step (content : β → List α) (o o' : Outbox α β) : Prop
  | write (h : Write content o o')
  | insert {b : β} (h : Insert b o o')

/-! ## What a step keeps -/

@[simp] theorem begunPart_zero : begunPart content ((b, 0) :: rest) = [] := by
  rw [begunPart, take_zero]

theorem begunPart_of_fresh (h : Fresh queue) : begunPart content queue = [] := by
  cases queue with
  | nil => rfl
  | cons p queue => rw [begunPart, h p mem_cons_self, take_zero]

theorem begunBlock_of_fresh (h : Fresh queue) : begunBlock queue = [] := by
  cases queue with
  | nil => rfl
  | cons p queue => exact if_pos (h p mem_cons_self)

theorem Write.blocks (h : Write content o o') : o'.blocks = o.blocks := by
  cases h with
  | piece => rfl
  | whole => simp [Outbox.blocks]

theorem Writes.blocks (h : ReflTransGen (Write content) o o') : o'.blocks = o.blocks := by
  induction h with
  | refl => rfl
  | tail _ hstep ih => exact hstep.blocks.trans ih

theorem Intact.write (h : Intact content o) (hw : Write content o o') : Intact content o' := by
  cases hw with
  | piece out done b n m rest =>
    refine ⟨?_, h.rest⟩
    have hout : out = done.flatMap content ++ (content b).take n := h.out
    simp only [hout, begunPart, take_add, append_assoc]
  | whole out done b n rest =>
    have hrest : Fresh rest := h.rest
    refine ⟨?_, fun p hp => hrest p (mem_of_mem_tail hp)⟩
    have hout : out = done.flatMap content ++ (content b).take n := h.out
    simp only [hout, begunPart_of_fresh hrest, flatMap_append, flatMap_singleton,
      append_assoc, take_append_drop, append_nil]

theorem Intact.insert (h : Intact content o) (hi : Insert b o o') : Intact content o' := by
  cases hi with
  | before out done front rest hfresh =>
    cases front with
    | nil =>
      refine ⟨?_, hfresh⟩
      have hout : out = done.flatMap content ++ begunPart content rest := h.out
      simp only [hout, begunPart_of_fresh hfresh, nil_append, begunPart_zero]
    | cons p front =>
      refine ⟨h.out, fun q hq => ?_⟩
      have hrest : Fresh (front ++ rest) := h.rest
      obtain hq | hq := mem_append.mp (show q ∈ front ++ (b, 0) :: rest from hq)
      · exact hrest q (mem_append_left _ hq)
      · obtain rfl | hq := mem_cons.mp hq
        · rfl
        · exact hfresh q hq

theorem Write.begun (h : Write content o o') : o.begun <+: o'.begun := by
  cases h with
  | piece out done b n m rest =>
    refine (prefix_append_right_inj done).mpr ?_
    by_cases hn : n = 0
    · simp only [begunBlock, if_pos hn]
      exact nil_prefix
    · simp only [begunBlock, if_neg hn, if_neg (show n + m ≠ 0 by omega)]
      exact prefix_refl _
  | whole out done b n rest =>
    have hblock : begunBlock ((b, n) :: rest) <+: [b] := by
      simp only [begunBlock]
      split
      · exact nil_prefix
      · exact prefix_refl _
    exact ((prefix_append_right_inj done).mpr hblock).trans (prefix_append _ _)

theorem Insert.begun (h : Insert b o o') : o'.begun = o.begun := by
  cases h with
  | before out done front rest hfresh =>
    cases front with
    | nil => exact congrArg (done ++ ·) (begunBlock_of_fresh hfresh).symm
    | cons p front => rfl

theorem Intact.step (h : Intact content o) (hs : Step content o o') : Intact content o' := by
  cases hs with
  | write hw => exact h.write hw
  | insert hi => exact h.insert hi

theorem Step.begun (h : Step content o o') : o.begun <+: o'.begun := by
  cases h with
  | write hw => exact hw.begun
  | insert hi => exact hi.begun ▸ prefix_refl _

/-! ## Runs -/

def Steps (content : β → List α) : Outbox α β → Outbox α β → Prop := ReflTransGen (Step content)

theorem Steps.of_writes (h : ReflTransGen (Write content) o o') : Steps content o o' :=
  ReflTransGen.mono (fun _ _ hw => Step.write hw) o o' h

theorem Intact.steps (h : Intact content o) (hs : Steps content o o') : Intact content o' := by
  induction hs with
  | refl => exact h
  | tail _ hstep ih => exact ih.step hstep

theorem Steps.begun (h : Steps content o o') : o.begun <+: o'.begun := by
  induction h with
  | refl => exact prefix_refl _
  | tail _ hstep ih => exact ih.trans hstep.begun

end Outbox

end Library
