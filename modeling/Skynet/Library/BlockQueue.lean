import Mathlib.Data.List.Basic

/-!
# A byte string in blocks

A string that is kept as blocks, with an offset into the first one: `Stored block off bs s`
says that the blocks `bs` behind `off` spell `s`.  The offset lies within the first block,
so that a block is dropped as soon as its last element is read.
-/

namespace Library

open List

variable {α β : Type*} {block : β → List α}

def Stored (block : β → List α) (off : ℕ) : List β → List α → Prop
  | [], s => off = 0 ∧ s = []
  | b :: bs, s => off < (block b).length ∧ s = (block b).drop off ++ (bs.map block).flatten

namespace Stored

variable {off n : ℕ} {b : β} {bs : List β} {s : List α}

theorem of_blocks (h : ∀ b ∈ bs, block b ≠ []) : Stored block 0 bs (bs.map block).flatten := by
  cases bs with
  | nil => exact ⟨rfl, rfl⟩
  | cons b bs => exact ⟨length_pos_iff.mpr (h b mem_cons_self), rfl⟩

theorem push (h : Stored block off bs s) (hb : block b ≠ []) :
    Stored block off (bs ++ [b]) (s ++ block b) := by
  cases bs with
  | nil =>
    obtain ⟨rfl, rfl⟩ := h
    exact ⟨length_pos_iff.mpr hb, by simp⟩
  | cons c bs =>
    obtain ⟨hoff, rfl⟩ := h
    exact ⟨hoff, by simp⟩

theorem nil_iff (h : Stored block off bs s) : s = [] ↔ bs = [] := by
  cases bs with
  | nil => simp [h.2]
  | cons c bs =>
    obtain ⟨hoff, rfl⟩ := h
    simp only [append_eq_nil_iff, drop_eq_nil_iff, reduceCtorEq, iff_false]
    omega

theorem take (h : Stored block off (b :: bs) s) (hn : n ≤ (block b).length - off) :
    s.take n = ((block b).drop off).take n := by
  rw [h.2, take_append_of_le_length (by rw [length_drop]; exact hn)]

theorem advance (h : Stored block off (b :: bs) s) (hn : n < (block b).length - off) :
    Stored block (off + n) (b :: bs) (s.drop n) := by
  refine ⟨by omega, ?_⟩
  rw [h.2, drop_append_of_le_length (by rw [length_drop]; omega), drop_drop]

theorem drop_eq (h : Stored block off (b :: bs) s) :
    s.drop ((block b).length - off) = (bs.map block).flatten := by
  rw [h.2, ← length_drop, drop_left]

theorem next (h : Stored block off (b :: bs) s) (hbs : ∀ c ∈ bs, block c ≠ []) :
    Stored block 0 bs (s.drop ((block b).length - off)) := by
  rw [h.drop_eq]
  exact of_blocks hbs

theorem take_past (h : Stored block off (b :: bs) s) (hn : (block b).length - off ≤ n) :
    s.take n = (block b).drop off ++
      (s.drop ((block b).length - off)).take (n - ((block b).length - off)) := by
  rw [h.drop_eq, h.2, take_append, length_drop, take_of_length_le]
  rw [length_drop]
  exact hn

end Stored

end Library
