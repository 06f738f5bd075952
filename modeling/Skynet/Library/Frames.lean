import Mathlib.Data.List.Basic

/-!
# Frames with a length in front

A stream of frames, each a header of `hs` elements followed by as many elements as the
header says: `deframe hs number s` is the list of the complete payloads of `s` and what
comes behind them.  What a stream is cut into does not matter: `deframe_append`.

A stream of which a reader takes an exact number of elements, or what comes next: the pieces
are what the reads of the second kind find.  An exact read depends on the stream alone.
-/

namespace Library

open List

variable {α : Type*} {hs : ℕ} {number : List α → ℕ} {s t : List α}

def HasFrame (hs : ℕ) (number : List α → ℕ) (s : List α) : Prop :=
  0 < hs ∧ hs ≤ s.length ∧ number (s.take hs) ≤ s.length - hs

instance : Decidable (HasFrame hs number s) := by
  unfold HasFrame
  infer_instance

/-- The payloads of the complete frames of a stream, and what is left of it. -/
def deframe (hs : ℕ) (number : List α → ℕ) (s : List α) : List (List α) × List α :=
  if _h : HasFrame hs number s then
    let n := number (s.take hs)
    let rest := deframe hs number (s.drop (hs + n))
    ((s.drop hs).take n :: rest.1, rest.2)
  else ([], s)
termination_by s.length
decreasing_by
  have hpos := _h.1
  have hle := _h.2.1
  rw [length_drop]
  omega

theorem deframe_of_not (h : ¬HasFrame hs number s) : deframe hs number s = ([], s) := by
  rw [deframe, dif_neg h]

theorem deframe_of (h : HasFrame hs number s) : deframe hs number s =
    ((s.drop hs).take (number (s.take hs)) ::
      (deframe hs number (s.drop (hs + number (s.take hs)))).1,
      (deframe hs number (s.drop (hs + number (s.take hs)))).2) := by
  rw [deframe, dif_pos h]

theorem HasFrame.append (h : HasFrame hs number s) (t : List α) : HasFrame hs number (s ++ t) := by
  obtain ⟨hpos, hle, hnumber⟩ := h
  refine ⟨hpos, by rw [length_append]; omega, ?_⟩
  rw [take_append_of_le_length hle, length_append]
  omega

theorem deframe_append (s t : List α) : deframe hs number (s ++ t) =
    ((deframe hs number s).1 ++ (deframe hs number ((deframe hs number s).2 ++ t)).1,
      (deframe hs number ((deframe hs number s).2 ++ t)).2) := by
  induction hlen : s.length using Nat.strongRecOn generalizing s with
  | _ n ih =>
    by_cases h : HasFrame hs number s
    · obtain ⟨hpos, hle, hnumber⟩ := id h
      have hrec := ih _ (by rw [length_drop]; omega) (s.drop (hs + number (s.take hs))) rfl
      rw [deframe_of (h.append t), deframe_of h]
      rw [take_append_of_le_length hle, drop_append_of_le_length hle,
        take_append_of_le_length (by rw [length_drop]; exact hnumber),
        drop_append_of_le_length (by omega), hrec]
      rfl
    · rw [deframe_of_not h]
      rfl

theorem deframe_frame {head payload : List α} (hpos : 0 < hs) (hhead : head.length = hs)
    (hnumber : number head = payload.length) (t : List α) :
    deframe hs number (head ++ payload ++ t) =
      (payload :: (deframe hs number t).1, (deframe hs number t).2) := by
  have htake : (head ++ payload ++ t).take hs = head := by
    rw [append_assoc, ← hhead, take_left]
  have hdrop : (head ++ payload ++ t).drop hs = payload ++ t := by
    rw [append_assoc, ← hhead, drop_left]
  have h : HasFrame hs number (head ++ payload ++ t) := by
    refine ⟨hpos, ?_, ?_⟩
    · simp only [length_append]
      omega
    · rw [htake]
      simp only [length_append]
      omega
  rw [deframe_of h, htake, ← drop_drop, hdrop, hnumber, take_left, drop_left]

theorem deframe_frames {head : List α → List α} (hpos : 0 < hs) (payloads : List (List α))
    (hhead : ∀ p ∈ payloads, (head p).length = hs ∧ number (head p) = p.length) (t : List α) :
    deframe hs number ((payloads.map fun p => head p ++ p).flatten ++ t) =
      (payloads ++ (deframe hs number t).1, (deframe hs number t).2) := by
  induction payloads with
  | nil => rfl
  | cons p payloads ih =>
    obtain ⟨hlen, hnumber⟩ := hhead p mem_cons_self
    rw [map_cons, flatten_cons, append_assoc, deframe_frame hpos hlen hnumber,
      ih fun p' hp => hhead p' (mem_cons_of_mem p hp)]
    rfl

variable {α : Type*} {pieces : List (List α)} {n : ℕ}

/-- Exactly `n` elements, and the pieces behind them; `none` where there are fewer. -/
def takeExact : ℕ → List (List α) → Option (List α × List (List α))
  | 0, pieces => some ([], pieces)
  | _ + 1, [] => none
  | n + 1, piece :: pieces =>
    if n + 1 < piece.length then some (piece.take (n + 1), piece.drop (n + 1) :: pieces)
    else (takeExact (n + 1 - piece.length) pieces).map fun (taken, rest) => (piece ++ taken, rest)

theorem takeExact_spec (h : n ≤ pieces.flatten.length) : ∃ rest,
    takeExact n pieces = some (pieces.flatten.take n, rest) ∧
      rest.flatten = pieces.flatten.drop n := by
  induction pieces generalizing n with
  | nil =>
    obtain rfl := Nat.le_zero.mp h
    exact ⟨[], rfl, rfl⟩
  | cons piece pieces ih =>
    cases n with
    | zero => exact ⟨piece :: pieces, rfl, rfl⟩
    | succ n =>
      rw [flatten_cons] at h ⊢
      rw [takeExact]
      split
      · next hlt =>
        refine ⟨piece.drop (n + 1) :: pieces, ?_, ?_⟩
        · rw [take_append_of_le_length (Nat.le_of_lt hlt)]
        · rw [flatten_cons, drop_append_of_le_length (Nat.le_of_lt hlt)]
      · next hle =>
        have hle' : piece.length ≤ n + 1 := Nat.not_lt.mp hle
        rw [length_append] at h
        obtain ⟨rest, htake, hrest⟩ := ih (n := n + 1 - piece.length) (by omega)
        refine ⟨rest, ?_, ?_⟩
        · rw [htake, Option.map_some, take_append, take_of_length_le hle']
        · rw [hrest, drop_append, drop_eq_nil_of_le hle', nil_append]

theorem takeExact_of_lt (h : pieces.flatten.length < n) : takeExact n pieces = none := by
  induction pieces generalizing n with
  | nil =>
    cases n with
    | zero => exact absurd h (Nat.not_lt_zero _)
    | succ n => rfl
  | cons piece pieces ih =>
    rw [flatten_cons, length_append] at h
    cases n with
    | zero => exact absurd h (Nat.not_lt_zero _)
    | succ n => rw [takeExact, if_neg (by omega), ih (by omega), Option.map_none]

def singles (s : List α) : List (List α) := s.map fun a => [a]

@[simp] theorem flatten_singles (s : List α) : (singles s).flatten = s := by
  induction s with
  | nil => rfl
  | cons a s ih => rw [singles, map_cons, flatten_cons, ← singles, ih]; rfl

theorem takeExact_zero (pieces : List (List α)) : takeExact 0 pieces = some ([], pieces) := by
  cases pieces <;> rfl

theorem takeExact_singles {s : List α} (h : n ≤ s.length) :
    takeExact n (singles s) = some (s.take n, singles (s.drop n)) := by
  induction s generalizing n with
  | nil =>
    obtain rfl := Nat.le_zero.mp h
    rfl
  | cons a s ih =>
    cases n with
    | zero => exact takeExact_zero _
    | succ n =>
      have hle : n ≤ s.length := Nat.le_of_succ_le_succ h
      have hone : n + 1 - [a].length = n := rfl
      rw [singles, map_cons, takeExact, if_neg (by simp), hone, ← singles, ih hle]
      rfl

/-! ## Parts of a stream -/

/-- Parts of which each is the same or shorter are the same together if and only if each one is, and
shorter otherwise. -/
theorem flatten_eq_iff {α β : Type*} {f g : α → List β} {l : List α}
    (h : ∀ a ∈ l, f a = g a ∨ (f a).length < (g a).length) :
    ((l.map f).flatten = (l.map g).flatten ↔ ∀ a ∈ l, f a = g a)
      ∧ ((l.map f).flatten = (l.map g).flatten
        ∨ (l.map f).flatten.length < (l.map g).flatten.length) := by
  induction l with
  | nil => exact ⟨iff_of_true rfl nofun, .inl rfl⟩
  | cons a l ih =>
    obtain ⟨hiff, hrest⟩ := ih fun b hb => h b (mem_cons_of_mem _ hb)
    simp only [map_cons, flatten_cons, forall_mem_cons, length_append]
    rcases h a mem_cons_self with heq | hlt
    · rw [heq, append_cancel_left_eq]
      exact ⟨hiff.trans (and_iff_right rfl).symm, hrest.imp id fun hlt => Nat.add_lt_add_left hlt _⟩
    · have hle : (l.map f).flatten.length ≤ (l.map g).flatten.length := by
        rcases hrest with heq | hlt
        · exact Nat.le_of_eq (congrArg List.length heq)
        · exact Nat.le_of_lt hlt
      refine ⟨iff_of_false (fun heq => ?_) fun hall => ?_, .inr (by omega)⟩
      · have hlen := congrArg List.length heq
        rw [length_append, length_append] at hlen
        omega
      · rw [hall.1] at hlt
        exact Nat.lt_irrefl _ hlt

end Library
