import Mathlib.Data.List.Basic
import Mathlib.Data.Nat.ModEq

/-!
# Ring buffers

A ring buffer of capacity `cap` holds `len` items from position `head` on; position `i`
of the content is cell `(head + i) % cap`.  What the three operations on such a buffer
do to its content: writing behind the last item, advancing the head, and copying the
items to the start of a larger buffer.
-/

namespace Library

open List

variable {α : Type*}

def ring (buf : ℕ → α) (cap head len : ℕ) : List α :=
  (range len).map fun i => buf ((head + i) % cap)

@[simp] theorem length_ring (buf : ℕ → α) (cap head len : ℕ) :
    (ring buf cap head len).length = len := by
  simp [ring]

theorem ring_cell_ne {cap head i j : ℕ} (hi : i < j) (hj : j < cap) :
    (head + i) % cap ≠ (head + j) % cap := by
  intro h
  have hmod : i % cap = j % cap := Nat.ModEq.add_left_cancel' head h
  rw [Nat.mod_eq_of_lt hj, Nat.mod_eq_of_lt (by omega)] at hmod
  omega

theorem ring_push {buf : ℕ → α} {cap head len : ℕ} (h : len < cap) (a : α) :
    ring (Function.update buf ((head + len) % cap) a) cap head (len + 1) =
      ring buf cap head len ++ [a] := by
  unfold ring
  rw [range_succ, map_append, map_singleton, Function.update_self]
  congr 1
  refine map_congr_left fun i hi => ?_
  rw [Function.update_of_ne (ring_cell_ne (mem_range.mp hi) h)]

theorem ring_pop {buf : ℕ → α} {cap head len : ℕ} (h : head < cap) :
    ring buf cap head (len + 1) = buf head :: ring buf cap ((head + 1) % cap) len := by
  unfold ring
  rw [range_succ_eq_map, map_cons, Nat.add_zero, Nat.mod_eq_of_lt h, map_map]
  congr 1
  refine map_congr_left fun i _ => ?_
  show buf ((head + (i + 1)) % cap) = buf (((head + 1) % cap + i) % cap)
  rw [Nat.mod_add_mod]
  congr 2
  omega

theorem ring_copy {buf buf' : ℕ → α} {cap cap' head len : ℕ}
    (hcopy : ∀ i < len, buf' i = buf ((head + i) % cap)) (hlen : len ≤ cap') :
    ring buf' cap' 0 len = ring buf cap head len := by
  refine map_congr_left fun i hi => ?_
  have hi' := mem_range.mp hi
  rw [Nat.zero_add, Nat.mod_eq_of_lt (by omega), hcopy i hi']

end Library
