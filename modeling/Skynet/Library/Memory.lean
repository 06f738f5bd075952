import Mathlib.Data.List.Basic

/-!
# Bytes in a buffer

A buffer as what lies at each offset, to be written through a pointer and read as a list.
What a program writes outside the buffer it was given is seen as a change there.
-/

namespace Library

open List

variable {β : Type*}

def store (mem : ℕ → β) (off : ℕ) (l : List β) : ℕ → β :=
  fun j => if off ≤ j then (l[j - off]?).getD (mem j) else mem j

def load (mem : ℕ → β) (off n : ℕ) : List β := (range n).map fun j => mem (off + j)

@[simp]
theorem length_load (mem : ℕ → β) (off n : ℕ) : (load mem off n).length = n := by
  simp [load]

theorem load_append (mem : ℕ → β) (off m n : ℕ) :
    load mem off (m + n) = load mem off m ++ load mem (off + m) n := by
  simp [load, range_add, Nat.add_assoc]

theorem load_congr {mem mem' : ℕ → β} {off n : ℕ}
    (h : ∀ j, off ≤ j → j < off + n → mem' j = mem j) : load mem' off n = load mem off n := by
  apply map_congr_left
  intro j hj
  rw [mem_range] at hj
  exact h _ (by omega) (by omega)

theorem getElem_load (mem : ℕ → β) (off n j : ℕ) (hj : j < (load mem off n).length) :
    (load mem off n)[j] = mem (off + j) := by
  simp [load]

theorem load_eq_of_forall {mem : ℕ → β} {off : ℕ} {l : List β}
    (h : ∀ j (hj : j < l.length), mem (off + j) = l[j]) : load mem off l.length = l := by
  apply ext_getElem
  · simp
  · intro j hj hj'
    rw [getElem_load, h j hj']

@[simp]
theorem store_nil (mem : ℕ → β) (off : ℕ) : store mem off [] = mem := by
  funext j
  simp [store]

theorem store_of_not_mem (mem : ℕ → β) {off j : ℕ} {l : List β}
    (h : j < off ∨ off + l.length ≤ j) : store mem off l j = mem j := by
  unfold store
  split
  · rw [getElem?_eq_none (by omega), Option.getD_none]
  · rfl

theorem load_store (mem : ℕ → β) (off : ℕ) (l : List β) :
    load (store mem off l) off l.length = l := by
  apply load_eq_of_forall
  intro j hj
  simp [store, hj]

theorem load_store_of_disjoint (mem : ℕ → β) {off off' n : ℕ} {l : List β}
    (h : off' + n ≤ off ∨ off + l.length ≤ off') :
    load (store mem off l) off' n = load mem off' n := by
  apply load_congr
  intro j hj hj'
  exact store_of_not_mem mem (by omega)

theorem store_store (mem : ℕ → β) (off : ℕ) (l r : List β) :
    store (store mem off l) (off + l.length) r = store mem off (l ++ r) := by
  funext j
  unfold store
  by_cases hj : off ≤ j
  · simp only [hj, ↓reduceIte, getElem?_append]
    by_cases hl : off + l.length ≤ j
    · have hnot : ¬ j - off < l.length := by omega
      have hsub : j - off - l.length = j - (off + l.length) := by omega
      simp [hl, hnot, hsub]
    · have hlt : j - off < l.length := by omega
      simp [hl, hlt]
  · have hl : ¬ off + l.length ≤ j := by omega
    simp [hj, hl]

theorem store_singleton (mem : ℕ → β) (off : ℕ) (v : β) :
    store mem off [v] = Function.update mem off v := by
  funext j
  unfold store
  by_cases hj : j = off
  · simp [hj]
  · rw [Function.update_of_ne hj]
    split
    · rw [getElem?_eq_none (by simp; omega), Option.getD_none]
    · rfl

end Library
