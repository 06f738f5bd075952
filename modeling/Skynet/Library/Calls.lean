import Mathlib.Data.List.Basic

/-!
# Calls and their answers

The calls that clients have made to a server, in the order of their requests.  A server that
puts some of them off has the list of those that wait.  `Accounted` says that each call whose
request has been handled either has its one answer or waits once.
-/

namespace Library

open List Option Bool

structure Call (κ α : Type*) where
  command : κ
  /-- Whether the server has taken the request. -/
  handled : Bool
  answers : List α
  deriving DecidableEq

namespace Call

variable {κ α : Type*}

def new (k : κ) : Call κ α := ⟨k, false, []⟩

def Waits (c : Call κ α) : Prop := c.handled = true ∧ c.answers = []

end Call

namespace Calls

variable {κ α : Type*} {calls : List (Call κ α)} {waiting rest : List ℕ} {i j : ℕ}
  {c : Call κ α} {k : κ} {a : α}

def handle (calls : List (Call κ α)) (i : ℕ) : List (Call κ α) :=
  calls.modify i fun c => { c with handled := true }

def answer (calls : List (Call κ α)) (i : ℕ) (a : α) : List (Call κ α) :=
  calls.modify i fun c => { c with answers := c.answers ++ [a] }

def answerAll (calls : List (Call κ α)) : List ℕ → α → List (Call κ α)
  | [], _ => calls
  | i :: is, a => answerAll (answer calls i a) is a

def command (calls : List (Call κ α)) (i : ℕ) : Option κ := calls[i]?.map (·.command)

theorem handle_getElem? (calls : List (Call κ α)) (i j : ℕ) :
    (handle calls i)[j]? =
      calls[j]?.map fun c => { c with handled := c.handled || decide (i = j) } := by
  rw [handle, getElem?_modify]
  by_cases hij : i = j
  · simp [hij]
  · cases calls[j]? <;> simp [hij]

theorem answer_getElem? (calls : List (Call κ α)) (i j : ℕ) (a : α) :
    (answer calls i a)[j]? =
      calls[j]?.map fun c => { c with answers := c.answers ++ if i = j then [a] else [] } := by
  rw [answer, getElem?_modify]
  by_cases hij : i = j
  · simp [hij]
  · cases calls[j]? <;> simp [hij]

theorem answerAll_getElem? (calls : List (Call κ α)) (is : List ℕ) (j : ℕ) (a : α) :
    (answerAll calls is a)[j]? = calls[j]?.map fun c =>
      { c with answers := c.answers ++ replicate (is.count j) a } := by
  induction is generalizing calls with
  | nil =>
    simp only [answerAll, count_nil, replicate_zero, append_nil]
    exact Option.map_id'.symm
  | cons i is ih =>
    rw [answerAll, ih, answer_getElem?, Option.map_map]
    congr 1
    funext c
    by_cases hij : i = j
    · simp [hij, replicate_succ]
    · simp [hij]

@[simp] theorem handle_length (calls : List (Call κ α)) (i : ℕ) :
    (handle calls i).length = calls.length :=
  length_modify ..

@[simp] theorem answer_length (calls : List (Call κ α)) (i : ℕ) (a : α) :
    (answer calls i a).length = calls.length :=
  length_modify ..

@[simp] theorem answerAll_length (calls : List (Call κ α)) (is : List ℕ) (a : α) :
    (answerAll calls is a).length = calls.length := by
  induction is generalizing calls with
  | nil => rfl
  | cons i is ih => rw [answerAll, ih, answer_length]

@[simp] theorem command_handle (calls : List (Call κ α)) (i : ℕ) :
    command (handle calls i) = command calls := by
  funext j
  rw [command, command, handle_getElem?, Option.map_map]
  rfl

@[simp] theorem command_answer (calls : List (Call κ α)) (i : ℕ) (a : α) :
    command (answer calls i a) = command calls := by
  funext j
  rw [command, command, answer_getElem?, Option.map_map]
  rfl

@[simp] theorem command_answerAll (calls : List (Call κ α)) (is : List ℕ) (a : α) :
    command (answerAll calls is a) = command calls := by
  funext j
  rw [command, command, answerAll_getElem?, Option.map_map]
  rfl

theorem command_new (h : i < calls.length) (k : κ) :
    command (calls ++ [Call.new k]) i = command calls i := by
  rw [command, command, getElem?_append_left h]

theorem of_handle (hc : (handle calls i)[j]? = some c) :
    ∃ d, calls[j]? = some d ∧ d.command = c.command ∧ d.answers = c.answers := by
  rw [handle_getElem?, map_eq_some_iff] at hc
  obtain ⟨d, hd, rfl⟩ := hc
  exact ⟨d, hd, rfl, rfl⟩

theorem of_answerAll {is : List ℕ} (hc : (answerAll calls is a)[j]? = some c) :
    ∃ d, calls[j]? = some d ∧ d.command = c.command
      ∧ ∀ x ∈ c.answers, x ∈ d.answers ∨ x = a ∧ j ∈ is := by
  rw [answerAll_getElem?, map_eq_some_iff] at hc
  obtain ⟨d, hd, rfl⟩ := hc
  refine ⟨d, hd, rfl, fun x hx => ?_⟩
  rcases mem_append.mp hx with hx | hx
  · exact .inl hx
  · obtain ⟨hne, hxa⟩ := mem_replicate.mp hx
    exact .inr ⟨hxa, count_pos_iff.mp (Nat.pos_of_ne_zero hne)⟩

theorem answerAll_append (calls : List (Call κ α)) (is js : List ℕ) (a : α) :
    answerAll calls (is ++ js) a = answerAll (answerAll calls is a) js a := by
  induction is generalizing calls with
  | nil => rfl
  | cons i is ih => exact ih _

/-- Every call that has been taken has one answer or waits once, and the others have none. -/
structure Accounted (calls : List (Call κ α)) (waiting : List ℕ) : Prop where
  count : ∀ i c, calls[i]? = some c → c.answers.length + waiting.count i = c.handled.toNat
  bounded : ∀ i ∈ waiting, i < calls.length

theorem Accounted.nil : Accounted ([] : List (Call κ α)) [] :=
  ⟨fun i c hc => by simp at hc, fun i hi => by simp at hi⟩

theorem Accounted.answers_le_one (h : Accounted calls waiting) (hc : calls[i]? = some c) :
    c.answers.length ≤ 1 := by
  have hcount := h.count i c hc
  have hle := c.handled.toNat_le
  omega

theorem Accounted.unhandled (h : Accounted calls waiting) (hc : calls[i]? = some c)
    (hnot : c.handled = false) : c.answers = [] ∧ i ∉ waiting := by
  have hcount := h.count i c hc
  rw [hnot, toNat_false] at hcount
  exact ⟨length_eq_zero_iff.mp (by omega), count_eq_zero.mp (by omega)⟩

theorem Accounted.waits_iff (h : Accounted calls waiting) (hc : calls[i]? = some c) :
    c.Waits ↔ i ∈ waiting := by
  have hcount := h.count i c hc
  constructor
  · rintro ⟨hhandled, hnil⟩
    rw [hhandled, hnil, length_nil, toNat_true] at hcount
    exact count_pos_iff.mp (by omega)
  · intro hmem
    have hpos := count_pos_iff.mpr hmem
    have hle := c.handled.toNat_le
    refine ⟨?_, length_eq_zero_iff.mp (by omega)⟩
    rw [← toNat_eq_one]
    omega

theorem Accounted.count_eq_one (h : Accounted calls waiting) (hmem : i ∈ waiting) :
    waiting.count i = 1 := by
  have hc := getElem?_eq_getElem (h.bounded i hmem)
  obtain ⟨hhandled, hnil⟩ := (h.waits_iff hc).mpr hmem
  have hcount := h.count i _ hc
  rw [hhandled, hnil, length_nil, toNat_true] at hcount
  omega

theorem Accounted.perm (h : Accounted calls waiting) (hperm : waiting.Perm rest) :
    Accounted calls rest :=
  ⟨fun i c hc => hperm.count_eq i ▸ h.count i c hc, fun i hi => h.bounded i (hperm.mem_iff.mpr hi)⟩

theorem Accounted.new (h : Accounted calls waiting) (k : κ) :
    Accounted (calls ++ [Call.new k]) waiting := by
  constructor
  · intro i c hc
    rw [getElem?_append] at hc
    split at hc
    · exact h.count i c hc
    · next hlt =>
      have hnot : i ∉ waiting := fun hmem => hlt (h.bounded i hmem)
      rw [getElem?_singleton] at hc
      obtain ⟨-, hnew⟩ := ite_none_right_eq_some.mp hc
      cases hnew
      simp [Call.new, count_eq_zero.mpr hnot]
  · intro i hi
    rw [length_append]
    exact Nat.lt_add_right _ (h.bounded i hi)

theorem Accounted.wait (h : Accounted calls waiting) (hc : calls[i]? = some c)
    (hnot : c.handled = false) : Accounted (handle calls i) (waiting ++ [i]) := by
  constructor
  · intro j d hd
    rw [handle_getElem?, map_eq_some_iff] at hd
    obtain ⟨d, hd, rfl⟩ := hd
    have hcount := h.count j d hd
    by_cases hij : i = j
    · subst hij
      obtain rfl : c = d := Option.some.inj (hc.symm.trans hd)
      rw [hnot, toNat_false] at hcount
      simp only [count_append, count_singleton_self, decide_true, Bool.or_true, toNat_true]
      omega
    · simpa [hij, count_append] using hcount
  · intro j hj
    rw [handle_length]
    rcases mem_append.mp hj with hj | hj
    · exact h.bounded j hj
    · rw [mem_singleton.mp hj]
      exact (List.getElem?_eq_some_iff.mp hc).1

theorem Accounted.answerAll (h : Accounted calls (waiting ++ rest)) (a : α) :
    Accounted (answerAll calls waiting a) rest := by
  constructor
  · intro j d hd
    rw [answerAll_getElem?, map_eq_some_iff] at hd
    obtain ⟨d, hd, rfl⟩ := hd
    have hcount := h.count j d hd
    rw [count_append] at hcount
    change (d.answers ++ replicate _ a).length + _ = d.handled.toNat
    rw [length_append, length_replicate]
    omega
  · intro j hj
    rw [answerAll_length]
    exact h.bounded j (mem_append_right _ hj)

theorem Accounted.reply (h : Accounted calls waiting) (hc : calls[i]? = some c)
    (hnot : c.handled = false) (a : α) : Accounted (answer (handle calls i) i a) waiting :=
  ((h.wait hc hnot).perm perm_append_comm).answerAll a

theorem Accounted.answered (h : Accounted calls (waiting ++ rest)) (hc : calls[i]? = some c)
    (hmem : i ∈ waiting) (a : α) :
    (Calls.answerAll calls waiting a)[i]? = some { c with answers := [a] } := by
  have hone := h.count_eq_one (mem_append_left rest hmem)
  have hpos := count_pos_iff.mpr hmem
  obtain ⟨-, hnil⟩ := (h.waits_iff hc).mpr (mem_append_left rest hmem)
  rw [count_append] at hone
  have hcount : waiting.count i = 1 := by omega
  rw [answerAll_getElem?, hc, map_some, hnil, hcount]
  rfl

end Calls

end Library
