import Mathlib.Data.List.AList

/-!
# Lua tables

A table with finitely many keys, read and assigned as Lua does it: what has no value is
`nil`, and to assign `nil` is to remove.  The loops over `pairs` are assignments to a list
of keys; the order in which `pairs` gives the keys says nothing.
-/

namespace Library

/-- A Lua table. -/
abbrev Table (κ ν : Type*) := AList fun _ : κ => ν

namespace Table

variable {κ ν : Type*} [DecidableEq κ]

def get (t : Table κ ν) (k : κ) : Option ν := t.lookup k

def put (t : Table κ ν) (k : κ) : Option ν → Table κ ν
  | some v => t.insert k v
  | none => t.erase k

def putAll (t : Table κ ν) (ks : List κ) (v : Option ν) : Table κ ν :=
  ks.foldl (fun t k => t.put k v) t

def keysOf [DecidableEq ν] (t : Table κ ν) (v : ν) : List κ :=
  t.keys.filter fun k => t.get k = some v

def size (t : Table κ ν) : ℕ := t.entries.length

/-! ## Reading back -/

@[simp, grind =]
theorem get_empty (k : κ) : get (∅ : Table κ ν) k = none := by
  rw [get, AList.lookup_empty]

@[grind =]
theorem get_put (t : Table κ ν) (k j : κ) (v : Option ν) :
    (t.put k v).get j = if j = k then v else t.get j := by
  cases v with
  | none =>
    split
    · next h => rw [h, put, get, AList.lookup_erase]
    · next h => rw [put, get, AList.lookup_erase_ne h, get]
  | some v =>
    split
    · next h => rw [h, put, get, AList.lookup_insert]
    · next h => rw [put, get, AList.lookup_insert_ne h, get]

@[simp]
theorem get_put_self (t : Table κ ν) (k : κ) (v : Option ν) : (t.put k v).get k = v := by
  simp [get_put]

@[simp]
theorem put_put (t : Table κ ν) (k : κ) (v w : Option ν) : (t.put k v).put k w = t.put k w := by
  have hgone : t.entries.kerase k = (t.entries.kerase k).kerase k := by
    rw [List.kerase_of_notMem_keys (List.notMem_keys_kerase k t.nodupKeys)]
  apply AList.ext
  cases v with
  | none =>
    cases w with
    | none => exact hgone.symm
    | some w => exact congrArg (List.cons ⟨k, w⟩) hgone.symm
  | some v =>
    cases w with
    | none => exact List.kerase_cons_eq rfl
    | some w => simp [put]

@[grind =]
theorem get_putAll (t : Table κ ν) (ks : List κ) (j : κ) (v : Option ν) :
    (t.putAll ks v).get j = if j ∈ ks then v else t.get j := by
  induction ks generalizing t with
  | nil => simp [putAll]
  | cons k ks ih =>
    have hstep : t.putAll (k :: ks) v = (t.put k v).putAll ks v := rfl
    rw [hstep, ih, get_put]
    by_cases hks : j ∈ ks
    · simp [hks]
    · simp [hks]

@[simp, grind =]
theorem mem_keysOf [DecidableEq ν] (t : Table κ ν) (k : κ) (v : ν) :
    k ∈ t.keysOf v ↔ t.get k = some v := by
  rw [keysOf, List.mem_filter, decide_eq_true_iff]
  constructor
  · exact fun h => h.2
  · intro h
    refine ⟨?_, h⟩
    rw [← AList.mem_keys, ← AList.lookup_isSome]
    exact Option.isSome_of_eq_some h

omit [DecidableEq κ] in
@[simp] theorem size_empty : size (∅ : Table κ ν) = 0 :=
  rfl

theorem size_put_new (t : Table κ ν) {k : κ} (h : t.get k = none) (v : ν) :
    (t.put k (some v)).size = t.size + 1 := by
  have hnot : k ∉ t := AList.lookup_eq_none.mp h
  rw [size, put, AList.entries_insert_of_notMem hnot]
  rfl

theorem size_put_none_le (t : Table κ ν) (k : κ) : (t.put k none).size ≤ t.size :=
  (List.kerase_sublist k t.entries).length_le

end Table

end Library
