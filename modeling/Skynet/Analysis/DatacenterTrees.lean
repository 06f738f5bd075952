import Mathlib.Data.List.TakeWhile
import Skynet.Analysis.LuaSeriTables
import Skynet.Model.Datacenter

/-!
# The two trees of the datacenter

What is at a path of the data tree and of the tree of WAITs, and what `update`, `wakeup` and
`waitfor` do to it: `update` changes what is at its path and makes tables of the paths above
it, `wakeup` takes away the first queue that it meets, and `waitfor` adds to the queue at its
path.
-/

namespace Skynet.Analysis

open Model List Bool

/-! ## Entries -/

section Entries

variable {ν : Type} (t : List (LuaValue Unit × ν)) {k j : LuaValue Unit}

theorem entryOf_congr (h : sameKey k j = true) : entryOf t k = entryOf t j := by
  obtain ⟨w, rfl, rfl⟩ := sameKey_iff.1 h
  rfl

theorem entryOf_setEntry (k j : LuaValue Unit) (v : Option ν) :
    entryOf (setEntry t k v) j = if sameKey k j then v else entryOf t j := by
  have hkey : ∀ e : LuaValue Unit × ν, sameKey k j = true → sameKey e.1 j = sameKey e.1 k := by
    intro e hkj
    rw [sameKey_symm, ← sameKey_congr hkj, sameKey_symm]
  have hother : ∀ e : LuaValue Unit × ν, sameKey k j = false → sameKey e.1 j = true →
      sameKey e.1 k = false := by
    intro e hkj hej
    rw [sameKey_congr hej, sameKey_symm]
    exact hkj
  cases v with
  | none =>
    rw [entryOf, setEntry]
    simp only [find?_filter]
    cases hkj : sameKey k j with
    | true => simp [hkey _ hkj]
    | false =>
      have hpred : (fun e : LuaValue Unit × ν =>
          decide ((!sameKey e.1 k) = true ∧ sameKey e.1 j = true)) = fun e => sameKey e.1 j := by
        funext e
        cases hej : sameKey e.1 j with
        | true => simp [hother e hkj hej]
        | false => simp
      rw [hpred, if_neg Bool.false_ne_true]
      rfl
  | some v =>
    rw [setEntry]
    split
    · next hany =>
      have hpred : ((fun e : LuaValue Unit × ν => sameKey e.1 j) ∘
          fun e => if sameKey e.1 k then (e.1, v) else e) = fun e => sameKey e.1 j := by
        funext e
        simp only [Function.comp_apply]
        split <;> rfl
      rw [entryOf, find?_map, hpred]
      cases hkj : sameKey k j with
      | true =>
        obtain ⟨e, he, hek⟩ := any_eq_true.1 hany
        obtain ⟨f, hf⟩ := Option.isSome_iff_exists.1
          (find?_isSome.2 ⟨e, he, (hkey e hkj).trans hek⟩ :
            (t.find? fun e => sameKey e.1 j).isSome = true)
        have hfj := find?_some (p := fun e : LuaValue Unit × ν => sameKey e.1 j) hf
        have hfk := (hkey f hkj).symm.trans hfj
        simp [hf, hfk]
      | false =>
        cases hf : t.find? fun e => sameKey e.1 j with
        | none => simp [entryOf, hf]
        | some f =>
          have hfj := find?_some (p := fun e : LuaValue Unit × ν => sameKey e.1 j) hf
          have hfk := hother f hkj hfj
          simp [entryOf, hf, hfk]
    · next hany =>
      rw [entryOf, find?_append]
      cases hkj : sameKey k j with
      | true =>
        have hnone : (t.find? fun e => sameKey e.1 j) = none := by
          rw [find?_eq_none]
          intro e he hej
          exact hany (any_eq_true.2 ⟨e, he, (hkey e hkj).symm.trans hej⟩)
        simp [hnone, hkj]
      | false => simp [entryOf, hkj]

end Entries

theorem rawget_eq (es : LuaEntries Unit) (k : LuaValue Unit) :
    rawget es k = (entryOf es k).getD (.scalar .nil) :=
  rfl

theorem rawget_assign (es : LuaEntries Unit) (k j v : LuaValue Unit) :
    rawget (assign es k v) j = if sameKey k j then v else rawget es j := by
  have hset : assign es k v = setEntry es k (if v.isNil then none else some v) := by
    unfold assign
    split <;> rfl
  rw [hset, rawget_eq, entryOf_setEntry]
  split
  · split
    · next h => exact (isNil_iff.1 h).symm
    · rfl
  · rfl

/-! ## Paths -/

def samePath : List (LuaValue Unit) → List (LuaValue Unit) → Bool
  | [], [] => true
  | a :: p, b :: q => sameKey (usedKey a) (usedKey b) && samePath p q
  | _, _ => false

def related : List (LuaValue Unit) → List (LuaValue Unit) → Bool
  | a :: p, b :: q => sameKey (usedKey a) (usedKey b) && related p q
  | _, _ => true

section Paths

variable {p q r : List (LuaValue Unit)}

@[simp] theorem samePath_cons (a b : LuaValue Unit) (p q : List (LuaValue Unit)) :
    samePath (a :: p) (b :: q) = (sameKey (usedKey a) (usedKey b) && samePath p q) := rfl

theorem samePath_length : ∀ {p q : List (LuaValue Unit)}, samePath p q = true → p.length = q.length
  | [], [], _ => rfl
  | _ :: _, _ :: _, h => by
    rw [samePath_cons, and_eq_true] at h
    rw [length_cons, length_cons, samePath_length h.2]

theorem samePath_symm : ∀ p q : List (LuaValue Unit), samePath p q = samePath q p
  | [], [] => rfl
  | [], _ :: _ => rfl
  | _ :: _, [] => rfl
  | a :: p, b :: q => by
    rw [samePath_cons, samePath_cons, samePath_symm p q, sameKey_symm]

theorem samePath_trans : ∀ {p q r : List (LuaValue Unit)}, samePath p q = true →
    samePath q r = true → samePath p r = true
  | [], [], [], _, _ => rfl
  | a :: p, b :: q, c :: r, hpq, hqr => by
    rw [samePath_cons, and_eq_true] at hpq hqr ⊢
    rw [sameKey_congr hpq.1]
    exact ⟨hqr.1, samePath_trans hpq.2 hqr.2⟩

@[simp] theorem related_nil (p : List (LuaValue Unit)) : related p [] = true := by
  cases p <;> rfl

theorem related_iff : ∀ {p q : List (LuaValue Unit)},
    related p q = samePath (p.take q.length) (q.take p.length)
  | [], [] => rfl
  | [], _ :: _ => rfl
  | _ :: _, [] => rfl
  | a :: p, b :: q => by
    simp [related, related_iff (p := p)]

end Paths

/-! ## The data -/

def valueAt : LuaValue Unit → List (LuaValue Unit) → LuaValue Unit
  | v, [] => v
  | .table _ es, k :: p => valueAt (rawget es (usedKey k)) p
  | _, _ :: _ => .scalar .nil

@[simp] theorem valueAt_nil (v : LuaValue Unit) : valueAt v [] = v := by
  cases v <;> rfl

@[simp] theorem valueAt_table (es : LuaEntries Unit) (k : LuaValue Unit)
    (p : List (LuaValue Unit)) :
    valueAt (.table () es) (k :: p) = valueAt (rawget es (usedKey k)) p := rfl

theorem valueAt_leaf {v : LuaValue Unit} (h : v.isTable = false) (k : LuaValue Unit)
    (p : List (LuaValue Unit)) : valueAt v (k :: p) = .scalar .nil := by
  cases v with
  | table => cases h
  | _ => rfl

theorem isTable_of_isNil {v : LuaValue Unit} (h : v.isNil = true) : v.isTable = false := by
  rw [isNil_iff.1 h]
  rfl

theorem valueAt_of_isNil {v : LuaValue Unit} (h : v.isNil = true) :
    ∀ p, valueAt v p = .scalar .nil
  | [] => by rw [valueAt_nil, isNil_iff.1 h]
  | k :: p => valueAt_leaf (isTable_of_isNil h) k p

theorem valueAt_empty (k : LuaValue Unit) (p : List (LuaValue Unit)) :
    valueAt (.table () []) (k :: p) = .scalar .nil :=
  valueAt_of_isNil (v := rawget [] (usedKey k)) rfl p

theorem valueAt_append : ∀ (p q : List (LuaValue Unit)) (v : LuaValue Unit),
    valueAt v (p ++ q) = valueAt (valueAt v p) q
  | [], q, v => by rw [nil_append, valueAt_nil]
  | k :: p, q, .table _ es => valueAt_append p q (rawget es (usedKey k))
  | k :: p, q, .scalar w => (valueAt_of_isNil (v := .scalar .nil) rfl q).symm
  | k :: p, q, .other w => (valueAt_of_isNil (v := .scalar .nil) rfl q).symm

theorem valueAt_congr : ∀ {p q : List (LuaValue Unit)}, samePath p q = true →
    ∀ v, valueAt v p = valueAt v q
  | [], [], _, _ => rfl
  | a :: p, b :: q, h, v => by
    rw [samePath_cons, and_eq_true] at h
    cases v with
    | table u es =>
      rw [valueAt_table, valueAt_table, rawget_eq, rawget_eq, entryOf_congr es h.1]
      exact valueAt_congr h.2 _
    | scalar w => rfl
    | other w => rfl

/-! ## `update` -/

def pathOf (key value : LuaValue Unit) : List (LuaValue Unit) → List (LuaValue Unit)
  | [] => [key]
  | v :: rest => key :: pathOf value v rest

def valueOf (value : LuaValue Unit) : List (LuaValue Unit) → LuaValue Unit
  | [] => value
  | v :: rest => valueOf v rest

theorem pathOf_append (rest : List (LuaValue Unit)) : ∀ key value,
    pathOf key value rest ++ [valueOf value rest] = key :: value :: rest := by
  induction rest with
  | nil => exact fun _ _ => rfl
  | cons v rest ih => exact fun key value => congrArg (key :: ·) (ih value v)

theorem pathOf_ne_nil (key value : LuaValue Unit) (rest : List (LuaValue Unit)) :
    pathOf key value rest ≠ [] := by
  cases rest <;> simp [pathOf]

def GoodKey (k : LuaValue Unit) : Prop := k.isNil = false ∧ k.isNaN = false

variable {k : LuaValue Unit}

theorem setIndex_good (h : GoodKey k) (es : LuaEntries Unit)
    (v : LuaValue Unit) : setIndex es k v = .ok (assign es (usedKey k) v) := by
  simp [setIndex, h.1, h.2]

def NoLeaf (v : LuaValue Unit) (p : List (LuaValue Unit)) : Prop :=
  ∀ i < p.length, 0 < i → (valueAt v (p.take i)).isNil = true ∨
    (valueAt v (p.take i)).isTable = true

theorem valueAt_update_other (rest : List (LuaValue Unit)) : ∀ (db key value : LuaValue Unit)
    (q : List (LuaValue Unit)), related (pathOf key value rest) q = false →
      valueAt (Datacenter.update db key value rest).1 q = valueAt db q := by
  induction rest with
  | nil =>
    intro db key value q hrel
    cases q with
    | nil => simp [pathOf] at hrel
    | cons b q =>
      have hkey : sameKey (usedKey key) (usedKey b) = false := by
        simpa [pathOf, related] using hrel
      cases db with
      | scalar w => rfl
      | other w => rfl
      | table u es =>
        simp only [Datacenter.update]
        cases hset : setIndex es key value with
        | error e => rfl
        | ok es' =>
          have hes : es' = assign es (usedKey key) value := by
            unfold setIndex at hset
            split at hset
            · cases hset
            · split at hset
              · cases hset
              · exact (Except.ok.inj hset).symm
          rw [valueAt_table, valueAt_table, hes, rawget_assign, hkey, if_neg Bool.false_ne_true]
  | cons v rest ih =>
    intro db key value q hrel
    cases q with
    | nil => simp [pathOf] at hrel
    | cons b q =>
      have hrel' : sameKey (usedKey key) (usedKey b) = true →
          related (pathOf value v rest) q = false := by
        intro hkey
        simpa [pathOf, related, hkey] using hrel
      have hstep : ∀ (es : LuaEntries Unit) (child : LuaValue Unit),
          (sameKey (usedKey key) (usedKey b) = true →
            valueAt child q = valueAt (rawget es (usedKey key)) q) →
          valueAt (.table () (assign es (usedKey key) child)) (b :: q) =
            valueAt (.table () es) (b :: q) := by
        intro es child hchild
        rw [valueAt_table, valueAt_table, rawget_assign]
        split
        · next hkey => rw [hchild hkey, rawget_eq, rawget_eq, entryOf_congr es hkey]
        · rfl
      cases db with
      | scalar w => rfl
      | other w => rfl
      | table u es =>
        simp only [Datacenter.update]
        split
        · next hnil =>
          cases setIndex es key (.table () []) with
          | error e => rfl
          | ok es' =>
            refine hstep es _ fun hkey => ?_
            rw [ih _ _ _ _ (hrel' hkey), valueAt_of_isNil hnil]
            cases q with
            | nil =>
              have hrel := hrel' hkey
              rw [related_nil] at hrel
              cases hrel
            | cons c q => exact valueAt_empty c q
        · exact hstep es _ fun hkey => ih _ _ _ _ (hrel' hkey)

def childOf (es : LuaEntries Unit) (key : LuaValue Unit) : LuaValue Unit :=
  if (rawget es (usedKey key)).isNil then .table () [] else rawget es (usedKey key)

variable {es : LuaEntries Unit} {key : LuaValue Unit}

theorem update_cons (hkey : GoodKey key)
    (value v : LuaValue Unit) (rest : List (LuaValue Unit)) :
    Datacenter.update (.table () es) key value (v :: rest) =
      (.table () (assign es (usedKey key) (Datacenter.update (childOf es key) value v rest).1),
        (Datacenter.update (childOf es key) value v rest).2) := by
  rw [Datacenter.update]
  simp only [setIndex_good hkey, childOf]
  split <;> rfl

theorem valueAt_childOf (es : LuaEntries Unit) (key k : LuaValue Unit) (p : List (LuaValue Unit)) :
    valueAt (childOf es key) (k :: p) = valueAt (.table () es) (key :: k :: p) := by
  rw [childOf]
  split
  · next h => rw [valueAt_empty, valueAt_table, valueAt_of_isNil h]
  · rfl

theorem isTable_childOf {p : List (LuaValue Unit)} (hp : p ≠ [])
    (hleaf : NoLeaf (.table () es) (key :: p)) : (childOf es key).isTable = true := by
  have hpos : 0 < p.length := length_pos_iff.2 hp
  have h := hleaf 1 (by simpa using hpos) Nat.one_pos
  rw [childOf]
  split
  · rfl
  · next hnil => exact h.resolve_left hnil

theorem noLeaf_childOf {p : List (LuaValue Unit)} (hleaf : NoLeaf (.table () es) (key :: p)) :
    NoLeaf (childOf es key) p := by
  intro i hi hpos
  have h := hleaf (i + 1) (by simpa using hi) (Nat.succ_pos i)
  cases p with
  | nil => cases hi
  | cons k p =>
    obtain ⟨j, rfl⟩ := Nat.exists_eq_succ_of_ne_zero hpos.ne'
    rw [Nat.succ_eq_add_one, take_succ_cons] at h ⊢
    rw [valueAt_childOf]
    exact h

structure Updated (db : LuaValue Unit) (path : List (LuaValue Unit)) (value : LuaValue Unit)
    (u : LuaValue Unit × Except DatacenterError (LuaValue Unit × LuaValue Unit)) : Prop where
  returned : u.2 = .ok (valueAt db path, value)
  isTable : u.1.isTable = true
  below : ∀ p r, samePath path p = true → valueAt u.1 (p ++ r) = valueAt value r
  above : ∀ i < path.length, ∀ p, samePath (path.take i) p = true → (valueAt u.1 p).isTable = true

theorem update_ok (rest : List (LuaValue Unit)) : ∀ {db key value : LuaValue Unit},
    db.isTable = true → (∀ k ∈ pathOf key value rest, GoodKey k) →
      NoLeaf db (pathOf key value rest) →
      Updated db (pathOf key value rest) (valueOf value rest) (Datacenter.update db key value rest) := by
  induction rest with
  | nil =>
    intro db key value htable hkeys _
    cases db with
    | scalar w => cases htable
    | other w => cases htable
    | table u es =>
      have hkey : GoodKey key := hkeys key (by simp [pathOf])
      simp only [Datacenter.update, setIndex_good hkey, pathOf, valueOf]
      refine ⟨by rw [valueAt_table, valueAt_nil], rfl, ?_, ?_⟩
      · intro p r hsame
        cases p with
        | nil => cases hsame
        | cons b p =>
          rw [samePath_cons, and_eq_true] at hsame
          obtain rfl : p = [] := by
            have hlen := samePath_length hsame.2
            simpa using hlen.symm
          rw [singleton_append, valueAt_table, rawget_assign, if_pos hsame.1]
      · intro i hi p hsame
        obtain rfl : i = 0 := by simpa using hi
        cases p with
        | nil => rfl
        | cons b p => cases hsame
  | cons v rest ih =>
    intro db key value htable hkeys hleaf
    cases db with
    | scalar w => cases htable
    | other w => cases htable
    | table u es =>
      have hkey : GoodKey key := hkeys key mem_cons_self
      have hne := pathOf_ne_nil value v rest
      have h := ih (isTable_childOf hne hleaf)
        (fun k hk => hkeys k (mem_cons_of_mem key hk)) (noLeaf_childOf hleaf)
      rw [update_cons hkey]
      simp only [pathOf, valueOf]
      refine ⟨?_, rfl, ?_, ?_⟩
      · rw [h.returned]
        cases hpath : pathOf value v rest with
        | nil => exact absurd hpath hne
        | cons k p => rw [valueAt_childOf]
      · intro p r hsame
        cases p with
        | nil => cases hsame
        | cons b p =>
          rw [samePath_cons, and_eq_true] at hsame
          rw [cons_append, valueAt_table, rawget_assign, if_pos hsame.1]
          exact h.below p r hsame.2
      · intro i hi p hsame
        cases p with
        | nil => rfl
        | cons b p =>
          cases i with
          | zero => cases hsame
          | succ i =>
            rw [take_succ_cons, samePath_cons, and_eq_true] at hsame
            rw [valueAt_table, rawget_assign, if_pos hsame.1]
            exact h.above i (by simpa using hi) p hsame.2

/-! ## The waiting tree -/

def nodeAt : WaitEntries → List (LuaValue Unit) → Option WaitNode
  | es, [] => some (.branch es)
  | es, k :: p =>
    match entryOf es (usedKey k) with
    | some (.branch q) => nodeAt q p
    | some (.queue q) => if p.isEmpty then some (.queue q) else none
    | none => none

def queueAt : WaitEntries → List (LuaValue Unit) → List ℕ
  | _, [] => []
  | es, k :: p =>
    match entryOf es (usedKey k) with
    | some (.branch q) => queueAt q p
    | some (.queue q) => if p.isEmpty then q else []
    | none => []

def below (n : Option WaitNode) (p : List (LuaValue Unit)) : List ℕ :=
  match n with
  | some (.branch q) => queueAt q p
  | some (.queue q) => if p.isEmpty then q else []
  | none => []

theorem queueAt_cons (es : WaitEntries) (k : LuaValue Unit) (p : List (LuaValue Unit)) :
    queueAt es (k :: p) = below (entryOf es (usedKey k)) p := rfl

theorem queueAt_setEntry (es : WaitEntries) (k b : LuaValue Unit) (n : Option WaitNode)
    (p : List (LuaValue Unit)) :
    queueAt (setEntry es (usedKey k) n) (b :: p) =
      if sameKey (usedKey k) (usedKey b) then below n p else queueAt es (b :: p) := by
  rw [queueAt_cons, entryOf_setEntry]
  split
  · rfl
  · rw [queueAt_cons]

theorem queueAt_congr {p q : List (LuaValue Unit)} (h : samePath p q = true)
    (es : WaitEntries) : queueAt es p = queueAt es q := by
  cases p with
  | nil =>
    cases q with
    | nil => rfl
    | cons b q => cases h
  | cons a p =>
    cases q with
    | nil => cases h
    | cons b q =>
      rw [samePath_cons, and_eq_true] at h
      rw [queueAt_cons, queueAt_cons, entryOf_congr es h.1]
      cases entryOf es (usedKey b) with
      | none => rfl
      | some n =>
        cases n with
        | branch es₁ => exact queueAt_congr h.2 es₁
        | queue rs =>
          have hlen := samePath_length h.2
          cases p <;> cases q <;> simp_all [below]

theorem nodeAt_of_mem {n : ℕ} : ∀ {p : List (LuaValue Unit)} {es : WaitEntries},
    n ∈ queueAt es p → nodeAt es p = some (.queue (queueAt es p))
  | k :: p, es, h => by
    rw [queueAt_cons] at h ⊢
    rw [nodeAt]
    cases hk : entryOf es (usedKey k) with
    | none =>
      rw [hk] at h
      cases h
    | some q =>
      rw [hk] at h
      cases q with
      | branch q => exact nodeAt_of_mem h
      | queue q =>
        simp only [below] at h ⊢
        split at h
        · next hp => rw [if_pos hp, if_pos hp]
        · cases h

theorem queueAt_of_nodeAt {q : List ℕ} : ∀ {p : List (LuaValue Unit)} {es : WaitEntries},
    nodeAt es p = some (.queue q) → queueAt es p = q
  | [], _, h => by cases h
  | k :: p, es, h => by
    rw [queueAt_cons]
    rw [nodeAt] at h
    cases hk : entryOf es (usedKey k) with
    | none =>
      rw [hk] at h
      cases h
    | some n =>
      rw [hk] at h
      cases n with
      | branch n => exact queueAt_of_nodeAt h
      | queue n =>
        simp only [below] at h ⊢
        split at h
        · next hp =>
          rw [if_pos hp]
          simpa using h
        · cases h

theorem nodeAt_queue {q : List ℕ} : ∀ {p : List (LuaValue Unit)} {es : WaitEntries},
    nodeAt es p = some (.queue q) → ∀ {r}, r ≠ [] → nodeAt es (p ++ r) = none
  | [], _, h, _, _ => by cases h
  | k :: p, es, h, r, hr => by
    rw [nodeAt] at h
    rw [cons_append, nodeAt]
    cases hk : entryOf es (usedKey k) with
    | none => rfl
    | some n =>
      rw [hk] at h
      cases n with
      | branch n => exact nodeAt_queue h hr
      | queue n =>
        have hempty : (p ++ r).isEmpty = false := by simp [hr]
        simp only [hempty, false_eq_true, if_false]

/-! ## `wakeup` and `waitfor` -/

inductive Wakes (es : WaitEntries) (args : List (LuaValue Unit)) :
    WaitEntries × Woken → Prop
  | nobody (es' : WaitEntries) (hsame : ∀ p, queueAt es' p = queueAt es p)
      (hno : ∀ i q, nodeAt es (args.take i) ≠ some (.queue q)) : Wakes es args (es', .nobody)
  | some (es' : WaitEntries) (i : ℕ) (q : List ℕ) (hi : i ≤ args.length)
      (hat : nodeAt es (args.take i) = some (.queue q))
      (hgone : ∀ p, queueAt es' p = if samePath (args.take i) p then [] else queueAt es p) :
      Wakes es args (es', if args.length = i + 1 then .ready q else .failed q)

theorem wakeup_branch (hk : k.isNil = false) {es es₁ : WaitEntries}
    (hentry : entryOf es (usedKey k) = some (.branch es₁)) (args : List (LuaValue Unit)) :
    Datacenter.wakeup es (k :: args) =
      (setEntry es (usedKey k) (some (.branch (Datacenter.wakeup es₁ args).1)), (Datacenter.wakeup es₁ args).2) := by
  rw [Datacenter.wakeup, if_neg (by simp [hk]), hentry]

theorem wakeup_queue (hk : k.isNil = false) {es : WaitEntries} {q : List ℕ}
    (hentry : entryOf es (usedKey k) = some (.queue q)) (args : List (LuaValue Unit)) :
    Datacenter.wakeup es (k :: args) = (setEntry es (usedKey k) none,
      if (k :: args).length = 1 + 1 then .ready q else .failed q) := by
  rw [Datacenter.wakeup, if_neg (by simp [hk]), hentry]
  simp

theorem wakeup_spec : ∀ {args : List (LuaValue Unit)} (es : WaitEntries),
    (∀ k ∈ args, k.isNil = false) → Wakes es args (Datacenter.wakeup es args)
  | [], es, _ => by
    refine .nobody es (fun _ => rfl) ?_
    intro i q h
    rw [take_nil] at h
    cases h
  | k :: args, es, hkeys => by
    have hk : k.isNil = false := hkeys k mem_cons_self
    cases hentry : entryOf es (usedKey k) with
    | none =>
      have hnone : Datacenter.wakeup es (k :: args) = (es, .nobody) := by
        rw [Datacenter.wakeup, if_neg (by simp [hk]), hentry]
      rw [hnone]
      refine .nobody es (fun _ => rfl) ?_
      intro i q h
      cases i with
      | zero => cases h
      | succ i =>
        rw [take_succ_cons, nodeAt, hentry] at h
        cases h
    | some n =>
      have hold : ∀ (b : LuaValue Unit) (p : List (LuaValue Unit)),
          sameKey (usedKey k) (usedKey b) = true → queueAt es (b :: p) = below (some n) p := by
        intro b p hb
        rw [queueAt_cons, ← entryOf_congr es hb, hentry]
      cases n with
      | queue q =>
        rw [wakeup_queue hk hentry]
        refine .some _ 1 q (by simp) ?_ ?_
        · rw [take_succ_cons, take_zero, nodeAt, hentry]
          rfl
        · intro p
          cases p with
          | nil => rfl
          | cons b p =>
            rw [queueAt_setEntry, take_succ_cons, take_zero, samePath_cons]
            cases hb : sameKey (usedKey k) (usedKey b) with
            | false => simp
            | true =>
              rw [hold b p hb]
              cases p <;> simp [below, samePath]
      | branch es₁ =>
        have hnode : ∀ i, nodeAt es ((k :: args).take (i + 1)) = nodeAt es₁ (args.take i) := by
          intro i
          rw [take_succ_cons, nodeAt, hentry]
        have hrec := wakeup_spec es₁ fun j hj => hkeys j (mem_cons_of_mem k hj)
        rw [wakeup_branch hk hentry]
        generalize Datacenter.wakeup es₁ args = out at hrec
        cases hrec with
        | nobody es₂ hsame hno =>
          refine .nobody _ ?_ ?_
          · intro p
            cases p with
            | nil => rfl
            | cons b p =>
              rw [queueAt_setEntry]
              split
              · next hb => rw [hold b p hb, below, hsame, below]
              · rfl
          · intro i q h
            cases i with
            | zero => cases h
            | succ i =>
              rw [hnode] at h
              exact hno i q h
        | some es₂ i q hi hat hgone =>
          have hlen : (args.length = i + 1) = ((k :: args).length = i + 1 + 1) := by simp
          simp only [hlen]
          refine .some _ (i + 1) q (by simpa using hi) ((hnode i).trans hat) ?_
          intro p
          cases p with
          | nil => rfl
          | cons b p =>
            rw [queueAt_setEntry, take_succ_cons, samePath_cons]
            cases hb : sameKey (usedKey k) (usedKey b) with
            | true => simp [hgone, hold b p hb, below]
            | false => simp

def GoodPath (p : List (LuaValue Unit)) : Prop := p ≠ [] ∧ ∀ k ∈ p, GoodKey k

theorem setWait_good (h : GoodKey k) (es : WaitEntries) (q : WaitNode) :
    setWait es k q = .ok (setEntry es (usedKey k) (some q)) := by
  simp [setWait, h.1, h.2]

theorem waitfor_ok (n : ℕ) : ∀ {args : List (LuaValue Unit)} (es : WaitEntries),
    GoodPath (Datacenter.path args) →
    (∀ i < (Datacenter.path args).length, ∀ q,
      nodeAt es ((Datacenter.path args).take i) ≠ some (.queue q)) →
    (∀ q, nodeAt es (Datacenter.path args) ≠ some (.branch q)) →
    (Datacenter.waitfor n es args).2 = .ok () ∧ ∀ p, queueAt (Datacenter.waitfor n es args).1 p =
      if samePath (Datacenter.path args) p then queueAt es p ++ [n] else queueAt es p
  | [], _, hgood, _, _ => absurd rfl hgood.1
  | k :: args, es, hgood, hqueue, hbranch => by
    have hk : k.isNil = false := by
      cases hk : k.isNil with
      | false => rfl
      | true => exact absurd (by simp [Datacenter.path, hk]) hgood.1
    have hpath : Datacenter.path (k :: args) = k :: Datacenter.path args := by
      simp [Datacenter.path, hk]
    rw [hpath] at hgood hqueue hbranch ⊢
    have hkey : GoodKey k := hgood.2 k mem_cons_self
    have hset : ∀ (q : WaitNode), (∀ p, below (some q) p =
          if samePath (Datacenter.path args) p then below (entryOf es (usedKey k)) p ++ [n]
          else below (entryOf es (usedKey k)) p) → ∀ p,
        queueAt (setEntry es (usedKey k) (some q)) p =
          if samePath (k :: Datacenter.path args) p then queueAt es p ++ [n]
          else queueAt es p := by
      intro q hq p
      cases p with
      | nil => rfl
      | cons b p =>
        rw [queueAt_setEntry, samePath_cons]
        cases hb : sameKey (usedKey k) (usedKey b) with
        | false => simp
        | true => simp [hq, queueAt_cons, entryOf_congr es hb]
    have hhead : (args.headD (.scalar .nil)).isNil = (Datacenter.path args).isEmpty := by
      cases args with
      | nil => rfl
      | cons a args => cases ha : a.isNil <;> simp [Datacenter.path, ha]
    rw [Datacenter.waitfor, hhead]
    cases hrest : Datacenter.path args with
    | nil =>
      rw [hrest] at hset hbranch hqueue
      have hsingle : ∀ p, samePath [] p = p.isEmpty := by
        intro p
        cases p <;> rfl
      rw [isEmpty_nil, if_pos rfl]
      cases hentry : entryOf es (usedKey k) with
      | none =>
        simp only [setWait_good hkey]
        refine ⟨trivial, hset _ fun p => ?_⟩
        rw [hsingle, hentry]
        rfl
      | some m =>
        cases m with
        | queue q =>
          refine ⟨rfl, hset _ fun p => ?_⟩
          rw [hsingle, hentry]
          cases p <;> rfl
        | branch q =>
          refine absurd ?_ (hbranch q)
          rw [nodeAt, hentry]
          rfl
    | cons c p =>
      have hgood' : GoodPath (Datacenter.path args) :=
        ⟨by simp [hrest], fun j hj => hgood.2 j (mem_cons_of_mem k hj)⟩
      rw [hrest] at hset hbranch hqueue
      cases hentry : entryOf es (usedKey k) with
      | none =>
        have hrec := waitfor_ok n [] hgood' (fun i hi q h => by
            rw [hrest] at h
            cases i with
            | zero => cases h
            | succ i => cases h) (fun q h => by
            rw [hrest] at h
            cases h)
        simp only [setWait_good hkey]
        refine ⟨hrec.1, hset _ fun p => ?_⟩
        rw [below, hrec.2, hrest, hentry]
        cases p <;> rfl
      | some m =>
        cases m with
        | queue q =>
          refine absurd ?_ (hqueue 1 (by simp) q)
          rw [take_succ_cons, take_zero, nodeAt, hentry]
          rfl
        | branch es₁ =>
          have hnode : ∀ r, nodeAt es (k :: r) = nodeAt es₁ r := by
            intro r
            rw [nodeAt, hentry]
          have hrec := waitfor_ok n es₁ hgood' (fun i hi q h => by
              rw [hrest] at h hi
              exact hqueue (i + 1) (by simpa using hi) q ((hnode _).trans h)) (fun q h => by
              rw [hrest] at h
              exact hbranch q ((hnode _).trans h))
          refine ⟨hrec.1, hset _ fun p => ?_⟩
          rw [below, hrec.2, hrest, hentry, below]

end Skynet.Analysis
