import Skynet.Analysis.DatacenterTrees

/-!
# Every WAIT of the datacenter is answered

An UPDATE has to answer the WAITs at its path and at the paths above it, where there was
nothing and is something now.  It does so unless the new value is nil, and it never answers
WAITs below its path, which a table as the new value gives something to find.  A WAIT itself
fails where QUERY does, and where the WAITs before it made a branch of its path or a queue of a
path above it.
-/

namespace Skynet.Analysis

open Library Model List Datacenter

variable {s s' : Datacenter}

/-! ## QUERY -/

theorem query_eq : ∀ {p : List (LuaValue Unit)} {v : LuaValue Unit},
    (∀ k ∈ p, k.isNil = false) → (valueAt v p).isNil = false → query v p = .ok (valueAt v p)
  | [], v, _, _ => by rw [valueAt_nil, query]
  | k :: p, v, hkeys, h => by
    have hk : k.isNil = false := hkeys k mem_cons_self
    cases v with
    | scalar w => cases h
    | other w => cases h
    | table u es =>
      rw [valueAt_table] at h ⊢
      rw [query, if_neg (by simp [hk])]
      exact query_eq (fun j hj => hkeys j (mem_cons_of_mem k hj)) h

theorem query_found : ∀ {p : List (LuaValue Unit)} {v w : LuaValue Unit},
    (∀ k ∈ p, k.isNil = false) → query v p = .ok w →
      w.isNil = true ∨ w = valueAt v p ∨ ∃ t, w = .other t
  | [], v, w, _, h => by
    rw [query, Except.ok.injEq] at h
    exact .inr (.inl (by rw [valueAt_nil, h]))
  | k :: p, v, w, hkeys, h => by
    have hk : k.isNil = false := hkeys k mem_cons_self
    have hrest : ∀ j ∈ p, j.isNil = false := fun j hj => hkeys j (mem_cons_of_mem k hj)
    rw [query, if_neg (by simp [hk])] at h
    cases v with
    | table u es =>
      have htail : query (rawget es (usedKey k)) p = .ok w := h
      exact query_found (p := p) hrest htail
    | other t => cases h
    | scalar x =>
      cases x with
      | string x =>
        have hfound := query_found (v := stringIndex k) hrest h
        have hindex : (stringIndex k).isNil = true ∨ ∃ t, stringIndex k = .other t := by
          unfold stringIndex
          split
          · split
            · exact .inr ⟨_, rfl⟩
            · exact .inl rfl
          · exact .inl rfl
        rcases hfound with hnil | rfl | hother
        · exact .inl hnil
        · rcases hindex with hnil | ⟨t, ht⟩
          · exact .inl (by rw [valueAt_of_isNil hnil]; rfl)
          · rw [ht]
            cases p with
            | nil => exact .inr (.inr ⟨t, rfl⟩)
            | cons j p => exact .inl rfl
        · exact .inr (.inr hother)
      | _ => cases h

theorem query_path (args : List (LuaValue Unit)) : ∀ v,
    query v args = query v (Datacenter.path args) := by
  induction args with
  | nil => exact fun _ => rfl
  | cons k args ih =>
    intro v
    cases hk : k.isNil with
    | true => simp [query, Datacenter.path, hk]
    | false =>
      have hpath : Datacenter.path (k :: args) = k :: Datacenter.path args := by
        simp [Datacenter.path, hk]
      rw [hpath, query, query]
      congr 2
      funext w
      exact ih w

theorem path_notNil (args : List (LuaValue Unit)) :
    ∀ k ∈ Datacenter.path args, k.isNil = false := by
  intro k hk
  simpa using mem_takeWhile_imp hk

variable {args : List (LuaValue Unit)}

theorem commandQuery_path (s : Datacenter) (h : Datacenter.path args ≠ []) : s.commandQuery
    (Datacenter.path args) = s.commandQuery args := by
  cases args with
  | nil => rfl
  | cons k args =>
    cases hk : k.isNil with
    | true => exact absurd (by simp [Datacenter.path, hk]) h
    | false =>
      have hpath : Datacenter.path (k :: args) = k :: Datacenter.path args := by
        simp [Datacenter.path, hk]
      rw [hpath, commandQuery, commandQuery]
      simp only [arg, getD_cons_zero, drop_succ_cons, drop_zero, query_path args]

theorem queryReply_path (s : Datacenter) (h : Datacenter.path args ≠ []) : s.queryReply
    (Datacenter.path args) = s.queryReply args := by
  rw [queryReply, queryReply, commandQuery_path s h]

section Query

variable {p : List (LuaValue Unit)} (hne : p ≠ []) (hkeys : ∀ k ∈ p, k.isNil = false)
  (htable : s.database.isTable = true)

include hne hkeys htable

theorem commandQuery_eq (h : (valueAt s.database p).isNil = false) :
    s.commandQuery p = .ok (valueAt s.database p) := by
  obtain ⟨k, p, rfl⟩ := exists_cons_of_ne_nil hne
  cases hdb : s.database with
  | scalar w =>
    rw [hdb] at htable
    cases htable
  | other w =>
    rw [hdb] at htable
    cases htable
  | table _ es =>
    rw [hdb, valueAt_table] at h
    rw [valueAt_table]
    have hrest : ∀ j ∈ p, j.isNil = false := fun j hj => hkeys j (mem_cons_of_mem k hj)
    have hd : (rawget es (usedKey k)).isNil = false := by
      cases hd : (rawget es (usedKey k)).isNil with
      | false => rfl
      | true =>
        rw [valueAt_of_isNil hd] at h
        cases h
    have hquery := query_eq hrest h
    simp only [commandQuery, hdb, arg, getD_cons_zero, index, drop_succ_cons, drop_zero]
    simpa [bind, Except.bind, hd] using hquery

theorem commandQuery_found {w : LuaValue Unit} (h : s.commandQuery p = .ok w) :
    w.isNil = true ∨ w = valueAt s.database p ∨ ∃ t, w = .other t := by
  obtain ⟨k, p, rfl⟩ := exists_cons_of_ne_nil hne
  cases hdb : s.database with
  | scalar w =>
    rw [hdb] at htable
    cases htable
  | other w =>
    rw [hdb] at htable
    cases htable
  | table u es =>
    simp only [commandQuery, hdb, arg, getD_cons_zero, index,
      drop_succ_cons, drop_zero, bind, Except.bind] at h
    split at h
    · cases h
      exact .inl rfl
    · have htail : query (rawget es (usedKey k)) p = .ok w := h
      exact query_found (p := p) (fun j hj => hkeys j (mem_cons_of_mem k hj)) htail

theorem queryReply_eq (h : (valueAt s.database p).isNil = false) :
    s.queryReply p = packed (valueAt s.database p) := by
  rw [queryReply, commandQuery_eq hne hkeys htable h]
  rfl

theorem queryReply_of_nothing (h : (valueAt s.database p).isNil = true) {w : LuaValue Unit}
    (hreply : s.queryReply p = .ok w) : w.isNil = true := by
  rw [queryReply] at hreply
  cases hquery : s.commandQuery p with
  | error e =>
    rw [hquery] at hreply
    cases hreply
  | ok v =>
    rw [hquery] at hreply
    simp only [bind, Except.bind, packed] at hreply
    split at hreply
    · next hpack =>
      obtain rfl : v = w := by simpa using hreply
      rcases commandQuery_found hne hkeys htable hquery with hnil | heq | ⟨t, ht⟩
      · exact hnil
      · rw [heq]
        exact h
      · rw [ht] at hpack
        cases hpack
    · cases hreply

end Query

/-! ## Conditions and properties -/

/-- An UPDATE of a path to a value: nothing but tables on the path, what was there can be
packed, and of the WAITs that have no answer none is above the path where the value is nil,
none is below it at something in the value, and none is at the path with the value as one
more key where the path had nothing. -/
structure UpdateOk (s : Datacenter) (path : List (LuaValue Unit)) (value : LuaValue Unit) :
    Prop where
  keys : GoodPath path
  tables : NoLeaf s.database path
  old : packable (maxDepth + 1) (valueAt s.database path) = true
  above : ∀ w ∈ s.waiting, value.isNil = true → w.1.length < path.length →
    samePath w.1 (path.take w.1.length) = false
  under : ∀ w ∈ s.waiting, path.length < w.1.length → samePath (w.1.take path.length) path = true →
      (valueAt value (w.1.drop path.length)).isNil = true
  beside : ∀ w ∈ s.waiting, (valueAt s.database path).isNil = true → value.isNil = false →
    samePath w.1 (path ++ [value]) = false

/-- A WAIT: QUERY does not fail, and where it finds nothing, no queue is above the path and
no branch at it. -/
structure WaitOk (s : Datacenter) (args : List (LuaValue Unit)) : Prop where
  keys : GoodPath (Datacenter.path args)
  query : ∃ reply, s.queryReply args = .ok reply
  noQueue : s.commandQuery args = .ok (.scalar .nil) → ∀ i < (Datacenter.path args).length, ∀ q,
      nodeAt s.waitQueue ((Datacenter.path args).take i) ≠ some (.queue q)
  noBranch : s.commandQuery args = .ok (.scalar .nil) →
    ∀ q, nodeAt s.waitQueue (Datacenter.path args) ≠ some (.branch q)

def updatePath (args : List (LuaValue Unit)) : List (LuaValue Unit) :=
  pathOf (arg args 0) (arg args 1) (args.drop 2)

def updateValue (args : List (LuaValue Unit)) : LuaValue Unit := valueOf (arg args 1) (args.drop 2)

def NoWaitLeft (s : Datacenter) : DatacenterAction → Prop
  | .query _ => True
  | .update args => UpdateOk s (updatePath args) (updateValue args)
  | .wait args => WaitOk s args

structure WaitsServed (s : Datacenter) : Prop where
  woken : ∀ w ∈ s.waiting, ∀ reply, s.queryReply w.1 = .ok reply → reply.isNil = true
  once : (s.answers.map Prod.fst).Nodup

def BecameInner (s s' : Datacenter) (a : DatacenterAction) (p : List (LuaValue Unit)) : Prop :=
  ∃ args, a = .update args ∧ p.length < (updatePath args).length ∧
    samePath p ((updatePath args).take p.length) = true ∧
    (valueAt s.database p).isNil = true ∧ (valueAt s'.database p).isTable = true

/-- What a step sends and changes: a WAIT is answered with what QUERY replies now, or with an
error if its path has become an inner node; and UPDATE replies with what was at its path and
changes nothing but what is above or below it. -/
structure StepRight (s : Datacenter) (a : DatacenterAction) (s' : Datacenter) : Prop where
  answers : ∃ new, s'.answers = s.answers ++ new ∧ ∀ n r, (n, r) ∈ new →
    ∃ p, s'.asked[n]? = some p ∧
      match r with
      | .value v => s'.queryReply p = .ok v
      | .error => BecameInner s s' a p
  returned : ∀ args, a = .update args →
    (s.commandUpdate args).2 = .ok (valueAt s.database (updatePath args))
  frame : ∀ args, a = .update args → ∀ p, related (updatePath args) p = false →
    valueAt s'.database p = valueAt s.database p

/-- What is known of the WAITs without an answer: there is nothing at their paths, and they
are in the queue there, each once. -/
structure DcInv (s : Datacenter) : Prop where
  table : s.database.isTable = true
  nothing : ∀ w ∈ s.waiting, (valueAt s.database w.1).isNil = true
  keys : ∀ w ∈ s.waiting, w.1 ≠ [] ∧ ∀ k ∈ w.1, k.isNil = false
  queued : ∀ w ∈ s.waiting, samePath w.1 w.1 = true → w.2 ∈ queueAt s.waitQueue w.1
  held : ∀ p, ∀ n ∈ queueAt s.waitQueue p, ∃ q, (q, n) ∈ s.waiting ∧ samePath q p = true
  nodup : ∀ p, (queueAt s.waitQueue p).Nodup
  once : (s.answers.map Prod.fst).Nodup
  known : ∀ n ∈ s.answers.map Prod.fst, n < s.asked.length

variable {p : List (LuaValue Unit)}

theorem mem_waiting {n : ℕ} :
    (p, n) ∈ s.waiting ↔ s.asked[n]? = some p ∧ n ∉ s.answers.map Prod.fst := by
  rw [Datacenter.waiting, mem_filter, mk_mem_zipIdx_iff_getElem?]
  simp

theorem DcInv.served (hI : DcInv s) : WaitsServed s where
  woken w hw _ hreply :=
    queryReply_of_nothing (hI.keys w hw).1 (hI.keys w hw).2 hI.table (hI.nothing w hw) hreply
  once := hI.once

/-! ## Answers -/

def responses : Woken → List ℕ
  | .nobody => []
  | .failed q | .ready q => q

section Answers

variable {es : WaitEntries} {args : List (LuaValue Unit)} {out : WaitEntries × Woken}

theorem Wakes.mem {n i : ℕ} (h : Wakes es args out) (hi : i ≤ args.length)
    (hn : n ∈ queueAt es (args.take i)) : n ∈ responses out.2 := by
  have hat := nodeAt_of_mem hn
  have hbelow : ∀ {j k : ℕ} {q q' : List ℕ}, j < k → k ≤ args.length →
      nodeAt es (args.take j) = Option.some (.queue q) →
      nodeAt es (args.take k) ≠ Option.some (.queue q') := by
    intro j k q q' hjk hk hj
    have hsplit : args.take k = args.take j ++ (args.drop j).take (k - j) := by
      rw [← take_add, Nat.add_sub_cancel' hjk.le]
    have hne : (args.drop j).take (k - j) ≠ [] := by
      rw [ne_eq, ← length_eq_zero_iff, length_take, length_drop]
      omega
    rw [hsplit, nodeAt_queue hj hne]
    simp
  cases h with
  | nobody es' hsame hno => exact absurd hat (hno i _)
  | some es' j q hj hfound hgone =>
    rcases Nat.lt_trichotomy i j with hlt | rfl | hlt
    · exact absurd hfound (hbelow hlt hj hat)
    · rw [queueAt_of_nodeAt hfound] at hn
      split
      · exact hn
      · exact hn
    · exact absurd hat (hbelow hlt hi hfound)

theorem Wakes.queue (h : Wakes es args out) : ∃ p, responses out.2 = queueAt es p ∧
    ∀ q, queueAt out.1 q = if samePath p q then [] else queueAt es q := by
  cases h with
  | nobody es' hsame hno =>
    refine ⟨[], rfl, fun q => ?_⟩
    rw [hsame]
    cases q <;> rfl
  | some es' i q hi hfound hgone =>
    refine ⟨args.take i, ?_, hgone⟩
    rw [queueAt_of_nodeAt hfound]
    split <;> rfl

theorem mem_waiting_answer {rs : List ℕ} {r : WaitAnswer} {p : List (LuaValue Unit)} {n : ℕ} :
    (p, n) ∈ (s.answer rs r).waiting ↔ (p, n) ∈ s.waiting ∧ n ∉ rs := by
  rw [mem_waiting, mem_waiting]
  simp [Datacenter.answer, and_assoc]

theorem path_unique {p q : List (LuaValue Unit)} {n : ℕ} (hp : (p, n) ∈ s.waiting)
    (hq : (q, n) ∈ s.waiting) : p = q :=
  Option.some.inj ((mem_waiting.1 hp).1.symm.trans (mem_waiting.1 hq).1)

theorem DcInv.answered (hI : DcInv s) {db : LuaValue Unit} {es : WaitEntries} {rs : List ℕ}
    (r : WaitAnswer) (htable : db.isTable = true)
    (hqueue : ∃ p, rs = queueAt s.waitQueue p ∧
      ∀ q, queueAt es q = if samePath p q then [] else queueAt s.waitQueue q)
    (hnothing : ∀ w ∈ s.waiting, w.2 ∉ rs → (valueAt db w.1).isNil = true) :
    DcInv ({ s with database := db, waitQueue := es }.answer rs r) := by
  obtain ⟨P, rfl, hes⟩ := hqueue
  have hwaiting : ∀ {w}, w ∈ ({ s with database := db, waitQueue := es }.answer
      (queueAt s.waitQueue P) r).waiting ↔ w ∈ s.waiting ∧ w.2 ∉ queueAt s.waitQueue P :=
    mem_waiting_answer
  refine ⟨htable, ?_, ?_, ?_, ?_, ?_, ?_, ?_⟩
  · intro w hw
    exact hnothing w (hwaiting.1 hw).1 (hwaiting.1 hw).2
  · intro w hw
    exact hI.keys w (hwaiting.1 hw).1
  · intro w hw hsame
    obtain ⟨hold, hgone⟩ := hwaiting.1 hw
    have hqueued := hI.queued w hold hsame
    change w.2 ∈ queueAt es w.1
    rw [hes]
    split
    · next hP =>
      rw [queueAt_congr hP] at hgone
      exact absurd hqueued hgone
    · exact hqueued
  · intro p n hn
    change n ∈ queueAt es p at hn
    rw [hes] at hn
    split at hn
    · cases hn
    · next hP =>
      obtain ⟨q, hq, hsame⟩ := hI.held p n hn
      refine ⟨q, hwaiting.2 ⟨hq, fun hmem => ?_⟩, hsame⟩
      obtain ⟨q', hq', hsame'⟩ := hI.held P n hmem
      rw [← path_unique hq hq', samePath_symm] at hsame'
      exact hP (samePath_trans hsame' hsame)
  · intro p
    change (queueAt es p).Nodup
    rw [hes]
    split
    · exact nodup_nil
    · exact hI.nodup p
  · have hdisjoint : ∀ n ∈ queueAt s.waitQueue P, n ∉ s.answers.map Prod.fst := by
      intro n hn
      obtain ⟨q, hq, -⟩ := hI.held P n hn
      exact (mem_waiting.1 hq).2
    simp only [Datacenter.answer, map_append, map_map]
    refine Nodup.append hI.once ?_ ?_
    · simpa [Function.comp_def] using hI.nodup P
    · intro n hold hnew
      exact hdisjoint n (by simpa using hnew) hold
  · intro n hn
    simp only [Datacenter.answer, map_append, mem_append] at hn
    rcases hn with hn | hn
    · exact hI.known n hn
    · obtain ⟨q, hq, -⟩ := hI.held P n (by simpa using hn)
      exact (List.getElem?_eq_some_iff.1 (mem_waiting.1 hq).1).1

end Answers

/-! ## UPDATE -/

section Update

variable {path : List (LuaValue Unit)} {value : LuaValue Unit}
  {u : LuaValue Unit × Except DatacenterError (LuaValue Unit × LuaValue Unit)}

/-- Only at its path and above it can an UPDATE give a WAIT something to find, and only where
there was nothing and the new value is not nil. -/
theorem DcInv.found (hI : DcInv s) (hok : UpdateOk s path value)
    (hu : Updated s.database path value u)
    (hframe : ∀ q, related path q = false → valueAt u.1 q = valueAt s.database q)
    {w : List (LuaValue Unit) × ℕ} (hw : w ∈ s.waiting)
    (hsome : (valueAt u.1 w.1).isNil = false) :
    w.1.length ≤ path.length ∧ samePath w.1 (path.take w.1.length) = true ∧
      value.isNil = false ∧ (valueAt s.database path).isNil = true := by
  have hold := hI.nothing w hw
  cases hrel : related path w.1 with
  | false =>
    rw [hframe w.1 hrel, hold] at hsome
    cases hsome
  | true =>
    rw [related_iff] at hrel
    by_cases hlen : path.length < w.1.length
    · rw [take_of_length_le hlen.le] at hrel
      have hbelow := hu.below (w.1.take path.length) (w.1.drop path.length) hrel
      rw [take_append_drop] at hbelow
      rw [samePath_symm] at hrel
      rw [hbelow, hok.under w hw hlen hrel] at hsome
      cases hsome
    · have hle : w.1.length ≤ path.length := Nat.le_of_not_lt hlen
      rw [take_of_length_le hle, samePath_symm] at hrel
      have hnothing : (valueAt s.database path).isNil = true := by
        rw [← take_append_drop w.1.length path, valueAt_append, ← valueAt_congr hrel,
          valueAt_of_isNil hold]
        rfl
      refine ⟨hle, hrel, ?_, hnothing⟩
      cases hvalue : value.isNil with
      | false => rfl
      | true =>
        rcases Nat.lt_or_eq_of_le hle with hlt | heq
        · rw [hok.above w hw hvalue hlt] at hrel
          cases hrel
        · rw [heq, take_length, samePath_symm] at hrel
          have hbelow := hu.below w.1 [] hrel
          rw [append_nil, valueAt_nil] at hbelow
          rw [hbelow, hvalue] at hsome
          cases hsome

end Update

theorem updateArgs (h : (updateValue args).isNil = false) :
    updatePath args ++ [updateValue args] = args := by
  match args with
  | [] => cases h
  | [k] => cases h
  | k :: v :: rest => exact pathOf_append rest k v

theorem UpdateOk.updated (hI : DcInv s)
    (hok : UpdateOk s (updatePath args) (updateValue args)) :
    Updated s.database (updatePath args) (updateValue args)
      (Datacenter.update s.database (arg args 0) (arg args 1) (args.drop 2)) :=
  update_ok _ hI.table hok.keys.2 hok.tables

theorem commandUpdate_cases (hI : DcInv s)
    (hok : UpdateOk s (updatePath args) (updateValue args)) :
    ∃ db, (Datacenter.update s.database (arg args 0) (arg args 1) (args.drop 2)).1 = db ∧
      (((valueAt s.database (updatePath args)).isNil = false ∨ (updateValue args).isNil = true) ∧
        s.commandUpdate args =
          ({ s with database := db }, .ok (valueAt s.database (updatePath args))) ∨
      (valueAt s.database (updatePath args)).isNil = true ∧
        (updateValue args).isNil = false ∧ ∃ out, Wakes s.waitQueue args out ∧
        s.commandUpdate args =
          (({ s with database := db, waitQueue := out.1 } : Datacenter).answer (responses out.2)
            (match out.2 with
              | .ready _ => .value (updateValue args)
              | _ => .error), .ok (valueAt s.database (updatePath args)))) := by
  have hu := hok.updated hI
  refine ⟨_, rfl, ?_⟩
  generalize hU : Datacenter.update s.database (arg args 0) (arg args 1) (args.drop 2) = u at hu
  have hcommand := hu.returned
  obtain ⟨db, r⟩ := u
  subst hcommand
  rw [commandUpdate, hU]
  simp only
  cases hnil : (valueAt s.database (updatePath args)).isNil with
  | false =>
    refine .inl ⟨.inl rfl, ?_⟩
    rw [packed, if_pos hok.old]
    rfl
  | true =>
    cases hvalue : (updateValue args).isNil with
    | true =>
      refine .inl ⟨.inr rfl, ?_⟩
      rw [packed, if_pos hok.old]
      rfl
    | false =>
      have hkeys : ∀ k ∈ args, k.isNil = false := by
        intro k hk
        rw [← updateArgs hvalue, mem_append, mem_singleton] at hk
        rcases hk with hk | rfl
        · exact (hok.keys.2 k hk).1
        · exact hvalue
      refine .inr ⟨rfl, rfl, Datacenter.wakeup s.waitQueue args, wakeup_spec _ hkeys, ?_⟩
      rw [isNil_iff.1 hnil]
      obtain ⟨q, woken⟩ := Datacenter.wakeup s.waitQueue args
      cases woken with
      | nobody => simp [Datacenter.answer, responses]
      | _ => rfl

theorem DcInv.update (hI : DcInv s) (hok : UpdateOk s (updatePath args) (updateValue args)) : DcInv
    (s.commandUpdate args).1 := by
  have hu := hok.updated hI
  have hframe := valueAt_update_other (args.drop 2) s.database (arg args 0) (arg args 1)
  obtain ⟨db, hdb, ⟨hno, hcommand⟩ | ⟨hnil, hvalue, out, hwakes, hcommand⟩⟩ :=
    commandUpdate_cases hI hok
  · have htable := hu.isTable
    rw [hcommand]
    refine ⟨hdb ▸ htable, ?_, hI.keys, hI.queued, hI.held, hI.nodup, hI.once, hI.known⟩
    intro w hw
    by_contra hsome
    rw [Bool.not_eq_true] at hsome
    obtain ⟨-, -, hvalue, hnil⟩ := hI.found hok hu hframe hw (hdb ▸ hsome)
    rcases hno with hno | hno
    · rw [hno] at hnil
      cases hnil
    · rw [hno] at hvalue
      cases hvalue
  · rw [hcommand]
    refine hI.answered _ (hdb ▸ hu.isTable) hwakes.queue ?_
    intro w hw hnot
    by_contra hsome
    rw [Bool.not_eq_true] at hsome
    obtain ⟨hle, hsame, -, -⟩ := hI.found hok hu hframe hw (hdb ▸ hsome)
    have hargs := congrArg (List.take w.1.length) (updateArgs hvalue)
    rw [take_append_of_le_length hle] at hargs
    have hself := samePath_trans hsame ((samePath_symm _ _).trans hsame)
    have hqueued := hI.queued w hw hself
    rw [queueAt_congr hsame, hargs] at hqueued
    refine hnot (hwakes.mem ?_ hqueued)
    have hlen := congrArg List.length (updateArgs hvalue)
    rw [length_append, length_singleton] at hlen
    omega

theorem DcInv.stepUpdate (hI : DcInv s) (hpack : args.all (packable (maxDepth + 1)) = true)
    (hok : UpdateOk s (updatePath args) (updateValue args)) : StepRight s (.update args)
    (s.commandUpdate args).1 := by
  have hu := hok.updated hI
  have hframe := valueAt_update_other (args.drop 2) s.database (arg args 0) (arg args 1)
  have hcases := commandUpdate_cases hI hok
  refine ⟨?_, ?_, ?_⟩
  · obtain ⟨db, hdb, ⟨hno, hcommand⟩ | ⟨hnil, hvalue, out, hwakes, hcommand⟩⟩ := hcases
    · rw [hcommand]
      exact ⟨[], (append_nil _).symm, fun n r h => by cases h⟩
    · rw [hcommand]
      refine ⟨_, rfl, ?_⟩
      intro n r hmem
      obtain ⟨m, hm, hmr⟩ := mem_map.1 hmem
      cases hmr
      cases hwakes with
      | nobody => cases hm
      | some es' i q hi hfound hgone =>
        have hargs := updateArgs hvalue
        have hlen := congrArg List.length hargs
        rw [length_append, length_singleton] at hlen
        have hq : n ∈ queueAt s.waitQueue (args.take i) := by
          rw [queueAt_of_nodeAt hfound]
          split at hm
          · exact hm
          · exact hm
        obtain ⟨p, hp, hsame⟩ := hI.held _ _ hq
        have hpi : p.length = i := by
          rw [samePath_length hsame, length_take_of_le hi]
        have htake : i ≤ (updatePath args).length →
            samePath p ((updatePath args).take i) = true := by
          intro hle
          have htake := congrArg (List.take i) hargs
          rw [take_append_of_le_length hle] at htake
          rw [htake]
          exact hsame
        refine ⟨p, (mem_waiting.1 hp).1, ?_⟩
        by_cases hend : args.length = i + 1
        · obtain rfl : i = (updatePath args).length := by omega
          have hpath := htake le_rfl
          rw [take_length, samePath_symm] at hpath
          have hfinds := hu.below p [] hpath
          rw [append_nil, valueAt_nil, hdb] at hfinds
          simp only [if_pos hend]
          have hmem : updateValue args ∈ args := by
            have hlast : updateValue args ∈ updatePath args ++ [updateValue args] := by simp
            rw [hargs] at hlast
            exact hlast
          have hfits := all_eq_true.1 hpack _ hmem
          have hreply := queryReply_eq (hI.keys _ hp).1 (hI.keys _ hp).2
            (s := ({ s with database := db, waitQueue := es' } : Datacenter).answer q
              (.value (updateValue args))) (hdb ▸ hu.isTable) (by
              rw [Datacenter.answer, hfinds]
              exact hvalue)
          refine hreply.trans ?_
          rw [Datacenter.answer, hfinds, packed, if_pos hfits]
        · have hlt : i < (updatePath args).length := by
            by_contra hge
            obtain rfl : i = args.length := by omega
            rw [take_length, ← hargs] at hsame
            rw [hok.beside _ hp hnil hvalue] at hsame
            cases hsame
          simp only [if_neg hend]
          refine ⟨args, rfl, hpi ▸ hlt, hpi ▸ htake hlt.le, hI.nothing _ hp, ?_⟩
          have habove := hu.above i hlt p (by
            rw [samePath_symm]
            exact htake hlt.le)
          rw [hdb] at habove
          exact habove
  · rintro _ ⟨⟩
    obtain ⟨db, hdb, ⟨hno, hcommand⟩ | ⟨hnil, hvalue, out, hwakes, hcommand⟩⟩ := hcases
    · rw [hcommand]
    · rw [hcommand]
  · rintro _ ⟨⟩ p hrel
    obtain ⟨db, hdb, ⟨hno, hcommand⟩ | ⟨hnil, hvalue, out, hwakes, hcommand⟩⟩ := hcases
    · rw [hcommand, ← hdb]
      exact hframe p hrel
    · rw [hcommand, ← hdb]
      exact hframe p hrel

/-! ## WAIT -/

def waitAnswered (s : Datacenter) (p : List (LuaValue Unit)) (r : WaitAnswer) : Datacenter :=
  ({ s with asked := s.asked ++ [p] } : Datacenter).answer [s.asked.length] r

theorem mem_waiting_asked {p q : List (LuaValue Unit)} {n : ℕ} (es : WaitEntries) :
    (q, n) ∈ ({ s with asked := s.asked ++ [p], waitQueue := es } : Datacenter).waiting ↔
      (q, n) ∈ s.waiting ∨ q = p ∧ n = s.asked.length ∧ n ∉ s.answers.map Prod.fst := by
  rw [mem_waiting, mem_waiting]
  simp only [getElem?_append]
  split
  · next hlt =>
    constructor
    · exact .inl
    · rintro (h | ⟨rfl, rfl, -⟩)
      · exact h
      · exact absurd hlt (Nat.lt_irrefl _)
  · next hge =>
    have hnone : s.asked[n]? = none := getElem?_eq_none (Nat.le_of_not_lt hge)
    rw [hnone]
    constructor
    · rintro ⟨hq, hn⟩
      obtain ⟨hlt, hget⟩ := List.getElem?_eq_some_iff.1 hq
      simp only [length_singleton] at hlt
      exact .inr ⟨by simpa using hget.symm, by omega, hn⟩
    · rintro (⟨h, -⟩ | ⟨rfl, rfl, hn⟩)
      · cases h
      · exact ⟨by simp, hn⟩

theorem DcInv.new (hI : DcInv s) : s.asked.length ∉ s.answers.map Prod.fst :=
  fun h => Nat.lt_irrefl _ (hI.known _ h)

theorem mem_waiting_waitAnswered {r : WaitAnswer}
    {w : List (LuaValue Unit) × ℕ} : w ∈ (waitAnswered s p r).waiting ↔ w ∈ s.waiting := by
  obtain ⟨q, n⟩ := w
  have hasked := mem_waiting_asked (s := s) (p := p) (q := q) (n := n) s.waitQueue
  rw [waitAnswered, mem_waiting_answer, hasked]
  constructor
  · rintro ⟨h | ⟨-, rfl, -⟩, hnot⟩
    · exact h
    · exact absurd (mem_singleton_self _) hnot
  · intro h
    refine ⟨.inl h, fun hn => ?_⟩
    rw [mem_singleton.1 hn] at h
    exact absurd (List.getElem?_eq_some_iff.1 (mem_waiting.1 h).1).1 (Nat.lt_irrefl _)

theorem DcInv.waitAnswered (hI : DcInv s) (p : List (LuaValue Unit)) (r : WaitAnswer) :
    DcInv (waitAnswered s p r) := by
  have hwaiting := fun w => mem_waiting_waitAnswered (s := s) (w := w) (p := p) (r := r)
  refine ⟨hI.table, fun w hw => hI.nothing w ((hwaiting w).1 hw),
    fun w hw => hI.keys w ((hwaiting w).1 hw), fun w hw => hI.queued w ((hwaiting w).1 hw),
    ?_, hI.nodup, ?_, ?_⟩
  · intro q n hn
    obtain ⟨q', hq', hsame⟩ := hI.held q n hn
    exact ⟨q', (hwaiting _).2 hq', hsame⟩
  · simp only [Analysis.waitAnswered, Datacenter.answer, map_append, map_cons, map_nil]
    rw [nodup_append]
    refine ⟨hI.once, by simp, ?_⟩
    rintro n hn m hm rfl
    rw [mem_singleton.1 hm] at hn
    exact hI.new hn
  · intro n hn
    simp only [Analysis.waitAnswered, Datacenter.answer, map_append, map_cons,
      map_nil, mem_append, mem_singleton] at hn
    simp only [Analysis.waitAnswered, Datacenter.answer, length_append, length_singleton]
    rcases hn with hn | rfl
    · exact Nat.lt_succ_of_lt (hI.known n hn)
    · exact Nat.lt_succ_self _

theorem DcInv.waitQueued (hI : DcInv s) {es : WaitEntries}
    (hkeys : p ≠ [] ∧ ∀ k ∈ p, k.isNil = false)
    (hnothing : (valueAt s.database p).isNil = true)
    (hes : ∀ q, queueAt es q =
      if samePath p q then queueAt s.waitQueue q ++ [s.asked.length]
      else queueAt s.waitQueue q) :
    DcInv { s with asked := s.asked ++ [p], waitQueue := es } := by
  have hwaiting : ∀ {q n}, (q, n) ∈
      ({ s with asked := s.asked ++ [p], waitQueue := es } : Datacenter).waiting ↔
        (q, n) ∈ s.waiting ∨ q = p ∧ n = s.asked.length ∧ n ∉ s.answers.map Prod.fst :=
    mem_waiting_asked es
  refine ⟨hI.table, ?_, ?_, ?_, ?_, ?_, hI.once, ?_⟩
  · rintro ⟨q, n⟩ hw
    rcases hwaiting.1 hw with h | ⟨rfl, -⟩
    · exact hI.nothing _ h
    · exact hnothing
  · rintro ⟨q, n⟩ hw
    rcases hwaiting.1 hw with h | ⟨rfl, -⟩
    · exact hI.keys _ h
    · exact hkeys
  · rintro ⟨q, n⟩ hw hself
    rw [hes]
    rcases hwaiting.1 hw with h | ⟨rfl, rfl, -⟩
    · have hold := hI.queued _ h hself
      split
      · exact mem_append_left _ hold
      · exact hold
    · rw [if_pos hself]
      simp
  · intro q n hn
    rw [hes] at hn
    have hold : n ∈ queueAt s.waitQueue q → ∃ q', (q', n) ∈
        ({ s with asked := s.asked ++ [p], waitQueue := es } : Datacenter).waiting ∧
          samePath q' q = true := by
      intro h
      obtain ⟨q', hq', hsame⟩ := hI.held q n h
      exact ⟨q', hwaiting.2 (.inl hq'), hsame⟩
    split at hn
    · next hsame =>
      rcases mem_append.1 hn with h | h
      · exact hold h
      · obtain rfl := mem_singleton.1 h
        exact ⟨p, hwaiting.2 (.inr ⟨rfl, rfl, hI.new⟩), hsame⟩
    · exact hold hn
  · intro q
    rw [hes]
    split
    · rw [nodup_append]
      refine ⟨hI.nodup q, by simp, ?_⟩
      rintro n hn m hm rfl
      rw [mem_singleton.1 hm] at hn
      obtain ⟨q', hq', -⟩ := hI.held q _ hn
      exact absurd (List.getElem?_eq_some_iff.1 (mem_waiting.1 hq').1).1 (Nat.lt_irrefl _)
    · exact hI.nodup q
  · intro n hn
    simp only [length_append, length_singleton]
    exact Nat.lt_succ_of_lt (hI.known n hn)

theorem wait_cases (hI : DcInv s) (hok : WaitOk s args) :
    (∃ v, s.queryReply (Datacenter.path args) = .ok v ∧
        s.wait args = waitAnswered s (Datacenter.path args) (.value v)) ∨
      ∃ es, (valueAt s.database (Datacenter.path args)).isNil = true ∧
        (∀ q, queueAt es q = if samePath (Datacenter.path args) q then
            queueAt s.waitQueue q ++ [s.asked.length] else queueAt s.waitQueue q) ∧
        s.wait args = { s with asked := s.asked ++ [Datacenter.path args], waitQueue := es } := by
  obtain ⟨reply, hreply⟩ := hok.query
  have hpath := queryReply_path s hok.keys.1
  cases hquery : s.commandQuery args with
  | error e =>
    rw [queryReply, hquery] at hreply
    cases hreply
  | ok ret =>
    have hpacked : packed ret = .ok ret ∧ s.queryReply args = .ok ret := by
      rw [queryReply, hquery] at hreply ⊢
      change packed ret = .ok reply at hreply
      change packed ret = .ok ret ∧ packed ret = .ok ret
      unfold packed at hreply ⊢
      split at hreply
      · next h => simp [h]
      · cases hreply
    have hasked : ({ s with asked := s.asked ++ [Datacenter.path args] } :
        Datacenter).commandQuery args = .ok ret := hquery
    cases hnil : ret.isNil with
    | false =>
      refine .inl ⟨ret, hpath.trans hpacked.2, ?_⟩
      simp only [Datacenter.wait, hasked, hnil, Bool.not_false, if_true, hpacked.1]
      rfl
    | true =>
      have hfound : s.commandQuery args = .ok (.scalar .nil) := by
        rw [hquery, isNil_iff.1 hnil]
      obtain ⟨hwait, hes⟩ := waitfor_ok s.asked.length s.waitQueue hok.keys (hok.noQueue hfound)
        (hok.noBranch hfound)
      refine .inr ⟨_, ?_, hes, ?_⟩
      · cases hvalue : (valueAt s.database (Datacenter.path args)).isNil with
        | true => rfl
        | false =>
          have h := commandQuery_eq hok.keys.1 (path_notNil args) hI.table hvalue
          rw [commandQuery_path s hok.keys.1, hfound, Except.ok.injEq] at h
          rw [← h] at hvalue
          cases hvalue
      · simp only [Datacenter.wait, hasked, hnil, Bool.not_true, Bool.false_eq_true, if_false]
        rw [hwait]

theorem DcInv.wait (hI : DcInv s) (hok : WaitOk s args) : DcInv (s.wait args) := by
  obtain ⟨v, -, hwait⟩ | ⟨es, hnothing, hes, hwait⟩ := wait_cases hI hok
  · rw [hwait]
    exact hI.waitAnswered _ _
  · rw [hwait]
    exact hI.waitQueued ⟨hok.keys.1, path_notNil args⟩ hnothing hes

theorem DcInv.stepWait (hI : DcInv s) (hok : WaitOk s args) :
    StepRight s (.wait args) (s.wait args) := by
  refine ⟨?_, fun _ h => (by cases h), fun _ h => (by cases h)⟩
  obtain ⟨v, hreply, hwait⟩ | ⟨es, -, -, hwait⟩ := wait_cases hI hok
  · rw [hwait]
    refine ⟨[(s.asked.length, .value v)], rfl, ?_⟩
    intro n r hmem
    obtain ⟨rfl, rfl⟩ := Prod.mk.inj (mem_singleton.1 hmem)
    exact ⟨Datacenter.path args, by simp [Analysis.waitAnswered, Datacenter.answer], hreply⟩
  · rw [hwait]
    exact ⟨[], (append_nil _).symm, fun _ _ h => by cases h⟩

/-! ## Runs -/

/-- Every command keeps the trees in agreement. -/
theorem DcInv.next (hI : DcInv s) {a : DatacenterAction} (hok : NoWaitLeft s a)
    (h : s.next a = some s') : DcInv s' ∧ StepRight s a s' := by
  unfold Datacenter.next at h
  rw [Option.ite_none_right_eq_some] at h
  obtain ⟨hpack, h⟩ := h
  cases a with
  | query args =>
    cases h
    exact ⟨hI, ⟨[], (append_nil _).symm, fun _ _ h => (by cases h)⟩,
      fun _ h => (by cases h), fun _ h => (by cases h)⟩
  | update args =>
    cases h
    exact ⟨hI.update hok, hI.stepUpdate hpack hok⟩
  | wait args =>
    cases h
    exact ⟨hI.wait hok, hI.stepWait hok⟩

theorem DcInv.init : DcInv .init where
  table := rfl
  nothing := by simp [Datacenter.waiting, Datacenter.init]
  keys := by simp [Datacenter.waiting, Datacenter.init]
  queued := by simp [Datacenter.waiting, Datacenter.init]
  held p n hn := by
    cases p with
    | nil => cases hn
    | cons k p => cases hn
  nodup p := by
    cases p with
    | nil => exact nodup_nil
    | cons k p => exact nodup_nil
  once := nodup_nil
  known := by simp [Datacenter.init]

/-- **The datacenter wakes every waiter** in every run whose UPDATEs leave no WAIT behind and
whose WAITs can be served or queued.
SRC: datacenterd.lua:16-110 -/
theorem waits_served (s : Datacenter) (h : datacenterMachine.Reach NoWaitLeft s) :
    WaitsServed s ∧ ∀ a s', NoWaitLeft s a → datacenterMachine.next s a = some s' →
      StepRight s a s' := by
  have hI : DcInv s := by
    refine h.invariant ?_ ?_
    · rintro _ rfl
      exact .init
    · exact fun s a s' hI hok hstep => (hI.next hok hstep).1
  exact ⟨hI.served, fun a s' hok hstep => (hI.next hok hstep).2⟩

instance (k : LuaValue Unit) : Decidable (GoodKey k) := inferInstanceAs (Decidable (_ ∧ _))

instance (p : List (LuaValue Unit)) : Decidable (GoodPath p) :=
  decidable_of_iff (p.isEmpty = false ∧ ∀ k ∈ p, GoodKey k) (by simp [GoodPath])

instance (v : LuaValue Unit) (p : List (LuaValue Unit)) : Decidable (NoLeaf v p) :=
  inferInstanceAs (Decidable (∀ _, _))

instance (s : Datacenter) (p : List (LuaValue Unit)) (v : LuaValue Unit) :
    Decidable (UpdateOk s p v) :=
  decidable_of_iff (GoodPath p ∧ NoLeaf s.database p ∧
    packable (maxDepth + 1) (valueAt s.database p) = true ∧
    ∀ w ∈ s.waiting,
      (v.isNil = true → w.1.length < p.length → samePath w.1 (p.take w.1.length) = false) ∧
      (p.length < w.1.length → samePath (w.1.take p.length) p = true →
        (valueAt v (w.1.drop p.length)).isNil = true) ∧
      ((valueAt s.database p).isNil = true → v.isNil = false → samePath w.1 (p ++ [v]) = false))
    ⟨fun ⟨hk, ht, ho, hw⟩ => ⟨hk, ht, ho, fun w h => (hw w h).1, fun w h => (hw w h).2.1,
        fun w h => (hw w h).2.2⟩,
      fun h => ⟨h.keys, h.tables, h.old, fun w hw =>
        ⟨h.above w hw, h.under w hw, h.beside w hw⟩⟩⟩

def byteString (c : UInt8) : LuaValue Unit := .scalar (.string [c])

def intValue (n : BitVec 64) : LuaValue Unit := .scalar (.integer n)

def oneWait : Datacenter := Datacenter.init.wait [byteString 97]

def twoWaits : Datacenter := oneWait.wait [byteString 98, byteString 99]

/-- Two services wait at `a` and at `b.c`; `b.c` gets a value, and `a` a table. -/
theorem waits_served_two_waits :
    ∃ s : Datacenter, s.answers = [(1, .value (intValue 1)), (0, .error)] ∧ WaitsServed s := by
  have hfirst : NoWaitLeft .init (.wait [byteString 97]) := by
    refine WaitOk.mk (by decide) ⟨_, rfl⟩ ?_ (fun _ q h => by cases h)
    intro _ i hi q h
    obtain rfl : i = 0 := Nat.lt_one_iff.1 hi
    cases h
  have hsecond : NoWaitLeft oneWait (.wait [byteString 98, byteString 99]) := by
    refine WaitOk.mk (by decide) ⟨_, rfl⟩ ?_ (fun _ q h => by cases h)
    intro _ i hi q h
    have htwo : i < 2 := hi
    obtain rfl | rfl : i = 0 ∨ i = 1 := by omega
    · cases h
    · cases h
  have hthird : NoWaitLeft twoWaits (.update [byteString 98, byteString 99, intValue 1]) := by
    change UpdateOk _ _ _
    decide
  have hfourth : NoWaitLeft (twoWaits.commandUpdate [byteString 98, byteString 99,
      intValue 1]).1 (.update [byteString 97, byteString 100, intValue 2]) := by
    change UpdateOk _ _ _
    decide
  have h₀ : datacenterMachine.Reach NoWaitLeft .init := .start rfl
  have h₁ : datacenterMachine.Reach NoWaitLeft oneWait := h₀.step hfirst rfl
  have h₂ : datacenterMachine.Reach NoWaitLeft twoWaits := h₁.step hsecond rfl
  have h₄ := (h₂.step hthird rfl).step hfourth rfl
  exact ⟨_, rfl, (waits_served _ h₄).1⟩

/-- **A WAIT that nobody answers.**  A service waits at `a.b`, and `a` gets a table with a
value at `b`. -/
theorem waiter_left : ¬ ∀ s : Datacenter, datacenterMachine.Reachable s → WaitsServed s := by
  intro hall
  have h : datacenterMachine.Reachable .init := .start rfl
  have hrun := h.run (l := [.wait [byteString 97, byteString 98],
    .update [byteString 97, .table () [(byteString 98, intValue 1)]]]) rfl
  have hnil := (hall _ hrun).woken ([byteString 97, byteString 98], 0) mem_cons_self
    (intValue 1) rfl
  cases hnil

end Skynet.Analysis
