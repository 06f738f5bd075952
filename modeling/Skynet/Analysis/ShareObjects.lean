import Skynet.Model.ShareDataService

/-!
# The objects of sharedatad and who uses them

The count of an object is that of its uses: an answer on the way to a client, a confirmation on
the way back, and the boxes.  The current version of a name counts one more.

Every step keeps the count at the number of uses or above, so that nothing is deleted that is
used.  It stays exact as long as every pointer that is handed out is confirmed.
-/

namespace Skynet.Analysis

open Library Model Sharedatad List Function Option

variable {s s' s'' : Sharedatad} {full : Prop} {o obj : ℕ} {name : Bytes} {v : ShareEntry}

/-! ## Uses -/

def handed (s : Sharedatad) (o : ℕ) : ℕ := s.answers.countP fun a => a.obj = some o

def boxed (s : Sharedatad) (o : ℕ) : ℕ := s.boxes.countP fun b => b.obj = o ∧ b.released = false

def uses (s : Sharedatad) (o : ℕ) : ℕ := handed s o + s.requests.count (.confirm o) + boxed s o

def CurrentObject (s : Sharedatad) (o : ℕ) : Prop := ∃ name v, s.pool.get name = some v ∧ v.obj = o

/-- **Nobody needs the object**: it is not the current one of its name, no box refers to it and
no pointer to it is on the way to a client. -/
structure UnusedObject (s : Sharedatad) (o : ℕ) : Prop where
  current : ¬ CurrentObject s o
  box : ∀ b ∈ s.boxes, b.obj = o → b.released = true
  pointer : ∀ a ∈ s.answers, a.obj ≠ some o

def DeletesUnused (s : Sharedatad) : Prop := ∀ o ∈ s.unreferenced, UnusedObject s o

def FreesUnused (s : Sharedatad) : Prop :=
  ∀ o, s.objmap.get o ≠ none → UnusedObject s o → .confirm o ∉ s.requests →
    s.ref o = 0 ∧ s.collect.objmap.get o = none

/-- **Every pointer that is handed out is confirmed**: it goes to a service that has not exited,
which takes it before it exits, and it is one that `sd.update` or `sd.copy` accepts. -/
def PointersConfirmed (s : Sharedatad) : SharedatadAction → Prop
  | .handle (.query client name) => s.pool.get name ≠ none → client ∉ s.exited
  | .handle (.copy client name) => s.pool.get name ≠ none → client ∉ s.exited
  | .handle (.monitor i) =>
    ∀ root ∈ s.roots[i]?, ∀ v ∈ s.pool.get root.name, v.obj ≠ root.newobj → root.client ∉ s.exited
  | .made job _ => ∀ old ∈ job.old, ∀ i ∈ old.2, s.alive i = true
  | .take (.monitor i newobj) => ∃ root ∈ s.roots[i]?, s.accepts root newobj
  | .raised _ => False
  | .exit client => ∀ a ∈ s.answers, a.obj ≠ none → s.receiver a ≠ some client
  | _ => True

instance (s : Sharedatad) : (a : SharedatadAction) → Decidable (PointersConfirmed s a)
  | .handle (.query client name) =>
    inferInstanceAs (Decidable (s.pool.get name ≠ none → client ∉ s.exited))
  | .handle (.copy client name) =>
    inferInstanceAs (Decidable (s.pool.get name ≠ none → client ∉ s.exited))
  | .handle (.monitor i) =>
    inferInstanceAs (Decidable (∀ root ∈ s.roots[i]?, ∀ v ∈ s.pool.get root.name,
      v.obj ≠ root.newobj → root.client ∉ s.exited))
  | .handle (.confirm _) => inferInstanceAs (Decidable True)
  | .made job _ =>
    inferInstanceAs (Decidable (∀ old ∈ job.old, ∀ i ∈ old.2, s.alive i = true))
  | .take (.monitor i newobj) =>
    inferInstanceAs (Decidable (∃ root ∈ s.roots[i]?, s.accepts root newobj))
  | .take (.query ..) => inferInstanceAs (Decidable True)
  | .take (.copy ..) => inferInstanceAs (Decidable True)
  | .take (.closed _) => inferInstanceAs (Decidable True)
  | .take (.failed _) => inferInstanceAs (Decidable True)
  | .raised _ => inferInstanceAs (Decidable False)
  | .exit client =>
    inferInstanceAs (Decidable (∀ a ∈ s.answers, a.obj ≠ none → s.receiver a ≠ some client))
  | .new _ => inferInstanceAs (Decidable True)
  | .update _ => inferInstanceAs (Decidable True)
  | .failed _ => inferInstanceAs (Decidable True)
  | .delete _ => inferInstanceAs (Decidable True)
  | .minute => inferInstanceAs (Decidable True)
  | .notice _ => inferInstanceAs (Decidable True)
  | .query .. => inferInstanceAs (Decidable True)
  | .deepcopy .. => inferInstanceAs (Decidable True)
  | .monitor _ => inferInstanceAs (Decidable True)
  | .getcobj _ => inferInstanceAs (Decidable True)
  | .drop _ => inferInstanceAs (Decidable True)
  | .release _ => inferInstanceAs (Decidable True)

/-! ## What the operations do to the uses -/

theorem uses_request (s : Sharedatad) (m : ShareRequest) (o : ℕ) :
    uses (s.request m) o = uses s o + if m = .confirm o then 1 else 0 := by
  simp only [uses, handed, boxed, request, count_append, count_singleton, beq_iff_eq]
  omega

theorem uses_answer (s : Sharedatad) (client : ℕ) (a : ShareAnswer) (o : ℕ) :
    uses (s.answer client a) o
      = uses s o + if client ∉ s.exited ∧ a.obj = some o then 1 else 0 := by
  unfold answer
  by_cases hexit : client ∈ s.exited
  · simp [hexit]
  · simp only [hexit, if_false, uses, handed, boxed, countP_append, countP_singleton,
      decide_eq_true_eq, not_false_eq_true, true_and]
    omega

theorem uses_respond (s : Sharedatad) (watch : List ℕ) (a : ℕ → ShareAnswer) (o : ℕ) :
    uses (s.respond watch a) o
      = uses s o + (watch.filter s.alive).countP fun i => (a i).obj = some o := by
  simp only [uses, handed, boxed, respond, countP_append, countP_map, comp_def]
  omega

theorem uses_box (s : Sharedatad) (root obj o : ℕ) :
    uses (s.box root obj) o = uses s o + if obj = o then 1 else 0 := by
  simp only [uses, handed, boxed, box, incref, countP_append, countP_singleton,
    decide_eq_true_eq, and_true]
  omega

theorem boxed_set {x : ℕ} {b b' : ShareBox} (hb : s.boxes[x]? = some b) (hobj : b'.obj = b.obj)
    (o : ℕ) : (s.boxes.set x b').countP (fun b => b.obj = o ∧ b.released = false)
        + (if b.obj = o ∧ b.released = false then 1 else 0)
      = boxed s o + if b.obj = o ∧ b'.released = false then 1 else 0 := by
  obtain ⟨hx, hget⟩ := List.getElem?_eq_some_iff.mp hb
  have hle : (if b.obj = o ∧ b.released = false then 1 else 0) ≤ boxed s o := by
    split
    · next h =>
      exact countP_pos_iff.mpr ⟨b, mem_of_getElem? hb, by simpa using h⟩
    · exact Nat.zero_le _
  rw [countP_set hx, hget, hobj]
  simp only [decide_eq_true_eq]
  change boxed s o - _ + _ + _ = _
  omega

theorem uses_setUpdate (s : Sharedatad) (gcobj x o : ℕ) :
    uses (s.setUpdate gcobj x) o = uses s o := by
  unfold setUpdate
  split
  · rfl
  · next b hb =>
    have hset : _ = boxed s o + _ := boxed_set hb (rfl : { b with update := some x }.obj = b.obj) o
    simp only [uses, handed, boxed] at hset ⊢
    omega

theorem uses_taken {a : ShareAnswer} (ha : a ∈ s.answers) :
    uses { s with answers := s.answers.erase a } o + (if a.obj = some o then 1 else 0)
      = uses s o := by
  have hperm : handed s o = (a :: s.answers.erase a).countP fun a => a.obj = some o :=
    (perm_cons_erase ha).countP_eq _
  rw [countP_cons] at hperm
  simp only [handed, decide_eq_true_eq] at hperm
  simp only [uses, boxed, handed]
  omega

theorem uses_handled {m : ShareRequest} (hm : m ∈ s.requests) :
    uses { s with requests := s.requests.erase m } o + (if m = .confirm o then 1 else 0)
      = uses s o := by
  have hperm : s.requests.count (.confirm o) = (m :: s.requests.erase m).count (.confirm o) :=
    (perm_cons_erase hm).count_eq _
  rw [count_cons] at hperm
  simp only [beq_iff_eq] at hperm
  simp only [uses, boxed, handed]
  omega

/-! ## Steps of the counts -/

def Covers (full : Prop) (x y : ℤ) : Prop := x ≤ y ∧ (full → x = y)

theorem Covers.rfl {x : ℤ} : Covers full x x := ⟨le_rfl, fun _ => Eq.refl x⟩

theorem Covers.of_eq {x y : ℤ} (h : x = y) : Covers full x y := ⟨h.le, fun _ => h⟩

structure Moves (full : Prop) (s s' : Sharedatad) : Prop where
  pool : s'.pool = s.pool
  objmap : s'.objmap = s.objmap
  kept : ∀ o, uses s' o ≠ 0 → uses s o ≠ 0 ∨ s.objmap.get o ≠ none
  refs : ∀ o, s.objmap.get o ≠ none → Covers full (uses s' o - uses s o) (s'.ref o - s.ref o)

/-- **The objects and their counts**: what is used is in `objmap`, the count covers the uses, and
the objects that are not superseded are the current versions. -/
structure ObjectsInv (full : Prop) (s : Sharedatad) : Prop where
  kept : ∀ o, uses s o ≠ 0 → s.objmap.get o ≠ none
  counted : ∀ o, s.objmap.get o ≠ none →
    Covers full (uses s o + if s.objmap.get o = some false then 1 else 0) (s.ref o)
  current : ∀ o, s.objmap.get o = some false ↔ CurrentObject s o
  once : ∀ n n' v v', s.pool.get n = some v → s.pool.get n' = some v' → v.obj = v'.obj → n = n'

theorem objectsInv_init : ObjectsInv full init := by
  refine ⟨?_, ?_, ?_, ?_⟩
  · simp [init, uses, handed, boxed]
  · simp [init]
  · simp [init, CurrentObject]
  · simp [init]

theorem Moves.of_uses (hpool : s'.pool = s.pool) (hobjmap : s'.objmap = s.objmap)
    (href : s'.ref = s.ref) (huses : ∀ o, uses s' o = uses s o) : Moves full s s' := by
  refine ⟨hpool, hobjmap, fun o h => .inl (huses o ▸ h), fun o _ => .of_eq ?_⟩
  rw [huses, href]
  omega

theorem Moves.of_object {n : ℕ} {k : ℤ} (hpool : s'.pool = s.pool) (hobjmap : s'.objmap = s.objmap)
    (hobj : s.objmap.get obj ≠ none) (huses : ∀ o, uses s' o = uses s o + if o = obj then n else 0)
    (href : ∀ o, s'.ref o = s.ref o + if o = obj then k else 0) (hn : Covers full n k) : Moves full
    s s' := by
  refine ⟨hpool, hobjmap, fun o hne => ?_, fun o _ => ?_⟩
  · by_cases heq : o = obj
    · exact .inr (heq ▸ hobj)
    · rw [huses, if_neg heq] at hne
      exact .inl hne
  · rw [huses, href]
    by_cases heq : o = obj
    · rw [if_pos heq, if_pos heq]
      obtain ⟨hle, hexact⟩ := hn
      refine ⟨by omega, fun hfull => ?_⟩
      have := hexact hfull
      omega
    · rw [if_neg heq, if_neg heq]
      exact .of_eq (by omega)

theorem Moves.of_lost (hpool : s'.pool = s.pool) (hobjmap : s'.objmap = s.objmap)
    (href : s'.ref = s.ref) (hle : ∀ o, uses s' o ≤ uses s o)
    (hfull : full → ∀ o, uses s' o = uses s o) : Moves full s s' := by
  refine ⟨hpool, hobjmap, fun o h => .inl ?_, fun o _ => ⟨?_, fun hf => ?_⟩⟩
  · have := hle o
    omega
  · have := hle o
    rw [href]
    omega
  · rw [hfull hf o, href]
    omega

theorem Moves.trans (h : Moves full s s') (h' : Moves full s' s'') : Moves full s s'' := by
  refine ⟨h'.pool.trans h.pool, h'.objmap.trans h.objmap, fun o hne => ?_, fun o ho => ?_⟩
  · rcases h'.kept o hne with huse | hmap
    · exact h.kept o huse
    · exact .inr (h.objmap ▸ hmap)
  · obtain ⟨hle, heq⟩ := h.refs o ho
    obtain ⟨hle', heq'⟩ := h'.refs o (h.objmap ▸ ho)
    refine ⟨by omega, fun hfull => ?_⟩
    have h₁ := heq hfull
    have h₂ := heq' hfull
    omega

theorem ObjectsInv.moves (h : ObjectsInv full s) (hm : Moves full s s') : ObjectsInv full s' := by
  refine ⟨fun o hne => ?_, fun o ho => ?_, fun o => ?_, ?_⟩
  · rw [hm.objmap]
    rcases hm.kept o hne with huse | hmap
    · exact h.kept o huse
    · exact hmap
  · rw [hm.objmap] at ho ⊢
    obtain ⟨hle, heq⟩ := h.counted o ho
    obtain ⟨hle', heq'⟩ := hm.refs o ho
    refine ⟨by omega, fun hfull => ?_⟩
    have h₁ := heq hfull
    have h₂ := heq' hfull
    omega
  · rw [hm.objmap, CurrentObject, hm.pool]
    exact h.current o
  · rw [hm.pool]
    exact h.once

/-! ## Objects that come and go -/

theorem ObjectsInv.newobj (h : ObjectsInv full s) (hpool : s.pool.get name = none)
    (hobj : s.objmap.get obj = none) : ObjectsInv full (s.newobj name obj) := by
  have hfresh : uses s obj = 0 := by
    by_contra hne
    exact h.kept obj hne hobj
  have huses (o : ℕ) : uses (s.newobj name obj) o = uses s o := rfl
  refine ⟨fun o hne => ?_, fun o ho => ?_, fun o => ?_, fun n n' v v' hn hn' heq => ?_⟩
  · simp only [Sharedatad.newobj, Table.get_put]
    split
    · exact some_ne_none _
    · exact h.kept o hne
  · rw [huses]
    simp only [Sharedatad.newobj, Table.get_put] at ho ⊢
    by_cases heq : o = obj
    · subst heq
      simp [hfresh, Covers]
    · simp only [heq, if_false, update_of_ne, ne_eq, not_false_eq_true] at ho ⊢
      exact h.counted o ho
  · simp only [Sharedatad.newobj, CurrentObject, Table.get_put]
    by_cases heq : o = obj
    · subst heq
      simp only [if_true, true_iff]
      exact ⟨name, ⟨o, [], 0, 16⟩, by simp⟩
    · rw [if_neg heq, h.current, CurrentObject]
      refine exists_congr fun n => ?_
      by_cases hn : n = name
      · subst hn
        simp [hpool, Ne.symm heq]
      · simp [hn]
  · have hold {n : Bytes} {v : ShareEntry} (hv : s.pool.get n = some v) : v.obj ≠ obj := by
      rintro rfl
      have hcur := (h.current v.obj).mpr ⟨n, v, hv, rfl⟩
      rw [hobj] at hcur
      cases hcur
    simp only [Sharedatad.newobj, Table.get_put] at hn hn'
    split at hn
    · next hname =>
      cases hn
      split at hn'
      · next hname' => exact hname.trans hname'.symm
      · exact absurd heq.symm (hold hn')
    · split at hn'
      · cases hn'
        exact absurd heq (hold hn)
      · exact h.once n n' v v' hn hn' heq

theorem ObjectsInv.supersede (h : ObjectsInv full s) (hv : s.pool.get name = some v) :
    ObjectsInv full (s.supersede name v) := by
  have hcur : s.objmap.get v.obj = some false := (h.current v.obj).mpr ⟨name, v, hv, rfl⟩
  have huses (o : ℕ) : uses (s.supersede name v) o = uses s o := rfl
  refine ⟨fun o hne => ?_, fun o ho => ?_, fun o => ?_, fun n n' v v' hn hn' heq => ?_⟩
  · simp only [Sharedatad.supersede, Table.get_put]
    split
    · exact some_ne_none _
    · exact h.kept o hne
  · rw [huses]
    simp only [Sharedatad.supersede, decref, Table.get_put] at ho ⊢
    by_cases heq : o = v.obj
    · subst heq
      obtain ⟨hle, hexact⟩ := h.counted v.obj (by simp [hcur])
      rw [hcur] at hle hexact
      simp only [if_true, update_self, some.injEq, Bool.true_eq_false, if_false]
        at hle hexact ⊢
      refine ⟨by omega, fun hfull => ?_⟩
      have := hexact hfull
      omega
    · simp only [heq, if_false, update_of_ne, ne_eq, not_false_eq_true] at ho ⊢
      exact h.counted o ho
  · simp only [Sharedatad.supersede, CurrentObject, Table.get_put]
    by_cases heq : o = v.obj
    · subst heq
      simp only [if_true, some.injEq, Bool.true_eq_false, false_iff]
      rintro ⟨n, v', hn, hobj⟩
      split at hn
      · cases hn
      · next hname => exact hname (h.once n name v' v hn hv hobj)
    · rw [if_neg heq, h.current, CurrentObject]
      refine exists_congr fun n => ?_
      by_cases hn : n = name
      · subst hn
        simp [hv, Ne.symm heq]
      · simp [hn]
  · simp only [Sharedatad.supersede, Table.get_put] at hn hn'
    split at hn
    · cases hn
    · split at hn'
      · cases hn'
      · exact h.once n n' v v' hn hn' heq

theorem ObjectsInv.collect (h : ObjectsInv full s) : ObjectsInv full s.collect := by
  have huses (o : ℕ) : uses s.collect o = uses s o := rfl
  have hstays {o : ℕ} (hne : s.objmap.get o ≠ some true ∨ 0 < s.ref o) :
      s.collect.objmap.get o = s.objmap.get o := by
    rw [Sharedatad.collect, Table.get_putAll, if_neg]
    intro hmem
    obtain ⟨hkey, hle⟩ := mem_filter.mp hmem
    rcases hne with hne | hpos
    · exact hne ((Table.mem_keysOf _ _ _).mp hkey)
    · simp only [decide_eq_true_eq] at hle
      omega
  have hgone {o : ℕ} (hne : s.collect.objmap.get o ≠ none) :
      s.collect.objmap.get o = s.objmap.get o := by
    rw [Sharedatad.collect, Table.get_putAll] at hne ⊢
    split at hne
    · exact absurd rfl hne
    · next hmem => rw [if_neg hmem]
  refine ⟨fun o hne => ?_, fun o ho => ?_, fun o => ?_, h.once⟩
  · rw [huses] at hne
    have hmap := h.kept o hne
    obtain ⟨hle, -⟩ := h.counted o hmap
    have hpos : 0 < s.ref o := by
      all_goals omega
    rwa [hstays (.inr hpos)]
  · rw [huses, hgone ho]
    exact h.counted o (hgone ho ▸ ho)
  · rw [show CurrentObject s.collect o ↔ CurrentObject s o from Iff.rfl, ← h.current]
    constructor
    · intro hcur
      rw [← hgone (by simp [hcur]), hcur]
    · intro hcur
      rw [hstays (.inl (by simp [hcur])), hcur]

theorem ObjectsInv.watched (h : ObjectsInv full s) (hv : s.pool.get name = some v) {v' : ShareEntry}
    (hobj : v'.obj = v.obj) : ObjectsInv full { s with pool := s.pool.put name (some v') } := by
  have hget {n : Bytes} {w : ShareEntry} (hw : (s.pool.put name (some v')).get n = some w) :
      ∃ w', s.pool.get n = some w' ∧ w'.obj = w.obj := by
    rw [Table.get_put] at hw
    split at hw
    · next hn =>
      cases hw
      exact ⟨v, hn ▸ hv, hobj.symm⟩
    · exact ⟨w, hw, rfl⟩
  refine ⟨h.kept, h.counted, fun o => (h.current o).trans ⟨?_, ?_⟩, fun n n' w w' hn hn' heq => ?_⟩
  · rintro ⟨n, w, hw, rfl⟩
    by_cases hn : n = name
    · subst hn
      refine ⟨n, v', by simp, ?_⟩
      rw [hobj, some.inj (hv.symm.trans hw)]
    · exact ⟨n, w, by simp [Table.get_put, hn, hw], rfl⟩
  · rintro ⟨n, w, hw, rfl⟩
    obtain ⟨w', hw', hobj'⟩ := hget hw
    exact ⟨n, w', hw', hobj'⟩
  · obtain ⟨u, hu, huo⟩ := hget hn
    obtain ⟨u', hu', huo'⟩ := hget hn'
    exact h.once n n' u u' hu hu' (huo.trans (heq.trans huo'.symm))

/-! ## What the operations do to the counts -/

theorem answer_frame (s : Sharedatad) (client : ℕ) (a : ShareAnswer) :
    (s.answer client a).pool = s.pool ∧ (s.answer client a).objmap = s.objmap
      ∧ (s.answer client a).ref = s.ref := by
  unfold answer
  split
  · exact ⟨rfl, rfl, rfl⟩
  · exact ⟨rfl, rfl, rfl⟩

theorem setUpdate_frame (s : Sharedatad) (gcobj x : ℕ) :
    (s.setUpdate gcobj x).pool = s.pool ∧ (s.setUpdate gcobj x).objmap = s.objmap
      ∧ (s.setUpdate gcobj x).ref = s.ref := by
  unfold setUpdate
  split
  · exact ⟨rfl, rfl, rfl⟩
  · exact ⟨rfl, rfl, rfl⟩

theorem incref_ref (s : Sharedatad) (obj o : ℕ) :
    (s.incref obj).ref o = s.ref o + if o = obj then 1 else 0 := by
  simp only [incref, update_apply]
  split
  · next h => rw [h]
  · omega

theorem decref_ref (s : Sharedatad) (obj o : ℕ) :
    (s.decref obj).ref o = s.ref o - if o = obj then 1 else 0 := by
  simp only [decref, update_apply]
  split
  · next h => rw [h]
  · omega

theorem moves_request {m : ShareRequest} (hm : ∀ o, m ≠ .confirm o) :
    Moves full s (s.request m) := by
  refine .of_uses rfl rfl rfl fun o => ?_
  rw [uses_request, if_neg (hm o)]
  rfl

theorem moves_handled {m : ShareRequest} (hmem : m ∈ s.requests) (hm : ∀ o, m ≠ .confirm o) :
    Moves full s { s with requests := s.requests.erase m } := by
  refine .of_uses rfl rfl rfl fun o => ?_
  rw [← uses_handled hmem, if_neg (hm o)]
  rfl

theorem moves_answer {client : ℕ} {a : ShareAnswer} (ha : a.obj = none) :
    Moves full s (s.answer client a) := by
  obtain ⟨hpool, hobjmap, href⟩ := answer_frame s client a
  refine .of_uses hpool hobjmap href fun o => ?_
  rw [uses_answer, if_neg (by simp [ha])]
  rfl

theorem moves_hand {client : ℕ} {a : ShareAnswer} (ha : a.obj = some obj)
    (hobj : s.objmap.get obj ≠ none) (hclient : full → client ∉ s.exited) :
    Moves full s ((s.incref obj).answer client a) := by
  obtain ⟨hpool, hobjmap, href⟩ := answer_frame (s.incref obj) client a
  have hcovers : Covers full ((if client ∉ s.exited then 1 else 0 : ℕ) : ℤ) 1 := by
    refine ⟨?_, fun hfull => ?_⟩
    · split
      all_goals omega
    · rw [if_pos (hclient hfull)]
      rfl
  refine .of_object hpool hobjmap hobj (fun o => ?_) (fun o => ?_) hcovers
  · rw [uses_answer, show uses (s.incref obj) o = uses s o from rfl]
    simp only [ha, some.injEq, eq_comm, incref]
    split
    all_goals simp_all
  · rw [href, incref_ref]

theorem moves_closed (s : Sharedatad) (watch : List ℕ) :
    Moves full s (s.respond watch .closed) := by
  refine .of_uses rfl rfl rfl fun o => ?_
  rw [uses_respond, countP_eq_zero.mpr]
  · rfl
  · simp [ShareAnswer.obj]

theorem moves_updated {old : Option (ℕ × List ℕ)} (hobj : s.objmap.get obj ≠ none)
    (halive : full → ∀ old' ∈ old, ∀ i ∈ old'.2, s.alive i = true) :
    Moves full s (s.updated obj old) := by
  cases old with
  | none => exact .of_uses rfl rfl rfl fun o => rfl
  | some old =>
    obtain ⟨old, watch⟩ := old
    have hcovers : Covers full ((watch.filter s.alive).length : ℤ) watch.length := by
      refine ⟨?_, fun hfull => ?_⟩
      · have hlen : (watch.filter s.alive).length ≤ watch.length := length_filter_le _ _
        omega
      · rw [filter_eq_self.mpr (halive hfull (old, watch) rfl)]
    refine .of_object rfl rfl hobj (fun o => ?_) (fun o => ?_) hcovers
    · have hsame : uses (s.updated obj (some (old, watch))) o
          = uses ((s.markdirty old).respond watch (.monitor · obj)) o := rfl
      rw [hsame, uses_respond]
      by_cases heq : o = obj
      · subst heq
        simp only [ShareAnswer.obj, decide_true, countP_true, if_true]
        rfl
      · simp only [ShareAnswer.obj, some.injEq, Ne.symm heq, decide_false,
          countP_false, heq, if_false]
        rfl
    · have href : (s.updated obj (some (old, watch))).ref
          = Function.update s.ref obj (s.ref obj + watch.length) := rfl
      rw [href, update_apply]
      split
      · next heq => rw [heq]
      · omega

theorem moves_confirm (h : ObjectsInv full s) (hmem : .confirm obj ∈ s.requests) :
    Moves full s ({ s with requests := s.requests.erase (.confirm obj) }.confirm obj) := by
  have hobj : s.objmap.get obj ≠ none := by
    refine h.kept obj ?_
    have hpos : 0 < s.requests.count (.confirm obj) := count_pos_iff.mpr hmem
    rw [uses]
    omega
  have hdec : { s with requests := s.requests.erase (.confirm obj) }.confirm obj
      = { s with requests := s.requests.erase (.confirm obj) }.decref obj := by
    simp only [confirm, isSome_iff_ne_none.mpr hobj, if_true]
  have hone (o : ℕ) :
      uses ({ s with requests := s.requests.erase (.confirm obj) }.decref obj) o
        + (if o = obj then 1 else 0) = uses s o := by
    rw [← uses_handled hmem]
    simp only [ShareRequest.confirm.injEq, eq_comm]
    rfl
  rw [hdec]
  refine ⟨rfl, rfl, fun o hne => .inl ?_, fun o _ => .of_eq ?_⟩
  · have := hone o
    omega
  · rw [decref_ref, ← hone o]
    dsimp only
    split
    all_goals omega

end Skynet.Analysis
