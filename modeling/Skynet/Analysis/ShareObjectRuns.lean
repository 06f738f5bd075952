import Skynet.Analysis.ShareObjects

/-!
# The runs of sharedatad and its clients

Each request that is handled, each answer that is taken and each box that is released moves a
reference from one use to the next.  A reference is lost where a pointer does not come to its
client, or where the client does not accept it.
-/

namespace Skynet.Analysis

open Library Model Sharedatad Option List

variable {s s' : Sharedatad} {full : Prop} {o obj : ℕ} {name : Bytes}

/-! ## Clients -/

theorem ObjectsInv.answered (h : ObjectsInv full s) {a : ShareAnswer} (hmem : a ∈ s.answers)
    (ha : a.obj = some obj) : s.objmap.get obj ≠ none := by
  refine h.kept obj ?_
  have hpos : 0 < handed s obj := countP_pos_iff.mpr ⟨a, hmem, by simpa using ha⟩
  rw [uses]
  omega

variable {client : ℕ}

theorem moves_queried (h : ObjectsInv full s)
    (hmem : .query client name obj ∈ s.answers) :
    Moves full s ({ s with answers := s.answers.erase (.query client name obj) }.queried
      client name obj) := by
  have htaken (o : ℕ) := uses_taken hmem (o := o)
  have hobj : s.objmap.get obj ≠ none := h.answered hmem rfl
  unfold queried
  split
  · refine .of_uses rfl rfl rfl fun o => ?_
    rw [uses_request, ← htaken]
    simp only [ShareAnswer.obj, some.injEq, ShareRequest.confirm.injEq]
  · have hcovers : Covers full ((1 : ℕ) : ℤ) 1 := .rfl
    refine .of_object rfl rfl hobj (fun o => ?_) (fun o => ?_) hcovers
    · change uses ((box { s with answers := s.answers.erase (.query client name obj) }
        s.roots.length obj).request (.confirm obj)) o = _
      rw [uses_request, uses_box, ← htaken]
      simp only [ShareAnswer.obj, some.injEq, ShareRequest.confirm.injEq, eq_comm]
    · exact incref_ref _ obj o

theorem moves_copied (hmem : .copy client obj ∈ s.answers) :
    Moves full s ({ s with answers := s.answers.erase (.copy client obj) }.request
      (.confirm obj)) := by
  refine .of_uses rfl rfl rfl fun o => ?_
  rw [uses_request, ← uses_taken hmem]
  simp only [ShareAnswer.obj, some.injEq, ShareRequest.confirm.injEq]

/-- An update is put behind the box that a root has; where it is not accepted the pointer is
lost. -/
theorem moves_monitored (h : ObjectsInv full s) {i : ℕ} {root : ShareRoot}
    (hmem : .monitor i obj ∈ s.answers) (haccepts : full → s.accepts root obj) :
    Moves full s ({ s with answers := s.answers.erase (.monitor i obj) }.monitored i root obj) := by
  have htaken (o : ℕ) := uses_taken hmem (o := o)
  have hobj : s.objmap.get obj ≠ none := h.answered hmem rfl
  have hsame : accepts { s with answers := s.answers.erase (.monitor i obj) } root obj
      ↔ s.accepts root obj := Iff.rfl
  unfold monitored
  split
  · have hcovers : Covers full ((1 : ℕ) : ℤ) 1 := .rfl
    obtain ⟨hpool, hobjmap, href⟩ := setUpdate_frame
      (box { s with answers := s.answers.erase (.monitor i obj) } i obj) root.gcobj s.boxes.length
    refine .of_object hpool hobjmap hobj (fun o => ?_) (fun o => ?_) hcovers
    · change uses (((box { s with answers := s.answers.erase (.monitor i obj) } i obj).setUpdate
        root.gcobj s.boxes.length).request (.confirm obj)) o = _
      rw [uses_request, uses_setUpdate, uses_box, ← htaken]
      simp only [ShareAnswer.obj, some.injEq, ShareRequest.confirm.injEq, eq_comm]
    · exact (congrFun href o).trans (incref_ref _ obj o)
  · next hrefused =>
    have hlost : ¬ full := fun hfull => hrefused (hsame.mpr (haccepts hfull))
    split
    · have hcovers : Covers full ((0 : ℕ) : ℤ) 1 := ⟨by omega, fun hfull => absurd hfull hlost⟩
      refine .of_object rfl rfl hobj (fun o => ?_) (fun o => ?_) hcovers
      · change uses (box { s with answers := s.answers.erase (.monitor i obj) } i obj) o = _
        rw [uses_box, ← htaken]
        simp [ShareAnswer.obj]
      · exact incref_ref _ obj o
    · refine .of_lost rfl rfl rfl (fun o => ?_) fun hfull => absurd hfull hlost
      rw [← htaken o]
      exact Nat.le_add_right _ _

theorem moves_ended {a : ShareAnswer} (hmem : a ∈ s.answers) (ha : a.obj = none)
    (hpool : s'.pool = s.pool) (hobjmap : s'.objmap = s.objmap) (href : s'.ref = s.ref)
    (huses : ∀ o, uses s' o = uses { s with answers := s.answers.erase a } o) :
    Moves full s s' := by
  refine .of_uses hpool hobjmap href fun o => ?_
  rw [huses, ← uses_taken hmem, ha, if_neg (by simp)]
  rfl

theorem closed_frame (s : Sharedatad) (i : ℕ) (root : ShareRoot) :
    (s.closed i root).pool = s.pool ∧ (s.closed i root).objmap = s.objmap
      ∧ (s.closed i root).ref = s.ref ∧ ∀ o, uses (s.closed i root) o = uses s o := by
  unfold closed
  split
  · exact ⟨rfl, rfl, rfl, fun _ => rfl⟩
  · exact ⟨rfl, rfl, rfl, fun _ => rfl⟩

theorem moves_taken (h : ObjectsInv full s) {a : ShareAnswer} (hmem : a ∈ s.answers)
    (hok : full → PointersConfirmed s (.take a)) :
    Moves full s ({ s with answers := s.answers.erase a }.taken a) := by
  cases a with
  | query client name obj => exact moves_queried h hmem
  | copy client obj => exact moves_copied hmem
  | monitor i newobj =>
    simp only [taken]
    split
    · next hnone =>
      refine .of_lost rfl rfl rfl (fun o => ?_) fun hfull => ?_
      · rw [← uses_taken hmem]
        exact Nat.le_add_right _ _
      · obtain ⟨root, hroot, -⟩ := hok hfull
        exact absurd (hnone.symm.trans hroot) (by simp)
    · next root hroot =>
      refine moves_monitored h hmem fun hfull => ?_
      obtain ⟨root', hroot', haccepts⟩ := hok hfull
      exact some.inj (hroot'.symm.trans hroot) ▸ haccepts
  | closed i =>
    simp only [taken]
    split
    · exact moves_ended hmem rfl rfl rfl rfl fun _ => rfl
    · next root _ =>
      obtain ⟨hpool, hobjmap, href, huses⟩ :=
        closed_frame { s with answers := s.answers.erase (.closed i) } i root
      exact moves_ended hmem rfl hpool hobjmap href huses
  | failed i =>
    simp only [taken]
    split
    · exact moves_ended hmem rfl rfl rfl rfl fun _ => rfl
    · exact moves_ended hmem rfl rfl rfl rfl fun _ => rfl

theorem moves_release {x : ℕ} {b : ShareBox} (hb : s.boxes[x]? = some b)
    (hreleased : b.released = false) :
    Moves full s { s.decref b.obj with boxes := s.boxes.set x { b with released := true } } := by
  have hone (o : ℕ) :
      uses { s.decref b.obj with boxes := s.boxes.set x { b with released := true } } o
        + (if b.obj = o then 1 else 0) = uses s o := by
    have hset : _ = boxed s o + _ := boxed_set hb (rfl : { b with released := true }.obj = b.obj) o
    simp only [hreleased, and_true, and_false, if_false, Bool.true_eq_false] at hset
    simp only [uses, handed, boxed, decref] at hset ⊢
    omega
  refine ⟨rfl, rfl, fun o hne => .inl ?_, fun o _ => .of_eq ?_⟩
  · have := hone o
    omega
  · have href := decref_ref s b.obj o
    rw [href, ← hone o]
    split
    all_goals omega

theorem moves_exit (hnone : full → ∀ a ∈ s.answers, a.obj ≠ none → s.receiver a ≠ some client) :
    Moves full s (s.exit client) := by
  have hparts (o : ℕ) : uses (s.exit client) o
      = (s.answers.filter fun a => s.receiver a ≠ some client).countP (fun a => a.obj = some o)
        + s.requests.count (.confirm o) + boxed s o := rfl
  refine .of_lost rfl rfl rfl (fun o => ?_) fun hfull o => ?_
  · have hsub : (s.answers.filter fun a => s.receiver a ≠ some client).Sublist s.answers :=
      filter_sublist
    have hle := hsub.countP_le (p := fun a => a.obj = some o)
    rw [hparts, uses, handed]
    omega
  · rw [hparts, uses, handed, countP_filter]
    refine congrArg (· + _ + _) (countP_congr fun a ha => ?_)
    simp only [Bool.and_eq_true, decide_eq_true_eq, and_iff_left_iff_imp]
    intro hobj
    exact hnone hfull a ha (by simp [hobj])

/-! ## Steps -/

theorem moves_query (h : ObjectsInv full s) {a : ℕ → ShareAnswer}
    (ha : ∀ obj, (a obj).obj = some obj) (hok : full → s.pool.get name ≠ none → client ∉ s.exited) :
    Moves full s (s.query client name a) := by
  unfold Sharedatad.query
  split
  · exact .of_uses rfl rfl rfl fun o => rfl
  · next v hv =>
    have hcur : s.objmap.get v.obj = some false := (h.current v.obj).mpr ⟨name, v, hv, rfl⟩
    exact moves_hand (ha v.obj) (by simp [hcur]) fun hfull => hok hfull (by simp [hv])

theorem watched_obj (s : Sharedatad) (v : ShareEntry) (i : ℕ) : (s.watched v i).obj = v.obj := by
  unfold watched
  split
  · rfl
  · rfl

theorem ObjectsInv.monitor (h : ObjectsInv full s) {i : ℕ} {root : ShareRoot}
    (hok : full → ∀ v ∈ s.pool.get root.name, v.obj ≠ root.newobj → root.client ∉ s.exited) :
    ObjectsInv full (s.monitor i root) := by
  unfold Sharedatad.monitor
  split
  · exact h.moves (moves_answer rfl)
  · next v hv =>
    split
    · next hne =>
      have hcur : s.objmap.get v.obj = some false := (h.current v.obj).mpr ⟨root.name, v, hv, rfl⟩
      exact h.moves (moves_hand rfl (by simp [hcur]) fun hfull => hok hfull v hv (Ne.symm hne))
    · exact h.watched hv (watched_obj s v i)

theorem ObjectsInv.handle (h : ObjectsInv full s) {m : ShareRequest} (hmem : m ∈ s.requests)
    (hok : full → PointersConfirmed s (.handle m)) :
    ObjectsInv full ({ s with requests := s.requests.erase m }.handle m) := by
  cases m with
  | query client name =>
    have h' := h.moves (moves_handled hmem (by simp))
    exact h'.moves (moves_query h' (fun _ => rfl) hok)
  | copy client name =>
    have h' := h.moves (moves_handled hmem (by simp))
    exact h'.moves (moves_query h' (fun _ => rfl) hok)
  | confirm obj => exact h.moves (moves_confirm h hmem)
  | monitor i =>
    have h' := h.moves (moves_handled hmem (by simp))
    simp only [Sharedatad.handle]
    split
    · exact h'
    · next root hroot => exact h'.monitor fun hfull => hok hfull root hroot

theorem ObjectsInv.made (h : ObjectsInv full s) {job : ShareJob}
    (hpool : s.pool.get job.name = none) (hobj : s.objmap.get obj = none)
    (hok : full → PointersConfirmed s (.made job obj)) : ObjectsInv full (s.made job obj) := by
  have hjob : ObjectsInv full { s with jobs := s.jobs.erase job } :=
    h.moves (.of_uses rfl rfl rfl fun o => rfl)
  have hnew := hjob.newobj hpool hobj
  unfold Sharedatad.made
  split
  · refine hnew.moves (moves_updated ?_ hok)
    simp [Sharedatad.newobj]
  · exact hnew

theorem ObjectsInv.update (h : ObjectsInv full s) (name : Bytes) :
    ObjectsInv full (s.update name) := by
  unfold Sharedatad.update
  split
  · exact h.moves (.of_uses rfl rfl rfl fun o => rfl)
  · next v hv => exact (h.supersede hv).moves (.of_uses rfl rfl rfl fun o => rfl)

theorem ObjectsInv.delete (h : ObjectsInv full s) (name : Bytes) :
    ObjectsInv full (s.delete name) := by
  unfold Sharedatad.delete
  split
  · exact h
  · next v hv => exact (h.supersede hv).moves (moves_closed _ _)

theorem ObjectsInv.minute (h : ObjectsInv full s) : ObjectsInv full s.minute := by
  unfold Sharedatad.minute
  split
  · exact h.collect.moves (.of_uses rfl rfl rfl fun o => rfl)
  · exact h.moves (.of_uses rfl rfl rfl fun o => rfl)

/-- Every command keeps the counts of the objects. -/
theorem ObjectsInv.next (h : ObjectsInv full s) {a : SharedatadAction}
    (hok : full → PointersConfirmed s a) (hnext : next s a = some s') : ObjectsInv full s' := by
  cases a with
  | new name =>
    cases hnext
    exact h.moves (.of_uses rfl rfl rfl fun o => rfl)
  | update name =>
    cases hnext
    exact h.update name
  | made job obj =>
    obtain ⟨⟨-, hpool, hobj⟩, hs'⟩ := ite_none_right_eq_some.mp hnext
    cases hs'
    exact h.made hpool hobj hok
  | failed job =>
    obtain ⟨-, hs'⟩ := ite_none_right_eq_some.mp hnext
    cases hs'
    exact h.moves (.of_uses rfl rfl rfl fun o => rfl)
  | delete name =>
    cases hnext
    exact h.delete name
  | handle m =>
    obtain ⟨hmem, hs'⟩ := ite_none_right_eq_some.mp hnext
    cases hs'
    exact h.handle hmem hok
  | minute =>
    cases hnext
    exact h.minute
  | notice client =>
    obtain ⟨-, hs'⟩ := ite_none_right_eq_some.mp hnext
    cases hs'
    exact h.moves (.of_uses rfl rfl rfl fun o => rfl)
  | query client name =>
    obtain ⟨-, hs'⟩ := ite_none_right_eq_some.mp hnext
    cases hs'
    exact h.moves (moves_request (by simp))
  | deepcopy client name =>
    obtain ⟨-, hs'⟩ := ite_none_right_eq_some.mp hnext
    cases hs'
    exact h.moves (moves_request (by simp))
  | monitor i =>
    simp only [Sharedatad.next] at hnext
    split at hnext
    · cases hnext
    · next root _ =>
      obtain ⟨-, hs'⟩ := ite_none_right_eq_some.mp hnext
      cases hs'
      have hset : Moves full s (s.setRoot i { root with state := .waiting }) :=
        .of_uses rfl rfl rfl fun o => rfl
      exact h.moves (hset.trans (moves_request (by simp)))
  | take a =>
    obtain ⟨hmem, hs'⟩ := ite_none_right_eq_some.mp hnext
    cases hs'
    exact h.moves (moves_taken h hmem hok)
  | raised a =>
    simp only [Sharedatad.next] at hnext
    split at hnext
    · obtain ⟨hmem, hs'⟩ := ite_none_right_eq_some.mp hnext
      cases hs'
      refine h.moves (.of_lost rfl rfl rfl (fun o => ?_) fun hfull => (hok hfull).elim)
      rw [← uses_taken hmem]
      exact Nat.le_add_right _ _
    · cases hnext
  | getcobj x =>
    simp only [Sharedatad.next] at hnext
    split at hnext
    · cases hnext
    · split at hnext
      · obtain ⟨-, hs'⟩ := ite_none_right_eq_some.mp hnext
        cases hs'
        exact h.moves (.of_uses rfl rfl rfl fun o => rfl)
      · cases hnext
  | drop i =>
    simp only [Sharedatad.next] at hnext
    split at hnext
    · cases hnext
    · obtain ⟨-, hs'⟩ := ite_none_right_eq_some.mp hnext
      cases hs'
      exact h.moves (.of_uses rfl rfl rfl fun o => rfl)
  | release x =>
    simp only [Sharedatad.next] at hnext
    split at hnext
    · cases hnext
    · next b hb =>
      obtain ⟨⟨hreleased, -⟩, hs'⟩ := ite_none_right_eq_some.mp hnext
      cases hs'
      exact h.moves (moves_release hb hreleased)
  | exit client =>
    obtain ⟨-, hs'⟩ := ite_none_right_eq_some.mp hnext
    cases hs'
    exact h.moves (moves_exit hok)

/-! ## Runs -/

theorem uses_unused (hunused : UnusedObject s o) : uses s o = s.requests.count (.confirm o) := by
  have hhanded : handed s o = 0 := by
    refine countP_eq_zero.mpr fun a ha => ?_
    simpa using hunused.pointer a ha
  have hboxed : boxed s o = 0 := by
    refine countP_eq_zero.mpr fun b hb => ?_
    simpa using fun hobj => hunused.box b hb hobj
  rw [uses, hhanded, hboxed]
  omega

theorem ObjectsInv.deletes (h : ObjectsInv full s) : DeletesUnused s := by
  intro o hmem
  obtain ⟨hkey, hle⟩ := mem_filter.mp hmem
  have hmap : s.objmap.get o = some true := (Table.mem_keysOf _ _ _).mp hkey
  obtain ⟨hcovers, -⟩ := h.counted o (by simp [hmap])
  simp only [hmap, some.injEq, Bool.true_eq_false, if_false, decide_eq_true_eq]
    at hcovers hle
  have hhanded : handed s o = 0 := by
    have : uses s o = 0 := by omega
    rw [uses] at this
    omega
  have hboxed : boxed s o = 0 := by
    have : uses s o = 0 := by omega
    rw [uses] at this
    omega
  refine ⟨fun hcur => ?_, fun b hb hobj => ?_, fun a ha hobj => ?_⟩
  · rw [← h.current, hmap] at hcur
    cases hcur
  · simpa [hobj] using countP_eq_zero.mp hboxed b hb
  · simpa [hobj] using countP_eq_zero.mp hhanded a ha

theorem ObjectsInv.frees (h : ObjectsInv True s) : FreesUnused s := by
  intro o hmap hunused hconfirm
  obtain ⟨-, hexact⟩ := h.counted o hmap
  have hnotcur : s.objmap.get o ≠ some false := fun hcur =>
    hunused.current ((h.current o).mp hcur)
  have href := hexact trivial
  rw [uses_unused hunused, count_eq_zero.mpr hconfirm, if_neg hnotcur] at href
  have hzero : s.ref o = 0 := by omega
  refine ⟨hzero, ?_⟩
  have htrue : s.objmap.get o = some true := by
    cases hget : s.objmap.get o with
    | none => exact absurd hget hmap
    | some superseded =>
      cases superseded with
      | false => exact absurd hget hnotcur
      | true => rfl
  rw [Sharedatad.collect, Table.get_putAll, if_pos]
  exact mem_filter.mpr ⟨(Table.mem_keysOf _ _ _).mpr htrue, by simp [hzero]⟩

theorem objectsInv_run (hs : machine.Reachable s) : ObjectsInv False s := by
  refine hs.invariant (fun s h => ?_) fun s a s' h _ hnext => ?_
  · exact h ▸ objectsInv_init
  · exact h.next False.elim hnext

theorem objectsInv_confirmed (hs : machine.Reach PointersConfirmed s) : ObjectsInv True s := by
  refine hs.invariant (fun s h => ?_) fun s a s' h hok hnext => ?_
  · exact h ▸ objectsInv_init
  · exact h.next (fun _ => hok) hnext

/-- **The objects of sharedatad are deleted when nobody needs them.**  In no run does a collection
delete an object that is needed, and in a run in which every pointer that is handed out is
confirmed, one that is not needed has no references and goes with the next collection. -/
theorem objects_deleted_when_unused (s : Sharedatad) :
    (machine.Reachable s → DeletesUnused s)
      ∧ (machine.Reach PointersConfirmed s → FreesUnused s) :=
  ⟨fun hs => (objectsInv_run hs).deletes, fun hs => (objectsInv_confirmed hs).frees⟩

/-- A client that takes an update lets go of the version before, and this is deleted. -/
theorem object_deleted_after_update : ∃ s, (∀ o ∈ s.unreferenced, UnusedObject s o)
    ∧ s.ref 1 = 0 ∧ s.collect.objmap.get 1 = none := by
  have hrun : (machine.runOk PointersConfirmed init [.new [], .made ⟨[], false, none⟩ 1,
      .query 1 [], .handle (.query 1 []), .take (.query 1 [] 1), .handle (.confirm 1),
      .monitor 0, .handle (.monitor 0), .update [], .made ⟨[], true, some (1, [0])⟩ 2,
      .take (.monitor 0 2), .handle (.confirm 2), .getcobj 0, .release 0]).map
      (fun s => (s.objmap.get 1, s.answers, s.requests, s.boxes)) =
        some (some true, [], [], [⟨0, 1, some 1, true⟩, ⟨0, 2, none, false⟩]) := by
    decide
  obtain ⟨s, hs, hstate⟩ := map_eq_some_iff.mp hrun
  simp only [Prod.mk.injEq] at hstate
  obtain ⟨hobjmap, hanswers, hrequests, hboxes⟩ := hstate
  have hreach : machine.Reach PointersConfirmed s := Machine.Reach.runOk (.start rfl) hs
  refine ⟨s, (objects_deleted_when_unused s).1 hreach.reachable,
    (objects_deleted_when_unused s).2 hreach 1 (by simp [hobjmap]) ⟨fun hcur => ?_, ?_, ?_⟩ ?_⟩
  · rw [← (objectsInv_confirmed hreach).current, hobjmap] at hcur
    cases hcur
  · simp [hboxes]
  · simp [hanswers]
  · simp [hrequests]

/-- A client that watches a name exits, and the next version counts it nevertheless: when this
version is no longer the current one nobody needs it, and it stays. -/
theorem watched_version_stays : ∃ s, machine.Reachable s ∧ ¬ FreesUnused s := by
  have hrun : (machine.run init [.new [], .made ⟨[], false, none⟩ 1, .query 1 [],
      .handle (.query 1 []), .take (.query 1 [] 1), .handle (.confirm 1), .monitor 0,
      .handle (.monitor 0), .exit 1, .release 0, .update [],
      .made ⟨[], true, some (1, [0])⟩ 2, .update [], .made ⟨[], true, some (2, [])⟩ 3]).map
      (fun s => ((s.objmap.get 2, s.ref 2), s.answers, s.requests, s.boxes)) =
        some ((some true, 1), [], [], [⟨0, 1, none, true⟩]) := by
    decide
  obtain ⟨s, hs, hstate⟩ := map_eq_some_iff.mp hrun
  simp only [Prod.mk.injEq] at hstate
  obtain ⟨⟨hobjmap, href⟩, hanswers, hrequests, hboxes⟩ := hstate
  have hreach : machine.Reachable s := Machine.Reachable.run (.start rfl) hs
  refine ⟨s, hreach, fun h => ?_⟩
  have hunused : UnusedObject s 2 := by
    refine ⟨fun hcur => ?_, by simp [hboxes], by simp [hanswers]⟩
    rw [← (objectsInv_run hreach).current, hobjmap] at hcur
    cases hcur
  have hzero := (h 2 (by simp [hobjmap]) hunused (by simp [hrequests])).1
  rw [href] at hzero
  cases hzero

end Skynet.Analysis
