import Skynet.Model.ShareDataService

/-!
# Updates of shared data

`CMD.update` takes the entry of a name apart before it evaluates the new data.  So a successful
update answers those who watch the name, and one that fails leaves neither the version before nor
anybody who watches it.
-/

namespace Skynet.Analysis

open Library Model Sharedatad Option

variable {s s₁ s₂ s₃ : Sharedatad} {name : Bytes} {obj : ℕ} {job : ShareJob}

def watchers (s : Sharedatad) (name : Bytes) : List ℕ :=
  ((s.pool.get name).map (·.watch)).getD []

/-- A request `update` comes in `s` and leaves `s₁`; it ends in `s₂` and leaves `s₃`.  Where it
fails neither step changes anything but the list of such requests.  Where it succeeds each one who
watched the name and still runs is answered once, with the new object, and so is each query. -/
def UpdateAtomic (name : Bytes) (s s₁ s₂ s₃ : Sharedatad) : SharedatadAction → Prop
  | .made _ obj =>
    s₃.answers = s₂.answers ++ ((watchers s name).filter s₂.alive).map (.monitor · obj)
      ∧ (∃ v, s₃.pool.get name = some v ∧ v.obj = obj)
      ∧ ∀ client a, s₃.query client name a = (s₃.incref obj).answer client (a obj)
  | _ => s₁ = { s with jobs := s₁.jobs } ∧ s₃ = { s₂ with jobs := s₃.jobs }

theorem update_new (h : s.pool.get name = none) :
    s.update name = { s with jobs := (s.update name).jobs } := by
  simp only [Sharedatad.update, h]

theorem update_taken_apart {v : ShareEntry} (h : s.pool.get name = some v) :
    (s.update name).pool.get name = none := by
  simp only [Sharedatad.update, h, supersede, Table.get_put_self]

theorem failed_keeps (h : next s₂ (.failed job) = some s₃) : s₃ = { s₂ with jobs := s₃.jobs } := by
  obtain ⟨-, heq⟩ := ite_none_right_eq_some.mp h
  cases heq
  rfl

theorem updated_pool (s : Sharedatad) (obj : ℕ) (old : Option (ℕ × List ℕ)) :
    (s.updated obj old).pool = s.pool := by
  cases old with
  | none => rfl
  | some old => rfl

theorem updated_answers (s : Sharedatad) (obj : ℕ) (v : Option ShareEntry) :
    (s.updated obj (v.map fun v => (v.obj, v.watch))).answers
      = s.answers ++ (((v.map (·.watch)).getD []).filter s.alive).map (.monitor · obj) := by
  cases v with
  | none => simp [updated, collect1min]
  | some v => rfl

theorem made_answers (h : next s₂ (.made (s.updateJob name) obj) = some s₃) :
    UpdateAtomic name s s₁ s₂ s₃ (.made (s.updateJob name) obj) := by
  obtain ⟨-, heq⟩ := ite_none_right_eq_some.mp h
  cases heq
  have hpool : (s₂.made (s.updateJob name) obj).pool.get name = some ⟨obj, [], 0, 16⟩ := by
    change (updated _ obj _).pool.get name = _
    rw [updated_pool]
    exact Table.get_put_self ..
  refine ⟨?_, ⟨_, hpool, rfl⟩, fun client a => ?_⟩
  · exact updated_answers _ obj (s.pool.get name)
  · simp only [Sharedatad.query, hpool]

variable {calls : ℕ} {chunk : Bool → Bytes → Option (LuaValue ℕ × LuaValue ℕ)}
  {source : ShareSource}

/-- A request `update` is atomic if and only if there is no entry of the name when it comes, or it
succeeds: the data is accepted, and nobody else has made an object of the name meanwhile. -/
theorem update_atomic_iff
    (hend : next s₂ (s₂.evaluated (s.updateJob name) (ShareAccepted calls chunk source) obj)
      = some s₃) :
    UpdateAtomic name s (s.update name) s₂ s₃
        (s₂.evaluated (s.updateJob name) (ShareAccepted calls chunk source) obj)
      ↔ s.pool.get name = none
        ∨ s₂.pool.get name = none ∧ ShareAccepted calls chunk source := by
  unfold evaluated at hend ⊢
  have hname : (s.updateJob name).name = name := rfl
  rw [hname] at hend ⊢
  by_cases hok : s₂.pool.get name = none ∧ ShareAccepted calls chunk source
  · rw [if_pos hok] at hend ⊢
    exact iff_of_true (made_answers hend) (.inr hok)
  · rw [if_neg hok] at hend ⊢
    rw [or_iff_left hok]
    constructor
    · rintro ⟨hsame, -⟩
      cases hv : s.pool.get name with
      | none => rfl
      | some v =>
        have hgone := update_taken_apart hv
        rw [hsame] at hgone
        exact nomatch hv.symm.trans hgone
    · exact fun hnone => ⟨update_new hnone, failed_keeps hend⟩

def watchedService : Option Sharedatad :=
  machine.run init [.new [], .made ⟨[], false, none⟩ 1, .query 1 [], .handle (.query 1 []),
    .take (.query 1 [] 1), .handle (.confirm 1), .monitor 0, .handle (.monitor 0)]

/-- An update to an empty table, while nothing else happens. -/
theorem update_atomic_empty : ∃ s s₃ : Sharedatad, watchedService = some s
    ∧ UpdateAtomic [] s (s.update []) (s.update []) s₃
      ((s.update []).evaluated (s.updateJob []) (ShareAccepted 1 (fun _ _ => none) .nil) 2)
    ∧ s₃.answers = [.monitor 0 2] := by
  have hrun : (watchedService.bind fun s => (next (s.update [])
      ((s.update []).evaluated (s.updateJob []) (ShareAccepted 1 (fun _ _ => none) .nil) 2)).map
        fun s₃ => (s₃.answers, decide ((s.update []).pool.get [] = none))) =
      some ([.monitor 0 2], true) := by
    decide +kernel
  obtain ⟨s, hs, hrun⟩ := bind_eq_some_iff.mp hrun
  obtain ⟨s₃, hs₃, hstate⟩ := map_eq_some_iff.mp hrun
  obtain ⟨hanswers, hnone⟩ := Prod.mk.inj hstate
  exact ⟨s, s₃, hs, (update_atomic_iff hs₃).mpr (.inr ⟨of_decide_eq_true hnone, by decide +kernel⟩),
    hanswers⟩

/-- An update to a number: the name is gone, and the next update does not tell the one who watched
it. -/
theorem failed_update_forgets : ∃ s s₃ : Sharedatad, machine.Reachable s
    ∧ next (s.update []) ((s.update []).evaluated (s.updateJob [])
        (ShareAccepted 1 (fun _ _ => none) .other) 2) = some s₃
    ∧ ¬ UpdateAtomic [] s (s.update []) (s.update []) s₃
      ((s.update []).evaluated (s.updateJob []) (ShareAccepted 1 (fun _ _ => none) .other) 2)
    ∧ (machine.run s₃ [.update [], .made ⟨[], true, none⟩ 2]).map (·.answers) = some [] := by
  have hrun : (watchedService.bind fun s => (next (s.update [])
      ((s.update []).evaluated (s.updateJob []) (ShareAccepted 1 (fun _ _ => none) .other) 2)).map
        fun s₃ => (decide (s.pool.get [] = none), decide ((s.update []).pool.get [] = none),
          (machine.run s₃ [.update [], .made ⟨[], true, none⟩ 2]).map (·.answers))) =
      some (false, true, some []) := by
    decide
  obtain ⟨s, hs, hrun⟩ := bind_eq_some_iff.mp hrun
  obtain ⟨s₃, hs₃, hstate⟩ := map_eq_some_iff.mp hrun
  obtain ⟨hentry, hstate⟩ := Prod.mk.inj hstate
  obtain ⟨hgone, hnext⟩ := Prod.mk.inj hstate
  refine ⟨s, s₃, Machine.Reachable.run (.start rfl) hs, hs₃, ?_, hnext⟩
  have hfailed : (s.update []).evaluated (s.updateJob [])
      (ShareAccepted 1 (fun _ _ => none) .other) 2 = .failed (s.updateJob []) :=
    if_neg fun h => absurd h.2 (by decide)
  rw [hfailed]
  rintro ⟨hsame, -⟩
  have hgone : (s.update []).pool.get [] = none := of_decide_eq_true hgone
  rw [hsame] at hgone
  exact absurd hgone (of_decide_eq_false hentry)

end Skynet.Analysis
