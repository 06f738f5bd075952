import Mathlib.Data.Nat.Notation
import Mathlib.Logic.Function.Basic
import Mathlib.Logic.Relation

/-!
# Machines and their guarded runs

A program whose threads interleave is a set of start states and, for every action of
every thread, the state after it where the action is enabled.  `Machine.Reach ok` is
the set of states that runs reach whose steps all meet `ok`: with `ok` always true
these are the reachable states, and with a condition on the state before a step they
are the states of the runs that never take the excluded branch.

The one induction over runs is `Reach.invariant`; every safety theorem about a machine
is two small goals on top of it.
-/

namespace Library

open Option

/-- A nondeterministic program: its start states, and the state after an action
(`none` where the action is not enabled). -/
structure Machine (σ α : Type*) where
  start : σ → Prop
  next : σ → α → Option σ

namespace Machine

variable {σ α : Type*} {M : Machine σ α} {ok ok' : σ → α → Prop}

inductive Reach (M : Machine σ α) (ok : σ → α → Prop) : σ → Prop
  | start {s : σ} (h : M.start s) : Reach M ok s
  | step {s s' : σ} {a : α} (hs : Reach M ok s) (hok : ok s a)
      (h : M.next s a = some s') : Reach M ok s'

def Reachable (M : Machine σ α) : σ → Prop := M.Reach fun _ _ => True

/-- What holds at the start and is kept by every step that meets `ok` holds in every
state reached. -/
theorem Reach.invariant {I : σ → Prop} (hstart : ∀ s, M.start s → I s)
    (hstep : ∀ s a s', I s → ok s a → M.next s a = some s' → I s') {s : σ}
    (h : M.Reach ok s) : I s := by
  induction h with
  | start h => exact hstart _ h
  | step _ hok h ih => exact hstep _ _ _ ih hok h

theorem Reach.invariant_of {I : σ → Prop} (hstart : ∀ s, M.start s → I s)
    (hstep : ∀ s a s', M.Reach ok s → I s → ok s a → M.next s a = some s' → I s') {s : σ}
    (h : M.Reach ok s) : I s := by
  induction h with
  | start h => exact hstart _ h
  | step hs hok h ih => exact hstep _ _ _ hs ih hok h

theorem Reach.mono (hle : ∀ s a, ok s a → ok' s a) {s : σ} (h : M.Reach ok s) : M.Reach ok' s := by
  induction h with
  | start h => exact .start h
  | step _ hok h ih => exact ih.step (hle _ _ hok) h

theorem Reach.reachable {s : σ} (h : M.Reach ok s) : M.Reachable s := h.mono fun _ _ _ => trivial

/-- Steps that all meet `ok`, one after the other, from one state to another. -/
def Steps (M : Machine σ α) (ok : σ → α → Prop) : σ → σ → Prop :=
  Relation.ReflTransGen fun s s' => ∃ a, ok s a ∧ M.next s a = some s'

theorem Reach.steps {s s' : σ} (h : M.Reach ok s) (hs : M.Steps ok s s') : M.Reach ok s' := by
  induction hs with
  | refl => exact h
  | tail _ hstep ih =>
    obtain ⟨a, hok, hnext⟩ := hstep
    exact ih.step hok hnext

/-- The state after a list of actions, `none` when one of them is not enabled. -/
def run (M : Machine σ α) : σ → List α → Option σ
  | s, [] => some s
  | s, a :: as => (M.next s a).bind fun s' => M.run s' as

@[simp] theorem run_nil (s : σ) : M.run s [] = some s := rfl

@[simp] theorem run_cons (s : σ) (a : α) (as : List α) :
    M.run s (a :: as) = (M.next s a).bind fun s' => M.run s' as := rfl

theorem run_append (s : σ) (as bs : List α) :
    M.run s (as ++ bs) = (M.run s as).bind fun s' => M.run s' bs := by
  induction as generalizing s with
  | nil => simp
  | cons a as ih =>
    simp only [List.cons_append, run_cons, bind_assoc]
    congr 1
    funext s'
    exact ih s'

theorem Reachable.run {s s' : σ} {l : List α} (h : M.Reachable s)
    (hrun : M.run s l = some s') : M.Reachable s' := by
  induction l generalizing s with
  | nil =>
    rw [run_nil, some.injEq] at hrun
    exact hrun ▸ h
  | cons a as ih =>
    obtain ⟨m, hm, hrest⟩ := bind_eq_some_iff.mp hrun
    exact ih (h.step trivial hm) hrest

def runOk (M : Machine σ α) (ok : σ → α → Prop) [∀ s a, Decidable (ok s a)] :
    σ → List α → Option σ
  | s, [] => some s
  | s, a :: as => if ok s a then (M.next s a).bind fun s' => M.runOk ok s' as else none

theorem Reach.runOk [∀ s a, Decidable (ok s a)] {s s' : σ} {l : List α}
    (h : M.Reach ok s) (hrun : M.runOk ok s l = some s') : M.Reach ok s' := by
  induction l generalizing s with
  | nil =>
    rw [Machine.runOk, some.injEq] at hrun
    exact hrun ▸ h
  | cons a as ih =>
    rw [Machine.runOk, ite_none_right_eq_some] at hrun
    obtain ⟨hok, hrun⟩ := hrun
    obtain ⟨m, hm, hrest⟩ := bind_eq_some_iff.mp hrun
    exact ih (h.step hok hm) hrest

def Each (M : Machine σ α) (P : σ → α → σ → Prop) : σ → List α → Prop
  | _, [] => True
  | s, a :: as => ∀ s', M.next s a = some s' → P s a s' ∧ M.Each P s' as

/-- Two properties that say the same of each step where the invariant `I` holds say the
same of the steps of a run. -/
theorem each_congr {I : σ → Prop} {P Q : σ → α → σ → Prop}
    (hstep : ∀ s a s', I s → M.next s a = some s' → I s')
    (hiff : ∀ s a s', I s → M.next s a = some s' → (P s a s' ↔ Q s a s')) {s : σ} (hs : I s)
    (as : List α) : M.Each P s as ↔ M.Each Q s as := by
  induction as generalizing s with
  | nil => exact Iff.rfl
  | cons a as ih =>
    refine forall₂_congr fun s' hnext => ?_
    exact and_congr (hiff s a s' hs hnext) (ih (hstep s a s' hs hnext))

/-- What a step that meets a condition has where an invariant holds, every step of a run has
whose steps meet the condition. -/
theorem each_of_guarded {I : σ → Prop} {P : σ → α → σ → Prop}
    (hstep : ∀ s a s', I s → ok s a → M.next s a = some s' → I s' ∧ P s a s') {s : σ}
    (hs : I s) {as : List α} (h : M.Each (fun s a _ => ok s a) s as) : M.Each P s as := by
  induction as generalizing s with
  | nil => trivial
  | cons a as ih =>
    intro s' hnext
    obtain ⟨hok, hrest⟩ := h s' hnext
    obtain ⟨hs', hp⟩ := hstep s a s' hs hok hnext
    exact ⟨hp, ih hs' hrest⟩

/-- A property that leaves a good state behind: where the steps from good states have it
exactly if they meet a condition, the steps of a run from a good state do. -/
theorem each_iff_of_good {I G : σ → Prop} {P Q : σ → α → σ → Prop}
    (hstep : ∀ s a s', I s → M.next s a = some s' → I s') (hgood : ∀ s a s', P s a s' → G s')
    (hiff : ∀ s a s', I s → G s → M.next s a = some s' → (P s a s' ↔ Q s a s')) {s : σ} (hs : I s)
    (hg : G s) (as : List α) : M.Each P s as ↔ M.Each Q s as := by
  induction as generalizing s with
  | nil => exact Iff.rfl
  | cons a as ih =>
    refine forall₂_congr fun s' hnext => ?_
    have hfirst := hiff s a s' hs hg hnext
    have hrest : P s a s' → (M.Each P s' as ↔ M.Each Q s' as) :=
      fun hp => ih (hstep s a s' hs hnext) (hgood s a s' hp)
    constructor
    · exact fun ⟨hp, has⟩ => ⟨hfirst.mp hp, (hrest hp).mp has⟩
    · exact fun ⟨hq, has⟩ => ⟨hfirst.mpr hq, (hrest (hfirst.mpr hq)).mpr has⟩

end Machine

end Library
