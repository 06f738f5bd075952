import Mathlib.Data.Nat.Notation
import Mathlib.Logic.Basic

/-!
# Calls and what a specification answers

A component that is called again and again, and a specification of it.  Where a relation between
their states is kept by every call that meets a condition, all answers of a sequence of such calls
are those of the specification.
-/

namespace Library

variable {σ τ κ ρ : Type*}

/-- What a sequence of calls returns; a call that stops the component has no result. -/
def callAll (call : σ → κ → Option (ρ × σ)) : σ → List κ → Option (List ρ × σ)
  | s, [] => some ([], s)
  | s, k :: ks =>
    (call s k).bind fun r => (callAll call r.2 ks).map fun rs => (r.1 :: rs.1, rs.2)

def specAll (spec : τ → κ → ρ × τ) : τ → List κ → List ρ × τ
  | t, [] => ([], t)
  | t, k :: ks =>
    let rs := specAll spec (spec t k).2 ks
    ((spec t k).1 :: rs.1, rs.2)

/-- Each call meets a condition in the state of the specification before it. -/
def EachMeets (spec : τ → κ → ρ × τ) (P : τ → κ → Prop) : τ → List κ → Prop
  | _, [] => True
  | t, k :: ks => P t k ∧ EachMeets spec P (spec t k).2 ks

variable {call : σ → κ → Option (ρ × σ)} {spec : τ → κ → ρ × τ} {P : τ → κ → Prop}
  {R : σ → τ → Prop}

/-- A call answers as the specification does, and the states stay related. -/
def CallRefines (call : σ → κ → Option (ρ × σ)) (spec : τ → κ → ρ × τ) (R : σ → τ → Prop) (s : σ)
    (t : τ) (k : κ) : Prop :=
  ∃ s', call s k = some ((spec t k).1, s') ∧ R s' (spec t k).2

theorem callAll_spec (hcall : ∀ s t k, R s t → P t k → CallRefines call spec R s t k)
    (ks : List κ) {s : σ} {t : τ} (h : R s t) (hP : EachMeets spec P t ks) :
    ∃ s', callAll call s ks = some ((specAll spec t ks).1, s') ∧ R s' (specAll spec t ks).2 := by
  induction ks generalizing s t with
  | nil => exact ⟨s, rfl, h⟩
  | cons k ks ih =>
    obtain ⟨s₁, hfirst, h₁⟩ := hcall s t k h hP.1
    obtain ⟨s₂, hrest, h₂⟩ := ih h₁ hP.2
    refine ⟨s₂, ?_, h₂⟩
    rw [callAll, hfirst, Option.bind_some, hrest]
    rfl

/-- Among calls that may be made, where the first that does not meet the condition has another
answer, the condition is exact. -/
theorem callAll_iff_of {L : τ → κ → Prop}
    (hcall : ∀ s t k, R s t → L t k → P t k → CallRefines call spec R s t k)
    (hother : ∀ s t k, R s t → L t k → ¬ P t k → ∀ s', call s k ≠ some ((spec t k).1, s'))
    (ks : List κ) {s : σ} {t : τ} (h : R s t) (hL : EachMeets spec L t ks) :
    (∃ s', callAll call s ks = some ((specAll spec t ks).1, s')) ↔ EachMeets spec P t ks := by
  induction ks generalizing s t with
  | nil => exact ⟨fun _ => trivial, fun _ => ⟨s, rfl⟩⟩
  | cons k ks ih =>
    rw [callAll, EachMeets]
    by_cases hP : P t k
    · obtain ⟨s₁, hfirst, h₁⟩ := hcall s t k h hL.1 hP
      rw [and_iff_right hP, ← ih h₁ hL.2, hfirst, Option.bind_some]
      refine exists_congr fun s' => ?_
      cases hrest : callAll call s₁ ks with
      | none => exact iff_of_false nofun nofun
      | some rs =>
        obtain ⟨rs, s₂⟩ := rs
        simp [specAll]
    · refine iff_of_false ?_ fun hmeets => hP hmeets.1
      rintro ⟨s', hall⟩
      obtain ⟨⟨r, s₁⟩, hfirst, hrest⟩ := Option.bind_eq_some_iff.mp hall
      obtain ⟨⟨rs, s₂⟩, -, heq⟩ := Option.map_eq_some_iff.mp hrest
      obtain ⟨hr, -⟩ := List.cons.inj (congrArg Prod.fst heq)
      exact hother s t k h hL.1 hP s₁ (hfirst.trans (congrArg (fun r => some (r, s₁)) hr))

theorem eachMeets_of_forall (hP : ∀ t k, P t k) (t : τ) (ks : List κ) : EachMeets spec P t ks := by
  induction ks generalizing t with
  | nil => trivial
  | cons k ks ih => exact ⟨hP t k, ih _⟩

theorem callAll_iff (hcall : ∀ s t k, R s t → P t k → CallRefines call spec R s t k)
    (hother : ∀ s t k, R s t → ¬ P t k → ∀ s', call s k ≠ some ((spec t k).1, s'))
    (ks : List κ) {s : σ} {t : τ} (h : R s t) :
    (∃ s', callAll call s ks = some ((specAll spec t ks).1, s')) ↔ EachMeets spec P t ks :=
  callAll_iff_of (L := fun _ _ => True) (fun s t k h _ => hcall s t k h)
    (fun s t k h _ => hother s t k h) ks h (eachMeets_of_forall (fun _ _ => trivial) t ks)

end Library
