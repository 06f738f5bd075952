import Mathlib.Data.Nat.Notation

/-!
# What a program with errors and state ends in

`EStateM` programs keep their state when they stop with an error.  `Ends m s Q E` says of
the program `m` started in `s` that it returns as `Q` says or stops as `E` says; the rules
follow the program's text, and one lemma about a function serves all its callers.
-/

namespace Library

variable {ε σ α β : Type}

theorem bind_eq_ok {x : Except ε α} {f : α → Except ε β} {b : β} :
    x >>= f = .ok b ↔ ∃ a, x = .ok a ∧ f a = .ok b := by
  cases x with
  | error e => exact ⟨nofun, fun ⟨_, h, _⟩ => nomatch h⟩
  | ok a => exact ⟨fun h => ⟨a, rfl, h⟩, fun ⟨_, h, hf⟩ => Except.ok.inj h ▸ hf⟩

theorem bind_eq_error {x : Except ε α} {f : α → Except ε β} {e : ε} :
    x >>= f = .error e ↔ x = .error e ∨ ∃ a, x = .ok a ∧ f a = .error e := by
  cases x with
  | error e' => exact ⟨fun h => .inl (Except.error.inj h ▸ rfl), fun h => h.elim
      (fun h => Except.error.inj h ▸ rfl) fun ⟨_, h, _⟩ => nomatch h⟩
  | ok a => exact ⟨fun h => .inr ⟨a, rfl, h⟩, fun h => h.elim nofun fun ⟨_, h, hf⟩ =>
      Except.ok.inj h ▸ hf⟩

def Ends (m : EStateM ε σ α) (s : σ) (Q : α → σ → Prop) (E : ε → σ → Prop) : Prop :=
  match m s with
  | .ok a s' => Q a s'
  | .error e s' => E e s'

def endState : EStateM.Result ε σ α → σ
  | .ok _ s => s
  | .error _ s => s

def stoppedWith : EStateM.Result ε σ α → Option ε
  | .ok _ _ => none
  | .error e _ => some e

def returned : EStateM.Result ε σ α → Bool
  | .ok _ _ => true
  | .error _ _ => false

namespace Ends

variable {m : EStateM ε σ α} {f : α → EStateM ε σ β} {s : σ} {a : α}
  {Q Q' : α → σ → Prop} {R : β → σ → Prop} {E E' : ε → σ → Prop}

@[simp] theorem pure : Ends (Pure.pure a) s Q E ↔ Q a s := Iff.rfl

@[simp] theorem throw {e : ε} :
    Ends (throw e : EStateM ε σ α) s Q E ↔ E e s := Iff.rfl

@[simp] theorem get {Q : σ → σ → Prop} :
    Ends (MonadState.get : EStateM ε σ σ) s Q E ↔ Q s s := Iff.rfl

@[simp] theorem set {t : σ} {Q : PUnit → σ → Prop} :
    Ends (set t : EStateM ε σ PUnit) s Q E ↔ Q ⟨⟩ t := Iff.rfl

@[simp] theorem modify {g : σ → σ} {Q : PUnit → σ → Prop} :
    Ends (modify g : EStateM ε σ PUnit) s Q E ↔ Q ⟨⟩ (g s) := Iff.rfl

@[simp] theorem bind : Ends (m >>= f) s R E ↔ Ends m s (fun a s' => Ends (f a) s' R E) E := by
  unfold Ends
  change (match EStateM.bind m f s with
    | .ok b s' => R b s'
    | .error e s' => E e s') ↔ _
  unfold EStateM.bind
  cases m s <;> rfl

theorem mono (h : Ends m s Q E) (hQ : ∀ a s', Q a s' → Q' a s')
    (hE : ∀ e s', E e s' → E' e s') : Ends m s Q' E' := by
  unfold Ends at h ⊢
  cases hm : m s with
  | ok a s' =>
    rw [hm] at h
    exact hQ a s' h
  | error e s' =>
    rw [hm] at h
    exact hE e s' h

theorem returns (h : Ends m s Q fun _ _ => False) : ∃ a s', m s = .ok a s' ∧ Q a s' := by
  unfold Ends at h
  cases hm : m s with
  | ok a s' =>
    rw [hm] at h
    exact ⟨a, s', rfl, h⟩
  | error e s' =>
    rw [hm] at h
    exact h.elim

theorem ite {c : Prop} [Decidable c] {m' : EStateM ε σ α} (hthen : c → Ends m s Q E)
    (helse : ¬c → Ends m' s Q E) : Ends (if c then m else m') s Q E := by
  by_cases hc : c
  · rw [if_pos hc]
    exact hthen hc
  · rw [if_neg hc]
    exact helse hc

theorem iff_endState {P : σ → Prop} :
    Ends m s (fun _ s' => P s') (fun _ s' => P s') ↔ P (endState (m s)) := by
  unfold Ends
  cases m s <;> rfl

theorem of_eq_ok {s' : σ} (h : m s = .ok a s') (hQ : Q a s') : Ends m s Q E := by
  unfold Ends
  rw [h]
  exact hQ

theorem of_ok {s' : σ} (h : Ends m s Q E) (hm : m s = .ok a s') : Q a s' := by
  unfold Ends at h
  rw [hm] at h
  exact h

theorem of_error {s' : σ} {e : ε} (h : Ends m s Q E) (hm : m s = .error e s') : E e s' := by
  unfold Ends at h
  rw [hm] at h
  exact h

theorem iff_of_ok {s' : σ} (hm : m s = .ok a s') : Ends m s Q E ↔ Q a s' :=
  ⟨fun h => h.of_ok hm, of_eq_ok hm⟩

theorem iff_of_error {s' : σ} {e : ε} (hm : m s = .error e s') : Ends m s Q E ↔ E e s' := by
  unfold Ends
  rw [hm]

end Ends

-- What a program ends in is told by the rules, never by running it.
attribute [irreducible] Ends

end Library
