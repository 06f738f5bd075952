import Skynet.Library.Memory
import Skynet.Library.Outcome

/-!
# What a program reads of a buffer

Programs that read single bytes of a buffer and keep a log: the offsets they read, and
the events they note.  A program stays inside a buffer of a size when every offset in its
log is below it.  The log only grows, so what a program did wrong at one step is still in
the log when it ends.
-/

namespace Library

open List

variable {ε γ α β : Type}

/-- The offsets that were read and the events that were noted, oldest first. -/
structure AccessLog (γ : Type) where
  reads : List ℕ
  calls : List γ

/-- A program that reads a buffer. -/
abbrev Accessing (ε γ α : Type) : Type := EStateM ε (AccessLog γ) α

namespace AccessLog

def empty : AccessLog γ := ⟨[], []⟩

def read (s : AccessLog γ) (off n : ℕ) : AccessLog γ :=
  { s with reads := s.reads ++ (range n).map (off + ·) }

def note (s : AccessLog γ) (c : γ) : AccessLog γ := { s with calls := s.calls ++ [c] }

/-- Every byte that was read lies below the size, and every event is as it should be. -/
structure Inside (s : AccessLog γ) (size : ℕ) (P : γ → Prop) : Prop where
  reads : ∀ off ∈ s.reads, off < size
  calls : ∀ c ∈ s.calls, P c

structure Grows (s s' : AccessLog γ) : Prop where
  reads : s.reads ⊆ s'.reads
  calls : s.calls ⊆ s'.calls

theorem Grows.refl (s : AccessLog γ) : Grows s s := ⟨Subset.refl _, Subset.refl _⟩

theorem Grows.trans {s s' s'' : AccessLog γ} (h : Grows s s') (h' : Grows s' s'') : Grows s s'' :=
  ⟨Subset.trans h.reads h'.reads, Subset.trans h.calls h'.calls⟩

theorem grows_read (s : AccessLog γ) (off n : ℕ) : Grows s (s.read off n) :=
  ⟨subset_append_left _ _, Subset.refl _⟩

theorem grows_note (s : AccessLog γ) (c : γ) : Grows s (s.note c) :=
  ⟨Subset.refl _, subset_append_left _ _⟩

theorem Inside.of_grows {s s' : AccessLog γ} {size : ℕ} {P : γ → Prop}
    (h : s'.Inside size P) (hg : Grows s s') : s.Inside size P :=
  ⟨fun off hoff => h.reads off (hg.reads hoff), fun c hc => h.calls c (hg.calls hc)⟩

theorem inside_empty (size : ℕ) (P : γ → Prop) : (empty : AccessLog γ).Inside size P := by
  constructor
  · intro off h
    cases h
  · intro c h
    cases h

theorem inside_read {s : AccessLog γ} {off n size : ℕ} {P : γ → Prop} (hn : 0 < n) :
    (s.read off n).Inside size P ↔ s.Inside size P ∧ off + n ≤ size := by
  constructor
  · intro h
    refine ⟨h.of_grows (grows_read s off n), ?_⟩
    have hlast := h.reads (off + (n - 1)) (by
      simp only [read, mem_append, mem_map, mem_range]
      exact Or.inr ⟨n - 1, by omega, rfl⟩)
    omega
  · rintro ⟨h, hle⟩
    refine ⟨?_, h.calls⟩
    intro j hj
    simp only [read, mem_append, mem_map, mem_range] at hj
    rcases hj with hj | ⟨k, hk, rfl⟩
    · exact h.reads j hj
    · omega

theorem inside_note {s : AccessLog γ} {c : γ} {size : ℕ} {P : γ → Prop} :
    (s.note c).Inside size P ↔ s.Inside size P ∧ P c := by
  constructor
  · intro h
    exact ⟨h.of_grows (grows_note s c), h.calls c (by simp [note])⟩
  · rintro ⟨h, hc⟩
    refine ⟨h.reads, ?_⟩
    intro d hd
    simp only [note, mem_append, mem_singleton] at hd
    rcases hd with hd | rfl
    · exact h.calls d hd
    · exact hc

end AccessLog

def readByte (mem : ℕ → UInt8) (off : ℕ) : Accessing ε γ UInt8 :=
  fun s => .ok (mem off) (s.read off 1)

def noteCall (c : γ) : Accessing ε γ (List γ) := fun s => .ok (s.calls ++ [c]) (s.note c)

@[simp] theorem Ends.readByte {mem : ℕ → UInt8} {off : ℕ} {s : AccessLog γ}
    {Q : UInt8 → AccessLog γ → Prop} {E : ε → AccessLog γ → Prop} :
    Ends (readByte mem off) s Q E ↔ Q (mem off) (s.read off 1) := by
  unfold Ends
  exact Iff.rfl

@[simp] theorem Ends.noteCall {c : γ} {s : AccessLog γ} {Q : List γ → AccessLog γ → Prop}
    {E : ε → AccessLog γ → Prop} : Ends (noteCall c) s Q E ↔ Q (s.calls ++ [c]) (s.note c) := by
  unfold Ends
  exact Iff.rfl

def LogGrows (m : Accessing ε γ α) : Prop :=
  ∀ s, Ends m s (fun _ s' => s.Grows s') fun _ s' => s.Grows s'

namespace LogGrows

variable {m : Accessing ε γ α} {f : α → Accessing ε γ β}

theorem pure (a : α) : LogGrows (Pure.pure a : Accessing ε γ α) := fun s =>
  Ends.pure.2 (AccessLog.Grows.refl s)

theorem throw (e : ε) : LogGrows (throw e : Accessing ε γ α) := fun s =>
  Ends.throw.2 (AccessLog.Grows.refl s)

theorem readByte {mem : ℕ → UInt8} {off : ℕ} :
    LogGrows (readByte mem off : Accessing ε γ UInt8) := fun s =>
  Ends.readByte.2 (s.grows_read off 1)

theorem noteCall {c : γ} : LogGrows (noteCall c : Accessing ε γ (List γ)) := fun s =>
  Ends.noteCall.2 (s.grows_note c)

theorem bind (hm : LogGrows m) (hf : ∀ a, LogGrows (f a)) : LogGrows (m >>= f) := by
  intro s
  apply Ends.bind.2
  apply (hm s).mono
  · intro a s' h
    exact (hf a s').mono (fun _ _ h' => h.trans h') fun _ _ h' => h.trans h'
  · exact fun _ _ h => h

theorem ite {c : Prop} [Decidable c] {m' : Accessing ε γ α} (hthen : c → LogGrows m)
    (helse : ¬ c → LogGrows m') : LogGrows (if c then m else m') := fun s =>
  Ends.ite (fun hc => hthen hc s) fun hc => helse hc s

end LogGrows

end Library
