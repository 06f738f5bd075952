import Skynet.Library.LittleEndian
import Skynet.Model.SprotoSchema

/-!
# Numbers read from sproto data

`toword` and `todword` read two and four bytes and give the number that they spell.
-/

namespace Skynet.Analysis

open Library Model

variable {ε γ : Type} {mem : ℕ → UInt8} {s : AccessLog γ} {p : ℕ}

def wordAt (mem : ℕ → UInt8) (p : ℕ) : ℕ := leNat (load mem p 2)

def dwordAt (mem : ℕ → UInt8) (p : ℕ) : ℕ := leNat (load mem p 4)

theorem dwordAt_lt (mem : ℕ → UInt8) (p : ℕ) : dwordAt mem p < 2 ^ 32 := by
  have h := leNat_lt (load mem p 4)
  rw [length_load] at h
  exact h

theorem or_shiftLeft_byte {a k : ℕ} (b : UInt8) (ha : a < 2 ^ k) :
    a ||| b.toNat <<< k = a + 2 ^ k * b.toNat := by
  have hshift : b.toNat <<< k = 2 ^ k * b.toNat := by
    rw [Nat.shiftLeft_eq, Nat.mul_comm]
  rw [hshift, Nat.or_comm, ← Nat.two_pow_add_eq_or_of_lt ha, Nat.add_comm]

theorem wordAt_eq (mem : ℕ → UInt8) (p : ℕ) :
    (mem p).toNat ||| (mem (p + 1)).toNat <<< 8 = wordAt mem p := by
  rw [or_shiftLeft_byte _ (UInt8.toNat_lt _)]
  simp [wordAt, load, List.range_succ, leNat]

theorem dwordAt_eq (mem : ℕ → UInt8) (p : ℕ) :
    (mem p).toNat ||| (mem (p + 1)).toNat <<< 8 ||| (mem (p + 2)).toNat <<< 16 |||
      (mem (p + 3)).toNat <<< 24 = dwordAt mem p := by
  have h0 := UInt8.toNat_lt (mem p)
  have h1 := UInt8.toNat_lt (mem (p + 1))
  have h2 := UInt8.toNat_lt (mem (p + 2))
  rw [or_shiftLeft_byte _ h0]
  rw [or_shiftLeft_byte (mem (p + 2)) (by omega)]
  rw [or_shiftLeft_byte (mem (p + 3)) (by omega)]
  simp [dwordAt, load, List.range_succ, leNat]
  omega

theorem read_read (s : AccessLog γ) (p m n : ℕ) :
    (s.read p m).read (p + m) n = s.read p (m + n) := by
  simp [AccessLog.read, List.range_add, Nat.add_assoc]

@[simp] theorem ends_toword {Q : ℕ → AccessLog γ → Prop} {E : ε → AccessLog γ → Prop} :
    Ends (toword mem p) s Q E ↔ Q (wordAt mem p) (s.read p 2) := by
  unfold toword
  simp only [Ends.bind, Ends.readByte, Ends.pure, wordAt_eq, read_read]

theorem toword_run : (toword mem p : Accessing ε γ ℕ) s = .ok (wordAt mem p) (s.read p 2) := by
  have h : Ends (toword mem p : Accessing ε γ ℕ) s
      (fun v s' => v = wordAt mem p ∧ s' = s.read p 2) fun _ _ => False :=
    ends_toword.2 ⟨rfl, rfl⟩
  obtain ⟨v, s', hrun, hv, hs'⟩ := h.returns
  rw [hrun, hv, hs']

@[simp] theorem ends_todword {Q : ℕ → AccessLog γ → Prop} {E : ε → AccessLog γ → Prop} :
    Ends (todword mem p) s Q E ↔ Q (dwordAt mem p) (s.read p 4) := by
  unfold todword
  have h2 := read_read s p 1 1
  have h3 := read_read s p 2 1
  have h4 := read_read s p 3 1
  simp only [Ends.bind, Ends.readByte, Ends.pure, dwordAt_eq, h2, h3, h4]

theorem logGrows_toword : LogGrows (toword mem p : Accessing ε γ ℕ) := fun s =>
  ends_toword.2 (s.grows_read p 2)

theorem logGrows_todword : LogGrows (todword mem p : Accessing ε γ ℕ) := fun s =>
  ends_todword.2 (s.grows_read p 4)

end Skynet.Analysis
