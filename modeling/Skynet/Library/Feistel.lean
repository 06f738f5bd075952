import Mathlib.Data.Nat.Notation

/-!
# Feistel networks, and words that exchange bits

A round of a Feistel network changes one half of a block by what a function makes of the other
half and a key; the network with its keys in the other order takes a block back, whatever the
function is.  Two words exchange the bits under a mask by three exclusive ors, and do it back
in the same way.
-/

namespace Library

open BitVec

/-! ## Feistel networks -/

section Network

variable {α κ : Type*} (xor : α → α → α) (f : κ → α → α)

def feistelRound (k : κ) (p : α × α) : α × α := (p.2, xor p.1 (f k p.2))

def feistel (keys : List κ) (p : α × α) : α × α := keys.foldl (fun p k => feistelRound xor f k p) p

@[simp] theorem feistel_cons (k : κ) (keys : List κ) (p : α × α) :
    feistel xor f (k :: keys) p = feistel xor f keys (feistelRound xor f k p) := rfl

theorem feistel_append (keys keys' : List κ) (p : α × α) :
    feistel xor f (keys ++ keys') p = feistel xor f keys' (feistel xor f keys p) :=
  List.foldl_append

theorem feistelRound_swap (hxor : ∀ a b, xor (xor a b) b = a) (k : κ) (p : α × α) :
    feistelRound xor f k (feistelRound xor f k p).swap = p.swap := by
  obtain ⟨a, b⟩ := p
  change (b, xor (xor a (f k b)) (f k b)) = (b, a)
  rw [hxor]

/-- **The network with its keys in the other order** takes a block back. -/
theorem feistel_reverse (hxor : ∀ a b, xor (xor a b) b = a) (keys : List κ) (p : α × α) :
    feistel xor f keys.reverse (feistel xor f keys p).swap = p.swap := by
  induction keys generalizing p with
  | nil => rfl
  | cons k keys ih =>
    rw [List.reverse_cons, feistel_append, feistel_cons xor f k keys p, ih]
    exact feistelRound_swap xor f hxor k p

end Network

section Exchange

variable {w : ℕ}

/-- The first word's bits over the mask, shifted to it, and the second word's under the mask
change places. -/
def exchangeBits (k : ℕ) (mask : BitVec w) (p : BitVec w × BitVec w) : BitVec w × BitVec w :=
  let t := ((p.1 >>> k) ^^^ p.2) &&& mask
  (p.1 ^^^ (t <<< k), p.2 ^^^ t)

theorem shift_back {k : ℕ} {mask : BitVec w} (hmask : (mask <<< k) >>> k = mask)
    (u : BitVec w) : ((u &&& mask) <<< k) >>> k = u &&& mask := by
  have hbit : ∀ i, (i + k < w ∨ mask.getLsbD i = false) := by
    intro i
    by_cases hi : i + k < w
    · exact .inl hi
    · right
      rw [← hmask, getLsbD_ushiftRight, getLsbD_of_ge _ _ (by omega)]
  refine eq_of_getLsbD_eq fun i hi => ?_
  rw [getLsbD_ushiftRight, getLsbD_shiftLeft, Nat.add_sub_cancel_left, getLsbD_and]
  rcases hbit i with hlt | hzero
  · simp [Nat.add_comm k i, hlt]
  · simp [hzero]

/-- **An exchange twice** changes nothing. -/
theorem exchangeBits_twice {k : ℕ} {mask : BitVec w} (hmask : (mask <<< k) >>> k = mask)
    (p : BitVec w × BitVec w) : exchangeBits k mask (exchangeBits k mask p) = p := by
  obtain ⟨a, b⟩ := p
  have hback := shift_back hmask ((a >>> k) ^^^ b)
  -- The exchanged bits differ where the bits did.
  have ht : (((a ^^^ ((((a >>> k) ^^^ b) &&& mask) <<< k)) >>> k) ^^^
      (b ^^^ (((a >>> k) ^^^ b) &&& mask))) &&& mask = ((a >>> k) ^^^ b) &&& mask := by
    rw [ushiftRight_xor_distrib, hback]
    congr 1
    rw [BitVec.xor_assoc, ← BitVec.xor_assoc _ b, BitVec.xor_comm _ b, BitVec.xor_assoc b, BitVec.xor_self, xor_zero]
  unfold exchangeBits
  dsimp only
  rw [ht, BitVec.xor_assoc, BitVec.xor_assoc, BitVec.xor_self, BitVec.xor_self, xor_zero, xor_zero]

end Exchange

end Library
