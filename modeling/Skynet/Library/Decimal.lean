import Mathlib.Data.Nat.Digits.Lemmas

/-!
# Decimal numerals in bytes

The bytes of a number in decimal, and the number that such bytes spell.
-/

namespace Library

open List Nat

variable {m n : ℕ}

def decimalBytes (n : ℕ) : List UInt8 :=
  if n = 0 then [48] else (Nat.digits 10 n).reverse.map fun d => UInt8.ofNat (48 + d)

def intBytes (i : ℤ) : List UInt8 :=
  if i < 0 then 45 :: decimalBytes i.natAbs else decimalBytes i.natAbs

def decimalDigit (b : UInt8) : Bool := 48 ≤ b && b ≤ 57

def decimalValue (s : List UInt8) : ℕ := s.foldl (fun n b => 10 * n + (b.toNat - 48)) 0

theorem decimal_byte {d : ℕ} (h : d < 10) : (UInt8.ofNat (48 + d)).toNat = 48 + d := by
  rw [UInt8.toNat_ofNat']
  omega

theorem decimalDigit_byte {d : ℕ} (h : d < 10) : decimalDigit (UInt8.ofNat (48 + d)) = true := by
  simp only [decimalDigit, Bool.and_eq_true, decide_eq_true_eq, UInt8.le_iff_toNat_le,
    decimal_byte h]
  exact ⟨by simp, by simp; omega⟩

theorem decimalBytes_ne_nil (n : ℕ) : decimalBytes n ≠ [] := by
  unfold decimalBytes
  split
  · nofun
  · next h => simpa using digits_ne_nil_iff_ne_zero.mpr h

theorem decimalBytes_digits : ∀ b ∈ decimalBytes n, decimalDigit b = true := by
  intro b hb
  unfold decimalBytes at hb
  split at hb
  · rw [mem_singleton.mp hb]
    rfl
  · obtain ⟨d, hd, rfl⟩ := mem_map.mp hb
    exact decimalDigit_byte (digits_lt_base (by decide) (mem_reverse.mp hd))

theorem decimalValue_reverse {l : List ℕ} (h : ∀ d ∈ l, d < 10) :
    decimalValue (l.reverse.map fun d => UInt8.ofNat (48 + d)) = ofDigits 10 l := by
  rw [decimalValue, foldl_map, foldl_reverse, ofDigits_eq_foldr]
  induction l with
  | nil => rfl
  | cons d l ih =>
    have hlt := h d mem_cons_self
    rw [foldr_cons, foldr_cons, ih fun e he => h e (mem_cons_of_mem _ he), decimal_byte hlt]
    simp only [cast_id]
    omega

@[simp] theorem decimalValue_decimalBytes (n : ℕ) : decimalValue (decimalBytes n) = n := by
  unfold decimalBytes
  split
  · next h =>
    rw [h]
    rfl
  · rw [decimalValue_reverse fun d hd => digits_lt_base (by decide) hd, ofDigits_digits]

theorem decimalBytes_length_le (h : m ≤ n) : (decimalBytes m).length ≤ (decimalBytes n).length := by
  by_cases hm : m = 0
  · rw [hm, decimalBytes, if_pos rfl]
    exact one_le_iff_ne_zero.mpr fun hlen =>
      decimalBytes_ne_nil n (eq_nil_of_length_eq_zero hlen)
  · have hn : n ≠ 0 := by omega
    rw [decimalBytes, decimalBytes, if_neg hm, if_neg hn]
    simpa using le_length_digits_le 10 m n h

end Library
