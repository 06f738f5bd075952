import Skynet.Analysis.LuaSeriPack
import Skynet.Model.Bson

/-!
# Readers of BSON

What the primitives of `bson.decode` do with a reader that lies inside of the bytes that
were received: they read inside, or raise an error.
-/

namespace Skynet.Analysis

open Library Model

variable {doc : Bytes} {s : BsonState}

theorem toInt32_spec (v : ℤ) :
    -2 ^ 31 ≤ toInt32 v ∧ toInt32 v < 2 ^ 31 ∧ ∃ k : ℤ, toInt32 v = v + 2 ^ 32 * k := by
  obtain ⟨hlow, hhigh⟩ := toInt32_bounds v
  refine ⟨hlow, hhigh, ?_⟩
  unfold toInt32
  rw [Int.bmod_def]
  split
  · exact ⟨-(v / 2 ^ 32), by omega⟩
  · exact ⟨-(v / 2 ^ 32) - 1, by omega⟩

theorem toInt32_eq {v : ℤ} (hlow : -2 ^ 31 ≤ v) (hhigh : v < 2 ^ 31) : toInt32 v = v := by
  obtain ⟨hl, hh, k, hk⟩ := toInt32_spec v
  omega

/-! ## Readers inside of the bytes -/

structure Within (n : ℕ) (r : BsonReader) : Prop where
  ptr : 0 ≤ r.ptr
  size : 0 ≤ r.size
  fits : r.ptr + r.size ≤ n
  int : r.size < 2 ^ 31

def ahead (s : BsonState) (k : ℤ) : BsonState :=
  { s with reader := ⟨s.reader.ptr + k, s.reader.size - k⟩ }

@[simp] theorem ahead_ptr (s : BsonState) (k : ℤ) :
    (ahead s k).reader.ptr = s.reader.ptr + k := rfl

@[simp] theorem ahead_size (s : BsonState) (k : ℤ) :
    (ahead s k).reader.size = s.reader.size - k := rfl

variable {n : ℕ}

theorem Within.move (h : Within n s.reader) {k : ℤ} (hk : 0 ≤ k)
    (hle : k ≤ s.reader.size) : Within n (ahead s k).reader := by
  obtain ⟨hptr, hsize, hfits, hint⟩ := h
  constructor <;> simp only [ahead_ptr, ahead_size] <;> omega

def remaining (doc : Bytes) (r : BsonReader) : Bytes :=
  (doc.drop r.ptr.toNat).take r.size.toNat

def Raises (e : BsonStop) (_ : BsonState) : Prop := ∃ err, e = .lua err

theorem ends_checkReader (s : BsonState) (sz : ℤ) :
    Ends (checkReader sz) s (fun _ s' => s' = s ∧ sz ≤ s.reader.size)
      fun e s' => Raises e s' ∧ s.reader.size < sz := by
  unfold checkReader
  rw [Ends.bind, Ends.get]
  apply Ends.ite
  · exact fun hshort => Ends.throw.2 ⟨⟨_, rfl⟩, hshort⟩
  · exact fun hroom => Ends.pure.2 ⟨rfl, by omega⟩

theorem ends_advance (s : BsonState) (sz : ℤ) :
    Ends (advance sz) s (fun _ s' =>
      s' = { s with reader := ⟨s.reader.ptr + sz, toInt32 (s.reader.size - sz)⟩ })
      fun _ _ => False :=
  Ends.modify.2 rfl

theorem ends_readBytes (s : BsonState) (sz : ℤ) :
    Ends (bsonReadBytes sz) s (fun p s' => p = s.reader.ptr ∧ sz ≤ s.reader.size ∧
      s' = { s with reader := ⟨s.reader.ptr + sz, toInt32 (s.reader.size - sz)⟩ })
      fun e s' => Raises e s' ∧ s.reader.size < sz := by
  unfold bsonReadBytes
  rw [Ends.bind, Ends.get, Ends.bind]
  apply (ends_checkReader s sz).mono
  · rintro _ s₁ ⟨rfl, hroom⟩
    rw [Ends.bind]
    apply (ends_advance s₁ sz).mono
    · rintro _ _ rfl
      exact Ends.pure.2 ⟨rfl, hroom, rfl⟩
    · exact fun _ _ h => h.elim
  · exact fun _ _ h => h

theorem ends_bytesAt {p : ℤ} (s : BsonState)
    (hin : n = 0 ∨ 0 ≤ p ∧ p + n ≤ doc.length) :
    Ends (bytesAt doc p n) s (fun l s' => s' = s ∧ l = (doc.drop p.toNat).take n)
      fun _ _ => False := by
  unfold bytesAt
  rw [if_pos hin]
  exact Ends.pure.2 ⟨rfl, rfl⟩

theorem ends_bytesAt_outside {p : ℤ} (s : BsonState) (hout : ¬(n = 0 ∨ 0 ≤ p ∧ p + n ≤ doc.length))
    : Ends (bytesAt doc p n) s (fun _ _ => False) fun e s' => e = .outside ∧ s' = s := by
  unfold bytesAt
  rw [if_neg hout]
  exact Ends.throw.2 ⟨rfl, rfl⟩

theorem ends_readLe (hin : n ≤ s.reader.size →
      0 ≤ s.reader.ptr ∧ s.reader.ptr + n ≤ doc.length) (hint : s.reader.size < 2 ^ 31) :
    Ends (readLe doc n) s (fun v s' => s' = ahead s n ∧ n ≤ s.reader.size ∧
      v = leNat ((doc.drop s.reader.ptr.toNat).take n))
      fun e s' => Raises e s' ∧ s.reader.size < n := by
  unfold readLe
  rw [Ends.bind]
  apply (ends_checkReader s n).mono
  · rintro _ s₁ ⟨rfl, hroom⟩
    rw [Ends.bind, Ends.get, Ends.bind]
    apply (ends_bytesAt (p := s₁.reader.ptr) (n := n) s₁ (Or.inr (hin hroom))).mono
    · rintro b _ ⟨rfl, rfl⟩
      rw [Ends.bind]
      apply (ends_advance _ n).mono
      · rintro _ _ rfl
        refine Ends.pure.2 ⟨?_, hroom, rfl⟩
        rw [toInt32_eq (by omega) (by omega)]
        rfl
      · exact fun _ _ h => h.elim
    · exact fun _ _ h => h.elim
  · exact fun _ _ h => h

theorem ends_readLe_outside (hn : n ≠ 0) (hroom : n ≤ s.reader.size)
    (hout : ¬(0 ≤ s.reader.ptr ∧ s.reader.ptr + n ≤ doc.length)) :
    Ends (readLe doc n) s (fun _ _ => False) fun e s' => e = .outside ∧ s' = s := by
  unfold readLe
  rw [Ends.bind]
  apply (ends_checkReader s n).mono
  · rintro _ s₁ ⟨rfl, -⟩
    rw [Ends.bind, Ends.get, Ends.bind]
    apply (ends_bytesAt_outside s₁ (fun h => hout (h.resolve_left hn))).mono
    · exact fun _ _ h => h.elim
    · exact fun _ _ h => h
  · omega

theorem Within.ends_readLe (h : Within doc.length s.reader) :
    Ends (readLe doc n) s (fun v s' => s' = ahead s n ∧ n ≤ s.reader.size ∧
      v = leNat ((doc.drop s.reader.ptr.toNat).take n))
      fun e s' => Raises e s' ∧ s.reader.size < n :=
  Analysis.ends_readLe (fun hroom => ⟨h.ptr, by have := h.fits; omega⟩) h.int

theorem emod_size {n : ℤ} (h : 0 ≤ n) (hlt : n < 2 ^ 31) : n % 2 ^ 32 = n := by
  omega

theorem ends_scanCstring {p : ℤ} {left : ℕ} (hp : 0 ≤ p) (hfits : p + left ≤ doc.length) :
    Ends (scanCstring doc p left) s (fun r s' => s' = s ∧ r.length + 1 ≤ left ∧ 0 ∉ r ∧
      ∃ rest, (doc.drop p.toNat).take left = r ++ 0 :: rest)
      fun e s' => Raises e s' ∧ 0 ∉ (doc.drop p.toNat).take left := by
  induction left generalizing p with
  | zero => exact Ends.throw.2 ⟨⟨_, rfl⟩, by simp⟩
  | succ left ih =>
    have hlt : p.toNat < doc.length := by omega
    have hdrop : doc.drop p.toNat = doc[p.toNat] :: doc.drop (p + 1).toNat := by
      rw [show (p + 1).toNat = p.toNat + 1 by omega]
      exact List.drop_eq_getElem_cons hlt
    unfold scanCstring
    rw [Ends.bind]
    apply (ends_bytesAt (p := p) (n := 1) s (Or.inr ⟨hp, by omega⟩)).mono
    · rintro b s₁ ⟨rfl, hb⟩
      have hbyte : b = [doc[p.toNat]] := by
        rw [hb, hdrop]
        rfl
      apply Ends.ite
      · intro hzero
        have hnull : doc[p.toNat] = 0 := by
          rw [hbyte] at hzero
          simpa [leNat, ← UInt8.toNat_inj] using hzero
        refine Ends.pure.2 ⟨rfl, by simp, by simp, (doc.drop (p + 1).toNat).take left, ?_⟩
        rw [hdrop, hnull]
        rfl
      · intro hne
        have hnonzero : doc[p.toNat] ≠ 0 := by
          rintro hnull
          rw [hbyte, hnull] at hne
          exact hne rfl
        rw [Ends.bind]
        apply (ih (p := p + 1) (by omega) (by omega)).mono
        · rintro rest s₂ ⟨rfl, hlen, hmem, tail, htail⟩
          refine Ends.pure.2 ⟨rfl, by simp [hbyte]; omega, ?_, tail, ?_⟩
          · simp [hbyte, hmem, hnonzero.symm]
          · rw [hdrop, List.take_succ_cons, htail, hbyte]
            rfl
        · rintro e s' ⟨hr, hmem⟩
          refine ⟨hr, ?_⟩
          rw [hdrop, List.take_succ_cons]
          simp [hmem, hnonzero.symm]
    · exact fun _ _ h => h.elim

theorem Within.ends_readCstring (h : Within doc.length s.reader) :
    Ends (readCstring doc) s (fun r s' => s' = ahead s (r.length + 1) ∧
      (r.length : ℤ) + 1 ≤ s.reader.size ∧ 0 ∉ r ∧
      ∃ rest, remaining doc s.reader = r ++ 0 :: rest)
      fun e s' => Raises e s' ∧ 0 ∉ remaining doc s.reader := by
  obtain ⟨hptr, hsize, hfits, hint⟩ := h
  unfold readCstring
  rw [Ends.bind, Ends.get, emod_size hsize hint, Ends.bind]
  have hleft : s.reader.ptr + (s.reader.size.toNat : ℤ) ≤ doc.length := by omega
  apply (ends_scanCstring hptr hleft).mono
  · rintro r s₁ ⟨rfl, hlen, hmem, hrest⟩
    rw [Ends.bind]
    apply (ends_advance s₁ (r.length + 1)).mono
    · rintro _ _ rfl
      refine Ends.pure.2 ⟨?_, by omega, hmem, hrest⟩
      rw [toInt32_eq (by omega) (by omega)]
      rfl
    · exact fun _ _ h => h.elim
  · exact fun _ _ h => h

end Skynet.Analysis
