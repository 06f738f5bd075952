import Mathlib.Data.List.TakeWhile
import Skynet.Analysis.BsonSafety
import Skynet.Analysis.BsonWriting

/-!
# Reading what was written

The readers of `bson.decode` where the bytes ahead are known: each gives what was written, or
the value is one that the format does not carry.
-/

namespace Skynet.Analysis

open Library Model List

/-! ## Bytes ahead -/

def readerOn (r : BsonReader) (k : ℕ) : BsonReader := ⟨r.ptr + k, r.size - k⟩

structure Ahead (doc : Bytes) (r : BsonReader) (x : Bytes) : Prop where
  within : Within doc.length r
  bytes : x <+: remaining doc r

section Ahead

variable {doc x y : Bytes} {r : BsonReader} {s : BsonState}

theorem Within.length_remaining (h : Within doc.length r) :
    ((remaining doc r).length : ℤ) = r.size := by
  obtain ⟨hptr, hsize, hfits, -⟩ := h
  rw [remaining, length_take, length_drop]
  omega

theorem Ahead.size (h : Ahead doc r x) : (x.length : ℤ) ≤ r.size := by
  rw [← h.within.length_remaining]
  exact_mod_cast h.bytes.length_le

theorem Ahead.left (h : Ahead doc r (x ++ y)) : Ahead doc r x :=
  ⟨h.within, (prefix_append x y).trans h.bytes⟩

theorem Within.readerOn (h : Within doc.length r) {k : ℕ} (hk : (k : ℤ) ≤ r.size) :
    Within doc.length (Analysis.readerOn r k) := by
  obtain ⟨hptr, hsize, hfits, hint⟩ := h
  constructor <;> simp only [Analysis.readerOn] <;> omega

theorem remaining_readerOn (h : Within doc.length r) {k : ℕ} (hk : (k : ℤ) ≤ r.size) :
    remaining doc (readerOn r k) = (remaining doc r).drop k := by
  have hptr := h.ptr
  have hpos : (r.ptr + k).toNat = r.ptr.toNat + k := by omega
  have hleft : (r.size - k).toNat = r.size.toNat - k := by omega
  rw [remaining, remaining, readerOn, hpos, hleft, drop_take, drop_drop]

theorem Ahead.rest (h : Ahead doc r (x ++ y)) : Ahead doc (readerOn r x.length) y := by
  have hsize := h.left.size
  refine ⟨h.within.readerOn hsize, ?_⟩
  rw [remaining_readerOn h.within hsize]
  obtain ⟨z, hz⟩ := h.bytes
  rw [← hz, append_assoc, drop_left]
  exact prefix_append y z

theorem ahead_of_remaining (h : Within doc.length r) (hx : remaining doc r = x ++ y) :
    Ahead doc r x :=
  ⟨h, hx ▸ prefix_append x y⟩

theorem remaining_rest (h : Within doc.length r) (hx : remaining doc r = x ++ y) :
    remaining doc (readerOn r x.length) = y := by
  rw [remaining_readerOn h (ahead_of_remaining h hx).size, hx, drop_left]

theorem Ahead.take (h : Ahead doc r x) : (doc.drop r.ptr.toNat).take x.length = x := by
  have hle := h.bytes.length_le
  have hprefix := prefix_iff_eq_take.1 h.bytes
  rw [remaining, take_take] at hprefix
  rw [remaining, length_take] at hle
  rw [Nat.min_eq_left (by omega)] at hprefix
  exact hprefix.symm

theorem Ahead.ends_readLe (h : Ahead doc s.reader x) {n : ℕ} (hn : x.length = n) :
    Ends (readLe doc n) s (fun v s' => s'.reader = readerOn s.reader n ∧ v = leNat x)
      fun _ _ => False := by
  subst hn
  have hsize := h.size
  obtain ⟨hptr, -, hfits, hint⟩ := h.within
  apply (Analysis.ends_readLe (fun _ => ⟨hptr, by omega⟩) hint).mono
  · rintro v _ ⟨rfl, -, rfl⟩
    exact ⟨rfl, by rw [h.take]⟩
  · omega

theorem Ahead.ends_readInt64 {v : ℕ} (h : Ahead doc s.reader (leBytes 8 v)) (hv : v < 2 ^ 64) :
    Ends (readInt64 doc) s (fun w s' => s'.reader = readerOn s.reader 8 ∧
      w = BitVec.ofNat 64 v) fun _ _ => False := by
  unfold readInt64
  rw [Ends.bind]
  apply (h.ends_readLe (length_leBytes 8 v)).mono
  · rintro w s' ⟨hs', rfl⟩
    refine Ends.pure.2 ⟨hs', ?_⟩
    rw [leNat_leBytes_of_lt (by omega)]
  · exact fun _ _ h => h

theorem Ahead.ends_readInt32 {v : ℕ} (h : Ahead doc s.reader (leBytes 4 v)) :
    Ends (readInt32 doc) s (fun w s' => s'.reader = readerOn s.reader 4 ∧
      w = toInt32 (v % 2 ^ 32 : ℕ)) fun _ _ => False := by
  unfold readInt32
  rw [Ends.bind]
  apply (h.ends_readLe (length_leBytes 4 v)).mono
  · rintro w s' ⟨hs', rfl⟩
    refine Ends.pure.2 ⟨hs', ?_⟩
    rw [leNat_leBytes]
    rfl
  · exact fun _ _ h => h

theorem ends_bytesAt_first {p : ℤ} {left : ℕ} {b : UInt8} (hp : 0 ≤ p)
    (hfits : p + left ≤ doc.length) (hbytes : b :: x <+: (doc.drop p.toNat).take left) :
    ∃ k, left = k + 1 ∧ x <+: (doc.drop (p + 1).toNat).take k ∧
      Ends (bytesAt doc p 1) s (fun l s' => s' = s ∧ l = [b]) fun _ _ => False := by
  obtain ⟨k, rfl⟩ : ∃ k, left = k + 1 := by
    cases left with
    | zero => simp at hbytes
    | succ k => exact ⟨k, rfl⟩
  have hlt : p.toNat < doc.length := by omega
  have hdrop : doc.drop p.toNat = doc[p.toNat] :: doc.drop (p + 1).toNat := by
    rw [show (p + 1).toNat = p.toNat + 1 by omega]
    exact drop_eq_getElem_cons hlt
  rw [hdrop, take_succ_cons, cons_prefix_cons] at hbytes
  obtain ⟨rfl, hrest⟩ := hbytes
  refine ⟨k, rfl, hrest, ?_⟩
  apply (ends_bytesAt s (.inr ⟨hp, by omega⟩)).mono
  · rintro l _ ⟨rfl, rfl⟩
    exact ⟨rfl, by rw [hdrop]; rfl⟩
  · exact fun _ _ h => h

theorem ends_scanCstring_zero {p : ℤ} {left : ℕ} (hp : 0 ≤ p) (hfits : p + left ≤ doc.length)
    (hx : 0 ∉ x) (hbytes : x ++ [0] <+: (doc.drop p.toNat).take left) :
    Ends (scanCstring doc p left) s (fun r s' => s' = s ∧ r = x) fun _ _ => False := by
  induction x generalizing p left with
  | nil =>
    obtain ⟨k, rfl, -, hfirst⟩ := ends_bytesAt_first hp hfits hbytes
    unfold scanCstring
    rw [Ends.bind]
    apply hfirst.mono
    · rintro l s₁ ⟨rfl, rfl⟩
      exact Ends.pure.2 ⟨rfl, rfl⟩
    · exact fun _ _ h => h
  | cons b x ih =>
    obtain ⟨k, rfl, hrest, hfirst⟩ := ends_bytesAt_first hp hfits hbytes
    obtain ⟨hb, hx⟩ := not_or.1 (mt mem_cons.2 hx)
    unfold scanCstring
    rw [Ends.bind]
    apply hfirst.mono
    · rintro l s₁ ⟨rfl, rfl⟩
      have hne : leNat [b] ≠ 0 := by
        intro hzero
        exact hb (by simpa [leNat, ← UInt8.toNat_inj, eq_comm] using hzero)
      rw [if_neg hne, Ends.bind]
      apply (ih (by omega) (by omega) hx hrest).mono
      · rintro r s₂ ⟨rfl, rfl⟩
        exact Ends.pure.2 ⟨rfl, rfl⟩
      · exact fun _ _ h => h
    · exact fun _ _ h => h

theorem Ahead.ends_readCstring (h : Ahead doc s.reader (x ++ [0])) (hx : 0 ∉ x) :
    Ends (readCstring doc) s (fun r s' => s'.reader = readerOn s.reader (x.length + 1) ∧
      r = x) fun _ _ => False := by
  have hroom := h.size
  obtain ⟨hptr, hsize, hfits, hint⟩ := h.within
  unfold readCstring
  rw [Ends.bind, Ends.get, emod_size hsize hint, Ends.bind]
  apply (ends_scanCstring_zero hptr (by omega) hx h.bytes).mono
  · rintro r s₁ ⟨rfl, rfl⟩
    rw [Ends.bind]
    apply (ends_advance s₁ (r.length + 1)).mono
    · rintro _ _ rfl
      refine Ends.pure.2 ⟨?_, rfl⟩
      simp only [length_append, length_singleton] at hroom
      rw [toInt32_eq (by omega) (by omega)]
      rfl
    · exact fun _ _ h => h.elim
  · exact fun _ _ h => h

theorem Ahead.ends_readBytes (h : Ahead doc s.reader x) {sz : ℤ} (hsz : sz = x.length) :
    Ends (bsonReadBytes sz) s (fun p s' => p = s.reader.ptr ∧
      s'.reader = readerOn s.reader x.length) fun _ _ => False := by
  subst hsz
  have hsize := h.size
  have hint := h.within.int
  apply (Analysis.ends_readBytes s x.length).mono
  · rintro p _ ⟨rfl, -, rfl⟩
    refine ⟨rfl, ?_⟩
    rw [toInt32_eq (by omega) (by omega)]
    rfl
  · omega

theorem Ahead.ends_bytesAt (h : Ahead doc r x) (s : BsonState) {n : ℕ} (hn : n = x.length) :
    Ends (bytesAt doc r.ptr n) s (fun l s' => s' = s ∧ l = x) fun _ _ => False := by
  subst hn
  have hsize := h.size
  obtain ⟨hptr, -, hfits, -⟩ := h.within
  apply (Analysis.ends_bytesAt s (.inr ⟨hptr, by omega⟩)).mono
  · rintro l _ ⟨rfl, rfl⟩
    exact ⟨rfl, h.take⟩
  · exact fun _ _ h => h

theorem Ahead.ends_addLstring (h : Ahead doc r x) (s : BsonState) {len : ℤ} (hlen : len = x.length)
    : Ends (addLstring doc r.ptr len) s (fun l s' => s' = s ∧ l = x) fun _ _ => False := by
  subst hlen
  exact h.ends_bytesAt s (by omega)

end Ahead

/-! ## Objects -/

/-- The strings that stand for a value of a type that Lua does not have, behind the type, that
come back: of a binary the subtype is there; behind null and the least and the greatest key
there is nothing; a regex is two parts without zeros, each with a zero behind it. -/
def CarriedObject (type : ℕ) (str : Bytes) : Prop :=
  match type with
  | bsonBinary => str ≠ []
  | bsonRegex => ∃ r1 r2, str = r1 ++ 0 :: (r2 ++ [0]) ∧ 0 ∉ r1 ∧ 0 ∉ r2
  | bsonMinkey | bsonMaxkey | bsonNull => str = []
  | _ => True

def SplitObject (type : ℕ) (str : Bytes) : Prop :=
  type = bsonRegex → ∀ r1 r2, splitRegex str = some (r1, r2) → 0 ∉ r1

theorem splitRegex_options {str r1 r2 : Bytes} (h : splitRegex str = some (r1, r2)) : 0 ∉ r2 := by
  unfold splitRegex at h
  simp only at h
  split at h
  · cases h
    intro hmem
    have hne := mem_takeWhile_imp (mem_reverse.1 hmem)
    simp at hne
  · cases h

theorem splitRegex_parts {r1 r2 : Bytes} (h : 0 ∉ r2) :
    splitRegex (r1 ++ 0 :: (r2 ++ [0])) = some (r1, r2) := by
  have hbody : (r1 ++ 0 :: (r2 ++ [0])).take ((r1 ++ 0 :: (r2 ++ [0])).length - 1) =
      r1 ++ 0 :: r2 := by
    have hsplit : r1 ++ 0 :: (r2 ++ [0]) = (r1 ++ 0 :: r2) ++ [0] := by simp
    rw [hsplit, length_append, length_singleton, Nat.add_sub_cancel, take_left]
  have hoptions : ((r1 ++ 0 :: r2).reverse.takeWhile (· ≠ 0)).reverse = r2 := by
    rw [reverse_append, reverse_cons, append_assoc, takeWhile_append_of_pos]
    · simp
    · intro b hb
      have hne : b ≠ 0 := fun heq => h (heq ▸ mem_reverse.1 hb)
      simpa using hne
  unfold splitRegex
  simp only [hbody, hoptions]
  have hlen : (r1 ++ 0 :: r2).length = r1.length + 1 + r2.length := by
    rw [length_append, length_cons]
    omega
  have hfirst : (r1 ++ 0 :: r2).length - 1 - r2.length = r1.length := by omega
  rw [if_pos (by omega), hfirst, take_left]

section Values

variable {doc : Bytes} {s : BsonState} (nested : Bool → BsonRead (LuaValue Unit))

theorem ends_binary_nothing
    (h : Ahead doc s.reader (leBytes 4 ((((0 : ℕ) : ℤ) - 1) % 2 ^ 32).toNat)) :
    Ends (unpackValue doc nested bsonBinary) s (fun _ _ => False) fun _ _ => True := by
  simp only [unpackValue]
  rw [Ends.bind]
  apply h.ends_readInt32.mono
  case hE => exact fun _ _ _ => trivial
  rintro sz s₁ ⟨hs₁, rfl⟩
  have hsz : toInt32 ((((((0 : ℕ) : ℤ) - 1) % 2 ^ 32).toNat % 2 ^ 32 : ℕ) : ℤ) = -1 := by
    decide +kernel
  rw [hsz]
  have hwithin : Within doc.length s₁.reader := by
    rw [hs₁]
    exact h.within.readerOn h.size
  rw [Ends.bind]
  apply hwithin.ends_readLe.mono
  case hE => exact fun _ _ _ => trivial
  rintro subtype s₂ -
  rw [Ends.bind]
  apply (Analysis.ends_readBytes s₂ (-1)).mono
  case hE => exact fun _ _ _ => trivial
  rintro p s₃ -
  exact Ends.throw.2 trivial

variable {str : Bytes}

theorem ends_binary {b : UInt8}
    (h : Ahead doc s.reader (leBytes 4 str.length ++ ([b] ++ str))) :
    Ends (unpackValue doc nested bsonBinary) s
      (fun v s' => s'.reader = readerOn s.reader (5 + str.length) ∧
        v = bsonObject bsonBinary (b :: str)) fun _ _ => False := by
  have hsize := h.size
  have hint := h.within.int
  simp only [length_append, length_leBytes, length_singleton] at hsize
  simp only [unpackValue]
  rw [Ends.bind]
  apply h.left.ends_readInt32.mono
  case hE => exact fun _ _ h => h
  rintro sz s₁ ⟨hs₁, rfl⟩
  have hsz : toInt32 ((str.length % 2 ^ 32 : ℕ) : ℤ) = str.length := by
    rw [toInt32_eq (by omega) (by omega)]
    omega
  rw [hsz]
  have hrest : Ahead doc s₁.reader ([b] ++ str) := by
    rw [hs₁]
    exact h.rest
  rw [Ends.bind]
  apply (hrest.left.ends_readLe (n := 1) rfl).mono
  case hE => exact fun _ _ h => h
  rintro subtype s₂ ⟨hs₂, rfl⟩
  have hlast : Ahead doc s₂.reader str := by
    rw [hs₂]
    exact hrest.rest
  rw [Ends.bind]
  apply (hlast.ends_readBytes rfl).mono
  case hE => exact fun _ _ h => h
  rintro p s₃ ⟨rfl, hs₃⟩
  rw [Ends.bind]
  apply (hlast.ends_addLstring s₃ rfl).mono
  case hE => exact fun _ _ h => h
  rintro _ _ ⟨rfl, rfl⟩
  refine Ends.pure.2 ⟨?_, ?_⟩
  · rw [hs₃, hs₂, hs₁]
    simp only [readerOn, BsonReader.mk.injEq]
    omega
  · simp [leNat]

theorem ends_objectid (hlen : str.length = 12) (h : Ahead doc s.reader str) :
    Ends (unpackValue doc nested bsonObjectid) s
      (fun v s' => s'.reader = readerOn s.reader str.length ∧ v = bsonObject bsonObjectid str)
      fun _ _ => False := by
  simp only [unpackValue]
  rw [Ends.bind]
  apply (h.ends_readBytes (by omega)).mono
  case hE => exact fun _ _ h => h
  rintro p s₁ ⟨rfl, hs₁⟩
  unfold makeObject
  rw [Ends.bind]
  apply (h.ends_addLstring s₁ (by omega)).mono
  case hE => exact fun _ _ h => h
  rintro _ _ ⟨rfl, rfl⟩
  exact Ends.pure.2 ⟨hs₁, rfl⟩

theorem ends_date (hlen : str.length = 4)
    (h : Ahead doc s.reader (leBytes 8 (leNat str * 1000))) :
    Ends (unpackValue doc nested bsonDate) s
      (fun v s' => s'.reader = readerOn s.reader 8 ∧ v = bsonObject bsonDate str)
      fun _ _ => False := by
  have hlt := leNat_lt str
  rw [hlen] at hlt
  simp only [unpackValue]
  rw [Ends.bind]
  apply (h.ends_readInt64 (by omega)).mono
  case hE => exact fun _ _ h => h
  rintro date s₁ ⟨hs₁, rfl⟩
  refine Ends.pure.2 ⟨hs₁, ?_⟩
  have hdate : (BitVec.ofNat 64 (leNat str * 1000)).toInt = ((leNat str * 1000 : ℕ) : ℤ) := by
    rw [BitVec.toInt_ofNat']
    exact Int.bmod_eq_of_le (by omega) (by omega)
  have hseconds : ((((leNat str * 1000 : ℕ) : ℤ).tdiv 1000) % 2 ^ 32).toNat = leNat str := by
    rw [Int.tdiv_eq_ediv_of_nonneg (by omega)]
    omega
  rw [hdate, hseconds, ← hlen, leBytes_leNat]

theorem ends_timestamp (hlen : str.length = 8) (h : Ahead doc s.reader str) :
    Ends (unpackValue doc nested bsonTimestamp) s
      (fun v s' => s'.reader = readerOn s.reader str.length ∧ v = bsonObject bsonTimestamp str)
      fun _ _ => False := by
  have hfirst : (str.take 4).length = 4 := by simp [hlen]
  have hsecond : (str.drop 4).length = 4 := by simp [hlen]
  rw [← take_append_drop 4 str] at h
  simp only [unpackValue]
  rw [Ends.bind]
  apply (h.left.ends_readLe hfirst).mono
  case hE => exact fun _ _ h => h
  rintro inc s₁ ⟨hs₁, rfl⟩
  have hrest : Ahead doc s₁.reader (str.drop 4) := by
    have hdrop := h.rest
    rw [hfirst, ← hs₁] at hdrop
    exact hdrop
  rw [Ends.bind]
  apply (hrest.ends_readLe hsecond).mono
  case hE => exact fun _ _ h => h
  rintro ts s₂ ⟨hs₂, rfl⟩
  refine Ends.pure.2 ⟨?_, ?_⟩
  · rw [hs₂, hs₁, hlen]
    simp only [readerOn, BsonReader.mk.injEq]
    omega
  · have hinc := leBytes_leNat (str.take 4)
    have hts := leBytes_leNat (str.drop 4)
    rw [hfirst] at hinc
    rw [hsecond] at hts
    rw [hinc, hts, take_append_drop]

theorem ends_regex {r1 r2 : Bytes} (h1 : 0 ∉ r1) (h2 : 0 ∉ r2)
    (h : Ahead doc s.reader ((r1 ++ [0]) ++ (r2 ++ [0]))) :
    Ends (unpackValue doc nested bsonRegex) s
      (fun v s' => s'.reader = readerOn s.reader (r1.length + 1 + (r2.length + 1)) ∧
        v = bsonObject bsonRegex (r1 ++ 0 :: (r2 ++ [0]))) fun _ _ => False := by
  simp only [unpackValue]
  rw [Ends.bind]
  apply (h.left.ends_readCstring h1).mono
  case hE => exact fun _ _ h => h
  rintro _ s₁ ⟨hs₁, rfl⟩
  have hrest : Ahead doc s₁.reader (r2 ++ [0]) := by
    have := h.rest
    rw [length_append, length_singleton, ← hs₁] at this
    exact this
  rw [Ends.bind]
  apply (hrest.ends_readCstring h2).mono
  case hE => exact fun _ _ h => h
  rintro _ s₂ ⟨hs₂, rfl⟩
  refine Ends.pure.2 ⟨?_, by simp⟩
  rw [hs₂, hs₁]
  simp only [readerOn, BsonReader.mk.injEq]
  omega

theorem ends_object {type : ℕ} {str content : Bytes} (h : ObjectBytes type str content)
    (hlisted : type ∈ objectTypes) (hsplit : SplitObject type str)
    (hahead : Ahead doc s.reader content) :
    Ends (unpackValue doc nested type) s
      (fun v s' => s'.reader = readerOn s.reader content.length ∧
        ∃ c, v = bsonObject type c ∧ (c = str ↔ CarriedObject type str))
      fun _ _ => ¬ CarriedObject type str := by
  cases h with
  | binary =>
    cases str with
    | nil =>
      apply (ends_binary_nothing nested hahead.left).mono
      · exact fun _ _ h => h.elim
      · exact fun _ _ _ h => h rfl
    | cons b str =>
      have hlen : ((((b :: str).length : ℤ) - 1) % 2 ^ 32).toNat = str.length % 256 ^ 4 := by
        rw [length_cons]
        omega
      rw [hlen, leBytes_mod] at hahead ⊢
      apply (ends_binary nested hahead).mono
      · rintro v s' ⟨hs', rfl⟩
        refine ⟨?_, _, rfl, iff_of_true rfl (cons_ne_nil b str)⟩
        rw [hs', length_append, length_leBytes, length_cons]
        congr 1
        omega
      · exact fun _ _ h => h.elim
  | objectid hlen =>
    apply (ends_objectid nested hlen hahead).mono
    · exact fun v s' h => ⟨h.1, str, h.2, iff_of_true rfl trivial⟩
    · exact fun _ _ h => h.elim
  | date hlen =>
    apply (ends_date nested hlen hahead).mono
    · exact fun v s' h => ⟨h.1, str, h.2, iff_of_true rfl trivial⟩
    · exact fun _ _ h => h.elim
  | timestamp hlen =>
    apply (ends_timestamp nested hlen hahead).mono
    · exact fun v s' h => ⟨h.1, str, h.2, iff_of_true rfl trivial⟩
    · exact fun _ _ h => h.elim
  | @regex _ r1 r2 hparts =>
    have hfirst := hsplit rfl r1 r2 hparts
    have hsecond := splitRegex_options hparts
    have hbytes : r1 ++ 0 :: (r2 ++ [0]) = (r1 ++ [0]) ++ (r2 ++ [0]) := by simp
    rw [hbytes] at hahead
    apply (ends_regex nested hfirst hsecond hahead).mono
    · rintro v s' ⟨hs', rfl⟩
      refine ⟨?_, _, rfl, ?_, ?_⟩
      · rw [hs', hbytes]
        simp only [length_append, length_singleton]
      · rintro rfl
        exact ⟨r1, r2, rfl, hfirst, hsecond⟩
      · rintro ⟨q1, q2, rfl, -, hq⟩
        rw [splitRegex_parts hq, Option.some.injEq, Prod.mk.injEq] at hparts
        rw [hparts.1, hparts.2]
    · exact fun _ _ h => h.elim
  | empty htype =>
    have hempty : Ends (unpackValue doc nested type) s
        (fun v s' => s' = s ∧ v = bsonObject type []) fun _ _ => False := by
      rcases htype with rfl | rfl | rfl <;>
        exact Ends.pure.2 ⟨rfl, rfl⟩
    have hcarried : CarriedObject type str ↔ str = [] := by
      rcases htype with rfl | rfl | rfl <;> rfl
    apply hempty.mono
    · rintro v _ ⟨rfl, rfl⟩
      exact ⟨by simp [readerOn], [], rfl, by rw [hcarried, eq_comm]⟩
    · exact fun _ _ h => h.elim
  | other hother => exact absurd hlisted hother

end Values

end Skynet.Analysis
