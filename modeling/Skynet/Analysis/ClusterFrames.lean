import Skynet.Analysis.LuaSeriReader
import Skynet.Model.Cluster

/-!
# Cluster frames

What the receiver of a frame reads: the package behind the two bytes of its length, the
numbers of four bytes in it, and the bytes at its end.  A message that does not fit one
frame goes in parts of `multiPart` bytes, and `lconcat` joins them again.
-/

namespace Skynet.Analysis

open Library Model List

/-! ## Frames -/

def framed (package : Bytes) : Bytes :=
  [UInt8.ofNat (package.length >>> 8), UInt8.ofNat package.length] ++ package

theorem framed_of_length {package : Bytes} {sz : ℕ} (h : package.length = sz) :
    framed package = [UInt8.ofNat (sz >>> 8), UInt8.ofNat sz] ++ package := by
  rw [framed, h]

theorem fillHeader_of_lt {sz : ℕ} (h : sz < 0x10000) :
    fillHeader sz = .ok [UInt8.ofNat (sz >>> 8), UInt8.ofNat sz] :=
  if_pos h

theorem header_length {sz : ℕ} (h : sz < 0x10000) :
    (UInt8.ofNat (sz >>> 8)).toNat <<< 8 ||| (UInt8.ofNat sz).toNat = sz := by
  have hlow : (UInt8.ofNat sz).toNat < 2 ^ 8 := UInt8.toNat_lt _
  rw [← Nat.shiftLeft_add_eq_or_of_lt hlow]
  simp only [UInt8.toNat_ofNat', Nat.shiftRight_eq_div_pow, Nat.shiftLeft_eq]
  omega

theorem readPackage_framed {package : Bytes} (h : package.length < 0x10000) (rest : Bytes) :
    readPackage (framed package ++ rest) = some (package, rest) := by
  have hlen := header_length h
  simp only [framed, cons_append, nil_append, readPackage, hlen, length_append]
  simp

theorem unpackUint32_fill (pre rest : Bytes) {n : ℕ} (h : n < 2 ^ 32) :
    unpackUint32 (pre ++ (fillUint32 n ++ rest)) pre.length = n := by
  have htake : (fillUint32 n ++ rest).take 4 = fillUint32 n := by
    rw [take_append_of_le_length (by simp [fillUint32])]
    exact take_of_length_le (by simp [fillUint32])
  rw [unpackUint32, drop_left, htake, fillUint32]
  exact leNat_leBytes_of_lt (by simpa using h)

theorem unpackUint32_at {buf : Bytes} (pre rest : Bytes) {n offset : ℕ} (h : n < 2 ^ 32)
    (hbuf : buf = pre ++ (fillUint32 n ++ rest)) (hoffset : pre.length = offset) :
    unpackUint32 buf offset = n := by
  rw [hbuf, ← hoffset]
  exact unpackUint32_fill pre rest h

@[simp] theorem length_fillUint32 (n : ℕ) : (fillUint32 n).length = 4 := by
  simp [fillUint32]

theorem drop_of_append {buf pre rest : Bytes} {offset : ℕ} (hbuf : buf = pre ++ rest)
    (hoffset : pre.length = offset) : buf.drop offset = rest := by
  rw [hbuf, ← hoffset, drop_left]

/-! ## The parts of a message -/

def partCount (msg : Bytes) : ℕ := (msg.length - 1) / multiPart + 1

/-- The frames of so many parts, with the packages of a part that others follow and of
the last one. -/
def partFrames (more last : Bytes → Bytes) : ℕ → Bytes → List Bytes
  | 0, _ => []
  | part + 1, ptr =>
    if ptr.length > multiPart then
      framed (more (ptr.take multiPart)) :: partFrames more last part (ptr.drop multiPart)
    else framed (last ptr) :: partFrames more last part []

def partsOf (more last : Bytes → Bytes) (left : Bytes) : List Bytes :=
  partFrames more last (partCount left) left

variable {more last : Bytes → Bytes} {left : Bytes}

theorem partsOf_more (h : left.length > multiPart) :
    partsOf more last left =
      framed (more (left.take multiPart)) :: partsOf more last (left.drop multiPart) := by
  have hcount : partCount left = partCount (left.drop multiPart) + 1 := by
    simp only [partCount, length_drop, multiPart] at h ⊢
    omega
  rw [partsOf, hcount, partFrames, if_pos h, partsOf]

theorem partsOf_last (h : ¬ left.length > multiPart) :
    partsOf more last left = [framed (last left)] := by
  have hcount : partCount left = 0 + 1 := by
    simp only [partCount, multiPart] at h ⊢
    omega
  simp only [partsOf, hcount, partFrames, if_neg h]

theorem lconcatLoop_strings {sz : ℕ} (chunks : List Bytes) (buff : Bytes)
    (h : buff.length + chunks.flatten.length ≤ sz) :
    lconcatLoop sz buff (chunks.map .string) = some (buff ++ chunks.flatten) := by
  induction chunks generalizing buff with
  | nil => simp [lconcatLoop]
  | cons chunk chunks ih =>
    simp only [flatten_cons, length_append] at h
    have hfits : ¬ chunk.length + buff.length > sz := by omega
    have hrest := ih (buff ++ chunk) (by rw [length_append]; omega)
    simp only [map_cons, lconcatLoop, if_neg hfits, hrest, flatten_cons, append_assoc]

/-- **The parts joined.**  `lconcat` of the size and the parts that make it up gives their
bytes. -/
theorem lconcat_strings {chunks : List Bytes} (h : chunks.flatten.length < 2 ^ 31) :
    lconcat (.number chunks.flatten.length :: chunks.map .string) = .buffer chunks.flatten := by
  have hsz : toInt32 (chunks.flatten.length : ℕ) = (chunks.flatten.length : ℤ) :=
    toInt32_of_lt (by omega)
  have hnonneg : ¬ (chunks.flatten.length : ℤ) < 0 := by omega
  have hloop := @lconcatLoop_strings chunks.flatten.length chunks [] (by simp)
  simp only [lconcat, hsz, if_neg hnonneg, Int.toNat_natCast, hloop, nil_append, ne_eq,
    not_true_eq_false, if_false]

end Skynet.Analysis
