import Skynet.Analysis.LuaSeriReader
import Skynet.Analysis.SprotoUnpack

/-!
# The 0-packing round trip

`sproto_pack` works on a buffer that it partly overwrites later: while a run of segments is
open, only what lies before the run is final.  The loop invariant says what the final part
stands for when it is unpacked, and where the run lies.
-/

namespace Skynet.Analysis

open Library Model List Function

/-! ## One segment -/

def nonzeros (seg : ℕ → UInt8) (is : List ℕ) : Bytes :=
  (is.map seg).filter (· ≠ 0)

theorem length_nonzeros_le (seg : ℕ → UInt8) (is : List ℕ) :
    (nonzeros seg is).length ≤ is.length := by
  have hle := length_filter_le (· ≠ 0) (is.map seg)
  rwa [length_map] at hle

variable {seg mem : ℕ → UInt8} {is : List ℕ} {st : SegState}

theorem packSeg_foldl_count (seg : ℕ → UInt8) (is : List ℕ) (st : SegState) :
    (is.foldl (packSegStep seg) st).notzero = st.notzero + (nonzeros seg is).length ∧
      ∀ j, (is.foldl (packSegStep seg) st).header.testBit j =
        (st.header.testBit j || decide (j ∈ is ∧ seg j ≠ 0)) := by
  induction is generalizing st with
  | nil => simp [nonzeros]
  | cons i is ih =>
    rw [foldl_cons]
    obtain ⟨hcount, hheader⟩ := ih (packSegStep seg st i)
    rw [hcount]
    by_cases hi : seg i = 0
    · have hstep : packSegStep seg st i = st := by simp [packSegStep, hi]
      rw [hstep] at hheader ⊢
      refine ⟨by simp [nonzeros, hi], fun j => ?_⟩
      rw [hheader]
      by_cases hj : j = i
      · simp [hj, hi]
      · simp [hj]
    · have hnotzero : (packSegStep seg st i).notzero = st.notzero + 1 := by
        unfold packSegStep
        simp only [ne_eq, hi, not_false_eq_true, ↓reduceIte]
        split <;> rfl
      have hbit : (packSegStep seg st i).header = st.header ||| 2 ^ i := by
        unfold packSegStep
        simp only [ne_eq, hi, not_false_eq_true, ↓reduceIte]
        split <;> rfl
      refine ⟨by simp [nonzeros, hi, hnotzero]; omega, fun j => ?_⟩
      rw [hheader, hbit, Nat.testBit_or, Nat.testBit_two_pow]
      by_cases hj : j = i
      · simp [hj, hi]
      · have hij : ¬ i = j := fun h => hj h.symm
        simp [hj, hij]

theorem packSeg_foldl_frame (seg : ℕ → UInt8) (is : List ℕ) (st : SegState) {j : ℕ}
    (hj : j < st.buffer) : (is.foldl (packSegStep seg) st).mem j = st.mem j := by
  induction is generalizing st with
  | nil => rfl
  | cons i is ih =>
    rw [foldl_cons]
    by_cases hi : seg i = 0
    · have hstep : packSegStep seg st i = st := by simp [packSegStep, hi]
      rw [hstep]
      exact ih st hj
    · have hbuffer : st.buffer ≤ (packSegStep seg st i).buffer := by
        unfold packSegStep
        simp only [ne_eq, hi, not_false_eq_true, ↓reduceIte]
        split
        · exact Nat.le_succ _
        · exact le_rfl
      rw [ih _ (by omega)]
      unfold packSegStep
      simp only [ne_eq, hi, not_false_eq_true, ↓reduceIte]
      split
      · exact update_of_ne (by omega) _ _
      · rfl

theorem packSeg_foldl_mem (seg : ℕ → UInt8) (is : List ℕ) (st : SegState)
    (hroom : (nonzeros seg is).length ≤ st.sz) :
    (is.foldl (packSegStep seg) st).mem = store st.mem st.buffer (nonzeros seg is) := by
  induction is generalizing st with
  | nil => simp [nonzeros]
  | cons i is ih =>
    rw [foldl_cons]
    by_cases hi : seg i = 0
    · have hstep : packSegStep seg st i = st := by simp [packSegStep, hi]
      have hsame : nonzeros seg (i :: is) = nonzeros seg is := by simp [nonzeros, hi]
      rw [hsame] at hroom ⊢
      rw [hstep]
      exact ih st hroom
    · have hcons : nonzeros seg (i :: is) = seg i :: nonzeros seg is := by
        simp [nonzeros, hi]
      rw [hcons, length_cons] at hroom
      have hsz : st.sz > 0 := by omega
      have hstep : packSegStep seg st i =
          { header := st.header ||| 2 ^ i
            notzero := st.notzero + 1
            buffer := st.buffer + 1
            sz := st.sz - 1
            mem := update st.mem st.buffer (seg i) } := by
        simp [packSegStep, hi, hsz]
      rw [hstep, ih _ (by simp only; omega), hcons, ← store_singleton]
      exact store_store st.mem st.buffer [seg i] (nonzeros seg is)

/-! ## What a segment stands for -/

def eight (seg : ℕ → UInt8) : Bytes :=
  (range 8).map seg

def segHeader (seg : ℕ → UInt8) : UInt8 :=
  UInt8.ofNat ((range 8).foldl (packSegStep seg) ⟨0, 0, 0, 0, fun _ => 0⟩).header

theorem testBit_segHeader (seg : ℕ → UInt8) {i : ℕ} (hi : i < 8) :
    (segHeader seg).toNat.testBit i = decide (seg i ≠ 0) := by
  rw [segHeader, UInt8.toNat_ofNat']
  rw [Nat.testBit_mod_two_pow, (packSeg_foldl_count seg (range 8) _).2 i]
  simp [hi]

theorem segHeader_ne (h : (nonzeros seg (range 8)).length < 8) :
    segHeader seg ≠ 0xff := by
  intro hff
  have hall : ∀ i ∈ range 8, seg i ≠ 0 := by
    intro i hi
    have hbit := testBit_segHeader seg (mem_range.mp hi)
    rw [hff] at hbit
    have hones : ∀ i ∈ range 8, (0xff : UInt8).toNat.testBit i = true := by decide
    rw [hones i hi] at hbit
    exact of_decide_eq_true hbit.symm
  have hfull : nonzeros seg (range 8) = (range 8).map seg := by
    rw [nonzeros, filter_eq_self]
    intro v hv
    obtain ⟨i, hi, rfl⟩ := mem_map.mp hv
    simpa using hall i hi
  rw [hfull] at h
  simp at h

theorem bitsYield_nonzeros {header : UInt8} (src : Bytes)
    (h : ∀ i ∈ is, header.toNat.testBit i = decide (seg i ≠ 0)) :
    BitsYield header is (nonzeros seg is ++ src) src (is.map seg) := by
  induction is with
  | nil => exact bitsYield_nil
  | cons i is ih =>
    have hrest := ih fun i hi => h i (mem_cons_of_mem _ hi)
    have hbit := h i mem_cons_self
    by_cases hi : seg i = 0
    · have hsame : nonzeros seg (i :: is) = nonzeros seg is := by simp [nonzeros, hi]
      rw [hsame, map_cons, hi]
      exact bitsYield_zero (by simp [hbit, hi]) hrest
    · have hcons : nonzeros seg (i :: is) = seg i :: nonzeros seg is := by
        simp [nonzeros, hi]
      rw [hcons, map_cons]
      exact bitsYield_one (by simp [hbit, hi]) hrest

def Prefixes (out raw : Bytes) : Prop :=
  ∀ src r, Yields src r → Yields (out ++ src) (raw ++ r)

theorem prefixes_nil : Prefixes [] [] := fun _ _ h => h

theorem Prefixes.append {out raw out' raw' : Bytes} (h : Prefixes out raw)
    (h' : Prefixes out' raw') : Prefixes (out ++ out') (raw ++ raw') := by
  intro src r hsrc
  rw [append_assoc, append_assoc]
  exact h _ _ (h' _ _ hsrc)

theorem Prefixes.yields {out raw : Bytes} (h : Prefixes out raw) : Yields out raw := by
  have hyields := h [] [] yields_nil
  rwa [append_nil, append_nil] at hyields

theorem prefixes_segment (h : (nonzeros seg (range 8)).length < 8) :
    Prefixes (segHeader seg :: nonzeros seg (range 8)) (eight seg) := by
  intro src r hsrc
  apply yields_segment (segHeader_ne h) _ hsrc
  exact bitsYield_nonzeros src fun i hi => testBit_segHeader seg (mem_range.mp hi)

theorem prefixes_run {bytes : Bytes} {n : ℕ} (hpos : 0 < n) (hle : n ≤ 256)
    (hlen : bytes.length = n * 8) :
    Prefixes (0xff :: UInt8.ofNat (n - 1) :: bytes) bytes := by
  intro src r hsrc
  have hn : ((UInt8.ofNat (n - 1)).toNat + 1) * 8 = bytes.length := by
    rw [UInt8.toNat_ofNat_of_lt' (by change n - 1 < 256; omega), hlen]
    omega
  have hrun := @yields_run (bytes ++ src) r (UInt8.ofNat (n - 1))
  rw [hn, take_left, drop_left] at hrun
  exact hrun (by simp) hsrc

/-! ## The functions of the packer -/

def segMem (seg : ℕ → UInt8) (mem : ℕ → UInt8) (buffer : ℕ) (sz : ℤ) : ℕ → UInt8 :=
  ((range 8).foldl (packSegStep seg) ⟨0, 0, buffer + 1, sz - 1, mem⟩).mem

/-- `pack_seg` leaves a segment to a run: one without zeros, or one with few behind
another. -/
def InRun (seg : ℕ → UInt8) (n : ℕ) : Prop :=
  0 < n ∧ 6 ≤ (nonzeros seg (range 8)).length ∨
    (nonzeros seg (range 8)).length = 8

instance (seg : ℕ → UInt8) (n : ℕ) : Decidable (InRun seg n) :=
  inferInstanceAs (Decidable (_ ∨ _))

theorem packSeg_eq (seg mem : ℕ → UInt8) (buffer : ℕ) (sz : ℤ) (n : ℕ) :
    packSeg seg mem buffer sz n =
      if InRun seg n then (if n > 0 then 8 else 10, segMem seg mem buffer sz)
      else
        ((nonzeros seg (range 8)).length + 1,
          if sz - 1 < 0 then segMem seg mem buffer sz
          else update (segMem seg mem buffer sz) buffer (segHeader seg)) := by
  have hcount := (packSeg_foldl_count seg (range 8)
    ⟨0, 0, buffer + 1, sz - 1, mem⟩).1
  simp only [Nat.zero_add] at hcount
  have hheader : UInt8.ofNat ((range 8).foldl (packSegStep seg)
      ⟨0, 0, buffer + 1, sz - 1, mem⟩).header = segHeader seg := by
    rw [segHeader]
    apply congrArg
    apply Nat.eq_of_testBit_eq
    intro j
    rw [(packSeg_foldl_count seg (range 8) _).2,
      (packSeg_foldl_count seg (range 8) _).2]
  have hle := length_nonzeros_le seg (range 8)
  rw [length_range] at hle
  unfold packSeg
  simp only [hcount, hheader]
  by_cases h : InRun seg n
  · rw [if_pos h]
    unfold InRun at h
    split_ifs <;> first | rfl | omega
  · rw [if_neg h]
    unfold InRun at h
    split_ifs <;> first | rfl | omega

theorem segMem_of_lt (seg mem : ℕ → UInt8) (buffer : ℕ) (sz : ℤ) {j : ℕ} (hj : j ≤ buffer) :
    segMem seg mem buffer sz j = mem j :=
  packSeg_foldl_frame seg _ _ (Nat.lt_succ_of_le hj)

theorem packSeg_frame (seg mem : ℕ → UInt8) (buffer : ℕ) (sz : ℤ) (n : ℕ) {j : ℕ}
    (hj : j < buffer) : (packSeg seg mem buffer sz n).2 j = mem j := by
  have hmem := segMem_of_lt seg mem buffer sz hj.le
  rw [packSeg_eq]
  split
  · exact hmem
  · simp only
    split
    · exact hmem
    · rw [update_of_ne (by omega), hmem]

theorem packSeg_load {n : ℕ} (mem : ℕ → UInt8) (buffer : ℕ) {sz : ℤ} (h : ¬ InRun seg n)
    (hroom : (nonzeros seg (range 8)).length + 1 ≤ sz) :
    load (packSeg seg mem buffer sz n).2 buffer ((nonzeros seg (range 8)).length + 1) =
      segHeader seg :: nonzeros seg (range 8) := by
  rw [packSeg_eq, if_neg h, if_neg (by omega), Nat.add_comm, load_append]
  have hmem : segMem seg mem buffer sz = store mem (buffer + 1) (nonzeros seg (range 8)) :=
    packSeg_foldl_mem seg (range 8) _ (by simp only; omega)
  have hbehind : load (update (segMem seg mem buffer sz) buffer (segHeader seg))
      (buffer + 1) (nonzeros seg (range 8)).length = nonzeros seg (range 8) := by
    have hstored := load_store mem (buffer + 1) (nonzeros seg (range 8))
    rw [← hmem] at hstored
    refine Eq.trans ?_ hstored
    apply load_congr
    intro j hj _
    rw [update_of_ne (by omega)]
  rw [hbehind]
  simp [load]

def padded (src : Bytes) (j : ℕ) : UInt8 :=
  (src[j]?).getD 0

theorem writeFf_eq (src : Bytes) (start : ℕ) (mem : ℕ → UInt8) (des n : ℕ) :
    writeFf src start mem des n =
      store mem des (0xff :: UInt8.ofNat (n - 1) :: load (padded src) start (n * 8)) := by
  have hhead : update (update mem des 0xff) (des + 1)
      (UInt8.ofNat (n - 1)) = store mem des [0xff, UInt8.ofNat (n - 1)] := by
    rw [← store_singleton, ← store_singleton]
    exact store_store mem des [0xff] _
  have hsplit : ∀ l, store (store mem des [0xff, UInt8.ofNat (n - 1)]) (des + 2) l =
      store mem des (0xff :: UInt8.ofNat (n - 1) :: l) := fun l =>
    store_store mem des [0xff, UInt8.ofNat (n - 1)] l
  unfold writeFf
  simp only [hhead]
  split
  · rw [hsplit]
    congr 3
    apply ext_getElem
    · simp
      omega
    · intro j hj hj'
      rw [length_load] at hj'
      rw [getElem_load]
      simp [padded, getElem?_eq_getElem (show start + j < src.length by omega)]
  · have hsz : src.length - start = (src.drop start).length := by simp
    rw [hsz, store_store, hsplit]
    congr 3
    apply ext_getElem
    · simp
      omega
    · intro j hj hj'
      rw [getElem_load]
      by_cases hlt : start + j < src.length
      · rw [getElem_append_left (by simp; omega)]
        simp [padded, getElem?_eq_getElem hlt]
      · rw [getElem_append_right (by simp; omega)]
        simp [padded, getElem?_eq_none (show src.length ≤ start + j by omega)]

/-! ## One round -/

section Round

variable {src : Bytes} {st : PackState} {i : ℕ}

def roundMem (src : Bytes) (st : PackState) (i : ℕ) : ℕ → UInt8 :=
  (packSeg (segment src i) st.mem st.buffer st.bufsz st.ffN).2

def singleSize (src : Bytes) (i : ℕ) : ℕ :=
  (nonzeros (segment src i) (range 8)).length + 1

theorem packSeg_run (hin : InRun (segment src i) st.ffN) :
    packSeg (segment src i) st.mem st.buffer st.bufsz st.ffN
      = (if st.ffN > 0 then 8 else 10, roundMem src st i) := by
  refine Prod.ext ?_ rfl
  rw [packSeg_eq, if_pos hin]

theorem packSeg_single (hin : ¬ InRun (segment src i) st.ffN) :
    packSeg (segment src i) st.mem st.buffer st.bufsz st.ffN
      = (singleSize src i, roundMem src st i) := by
  refine Prod.ext ?_ rfl
  rw [packSeg_eq, if_neg hin]
  rfl

theorem singleSize_le {n : ℕ} (hin : ¬ InRun (segment src i) n) :
    singleSize src i ≤ 8 ∧ (0 < n → singleSize src i ≤ 6) := by
  have hle := length_nonzeros_le (segment src i) (range 8)
  rw [length_range] at hle
  unfold InRun at hin
  unfold singleSize
  omega

theorem packStep_begin (hin : InRun (segment src i) st.ffN) (hff : st.ffN = 0) :
    packStep src st i =
      { mem := roundMem src st i, buffer := st.buffer + 10, bufsz := st.bufsz - (10 : ℕ)
        ffSrcstart := i, ffDesstart := st.buffer, ffN := 1, size := st.size + 10 } := by
  unfold packStep
  rw [packSeg_run hin]
  simp [hff]

theorem packStep_last (hin : InRun (segment src i) st.ffN) (hpos : 0 < st.ffN)
    (hfull : st.ffN + 1 = 256) :
    packStep src st i =
      { st with
        mem := if st.bufsz - (8 : ℕ) ≥ 0 then
          writeFf src st.ffSrcstart (roundMem src st i) st.ffDesstart 256 else roundMem src st i
        buffer := st.buffer + 8, bufsz := st.bufsz - (8 : ℕ), ffN := 0
        size := st.size + 8 } := by
  unfold packStep
  rw [packSeg_run hin]
  simp [hpos, hfull]

theorem packStep_next (hin : InRun (segment src i) st.ffN) (hpos : 0 < st.ffN)
    (hfull : ¬ st.ffN + 1 = 256) :
    packStep src st i =
      { st with
        mem := roundMem src st i, buffer := st.buffer + 8, bufsz := st.bufsz - (8 : ℕ)
        ffN := st.ffN + 1, size := st.size + 8 } := by
  unfold packStep
  rw [packSeg_run hin]
  simp [hpos, hfull]

theorem packStep_single (hin : ¬ InRun (segment src i) st.ffN) (hff : st.ffN = 0) :
    packStep src st i =
      { st with
        mem := roundMem src st i, buffer := st.buffer + singleSize src i
        bufsz := st.bufsz - singleSize src i, size := st.size + singleSize src i } := by
  have hle := (singleSize_le hin).1
  unfold packStep
  rw [packSeg_single hin]
  dsimp only
  rw [if_neg (by omega), if_neg (by omega), if_neg (by omega)]

theorem packStep_end (hin : ¬ InRun (segment src i) st.ffN) (hpos : 0 < st.ffN) :
    packStep src st i =
      { st with
        mem := if st.bufsz - (singleSize src i : ℕ) ≥ 0 then
          writeFf src st.ffSrcstart (roundMem src st i) st.ffDesstart st.ffN
          else roundMem src st i
        buffer := st.buffer + singleSize src i, bufsz := st.bufsz - (singleSize src i : ℕ)
        ffN := 0, size := st.size + singleSize src i } := by
  have hle := (singleSize_le hin).2 hpos
  unfold packStep
  rw [packSeg_single hin]
  dsimp only
  rw [if_neg (by omega), if_neg (by omega), if_pos hpos]

end Round

/-! ## The loop -/

def settledSize (st : PackState) : ℕ :=
  if st.ffN = 0 then st.buffer else st.ffDesstart

structure Packing (src : Bytes) (bufsz : ℤ) (k : ℕ) (st : PackState) : Prop where
  size : st.size = st.buffer
  bufsz : st.bufsz = bufsz - st.buffer
  ffN : st.ffN < 256
  run : 0 < st.ffN →
    st.ffSrcstart + 8 * st.ffN = 8 * k ∧ st.ffDesstart + 2 + 8 * st.ffN = st.buffer
  done : 0 ≤ st.bufsz →
    Prefixes (load st.mem 0 (settledSize st)) (load (padded src) 0 (8 * k - 8 * st.ffN))

theorem prefixes_writeFf {src : Bytes} {start des n : ℕ}
    (h : Prefixes (load mem 0 des) (load (padded src) 0 start)) (hpos : 0 < n)
    (hle : n ≤ 256) :
    Prefixes (load (writeFf src start mem des n) 0 (des + 2 + 8 * n))
      (load (padded src) 0 (start + 8 * n)) := by
  have hrun := prefixes_run hpos hle (length_load (padded src) start (n * 8))
  have hboth := h.append hrun
  have hblock : load (writeFf src start mem des n) des (2 + 8 * n) =
      0xff :: UInt8.ofNat (n - 1) :: load (padded src) start (n * 8) := by
    have hlen : (0xff :: UInt8.ofNat (n - 1) :: load (padded src) start (n * 8)).length =
        2 + 8 * n := by
      simp
      omega
    rw [writeFf_eq, ← hlen, load_store]
  have hbefore : load (writeFf src start mem des n) 0 des = load mem 0 des := by
    rw [writeFf_eq]
    exact load_store_of_disjoint mem (.inl (by omega))
  have hsplit : des + 2 + 8 * n = des + (2 + 8 * n) := by omega
  rw [hsplit, load_append, hbefore, Nat.zero_add, hblock, load_append, Nat.zero_add,
    Nat.mul_comm 8 n]
  exact hboth

theorem prefixes_single {src : Bytes} {buffer k : ℕ}
    (h : Prefixes (load mem 0 buffer) (load (padded src) 0 (8 * k)))
    (hlt : (nonzeros (segment src (8 * k)) (range 8)).length < 8)
    (hmem : load mem buffer ((nonzeros (segment src (8 * k)) (range 8)).length + 1) =
      segHeader (segment src (8 * k)) :: nonzeros (segment src (8 * k)) (range 8)) :
    Prefixes (load mem 0 (buffer + ((nonzeros (segment src (8 * k)) (range 8)).length + 1)))
      (load (padded src) 0 (8 * (k + 1))) := by
  have hboth := h.append (prefixes_segment hlt)
  have height : eight (segment src (8 * k)) = load (padded src) (8 * k) 8 := rfl
  rw [load_append, Nat.zero_add, hmem, Nat.mul_add, Nat.mul_one, load_append, Nat.zero_add,
    ← height]
  exact hboth

namespace Packing

variable {src : Bytes} {bufsz : ℤ} {k : ℕ} {st : PackState}

theorem done_of_zero (h : Packing src bufsz k st) (hff : st.ffN = 0) (hroom : 0 ≤ st.bufsz) :
    Prefixes (load st.mem 0 st.buffer) (load (padded src) 0 (8 * k)) := by
  have hdone := h.done hroom
  rwa [settledSize, if_pos hff, hff, Nat.mul_zero, Nat.sub_zero] at hdone

theorem done_of_pos (h : Packing src bufsz k st) (hff : 0 < st.ffN) (hroom : 0 ≤ st.bufsz) :
    Prefixes (load st.mem 0 st.ffDesstart) (load (padded src) 0 st.ffSrcstart) := by
  have hdone := h.done hroom
  have hrun := (h.run hff).1
  have hstart : 8 * k - 8 * st.ffN = st.ffSrcstart := by omega
  rwa [settledSize, if_neg (by omega), hstart] at hdone

theorem load_round (i : ℕ) {n : ℕ} (hn : n ≤ st.buffer) :
    load (roundMem src st i) 0 n = load st.mem 0 n := by
  apply load_congr
  intro j _ hj
  exact packSeg_frame _ _ _ _ _ (by omega)

theorem step_run (h : Packing src bufsz k st) (hin : InRun (segment src (8 * k)) st.ffN) :
    Packing src bufsz (k + 1) (packStep src st (8 * k)) := by
  have hsize := h.size
  have hbufsz := h.bufsz
  have hffN := h.ffN
  by_cases hff : st.ffN = 0
  · rw [packStep_begin hin hff]
    constructor
    · simp only
      omega
    · simp only
      omega
    · exact Nat.one_lt_ofNat
    · intro _
      exact ⟨rfl, rfl⟩
    · intro hroom
      have hdone := h.done_of_zero hff (by simp only at hroom; omega)
      rw [settledSize, if_neg (by simp)]
      simp only [load_round (8 * k) (le_refl st.buffer)]
      exact hdone
  · have hpos : 0 < st.ffN := Nat.pos_of_ne_zero hff
    have hrun := h.run hpos
    by_cases hfull : st.ffN + 1 = 256
    · rw [packStep_last hin hpos hfull]
      constructor
      · simp only
        omega
      · simp only
        omega
      · simp
      · intro habs
        simp at habs
      · intro hroom
        simp only at hroom
        have hdone := h.done_of_pos hpos (by omega)
        rw [← load_round (8 * k) (show st.ffDesstart ≤ st.buffer by omega)] at hdone
        have hwritten := prefixes_writeFf hdone (n := 256) (by simp) le_rfl
        simp only [if_pos hroom]
        have hbuffer : st.buffer + 8 = st.ffDesstart + 2 + 8 * 256 := by omega
        have hend : 8 * (k + 1) - 8 * 0 = st.ffSrcstart + 8 * 256 := by omega
        rw [hbuffer, hend]
        exact hwritten
    · rw [packStep_next hin hpos hfull]
      constructor
      · simp only
        omega
      · simp only
        omega
      · simp only
        omega
      · simp only
        omega
      · intro hroom
        simp only at hroom
        have hdone := h.done_of_pos hpos (by omega)
        rw [← load_round (8 * k) (show st.ffDesstart ≤ st.buffer by omega)] at hdone
        have hend : 8 * (k + 1) - 8 * (st.ffN + 1) = st.ffSrcstart := by omega
        rw [hend]
        exact hdone

theorem step_single (h : Packing src bufsz k st)
    (hin : ¬ InRun (segment src (8 * k)) st.ffN) :
    Packing src bufsz (k + 1) (packStep src st (8 * k)) := by
  have hsize := h.size
  have hbufsz := h.bufsz
  have hffN := h.ffN
  obtain ⟨hm, hm'⟩ := singleSize_le hin
  have hlt : (nonzeros (segment src (8 * k)) (range 8)).length < 8 := hm
  have hload : (singleSize src (8 * k) : ℤ) ≤ st.bufsz →
      load (roundMem src st (8 * k)) st.buffer (singleSize src (8 * k)) =
        segHeader (segment src (8 * k)) :: nonzeros (segment src (8 * k)) (range 8) :=
    fun hroom => packSeg_load st.mem st.buffer hin hroom
  by_cases hff : st.ffN = 0
  · rw [packStep_single hin hff]
    constructor
    · simp only
      omega
    · simp only
      omega
    · exact hffN
    · exact fun hpos => absurd hff (Nat.pos_iff_ne_zero.mp hpos)
    · intro hroom
      simp only at hroom
      have hdone := h.done_of_zero hff (by omega)
      rw [← load_round (8 * k) (le_refl st.buffer)] at hdone
      have hsingle := prefixes_single hdone hlt (hload (by omega))
      simp only [hff, Nat.mul_zero, Nat.sub_zero]
      exact hsingle
  · have hpos : 0 < st.ffN := Nat.pos_of_ne_zero hff
    have hrun := h.run hpos
    rw [packStep_end hin hpos]
    constructor
    · simp only
      omega
    · simp only
      omega
    · simp
    · intro habs
      simp at habs
    · intro hroom
      simp only at hroom
      have hdone := h.done_of_pos hpos (by omega)
      rw [← load_round (8 * k) (show st.ffDesstart ≤ st.buffer by omega)] at hdone
      have hwritten := prefixes_writeFf hdone hpos (by omega)
      have hend : st.ffSrcstart + 8 * st.ffN = 8 * k := hrun.1
      rw [hrun.2, hend] at hwritten
      have hkept : load (writeFf src st.ffSrcstart (roundMem src st (8 * k)) st.ffDesstart st.ffN)
          st.buffer (singleSize src (8 * k)) =
          load (roundMem src st (8 * k)) st.buffer (singleSize src (8 * k)) := by
        rw [writeFf_eq]
        apply load_store_of_disjoint
        right
        simp only [length_cons, length_load]
        omega
      have hsingle := prefixes_single hwritten hlt (hkept.trans (hload (by omega)))
      simp only [Nat.mul_zero, Nat.sub_zero, if_pos hroom]
      exact hsingle

/-- **One segment.** -/
theorem step (h : Packing src bufsz k st) :
    Packing src bufsz (k + 1) (packStep src st (8 * k)) := by
  by_cases hin : InRun (segment src (8 * k)) st.ffN
  · exact h.step_run hin
  · exact h.step_single hin

/-- **All segments.** -/
theorem loop (src : Bytes) (mem : ℕ → UInt8) (bufsz : ℤ) (k : ℕ) :
    Packing src bufsz k (sprotoPackLoop src mem bufsz k) := by
  induction k with
  | zero =>
    constructor
    · rfl
    · exact (sub_zero bufsz).symm
    · exact Nat.zero_lt_succ _
    · intro habs
      exact absurd habs (lt_irrefl 0)
    · intro _
      exact prefixes_nil
  | succ k ih =>
    have hstep : sprotoPackLoop src mem bufsz (k + 1) =
        packStep src (sprotoPackLoop src mem bufsz k) (8 * k) := by
      rw [sprotoPackLoop, range_succ, foldl_append]
      rfl
    rw [hstep]
    exact ih.step

end Packing

/-! ## The round trip -/

def paddedToEight (x : Bytes) : Bytes :=
  x ++ replicate ((8 - x.length % 8) % 8) 0

theorem load_padded (x : Bytes) :
    load (padded x) 0 (8 * ((x.length + 7) / 8)) = paddedToEight x := by
  rw [paddedToEight]
  apply ext_getElem
  · simp
    omega
  · intro j hj hj'
    rw [getElem_load, Nat.zero_add]
    unfold padded
    by_cases hlt : j < x.length
    · simp [hlt]
    · rw [getElem_append_right (by omega)]
      simp [getElem?_eq_none (show x.length ≤ j by omega)]

theorem yields_sprotoPack (x : Bytes) (mem : ℕ → UInt8) (bufsz : ℤ)
    (hroom : (sprotoPack x mem bufsz).1 ≤ bufsz) :
    Yields (load (sprotoPack x mem bufsz).2 0 (sprotoPack x mem bufsz).1)
      (paddedToEight x) := by
  have h := Packing.loop x mem bufsz ((x.length + 7) / 8)
  rw [← load_padded]
  unfold sprotoPack at hroom ⊢
  simp only at hroom ⊢
  have hsize := h.size
  have hbufsz := h.bufsz
  have hleft : 0 ≤ (sprotoPackLoop x mem bufsz ((x.length + 7) / 8)).bufsz := by omega
  by_cases hff : (sprotoPackLoop x mem bufsz ((x.length + 7) / 8)).ffN = 0
  · rw [if_neg (by omega), hsize]
    exact (h.done_of_zero hff hleft).yields
  · have hpos := Nat.pos_of_ne_zero hff
    have hrun := h.run hpos
    have hwritten := prefixes_writeFf (h.done_of_pos hpos hleft) hpos h.ffN.le
    rw [if_pos ⟨hleft, hpos⟩, hsize, ← hrun.2, ← hrun.1]
    exact hwritten.yields

/-- What `sproto_unpack` returns for an input that stands for the bytes `r`, and what it
leaves in a buffer that is large enough. -/
theorem sprotoUnpack_of_yields {src r : Bytes} (h : Yields src r) (mem : ℕ → UInt8) (bufsz : ℤ) :
    (sprotoUnpack src mem bufsz).1 = toInt32 r.length ∧
      (r.length ≤ bufsz → (sprotoUnpack src mem bufsz).2 = store mem 0 r) := by
  have htook := h ⟨mem, 0, bufsz, 0⟩
  unfold sprotoUnpack
  simp only [htook.1, ↓reduceIte, htook.2.size, Nat.zero_add]
  exact ⟨trivial, htook.2.mem⟩

/-- **The 0-packing is lossless.**  Whatever the bytes `x` and what the buffers held
before: when `sproto_pack` has a destination of the size that it returns, `sproto_unpack` of
what it leaves there returns the length of `x` padded with zeros to a multiple of eight, and
leaves these bytes in every destination that is large enough.  And for every input and
every two destinations `sproto_unpack` returns the same size, that of the bytes which the
input stands for, and it changes nothing behind the destination.
SRC: sproto.c:1272-1430 -/
theorem sproto_pack_unpack : (∀ (x : Bytes) (mem mem' : ℕ → UInt8) (bufsz bufsz' : ℤ),
      (sprotoPack x mem bufsz).1 ≤ bufsz → (paddedToEight x).length ≤ bufsz' →
      bufsz' < 2 ^ 31 →
        let packed := load (sprotoPack x mem bufsz).2 0 (sprotoPack x mem bufsz).1
        let unpacked := sprotoUnpack packed mem' bufsz'
        unpacked.1 = (paddedToEight x).length ∧
          load unpacked.2 0 (paddedToEight x).length = paddedToEight x) ∧
    ∀ (y : Bytes) (mem mem' : ℕ → UInt8) (bufsz bufsz' : ℤ),
      (sprotoUnpack y mem bufsz).1 = (sprotoUnpack y mem' bufsz').1 ∧
        ((sprotoUnpack y mem bufsz).1 = -1 ∨ ∃ r, Yields y r ∧
          (sprotoUnpack y mem bufsz).1 = toInt32 r.length) ∧
        ∀ j : ℕ, bufsz ≤ j → (sprotoUnpack y mem bufsz).2 j = mem j := by
  constructor
  · intro x mem mem' bufsz bufsz' hroom hroom' hint
    have hyields := yields_sprotoPack x mem bufsz hroom
    have hunpack := sprotoUnpack_of_yields hyields mem' bufsz'
    constructor
    · rw [hunpack.1, toInt32_of_lt (by omega)]
    · rw [hunpack.2 hroom', load_store]
  · intro y mem mem' bufsz bufsz'
    have hinside := KeptBehind.loop y ⟨mem, 0, bufsz, 0⟩
    have hmem : ∀ j : ℕ, bufsz ≤ j → (sprotoUnpack y mem bufsz).2 j = mem j := by
      intro j hj
      exact hinside.mem j (by simpa using hj)
    cases yields_or_fails y with
    | inl hfails =>
      have hneg : ∀ mem bufsz, (sprotoUnpack y mem bufsz).1 = -1 := by
        unfold sprotoUnpack
        simp [hfails]
      rw [hneg, hneg]
      exact ⟨rfl, .inl rfl, hmem⟩
    | inr hyields =>
      obtain ⟨r, hr⟩ := hyields
      have hsize := sprotoUnpack_of_yields hr
      rw [(hsize mem bufsz).1, (hsize mem' bufsz').1]
      exact ⟨rfl, .inr ⟨r, hr, rfl⟩, hmem⟩

/-- A full segment, one with six bytes that goes to its run, and a short one. -/
theorem sproto_pack_unpack_short :
    let x : Bytes := [1, 2, 3, 4, 5, 6, 7, 8, 9, 10, 11, 0, 0, 12, 13, 14, 1]
    let packed := load (sprotoPack x (fun _ => 0xaa) 24).2 0 (sprotoPack x (fun _ => 0xaa) 24).1
    let unpacked := sprotoUnpack packed (fun _ => 0xbb) 24
    (sprotoPack x (fun _ => 0xaa) 24).1 = 20 ∧ unpacked.1 = 24 ∧
      load unpacked.2 0 24 = x ++ [0, 0, 0, 0, 0, 0, 0] := by
  have h := sproto_pack_unpack.1 [1, 2, 3, 4, 5, 6, 7, 8, 9, 10, 11, 0, 0, 12, 13, 14, 1]
    (fun _ => 0xaa) (fun _ => 0xbb) 24 24 (by decide +kernel) (by decide) (by decide)
  exact ⟨by decide +kernel, h.1, h.2⟩

end Skynet.Analysis
