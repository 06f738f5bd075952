import Skynet.Analysis.SprotoPacking

/-!
# The output bound of the packer

The packed bytes are more than the source only where a run of segments begins.  Between two runs
there are 256 segments or a segment with three zeros, which saves what the next run costs.  Nothing
is written behind the buffer.  The sizes are `int`s, and `lpack` makes them of a `size_t`.
-/

namespace Skynet.Analysis

open Library Model List Option

variable {src : Bytes} {seg mem : ℕ → UInt8} {bufsz : ℤ} {i k : ℕ} {st : PackState}

/-! ## The size -/

theorem length_nonzeros_segment (src : Bytes) (i : ℕ) :
    (nonzeros (segment src i) (range 8)).length ≤ src.length - i := by
  have hkeep (l : List ℕ) : (nonzeros (segment src i) l).length
      ≤ (l.filter fun j => i + j < src.length).length := by
    induction l with
    | nil => exact le_rfl
    | cons j l ih =>
      by_cases hj : i + j < src.length
      · rw [filter_cons_of_pos (by simpa using hj), length_cons]
        refine Nat.le_trans ?_ (Nat.succ_le_succ ih)
        rw [nonzeros, nonzeros, map_cons, filter_cons]
        split <;> simp
      · have hzero : segment src i j = 0 := by
          rw [Model.segment, getElem?_eq_none (Nat.not_lt.mp hj)]
          rfl
        rw [filter_cons_of_neg (by simpa using hj)]
        refine Nat.le_trans (le_of_eq ?_) ih
        rw [nonzeros, map_cons, filter_cons_of_neg (by simp [hzero]), nonzeros]
  refine (hkeep (range 8)).trans ?_
  have hsub : (range 8).filter (fun j => i + j < src.length)
      ⊆ range (src.length - i) := by
    intro j hj
    have hlt : i + j < src.length := by simpa using (mem_filter.mp hj).2
    exact mem_range.mpr (by omega)
  have hnodup : ((range 8).filter fun j => i + j < src.length).Nodup :=
    nodup_range.filter _
  exact (Nodup.subperm hnodup hsub).length_le.trans (length_range ..).le

theorem singleSize_pos (src : Bytes) (i : ℕ) : 0 < singleSize src i := Nat.succ_pos _

def SameCount (st st' : PackState) : Prop :=
  st.size = st'.size ∧ st.ffN = st'.ffN

theorem SameCount.step {st' : PackState} (h : SameCount st st') (src : Bytes) (i : ℕ) :
    SameCount (packStep src st i) (packStep src st' i) := by
  obtain ⟨hsize, hffN⟩ := h
  by_cases hin : InRun (segment src i) st.ffN
  · have hin' : InRun (segment src i) st'.ffN := hffN ▸ hin
    by_cases hff : st.ffN = 0
    · rw [packStep_begin hin hff, packStep_begin hin' (hffN ▸ hff)]
      exact ⟨congrArg (· + 10) hsize, rfl⟩
    · have hpos := Nat.pos_of_ne_zero hff
      by_cases hfull : st.ffN + 1 = 256
      · rw [packStep_last hin hpos hfull, packStep_last hin' (hffN ▸ hpos) (hffN ▸ hfull)]
        exact ⟨congrArg (· + 8) hsize, rfl⟩
      · rw [packStep_next hin hpos hfull, packStep_next hin' (hffN ▸ hpos) (hffN ▸ hfull)]
        exact ⟨congrArg (· + 8) hsize, congrArg (· + 1) hffN⟩
  · have hin' : ¬ InRun (segment src i) st'.ffN := hffN ▸ hin
    by_cases hff : st.ffN = 0
    · rw [packStep_single hin hff, packStep_single hin' (hffN ▸ hff)]
      exact ⟨congrArg (· + singleSize src i) hsize, hffN⟩
    · have hpos := Nat.pos_of_ne_zero hff
      rw [packStep_end hin hpos, packStep_end hin' (hffN ▸ hpos)]
      exact ⟨congrArg (· + singleSize src i) hsize, rfl⟩

/-- What `k` segments may take: a run costs two bytes more than its segments.  The last segment may
have bytes that are not in the source. -/
def packBudget (src : Bytes) (k full ffN : ℕ) : ℕ :=
  if 8 * k ≤ src.length then 8 * k + 2 * full + if 0 < ffN then 2 else 0
  else src.length + 2 * ((k + 255) / 256) + 2

def InBudget (src : Bytes) (k : ℕ) (st : PackState) : Prop :=
  ∃ full, 256 * full + st.ffN ≤ k ∧ st.size ≤ packBudget src k full st.ffN

theorem InBudget.step (h : InBudget src k st) (hk : 8 * k < src.length) :
    InBudget src (k + 1) (packStep src st (8 * k)) := by
  obtain ⟨full, hruns, hsize⟩ := h
  have hreal := length_nonzeros_segment src (8 * k)
  unfold packBudget at hsize
  by_cases hin : InRun (segment src (8 * k)) st.ffN
  · have hsix : 6 ≤ src.length - 8 * k := by
      unfold InRun at hin
      omega
    by_cases hff : st.ffN = 0
    · rw [packStep_begin hin hff]
      refine ⟨full, ?_, ?_⟩
      · dsimp only
        omega
      · unfold packBudget
        dsimp only
        split_ifs at hsize ⊢ <;> omega
    · have hpos := Nat.pos_of_ne_zero hff
      by_cases hfull : st.ffN + 1 = 256
      · rw [packStep_last hin hpos hfull]
        refine ⟨full + 1, ?_, ?_⟩
        · dsimp only
          omega
        · unfold packBudget
          dsimp only
          split_ifs at hsize ⊢ <;> omega
      · rw [packStep_next hin hpos hfull]
        refine ⟨full, ?_, ?_⟩
        · dsimp only
          omega
        · unfold packBudget
          dsimp only
          split_ifs at hsize ⊢ <;> omega
  · obtain ⟨hm, hm'⟩ := singleSize_le hin
    have hone : singleSize src (8 * k) ≤ src.length - 8 * k + 1 := Nat.succ_le_succ hreal
    by_cases hff : st.ffN = 0
    · rw [packStep_single hin hff]
      refine ⟨full, ?_, ?_⟩
      · dsimp only
        omega
      · unfold packBudget
        dsimp only
        split_ifs at hsize ⊢ <;> omega
    · have hpos := Nat.pos_of_ne_zero hff
      rw [packStep_end hin hpos]
      refine ⟨full, ?_, ?_⟩
      · dsimp only
        omega
      · unfold packBudget
        dsimp only
        split_ifs at hsize ⊢ <;> omega

/-! ## What is written -/

theorem packSeg_foldl_behind (seg : ℕ → UInt8) (is : List ℕ) (st : SegState) {j : ℕ}
    (hj : (st.buffer : ℤ) + st.sz ≤ j) : (is.foldl (packSegStep seg) st).mem j = st.mem j := by
  induction is generalizing st with
  | nil => rfl
  | cons i is ih =>
    rw [foldl_cons]
    by_cases hi : seg i = 0
    · have hstep : packSegStep seg st i = st := by simp [packSegStep, hi]
      rw [hstep]
      exact ih st hj
    · by_cases hsz : st.sz > 0
      · have hstep : packSegStep seg st i =
            { header := st.header ||| 2 ^ i
              notzero := st.notzero + 1
              buffer := st.buffer + 1
              sz := st.sz - 1
              mem := Function.update st.mem st.buffer (seg i) } := by
          simp [packSegStep, hi, hsz]
        rw [hstep, ih]
        · exact Function.update_of_ne (by omega) ..
        · dsimp only
          omega
      · have hstep : packSegStep seg st i =
            { st with header := st.header ||| 2 ^ i, notzero := st.notzero + 1 } := by
          simp [packSegStep, hi, hsz]
        rw [hstep, ih]
        exact hj

theorem roundMem_behind (src : Bytes) (st : PackState) (i : ℕ) {j : ℕ}
    (hj : (st.buffer : ℤ) + st.bufsz ≤ j) :
    roundMem src st i j = st.mem j := by
  have hloop : segMem (segment src i) st.mem st.buffer st.bufsz j = st.mem j :=
    packSeg_foldl_behind (segment src i) (range 8)
      ⟨0, 0, st.buffer + 1, st.bufsz - 1, st.mem⟩ (by dsimp only; omega)
  rw [roundMem, packSeg_eq]
  split
  · exact hloop
  · dsimp only
    split
    · exact hloop
    · rw [Function.update_of_ne (by omega), hloop]

theorem writeFf_behind (src : Bytes) (start : ℕ) (mem : ℕ → UInt8) {des n j : ℕ}
    (hj : des + 2 + 8 * n ≤ j) : writeFf src start mem des n j = mem j := by
  rw [writeFf_eq]
  refine store_of_not_mem mem (.inr ?_)
  simp only [length_cons, length_load]
  omega

def KeptOutside (mem : ℕ → UInt8) (bufsz : ℤ) (mem' : ℕ → UInt8) : Prop :=
  ∀ j : ℕ, bufsz ≤ j → mem' j = mem j

theorem KeptOutside.step (hkept : KeptOutside mem bufsz st.mem) (h : Packing src bufsz k st) :
    KeptOutside mem bufsz (packStep src st (8 * k)).mem := by
  intro j hj
  have hbufsz := h.bufsz
  have hround : roundMem src st (8 * k) j = mem j :=
    (roundMem_behind src st (8 * k) (by omega)).trans (hkept j hj)
  by_cases hin : InRun (segment src (8 * k)) st.ffN
  · by_cases hff : st.ffN = 0
    · rw [packStep_begin hin hff]
      exact hround
    · have hpos := Nat.pos_of_ne_zero hff
      by_cases hfull : st.ffN + 1 = 256
      · rw [packStep_last hin hpos hfull]
        dsimp only
        split
        · have hrun := (h.run hpos).2
          rw [writeFf_behind _ _ _ (by omega), hround]
        · exact hround
      · rw [packStep_next hin hpos hfull]
        exact hround
  · by_cases hff : st.ffN = 0
    · rw [packStep_single hin hff]
      exact hround
    · have hpos := Nat.pos_of_ne_zero hff
      rw [packStep_end hin hpos]
      dsimp only
      split
      · have hrun := (h.run hpos).2
        rw [writeFf_behind _ _ _ (by omega), hround]
      · exact hround

/-! ## All segments -/

theorem sprotoPackLoop_succ (src : Bytes) (mem : ℕ → UInt8) (bufsz : ℤ) (k : ℕ) :
    sprotoPackLoop src mem bufsz (k + 1)
      = packStep src (sprotoPackLoop src mem bufsz k) (8 * k) := by
  rw [sprotoPackLoop, range_succ, foldl_append]
  rfl

def packSize (src : Bytes) (k : ℕ) : ℕ :=
  (sprotoPackLoop src (fun _ => 0) 0 k).size

theorem loop_size (src : Bytes) (mem : ℕ → UInt8) (bufsz : ℤ) (k : ℕ) :
    (sprotoPackLoop src mem bufsz k).size = packSize src k := by
  have hsame : SameCount (sprotoPackLoop src mem bufsz k)
      (sprotoPackLoop src (fun _ => 0) 0 k) := by
    induction k with
    | zero => exact ⟨rfl, rfl⟩
    | succ k ih =>
      rw [sprotoPackLoop_succ, sprotoPackLoop_succ]
      exact ih.step src (8 * k)
  exact hsame.1

theorem packSize_succ (src : Bytes) (k : ℕ) : packSize src k < packSize src (k + 1) := by
  unfold packSize
  rw [sprotoPackLoop_succ]
  generalize sprotoPackLoop src (fun _ => 0) 0 k = st
  by_cases hin : InRun (segment src (8 * k)) st.ffN
  · by_cases hff : st.ffN = 0
    · rw [packStep_begin hin hff]
      dsimp only
      omega
    · have hpos := Nat.pos_of_ne_zero hff
      by_cases hfull : st.ffN + 1 = 256
      · rw [packStep_last hin hpos hfull]
        dsimp only
        omega
      · rw [packStep_next hin hpos hfull]
        dsimp only
        omega
  · have hone := singleSize_pos src (8 * k)
    by_cases hff : st.ffN = 0
    · rw [packStep_single hin hff]
      dsimp only
      omega
    · rw [packStep_end hin (Nat.pos_of_ne_zero hff)]
      dsimp only
      omega

theorem le_packSize (src : Bytes) (k : ℕ) : k ≤ packSize src k := by
  induction k with
  | zero => exact Nat.zero_le _
  | succ k ih => exact Nat.lt_of_le_of_lt ih (packSize_succ src k)

theorem loop_budget (src : Bytes) (hk : 8 * k < src.length + 8) :
    InBudget src k (sprotoPackLoop src (fun _ => 0) 0 k) := by
  induction k with
  | zero => exact ⟨0, le_rfl, Nat.zero_le _⟩
  | succ k ih =>
    rw [sprotoPackLoop_succ]
    exact (ih (by omega)).step (by omega)

theorem packSize_le (src : Bytes) : packSize src ((src.length + 7) / 8) ≤ packMaxsz src.length := by
  obtain ⟨full, hruns, hsize⟩ := loop_budget src (k := (src.length + 7) / 8) (by omega)
  refine hsize.trans ?_
  unfold packBudget packMaxsz
  split_ifs <;> omega

theorem loop_kept (src : Bytes) (mem : ℕ → UInt8) (bufsz : ℤ) (k : ℕ) :
    KeptOutside mem bufsz (sprotoPackLoop src mem bufsz k).mem := by
  induction k with
  | zero => exact fun _ _ => rfl
  | succ k ih =>
    rw [sprotoPackLoop_succ]
    exact ih.step (Packing.loop src mem bufsz k)

/-! ## Integers -/

theorem packLoopInt_some (h : packLoopInt src mem bufsz k = some st) :
    st = sprotoPackLoop src mem bufsz k ∧ (0 < k → -2 ^ 31 ≤ st.bufsz) := by
  induction k generalizing st with
  | zero => exact ⟨(some.inj h).symm, fun hpos => absurd hpos (Nat.lt_irrefl 0)⟩
  | succ k ih =>
    obtain ⟨st₁, hloop, hstep⟩ := bind_eq_some_iff.mp h
    obtain ⟨rfl, -⟩ := ih hloop
    unfold packStepInt at hstep
    dsimp only at hstep
    split at hstep
    · next hint =>
      cases hstep
      exact ⟨(sprotoPackLoop_succ ..).symm, fun _ => hint.2.2⟩
    · cases hstep

theorem loop_bufsz (src : Bytes) (mem : ℕ → UInt8) (bufsz : ℤ) (k : ℕ) :
    (sprotoPackLoop src mem bufsz k).bufsz = bufsz - packSize src k := by
  have h := Packing.loop src mem bufsz k
  rw [h.bufsz, ← h.size, loop_size]

theorem packLoopInt_eq (mem : ℕ → UInt8) (hk : 8 * k < 2 ^ 31)
    (hsize : packSize src k < 2 ^ 31) (hbufsz : 0 ≤ bufsz) :
    packLoopInt src mem bufsz k = some (sprotoPackLoop src mem bufsz k) := by
  induction k with
  | zero => rfl
  | succ k ih =>
    have hless := packSize_succ src k
    have hloop := loop_size src mem bufsz (k + 1)
    have hleft := loop_bufsz src mem bufsz (k + 1)
    rw [packLoopInt, ih (by omega) (by omega), bind_some, packStepInt,
      ← sprotoPackLoop_succ]
    exact if_pos ⟨by omega, by omega, by omega⟩

theorem writeFf_kept {mem' : ℕ → UInt8} (h : KeptOutside mem bufsz mem') {start des n : ℕ}
    (hroom : (des + 2 + 8 * n : ℕ) ≤ bufsz) :
    KeptOutside mem bufsz (writeFf src start mem' des n) := by
  intro j hj
  rw [writeFf_behind _ _ _ (by omega)]
  exact h j hj

theorem sprotoPackInt_eq (src : Bytes) (mem : ℕ → UInt8) {size : ℕ}
    (hsize : packSize src ((src.length + 7) / 8) = size) (hlt : packMaxsz src.length < 2 ^ 31)
    (hbufsz : 0 ≤ bufsz) :
    ∃ mem', sprotoPackInt src mem bufsz = some (size, mem') ∧ KeptOutside mem bufsz mem' := by
  have hle := packSize_le src
  have hk : 8 * ((src.length + 7) / 8) < 2 ^ 31 := by
    unfold packMaxsz at hlt
    omega
  have hloop := packLoopInt_eq mem hk (Nat.lt_of_le_of_lt hle hlt) hbufsz
  have hkept := loop_kept src mem bufsz ((src.length + 7) / 8)
  have hstate := Packing.loop src mem bufsz ((src.length + 7) / 8)
  refine ⟨(sprotoPack src mem bufsz).2, ?_, ?_⟩
  · rw [sprotoPackInt, hloop, map_some, loop_size, hsize]
    rfl
  · unfold sprotoPack
    dsimp only
    split
    · next hopen =>
      refine writeFf_kept hkept ?_
      have hrun := (hstate.run hopen.2).2
      have hleft := hstate.bufsz
      omega
    · exact hkept

/-! ## The caller -/

theorem expandBuffer_ge {rounds osz n : ℕ} {nsz : ℤ} (h : expandBuffer rounds osz nsz = .ok n) :
    nsz ≤ n := by
  induction rounds generalizing osz with
  | zero => cases h
  | succ rounds ih =>
    rw [expandBuffer] at h
    split at h
    · cases h
    · split at h
      · exact ih h
      · split at h
        · cases h
        · cases h
          omega

theorem expandBuffer_error {rounds osz : ℕ} {nsz : ℤ} {e : LpackError}
    (h : expandBuffer rounds osz nsz = .error e) : e = .tooLarge ∨ e = .expand := by
  induction rounds generalizing osz with
  | zero =>
    cases h
    exact .inr rfl
  | succ rounds ih =>
    rw [expandBuffer] at h
    split at h
    · cases h
      exact .inr rfl
    · split at h
      · exact ih h
      · split at h
        · cases h
          exact .inl rfl
        · cases h

theorem lpackBuffer_ge {osz maxsz n : ℕ} (hlt : maxsz < 2 ^ 31)
    (h : lpackBuffer osz maxsz = .ok n) : maxsz ≤ n := by
  unfold lpackBuffer at h
  split at h
  · rw [toInt32_of_lt hlt] at h
    exact_mod_cast expandBuffer_ge h
  · next hroom =>
    cases h
    exact Nat.not_lt.mp hroom

theorem lpackBuffer_error {osz maxsz : ℕ} {e : LpackError} (h : lpackBuffer osz maxsz = .error e) :
    e = .tooLarge ∨ e = .expand := by
  unfold lpackBuffer at h
  split at h
  · exact expandBuffer_error h
  · cases h

def LpackInside (mem : ℕ → UInt8) : Except LpackError (ℕ × (ℕ → UInt8) × Bytes) → Prop
  | .ok (osz, mem', _) => KeptOutside mem osz mem'
  | .error .tooLarge | .error .expand => True
  | .error .overflow | .error (.packing _) => False

/-- Whatever the buffer, `sproto_pack` returns the same size, which is not more than `maxsz`, and
writes nothing behind the buffer; so `lpack` neither fails its check nor overruns its own. -/
def PackBounded (src : Bytes) : Prop :=
  (∃ size ≤ packMaxsz src.length, ∀ (bufsz : ℕ) (mem : ℕ → UInt8), bufsz < 2 ^ 31 →
    ∃ mem', sprotoPackInt src mem bufsz = some (size, mem') ∧ KeptOutside mem bufsz mem')
  ∧ ∀ (osz : ℕ) (mem : ℕ → UInt8), LpackInside mem (lpack osz mem src)

theorem toInt32_wraps {n : ℕ} (h : 2 ^ 31 ≤ n) (hn : n < 2 ^ 32) : toInt32 n = n - 2 ^ 32 := by
  unfold toInt32
  rw [Int.bmod_def]
  split <;> omega

theorem lpack_inside (osz : ℕ) (mem : ℕ → UInt8) (hlt : packMaxsz src.length < 2 ^ 31) :
    LpackInside mem (lpack osz mem src) := by
  have hle : src.length < 2 ^ 31 := by
    unfold packMaxsz at hlt
    omega
  have hsrc : src.take (toInt32 src.length).toNat = src := by
    rw [toInt32_of_lt hle, Int.toNat_natCast, take_length]
  obtain ⟨mem', hpack, hkept⟩ := sprotoPackInt_eq src mem rfl hlt
    (Int.natCast_nonneg (packMaxsz src.length))
  have hsize : ¬ packMaxsz src.length < packSize src ((src.length + 7) / 8) :=
    Nat.not_lt.mpr (packSize_le src)
  unfold lpack
  dsimp only
  rw [hsrc, toInt32_of_lt hlt, hpack]
  cases hbuffer : lpackBuffer osz (packMaxsz src.length) with
  | error e =>
    rcases lpackBuffer_error hbuffer with rfl | rfl
    · trivial
    · trivial
  | ok n =>
    have hn := lpackBuffer_ge hlt hbuffer
    change LpackInside mem (if _ then _ else _)
    rw [if_neg hsize]
    exact fun j hj => hkept j ((Int.ofNat_le.mpr hn).trans hj)

theorem sprotoPackInt_none (mem : ℕ → UInt8) (hint : src.length < 2 ^ 31)
    (hlarge : 2 ^ 31 ≤ packMaxsz src.length) :
    sprotoPackInt src mem (toInt32 (packMaxsz src.length)) = none := by
  rw [sprotoPackInt, map_eq_none_iff, eq_none_iff_forall_ne_some]
  intro st hloop
  obtain ⟨rfl, hbufsz⟩ := packLoopInt_some hloop
  have hsize := le_packSize src ((src.length + 7) / 8)
  rw [loop_bufsz, toInt32_wraps hlarge (by unfold packMaxsz; omega)] at hbufsz
  unfold packMaxsz at hlarge hbufsz
  omega

theorem expandBuffer_wraps {nsz : ℤ} (h : nsz < 0) :
    expandBuffer 32 encodeBuffersize nsz = .ok 4100 := by
  have hosz : encodeBuffersize * 2 = 4100 := rfl
  rw [expandBuffer, hosz, if_neg (by decide), if_neg (by omega), if_neg (by decide)]

theorem lpack_overflows (mem : ℕ → UInt8) (hint : src.length < 2 ^ 31)
    (hlarge : 2 ^ 31 ≤ packMaxsz src.length) :
    lpack encodeBuffersize mem src = .error .overflow := by
  have hsrc : src.take (toInt32 src.length).toNat = src := by
    rw [toInt32_of_lt hint, Int.toNat_natCast, take_length]
  have hneg := toInt32_neg hlarge (by unfold packMaxsz; omega)
  have hosz : encodeBuffersize < packMaxsz src.length := Nat.lt_of_lt_of_le (by decide) hlarge
  unfold lpack
  dsimp only
  rw [hsrc, lpackBuffer, if_pos hosz, expandBuffer_wraps hneg,
    sprotoPackInt_none mem hint hlarge]
  rfl

theorem not_packBounded (hint : src.length < 2 ^ 31) (hlarge : 2 ^ 31 ≤ packMaxsz src.length) :
    ¬ PackBounded src := by
  intro h
  have hinside := h.2 encodeBuffersize fun _ => 0
  rw [lpack_overflows _ hint hlarge] at hinside
  exact hinside

/-- For an input whose length is an `int` the bound holds if and only if `maxsz` is one, too. -/
theorem pack_bounded_iff (src : Bytes) (hint : src.length < 2 ^ 31) :
    PackBounded src ↔ packMaxsz src.length < 2 ^ 31 := by
  constructor
  · intro h
    by_contra hlarge
    exact not_packBounded hint (Nat.not_lt.mp hlarge) h
  · intro hlt
    exact ⟨⟨_, packSize_le src, fun bufsz mem _ =>
      sprotoPackInt_eq src mem rfl hlt (Int.natCast_nonneg bufsz)⟩,
      fun osz mem => lpack_inside osz mem hlt⟩

def mixedSegments : Bytes :=
  replicate 16 1 ++ [1, 0, 2, 0, 0, 0, 0, 0] ++ replicate 7 3 ++ [0] ++ replicate 24 1 ++ [5]

/-- Two runs of full segments, with a segment of two bytes, one of seven and a last one. -/
theorem pack_bounded_three : PackBounded mixedSegments :=
  (pack_bounded_iff mixedSegments (by decide)).mpr (by decide)

/-- 2^31 - 1 zeros: `sproto_pack` gets a negative `bufsz`, which it counts down below the least
`int`. -/
theorem pack_unbounded : ¬ PackBounded (replicate (2 ^ 31 - 1) 0) := by
  refine not_packBounded ?_ ?_
  · rw [length_replicate]
    decide
  · rw [length_replicate, packMaxsz]
    decide

end Skynet.Analysis
