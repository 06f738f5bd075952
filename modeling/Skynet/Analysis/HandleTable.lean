import Mathlib.Data.List.Induction
import Skynet.Library.LittleEndian
import Skynet.Model.Handle

/-!
# The probe window

`skynet_handle_register` looks at `slot_size` handles from `handle_index` on and wraps
from `HANDLE_MASK` to 1.  The `i`-th handle it looks at is `tried index i`, and the
residues of the window decide which slots are looked at: every slot but slot 0 always,
and slot 0 unless the window crosses the wrap, for the skipped handle 0 is the one that
would have fallen on it.

`TableOk t h` says that every stored context stands in the slot its handle `h` is
congruent to.  The registration keeps it if a rehash reads handles that put the contexts
where `h` does.
-/

namespace Skynet.Analysis

open Library Model Nat

variable {γ : Type}

/-- The handle the probe looks at in round `i` from `index` on: the handles `1` to
`HANDLE_MASK` in a cycle. -/
def tried (index i : ℕ) : ℕ := (index - 1 + i) % handleMask + 1

def WindowWraps (t : HandleStorage γ) : Prop :=
  t.handleIndex ≤ handleMask ∧ handleMask + 1 < t.handleIndex + t.slotSize

instance (t : HandleStorage γ) : Decidable (WindowWraps t) := instDecidableAnd

theorem tried_pos (index i : ℕ) : 1 ≤ tried index i := Nat.le_add_left 1 _

theorem tried_le (index i : ℕ) : tried index i ≤ handleMask := by
  unfold tried handleMask
  omega

theorem wrapHandle_eq_tried {index : ℕ} (h1 : 1 ≤ index) (h2 : index ≤ handleMask + 1) :
    wrapHandle index = tried index 0 := by
  unfold wrapHandle tried handleMask at *
  split <;> omega

theorem tried_wrapHandle {index : ℕ} (h1 : 1 ≤ index) (h2 : index ≤ handleMask + 1) (i : ℕ) :
    tried (wrapHandle index + 1) i = tried index (i + 1) := by
  unfold wrapHandle tried handleMask at *
  split <;> omega

theorem wrapHandle_succ_le {index : ℕ} (h2 : index ≤ handleMask + 1) :
    wrapHandle index + 1 ≤ handleMask + 1 := by
  unfold wrapHandle handleMask at *
  split <;> omega

/-- **What the probe finds**: one of the tried handles, with an empty slot.
SRC: skynet_handle.c:43-58 -/
theorem probe_some {t : HandleStorage γ} {n index handle : ℕ} (h1 : 1 ≤ index)
    (h2 : index ≤ handleMask + 1) (h : probe t n index = some handle) :
    (∃ i < n, handle = tried index i) ∧ t.slot (handle &&& (t.slotSize - 1)) = none := by
  induction n generalizing index with
  | zero => cases h
  | succ n ih =>
    rw [probe] at h
    split at h
    · next hfree =>
      cases h
      exact ⟨⟨0, succ_pos n, wrapHandle_eq_tried h1 h2⟩, by simpa using hfree⟩
    · obtain ⟨⟨i, hi, heq⟩, hfree⟩ := ih (Nat.le_add_left 1 _) (wrapHandle_succ_le h2) h
      exact ⟨⟨i + 1, succ_lt_succ hi, by rw [heq, tried_wrapHandle h1 h2]⟩, hfree⟩

/-- When the probe fails, the slot of every tried handle is occupied. -/
theorem probe_none {t : HandleStorage γ} {n index : ℕ} (h1 : 1 ≤ index)
    (h2 : index ≤ handleMask + 1) (h : probe t n index = none) :
    ∀ i < n, t.slot (tried index i &&& (t.slotSize - 1)) ≠ none := by
  induction n generalizing index with
  | zero => intro i hi; omega
  | succ n ih =>
    rw [probe] at h
    split at h
    · cases h
    · next hfull =>
      intro i hi
      cases i with
      | zero =>
        rw [← wrapHandle_eq_tried h1 h2]
        simpa using hfull
      | succ i =>
        rw [← tried_wrapHandle h1 h2]
        exact ih (Nat.le_add_left 1 _) (wrapHandle_succ_le h2) h i (lt_of_succ_lt_succ hi)

/-! ## Which slots the window covers -/

theorem exists_mod_eq {n r : ℕ} (h : ℕ) (hr : r < n) : ∃ d < n, (h + d) % n = r := by
  have ha : h % n < n := mod_lt _ (by omega)
  have hdiv := div_add_mod h n
  by_cases hle : h % n ≤ r
  · refine ⟨r - h % n, by omega, ?_⟩
    rw [show h + (r - h % n) = n * (h / n) + r by omega, mul_add_mod, mod_eq_of_lt hr]
  · refine ⟨r + n - h % n, by omega, ?_⟩
    rw [show h + (r + n - h % n) = n * (h / n + 1) + r by rw [mul_succ]; omega,
      mul_add_mod, mod_eq_of_lt hr]

theorem exists_tried_mod {n r index : ℕ} (hn : n ∣ handleMask + 1) (h1 : 1 ≤ index)
    (h2 : index ≤ handleMask + 1) (hr : r < n)
    (hcase : r ≠ 0 ∨ n ≤ handleMask ∧ ¬ (index ≤ handleMask ∧ handleMask + 1 < index + n)) :
    ∃ i < n, tried index i % n = r := by
  obtain ⟨d, hd, hmod⟩ := exists_mod_eq index hr
  have hnle : n ≤ handleMask + 1 := le_of_dvd (succ_pos _) hn
  by_cases hle : index + d ≤ handleMask
  · refine ⟨d, hd, ?_⟩
    rw [← hmod]
    congr 1
    unfold tried handleMask at *
    omega
  -- past the mask the window holds the number 2^24 + r, which the wrap turns into r
  have hpast : index + d = handleMask + 1 + r := by
    have hsub : (index + d - (handleMask + 1)) % n = r := by
      obtain ⟨q, hq⟩ := hn
      have hsplit := add_mul_mod_self_left (index + d - (handleMask + 1)) n q
      rw [show index + d - (handleMask + 1) + n * q = index + d by omega] at hsplit
      exact hsplit.symm.trans hmod
    rw [mod_eq_of_lt (by omega)] at hsub
    omega
  by_cases hzero : r = 0
  · refine ⟨n - 1, by omega, ?_⟩
    have htried : tried index (n - 1) = n := by
      unfold tried handleMask at *
      omega
    rw [htried, mod_self, hzero]
  · refine ⟨d - 1, by omega, ?_⟩
    have htried : tried index (d - 1) = r := by
      unfold tried handleMask at *
      omega
    rw [htried, mod_eq_of_lt hr]

theorem tried_mod_ne_zero {n index i : ℕ} (hn : n ∣ handleMask + 1) (h1 : 1 ≤ index)
    (hwrap : index ≤ handleMask ∧ handleMask + 1 < index + n) (hi : i < n) :
    tried index i % n ≠ 0 := by
  have hnle : n ≤ handleMask + 1 := le_of_dvd (succ_pos _) hn
  by_cases hle : index + i ≤ handleMask
  · have htried : tried index i = index + i := by
      unfold tried handleMask at *
      omega
    obtain ⟨q, hq⟩ := hn
    intro hzero
    -- a multiple of n strictly between 2^24 - n and 2^24
    obtain ⟨c, hc⟩ := dvd_of_mod_eq_zero hzero
    have hlt : n * c < n * q := by omega
    have hcq : c + 1 ≤ q := Nat.lt_of_mul_lt_mul_left hlt
    have hmul := Nat.mul_le_mul_left n hcq
    rw [mul_succ] at hmul
    omega
  · have htried : tried index i = index + i - handleMask := by
      unfold tried handleMask at *
      omega
    rw [htried, mod_eq_of_lt (by omega)]
    omega

open Function Option

variable {γ : Type}

/-- Every stored context stands in the slot its handle is congruent to, in a table whose
size is a power of two up to `2^24`. -/
structure TableOk (t : HandleStorage γ) (h : γ → ℕ) : Prop where
  size : ∃ k, 2 ≤ k ∧ k ≤ 24 ∧ t.slotSize = 2 ^ k
  index_pos : 1 ≤ t.handleIndex
  index_le : t.handleIndex ≤ handleMask + 1
  harbor : ∃ hb, t.harbor = hb <<< handleRemoteShift
  lt : ∀ i c, t.slot i = some c → i < t.slotSize
  mod : ∀ i c, t.slot i = some c → h c % t.slotSize = i

def RehashFinds (t : HandleStorage γ) (g h : γ → ℕ) : Prop :=
  ∀ i c, t.slot i = some c → g c % (t.slotSize * 2) = h c % (t.slotSize * 2)

namespace TableOk

variable {t : HandleStorage γ} {h g : γ → ℕ}

section

variable (hok : TableOk t h)
include hok

theorem dvd : t.slotSize ∣ handleMask + 1 := by
  obtain ⟨k, -, hk, hsize⟩ := hok.size
  rw [hsize]
  exact Nat.pow_dvd_pow 2 hk

theorem four_le : 4 ≤ t.slotSize := by
  obtain ⟨k, hk, -, hsize⟩ := hok.size
  rw [hsize]
  exact Nat.pow_le_pow_right (n := 2) (by omega) hk

theorem and_mask (x : ℕ) : x &&& (t.slotSize - 1) = x % t.slotSize := by
  obtain ⟨k, -, -, hsize⟩ := hok.size
  rw [hsize, Nat.and_two_pow_sub_one_eq_mod]

theorem and_mask_double (x : ℕ) :
    x &&& (t.slotSize * 2 - 1) = x % (t.slotSize * 2) := by
  obtain ⟨k, -, -, hsize⟩ := hok.size
  rw [hsize, ← pow_succ, Nat.and_two_pow_sub_one_eq_mod]

theorem or_harbor_mod {low : ℕ} (hlow : low ≤ handleMask) :
    (low ||| t.harbor) % t.slotSize = low % t.slotSize := by
  obtain ⟨k, -, hk, hsize⟩ := hok.size
  obtain ⟨hb, hharbor⟩ := hok.harbor
  have hlt : low < 2 ^ handleRemoteShift := by unfold handleMask handleRemoteShift at *; omega
  rw [hharbor, or_shiftLeft hlt, hsize]
  exact add_mul_mod_two_pow hk low hb

theorem or_harbor_and_handleMask {low : ℕ} (hlow : low ≤ handleMask) :
    (low ||| t.harbor) &&& handleMask = low := by
  obtain ⟨hb, hharbor⟩ := hok.harbor
  have hlt : low < 2 ^ handleRemoteShift := by unfold handleMask handleRemoteShift at *; omega
  rw [hharbor, or_shiftLeft hlt, show handleMask = 2 ^ 24 - 1 from rfl,
    Nat.and_two_pow_sub_one_eq_mod]
  rw [show handleRemoteShift = 24 from rfl] at hlt ⊢
  rw [add_mul_mod_two_pow le_rfl, Nat.mod_eq_of_lt hlt]

theorem slot_unique {i j : ℕ} {c : γ} (hi : t.slot i = some c)
    (hj : t.slot j = some c) : i = j :=
  (hok.mod i c hi).symm.trans (hok.mod j c hj)

/-- `skynet_handle_grab` finds a context exactly if it stands in the handle's slot and
has the handle. -/
theorem grab_eq_some_iff {x : ℕ} {c : γ} :
    skynetHandleGrab t g x = some c ↔ t.slot (x % t.slotSize) = some c ∧ g c = x := by
  unfold skynetHandleGrab
  rw [hok.and_mask]
  cases hslot : t.slot (x % t.slotSize) with
  | none => simp
  | some d =>
    simp only [ite_none_right_eq_some, some.injEq]
    constructor
    · rintro ⟨hg, rfl⟩
      exact ⟨rfl, hg⟩
    · rintro ⟨rfl, hg⟩
      exact ⟨hg, rfl⟩

theorem slot_ne_none_of_probe
    (hp : probe t t.slotSize t.handleIndex = none) {r : ℕ} (hr : r < t.slotSize)
    (hcase : r ≠ 0 ∨ t.slotSize ≤ handleMask ∧ ¬ WindowWraps t) : t.slot r ≠ none := by
  obtain ⟨i, hi, hmod⟩ := exists_tried_mod hok.dvd hok.index_pos hok.index_le hr hcase
  have hfull := probe_none hok.index_pos hok.index_le hp i hi
  rwa [hok.and_mask, hmod] at hfull

theorem probe_eq_none_of_wraps (hwrap : WindowWraps t)
    (hfull : ∀ r, 0 < r → r < t.slotSize → t.slot r ≠ none) :
    probe t t.slotSize t.handleIndex = none := by
  cases hp : probe t t.slotSize t.handleIndex with
  | none => rfl
  | some x =>
    obtain ⟨⟨i, hi, rfl⟩, hfree⟩ := probe_some hok.index_pos hok.index_le hp
    rw [hok.and_mask] at hfree
    have hne := tried_mod_ne_zero hok.dvd hok.index_pos hwrap hi
    have hlt := Nat.mod_lt (tried t.handleIndex i) (Nat.lt_of_lt_of_le (by omega) hok.four_le)
    exact absurd hfree (hfull _ (Nat.pos_of_ne_zero hne) hlt)

end

end TableOk

/-! ## The registration that finds a slot -/

/-- The table after a registration of `ctx` under `handle`: the new context stands in
the slot of its handle, and the other contexts are those that stood in the table before. -/
structure Registered [DecidableEq γ] (t : HandleStorage γ) (h : γ → ℕ) (ctx : γ)
    (handle : ℕ) (t' : HandleStorage γ) : Prop where
  low_ne_zero : handle &&& handleMask ≠ 0
  ok : TableOk t' (update h ctx handle)
  new : t'.slot (handle % t'.slotSize) = some ctx
  old : ∀ c, c ≠ ctx → ((∃ i, t'.slot i = some c) ↔ ∃ i, t.slot i = some c)

section Register

variable [DecidableEq γ] {t t' : HandleStorage γ} {h g : γ → ℕ} {ctx : γ} {handle : ℕ}

theorem Registered.slot_old (hr : Registered t h ctx handle t') (hctx : ∀ i, t.slot i ≠ some ctx)
    {i : ℕ} {c : γ} (hi : t.slot i = some c) : t'.slot (h c % t'.slotSize) = some c := by
  have hne : c ≠ ctx := fun heq => hctx i (heq ▸ hi)
  obtain ⟨j, hj⟩ := (hr.old c hne).mpr ⟨i, hi⟩
  have hmod := hr.ok.mod j c hj
  rw [update_of_ne hne] at hmod
  rw [hmod, hj]

theorem Registered.handle_ne (hr : Registered t h ctx handle t') (hctx : ∀ i, t.slot i ≠ some ctx)
    {i : ℕ} {c : γ} (hi : t.slot i = some c) : h c ≠ handle := by
  intro heq
  have hslot := hr.slot_old hctx hi
  rw [heq, hr.new, some.injEq] at hslot
  exact hctx i (hslot ▸ hi)

/-- The registration stores the context in the slot of the handle the probe found. -/
theorem registered_of_probe (hok : TableOk t h) (hctx : ∀ i, t.slot i ≠ some ctx) {low : ℕ}
    (hp : probe t t.slotSize t.handleIndex = some low) :
    Registered t h ctx (low ||| t.harbor)
      { t with
        slot := update t.slot (low &&& (t.slotSize - 1)) (some ctx)
        handleIndex := low + 1 } := by
  obtain ⟨⟨i, -, rfl⟩, hfree⟩ := probe_some hok.index_pos hok.index_le hp
  have hpos := tried_pos t.handleIndex i
  have hle := tried_le t.handleIndex i
  rw [hok.and_mask] at hfree ⊢
  have hsize : 0 < t.slotSize := Nat.lt_of_lt_of_le (by omega) hok.four_le
  refine ⟨?_, ⟨hok.size, Nat.le_add_left 1 _, Nat.succ_le_succ hle, hok.harbor, ?_, ?_⟩, ?_, ?_⟩
  · rw [hok.or_harbor_and_handleMask hle]
    omega
  · intro j c hj
    simp only [update_apply] at hj
    split at hj
    · next heq => rw [heq]; exact Nat.mod_lt _ hsize
    · exact hok.lt j c hj
  · intro j c hj
    simp only [update_apply] at hj
    split at hj
    · next heq =>
      cases hj
      rw [update_self, hok.or_harbor_mod hle, heq]
    · have hne : c ≠ ctx := fun heq => hctx j (heq ▸ hj)
      rw [update_of_ne hne]
      exact hok.mod j c hj
  · simp [hok.or_harbor_mod hle]
  · intro c hne
    constructor
    · rintro ⟨j, hj⟩
      simp only [update_apply] at hj
      split at hj
      · rw [some.injEq] at hj
        exact absurd hj.symm hne
      · exact ⟨j, hj⟩
    · rintro ⟨j, hj⟩
      refine ⟨j, ?_⟩
      have hjne : j ≠ tried t.handleIndex i % t.slotSize := by
        rintro rfl
        rw [hfree] at hj
        cases hj
      show update t.slot _ _ j = some c
      rw [update_of_ne hjne, hj]

omit [DecidableEq γ] in
/-- **The rehash loop** after `n` rounds has either met a slot without a context or
placed the contexts of the first `n` slots by their handles; it never collides.
SRC: skynet_handle.c:60-66 -/
theorem rehashSlots_spec (hok : TableOk t h) (hg : RehashFinds t g h) (n : ℕ) :
    (∃ newSlot, rehashSlots t g n = .ok newSlot ∧ (∀ j < n, t.slot j ≠ none) ∧
      ∀ j c, newSlot j = some c ↔ (∃ i < n, t.slot i = some c) ∧ h c % (t.slotSize * 2) = j) ∨
    (rehashSlots t g n = .error .nullContext ∧ ∃ j < n, t.slot j = none) := by
  induction n with
  | zero => exact .inl ⟨fun _ => none, rfl, by simp, by simp⟩
  | succ n ih =>
    obtain ⟨newSlot, hrun, hfull, hchar⟩ | ⟨hrun, j, hj, hnone⟩ := ih
    swap
    · exact .inr ⟨by simp only [rehashSlots, hrun], j, by omega, hnone⟩
    cases hslot : t.slot n with
    | none => exact .inr ⟨by simp only [rehashSlots, hrun, hslot], n, by omega, hslot⟩
    | some c =>
      have hfree : newSlot (g c % (t.slotSize * 2)) = none := by
        -- whoever stands there agrees with `c` modulo the old size, so is in its slot
        by_contra hne
        obtain ⟨d, hd⟩ := ne_none_iff_exists'.mp hne
        obtain ⟨⟨i, hi, hid⟩, hmod⟩ := (hchar _ d).mp hd
        rw [hg n c hslot] at hmod
        have hmod' := mod_eq_of_mod_mul_eq hmod
        rw [hok.mod i d hid, hok.mod n c hslot] at hmod'
        omega
      refine .inl ⟨update newSlot (g c % (t.slotSize * 2)) (some c), ?_, ?_, ?_⟩
      · simp only [rehashSlots, hrun, hslot, hok.and_mask_double, hfree, isNone_none, if_true]
      · intro j hj
        obtain hlt | rfl := Nat.lt_succ_iff_lt_or_eq.mp hj
        · exact hfull j hlt
        · simp [hslot]
      · intro j d
        rw [update_apply]
        split
        · next heq =>
          subst heq
          rw [some.injEq]
          constructor
          · rintro rfl
            exact ⟨⟨n, Nat.lt_succ_self n, hslot⟩, (hg n c hslot).symm⟩
          · rintro ⟨⟨i, hi, hid⟩, hmod⟩
            obtain hlt | rfl := Nat.lt_succ_iff_lt_or_eq.mp hi
            · have hd := (hchar _ d).mpr ⟨⟨i, hlt, hid⟩, hmod⟩
              rw [hfree] at hd
              cases hd
            · rw [hslot] at hid
              exact some.inj hid
        · next hne =>
          rw [hchar]
          constructor
          · rintro ⟨⟨i, hi, hid⟩, hmod⟩
            exact ⟨⟨i, by omega, hid⟩, hmod⟩
          · rintro ⟨⟨i, hi, hid⟩, hmod⟩
            obtain hlt | rfl := Nat.lt_succ_iff_lt_or_eq.mp hi
            · exact ⟨⟨i, hlt, hid⟩, hmod⟩
            · rw [hslot, some.injEq] at hid
              subst hid
              exact absurd (by rw [hg _ c hslot, hmod]) hne

omit [DecidableEq γ] in
theorem tableOk_double (hok : TableOk t h) (hlim : t.slotSize * 2 - 1 ≤ handleMask)
    {newSlot : ℕ → Option γ}
    (hchar : ∀ j c, newSlot j = some c ↔
      (∃ i < t.slotSize, t.slot i = some c) ∧ h c % (t.slotSize * 2) = j) :
    TableOk { t with slot := newSlot, slotSize := t.slotSize * 2 } h := by
  refine ⟨?_, hok.index_pos, hok.index_le, hok.harbor, ?_, ?_⟩
  · obtain ⟨k, hk, -, hsize⟩ := hok.size
    refine ⟨k + 1, by omega, ?_, by rw [hsize, pow_succ]⟩
    by_contra hgt
    have hpow := Nat.pow_le_pow_right (n := 2) (by omega) (show 24 ≤ k by omega)
    unfold handleMask at hlim
    omega
  · intro j c hj
    have hmod := ((hchar j c).mp hj).2
    have hfour := hok.four_le
    rw [← hmod]
    exact Nat.mod_lt _ (by omega)
  · intro j c hj
    exact ((hchar j c).mp hj).2

omit [DecidableEq γ] in
/-- In the doubled table the probe succeeds: of the slots `1` and `slot_size + 1` only
one can hold the context that stood in slot 1. -/
theorem probe_double (hok : TableOk t h) (hlim : t.slotSize * 2 - 1 ≤ handleMask)
    {newSlot : ℕ → Option γ}
    (hchar : ∀ j c, newSlot j = some c ↔
      (∃ i < t.slotSize, t.slot i = some c) ∧ h c % (t.slotSize * 2) = j) :
    probe { t with slot := newSlot, slotSize := t.slotSize * 2 } (t.slotSize * 2)
      t.handleIndex ≠ none := by
  intro hp
  have hok' := tableOk_double hok hlim hchar
  have hfour := hok.four_le
  have hfull : ∀ r, r ≠ 0 → r < t.slotSize * 2 → ∃ c, newSlot r = some c := fun r hr hlt =>
    ne_none_iff_exists'.mp (hok'.slot_ne_none_of_probe hp hlt (.inl hr))
  obtain ⟨c, hc⟩ := hfull 1 (by omega) (by omega)
  obtain ⟨d, hd⟩ := hfull (t.slotSize + 1) (by omega) (by omega)
  obtain ⟨⟨i, -, hic⟩, hcmod⟩ := (hchar _ c).mp hc
  obtain ⟨⟨j, -, hjd⟩, hdmod⟩ := (hchar _ d).mp hd
  have hi : i = 1 := by
    rw [← hok.mod i c hic, ← Nat.mod_mul_right_mod _ t.slotSize 2, hcmod]
    exact Nat.mod_eq_of_lt (by omega)
  have hj : j = 1 := by
    rw [← hok.mod j d hjd, ← Nat.mod_mul_right_mod _ t.slotSize 2, hdmod, Nat.add_mod_left]
    exact Nat.mod_eq_of_lt (by omega)
  subst hi hj
  rw [hic, some.injEq] at hjd
  subst hjd
  omega

inductive RegisterOutcome (t : HandleStorage γ) (g h : γ → ℕ) (ctx : γ) : Prop
  | ok (handle : ℕ) (t' : HandleStorage γ)
      (hrun : skynetHandleRegister t g ctx = .ok (handle, t'))
      (hreg : Registered t h ctx handle t')
  | nullContext (hrun : skynetHandleRegister t g ctx = .error .nullContext)
      (hprobe : probe t t.slotSize t.handleIndex = none)
      (hhole : ∃ i < t.slotSize, t.slot i = none)
  | tableLimit (hrun : skynetHandleRegister t g ctx = .error .tableLimit)
      (hprobe : probe t t.slotSize t.handleIndex = none)
      (hsize : handleMask < t.slotSize * 2 - 1)

omit [DecidableEq γ] in
/-- A probe that finds a handle ends the registration. -/
theorem skynetHandleRegister_of_probe {low : ℕ}
    (hp : probe t t.slotSize t.handleIndex = some low) :
    skynetHandleRegister t g ctx = .ok (low ||| t.harbor, { t with
        slot := update t.slot (low &&& (t.slotSize - 1)) (some ctx)
        handleIndex := low + 1 }) := by
  simp only [skynetHandleRegister, registerLoop, hp]

/-- **`skynet_handle_register`** either registers the context or faults for one of two
reasons; the assertion of its rehash never fails and its loop ends after one doubling.
SRC: skynet_handle.c:34-71 -/
theorem register_outcome (hok : TableOk t h) (hctx : ∀ i, t.slot i ≠ some ctx)
    (hg : probe t t.slotSize t.handleIndex = none → RehashFinds t g h) :
    RegisterOutcome t g h ctx := by
  cases hp : probe t t.slotSize t.handleIndex with
  | some low =>
    exact .ok _ _ (skynetHandleRegister_of_probe hp) (registered_of_probe hok hctx hp)
  | none =>
    by_cases hlim : t.slotSize * 2 - 1 ≤ handleMask
    swap
    · exact .tableLimit (by simp only [skynetHandleRegister, registerLoop, hp, if_neg hlim]) hp
        (by omega)
    obtain ⟨newSlot, hrun, hfull, hchar⟩ | ⟨hrun, hhole⟩ := rehashSlots_spec hok (hg hp) t.slotSize
    swap
    · exact .nullContext
        (by simp only [skynetHandleRegister, registerLoop, hp, if_pos hlim, hrun]) hp hhole
    have hok' := tableOk_double hok hlim hchar
    obtain ⟨low, hlow⟩ := ne_none_iff_exists'.mp (probe_double hok hlim hchar)
    have hstored : ∀ c, (∃ j, newSlot j = some c) ↔ ∃ i, t.slot i = some c := by
      intro c
      constructor
      · rintro ⟨j, hj⟩
        obtain ⟨⟨i, -, hi⟩, -⟩ := (hchar j c).mp hj
        exact ⟨i, hi⟩
      · rintro ⟨i, hi⟩
        exact ⟨_, (hchar _ c).mpr ⟨⟨i, hok.lt i c hi, hi⟩, rfl⟩⟩
    have hctx' : ∀ j, newSlot j ≠ some ctx := fun j hj => by
      obtain ⟨i, hi⟩ := (hstored ctx).mp ⟨j, hj⟩
      exact hctx i hi
    have hreg := registered_of_probe hok' hctx' hlow
    refine .ok _ _ (by simp only [skynetHandleRegister, registerLoop, hp, if_pos hlim, hrun,
      hlow]) ⟨hreg.low_ne_zero, hreg.ok, hreg.new, fun c hne => ?_⟩
    exact (hreg.old c hne).trans (hstored c)

end Register

/-! ## The loops over the names -/

section Names

open List

/-- The kept names stand in front of those that have not been looked at. -/
theorem keepNames_eq {handle n i j : ℕ} {name : List HandleName} (hj : j ≤ i)
    (hn : i + n = name.length) : keepNames handle n i j name =
      name.take j ++ (name.drop i).filter fun e => e.handle ≠ handle := by
  induction n generalizing i j name with
  | zero => rw [drop_of_length_le (by omega), filter_nil, append_nil, keepNames]
  | succ n ih =>
    have hi : i < name.length := by omega
    rw [keepNames, List.getElem?_eq_getElem hi, drop_eq_getElem_cons hi]
    dsimp only
    split
    · next heq =>
      rw [ih (by omega) (by omega), filter_cons_of_neg (by simp [heq])]
    · next hne =>
      have hset : (if i ≠ j then name.set j name[i] else name) = name.set j name[i] := by
        split
        · rfl
        · next hij => simp [← not_not.mp hij]
      have htake : (name.set j name[i]).take (j + 1) = name.take j ++ [name[i]] := by
        rw [take_succ_eq_append_getElem (by simp; omega), take_set_of_le (le_refl j), getElem_set_self]
      rw [hset, ih (by omega) (by simp; omega), htake, drop_set_of_lt (by omega),
        filter_cons_of_pos (by simpa using hne), append_assoc, singleton_append]

theorem keepNames_names (handle : ℕ) (name : List HandleName) :
    keepNames handle name.length 0 0 name = name.filter fun e => e.handle ≠ handle := by
  rw [keepNames_eq (le_refl 0) (Nat.zero_add _), take_zero, nil_append, drop_zero]

theorem shiftNames_self (before : ℕ) {i : ℕ} (hi : i ≤ before) (name : List HandleName) :
    shiftNames before i name = name := by
  cases i with
  | zero => rfl
  | succ i => rw [shiftNames, if_neg (by omega)]

/-- The names behind the place move up by one. -/
theorem shiftNames_eq (front back : List HandleName) (x y : HandleName) (rest : List HandleName) :
    (shiftNames front.length (front.length + back.length) (front ++ (back ++ x :: rest))).set
      front.length y = front ++ y :: (back ++ rest) := by
  induction back using List.reverseRecOn generalizing x rest with
  | nil => simp [shiftNames_self]
  | append_singleton back e ih =>
    have hget : (front ++ ((back ++ [e]) ++ x :: rest))[front.length + back.length]? = some e := by
      simp
    have hset : (front ++ ((back ++ [e]) ++ x :: rest)).set (front.length + back.length + 1) e =
        front ++ (back ++ e :: e :: rest) := by
      have hat : front.length + back.length + 1 - (front ++ back).length = 1 := by
        rw [length_append]
        omega
      rw [append_assoc back, singleton_append, ← append_assoc, ← append_assoc,
        set_append_right _ _ (by rw [length_append]; omega), hat, set_cons_succ, set_cons_zero]
    rw [length_append, length_singleton, ← Nat.add_assoc, shiftNames, if_pos (by omega), hget]
    dsimp only
    rw [hset, ih, append_assoc, singleton_append]

theorem shiftNames_names (name : List HandleName) (before : ℕ) (n : HandleName) :
    (shiftNames before name.length (name ++ [n])).set before n =
      name.take before ++ n :: name.drop before := by
  rcases Nat.lt_or_ge name.length before with hlt | hle
  · rw [shiftNames_self before hlt.le, take_of_length_le hlt.le, drop_of_length_le hlt.le,
      set_eq_of_length_le (by simp; omega)]
  · have h := shiftNames_eq (name.take before) (name.drop before) n n []
    rw [length_take_of_le hle, length_drop, Nat.add_sub_cancel' hle, append_nil,
      ← append_assoc, take_append_drop] at h
    exact h

end Names

end Skynet.Analysis
