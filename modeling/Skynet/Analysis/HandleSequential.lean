import Skynet.Analysis.HandleRuns

/-!
# One launch at a time

Without concurrency the table does what it should but for one state of it: the probe
window wraps from `HANDLE_MASK` to 1, every slot but slot 0 is occupied, and slot 0 is
free.  The skipped handle 0 is the one that would have fallen on the free slot, so the
probe fails on a table that is not full and the rehash dereferences the empty slot.
-/

namespace Skynet.Analysis

open Library Model Function Option List

variable {γ : Type}

def WrapMissesOnlyHole (t : HandleStorage γ) : Prop :=
  WindowWraps t ∧ t.slot 0 = none ∧ ∀ i, 0 < i → i < t.slotSize → t.slot i ≠ none

/-- The steps of the runs that launch one service at a time: every handle is published
before the next call, and a registration finds fewer than `HANDLE_MASK` services. -/
def Sequential (s : HandleState γ) : HandleAction γ → Prop
  | .register _ => (∀ c, s.pending c = none) ∧ liveCount s.table < handleMask
  | .publish _ => True
  | .retire _ => ∀ c, s.pending c = none
  | .grab _ => ∀ c, s.pending c = none

def SequentialOk (s : HandleState γ) (a : HandleAction γ) : Prop :=
  Sequential s a ∧ ∀ ctx, a = .register ctx → ¬ WrapMissesOnlyHole s.table

/-- What a registration promises.  It returns a handle whose low 24 bits are not 0 and
that no live service has; when the handle is published the new context is found under
it and every live service under its own, as before; and a probe that fails has found a
full table, from which the rehash takes every context over. -/
def RegisterMeets [DecidableEq γ] (s : HandleState γ) (ctx : γ) : Prop :=
  (∃ handle s₁ s₂, handleNext s (.register ctx) = some s₁ ∧ s₁.fault = none ∧
    s₁.pending ctx = some handle ∧ handleNext s₁ (.publish ctx) = some s₂ ∧
    handle &&& handleMask ≠ 0 ∧ s₂.grab handle = some ctx ∧
    ∀ c, Live s c → s.ctxHandle c ≠ handle ∧ s.grab (s.ctxHandle c) = some c ∧
      s₂.grab (s.ctxHandle c) = some c) ∧
  (probe s.table s.table.slotSize s.table.handleIndex = none →
    (∀ i < s.table.slotSize, s.table.slot i ≠ none) ∧
    ∃ newSlot, rehashSlots s.table (update s.ctxHandle ctx 0) s.table.slotSize =
      .ok newSlot)

/-! ## When the probe fails -/

variable {t : HandleStorage γ}

theorem pred_le_liveCount
    (hfull : ∀ i, 0 < i → i < t.slotSize → t.slot i ≠ none) : t.slotSize - 1 ≤ liveCount t := by
  have hcount : ∀ n ≤ t.slotSize, n - 1 ≤ ((range n).filter fun i => (t.slot i).isSome).length := by
    intro n
    induction n with
    | zero => intro _; exact Nat.zero_le _
    | succ n ih =>
      intro hn
      rw [range_succ, filter_append, length_append]
      obtain rfl | hpos := Nat.eq_zero_or_pos n
      · omega
      · have hsome := isSome_iff_ne_none.mpr (hfull n hpos (by omega))
        rw [filter_cons_of_pos (by simpa using hsome)]
        simp only [filter_nil, length_singleton]
        omega
  exact hcount _ le_rfl

theorem TableOk.double_le_of_probe {h : γ → ℕ} (hok : TableOk t h)
    (hlive : liveCount t < handleMask) (hfull : ∀ i, 0 < i → i < t.slotSize → t.slot i ≠ none) :
    t.slotSize * 2 - 1 ≤ handleMask := by
  have hcount := pred_le_liveCount hfull
  obtain ⟨q, hq⟩ := hok.dvd
  have hq2 : 2 ≤ q := by
    by_contra hlt
    obtain rfl | rfl : q = 0 ∨ q = 1 := by omega
    · omega
    · omega
  have hmul := Nat.mul_le_mul_left t.slotSize hq2
  omega

theorem TableOk.full_of_probe {h : γ → ℕ} (hok : TableOk t h)
    (hlive : liveCount t < handleMask) (hbad : ¬ WrapMissesOnlyHole t)
    (hp : probe t t.slotSize t.handleIndex = none) : ∀ i < t.slotSize, t.slot i ≠ none := by
  have hfull : ∀ i, 0 < i → i < t.slotSize → t.slot i ≠ none := fun i hpos hi =>
    hok.slot_ne_none_of_probe hp hi (.inl (by omega))
  intro i hi hnone
  obtain rfl | hpos := Nat.eq_zero_or_pos i
  swap
  · exact hfull i hpos hi hnone
  have hdouble := hok.double_le_of_probe hlive hfull
  by_cases hwrap : WindowWraps t
  · exact hbad ⟨hwrap, hnone, hfull⟩
  · exact hok.slot_ne_none_of_probe hp hi (.inr ⟨by omega, hwrap⟩) hnone

section Runs

variable [DecidableEq γ] {s : HandleState γ} {ctx : γ}

theorem HandleInv.registerMeets_of_ok (hs : HandleInv s) (hfault : s.fault = none)
    (hpub : ∀ c, s.pending c = none) (hfresh : s.born ctx = false) {handle : ℕ}
    {t' : HandleStorage γ}
    (hrun : skynetHandleRegister s.table (update s.ctxHandle ctx 0) ctx = .ok (handle, t'))
    (hreg : Registered s.table s.assigned ctx handle t') :
    ∃ handle s₁ s₂, handleNext s (.register ctx) = some s₁ ∧ s₁.fault = none ∧
      s₁.pending ctx = some handle ∧ handleNext s₁ (.publish ctx) = some s₂ ∧
      handle &&& handleMask ≠ 0 ∧ s₂.grab handle = some ctx ∧
      ∀ c, Live s c → s.ctxHandle c ≠ handle ∧ s.grab (s.ctxHandle c) = some c ∧
        s₂.grab (s.ctxHandle c) = some c := by
  set s₁ := registerStep s ctx with hs₁
  have hs₁eq : s₁ = { s with
      table := t'
      ctxHandle := update s.ctxHandle ctx 0
      born := update s.born ctx true
      pending := update s.pending ctx (some handle) } := by
    simp only [hs₁, registerStep, hrun]
  have hinv₁ : HandleInv s₁ := hs₁eq ▸ hs.register_ok hfresh hreg
  have hpend : s₁.pending ctx = some handle := by simp [hs₁eq]
  have hinv₂ := hinv₁.publish hpend
  have hpub₂ : ∀ c, (publishStep s₁ ctx handle).pending c = none := by
    intro c
    by_cases hc : c = ctx
    · simp [publishStep, hc]
    · simp [publishStep, hs₁eq, update_of_ne hc, hpub c]
  have hret := hs.retired_of_fresh hfresh
  refine ⟨handle, s₁, publishStep s₁ ctx handle, ?_, ?_, hpend, ?_, hreg.low_ne_zero, ?_, ?_⟩
  · simp only [handleNext, hfault, hfresh, and_self, if_true, hs₁]
  · simp [hs₁eq, hfault]
  · simp [handleNext, hs₁eq, hfault]
  · have hlive : Live (publishStep s₁ ctx handle) ctx := by
      simp [Live, publishStep, hs₁eq, hret]
    exact (hinv₂.grab_iff (hpub₂ ctx) hlive).mpr (by simp [publishStep])
  · intro c hlive
    have hslot := hs.live c hlive
    have hc : c ≠ ctx := fun heq => hs.slot_ne_of_fresh hfresh _ (heq ▸ hslot)
    have hlive₂ : Live (publishStep s₁ ctx handle) c := by
      simpa [Live, publishStep, hs₁eq, update_of_ne hc] using hlive
    refine ⟨?_, (hs.grab_iff (hpub c) hlive).mpr rfl, (hinv₂.grab_iff (hpub₂ c) hlive₂).mpr ?_⟩
    · rw [← assigned_of_published (hpub c)]
      exact hreg.handle_ne (hs.slot_ne_of_fresh hfresh) hslot
    · simp [publishStep, hs₁eq, update_of_ne hc]

/-- **A registration meets its promise** exactly if its probe does not miss the only
hole.
SRC: skynet_handle.c:34-71 -/
theorem HandleInv.registerMeets_iff (hs : HandleInv s) (hfault : s.fault = none)
    (hpub : ∀ c, s.pending c = none) (hlive : liveCount s.table < handleMask)
    (hfresh : s.born ctx = false) : RegisterMeets s ctx ↔ ¬ WrapMissesOnlyHole s.table := by
  have hfinds := hs.rehashFinds_of_published hpub hfresh
  constructor
  · rintro ⟨-, hfull⟩ ⟨hwrap, hhole, hrest⟩
    have hfour := hs.ok.four_le
    exact (hfull (hs.ok.probe_eq_none_of_wraps hwrap hrest)).1 0 (by omega) hhole
  · intro hbad
    have hfullOf := hs.ok.full_of_probe hlive hbad
    refine ⟨?_, fun hp => ⟨hfullOf hp, ?_⟩⟩
    · cases register_outcome hs.ok (hs.slot_ne_of_fresh hfresh) (fun _ => hfinds) with
      | ok handle t' hrun hreg => exact hs.registerMeets_of_ok hfault hpub hfresh hrun hreg
      | nullContext _ hp hhole =>
        obtain ⟨i, hi, hnone⟩ := hhole
        exact absurd hnone (hfullOf hp i hi)
      | tableLimit _ hp hsize =>
        have hdouble := hs.ok.double_le_of_probe hlive fun i _ hi => hfullOf hp i hi
        omega
    · obtain ⟨newSlot, hrun, -, -⟩ | ⟨-, i, hi, hnone⟩ :=
        rehashSlots_spec hs.ok hfinds s.table.slotSize
      · exact ⟨newSlot, hrun⟩
      · exact absurd hnone (hfullOf hp i hi)

omit [DecidableEq γ] in
theorem Sequential.rehashHarmless {a : HandleAction γ} (hok : Sequential s a) :
    RehashHarmless s a := by
  cases a with
  | register ctx =>
    intro _ i c h _ hp
    rw [hok.1 c] at hp
    cases hp
  | publish | retire | grab => trivial

theorem HandleInv.step_sequential {s' : HandleState γ} {a : HandleAction γ} (hs : HandleInv s)
    (hfault : s.fault = none) (hok : SequentialOk s a) (hnext : handleNext s a = some s') :
    HandleInv s' ∧ s'.fault = none := by
  refine ⟨(hs.step hok.1.rehashHarmless hnext).1, ?_⟩
  cases a with
  | register ctx =>
    have hfresh : s.born ctx = false := by
      rw [handleNext, ite_none_right_eq_some] at hnext
      exact hnext.1.2
    obtain ⟨⟨_, s₁, _, hrun, hnone, _⟩, -⟩ :=
      (hs.registerMeets_iff hfault hok.1.1 hok.1.2 hfresh).mpr (hok.2 ctx rfl)
    rw [hrun, some.injEq] at hnext
    exact hnext ▸ hnone
  | publish ctx =>
    rw [handleNext, ite_none_right_eq_some, map_eq_some_iff] at hnext
    obtain ⟨-, handle, -, rfl⟩ := hnext
    exact hfault
  | retire handle =>
    rw [handleNext, ite_none_right_eq_some, some.injEq] at hnext
    obtain ⟨-, rfl⟩ := hnext
    unfold retireStep
    split <;> exact hfault
  | grab handle =>
    rw [handleNext, ite_none_right_eq_some, some.injEq] at hnext
    exact hnext.2 ▸ hfault

theorem handleInv_sequential (harbor : ℕ)
    (hs : (handleMachine γ harbor).Reach SequentialOk s) : HandleInv s ∧ s.fault = none := by
  induction hs with
  | start hstart =>
    refine ⟨handleInv_start harbor _ hstart, ?_⟩
    subst hstart
    rfl
  | step _ hok hnext ih => exact ih.1.step_sequential ih.2 hok hnext

/-- **The handle table, one call at a time.** A sequential run that has registered
nothing in a table whose probe misses the only hole has not faulted, and the next
registration meets its promise exactly if the table is not that one either.
SRC: skynet_handle.c:34-153 -/
theorem register_sequential (harbor : ℕ)
    (hs : (handleMachine γ harbor).Reach SequentialOk s) :
    s.fault = none ∧ ((∀ c, s.pending c = none) → liveCount s.table < handleMask →
      ∀ ctx, s.born ctx = false → (RegisterMeets s ctx ↔ ¬ WrapMissesOnlyHole s.table)) := by
  obtain ⟨hinv, hfault⟩ := handleInv_sequential harbor hs
  exact ⟨hfault, fun hpub hlive ctx hfresh => hinv.registerMeets_iff hfault hpub hlive hfresh⟩

end Runs

/-- After one launch the next one meets its promise. -/
theorem register_sequential_second : ∃ s, (handleMachine ℕ 1).Reach SequentialOk s ∧
    Live s 0 ∧ s.ctxHandle 0 = 0x1000001 ∧ RegisterMeets s 1 := by
  have h0 : (handleMachine ℕ 1).Reach SequentialOk _ := .start rfl
  have h1 := h0.step (a := HandleAction.register 0)
    ⟨⟨fun _ => rfl, by decide⟩, fun _ _ hbad => absurd hbad.1.2 (by decide)⟩ rfl
  have h2 := h1.step (a := HandleAction.publish 0) ⟨trivial, fun _ ha => by cases ha⟩ rfl
  refine ⟨_, h2, ⟨rfl, rfl⟩, rfl,
    ((register_sequential 1 h2).2 ?_ (by decide) 1 rfl).mpr fun hbad => absurd hbad.1.2 (by decide)⟩
  rintro (_ | c) <;> rfl

/-! ## The wrap that misses the only hole -/

/-- Three services stand in the slots 1 to 3, and a fourth has been launched and retired
`k` times. -/
structure Churned (s : HandleState ℕ) (k : ℕ) : Prop where
  run : (handleMachine ℕ 0).Reach Sequential s
  fault : s.fault = none
  size : s.table.slotSize = 4
  harbor : s.table.harbor = 0
  index : s.table.handleIndex = 4 * k + 1
  hole : s.table.slot 0 = none
  slot_one : s.table.slot 1 = some 0
  slot_two : s.table.slot 2 = some 1
  slot_three : s.table.slot 3 = some 2
  published : ∀ c, s.pending c = none
  fresh : ∀ c, k + 3 ≤ c → s.born c = false

namespace Churned

variable {s : HandleState ℕ} {k : ℕ}

theorem and_three (x : ℕ) : x &&& (4 - 1) = x % 4 := Nat.and_two_pow_sub_one_eq_mod x 2

theorem liveCount_eq (hs : Churned s k) : liveCount s.table = 3 := by
  simp [liveCount, hs.size, range_succ, hs.hole, hs.slot_one, hs.slot_two, hs.slot_three]

theorem probe_eq (hs : Churned s k) (hk : 4 * k + 4 ≤ handleMask) :
    probe s.table s.table.slotSize s.table.handleIndex = some (4 * k + 4) := by
  have hwrap : ∀ d ≤ 4, wrapHandle (4 * k + d) = 4 * k + d := fun d hd =>
    if_neg (by omega)
  have hmod : ∀ d < 4, (4 * k + d) % 4 = d := fun d hd => by omega
  rw [hs.size, hs.index]
  simp only [probe, hs.size, and_three, hwrap 1 (by omega), hmod 1 (by omega), hs.slot_one,
    hwrap (1 + 1) (by omega), hmod (1 + 1) (by omega), hs.slot_two, Nat.add_assoc,
    hwrap (1 + (1 + 1)) (by omega), hmod (1 + (1 + 1)) (by omega), hs.slot_three,
    hwrap (1 + (1 + (1 + 1))) (by omega), isNone_some, Bool.false_eq_true, if_false]
  rw [show (4 * k + (1 + (1 + (1 + 1)))) % 4 = 0 by omega, hs.hole]
  rfl

theorem round (hs : Churned s k) (hk : 4 * k + 4 ≤ handleMask) : ∃ s', Churned s' (k + 1) := by
  have hborn := hs.fresh (k + 3) le_rfl
  have hmod : (4 * k + 4) % 4 = 0 := by omega
  have hmask : (4 * k + 4) &&& 3 = 0 := (and_three _).trans hmod
  set s₁ := registerStep s (k + 3) with hs₁
  have hs₁eq : s₁ = { s with
      table := { s.table with
        slot := update s.table.slot 0 (some (k + 3))
        handleIndex := 4 * k + 4 + 1 }
      ctxHandle := update s.ctxHandle (k + 3) 0
      born := update s.born (k + 3) true
      pending := update s.pending (k + 3) (some (4 * k + 4)) } := by
    rw [hs₁, registerStep, skynetHandleRegister_of_probe (hs.probe_eq hk)]
    simp only [hs.size, and_three, hmod, hs.harbor, Nat.or_zero]
  have h1 : (handleMachine ℕ 0).Reach Sequential s₁ :=
    hs.run.step (a := HandleAction.register (k + 3))
      ⟨hs.published, by rw [hs.liveCount_eq]; unfold handleMask; omega⟩
      (if_pos ⟨hs.fault, hborn⟩)
  set s₂ := publishStep s₁ (k + 3) (4 * k + 4) with hs₂
  have h2 : (handleMachine ℕ 0).Reach Sequential s₂ :=
    h1.step (a := HandleAction.publish (k + 3)) trivial (by
      show handleNext s₁ (.publish (k + 3)) = some s₂
      simp [handleNext, hs₁eq, hs.fault, hs₂])
  have hpub : ∀ c, s₂.pending c = none := by
    intro c
    simp only [hs₂, publishStep, hs₁eq, update_idem, update_apply]
    split
    · rfl
    · exact hs.published c
  -- the retirement takes the service out of slot 0 again
  have hret : retireStep s₂ (4 * k + 4) = { s₂ with
      table := { s₂.table with
        slot := update s.table.slot 0 none
        name := s₂.table.name.filter fun n => n.handle ≠ 4 * k + 4 }
      retired := update s₂.retired (k + 3) true } := by
    rw [retireStep_of_slot (c := k + 3)]
    all_goals simp [hs₂, publishStep, hs₁eq, hs.size, hmask]
  have h3 : (handleMachine ℕ 0).Reach Sequential (retireStep s₂ (4 * k + 4)) :=
    h2.step (a := HandleAction.retire (4 * k + 4)) hpub
      (if_pos (by simp [hs₂, publishStep, hs₁eq, hs.fault]))
  rw [hret, hs₂, publishStep, hs₁eq] at h3
  rw [hs₂, publishStep, hs₁eq] at hpub
  refine ⟨_, h3, hs.fault, hs.size, hs.harbor, ?_, ?_, ?_, ?_, ?_, hpub, ?_⟩
  · show 4 * k + 4 + 1 = 4 * (k + 1) + 1
    omega
  · show update s.table.slot 0 none 0 = none
    rw [update_self]
  · show update s.table.slot 0 none 1 = some 0
    rw [update_of_ne (by omega), hs.slot_one]
  · show update s.table.slot 0 none 2 = some 1
    rw [update_of_ne (by omega), hs.slot_two]
  · show update s.table.slot 0 none 3 = some 2
    rw [update_of_ne (by omega), hs.slot_three]
  · intro c hc
    show update s.born (k + 3) true c = false
    rw [update_of_ne (by omega), hs.fresh c (by omega)]

end Churned

/-- The first four launches: the services in the slots 1 to 3, and one in slot 0 that is
retired. -/
theorem churned_one : ∃ s, Churned s 1 := by
  have h0 : (handleMachine ℕ 0).Reach Sequential _ := .start rfl
  have h1 := h0.step (a := HandleAction.register 0) ⟨fun _ => rfl, by decide⟩ rfl
  have h2 := h1.step (a := HandleAction.publish 0) trivial rfl
  have h3 := h2.step (a := HandleAction.register 1) ⟨by rintro (_ | c) <;> rfl, by decide⟩ rfl
  have h4 := h3.step (a := HandleAction.publish 1) trivial rfl
  have h5 := h4.step (a := HandleAction.register 2)
    ⟨by rintro (_ | _ | c) <;> rfl, by decide⟩ rfl
  have h6 := h5.step (a := HandleAction.publish 2) trivial rfl
  have h7 := h6.step (a := HandleAction.register 3)
    ⟨by rintro (_ | _ | _ | c) <;> rfl, by decide⟩ rfl
  have h8 := h7.step (a := HandleAction.publish 3) trivial rfl
  have h9 := h8.step (a := HandleAction.retire 4) (by rintro (_ | _ | _ | _ | c) <;> rfl) rfl
  refine ⟨_, h9, rfl, rfl, rfl, rfl, rfl, rfl, rfl, rfl, by rintro (_ | _ | _ | _ | c) <;> rfl, ?_⟩
  rintro (_ | _ | _ | _ | c) hc
  all_goals first | omega | rfl

theorem churned_of_le (k : ℕ) (hk : 4 * (k + 1) ≤ handleMask) : ∃ s, Churned s (k + 1) := by
  induction k with
  | zero => exact churned_one
  | succ k ih =>
    obtain ⟨s, hs⟩ := ih (by omega)
    exact hs.round (by omega)

/-- After 4194306 launches, one at a time and never more than four services at once, the
next registration finds slot 0 free, does not look at it and dereferences it in the
rehash. -/
theorem register_misses_free_slot :
    ∃ s ctx, (handleMachine ℕ 0).Reach Sequential s ∧ s.fault = none ∧
      (∀ c, s.pending c = none) ∧ liveCount s.table < handleMask ∧ s.born ctx = false ∧
      s.table.slot 0 = none ∧ (registerStep s ctx).fault = some .nullContext ∧
      ¬ RegisterMeets s ctx := by
  obtain ⟨s, hs⟩ := churned_of_le 4194302 (by unfold handleMask; omega)
  have hwrap : WindowWraps s.table := by
    unfold WindowWraps handleMask
    rw [hs.index, hs.size]
    omega
  have hbad : WrapMissesOnlyHole s.table := by
    refine ⟨hwrap, hs.hole, fun i hpos hi => ?_⟩
    rw [hs.size] at hi
    obtain rfl | rfl | rfl : i = 1 ∨ i = 2 ∨ i = 3 := by omega
    · simp [hs.slot_one]
    · simp [hs.slot_two]
    · simp [hs.slot_three]
  have hinv := (handleInv_of_reach 0 (hs.run.mono fun _ _ hok => hok.rehashHarmless)).1
  have hfresh : s.born 4194306 = false := hs.fresh _ (by omega)
  refine ⟨s, 4194306, hs.run, hs.fault, hs.published, ?_, hfresh, hs.hole, ?_, ?_⟩
  · rw [hs.liveCount_eq]
    unfold handleMask
    omega
  · have hp := hinv.ok.probe_eq_none_of_wraps hwrap hbad.2.2
    obtain ⟨_, _, hfull, _⟩ | ⟨hrun, -⟩ := rehashSlots_spec hinv.ok
      (hinv.rehashFinds_of_published hs.published hfresh) s.table.slotSize
    · exact absurd hs.hole (hfull 0 (by rw [hs.size]; omega))
    · have hlim : s.table.slotSize * 2 - 1 ≤ handleMask := by
        rw [hs.size]
        unfold handleMask
        omega
      simp only [registerStep, skynetHandleRegister, registerLoop, hp, if_pos hlim, hrun]
  · intro hmeets
    refine (hinv.registerMeets_iff hs.fault hs.published ?_ hfresh).mp hmeets hbad
    rw [hs.liveCount_eq]
    unfold handleMask
    omega

end Skynet.Analysis
