import Skynet.Analysis.HandleTable

/-!
# The handle table over runs

`HandleInv` is what every step keeps: the stored contexts are those that were registered
and not retired, each in the slot of the handle `skynet_handle_register` returned for it.
The one step that can break it is a registration that rehashes a context whose handle
has not been stored in `ctx->handle` yet, so the step lemma asks for `RehashFinds` there.

`skynet_context_new` stores `ctx->handle` only after `skynet_handle_register` has given
up the lock, and a rehash by another thread in between moves the context to slot 0.
-/

namespace Skynet.Analysis

open Library Model Function

variable {γ : Type}

def Live (s : HandleState γ) (ctx : γ) : Prop := s.born ctx = true ∧ s.retired ctx = false

structure HandleInv (s : HandleState γ) : Prop where
  ok : TableOk s.table s.assigned
  stored : ∀ i c, s.table.slot i = some c → Live s c
  live : ∀ c, Live s c → s.table.slot (s.assigned c % s.table.slotSize) = some c
  unpublished : ∀ c h, s.pending c = some h → s.born c = true ∧ s.ctxHandle c = 0
  retired_born : ∀ c, s.retired c = true → s.born c = true

variable {s : HandleState γ}

theorem assigned_of_pending {c : γ} {h : ℕ} (hp : s.pending c = some h) : s.assigned c = h := by
  rw [HandleState.assigned, hp, Option.getD_some]

theorem assigned_of_published {c : γ} (hp : s.pending c = none) : s.assigned c = s.ctxHandle c := by
  rw [HandleState.assigned, hp, Option.getD_none]

namespace HandleInv

variable {s : HandleState γ} {ctx : γ}

theorem slot_ne_of_fresh (hs : HandleInv s) (hfresh : s.born ctx = false) (i : ℕ) :
    s.table.slot i ≠ some ctx := by
  intro hi
  have hborn := (hs.stored i ctx hi).1
  rw [hfresh] at hborn
  cases hborn

/-- A published context that is not retired is what `skynet_handle_grab` finds under
its handle, and under no other. -/
theorem grab_iff (hs : HandleInv s) {c : γ} (hpub : s.pending c = none) (hlive : Live s c)
    {x : ℕ} : s.grab x = some c ↔ x = s.ctxHandle c := by
  rw [HandleState.grab, hs.ok.grab_eq_some_iff]
  constructor
  · rintro ⟨-, hx⟩
    exact hx.symm
  · rintro rfl
    have hslot := hs.live c hlive
    rw [assigned_of_published hpub] at hslot
    exact ⟨hslot, rfl⟩

theorem retired_of_fresh (hs : HandleInv s) (hfresh : s.born ctx = false) :
    s.retired ctx = false := by
  cases hret : s.retired ctx with
  | false => rfl
  | true =>
    have hborn := hs.retired_born ctx hret
    rw [hfresh] at hborn
    cases hborn

variable [DecidableEq γ]

theorem rehashFinds_of_published (hs : HandleInv s) (hpub : ∀ c, s.pending c = none)
    (hfresh : s.born ctx = false) :
    RehashFinds s.table (update s.ctxHandle ctx 0) s.assigned := by
  intro i c hi
  have hne : c ≠ ctx := fun heq => hs.slot_ne_of_fresh hfresh i (heq ▸ hi)
  rw [update_of_ne hne, assigned_of_published (hpub c)]

/-- A registration that returns keeps the invariant. -/
theorem register_ok (hs : HandleInv s) (hfresh : s.born ctx = false) {handle : ℕ}
    {t' : HandleStorage γ}
    (hreg : Registered s.table s.assigned ctx handle t') :
    HandleInv { s with
      table := t'
      ctxHandle := update s.ctxHandle ctx 0
      born := update s.born ctx true
      pending := update s.pending ctx (some handle) } := by
  set s' : HandleState γ := { s with
      table := t'
      ctxHandle := update s.ctxHandle ctx 0
      born := update s.born ctx true
      pending := update s.pending ctx (some handle) } with hs'
  have hctx := hs.slot_ne_of_fresh hfresh
  have hretired := hs.retired_of_fresh hfresh
  have hassigned : s'.assigned = update s.assigned ctx handle := by
    funext c
    by_cases hc : c = ctx
    · subst hc
      simp [hs', HandleState.assigned]
    · simp [hs', HandleState.assigned, update_of_ne hc]
  have hliveNe : ∀ c, c ≠ ctx → (Live s' c ↔ Live s c) := by
    intro c hc
    simp [hs', Live, update_of_ne hc]
  have hliveCtx : Live s' ctx := by simp [hs', Live, hretired]
  refine ⟨hassigned ▸ hreg.ok, ?_, ?_, ?_, ?_⟩
  · intro i c hi
    by_cases hc : c = ctx
    · exact hc ▸ hliveCtx
    · obtain ⟨j, hj⟩ := (hreg.old c hc).mp ⟨i, hi⟩
      exact (hliveNe c hc).mpr (hs.stored j c hj)
  · intro c hlive
    rw [hassigned]
    by_cases hc : c = ctx
    · subst hc
      rw [update_self]
      exact hreg.new
    · rw [update_of_ne hc]
      exact hreg.slot_old hctx (hs.live c ((hliveNe c hc).mp hlive))
  · intro c h hp
    by_cases hc : c = ctx
    · subst hc
      simp [hs']
    · simp only [hs', update_of_ne hc] at hp ⊢
      exact hs.unpublished c h hp
  · intro c hret
    by_cases hc : c = ctx
    · subst hc
      simp [hs']
    · simp only [hs', update_of_ne hc] at hret ⊢
      exact hs.retired_born c hret

/-- What a registration leaves: the invariant, and a fault only where the probe has
failed. -/
theorem register (hs : HandleInv s) (hfresh : s.born ctx = false) (hfault : s.fault = none)
    (hg : probe s.table s.table.slotSize s.table.handleIndex = none →
      RehashFinds s.table (update s.ctxHandle ctx 0) s.assigned) :
    HandleInv (registerStep s ctx) ∧ (registerStep s ctx).fault ≠ some .slotCollision := by
  unfold registerStep
  cases register_outcome hs.ok (hs.slot_ne_of_fresh hfresh) hg with
  | ok handle t' hrun hreg =>
    simp only [hrun]
    exact ⟨hs.register_ok hfresh hreg, by simp [hfault]⟩
  | nullContext hrun _ _ =>
    simp only [hrun]
    exact ⟨⟨hs.ok, hs.stored, hs.live, hs.unpublished, hs.retired_born⟩, by simp⟩
  | tableLimit hrun _ _ =>
    simp only [hrun]
    exact ⟨⟨hs.ok, hs.stored, hs.live, hs.unpublished, hs.retired_born⟩, by simp⟩

/-- `ctx->handle = handle` keeps the invariant: the handle of no context changes. -/
theorem publish (hs : HandleInv s) {handle : ℕ} (hp : s.pending ctx = some handle) :
    HandleInv (publishStep s ctx handle) := by
  have hassigned : (publishStep s ctx handle).assigned = s.assigned := by
    funext c
    by_cases hc : c = ctx
    · subst hc
      simp [publishStep, HandleState.assigned, hp]
    · simp [publishStep, HandleState.assigned, update_of_ne hc]
  refine ⟨hassigned ▸ hs.ok, hs.stored, hassigned ▸ hs.live, ?_, hs.retired_born⟩
  intro c h hpend
  have hc : c ≠ ctx := by
    rintro rfl
    simp [publishStep] at hpend
  simp only [publishStep, update_of_ne hc] at hpend ⊢
  exact hs.unpublished c h hpend

/-- `skynet_handle_retire` keeps the invariant: the context it takes out is retired. -/
theorem retire (hs : HandleInv s) (handle : ℕ) : HandleInv (retireStep s handle) := by
  unfold retireStep skynetHandleRetire
  rw [hs.ok.and_mask]
  cases hslot : s.table.slot (handle % s.table.slotSize) with
  | none => exact hs
  | some c =>
    by_cases hc : s.ctxHandle c = handle
    swap
    · simp only [if_neg hc]
      exact hs
    simp only [if_pos hc]
    have hold : ∀ i d, update s.table.slot (handle % s.table.slotSize) none i = some d →
        s.table.slot i = some d ∧ d ≠ c := by
      intro i d hi
      rw [update_apply] at hi
      split at hi
      · cases hi
      · next hne => exact ⟨hi, fun hd => hne (hs.ok.slot_unique (hd ▸ hi) hslot)⟩
    refine ⟨⟨hs.ok.size, hs.ok.index_pos, hs.ok.index_le, hs.ok.harbor, ?_, ?_⟩, ?_, ?_,
      hs.unpublished, ?_⟩
    · intro i d hi
      exact hs.ok.lt i d (hold i d hi).1
    · intro i d hi
      exact hs.ok.mod i d (hold i d hi).1
    · intro i d hi
      obtain ⟨hi, hd⟩ := hold i d hi
      have hlive := hs.stored i d hi
      exact ⟨hlive.1, by simpa [update_of_ne hd] using hlive.2⟩
    · intro d hlive
      have hd : d ≠ c := by
        rintro rfl
        simp [Live] at hlive
      have hslotd := hs.live d ⟨hlive.1, by simpa [update_of_ne hd] using hlive.2⟩
      have hne : s.assigned d % s.table.slotSize ≠ handle % s.table.slotSize := by
        intro heq
        rw [heq, hslot, Option.some.injEq] at hslotd
        exact hd hslotd.symm
      show update s.table.slot _ none (s.assigned d % s.table.slotSize) = some d
      rw [update_of_ne hne, hslotd]
    · intro d hret
      by_cases hd : d = c
      · exact hd ▸ (hs.stored _ c hslot).1
      · exact hs.retired_born d (by simpa [update_of_ne hd] using hret)

end HandleInv

/-- What a retirement does that finds its context. -/
theorem retireStep_of_slot [DecidableEq γ] {handle : ℕ} {c : γ}
    (hslot : s.table.slot (handle &&& (s.table.slotSize - 1)) = some c)
    (hc : s.ctxHandle c = handle) :
    retireStep s handle = { s with
      table := { s.table with
        slot := update s.table.slot (handle &&& (s.table.slotSize - 1)) none
        name := s.table.name.filter fun n => n.handle ≠ handle }
      retired := update s.retired c true } := by
  simp only [retireStep, skynetHandleRetire, keepNames_names, hslot, hc, if_true]

/-- The invariant holds when the process starts. -/
theorem handleInv_start [DecidableEq γ] (harbor : ℕ) (s : HandleState γ)
    (hs : (handleMachine γ harbor).start s) : HandleInv s := by
  subst hs
  refine ⟨⟨⟨2, le_rfl, by omega, rfl⟩, le_rfl, ?_, ⟨_, rfl⟩, ?_, ?_⟩, ?_, ?_, ?_, ?_⟩
  · show 1 ≤ handleMask + 1
    omega
  · intro i c hi
    cases hi
  · intro i c hi
    cases hi
  · intro i c hi
    cases hi
  · rintro c ⟨hborn, -⟩
    cases hborn
  · intro c h hp
    cases hp
  · intro c hret
    cases hret

open Option

variable {γ : Type}

/-- Every stored context whose handle is not published yet belongs to slot 0 of the
doubled table. -/
def UnpublishedToSlotZero (s : HandleState γ) : Prop :=
  ∀ i c h, s.table.slot i = some c → s.pending c = some h → h % (s.table.slotSize * 2) = 0

/-- The steps of a run that moves no unpublished context by its zero handle: a
registration whose probe fails finds only unpublished contexts that belong to slot 0 of
the doubled table. -/
def RehashHarmless (s : HandleState γ) : HandleAction γ → Prop
  | .register _ => probe s.table s.table.slotSize s.table.handleIndex = none →
      UnpublishedToSlotZero s
  | _ => True

/-- What publication promises: the assertion of the rehash has not failed, and every
context whose handle is published and that is not retired is found under its handle and
under no other. -/
def PublishedResolve (s : HandleState γ) : Prop := s.fault ≠ some .slotCollision ∧
    ∀ c, Live s c → s.pending c = none → ∀ x, s.grab x = some c ↔ x = s.ctxHandle c

variable [DecidableEq γ]

theorem rehashFinds_of_slotZero {s : HandleState γ} (hs : HandleInv s) {ctx : γ}
    (hfresh : s.born ctx = false) (hzero : UnpublishedToSlotZero s) :
    RehashFinds s.table (update s.ctxHandle ctx 0) s.assigned := by
  intro i c hi
  have hne : c ≠ ctx := fun heq => hs.slot_ne_of_fresh hfresh i (heq ▸ hi)
  rw [update_of_ne hne]
  cases hp : s.pending c with
  | none => rw [assigned_of_published hp]
  | some h =>
    rw [assigned_of_pending hp, (hs.unpublished c h hp).2, hzero i c h hi hp, Nat.zero_mod]

/-- Every step of every thread keeps the invariant. -/
theorem HandleInv.step {s s' : HandleState γ} {a : HandleAction γ} (hs : HandleInv s)
    (hok : RehashHarmless s a) (hnext : handleNext s a = some s') :
    HandleInv s' ∧ s'.fault ≠ some .slotCollision := by
  cases a with
  | register ctx =>
    rw [handleNext, ite_none_right_eq_some, some.injEq] at hnext
    obtain ⟨⟨hfault, hfresh⟩, rfl⟩ := hnext
    exact hs.register hfresh hfault fun hp => rehashFinds_of_slotZero hs hfresh (hok hp)
  | publish ctx =>
    rw [handleNext, ite_none_right_eq_some, map_eq_some_iff] at hnext
    obtain ⟨hfault, handle, hp, rfl⟩ := hnext
    exact ⟨hs.publish hp, by simp [publishStep, hfault]⟩
  | retire handle =>
    rw [handleNext, ite_none_right_eq_some, some.injEq] at hnext
    obtain ⟨hfault, rfl⟩ := hnext
    refine ⟨hs.retire handle, ?_⟩
    unfold retireStep
    split <;> simp [hfault]
  | grab handle =>
    rw [handleNext, ite_none_right_eq_some, some.injEq] at hnext
    obtain ⟨hfault, rfl⟩ := hnext
    exact ⟨hs, by simp [hfault]⟩

theorem handleInv_of_reach (harbor : ℕ) {s : HandleState γ}
    (hs : (handleMachine γ harbor).Reach RehashHarmless s) :
    HandleInv s ∧ s.fault ≠ some .slotCollision := by
  induction hs with
  | start hstart =>
    refine ⟨handleInv_start harbor _ hstart, ?_⟩
    subst hstart
    simp
  | step _ hok hnext ih => exact ih.1.step hok hnext

/-- **Publication.** In every state of every run whose rehashes find no unpublished
context that belongs elsewhere than to slot 0, a published handle resolves to its
context until that is retired, nothing else does, and the assertion of the rehash has
not failed.
SRC: skynet_handle.c:34-71, 136-153, skynet_server.c:160-161 -/
theorem published_handles_resolve (harbor : ℕ) {s : HandleState γ}
    (hs : (handleMachine γ harbor).Reach RehashHarmless s) : PublishedResolve s := by
  have hinv := handleInv_of_reach harbor hs
  exact ⟨hinv.2, fun c hlive hpub x => hinv.1.grab_iff hpub hlive⟩

/-- Two launches that overlap while the table has room, published in the other order. -/
theorem published_handles_resolve_overlapping :
    ∃ s, (handleMachine ℕ 1).Reach RehashHarmless s ∧ s.pending 1 = none ∧
      s.ctxHandle 1 = 0x1000002 ∧ PublishedResolve s := by
  have hroom : ∀ {t : HandleStorage ℕ} {P : Prop}, probe t t.slotSize t.handleIndex ≠ none →
      probe t t.slotSize t.handleIndex = none → P := fun hne hp => absurd hp hne
  have h0 : (handleMachine ℕ 1).Reach RehashHarmless _ := .start rfl
  have h1 := h0.step (a := HandleAction.register 0) (hroom (by decide)) rfl
  have h2 := h1.step (a := HandleAction.register 1) (hroom (by decide)) rfl
  have h3 := h2.step (a := HandleAction.publish 1) trivial rfl
  exact ⟨_, h3, rfl, rfl, published_handles_resolve 1 h3⟩

/-- A launch whose handle is still unpublished when the table doubles: the handles 1 to
3 are taken and published, the context with handle 4 is moved to slot 0. -/
def launchRace : List (HandleAction ℕ) :=
  [.register 0, .publish 0, .register 1, .publish 1, .register 2, .publish 2,
    .register 3, .register 4, .publish 3]

/-- Two launches that race at a doubling lose a published handle: `skynet_handle_grab`
of the handle 4 finds nothing, although its context is published and not retired. -/
theorem unpublished_context_is_lost :
    ∃ s, (handleMachine ℕ 0).Reachable s ∧ ¬ PublishedResolve s := by
  obtain ⟨s, hrun, hborn, hret, hpend, hhandle, hgrab⟩ : ∃ s, (handleMachine ℕ 0).run
      ⟨skynetHandleInit 0, fun _ => 0, fun _ => false, fun _ => none, fun _ => false, none⟩
      launchRace = some s ∧ s.born 3 = true ∧ s.retired 3 = false ∧ s.pending 3 = none ∧
      s.ctxHandle 3 = 4 ∧ s.grab 4 = none := ⟨_, rfl, rfl, rfl, rfl, rfl, rfl⟩
  refine ⟨s, Machine.Reachable.run (.start rfl) hrun, fun hres => ?_⟩
  have hfound := (hres.2 3 ⟨hborn, hret⟩ hpend 4).mpr hhandle.symm
  rw [hgrab] at hfound
  cases hfound

end Skynet.Analysis
