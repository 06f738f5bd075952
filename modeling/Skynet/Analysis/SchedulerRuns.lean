import Skynet.Analysis.SchedulerSteps

/-!
# The scheduler over runs

Every step of every thread keeps the invariant, so it holds in every reachable state.

The invariant in the terms of the scheduler's users: a queue is linked once or held by
one thread, a queue with a message is linked or held, and so no two workers dispatch
from one queue and no message waits in a queue that nobody will pop.

What is pushed is popped in order or still in the queue; what is dropped is answered
with an error unless its source is 0; and a queue is freed once, empty, and not touched
again.
-/

namespace Skynet.Analysis

open Library Model Option Function

variable {θ ι δ : Type} [DecidableEq ι]

def resumePc (alive : Bool) : Cont ι → Pc ι δ
  | .stop => .idle
  | .workerLoop q => .worker q
  | .dropLoop q handle by_ => .dropping q handle by_
  | .created q => if alive then .initialised q else .linking q
  | .failRetire q handle => .retiring handle (.failRelease q handle)
  | .failRelease q handle => .mqRelease q handle .creator

def afterReleasePc : ReleaseCaller → Pc ι δ
  | .worker => .worker none
  | .creator => .idle

section Resume

variable (alive : Bool) (k : Cont ι) (x : ι)

omit [DecidableEq ι] in
theorem resume_eq [DecidableEq θ] (s : SchedState θ ι δ) (t : θ) :
    s.resume t alive k = s.goto t (resumePc alive k) := by
  cases k with
  | created q => cases alive <;> rfl
  | stop | workerLoop | dropLoop | failRetire | failRelease => rfl

@[simp] theorem holds_resumePc : holds x (resumePc alive k : Pc ι δ) = contHolds x k := by
  cases k with
  | workerLoop q => cases q <;> rfl
  | created q => cases alive <;> rfl
  | stop | dropLoop | failRetire | failRelease => rfl

@[simp] theorem refs_resumePc : refs x (resumePc alive k : Pc ι δ) = 0 := by
  cases k with
  | created q => cases alive <;> rfl
  | stop | workerLoop | dropLoop | failRetire | failRelease => rfl

@[simp] theorem dels_resumePc : dels x (resumePc alive k : Pc ι δ) = 0 := by
  cases k with
  | created q => cases alive <;> rfl
  | stop | workerLoop | dropLoop | failRetire | failRelease => rfl

omit [DecidableEq ι] in
theorem pcOk_resumePc {s : SchedState θ ι δ} (hk : ContOk s k) :
    PcOk s (resumePc alive k : Pc ι δ) := by
  cases k with
  | created q => cases alive <;> trivial
  | stop | workerLoop => trivial
  | dropLoop | failRetire | failRelease => exact hk

omit [DecidableEq ι] in
theorem afterRelease_eq [DecidableEq θ] (s : SchedState θ ι δ) (t : θ) (by_ : ReleaseCaller) :
    s.afterRelease t by_ = s.goto t (afterReleasePc by_) := by
  cases by_ <;> rfl

@[simp] theorem holds_afterReleasePc (by_ : ReleaseCaller) :
    holds x (afterReleasePc by_ : Pc ι δ) = 0 := by
  cases by_ <;> rfl

@[simp] theorem refs_afterReleasePc (by_ : ReleaseCaller) :
    refs x (afterReleasePc by_ : Pc ι δ) = 0 := by
  cases by_ <;> rfl

@[simp] theorem dels_afterReleasePc (by_ : ReleaseCaller) :
    dels x (afterReleasePc by_ : Pc ι δ) = 0 := by
  cases by_ <;> rfl

omit [DecidableEq ι] in
theorem pcOk_afterReleasePc (s : SchedState θ ι δ) (by_ : ReleaseCaller) :
    PcOk s (afterReleasePc by_ : Pc ι δ) := by
  cases by_ <;> trivial

end Resume

variable [DecidableEq θ] [Fintype θ]

namespace SchedInv

variable {stray : Prop} {s s' : SchedState θ ι δ} {l : List ι} {t : θ}

/-- `skynet_context_new` up to the return of `skynet_mq_create`. -/
theorem create [Inhabited δ] (h : SchedInv stray s l) {ctx : ι} {handle : ℕ} (hpc : s.pc t = .idle)
    (hborn : s.born ctx = false) (hne : handle ≠ 0) (htab : s.table handle = none) :
    SchedInv stray ({ s.setMq ctx (skynetMqCreate handle) with
      born := update s.born ctx true
      ref := update s.ref ctx 2
      table := update s.table handle (some ctx) }.goto t (.initing ctx)) l := by
  have holdne : ∀ x, s.born x = true → x ≠ ctx := by
    rintro x hx rfl
    rw [hborn] at hx
    cases hx
  have hlater : Later s { s.setMq ctx (skynetMqCreate handle) with
      born := update s.born ctx true
      ref := update s.ref ctx 2
      table := update s.table handle (some ctx) } := by
    intro x hx
    simp only [SchedState.setMq, update_of_ne (holdne x hx)]
    exact ⟨hx, trivial, fun hrel => ⟨hrel, id⟩⟩
  have hrefs := threadSum_update (refs ctx) s.pc t (.initing ctx : Pc ι δ)
  have hholds := threadSum_update (holds ctx) s.pc t (.initing ctx : Pc ι δ)
  simp only [hpc, refs, holds, if_true, Nat.add_zero] at hrefs hholds
  refine h.goto rfl hlater h.global (fun k c hk => ?_) trivial h.faultOk fun x => ?_
  · simp only [update_apply] at hk
    split at hk
    · next heq =>
      cases hk
      simp only [SchedState.setMq, update_self]
      exact ⟨trivial, heq.symm⟩
    · obtain ⟨hb, hh⟩ := h.table k c hk
      obtain ⟨hb', hh', -⟩ := hlater c hb
      exact ⟨hb', hh'.trans hh⟩
  rw [threadSum_update_eq (show dels x (.initing ctx : Pc ι δ) = dels x (s.pc t) by rw [hpc]; rfl)]
  by_cases hx : x = ctx
  · subst hx
    rw [hrefs, hholds]
    have hdata := (h.queue x).create hborn hne
    refine Eq.mp ?_ hdata
    simp [queueData, SchedState.setMq, skynetMqCreate, Nat.add_assoc]
  · have hne' := Ne.symm hx
    rw [threadSum_update_eq (show refs x (.initing ctx : Pc ι δ) = refs x (s.pc t) by
        rw [hpc]; exact if_neg hne'),
      threadSum_update_eq (show holds x (.initing ctx : Pc ι δ) = holds x (s.pc t) by
        rw [hpc]; exact if_neg hne')]
    refine h.queue_of_eq ?_
    have hsame : update s.table handle (some ctx) (s.mq x).handle = some x ↔
        s.table (s.mq x).handle = some x := by
      rw [update_apply]
      split
      · next heq =>
        rw [heq, htab]
        simp [hne']
      · exact Iff.rfl
    simp only [queueData, SchedState.setMq, update_of_ne hx, hsame]

omit [DecidableEq ι] [DecidableEq θ] [Fintype θ] in
theorem touch_eq {q : ι} {k : SchedState θ ι δ} (hfreed : s.freed q = false) : s.touch q k = k := by
  rw [SchedState.touch, hfreed]
  simp

/-! ## One step of one thread -/

section Step

variable [Inhabited δ] {weight : θ → ℤ} {harbor : ℕ}

theorem step_call (h : SchedInv stray s l) {k : Cont ι} (hnext : schedStep weight harbor s t = some s')
    (hpc : (∃ handle m, s.pc t = .grabbing handle m k) ∨ (∃ ctx m, s.pc t = .pushing ctx m k) ∨
      (∃ ctx, s.pc t = .releasing ctx k) ∨ (∃ ctx, s.pc t = .deleting ctx k) ∨
      ∃ handle, s.pc t = .retiring handle k) : ∃ l', SchedInv stray s' l' := by
  have hk := h.pcOk t
  obtain ⟨handle, m, hpc⟩ | ⟨ctx, m, hpc⟩ | ⟨ctx, hpc⟩ | ⟨ctx, hpc⟩ | ⟨handle, hpc⟩ := hpc
  all_goals
    rw [hpc] at hk
    simp only [schedStep, hpc, resume_eq, some.injEq] at hnext
  · subst hnext
    unfold SchedState.grab
    split
    · refine ⟨l, h.move (fun x => ?_) (pcOk_resumePc _ _ hk)⟩
      rw [hpc, holds_resumePc, refs_resumePc, dels_resumePc]
      exact ⟨rfl, rfl, rfl⟩
    · next ctx htab =>
      refine ⟨l, h.grab htab (fun x => ?_) hk⟩
      rw [hpc]
      exact ⟨rfl, (Nat.zero_add _).symm, rfl⟩
  · subst hnext
    have hctx : 0 < refs ctx (s.pc t) := by simp [hpc, refs]
    rw [touch_eq (h.of_refs hctx).2.2.2.1]
    exact h.mqPush m hctx (by rw [hpc]; exact fun _ => ⟨rfl, rfl, rfl⟩) hk
  · subst hnext
    split
    · next hone =>
      refine ⟨l, h.releaseLast hone (fun x => ?_) (fun x => ?_) (fun x => ?_) hk⟩
      · rw [hpc]; rfl
      · rw [hpc]; exact Nat.zero_add _
      · rw [hpc]; exact (Nat.zero_add _).symm
    · next hne =>
      refine ⟨l, h.release hne (fun x => ?_) (fun x => ?_) (fun x => ?_) (pcOk_resumePc _ _ hk)⟩
      · rw [hpc, holds_resumePc]; rfl
      · rw [hpc, refs_resumePc]; exact Nat.zero_add _
      · rw [hpc, dels_resumePc]; rfl
  · subst hnext
    have hctx : 0 < dels ctx (s.pc t) := by simp [hpc, dels]
    have hle := le_threadSum (dels ctx) s.pc t
    have hfreed := ((h.queue ctx).of_dels (by show 0 < threadSum _ _; omega)).2.2.2.2
    rw [touch_eq hfreed]
    refine h.markRelease hctx (fun x => ?_) (fun x => ?_) (fun x => ?_) (pcOk_resumePc _ _ hk)
    · rw [hpc, holds_resumePc]; rfl
    · rw [hpc, refs_resumePc]; rfl
    · rw [hpc, dels_resumePc]; exact Nat.zero_add _
  · split at hnext
    · cases hnext
      refine ⟨l, h.move (fun x => ?_) (pcOk_resumePc _ _ hk)⟩
      rw [hpc, holds_resumePc, refs_resumePc, dels_resumePc]
      exact ⟨rfl, rfl, rfl⟩
    · next ctx htab =>
      cases hnext
      refine ⟨l, h.retire htab (fun x => ?_) hk⟩
      rw [hpc]
      exact ⟨rfl, (Nat.zero_add _).symm, rfl⟩

/-- The steps of the dispatch function. -/
theorem step_worker (h : SchedInv stray s l) (hapart : stray ∨ HandlesApart s) (hnext : schedStep weight harbor s t = some s')
    (hpc : (∃ o, s.pc t = .worker o) ∨ (∃ q ctx i n, s.pc t = .popping q ctx i n) ∨
      (∃ q ctx m, s.pc t = .measuring q ctx m) ∨ (∃ q ctx, s.pc t = .finishing q ctx) ∨
      ∃ q nq ctx, s.pc t = .swapping q nq ctx) : ∃ l', SchedInv stray s' l' := by
  have hk := h.pcOk t
  obtain ⟨o, hpc⟩ | ⟨q, ctx, i, n, hpc⟩ | ⟨q, ctx, m, hpc⟩ | ⟨q, ctx, hpc⟩ | ⟨q, nq, ctx, hpc⟩ := hpc
  · cases o with
    | none =>
      simp only [schedStep, hpc, some.injEq] at hnext
      subst hnext
      refine h.globalPop (fun o => .worker o) (fun _ _ => rfl) (fun o x => ⟨?_, ?_⟩)
        fun o => trivial
      · rw [hpc]
        cases o with
        | none => rfl
        | some q => simp [holds]
      · rw [hpc]
        exact ⟨rfl, rfl⟩
    | some q =>
      simp only [schedStep, hpc, some.injEq] at hnext
      subst hnext
      obtain ⟨hfreed, -, hb⟩ := h.of_holds (t := t) (q := q) (by simp [hpc, holds])
      rw [touch_eq hfreed]
      unfold SchedState.grab
      split
      · exact ⟨l, h.move (by rw [hpc]; exact fun _ => ⟨rfl, rfl, rfl⟩) ⟨hb, rfl⟩⟩
      · next ctx htab =>
        obtain ⟨hctx, hhandle⟩ := h.table _ _ htab
        refine ⟨l, h.grab htab (fun x => ?_) ⟨hb, hctx, hhandle⟩⟩
        rw [hpc]
        exact ⟨rfl, (Nat.zero_add _).symm, rfl⟩
  all_goals
    rw [hpc] at hk
    simp only [schedStep, hpc, some.injEq] at hnext
    subst hnext
  · have hq : 0 < holds q (s.pc t) := by simp [hpc, holds]
    rw [touch_eq (h.of_holds hq).1]
    split
    · next q' hm =>
      refine ⟨l, h.popIdle (fun hrel => ?_) hm (fun x => ?_) trivial⟩
      · have hctx : 0 < refs ctx (s.pc t) := by simp [hpc, refs]
        obtain ⟨-, -, hnot, hctxfreed, -⟩ := h.of_refs hctx
        refine hapart.resolve_right fun hapart => ?_
        have hne : ctx ≠ q := by
          rintro rfl
          omega
        obtain hf | hf := hapart q ctx hne hk.1 hk.2.1 hk.2.2
        · exact absurd ((h.of_holds hq).1.symm.trans hf) (by decide)
        · exact absurd (hctxfreed.symm.trans hf) (by decide)
      · rw [hpc]
        exact ⟨Nat.zero_add _, rfl, rfl⟩
    · next message q' hm =>
      have herr : s.errors = update s.errors q (s.errors q ++
          toldSources (s.mq q).handle [(message, .dispatched t)]) := by
        simp [toldSources]
      split
      · exact ⟨l, h.pop hq hm herr (by rw [hpc]; exact fun _ => ⟨rfl, rfl, rfl⟩) hk⟩
      · exact ⟨l, h.pop hq hm herr (by rw [hpc]; exact fun _ => ⟨rfl, rfl, rfl⟩) hk⟩
  · have hq : 0 < holds q (s.pc t) := by simp [hpc, holds]
    rw [touch_eq (h.of_holds hq).1]
    exact ⟨l, h.move (by rw [hpc]; exact fun _ => ⟨rfl, rfl, rfl⟩) hk⟩
  · split
    swap
    · exact ⟨l, h.halt (.inr (.inl rfl))⟩
    refine h.globalPop (t := t) (fun o => o.elim (.releasing ctx (.workerLoop (some q)))
      (.swapping q · ctx)) (fun o s => ?_) (fun o x => ⟨?_, ?_⟩) fun o => ?_
    · cases o <;> rfl
    · rw [hpc]
      cases o with
      | none => rfl
      | some nq => simp [holds]
    · rw [hpc]
      cases o <;> exact ⟨rfl, rfl⟩
    · cases o with
      | none => trivial
      | some nq => exact hk
  · refine h.globalPush (fun x => ?_) trivial
    rw [hpc]
    exact ⟨Nat.add_comm _ _, rfl, rfl⟩

omit [DecidableEq ι] [Fintype θ] in
/-- What a thread does after `drop_message` of a message it has just popped. -/
theorem sendError_eq (harbor : ℕ) (t : θ) (s : SchedState θ ι δ) (q : ι) (source destination : ℕ) (k : Cont ι)
    [DecidableEq ι] :
    ∃ pc', s.sendError harbor t q source destination k = { s with
        errors := if destination = 0 then s.errors else
          update s.errors q (s.errors q ++ [(source, destination)]) }.goto t pc' ∧
      (pc' = resumePc true k ∨ pc' = .grabbing destination ⟨source, 0, default, ptypeError⟩ k) := by
  unfold SchedState.sendError
  split
  · exact ⟨resumePc true k, resume_eq _ _ _ _, .inl rfl⟩
  · split
    · exact ⟨resumePc true k, resume_eq _ _ _ _, .inl rfl⟩
    · exact ⟨_, rfl, .inr rfl⟩

/-- The steps of `skynet_mq_release` and the last steps of `skynet_context_new`. -/
theorem step_release (h : SchedInv stray s l) (hnext : schedStep weight harbor s t = some s')
    (hpc : (∃ q handle by_, s.pc t = .mqRelease q handle by_) ∨
      (∃ q handle by_, s.pc t = .dropping q handle by_) ∨ (∃ q by_, s.pc t = .freeing q by_) ∨
      (∃ ctx, s.pc t = .initialised ctx) ∨ ∃ q, s.pc t = .linking q) :
    ∃ l', SchedInv stray s' l' := by
  have hk := h.pcOk t
  obtain ⟨q, handle, by_, hpc⟩ | ⟨q, handle, by_, hpc⟩ | ⟨q, by_, hpc⟩ | ⟨q, hpc⟩ | ⟨q, hpc⟩ := hpc
  all_goals
    rw [hpc] at hk
    simp only [schedStep, hpc, afterRelease_eq, some.injEq] at hnext
    subst hnext
    have hq : 0 < holds q (s.pc t) := by simp [hpc, holds]
    obtain ⟨hfreed, hmem, hb⟩ := h.of_holds hq
  · rw [touch_eq hfreed]
    have hflags := (h.queue q).flags hb
    split
    · have hone : (s.mq q).release = 1 := by
        have hle : (s.mq q).release ≤ 1 := hflags.2.2
        omega
      exact ⟨l, h.move (by rw [hpc]; exact fun _ => ⟨rfl, rfl, rfl⟩) ⟨hk.1, hk.2, hone⟩⟩
    · refine h.globalPush (fun x => ?_) (pcOk_afterReleasePc s by_)
      rw [hpc, holds_afterReleasePc, refs_afterReleasePc, dels_afterReleasePc]
      exact ⟨Nat.zero_add _, rfl, rfl⟩
  · rw [touch_eq hfreed]
    obtain ⟨-, hhandle, hrel⟩ := hk
    split
    · next q' hm =>
      refine ⟨l, h.popDropped hq hrel hm (fun x => ?_) ?_⟩
      rw [hpc]
      exact ⟨rfl, rfl, rfl⟩
      · exact ⟨hb, hrel, ((h.queue q).pop_empty_data hb hm).1⟩
    · next message q' hm =>
      have hne : handle ≠ 0 := hhandle ▸ (h.queue q).flags hb |>.1
      rw [if_neg hne]
      obtain ⟨pc', heq, hpc'⟩ := sendError_eq harbor t
        ((s.setMq q q').recordPop q message (.dropped t)) q handle message.source
        (.dropLoop q handle by_)
      rw [heq]
      refine ⟨l, h.pop hq hm ?_ (fun x => ?_) ?_⟩
      · rw [hhandle]
        by_cases hzero : message.source = 0
        · simp [toldSources, hzero, SchedState.setMq, SchedState.recordPop]
        · simp [toldSources, hzero, SchedState.setMq, SchedState.recordPop]
      · rw [hpc]
        obtain rfl | rfl := hpc' <;> exact ⟨rfl, rfl, rfl⟩
      · obtain rfl | rfl := hpc' <;> exact ⟨hb, hhandle, hrel⟩
  · rw [touch_eq hfreed, if_pos (h.global.next_eq_none hmem)]
    refine ⟨l, h.free hk.2.1 hk.2.2 (fun x => ?_) (pcOk_afterReleasePc s by_)⟩
    rw [hpc, holds_afterReleasePc, refs_afterReleasePc, dels_afterReleasePc]
    exact ⟨Nat.zero_add _, rfl, rfl⟩
  · have hlater : Later s { s with init := update s.init q true } :=
      fun _ hx => ⟨hx, rfl, fun hrel => ⟨hrel, id⟩⟩
    refine ⟨l, h.goto (r := { s with init := update s.init q true }) rfl hlater h.global
      h.table trivial h.faultOk fun x => ?_⟩
    rw [threadSum_update_eq (show holds x (.linking q : Pc ι δ) = holds x (s.pc t) by rw [hpc]; rfl),
      threadSum_update_eq (show refs x (.linking q : Pc ι δ) = refs x (s.pc t) by rw [hpc]; rfl),
      threadSum_update_eq (show dels x (.linking q : Pc ι δ) = dels x (s.pc t) by rw [hpc]; rfl)]
    exact h.queue_of_eq rfl
  · refine h.globalPush (fun x => ?_) trivial
    rw [hpc]
    exact ⟨Nat.zero_add _, rfl, rfl⟩

/-- **Every step keeps the invariant.** -/
theorem step (h : SchedInv stray s l) {a : SchedAction θ ι δ} (hapart : stray ∨ HandlesApart s)
    (hnext : schedNext weight harbor s a = some s') : ∃ l', SchedInv stray s' l' := by
  cases a with
  | send t handle message =>
    simp only [schedNext] at hnext
    split at hnext
    · next hpc =>
      cases hnext
      exact ⟨l, h.move (by rw [hpc]; exact fun _ => ⟨rfl, rfl, rfl⟩) trivial⟩
    · cases hnext
  | kill t handle =>
    simp only [schedNext] at hnext
    split at hnext
    · next hpc =>
      cases hnext
      exact ⟨l, h.move (by rw [hpc]; exact fun _ => ⟨rfl, rfl, rfl⟩) trivial⟩
    · cases hnext
  | borrow t handle =>
    simp only [schedNext] at hnext
    split at hnext
    · next hpc =>
      cases hnext
      unfold SchedState.grab
      split
      · exact ⟨l, h⟩
      · next ctx htab =>
        refine ⟨l, h.grab htab (fun x => ?_) trivial⟩
        rw [hpc]
        exact ⟨rfl, (Nat.zero_add _).symm, rfl⟩
    · cases hnext
  | create t ctx handle =>
    simp only [schedNext] at hnext
    split at hnext
    · next hpc =>
      rw [ite_none_right_eq_some] at hnext
      obtain ⟨⟨hborn, hne, htab⟩, hnext⟩ := hnext
      cases hnext
      exact ⟨l, h.create hpc hborn hne htab⟩
    · cases hnext
  | initReturn t ok =>
    simp only [schedNext] at hnext
    split at hnext
    · next ctx _ hpc =>
      cases hnext
      have hb := (h.of_holds (t := t) (q := ctx) (by simp [hpc, holds])).2.2
      refine ⟨l, h.move (fun x => ?_) ?_⟩
      · rw [hpc]
        cases ok <;> exact ⟨rfl, rfl, rfl⟩
      · cases ok
        · exact ⟨hb, rfl⟩
        · trivial
    · cases hnext
  | callbackReturn t hasCallback =>
    simp only [schedNext] at hnext
    split at hnext
    · next q ctx i n message _ hpc =>
      cases hnext
      have hk := h.pcOk t
      rw [hpc] at hk
      have hq : 0 < holds q (s.pc t) := by simp [hpc, holds]
      rw [touch_eq (h.of_holds hq).1]
      split
      · exact ⟨l, h.halt (.inl rfl)⟩
      split
      · exact ⟨l, h.overload hq (by rw [hpc]; exact fun _ => ⟨rfl, rfl, rfl⟩) hk⟩
      · exact ⟨l, h.overload hq (by rw [hpc]; exact fun _ => ⟨rfl, rfl, rfl⟩) hk⟩
    · cases hnext
  | step t =>
    rw [schedNext, ite_none_right_eq_some] at hnext
    obtain ⟨-, hnext⟩ := hnext
    cases hpc : s.pc t with
    | idle | initing | dispatching => simp [schedStep, hpc] at hnext
    | grabbing handle m k => exact h.step_call hnext (.inl ⟨_, _, hpc⟩)
    | pushing ctx m k => exact h.step_call hnext (.inr (.inl ⟨_, _, hpc⟩))
    | releasing ctx k => exact h.step_call hnext (.inr (.inr (.inl ⟨_, hpc⟩)))
    | deleting ctx k => exact h.step_call hnext (.inr (.inr (.inr (.inl ⟨_, hpc⟩))))
    | retiring handle k => exact h.step_call hnext (.inr (.inr (.inr (.inr ⟨_, hpc⟩))))
    | worker o => exact h.step_worker hapart hnext (.inl ⟨_, hpc⟩)
    | popping q ctx i n => exact h.step_worker hapart hnext (.inr (.inl ⟨_, _, _, _, hpc⟩))
    | measuring q ctx m => exact h.step_worker hapart hnext (.inr (.inr (.inl ⟨_, _, _, hpc⟩)))
    | finishing q ctx => exact h.step_worker hapart hnext (.inr (.inr (.inr (.inl ⟨_, _, hpc⟩))))
    | swapping q nq ctx => exact h.step_worker hapart hnext (.inr (.inr (.inr (.inr ⟨_, _, _, hpc⟩))))
    | mqRelease q handle by_ => exact h.step_release hnext (.inl ⟨_, _, _, hpc⟩)
    | dropping q handle by_ => exact h.step_release hnext (.inr (.inl ⟨_, _, _, hpc⟩))
    | freeing q by_ => exact h.step_release hnext (.inr (.inr (.inl ⟨_, _, hpc⟩)))
    | initialised ctx => exact h.step_release hnext (.inr (.inr (.inr (.inl ⟨_, hpc⟩))))
    | linking q => exact h.step_release hnext (.inr (.inr (.inr (.inr ⟨_, hpc⟩))))

end Step

theorem start {weight : θ → ℤ} {harbor : ℕ} [Inhabited δ] {s : SchedState θ ι δ}
    (hs : (schedMachine weight harbor).start s) : SchedInv stray s [] := by
  obtain ⟨hpc, hs⟩ := hs
  have hholds : ∀ q, threadSum (holds q) s.pc = 0 := fun q => threadSum_eq_zero fun t => by
    obtain hpc | hpc := hpc t <;> rw [hpc] <;> rfl
  have hrefs : ∀ q, threadSum (refs q) s.pc = 0 := fun q => threadSum_eq_zero fun t => by
    obtain hpc | hpc := hpc t <;> rw [hpc] <;> rfl
  have hdels : ∀ q, threadSum (dels q) s.pc = 0 := fun q => threadSum_eq_zero fun t => by
    obtain hpc | hpc := hpc t <;> rw [hpc] <;> rfl
  have hpcOk : ∀ t, PcOk s (s.pc t) := fun t => by
    obtain hpc | hpc := hpc t <;> rw [hpc] <;> trivial
  have hborn : ∀ q, s.born q = false := fun q => by rw [hs]
  refine ⟨?_, fun k c hk => ?_, fun q => ?_, hpcOk, ?_⟩
  · rw [hs]
    exact LinkedFifo.represents_empty
  · rw [hs] at hk
    cases hk
  · rw [hholds, hrefs, hdels]
    have hnot : s.born q = true → False := fun hb => by
      rw [hborn q] at hb
      cases hb
    refine ⟨fun _ => ?_, fun hb => (hnot hb).elim, fun hb => (hnot hb).elim,
      fun hb => (hnot hb).elim, fun hb => (hnot hb).elim, Nat.zero_le 1, fun hf => ?_,
      fun hb => (hnot hb).elim, fun hb => (hnot hb).elim, fun hb => (hnot hb).elim,
      fun hb => (hnot hb).elim, fun hb => (hnot hb).elim⟩
    · rw [hs]
      exact ⟨rfl, rfl, rfl, rfl, rfl, rfl, rfl, rfl⟩
    · rw [hs] at hf
      cases hf
  · rw [hs]
    rintro _ ⟨⟩

/-- In a run whose states all keep the handles apart no queue strays. -/
theorem of_reach {weight : θ → ℤ} {harbor : ℕ} [Inhabited δ] {s : SchedState θ ι δ}
    {ok : SchedState θ ι δ → SchedAction θ ι δ → Prop}
    (hok : ∀ s a, ok s a → stray ∨ HandlesApart s) (hs : (schedMachine weight harbor).Reach ok s) :
    ∃ l, SchedInv stray s l :=
  hs.invariant (I := fun s => ∃ l, SchedInv stray s l) (fun _ hstart => ⟨[], start hstart⟩)
    fun s a _ ⟨_, h⟩ hs hnext => h.step (hok s a hs) hnext

end SchedInv

variable {θ ι δ : Type}

/-- The queue a worker dispatches from and the context it has grabbed for it, from the
grab to the release. -/
def dispatches : Pc ι δ → Option (ι × ι)
  | .popping q ctx _ _ | .measuring q ctx _ | .dispatching q ctx _ _ _ | .finishing q ctx
  | .swapping q _ ctx => some (q, ctx)
  | _ => none

variable [DecidableEq ι]

theorem holds_of_dispatches {pc : Pc ι δ} {q ctx : ι} (h : dispatches pc = some (q, ctx)) :
    0 < holds q pc := by
  cases pc with
  | popping | measuring | dispatching | finishing | swapping =>
    cases h
    simp [holds]
  | idle | grabbing | pushing | releasing | deleting | retiring | worker | mqRelease | dropping
  | freeing | initing | initialised | linking => cases h

omit [DecidableEq ι] in
/-- The context a worker has grabbed is the owner of the queue, unless the handle of the
queue has been issued again. -/
theorem eq_or_reissued_of_dispatches {s : SchedState θ ι δ} {pc : Pc ι δ} {q ctx : ι}
    (hok : PcOk s pc) (h : dispatches pc = some (q, ctx)) : ctx = q ∨ Reissued s q := by
  cases pc with
  | popping | measuring | dispatching | finishing | swapping =>
    cases h
    obtain ⟨-, hborn, hhandle⟩ := hok
    exact or_iff_not_imp_left.mpr fun hne => ⟨_, hne, hborn, hhandle⟩
  | idle | grabbing | pushing | releasing | deleting | retiring | worker | mqRelease | dropping
  | freeing | initing | initialised | linking => cases h

variable [DecidableEq θ] [Fintype θ]

/-- What the scheduler promises, with the global list spelled by its pointers. -/
structure Exclusive (s : SchedState θ ι δ) (l : List ι) : Prop where
  global : s.global.Represents l
  /-- Linked once, or held by one thread: a worker, or the creator before its first
  push. -/
  one_place : ∀ q, l.count q + threadSum (holds q) s.pc ≤ 1
  /-- The flag `in_global` is 0 in no place, unless the queue is marked for release. -/
  idle_nowhere : ∀ q, s.born q = true → (s.mq q).inGlobal = 0 → (s.mq q).release = 0 →
    q ∉ l ∧ ∀ t, holds q (s.pc t) = 0
  /-- A queue that holds a message, of a live service or a dead one, is linked or held. -/
  message_somewhere : ∀ q, s.born q = true → contents (s.mq q) ≠ [] →
    q ∈ l ∨ ∃ t, 0 < holds q (s.pc t)
  /-- No two workers dispatch messages of one service: a queue is the index of its
  service. -/
  dispatch_exclusive : ∀ t u q ctx q' ctx', t ≠ u → dispatches (s.pc t) = some (q, ctx) →
    dispatches (s.pc u) = some (q', ctx') → q ≠ q'
  /-- Nor do they run one callback, unless the 24 bits of a handle have wrapped around and
  the handle of one of the queues has been issued again. -/
  context_exclusive : ∀ t u q ctx q' ctx', t ≠ u → dispatches (s.pc t) = some (q, ctx) →
    dispatches (s.pc u) = some (q', ctx') → ctx = ctx' → Reissued s q ∨ Reissued s q'

omit [DecidableEq θ] in
theorem exists_holds_of_threadSum {pc : θ → Pc ι δ} {q : ι} (h : 0 < threadSum (holds q) pc) :
    ∃ t, 0 < holds q (pc t) := by
  by_contra hnone
  have hzero : threadSum (holds q) pc = 0 := threadSum_eq_zero fun t => by
    by_contra hne
    exact hnone ⟨t, Nat.pos_of_ne_zero hne⟩
  omega

omit [DecidableEq θ] in
theorem SchedInv.placed_of_contents {stray : Prop} {s : SchedState θ ι δ} {l : List ι} (h : SchedInv stray s l) {q : ι}
    (hb : s.born q = true) (hne : contents (s.mq q) ≠ []) :
    s.freed q = false ∧ l.count q + threadSum (holds q) s.pc = 1 := by
  have hok := h.queue q
  have hfreed : s.freed q = false := by
    by_contra hf
    have hf' : s.freed q = true := by simpa using hf
    exact hne (hok.freed hf').2.2
  refine ⟨hfreed, ?_⟩
  obtain ⟨-, hin, hrel⟩ := hok.flags hb
  obtain hzero | hone : (s.mq q).release = 0 ∨ (s.mq q).release = 1 := by
    have hle : (s.mq q).release ≤ 1 := hrel
    omega
  · obtain hi | hi : (s.mq q).inGlobal = 0 ∨ (s.mq q).inGlobal = 1 := by
      have hle : (s.mq q).inGlobal ≤ 1 := hin
      omega
    · exact absurd (hok.idle hb hi hzero).2 hne
    · exact hok.busy hb hi hzero
  · obtain hf | hplaced | ⟨-, hnil, -⟩ := hok.marked hb hone
    · exact absurd (hfreed.symm.trans hf) (by decide)
    · exact hplaced
    · exact absurd hnil hne

/-- **Exclusivity and no lost wakeup.** In every reachable state, whatever the threads
have done and in whatever order, every queue is in at most one place, a queue with a
message is in one, and no two workers dispatch from one queue.  Of one context they do not
run the callback either, unless the handle of one of the queues has been issued again.
SRC: skynet_mq.c:43-250, skynet_server.c:125-240, 298-353 -/
theorem scheduler_exclusive [Inhabited δ] {weight : θ → ℤ} {harbor : ℕ} {s : SchedState θ ι δ}
    (hs : (schedMachine weight harbor).Reachable s) : ∃ l, Exclusive s l := by
  obtain ⟨l, h⟩ : ∃ l, SchedInv True s l := SchedInv.of_reach (fun _ _ _ => .inl trivial) hs
  refine ⟨l, h.global, fun q => (h.queue q).one, fun q hb hi hr => ?_, fun q hb hne => ?_,
    fun t u q ctx q' ctx' htu ht hu => ?_, fun t u q ctx q' ctx' htu ht hu => ?_⟩
  · have hzero : l.count q + threadSum (holds q) s.pc = 0 := ((h.queue q).idle hb hi hr).1
    exact ⟨List.count_eq_zero.mp (by omega), eq_zero_of_threadSum (by omega)⟩
  · have hplaced := (h.placed_of_contents hb hne).2
    by_cases hmem : q ∈ l
    · exact .inl hmem
    · have hcount := List.count_eq_zero.mpr hmem
      exact .inr (exists_holds_of_threadSum (by omega))
  · rintro rfl
    have hone : l.count q + threadSum (holds q) s.pc ≤ 1 := (h.queue q).one
    have hboth := add_le_threadSum (holds q) s.pc htu
    have hpos := holds_of_dispatches ht
    have hpos' := holds_of_dispatches hu
    omega
  · rintro rfl
    obtain rfl | hre := eq_or_reissued_of_dispatches (h.pcOk t) ht
    · obtain rfl | hre' := eq_or_reissued_of_dispatches (h.pcOk u) hu
      · have hone : l.count ctx + threadSum (holds ctx) s.pc ≤ 1 := (h.queue ctx).one
        have hboth := add_le_threadSum (holds ctx) s.pc htu
        have hpos := holds_of_dispatches ht
        have hpos' := holds_of_dispatches hu
        omega
      · exact .inr hre'
    · exact .inl hre

def twoThreads {ι : Type} : SchedState (Fin 2) ι Unit where
  global := .empty
  mq _ := skynetMqCreate 0
  born _ := false
  freed _ := false
  ref _ := 0
  init _ := false
  table _ := none
  pc t := if t = 0 then .worker none else .idle
  fault := none
  pushed _ := []
  popped _ := []
  errors _ := []

def launchAndSend {ι : Type} (ctx : ι) (source : ℕ) : List (SchedAction (Fin 2) ι Unit) :=
  [.create 1 ctx 1, .initReturn 1 true, .step 1, .step 1, .step 1,
    .send 1 1 ⟨source, 0, (), 0⟩, .step 1, .step 1, .step 1]

theorem twoThreads_start {ι : Type} [DecidableEq ι] (weight : Fin 2 → ℤ) (harbor : ℕ) :
    (schedMachine weight harbor).start (twoThreads (ι := ι)) :=
  ⟨fun t => by
    by_cases ht : t = 0
    · exact .inr (by simp [twoThreads, ht])
    · exact .inl (by simp [twoThreads, ht]), rfl⟩

/-- A worker takes the queue of a service that has been sent a message. -/
theorem scheduler_exclusive_dispatching :
    ∃ s : SchedState (Fin 2) ℕ Unit, (schedMachine (fun _ => 0) 0).Reachable s ∧
      dispatches (s.pc 0) = some (0, 0) ∧ ∃ l, Exclusive s l := by
  obtain ⟨s, hrun, hdisp⟩ : ∃ s, (schedMachine (fun _ => 0) 0).run twoThreads
      (launchAndSend 0 5 ++ [.step 0, .step 0, .step 0, .step 0]) = some s ∧
      dispatches (s.pc 0) = some (0, 0) := ⟨_, rfl, rfl⟩
  have hs := Machine.Reachable.run (.start (twoThreads_start _ _)) hrun
  exact ⟨s, hs, hdisp, scheduler_exclusive hs⟩

variable {θ ι δ : Type} [DecidableEq ι] [DecidableEq θ] [Fintype θ]

/-- What holds of a queue that has been created, in a state whose global list is `l`. -/
structure Conserved (s : SchedState θ ι δ) (l : List ι) (q : ι) : Prop where
  /-- Every message pushed has been popped once, in the order of the pushes, or waits. -/
  order : s.pushed q = (s.popped q).map Prod.fst ++ contents (s.mq q)
  /-- A queue in which messages wait is in one place, where it will be popped. -/
  waiting : contents (s.mq q) ≠ [] → s.freed q = false ∧ l.count q + threadSum (holds q) s.pc = 1
  /-- One error from the handle of the queue for each dropped message with a source. -/
  told : s.errors q = toldSources (s.mq q).handle (s.popped q)
  /-- A freed queue was marked, is empty and in no place. -/
  freed : s.freed q = true → (s.mq q).release = 1 ∧ contents (s.mq q) = [] ∧
    l.count q + threadSum (holds q) s.pc = 0
  /-- A marked queue has been freed or is in one place, where it will be. -/
  marked : (s.mq q).release = 1 → s.freed q = true ∨ l.count q + threadSum (holds q) s.pc = 1

/-- **Conservation.** In every state of every run in which no handle is issued again while
a queue with it waits to be freed, every message pushed to a queue has been popped once, in
order, or waits in a queue that is linked or held; every dropped message with a source has
been answered with one error; no step has touched a freed queue, freed one twice or linked
one twice.  A push that finds no room in the range of the capacity ends the run.
SRC: skynet_mq.c:188-250, skynet_server.c:115-240, 298-353 -/
theorem messages_conserved [Inhabited δ] {weight : θ → ℤ} {harbor : ℕ} {s : SchedState θ ι δ}
    (hs : (schedMachine weight harbor).Reach (fun s _ => HandlesApart s) s) :
    (∀ f ∈ [MqFault.linkedTwice, .lostTail, .markedTwice, .freedQueue, .noSource],
      s.fault ≠ some f) ∧
      ∃ l, s.global.Represents l ∧ ∀ q, s.born q = true → Conserved s l q := by
  obtain ⟨l, h⟩ : ∃ l, SchedInv False s l := SchedInv.of_reach (fun _ _ hs => .inr hs) hs
  refine ⟨fun f hf hfault => ?_, l, h.global, fun q hb => ⟨(h.queue q).history hb,
    h.placed_of_contents hb, (h.queue q).told hb, fun hf => ?_, fun hrel => ?_⟩⟩
  · obtain rfl | rfl | rfl := h.faultOk f hfault <;> simp at hf
  · obtain ⟨hrel, hplaced, hnil⟩ := (h.queue q).freed hf
    exact ⟨hrel, hnil, hplaced⟩
  · obtain hf | hplaced | ⟨-, -, ⟨⟩⟩ := (h.queue q).marked hb hrel
    · exact .inl hf
    · exact .inr hplaced

def killAndDrop {ι : Type} : List (SchedAction (Fin 2) ι Unit) :=
  [.kill 1 1, .step 1, .step 1, .step 1, .step 0, .step 0, .step 0, .step 0]

instance [Fintype ι] (s : SchedState θ ι δ) : Decidable (HandlesApart s) :=
  inferInstanceAs (Decidable (∀ _ _, _))

/-- A message from handle 5 that is dropped is answered, and its queue is freed. -/
theorem messages_conserved_dropped :
    ∃ s : SchedState (Fin 2) (Fin 2) Unit,
      (schedMachine (fun _ => 0) 0).Reach (fun s _ => HandlesApart s) s ∧
      s.popped 0 = [(⟨5, 0, (), 0⟩, .dropped 0)] ∧ s.errors 0 = [(1, 5)] ∧ s.freed 0 = true ∧
      ∃ l, s.global.Represents l ∧ Conserved s l 0 := by
  obtain ⟨s, hrun, hborn, hpopped, herrors, hfreed⟩ : ∃ s : SchedState (Fin 2) (Fin 2) Unit,
      (schedMachine (fun _ => 0) 0).runOk (fun s _ => HandlesApart s) twoThreads
        (launchAndSend 0 5 ++ killAndDrop ++ [.step 0, .step 0, .step 0]) = some s ∧
      s.born 0 = true ∧ s.popped 0 = [(⟨5, 0, (), 0⟩, .dropped 0)] ∧ s.errors 0 = [(1, 5)] ∧
      s.freed 0 = true := ⟨_, rfl, rfl, rfl, rfl, rfl⟩
  have hs := Machine.Reach.runOk (.start (twoThreads_start _ _)) hrun
  obtain ⟨-, l, hrep, hall⟩ := messages_conserved hs
  exact ⟨s, hs, hpopped, herrors, hfreed, l, hrep, hall 0 hborn⟩

/-- A message from source 0, as the timer sends them, is dropped without an error. -/
theorem dropped_without_error : ∃ s : SchedState (Fin 2) ℕ Unit,
    (schedMachine (fun _ => 0) 0).Reachable s ∧ s.popped 0 = [(⟨0, 0, (), 0⟩, .dropped 0)] ∧
      s.errors 0 = [] ∧ s.pc 0 = .freeing 0 .worker := by
  obtain ⟨s, hrun, h⟩ : ∃ s, (schedMachine (fun _ => 0) 0).run twoThreads
      (launchAndSend 0 0 ++ killAndDrop ++ [.step 0]) = some s ∧
      s.popped 0 = [(⟨0, 0, (), 0⟩, .dropped 0)] ∧ s.errors 0 = [] ∧
      s.pc 0 = .freeing 0 .worker := ⟨_, rfl, rfl, rfl, rfl⟩
  exact ⟨s, Machine.Reachable.run (.start (twoThreads_start _ _)) hrun, h⟩

end Skynet.Analysis
