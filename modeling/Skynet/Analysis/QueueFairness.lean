import Mathlib.Data.List.Nodup
import Skynet.Model.Queue

/-!
# The critical section is fair

The bodies in progress are those of one coroutine, who has to wait is served in the order of the
calls, and the lock is handed on as long as somebody waits for it.
-/

namespace Skynet.Analysis

open Library Model List Function QueueLock

variable {τ : Type} [DecidableEq τ] {q q' : QueueLock τ} {a : QueueAction τ} {t : τ}

/-- The coroutines that wait for their turn, the one to which the lock is handed in front. -/
def pending (q : QueueLock τ) : List τ := q.wakeupQueue ++ q.threadQueue

structure QueueInv (q : QueueLock τ) : Prop where
  inside : ∀ t, q.currentThread = some t → q.bodies t = q.ref
  outside : ∀ t, q.currentThread ≠ some t → q.bodies t = 0
  asleep : ∀ t, q.asleep t = true ↔ t ∈ pending q
  nodup : (pending q).Nodup
  order : q.waited = q.served ++ pending q
  handed : q.ref = 0 → q.wakeupQueue = q.currentThread.toList
  busy : q.ref ≠ 0 → q.wakeupQueue = []
  free : q.currentThread = none → q.ref = 0 ∧ q.threadQueue = []
  asserts : q.failed = false

/-- To enter a lock that nobody is in keeps the invariant. -/
theorem queueInv_enter (hself : q.bodies t = q.ref) (hother : ∀ u, u ≠ t → q.bodies u = 0)
    (hnobody : q.wakeupQueue = []) (hasleep : ∀ u, q.asleep u = true ↔ u ∈ q.threadQueue)
    (hnodup : q.threadQueue.Nodup) (horder : q.waited = q.served ++ q.threadQueue)
    (hasserts : q.failed = false) : QueueInv (q.enter t) := by
  have hpending : pending (q.enter t) = q.threadQueue := by
    simp only [pending, QueueLock.enter, hnobody, nil_append]
  constructor
  case inside =>
    rintro u ⟨rfl⟩
    simp only [QueueLock.enter, update_self, hself]
  case outside =>
    intro u hu
    have hut : u ≠ t := fun hut => hu (hut ▸ rfl)
    simp only [QueueLock.enter, update_of_ne hut, hother u hut]
  case asleep => rwa [hpending]
  case nodup => rwa [hpending]
  case order => rwa [hpending]
  case handed => exact nofun
  case busy => exact fun _ => hnobody
  case free => exact nofun
  case asserts => exact hasserts

omit [DecidableEq τ] in
/-- Where nobody has been woken, the coroutines that wait are those of the queue. -/
theorem QueueInv.nobody (h : QueueInv q) (hnobody : q.wakeupQueue = []) :
    (∀ u, q.asleep u = true ↔ u ∈ q.threadQueue) ∧ q.threadQueue.Nodup ∧
      q.waited = q.served ++ q.threadQueue := by
  have hpending : pending q = q.threadQueue := by rw [pending, hnobody, nil_append]
  exact ⟨hpending ▸ h.asleep, hpending ▸ h.nodup, hpending ▸ h.order⟩

theorem QueueInv.call (h : QueueInv q) (hawake : q.asleep t = false) : QueueInv (q.call t) := by
  have hout : t ∉ pending q := by
    rw [← h.asleep, hawake]
    exact Bool.false_ne_true
  unfold QueueLock.call
  split
  · next u hu =>
    split
    · next hut =>
      subst hut
      have hnobody : q.wakeupQueue = [] := by
        by_contra hne
        have hzero : q.ref = 0 := not_not.mp (mt h.busy hne)
        exact hout (mem_append_left _ (by simp [h.handed hzero, hu]))
      obtain ⟨hasleep, hnodup, horder⟩ := h.nobody hnobody
      apply queueInv_enter (h.inside u hu) _ hnobody hasleep hnodup horder h.asserts
      exact fun v hv => h.outside v fun hcv => hv (Option.some.inj (hcv.symm.trans hu))
    · have hpending : q.wakeupQueue ++ (q.threadQueue ++ [t]) = pending q ++ [t] :=
        (append_assoc ..).symm
      refine ⟨h.inside, h.outside, fun v => ?_, ?_, ?_, h.handed, h.busy, fun hnone => ?_,
        h.asserts⟩
      · have hv := h.asleep v
        simp only [pending] at hv ⊢
        grind
      · rw [pending, hpending]
        exact h.nodup.append (nodup_singleton t) (by simpa using hout)
      · rw [pending, hpending, ← append_assoc, ← h.order]
      · cases hu.symm.trans hnone
  · next hnone =>
    obtain ⟨hzero, hqueue⟩ := h.free hnone
    have hnobody : q.wakeupQueue = [] := by rw [h.handed hzero, hnone, Option.toList_none]
    obtain ⟨hasleep, hnodup, horder⟩ := h.nobody hnobody
    have hout : ∀ u, q.bodies u = 0 := fun u => h.outside u (hnone ▸ nofun)
    exact queueInv_enter ((hout t).trans hzero.symm) (fun u _ => hout u) hnobody hasleep hnodup
      horder h.asserts

theorem QueueInv.leave (h : QueueInv q) (hin : q.bodies t ≠ 0) : QueueInv (q.xpcallRet t) := by
  have hcurrent : q.currentThread = some t := not_not.mp (mt (h.outside t) hin)
  have hbodies := h.inside t hcurrent
  have hnobody : q.wakeupQueue = [] := h.busy (hbodies ▸ hin)
  obtain ⟨hasleep, hnodup, horder⟩ := h.nobody hnobody
  have hself : update q.bodies t (q.bodies t - 1) t = q.ref - 1 := by rw [update_self, hbodies]
  have hother : ∀ u, u ≠ t → update q.bodies t (q.bodies t - 1) u = 0 := fun u hu => by
    rw [update_of_ne hu]
    exact h.outside u fun hcu => hu (Option.some.inj (hcu.symm.trans hcurrent))
  unfold QueueLock.xpcallRet
  dsimp only
  split
  · next hzero =>
    have hnone : ∀ u, update q.bodies t (q.bodies t - 1) u = 0 := fun u => by
      by_cases hu : u = t
      · rw [hu, hself, hzero]
      · exact hother u hu
    cases hqueue : q.threadQueue with
    | nil =>
      rw [hqueue] at hasleep hnodup horder
      refine ⟨fun u _ => (hnone u).trans hzero.symm, fun u _ => hnone u, ?_, ?_, ?_,
        fun _ => hnobody, fun _ => hnobody, fun _ => ⟨hzero, rfl⟩, h.asserts⟩ <;>
      simpa only [pending, hnobody]
    | cons next rest =>
      rw [hqueue] at hasleep hnodup horder
      simp only [head?_cons, tail_cons, wakeup, (hasleep next).mpr mem_cons_self, if_true]
      refine ⟨fun u _ => (hnone u).trans hzero.symm, fun u _ => hnone u, ?_, ?_, ?_,
        fun _ => by rw [hnobody]; rfl, fun hne => absurd hzero hne, nofun, h.asserts⟩ <;>
      simpa only [pending, hnobody]
  · next hmore =>
    refine ⟨fun u hu => ?_, fun u hu => ?_, h.asleep, h.nodup, h.order, fun hz => absurd hz hmore,
      fun _ => hnobody, fun hnone => (nomatch hcurrent.symm.trans hnone), h.asserts⟩
    · obtain rfl := Option.some.inj (hcurrent.symm.trans hu)
      exact hself
    · exact hother u fun hut => hu (hut ▸ hcurrent)

theorem QueueInv.resume {ts : List τ} (h : QueueInv q) (hqueue : q.wakeupQueue = t :: ts) :
    q.asleep t = true ∧ QueueInv ({ q with wakeupQueue := ts }.resume t) := by
  have hzero : q.ref = 0 := by
    by_contra hne
    cases hqueue.symm.trans (h.busy hne)
  have hhanded := hqueue.symm.trans (h.handed hzero)
  obtain ⟨hcurrent, rfl⟩ : q.currentThread = some t ∧ ts = [] := by
    cases hcurrent : q.currentThread <;> simp_all
  have hpending : pending q = t :: q.threadQueue := by rw [pending, hqueue, singleton_append]
  obtain ⟨hout, hnodup⟩ := nodup_cons.mp (hpending ▸ h.nodup)
  refine ⟨(h.asleep t).mpr (hpending ▸ mem_cons_self), ?_⟩
  unfold QueueLock.resume
  dsimp only
  rw [if_pos hzero]
  refine queueInv_enter (h.inside t hcurrent) ?_ rfl ?_ hnodup ?_ h.asserts
  · exact fun u hu => h.outside u fun hcu => hu (Option.some.inj (hcu.symm.trans hcurrent))
  · intro u
    have hu := h.asleep u
    rw [hpending] at hu
    dsimp only
    grind
  · show q.waited = q.served ++ [t] ++ q.threadQueue
    rw [h.order, hpending, append_assoc, singleton_append]

/-- Every step of every thread keeps the invariant. -/
theorem QueueInv.next (h : QueueInv q) (hnext : q.next a = some q') : QueueInv q' := by
  cases a with
  | call t =>
    obtain ⟨hawake, ⟨rfl⟩⟩ := Option.ite_none_left_eq_some.mp hnext
    exact h.call (Bool.eq_false_iff.mpr hawake)
  | leave t =>
    obtain ⟨hin, ⟨rfl⟩⟩ := Option.ite_none_left_eq_some.mp hnext
    exact h.leave fun hzero => hin (.inr hzero)
  | dispatchWakeup =>
    simp only [QueueLock.next] at hnext
    split at hnext
    · cases hnext
    · next t ts hqueue =>
      obtain ⟨hasleep, hinv⟩ := h.resume hqueue
      rw [if_pos hasleep] at hnext
      exact Option.some.inj hnext ▸ hinv

/-- What the lock promises.  `waits` says that who waits, waits for bodies in progress or for the
coroutine that comes next, which has been woken. -/
structure FairLock (q : QueueLock τ) : Prop where
  exclusive : ∀ t u, q.bodies t ≠ 0 → q.bodies u ≠ 0 → t = u
  nesting : ∀ t, q.bodies t ≠ 0 → q.ref = q.bodies t
  asserts : q.failed = false
  order : q.waited = q.served ++ pending q
  waits : ∀ t, q.asleep t = true →
    (∃ u, q.bodies u ≠ 0) ∨ (pending q).head? = q.wakeupQueue.head? ∧ q.wakeupQueue ≠ []
  free : (∀ t, q.asleep t = false ∧ q.bodies t = 0) →
    q.currentThread = none ∧ q.ref = 0 ∧ pending q = []

/-- **The critical section is fair** in every run of any number of coroutines: it excludes, a
coroutine that is in it may come in again, those that wait are served in the order in which they
called, whether bodies return or raise errors, and in the end the lock is free.
SRC: queue.lua:7-36 -/
theorem queue_fair (h : (queueMachine τ).Reachable q) : FairLock q := by
  have hinv : QueueInv q := by
    apply h.invariant
    · rintro q rfl
      exact ⟨nofun, fun _ _ => rfl, by simp [init, pending], nodup_nil, rfl, fun _ => rfl, fun _ => rfl,
        fun _ => ⟨rfl, rfl⟩, rfl⟩
    · exact fun q a q' hinv _ hnext => hinv.next hnext
  have hcurrent : ∀ t, q.bodies t ≠ 0 → q.currentThread = some t := fun t ht =>
    not_not.mp (mt (hinv.outside t) ht)
  constructor
  case exclusive =>
    exact fun t u ht hu => Option.some.inj ((hcurrent t ht).symm.trans (hcurrent u hu))
  case nesting => exact fun t ht => (hinv.inside t (hcurrent t ht)).symm
  case asserts => exact hinv.asserts
  case order => exact hinv.order
  case waits =>
    intro t ht
    have hmem := (hinv.asleep t).mp ht
    cases hthread : q.currentThread with
    | none =>
      obtain ⟨hzero, hqueue⟩ := hinv.free hthread
      simp [pending, hinv.handed hzero, hthread, hqueue] at hmem
    | some u =>
      by_cases hzero : q.ref = 0
      · right
        simp [pending, hinv.handed hzero, hthread]
      · exact .inl ⟨u, hinv.inside u hthread ▸ hzero⟩
  case free =>
    intro hall
    have hpending : pending q = [] := eq_nil_iff_forall_not_mem.mpr fun t ht =>
      Bool.false_ne_true ((hall t).1.symm.trans ((hinv.asleep t).mpr ht))
    cases hthread : q.currentThread with
    | none => exact ⟨rfl, (hinv.free hthread).1, hpending⟩
    | some u =>
      have hzero : q.ref = 0 := (hinv.inside u hthread).symm.trans (hall u).2
      simp [pending, hinv.handed hzero, hthread] at hpending

/-- A coroutine comes in twice, another one waits and is served when it has left. -/
theorem queue_fair_handed : ∃ q : QueueLock (Fin 2), (queueMachine (Fin 2)).run .init
    [.call 0, .call 1, .call 0, .leave 0, .leave 0, .dispatchWakeup] = some q ∧
      q.served = [1] ∧ FairLock q := by
  refine ⟨_, rfl, rfl, queue_fair ?_⟩
  exact Machine.Reachable.run (l := [.call 0, .call 1, .call 0, .leave 0, .leave 0,
    .dispatchWakeup]) (.start rfl) rfl

end Skynet.Analysis
