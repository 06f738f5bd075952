import Skynet.Analysis.TimerWheel

/-!
# Exactness of the timer

Over runs the wheel is a sorted calendar: each list holds the added events that are not
due yet and whose place it is, in the order they were added.  Every `timer_shift` keeps
that, the near list of the new counter holds the events that are due with it, and so the
log of the dispatched events is the list of the added ones, tick by tick.
-/

namespace Skynet.Analysis

open Library Model List

variable {ε : Type}

def nodeOf (x : TimerAdded ε) : TimerNode ε := ⟨x.due % 2 ^ 32, x.event⟩

def Calendar (T : Timer ε) (added : List (TimerAdded ε)) (first ticks : ℕ) : Prop :=
  T.time = ticks % 2 ^ 32 ∧ ∀ slot, wheelList T slot =
    (added.filter fun x => first ≤ x.due ∧ place x.due ticks = slot).map nodeOf

/-- The events due at ticks up to `ticks`, tick by tick, those of one tick in the order
in which they were added. -/
def dueLog (added : List (TimerAdded ε)) (ticks : ℕ) : List (ℕ × ε) :=
  (range (ticks + 1)).flatMap fun n =>
    (added.filter fun x => x.due = n).map fun x => (n, x.event)

def AddedOk (added : List (TimerAdded ε)) (ticks : ℕ) : Prop :=
  ∀ x ∈ added, x.tick ≤ ticks ∧ 1 ≤ x.delay ∧ x.delay < 2 ^ 31

variable {added : List (TimerAdded ε)} {ticks : ℕ}

theorem AddedOk.due_lt (h : AddedOk added ticks)
    {x : TimerAdded ε} (hx : x ∈ added) : x.due < ticks + 2 ^ 31 := by
  obtain ⟨h1, -, h3⟩ := h x hx
  unfold TimerAdded.due
  omega

/-! ## The wheel as a calendar -/

variable {T : Timer ε}

/-- A new event takes its place behind the others. -/
theorem Calendar.add {ticks delay : ℕ} {event : ε}
    (h : Calendar T added (ticks + 1) ticks) (h1 : 1 ≤ delay) (h2 : delay < 2 ^ 31) :
    Calendar (timerAdd T event delay) (added ++ [⟨ticks, delay, event⟩]) (ticks + 1) ticks := by
  obtain ⟨htime, hlists⟩ := h
  have hexp : (delay + T.time) % 2 ^ 32 = (ticks + delay) % 2 ^ 32 := by
    omega
  have hplace : place ((ticks + delay) % 2 ^ 32) T.time = place (ticks + delay) ticks := by
    rw [htime]
    exact place_mod (by omega) (by omega)
  refine ⟨?_, fun slot => ?_⟩
  · rw [timerAdd, addNode_time, htime]
  rw [timerAdd, addNode_eq, hexp, wheelList_setList]
  simp only [hplace]
  rw [filter_append, map_append, ← hlists slot]
  by_cases hslot : slot = place (ticks + delay) ticks
  · subst hslot
    have hlater : ticks + 1 ≤ (⟨ticks, delay, event⟩ : TimerAdded ε).due :=
      Nat.add_le_add_left h1 ticks
    have hplaced : place (⟨ticks, delay, event⟩ : TimerAdded ε).due ticks =
        place (ticks + delay) ticks := rfl
    rw [if_pos rfl, filter_cons, if_pos (by simp only [hlater, hplaced, and_self, decide_true])]
    rfl
  · simp [TimerAdded.due, Ne.symm hslot, hslot]

/-- The near list of the counter holds the events that are due now. -/
theorem Calendar.near (h : Calendar T added ticks ticks) : T.near (T.time &&& timeNearMask) =
    (added.filter fun x => x.due = ticks).map nodeOf := by
  have hidx : T.time &&& timeNearMask = ticks % 2 ^ 8 := by
    rw [and_timeNearMask, h.1]
    omega
  rw [hidx]
  refine (h.2 (.near (ticks % 2 ^ 8))).trans ?_
  congr 1
  refine filter_congr fun x _ => ?_
  rw [decide_eq_decide]
  constructor
  · rintro ⟨hle, hplace⟩
    exact (place_eq_near_iff hle).mp hplace
  · intro hx
    exact ⟨hx.ge, (place_eq_near_iff hx.ge).mpr hx⟩

/-- Once that list is taken off, the events due later are left. -/
theorem Calendar.clear
    (h : Calendar T added ticks ticks) :
    Calendar { T with near := Function.update T.near (T.time &&& timeNearMask) [] } added
      (ticks + 1) ticks := by
  have hidx : T.time &&& timeNearMask = ticks % 2 ^ 8 := by
    rw [and_timeNearMask, h.1]
    omega
  refine ⟨h.1, fun slot => ?_⟩
  rw [hidx]
  refine (wheelList_setList T (.near (ticks % 2 ^ 8)) slot []).trans ?_
  rw [h.2 slot]
  split
  · next hslot =>
    subst hslot
    symm
    rw [map_eq_nil_iff, filter_eq_nil_iff]
    intro x _
    simp only [decide_eq_true_eq, not_and]
    intro hlt hplace
    have hdue := (place_eq_near_iff (by omega)).mp hplace
    omega
  · next hslot =>
    congr 1
    refine filter_congr fun x _ => ?_
    rw [decide_eq_decide]
    constructor
    · rintro ⟨hle, hplace⟩
      have hne : x.due ≠ ticks := fun hdue =>
        hslot (hplace.symm.trans ((place_eq_near_iff hle).mpr hdue))
      exact ⟨by omega, hplace⟩
    · rintro ⟨hlt, hplace⟩
      exact ⟨by omega, hplace⟩

theorem Calendar.clear_nil (h : Calendar T added ticks ticks)
    (hnil : T.near (T.time &&& timeNearMask) = []) : Calendar T added (ticks + 1) ticks := by
  have hclear := h.clear
  rwa [← hnil, Function.update_eq_self] at hclear

theorem cascade_level {ct : ℕ} {S : WheelSlot} (h : cascade ct = some S) :
    ∃ i idx, S = .level i idx := by
  unfold cascade at h
  split_ifs at h <;> exact ⟨_, _, (Option.some.inj h).symm⟩

theorem Calendar.near_nil
    (h : Calendar T added (ticks + 1) ticks) : T.near (T.time &&& timeNearMask) = [] := by
  have hidx : T.time &&& timeNearMask = ticks % 2 ^ 8 := by
    rw [and_timeNearMask, h.1]
    omega
  rw [hidx]
  refine (h.2 (.near (ticks % 2 ^ 8))).trans ?_
  rw [map_eq_nil_iff, filter_eq_nil_iff]
  intro x _
  simp only [decide_eq_true_eq, not_and]
  intro hlt hplace
  have hdue := (place_eq_near_iff (by omega)).mp hplace
  omega

/-- What `timer_shift` does to one event: it is in the list that is re-linked and moves
below its level, or it is not and keeps its place. -/
theorem place_shift {due ticks i idx : ℕ} (h1 : ticks < due) (h2 : due < ticks + 2 ^ 31)
    (hcas : cascade (ticks + 1) = some (.level i idx)) :
    place due ticks = .level i idx ∧ (place due (ticks + 1)).rank ≤ i ∨
      place due ticks ≠ .level i idx ∧ place due (ticks + 1) = place due ticks ∧
        i < (place due (ticks + 1)).rank := by
  have hiff := place_eq_cascade_iff h1 h2 hcas
  by_cases hplace : place due ticks = .level i idx
  · exact .inl ⟨hplace, hiff.mp hplace⟩
  · refine .inr ⟨hplace, place_succ h1 (fun h => hplace ?_), ?_⟩
    · exact (Option.some.inj (hcas.symm.trans h)).symm
    · by_contra hle
      exact hplace (hiff.mpr (by omega))

/-- **`timer_shift`** puts every event where it is linked at the new tick.
SRC: skynet_timer.c:112-132 -/
theorem Calendar.shift (h : Calendar T added (ticks + 1) ticks) (hok : AddedOk added ticks) :
    Calendar (timerShift T) added (ticks + 1) (ticks + 1) := by
  obtain ⟨htime, hlists⟩ := h
  have hct : (T.time + 1) % 2 ^ 32 = (ticks + 1) % 2 ^ 32 := by
    omega
  rw [timerShift_eq, hct, cascade_mod]
  cases hcas : cascade (ticks + 1) with
  | none =>
    refine ⟨rfl, fun slot => (hlists slot).trans ?_⟩
    congr 1
    refine filter_congr fun x hx => ?_
    rw [decide_eq_decide]
    refine and_congr_right fun hlt => ?_
    rw [place_succ (by omega) (by rw [hcas]; exact nofun)]
  | some S =>
    obtain ⟨i, idx, rfl⟩ := cascade_level hcas
    obtain ⟨htime', hlists'⟩ := foldl_addNode (wheelList T (.level i idx))
      (setList { T with time := (ticks + 1) % 2 ^ 32 } (.level i idx) [])
    refine ⟨htime', fun slot => ?_⟩
    have hshift : ∀ x ∈ added, ticks + 1 ≤ x.due → _ := fun x hx hlt =>
      @place_shift x.due ticks i idx (show ticks < x.due by omega) (hok.due_lt hx) hcas
    have hkept : wheelList { T with time := (ticks + 1) % 2 ^ 32 } slot = wheelList T slot := by
      cases slot <;> rfl
    -- the nodes that are linked anew to this list
    have hmoved : (wheelList T (.level i idx)).filter
        (fun n => place n.expire ((ticks + 1) % 2 ^ 32) = slot) =
        (added.filter fun x => ticks + 1 ≤ x.due ∧ place x.due ticks = .level i idx ∧
          place x.due (ticks + 1) = slot).map nodeOf := by
      rw [hlists, filter_map, filter_filter]
      congr 1
      refine filter_congr fun x hx => ?_
      have hcomp : ((fun n => decide (place n.expire ((ticks + 1) % 2 ^ 32) = slot)) ∘ nodeOf) x =
          decide (place (x.due % 2 ^ 32) ((ticks + 1) % 2 ^ 32) = slot) := rfl
      rw [hcomp, ← Bool.decide_and, decide_eq_decide,
        and_comm (a := place (x.due % 2 ^ 32) _ = slot), and_assoc]
      refine and_congr_right fun hlt => and_congr_right fun _ => ?_
      have hlt31 := hok.due_lt hx
      rw [place_mod hlt (by omega)]
    rw [hlists', setList_time, wheelList_setList, hkept, hmoved, hlists]
    by_cases hrank : slot.rank ≤ i
    · have hne : slot ≠ .level i idx := by
        rintro rfl
        exact absurd hrank (by simp [WheelSlot.rank])
      have hempty : (added.filter fun x => ticks + 1 ≤ x.due ∧ place x.due ticks = slot) = [] := by
        rw [filter_eq_nil_iff]
        intro x hx
        simp only [decide_eq_true_eq, not_and]
        rintro hlt rfl
        obtain ⟨hsame, -⟩ | ⟨-, hkeep, hlt'⟩ := hshift x hx hlt
        · exact hne hsame
        · rw [hkeep] at hlt'
          omega
      rw [if_neg hne, hempty, map_nil, nil_append]
      congr 1
      refine filter_congr fun x hx => ?_
      rw [decide_eq_decide]
      refine and_congr_right fun hlt => ⟨fun h => h.2, ?_⟩
      rintro rfl
      obtain ⟨hsame, -⟩ | ⟨-, -, hlt'⟩ := hshift x hx hlt
      · exact ⟨hsame, rfl⟩
      · omega
    · have hnone : (added.filter fun x => ticks + 1 ≤ x.due ∧ place x.due ticks = .level i idx ∧
          place x.due (ticks + 1) = slot) = [] := by
        rw [filter_eq_nil_iff]
        intro x hx
        simp only [decide_eq_true_eq, not_and]
        rintro hlt hsame rfl
        obtain ⟨-, hle⟩ | ⟨hother, -⟩ := hshift x hx hlt
        · exact hrank hle
        · exact hother hsame
      rw [hnone, map_nil, append_nil]
      split
      · next hslot =>
        subst hslot
        symm
        rw [map_eq_nil_iff, filter_eq_nil_iff]
        intro x hx
        simp only [decide_eq_true_eq, not_and]
        intro hlt hplace
        obtain ⟨-, hle⟩ | ⟨hother, hkeep, -⟩ := hshift x hx hlt
        · exact hrank (hplace ▸ hle)
        · exact hother (hkeep.symm.trans hplace)
      · next hslot =>
        congr 1
        refine filter_congr fun x hx => ?_
        rw [decide_eq_decide]
        refine and_congr_right fun hlt => ?_
        obtain ⟨hsame, hle⟩ | ⟨-, hkeep, -⟩ := hshift x hx hlt
        · constructor
          · rintro rfl
            exact absurd hsame hslot
          · rintro rfl
            exact absurd hle hrank
        · rw [hkeep]

/-! ## The invariant over runs -/

/-- Between the steps the events due later are linked, the nodes in flight are due now
and come next in the log, and the first `timer_execute` never finds a node. -/
structure TimerInv (s : TimerState ε) : Prop where
  added : AddedOk s.added s.ticks
  calendar : Calendar s.timer s.added (s.ticks + 1) s.ticks
  shifted : ∀ rest, s.thread ≠ .dispatching rest false
  log : s.log ++ s.inFlight.map (fun n => (s.ticks, n.event)) = dueLog s.added s.ticks

theorem dueLog_succ (added : List (TimerAdded ε)) (ticks : ℕ) :
    dueLog added (ticks + 1) = dueLog added ticks ++
      (added.filter fun x => x.due = ticks + 1).map fun x => (ticks + 1, x.event) := by
  rw [dueLog, range_succ, flatMap_append, flatMap_singleton]
  rfl

theorem dueLog_append {x : TimerAdded ε}
    (hx : ticks < x.due) : dueLog (added ++ [x]) ticks = dueLog added ticks := by
  refine flatMap_congr fun n hn => ?_
  have hne : x.due ≠ n := by
    have hlt := mem_range.mp hn
    omega
  rw [filter_append, filter_cons_of_neg (by simpa using hne), filter_nil, append_nil]

theorem map_nodeOf_event (l : List (TimerAdded ε)) (ticks : ℕ) :
    (l.map nodeOf).map (fun n => (ticks, n.event)) = l.map fun x => (ticks, x.event) := by
  rw [map_map]
  rfl

variable {s : TimerState ε}

/-- The second `timer_execute` takes what is due at the new tick, all of it and nothing
else. -/
theorem TimerInv.secondExecute (hadded : AddedOk s.added s.ticks)
    (hcal : Calendar s.timer s.added s.ticks s.ticks)
    (hlog : s.log ++ (s.added.filter fun x => x.due = s.ticks).map
      (fun x => (s.ticks, x.event)) = dueLog s.added s.ticks) : TimerInv (secondExecute s) := by
  rw [← map_nodeOf_event, ← hcal.near] at hlog
  unfold Model.secondExecute
  dsimp only
  split
  · next hnil =>
    refine ⟨hadded, hcal.clear_nil hnil, nofun, ?_⟩
    rw [hnil] at hlog
    exact hlog
  · exact ⟨hadded, hcal.clear, nofun, hlog⟩

/-- The first `timer_execute` finds nothing, so the tick passes under one lock. -/
theorem TimerInv.firstExecute (h : TimerInv s) (hidle : s.inFlight = []) :
    TimerInv (firstExecute s) := by
  unfold Model.firstExecute
  dsimp only
  rw [h.calendar.near_nil]
  refine TimerInv.secondExecute (fun x hx => ?_) (h.calendar.shift h.added) ?_
  · obtain ⟨h1, h2⟩ := h.added x hx
    exact ⟨by show x.tick ≤ s.ticks + 1; omega, h2⟩
  · have hlog := h.log
    rw [hidle, map_nil, append_nil] at hlog
    rw [dueLog_succ, hlog]

/-- After `dispatch_list` the second `timer_execute` finds nothing more: no event added
meanwhile is due at the tick that has passed. -/
theorem TimerInv.secondExecute_eq (h : TimerInv s) :
    Model.secondExecute s = { s with thread := .outside } := by
  unfold Model.secondExecute
  dsimp only
  rw [h.calendar.near_nil]

/-- Every step of the clock and the threads keeps it. -/
theorem TimerInv.step {s s' : TimerState ε} {a : TimerAction ε} (h : TimerInv s)
    (hnext : timerNext s a = some s') : TimerInv s' := by
  cases a with
  | add delay event =>
    rw [timerNext, Option.ite_none_right_eq_some, Option.some.injEq] at hnext
    obtain ⟨⟨h1, h2⟩, rfl⟩ := hnext
    refine ⟨?_, h.calendar.add h1 h2, h.shifted, ?_⟩
    · intro x hx
      obtain hx | hx := mem_append.mp hx
      · exact h.added x hx
      · obtain rfl := mem_singleton.mp hx
        exact ⟨le_rfl, h1, h2⟩
    · refine h.log.trans (dueLog_append ?_).symm
      show s.ticks < s.ticks + delay
      omega
  | update =>
    rw [timerNext] at hnext
    split at hnext
    · next hout =>
      rw [Option.some.injEq] at hnext
      exact hnext ▸ h.firstExecute (by rw [TimerState.inFlight, hout])
    · cases hnext
  | dispatch =>
    rw [timerNext] at hnext
    split at hnext
    · next node current shifted hthread =>
      cases hnext
      refine ⟨h.added, h.calendar, ?_, ?_⟩
      · intro rest hrest
        cases shifted with
        | true => cases hrest
        | false => exact h.shifted _ hthread
      · have hlog := h.log
        rw [TimerState.inFlight, hthread] at hlog
        simpa [TimerState.inFlight] using hlog
    · cases hnext
  | relock =>
    rw [timerNext] at hnext
    split at hnext
    · next hthread => exact absurd hthread (h.shifted _)
    · next hthread =>
      cases hnext
      rw [h.secondExecute_eq]
      refine ⟨h.added, h.calendar, nofun, ?_⟩
      have hlog := h.log
      rw [TimerState.inFlight, hthread] at hlog
      exact hlog
    · cases hnext

theorem TimerInv.run {s s' : TimerState ε} {as : List (TimerAction ε)} (h : TimerInv s)
    (hrun : (timerMachine ε).run s as = some s') : TimerInv s' := by
  induction as generalizing s with
  | nil =>
    rw [Machine.run_nil, Option.some.injEq] at hrun
    exact hrun ▸ h
  | cons a as ih =>
    obtain ⟨m, hm, hrest⟩ := Option.bind_eq_some_iff.mp hrun
    exact ih (h.step hm) hrest

theorem timerInv_of_reach (hs : (timerMachine ε).Reachable s) : TimerInv s := by
  refine hs.invariant (fun s hstart => ?_) fun s a s' h _ hnext => h.step hnext
  subst hstart
  refine ⟨fun x hx => (by cases hx), ⟨rfl, fun slot => ?_⟩, nofun, rfl⟩
  cases slot <;> rfl

/-! ## The timer thread gets on -/

theorem TimerInv.finish (h : TimerInv s) : ∃ as s',
    (timerMachine ε).run s as = some s' ∧ s'.thread = .outside ∧ s'.ticks = s.ticks ∧
      s'.added = s.added := by
  cases hthread : s.thread with
  | outside => exact ⟨[], s, rfl, hthread, rfl, rfl⟩
  | dispatching current shifted =>
    induction current generalizing s with
    | nil =>
      cases shifted with
      | false => exact absurd hthread (h.shifted _)
      | true =>
        refine ⟨[.relock], { s with thread := .outside }, ?_, rfl, rfl, rfl⟩
        rw [Machine.run_cons]
        simp only [timerMachine, timerNext, hthread, h.secondExecute_eq]
        rfl
    | cons node current ih =>
      have hnext : timerNext s .dispatch = some { s with
          thread := .dispatching current shifted
          log := s.log ++ [(s.ticks, node.event)] } := by
        rw [timerNext, hthread]
      obtain ⟨as, s', hrun, hout, hticks, hadded⟩ := ih (h.step hnext) rfl
      refine ⟨.dispatch :: as, s', ?_, hout, hticks, hadded⟩
      rw [Machine.run_cons, show (timerMachine ε).next s .dispatch = _ from hnext]
      exact hrun

theorem TimerInv.firstExecute_ticks (h : TimerInv s) :
    (Model.firstExecute s).ticks = s.ticks + 1 ∧ (Model.firstExecute s).added = s.added := by
  unfold Model.firstExecute Model.secondExecute
  dsimp only
  rw [h.calendar.near_nil]
  dsimp only
  split <;> exact ⟨rfl, rfl⟩

theorem TimerInv.advance (h : TimerInv s) (d : ℕ) : ∃ as s',
    (timerMachine ε).run s as = some s' ∧ s'.thread = .outside ∧ s'.ticks = s.ticks + d ∧
      s'.added = s.added := by
  induction d with
  | zero => exact h.finish
  | succ d ih =>
    obtain ⟨as, s₁, hrun₁, hout₁, hticks₁, hadded₁⟩ := ih
    have h₁ : TimerInv s₁ := h.run hrun₁
    have hnext : (timerMachine ε).next s₁ .update = some (Model.firstExecute s₁) := by
      simp only [timerMachine, timerNext, hout₁]
    obtain ⟨hticks₂, hadded₂⟩ := h₁.firstExecute_ticks
    obtain ⟨bs, s', hrun, hout, hticks, hadded⟩ :=
      TimerInv.finish (h₁.firstExecute (by rw [TimerState.inFlight, hout₁]))
    refine ⟨as ++ .update :: bs, s', ?_, hout, by omega, by rw [hadded, hadded₂, hadded₁]⟩
    rw [Machine.run_append, hrun₁, Option.bind_some, Machine.run_cons, hnext]
    exact hrun

/-- **Exactness.** In every reached state the log of the dispatched events, followed by
those in flight, is the list of all events due up to the current tick, tick by tick and
within a tick in the order of the `timer_add`s: every event is dispatched exactly once,
with the counter at its insertion tick plus its delay modulo `2 ^ 32`.  The first
`timer_execute` of a `timer_update` never dispatches, and from every state the timer
thread comes to any later tick.
SRC: skynet_timer.c:60-178 -/
theorem timer_exact {s : TimerState ε} (hs : (timerMachine ε).Reachable s) :
    s.timer.time = s.ticks % 2 ^ 32 ∧
      s.log ++ s.inFlight.map (fun n => (s.ticks, n.event)) = dueLog s.added s.ticks ∧
      (∀ rest, s.thread ≠ .dispatching rest false) ∧
      ∀ d, ∃ as s', (timerMachine ε).run s as = some s' ∧ s'.thread = .outside ∧
        s'.ticks = s.ticks + d ∧ s'.added = s.added ∧
        s'.log = dueLog s.added (s.ticks + d) := by
  have h := timerInv_of_reach hs
  refine ⟨h.calendar.1, h.log, h.shifted, fun d => ?_⟩
  obtain ⟨as, s', hrun, hout, hticks, hadded⟩ := h.advance d
  refine ⟨as, s', hrun, hout, hticks, hadded, ?_⟩
  have hlog := (timerInv_of_reach (hs.run hrun)).log
  rw [TimerState.inFlight, hout, hadded, hticks] at hlog
  simpa using hlog

/-- Two events with different delays and the same due tick, dispatched in the order in
which they were added. -/
theorem timer_exact_two_events : ∃ s : TimerState ℕ, (timerMachine ℕ).Reachable s ∧
    s.log = [(2, 7), (2, 8)] ∧
    s.log ++ s.inFlight.map (fun n => (s.ticks, n.event)) = dueLog s.added s.ticks := by
  obtain ⟨s, hrun, hlog⟩ : ∃ s, (timerMachine ℕ).run ⟨timerCreateTimer, .outside, 0, [], []⟩
      [.add 2 7, .update, .add 1 8, .update, .dispatch, .dispatch] = some s ∧
      s.log = [(2, 7), (2, 8)] := ⟨_, rfl, rfl⟩
  have hs : (timerMachine ℕ).Reachable s := Machine.Reachable.run (.start rfl) hrun
  exact ⟨s, hs, hlog, (timer_exact hs).2.1⟩

end Skynet.Analysis
