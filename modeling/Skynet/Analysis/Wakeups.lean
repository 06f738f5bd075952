import Skynet.Model.Sleeps

/-!
# What a wakeup ends

`skynet.wakeup` looks whether the token has a sleeper, and enters the token, not the
sleeper, into `wakeup_queue`.  A token that is entered twice is dispatched twice: if its
sleeper sleeps on it again behind the first one, the second one ends this sleep, which
began after both calls.  As long as no token is entered twice, and no token is slept on
that has a sleeper, each call ends the sleep it was made for.
-/

namespace Skynet.Analysis

open Library Model List Function Option Nat

variable {τ : Type} [DecidableEq τ] {t t' : Sleepers τ} {a : SleepAction τ}

structure WakeupsPrecise (t : Sleepers τ) : Prop where
  /-- A call returns early only for a wakeup of its token that was called after it. -/
  early : ∀ r ∈ t.returns, r.early = true → ∃ w ∈ t.accepted, r.wakeup = some w ∧
    w.token = r.call.token ∧ r.call.began < w.number
  /-- A wakeup ends at most one call. -/
  once : (t.returns.filterMap SleepReturn.wakeup).Nodup
  /-- `skynet.wakeup` returns true exactly if a coroutine sleeps on the token. -/
  wakes : ∀ token, t.wakes token = true ↔ ∃ co call, t.asleep co = some call ∧ call.token = token
  /-- Every wakeup that returned true has ended a call when the message is over. -/
  ends : t.control = .idle → ∀ w ∈ t.accepted, ∃ r ∈ t.returns, r.wakeup = some w ∧ r.early = true

/-- The step enters no token that is in the queue, and does not sleep on a token that has
a sleeper. -/
def FreshTokens (t : Sleepers τ) : SleepAction τ → Prop
  | .sleep _ token | .wait _ token => t.sleepSession.get token = none
  | .wakeup token => ∀ w ∈ t.wakeupQueue, w.token ≠ token
  | _ => True

instance (t : Sleepers τ) (a : SleepAction τ) : Decidable (FreshTokens t a) :=
  match a with
  | .sleep _ token | .wait _ token => inferInstanceAs (Decidable (t.sleepSession.get token = none))
  | .wakeup token => inferInstanceAs (Decidable (∀ w ∈ t.wakeupQueue, w.token ≠ token))
  | .fork | .pause | .raise | .message _ | .timer _ | .dispatch | .forkNext _ =>
    inferInstanceAs (Decidable True)

/-! ## The invariant -/

structure TablesAgree (t : Sleepers τ) : Prop where
  token : ∀ co c, t.asleep co = some c → t.sleepSession.get c.token = some c.session
  session : ∀ co c, t.asleep co = some c → t.sessionIdCoroutine.get c.session = some (.thread co)
  sleeper : ∀ token s, t.sleepSession.get token = some s →
    ∃ co c, t.asleep co = some c ∧ c.token = token ∧ c.session = s
  entry : ∀ s co, t.sessionIdCoroutine.get s = some (.thread co) →
    ∃ c, t.asleep co = some c ∧ c.session = s
  timer : ∀ co c, t.asleep co = some c → c.isWait = true → c.session ∉ t.timers
  running : ∀ co, t.control = .running co → t.asleep co = none

/-- The wakeups in the queue are for calls that are asleep, and each accepted one is in
the queue or has ended a call. -/
structure QueueAgrees (t : Sleepers τ) : Prop where
  began : ∀ co c, t.asleep co = some c → c.began < t.clock
  queue : ∀ w ∈ t.wakeupQueue, w ∈ t.accepted ∧
    ∃ co c, t.asleep co = some c ∧ c.token = w.token ∧ c.began < w.number
  tokens : (t.wakeupQueue.map WakeupCall.token).Nodup
  numbers : ∀ w ∈ t.accepted, w.number < t.clock
  accepted : ∀ w ∈ t.accepted, w ∈ t.wakeupQueue ∨
    ∃ r ∈ t.returns, r.wakeup = some w ∧ r.early = true
  ended : ∀ r ∈ t.returns, ∀ w, r.wakeup = some w → w ∈ t.accepted ∧ w ∉ t.wakeupQueue
  early : ∀ r ∈ t.returns, r.early = true → ∃ w ∈ t.accepted, r.wakeup = some w ∧
    w.token = r.call.token ∧ r.call.began < w.number
  once : (t.returns.filterMap SleepReturn.wakeup).Nodup

def QueueDue (t : Sleepers τ) : Prop :=
  t.wakeupQueue = [] ∨ t.control = .suspend ∨ (∃ co, t.control = .running co) ∨
    t.control = .forks ∧ true ∈ t.forkQueue

structure SleepInv (t : Sleepers τ) : Prop where
  tables : TablesAgree t
  queue : QueueAgrees t
  due : QueueDue t

theorem TablesAgree.unique (h : TablesAgree t) {co co' : ℕ} {c c' : SleepCall τ}
    (hc : t.asleep co = some c) (hc' : t.asleep co' = some c') (htoken : c.token = c'.token) :
    co = co' := by
  have htok := h.token co c hc
  rw [htoken, h.token co' c' hc', some.injEq] at htok
  have hses := h.session co c hc
  rw [← htok, h.session co' c' hc'] at hses
  simpa using hses.symm

theorem SleepInv.precise (h : SleepInv t) : WakeupsPrecise t where
  early := h.queue.early
  once := h.queue.once
  wakes := by
    intro token
    rw [Sleepers.wakes, isSome_iff_exists]
    constructor
    · rintro ⟨s, hs⟩
      obtain ⟨co, c, hc, htoken, -⟩ := h.tables.sleeper token s hs
      exact ⟨co, c, hc, htoken⟩
    · rintro ⟨co, c, hc, rfl⟩
      exact ⟨_, h.tables.token co c hc⟩
  ends := by
    intro hidle w hw
    have hnil : t.wakeupQueue = [] := by
      simpa [QueueDue, hidle] using h.due
    refine (h.queue.accepted w hw).resolve_left ?_
    rw [hnil]
    nofun

/-! ## Steps -/

theorem SleepInv.goto (h : SleepInv t) (control : SleepControl) (forkQueue : List Bool)
    (hrun : ∀ co, control = .running co → t.asleep co = none)
    (hdue : QueueDue { t with control, forkQueue }) : SleepInv { t with control, forkQueue } :=
  ⟨{ h.tables with running := hrun }, { h.queue with }, hdue⟩

theorem SleepInv.suspendSleep (h : SleepInv t) {co session : ℕ} {token : τ} {isWait : Bool}
    (hco : t.asleep co = none) (hentry : t.sessionIdCoroutine.get session = none)
    (htimer : isWait = true → session ∉ t.timers) (htoken : t.sleepSession.get token = none) :
    SleepInv (t.suspendSleep co session token isWait) := by
  obtain ⟨ht, hq, -⟩ := h
  have heq : (t.sleepSession.get token).isSome = false := by simp [htoken]
  have hkeep : ∀ {co' : ℕ} {c x : SleepCall τ}, t.asleep co' = some c →
      update t.asleep co (some x) co' = some c := by
    intro co' c x hc
    rw [update_of_ne, hc]
    rintro rfl
    simp [hco] at hc
  unfold Sleepers.suspendSleep
  simp only [heq, Bool.false_eq_true, if_false]
  refine ⟨?_, ?_, .inr (.inl rfl)⟩
  · constructor
    case token => grind [ht.token]
    case session => grind [ht.session]
    case sleeper =>
      intro token' s hs
      rw [Table.get_put] at hs
      split at hs
      · next heq => exact ⟨co, _, update_self .., heq.symm, some.inj hs⟩
      · obtain ⟨co', c, hc, hrest⟩ := ht.sleeper token' s hs
        exact ⟨co', c, hkeep hc, hrest⟩
    case entry =>
      intro s co' hs
      rw [Table.get_put] at hs
      split at hs
      · next heq =>
        obtain rfl : co = co' := by simpa using hs
        exact ⟨_, update_self .., heq.symm⟩
      · obtain ⟨c, hc, hrest⟩ := ht.entry s co' hs
        exact ⟨c, hkeep hc, hrest⟩
    case timer => grind [ht.timer]
    case running => nofun
  · constructor
    all_goals dsimp only
    case began =>
      intro co' c hc
      rw [update_apply] at hc
      split at hc
      · cases hc
        exact lt_succ_self _
      · exact lt_succ_of_lt (hq.began co' c hc)
    case queue =>
      intro w hw
      obtain ⟨hacc, co', c, hc, hrest⟩ := hq.queue w hw
      exact ⟨hacc, co', c, hkeep hc, hrest⟩
    case tokens => exact hq.tokens
    case numbers => exact fun w hw => lt_succ_of_lt (hq.numbers w hw)
    case accepted => exact hq.accepted
    case ended => exact hq.ended
    case early => exact hq.early
    case once => exact hq.once

theorem SleepInv.wakeup (h : SleepInv t) {token : τ} {co : ℕ} (hrun : t.control = .running co)
    (hfresh : ∀ w ∈ t.wakeupQueue, w.token ≠ token) : SleepInv (t.wakeup token) := by
  obtain ⟨ht, hq, hdue⟩ := h
  unfold Sleepers.wakeup
  split
  · next hwakes =>
    obtain ⟨s, hs⟩ := isSome_iff_exists.1 hwakes
    obtain ⟨co', c, hc, htoken, -⟩ := ht.sleeper token s hs
    refine ⟨{ ht with }, ?_, .inr (.inr (.inl ⟨co, hrun⟩))⟩
    constructor
    case began => exact fun co c hc => lt_succ_of_lt (hq.began co c hc)
    case queue =>
      intro w hw
      rcases mem_append.1 hw with hw | hw
      · obtain ⟨hacc, hrest⟩ := hq.queue w hw
        exact ⟨mem_append_left _ hacc, hrest⟩
      · obtain rfl := mem_singleton.1 hw
        exact ⟨mem_append_right _ hw, co', c, hc, htoken, hq.began co' c hc⟩
    case tokens =>
      rw [map_append, nodup_append]
      refine ⟨hq.tokens, nodup_singleton _, ?_⟩
      simp only [List.mem_map, map_cons, map_nil, mem_singleton]
      rintro _ ⟨w, hw, rfl⟩ _ rfl
      exact hfresh w hw
    case numbers =>
      intro w hw
      rcases mem_append.1 hw with hw | hw
      · exact lt_succ_of_lt (hq.numbers w hw)
      · obtain rfl := mem_singleton.1 hw
        exact lt_succ_self _
    case accepted =>
      intro w hw
      rcases mem_append.1 hw with hw | hw
      · exact (hq.accepted w hw).imp (mem_append_left _) id
      · exact .inl (mem_append_right _ hw)
    case ended =>
      intro r hr w hw
      obtain ⟨hacc, hnot⟩ := hq.ended r hr w hw
      refine ⟨mem_append_left _ hacc, fun hmem => ?_⟩
      rcases mem_append.1 hmem with hmem | hmem
      · exact hnot hmem
      · obtain rfl := mem_singleton.1 hmem
        exact absurd (hq.numbers _ hacc) (Nat.lt_irrefl _)
    case early =>
      intro r hr hearly
      obtain ⟨w, hw, hrest⟩ := hq.early r hr hearly
      exact ⟨w, mem_append_left _ hw, hrest⟩
    case once => exact hq.once
  · refine ⟨{ ht with }, { hq with began := ?_, numbers := ?_ }, hdue⟩
    · exact fun co c hc => lt_succ_of_lt (hq.began co c hc)
    · exact fun w hw => lt_succ_of_lt (hq.numbers w hw)

theorem TablesAgree.coroutineResume (h : TablesAgree t) {co : ℕ} {c : SleepCall τ} {succ : Bool}
    {wakeup : Option (WakeupCall τ)} {entry : Option SleepEntry} {timers : List ℕ}
    {queue : List (WakeupCall τ)} (hc : t.asleep co = some c)
    (hentry : ∀ co, entry ≠ some (.thread co)) (htimers : timers ⊆ t.timers) :
    TablesAgree ({ t with
      sessionIdCoroutine := t.sessionIdCoroutine.put c.session entry
      timers := timers
      wakeupQueue := queue }.coroutineResume co succ wakeup) := by
  have hother : ∀ {co' : ℕ} {c' : SleepCall τ}, update t.asleep co none co' = some c' →
      t.asleep co' = some c' ∧ c'.token ≠ c.token ∧ c'.session ≠ c.session := by
    intro co' c' hc'
    rw [update_apply] at hc'
    split at hc'
    · nomatch hc'
    · next hne =>
      refine ⟨hc', fun heq => hne (h.unique hc' hc heq), fun heq => hne ?_⟩
      have hses := h.session co' c' hc'
      rw [heq, h.session co c hc] at hses
      simpa using hses.symm
  have hkeep : ∀ {co' : ℕ} {c' : SleepCall τ}, t.asleep co' = some c' → c'.session ≠ c.session →
      update t.asleep co none co' = some c' := by
    intro co' c' hc' hne
    rw [update_of_ne, hc']
    rintro rfl
    rw [hc] at hc'
    exact hne (congrArg SleepCall.session (some.inj hc'.symm))
  have hsessions : ∀ s co', (if c.isWait = true then
      (t.sessionIdCoroutine.put c.session entry).put c.session none
      else t.sessionIdCoroutine.put c.session entry).get s = some (.thread co') ↔
      s ≠ c.session ∧ t.sessionIdCoroutine.get s = some (.thread co') := by
    intro s co'
    by_cases hs : s = c.session
    · subst hs
      split <;> simp [hentry]
    · split <;> simp [hs, Table.get_put]
  unfold Sleepers.coroutineResume
  simp only [hc]
  constructor
  case token =>
    intro co' c' hc'
    obtain ⟨hc', htoken, -⟩ := hother hc'
    rw [Table.get_put, if_neg htoken]
    exact h.token co' c' hc'
  case session =>
    intro co' c' hc'
    obtain ⟨hc', -, hne⟩ := hother hc'
    exact (hsessions _ _).2 ⟨hne, h.session co' c' hc'⟩
  case sleeper =>
    intro token s hs
    rw [Table.get_put] at hs
    split at hs
    · nomatch hs
    · next hne =>
      obtain ⟨co', c', hc', rfl, rfl⟩ := h.sleeper token s hs
      refine ⟨co', c', hkeep hc' fun heq => hne ?_, rfl, rfl⟩
      have hses := h.session co' c' hc'
      rw [heq, h.session co c hc] at hses
      obtain rfl : co = co' := by simpa using hses
      rw [hc] at hc'
      rw [some.inj hc']
  case entry =>
    intro s co' hs
    obtain ⟨hne, hs⟩ := (hsessions s co').1 hs
    obtain ⟨c', hc', rfl⟩ := h.entry s co' hs
    exact ⟨c', hkeep hc' hne, rfl⟩
  case timer =>
    intro co' c' hc' hwait hmem
    exact h.timer co' c' (hother hc').1 hwait (htimers hmem)
  case running =>
    rintro co' hrun
    obtain rfl : co = co' := by simpa using hrun
    exact update_self ..

theorem QueueAgrees.coroutineResume (h : QueueAgrees t) (htables : TablesAgree t) {co : ℕ}
    {c : SleepCall τ} {succ : Bool} {wakeup : Option (WakeupCall τ)} {queue : List (WakeupCall τ)}
    {entry : Option SleepEntry} {timers : List ℕ} (hc : t.asleep co = some c)
    (hcause : wakeup = none ∧ t.wakeupQueue = [] ∧ queue = [] ∧ c.isWait = false ∧ succ = true ∨
      ∃ w, wakeup = some w ∧ t.wakeupQueue = w :: queue ∧ w.token = c.token ∧ succ = false) :
    QueueAgrees ({ t with
      sessionIdCoroutine := t.sessionIdCoroutine.put c.session entry
      timers := timers
      wakeupQueue := queue }.coroutineResume co succ wakeup) := by
  have hsub : queue.Sublist t.wakeupQueue := by
    rcases hcause with ⟨-, -, rfl, -⟩ | ⟨w, -, hqueue, -⟩
    · exact nil_sublist _
    · exact hqueue ▸ sublist_cons_self w queue
  have hnot : ∀ v ∈ queue, v.token ≠ c.token := by
    rcases hcause with ⟨-, -, rfl, -⟩ | ⟨w, -, hqueue, htoken, -⟩
    · nofun
    · intro v hv heq
      have htokens := h.tokens
      rw [hqueue, map_cons, nodup_cons] at htokens
      exact htokens.1 (List.mem_map.2 ⟨v, hv, heq.trans htoken.symm⟩)
  have hnew : ∀ w, wakeup = some w → w ∈ t.wakeupQueue ∧ w ∉ queue ∧ w.token = c.token := by
    intro w hw
    rcases hcause with ⟨hnone, -⟩ | ⟨w', hsome, hqueue, htoken, -⟩
    · rw [hnone] at hw
      nomatch hw
    · obtain rfl := some.inj (hsome.symm.trans hw)
      exact ⟨hqueue ▸ mem_cons_self .., fun hmem => hnot _ hmem htoken, htoken⟩
  have hbegan : ∀ w ∈ t.wakeupQueue, w.token = c.token → c.began < w.number := by
    intro w hw htoken
    obtain ⟨-, co', c', hc', htoken', hlt⟩ := h.queue w hw
    obtain rfl := htables.unique hc' hc (htoken'.trans htoken)
    rwa [← some.inj (hc'.symm.trans hc)]
  have hold : ∀ {co' : ℕ} {c' : SleepCall τ},
      update t.asleep co none co' = some c' → t.asleep co' = some c' := by
    intro co' c' hc'
    rw [update_apply] at hc'
    split at hc'
    · nomatch hc'
    · exact hc'
  unfold Sleepers.coroutineResume
  simp only [hc]
  constructor
  all_goals dsimp only
  case began => exact fun co' c' hc' => h.began co' c' (hold hc')
  case queue =>
    intro v hv
    obtain ⟨hacc, co', c', hc', htoken, hlt⟩ := h.queue v (hsub.subset hv)
    refine ⟨hacc, co', c', ?_, htoken, hlt⟩
    rw [update_of_ne, hc']
    rintro rfl
    rw [← some.inj (hc'.symm.trans hc)] at hnot
    exact hnot v hv htoken.symm
  case tokens => exact h.tokens.sublist (hsub.map _)
  case numbers => exact h.numbers
  case accepted =>
    intro v hv
    rcases h.accepted v hv with hmem | ⟨r, hr, hrest⟩
    · rcases hcause with ⟨-, hnil, -⟩ | ⟨w, rfl, hqueue, -, rfl⟩
      · rw [hnil] at hmem
        nomatch hmem
      · rw [hqueue] at hmem
        rcases mem_cons.1 hmem with rfl | hmem
        · exact .inr ⟨_, mem_append_right _ (mem_singleton_self _), rfl, by simp⟩
        · exact .inl hmem
    · exact .inr ⟨r, mem_append_left _ hr, hrest⟩
  case ended =>
    intro r hr w hw
    rcases mem_append.1 hr with hr | hr
    · obtain ⟨hacc, hout⟩ := h.ended r hr w hw
      exact ⟨hacc, fun hmem => hout (hsub.subset hmem)⟩
    · obtain rfl := mem_singleton.1 hr
      obtain ⟨hmem, hout, -⟩ := hnew w hw
      exact ⟨(h.queue w hmem).1, hout⟩
  case early =>
    intro r hr hearly
    rcases mem_append.1 hr with hr | hr
    · exact h.early r hr hearly
    · obtain rfl := mem_singleton.1 hr
      rcases hcause with ⟨-, -, -, hwait, rfl⟩ | ⟨w, rfl, hqueue, htoken, -⟩
      · simp [hwait] at hearly
      · obtain ⟨hmem, -⟩ := hnew w rfl
        exact ⟨w, (h.queue w hmem).1, rfl, htoken, hbegan w hmem htoken⟩
  case once =>
    rw [filterMap_append, nodup_append]
    refine ⟨h.once, by cases wakeup <;> simp, ?_⟩
    intro w hw v hv heq
    obtain ⟨r, hr, hwr⟩ := mem_filterMap.1 hw
    have hv' : wakeup = some v := by
      cases wakeup <;> simp_all
    exact (h.ended r hr w hwr).2 (heq ▸ (hnew v hv').1)

theorem SleepInv.dispatchWakeup (h : SleepInv t) : SleepInv (t.dispatchWakeup t.wakeupQueue) := by
  obtain ⟨ht, hq, -⟩ := h
  cases hqueue : t.wakeupQueue with
  | nil =>
    refine ⟨{ ht with running := nofun },
      { hq with queue := nofun, tokens := .nil, accepted := ?_, ended := ?_ }, .inl rfl⟩
    · intro w hw
      have := hq.accepted w hw
      rw [hqueue] at this
      exact .inr (this.resolve_left nofun)
    · exact fun r hr w hw => ⟨(hq.ended r hr w hw).1, nofun⟩
  | cons w rest =>
    obtain ⟨-, co, c, hc, htoken, -⟩ := hq.queue w (hqueue ▸ mem_cons_self ..)
    have hsession : t.sleepSession.get w.token = some c.session := htoken ▸ ht.token co c hc
    have heq : t.dispatchWakeup (w :: rest) = { t with
        sessionIdCoroutine := t.sessionIdCoroutine.put c.session (some .broken)
        timers := t.timers
        wakeupQueue := rest }.coroutineResume co false (some w) := by
      rw [Sleepers.dispatchWakeup, hsession]
      simp only [ht.session co c hc]
    rw [heq]
    refine ⟨ht.coroutineResume hc (by simp) (Subset.refl _),
      hq.coroutineResume ht hc (.inr ⟨w, rfl, hqueue, htoken.symm, rfl⟩),
      .inr (.inr (.inl ⟨co, ?_⟩))⟩
    simp [Sleepers.coroutineResume, hc]

/-- The response of a timer ends the call of `sleep` that has set it, or finds that this
was ended. -/
theorem SleepInv.dispatchResponse (h : SleepInv t) {session : ℕ} (hidle : t.control = .idle)
    (hmem : session ∈ t.timers) :
    SleepInv ({ t with timers := t.timers.erase session }.dispatchResponse session) := by
  obtain ⟨ht, hq, hdue⟩ := h
  have hnil : t.wakeupQueue = [] := by
    simpa [QueueDue, hidle] using hdue
  have hsub : t.timers.erase session ⊆ t.timers := erase_subset
  unfold Sleepers.dispatchResponse
  cases hentry : t.sessionIdCoroutine.get session with
  | none =>
    exact ⟨{ ht with
      timer := fun co c hc hw hin => ht.timer co c hc hw (hsub hin), running := nofun },
      { hq with }, .inl hnil⟩
  | some e =>
    cases e with
    | thread co =>
      obtain ⟨c, hc, rfl⟩ := ht.entry session co hentry
      have hwait : c.isWait = false := by
        cases hw : c.isWait with
        | false => rfl
        | true => exact absurd hmem (ht.timer co c hc hw)
      refine ⟨ht.coroutineResume hc nofun hsub,
        hq.coroutineResume ht hc (.inl ⟨rfl, hnil, hnil, hwait, rfl⟩),
        .inr (.inr (.inl ⟨co, ?_⟩))⟩
      simp [Sleepers.coroutineResume, hc]
    | broken =>
      refine ⟨{ ht with session := ?_, entry := ?_, timer := ?_, running := nofun },
        { hq with }, .inl hnil⟩
      · intro co c hc
        have hses := ht.session co c hc
        rw [Table.get_put, if_neg, hses]
        rintro rfl
        simp [hentry] at hses
      · intro s co hs
        rw [Table.get_put] at hs
        split at hs
        · nomatch hs
        · exact ht.entry s co hs
      · exact fun co c hc hw hin => ht.timer co c hc hw (hsub hin)

/-- **One step** keeps the invariant. -/
theorem SleepInv.next (h : SleepInv t) (hok : FreshTokens t a) (hstep : t.next a = some t') :
    SleepInv t' := by
  have hrunning : ∀ {f : ℕ → Option (Sleepers τ)}, t.byRunning f = some t' →
      ∃ co, t.control = .running co ∧ f co = some t' := by
    intro f hf
    unfold Sleepers.byRunning at hf
    split at hf
    · next co hco => exact ⟨co, hco, hf⟩
    · nomatch hf
  cases a with
  | sleep session token =>
    obtain ⟨co, hco, hstep⟩ := hrunning hstep
    obtain ⟨hfresh, rfl⟩ := ite_some_none_eq_some.mp hstep
    have htimers : SleepInv { t with timers := session :: t.timers } := by
      refine ⟨{ h.tables with timer := ?_ }, { h.queue with }, h.due⟩
      intro co' c hc hwait hmem
      rcases mem_cons.1 hmem with heq | hmem
      · have hses := h.tables.session co' c hc
        rw [heq, hfresh.2] at hses
        nomatch hses
      · exact h.tables.timer co' c hc hwait hmem
    exact htimers.suspendSleep (h.tables.running co hco) hfresh.2 nofun hok
  | wait session token =>
    obtain ⟨co, hco, hstep⟩ := hrunning hstep
    obtain ⟨hfresh, rfl⟩ := ite_some_none_eq_some.mp hstep
    exact h.suspendSleep (h.tables.running co hco) hfresh.2 (fun _ => hfresh.1) hok
  | wakeup token =>
    obtain ⟨co, hco, hstep⟩ := hrunning hstep
    exact some.inj hstep ▸ h.wakeup hco hok
  | fork =>
    obtain ⟨co, hco, hstep⟩ := hrunning hstep
    exact some.inj hstep ▸ h.goto t.control _ h.tables.running (.inr (.inr (.inl ⟨co, hco⟩)))
  | pause =>
    obtain ⟨co, hco, hstep⟩ := hrunning hstep
    exact some.inj hstep ▸ h.goto .suspend t.forkQueue nofun (.inr (.inl rfl))
  | raise =>
    obtain ⟨co, hco, hstep⟩ := hrunning hstep
    exact some.inj hstep ▸
      h.goto .forks (t.forkQueue ++ [true]) nofun (.inr (.inr (.inr ⟨rfl, by simp⟩)))
  | message co =>
    obtain ⟨⟨-, hco⟩, rfl⟩ := ite_some_none_eq_some.mp hstep
    refine h.goto (.running co) t.forkQueue ?_ (.inr (.inr (.inl ⟨co, rfl⟩)))
    rintro _ ⟨⟩
    exact hco
  | timer session =>
    obtain ⟨⟨hidle, hmem⟩, rfl⟩ := ite_some_none_eq_some.mp hstep
    exact h.dispatchResponse hidle hmem
  | dispatch =>
    obtain ⟨-, rfl⟩ := ite_some_none_eq_some.mp hstep
    exact h.dispatchWakeup
  | forkNext co =>
    obtain ⟨⟨hcontrol, hco⟩, hstep⟩ := ite_none_right_eq_some.mp hstep
    have hempty : true ∉ t.forkQueue → t.wakeupQueue = [] := by
      intro hno
      simpa [QueueDue, hcontrol, hno] using h.due
    split at hstep
    · next hforks =>
      have hnil := hempty (by simp [hforks])
      exact some.inj hstep ▸ h.goto .idle t.forkQueue nofun (.inl hnil)
    · exact some.inj hstep ▸ h.goto .suspend _ nofun (.inr (.inl rfl))
    · refine some.inj hstep ▸ h.goto (.running co) _ ?_ (.inr (.inr (.inl ⟨co, rfl⟩)))
      rintro _ ⟨⟩
      exact hco

theorem sleepInv_init : SleepInv (Sleepers.init : Sleepers τ) := by
  refine ⟨?_, ?_, .inl rfl⟩
  · constructor <;> simp [Sleepers.init]
  · constructor <;> simp [Sleepers.init]

/-- **Wakeups are precise** in every run that enters no token into `wakeup_queue` a second
time and sleeps on no token that has a sleeper.
SRC: skynet.lua:292-309, 383-419, 714-719 -/
theorem wakeups_precise (τ : Type) [DecidableEq τ] (t : Sleepers τ)
    (h : (sleepMachine τ).Reach FreshTokens t) : WakeupsPrecise t := by
  refine SleepInv.precise (h.invariant ?_ ?_)
  · rintro t rfl
    exact sleepInv_init
  · exact fun t a t' ht hok hstep => ht.next hok hstep

/-- A call that is woken, and one that is not. -/
theorem wakeups_precise_once : ∃ t : Sleepers ℕ, WakeupsPrecise t ∧
    t.returns.map SleepReturn.early = [true, false] := by
  obtain ⟨t, hrun, hreturns⟩ : ∃ t, (sleepMachine ℕ).runOk FreshTokens .init
      [.message 1, .sleep 1 7, .dispatch, .forkNext 0, .message 2, .wakeup 7, .sleep 2 8,
        .dispatch, .pause, .dispatch, .forkNext 0, .timer 2] = some t ∧
      t.returns.map SleepReturn.early = [true, false] :=
    map_eq_some_iff.mp (by decide)
  exact ⟨t, wakeups_precise ℕ t (.runOk (.start rfl) hrun), hreturns⟩

/-- **A wakeup of the past.**  Coroutine 2 wakes the token 7 twice.  Its sleeper sleeps on
it again behind the first wakeup, and the second one, called before, ends this. -/
theorem wakeup_before_sleep : ¬∀ t : Sleepers ℕ, (sleepMachine ℕ).Reachable t →
    WakeupsPrecise t := by
  intro hall
  obtain ⟨t, hrun, hreturns⟩ : ∃ t, (sleepMachine ℕ).run .init
      [.message 1, .sleep 1 7, .dispatch, .forkNext 0, .message 2, .wakeup 7, .wakeup 7, .pause,
        .dispatch, .sleep 2 7, .dispatch] = some t ∧
      t.returns = [⟨⟨1, 7, false, 0⟩, true, some ⟨7, 1⟩⟩, ⟨⟨2, 7, false, 3⟩, true, some ⟨7, 2⟩⟩] :=
    map_eq_some_iff.mp (by decide)
  have hreach : (sleepMachine ℕ).Reachable t := Machine.Reachable.run (.start rfl) hrun
  obtain ⟨w, -, hw, -, hlt⟩ := (hall t hreach).early ⟨⟨2, 7, false, 3⟩, true, some ⟨7, 2⟩⟩
    (by simp [hreturns]) rfl
  cases hw
  exact absurd hlt (by decide)

end Skynet.Analysis
