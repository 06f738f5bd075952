import Mathlib.Data.Finset.Card
import Skynet.Model.RequestSelect

/-!
# Each request of a select is answered once

While the loop goes on, the session of a request that was sent is outstanding, collected or yielded;
afterwards it is marked or has no entry any more.  The count of the requests is that of the entries
in `_sessions`, and the loop has a token in `wakeup_queue` exactly when it waits and there is
something to do.
-/

namespace Skynet.Analysis

open Library Model RequestSelect Function List Option Finset

variable {s s' : RequestSelect} {i k : ℕ} {r : SelectRequest} {value : Option ℕ}
variable {requests : List SelectRequest} {timer : Bool} {stage : SelectStage}

/-! ## A session -/

structure SessionView where
  entry : Option ℕ
  co : Option SessionEntry
  watch : Option SelectAddress
  resp : Option (Option ℕ)
  answer : Option SelectAnswer
  queued : Bool

def sessionView (s : RequestSelect) (k : ℕ) : SessionView where
  entry := s.sessions k
  co := s.sessionIdCoroutine k
  watch := s.watchingSession k
  resp := s.resp k
  answer := s.answers k
  queued := decide (k ∈ s.errorQueue)

def Unheard (v : SessionView) : Prop :=
  v.answer = none ∧ v.queued = false ∨ ∃ early, v.answer = some ⟨none, early⟩ ∧ v.queued = true

def SessionOutstanding (i : ℕ) (r : SelectRequest) (v : SessionView) : Prop :=
  v.entry = some i ∧ v.co = some .thread ∧ v.watch = some r.address ∧ v.resp = none ∧ Unheard v

def SessionCollected (i : ℕ) (v : SessionView) : Prop :=
  v.entry = some i ∧ v.co = none ∧ v.watch = none
    ∧ ∃ a, v.resp = some a.value ∧ v.answer = some a

def SessionYielded (yielded : List (ℕ × Option ℕ)) (i : ℕ) (v : SessionView) : Prop :=
  v.entry = none ∧ v.co = none ∧ v.watch = none ∧ v.resp = none
    ∧ ∃ a, v.answer = some a ∧ (i, a.value) ∈ yielded

def SessionMarked (v : SessionView) : Prop := v.co = some .break ∧ v.watch = none ∧ Unheard v

def SessionSettled (v : SessionView) : Prop := v.co = none ∧ v.watch = none ∧ v.answer ≠ none

/-! ## The loop -/

def SelectOpen (s : RequestSelect) : Prop := s.stage = .body ∨ s.stage = .waiting

def RequestSent (s : RequestSelect) (i : ℕ) : Prop :=
  ∃ r, s.requests[i]? = some r ∧ r.outcome = .session

def RequestInvalid (s : RequestSelect) (i : ℕ) : Prop :=
  ∃ r, s.requests[i]? = some r ∧ r.outcome = .invalid

def SessionRight (s : RequestSelect) (i : ℕ) (r : SelectRequest) : Prop :=
  (SelectOpen s → SessionOutstanding i r (sessionView s (i + 1))
    ∨ SessionCollected i (sessionView s (i + 1))
    ∨ SessionYielded s.yielded i (sessionView s (i + 1)))
  ∧ (¬ SelectOpen s → SessionMarked (sessionView s (i + 1))
    ∨ SessionSettled (sessionView s (i + 1)))

def openRequests (s : RequestSelect) : Finset ℕ :=
  (Finset.range s.requests.length).filter fun i => s.sessions (i + 1) ≠ none

def timerSession (s : RequestSelect) : ℕ := s.requests.length + 1

structure TimerRight (s : RequestSelect) : Prop where
  absent : s.timer = false →
    s.fired = false ∧ s.timeoutSession = none ∧ s.sessionIdCoroutine (timerSession s) = none
  pending : s.timer = true → s.fired = false → SelectOpen s →
    s.timeoutSession = some (timerSession s)
      ∧ s.sessionIdCoroutine (timerSession s) = some .thread
  marked : s.timer = true → s.fired = false → ¬ SelectOpen s →
    s.timeoutSession = none ∧ s.sessionIdCoroutine (timerSession s) = some .break
  fired : s.fired = true → s.timeoutSession = none ∧ s.sessionIdCoroutine (timerSession s) = none
  timeout : SelectOpen s → (s.timeout = true ↔ s.fired = true)

def WaitingRight (s : RequestSelect) : Prop := s.error = [] ∧ s.request ≠ 0
    ∧ (s.wakeups = 0 ∧ s.timeout = false ∧ (∀ k, s.resp k = none)
      ∨ s.wakeups = 1 ∧ s.timeout = true ∧ (∀ k, s.resp k = none)
      ∨ s.wakeups = 1 ∧ s.timeout = false ∧ ∃ k, s.resp k ≠ none)

def RequestYielded (s : RequestSelect) (i : ℕ) : Prop := ∃ value, (i, value) ∈ s.yielded

def FinishedRight (s : RequestSelect) : Prop :=
  s.error = [] ∧ ((∀ i, RequestSent s i → RequestYielded s i)
    ∨ s.fired = true ∧ ∀ i a, RequestSent s i → s.answers (i + 1) = some a → a.early = true →
      RequestYielded s i)

structure SelectInv (s : RequestSelect) : Prop where
  sendable : ∀ r ∈ s.requests, r.outcome = .session ∨ r.outcome = .invalid
  alive : s.threadDead = false
  noRaise : s.stage ≠ .raised
  session : ∀ i r, s.requests[i]? = some r → r.outcome = .session → SessionRight s i r
  entry : ∀ k i, s.sessions k = some i → k = i + 1 ∧ RequestSent s i
  stray : ∀ k, (∀ i, RequestSent s i → k ≠ i + 1) →
    s.resp k = none ∧ s.watchingSession k = none ∧ k ∉ s.errorQueue
  given : ∀ i value, (i, value) ∈ s.yielded → RequestInvalid s i ∧ value = none
    ∨ RequestSent s i ∧ ∃ a, s.answers (i + 1) = some a ∧ a.value = value
  once : (s.yielded.map Prod.fst ++ s.error).Nodup
  gone : ∀ i, RequestYielded s i → s.sessions (i + 1) = none
  invalid : ∀ i, RequestInvalid s i → i ∈ s.error ∨ RequestYielded s i
  errors : ∀ i ∈ s.error, RequestInvalid s i
  count : SelectOpen s → s.request = (openRequests s).card
  timer : TimerRight s
  waiting : s.stage = .waiting → WaitingRight s
  body : s.stage = .body → s.wakeups = 0
  finished : s.stage = .finished → FinishedRight s

theorem sent_lt (hi : RequestSent s i) : i < s.requests.length := by
  obtain ⟨r, hr, -⟩ := hi
  exact (List.getElem?_eq_some_iff.mp hr).1

theorem service_sent (hk : s.service k ≠ none) : ∃ i r, k = i + 1 ∧ s.requests[i]? = some r
    ∧ r.outcome = .session ∧ s.service k = some r.address.service := by
  cases k with
  | zero => exact absurd rfl hk
  | succ i =>
    cases hr : s.requests[i]? with
    | none => simp [service, hr] at hk
    | some r =>
      by_cases hout : r.outcome = .session
      · exact ⟨i, r, rfl, hr, hout, by simp [service, hr, hout]⟩
      · simp [service, hr, hout] at hk

/-- A step that changes neither the stage nor what the loop has yielded, and under which the answers
that have arrived stay. -/
theorem SelectInv.update (hinv : SelectInv s)
    (hsame : s'.requests = s.requests ∧ s'.threadDead = s.threadDead ∧ s'.stage = s.stage
      ∧ s'.error = s.error ∧ s'.yielded = s.yielded ∧ s'.sessions = s.sessions
      ∧ s'.request = s.request)
    (hsession : ∀ i r, s.requests[i]? = some r → r.outcome = .session → SessionRight s' i r)
    (hstray : ∀ k, (∀ i, RequestSent s i → k ≠ i + 1) → s'.resp k = s.resp k
      ∧ s'.watchingSession k = s.watchingSession k ∧ (k ∈ s'.errorQueue → k ∈ s.errorQueue))
    (hanswers : ∀ k a, s.answers k = some a → s'.answers k = some a) (htimer : TimerRight s')
    (hwaiting : s.stage = .waiting → WaitingRight s → WaitingRight s')
    (hbody : s.stage = .body → s'.wakeups = s.wakeups)
    (hfinished : s.stage = .finished → FinishedRight s → FinishedRight s') : SelectInv s' := by
  obtain ⟨hrequests, halive, hstage, herror, hyielded, hsessions, hrequest⟩ := hsame
  have hopen : SelectOpen s' ↔ SelectOpen s := by rw [SelectOpen, SelectOpen, hstage]
  have hsent (i : ℕ) : RequestSent s' i ↔ RequestSent s i := by
    rw [RequestSent, RequestSent, hrequests]
  have hinvalid (i : ℕ) : RequestInvalid s' i ↔ RequestInvalid s i := by
    rw [RequestInvalid, RequestInvalid, hrequests]
  have hyield (i : ℕ) : RequestYielded s' i ↔ RequestYielded s i := by
    rw [RequestYielded, RequestYielded, hyielded]
  refine ⟨?_, halive.trans hinv.alive, hstage ▸ hinv.noRaise, fun i r hr => ?_, fun k i hk => ?_,
    fun k hk => ?_, fun i value hmem => ?_, ?_, fun i hi => ?_, fun i hi => ?_, fun i hi => ?_,
    fun ho => ?_, htimer, fun hs => ?_, fun hs => ?_, fun hs => ?_⟩
  · rw [hrequests]
    exact hinv.sendable
  · exact hsession i r (hrequests ▸ hr)
  · rw [hsent]
    exact hinv.entry k i (hsessions ▸ hk)
  · have hk : ∀ i, RequestSent s i → k ≠ i + 1 := fun i hi => hk i ((hsent i).mpr hi)
    obtain ⟨hresp, hwatch, hqueue⟩ := hstray k hk
    obtain ⟨gresp, gwatch, gqueue⟩ := hinv.stray k hk
    exact ⟨hresp.trans gresp, hwatch.trans gwatch, fun hmem => gqueue (hqueue hmem)⟩
  · rw [hinvalid, hsent]
    refine (hinv.given i value (hyielded ▸ hmem)).imp id fun ⟨hi, a, ha, hvalue⟩ => ?_
    exact ⟨hi, a, hanswers _ a ha, hvalue⟩
  · rw [hyielded, herror]
    exact hinv.once
  · rw [hsessions]
    exact hinv.gone i ((hyield i).mp hi)
  · rw [herror, hyield]
    exact hinv.invalid i ((hinvalid i).mp hi)
  · rw [hinvalid]
    exact hinv.errors i (herror ▸ hi)
  · rw [hrequest, hinv.count (hopen.mp ho), openRequests, openRequests, hrequests, hsessions]
  · exact hwaiting (hstage ▸ hs) (hinv.waiting (hstage ▸ hs))
  · exact (hbody (hstage ▸ hs)).trans (hinv.body (hstage ▸ hs))
  · exact hfinished (hstage ▸ hs) (hinv.finished (hstage ▸ hs))

theorem SessionRight.other (h : SessionRight s i r) (hstage : s'.stage = s.stage)
    (hyielded : s'.yielded = s.yielded)
    (hview : sessionView s' (i + 1) = sessionView s (i + 1)) : SessionRight s' i r := by
  unfold SessionRight SelectOpen at h ⊢
  rw [hstage, hyielded, hview]
  exact h

theorem TimerRight.ne (h : TimerRight s) (hi : RequestSent s i) :
    s.timeoutSession ≠ some (i + 1) := by
  have hlt := sent_lt hi
  have hne : timerSession s ≠ i + 1 := by
    unfold timerSession
    omega
  intro heq
  cases htimer : s.timer with
  | false => exact nomatch heq.symm.trans (h.absent htimer).2.1
  | true =>
    cases hfired : s.fired with
    | true => exact nomatch heq.symm.trans (h.fired hfired).1
    | false =>
      by_cases hopen : SelectOpen s
      · exact hne (some.inj ((h.pending htimer hfired hopen).1.symm.trans heq))
      · exact nomatch heq.symm.trans (h.marked htimer hfired hopen).1

theorem TimerRight.other (h : TimerRight s) (hrequests : s'.requests = s.requests)
    (hstage : s'.stage = s.stage) (htimer : s'.timer = s.timer) (hfired : s'.fired = s.fired)
    (htimeout : s'.timeout = s.timeout) (hsession : s'.timeoutSession = s.timeoutSession)
    (hentry : s'.sessionIdCoroutine (timerSession s) = s.sessionIdCoroutine (timerSession s)) :
    TimerRight s' := by
  have hopen : SelectOpen s' ↔ SelectOpen s := by rw [SelectOpen, SelectOpen, hstage]
  have hkey : timerSession s' = timerSession s := by rw [timerSession, timerSession, hrequests]
  constructor
  · rw [hkey, htimer, hfired, hsession, hentry]
    exact h.absent
  · rw [hkey, htimer, hfired, hsession, hentry, hopen]
    exact h.pending
  · rw [hkey, htimer, hfired, hsession, hentry, hopen]
    exact h.marked
  · rw [hkey, hfired, hsession, hentry]
    exact h.fired
  · rw [hopen, htimeout, hfired]
    exact h.timeout

theorem wakeup_select (s : RequestSelect) :
    s.wakeup = { s with wakeups := if s.stage = .waiting then s.wakeups + 1 else s.wakeups } := by
  unfold wakeup
  split <;> rfl

/-! ## Answers -/

variable {answers : ℕ → Option SelectAnswer} {queue : List ℕ} {early : Bool}

theorem sessionView_other (hentry : s'.sessions k = s.sessions k)
    (hco : s'.sessionIdCoroutine k = s.sessionIdCoroutine k)
    (hwatch : s'.watchingSession k = s.watchingSession k) (hresp : s'.resp k = s.resp k)
    (hanswers : s'.answers k = s.answers k) (hqueue : k ∈ s'.errorQueue ↔ k ∈ s.errorQueue) :
    sessionView s' k = sessionView s k := by
  simp only [sessionView, hentry, hco, hwatch, hresp, hanswers, hqueue]

theorem SelectInv.collect (hinv : SelectInv s) (hr : s.requests[i]? = some r)
    (hout : r.outcome = .session) (hopen : SelectOpen s)
    (hview : SessionOutstanding i r (sessionView s (i + 1))) (hwakeups : s.wakeups = 0)
    (hothers : ∀ k, k ≠ i + 1 → answers k = s.answers k ∧ (k ∈ queue ↔ k ∈ s.errorQueue))
    (hvalue : answers (i + 1) = some ⟨value, early⟩)
    (hkept : ∀ a, s.answers (i + 1) = some a → a = ⟨value, early⟩) :
    SelectInv ({ s with answers := answers, errorQueue := queue }.dispatchResponse (i + 1)
      value) := by
  obtain ⟨hentry, hco, hwatch, hresp, -⟩ := hview
  have hco : s.sessionIdCoroutine (i + 1) = some .thread := hco
  have hsent : RequestSent s i := ⟨r, hr, hout⟩
  have hkey : timerSession s ≠ i + 1 := by
    have := sent_lt hsent
    unfold timerSession
    omega
  simp only [dispatchResponse, requestThread, hco, hinv.alive, Bool.false_eq_true, if_false,
    if_neg (hinv.timer.ne hsent), wakeup_select]
  refine hinv.update ⟨rfl, hinv.alive.symm, rfl, rfl, rfl, rfl, rfl⟩ (fun j r' hr' hout' => ?_)
    (fun k hk => ?_) (fun k a ha => ?_) ?_ (fun hstage hwaiting => ?_) (fun hstage => ?_)
    fun hstage => ?_
  · by_cases hj : j = i
    · subst hj
      refine ⟨fun _ => .inr (.inl ⟨hentry, update_self .., update_self ..,
        ⟨value, early⟩, update_self .., hvalue⟩), fun hnot => absurd hopen hnot⟩
    · have hne : j + 1 ≠ i + 1 := fun heq => hj (Nat.succ.inj heq)
      refine (hinv.session j r' hr' hout').other rfl rfl ?_
      exact sessionView_other rfl (update_of_ne hne ..) (update_of_ne hne ..)
        (update_of_ne hne ..) (hothers _ hne).1 (hothers _ hne).2
  · have hne := hk i hsent
    exact ⟨update_of_ne hne .., update_of_ne hne .., (hothers k hne).2.mp⟩
  · by_cases hk : k = i + 1
    · subst hk
      exact hvalue.trans (congrArg _ (hkept a ha).symm)
    · exact (hothers k hk).1.trans ha
  · exact hinv.timer.other rfl rfl rfl rfl rfl rfl (update_of_ne hkey ..)
  · obtain ⟨herror, hrequest, hcases⟩ := hwaiting
    refine ⟨herror, hrequest, .inr (.inr ⟨?_, ?_, i + 1, ?_⟩)⟩
    · simp [hstage, hwakeups]
    · rcases hcases with ⟨-, htimeout, -⟩ | ⟨hone, -⟩ | ⟨hone, -⟩
      · exact htimeout
      · exact absurd (hone.symm.trans hwakeups) (by decide)
      · exact absurd (hone.symm.trans hwakeups) (by decide)
    · simp
  · simp [hstage]
  · rcases hopen with hopen | hopen
    · exact nomatch hopen.symm.trans hstage
    · exact nomatch hopen.symm.trans hstage

theorem SelectInv.settle (hinv : SelectInv s) (hr : s.requests[i]? = some r)
    (hout : r.outcome = .session) (hwatch : s.watchingSession (i + 1) = none)
    (hclosed : s.sessionIdCoroutine (i + 1) = none ∨ ¬ SelectOpen s)
    (hothers : ∀ k, k ≠ i + 1 → answers k = s.answers k ∧ (k ∈ queue ↔ k ∈ s.errorQueue))
    (hmem : i + 1 ∈ queue → i + 1 ∈ s.errorQueue)
    (hanswer : answers (i + 1) ≠ none)
    (hkept : ∀ a, s.answers (i + 1) = some a → answers (i + 1) = some a)
    (hearly : s.fired = true → ∀ a, answers (i + 1) = some a → a.early = true →
      s.answers (i + 1) = some a) :
    SelectInv { s with
      answers := answers
      errorQueue := queue
      sessionIdCoroutine := Function.update s.sessionIdCoroutine (i + 1) none } := by
  have hsent : RequestSent s i := ⟨r, hr, hout⟩
  have hkey : timerSession s ≠ i + 1 := by
    have := sent_lt hsent
    unfold timerSession
    omega
  refine hinv.update ⟨rfl, rfl, rfl, rfl, rfl, rfl, rfl⟩ (fun j r' hr' hout' => ?_)
    (fun k hk => ⟨rfl, rfl, (hothers k (hk i hsent)).2.mp⟩) (fun k a ha => ?_) ?_
    (fun _ hwaiting => hwaiting) (fun _ => rfl) fun hstage hfinished => ?_
  · by_cases hj : j = i
    · subst hj
      refine ⟨fun hopen => ?_, fun _ => .inr ⟨update_self .., hwatch, hanswer⟩⟩
      rcases (hinv.session j r' hr' hout').1 hopen with ⟨-, hco, -⟩ | ⟨hentry, hco, -, a, hresp, ha⟩
        | ⟨hentry, hco, -, hresp, a, ha, hyielded⟩
      · rcases hclosed with hnone | hnot
        · exact nomatch hnone.symm.trans hco
        · exact absurd hopen hnot
      · exact .inr (.inl ⟨hentry, update_self .., hwatch, a, hresp, hkept a ha⟩)
      · exact .inr (.inr ⟨hentry, update_self .., hwatch, hresp, a, hkept a ha, hyielded⟩)
    · have hne : j + 1 ≠ i + 1 := fun heq => hj (Nat.succ.inj heq)
      refine (hinv.session j r' hr' hout').other rfl rfl ?_
      exact sessionView_other rfl (update_of_ne hne ..) rfl rfl (hothers _ hne).1
        (hothers _ hne).2
  · by_cases hk : k = i + 1
    · subst hk
      exact hkept a ha
    · exact (hothers k hk).1.trans ha
  · exact hinv.timer.other rfl rfl rfl rfl rfl rfl (update_of_ne hkey ..)
  · obtain ⟨herror, hall | ⟨hfired, hall⟩⟩ := hfinished
    · exact ⟨herror, .inl hall⟩
    · refine ⟨herror, .inr ⟨hfired, fun j a hj ha htrue => hall j a hj ?_ htrue⟩⟩
      by_cases hk : j + 1 = i + 1
      · rw [hk] at ha ⊢
        exact hearly hfired a ha htrue
      · exact (hothers _ hk).1.symm.trans ha

theorem SelectInv.response (hinv : SelectInv s) {v : ℕ} (hwakeups : s.wakeups = 0)
    (hservice : s.service k ≠ none) (hanswer : s.answers k = none) :
    SelectInv ((s.answer (fun session => session = k) (some v)).dispatchResponse k (some v)) := by
  obtain ⟨i, r, rfl, hr, hout, -⟩ := service_sent hservice
  have hnew : (s.answer (fun session => session = i + 1) (some v)).answers (i + 1)
      = some ⟨some v, !s.fired⟩ := by
    simp [answer, hanswer]
  have hothers (k : ℕ) (hk : k ≠ i + 1) :
      (s.answer (fun session => session = i + 1) (some v)).answers k = s.answers k := by
    simp [answer, hk]
  by_cases hopen : SelectOpen s
  · rcases (hinv.session i r hr hout).1 hopen with hview | ⟨-, -, -, a, -, ha⟩
      | ⟨-, -, -, -, a, ha, -⟩
    · exact hinv.collect hr hout hopen hview hwakeups (fun k hk => ⟨hothers k hk, Iff.rfl⟩) hnew
        fun a ha => nomatch hanswer.symm.trans ha
    · exact nomatch hanswer.symm.trans ha
    · exact nomatch hanswer.symm.trans ha
  · rcases (hinv.session i r hr hout).2 hopen with ⟨hco, hwatch, -⟩ | ⟨-, -, ha⟩
    · have heq : (s.answer (fun session => session = i + 1) (some v)).dispatchResponse (i + 1)
          (some v) = { s with
            answers := (s.answer (fun session => session = i + 1) (some v)).answers
            errorQueue := s.errorQueue
            sessionIdCoroutine := Function.update s.sessionIdCoroutine (i + 1) none } := by
        unfold dispatchResponse
        rw [show (s.answer _ _).sessionIdCoroutine (i + 1) = some .break from hco]
        rfl
      rw [heq]
      refine hinv.settle hr hout hwatch (.inr hopen) (fun k hk => ⟨hothers k hk, Iff.rfl⟩) id
        (hnew ▸ nofun) (fun a ha => nomatch hanswer.symm.trans ha) fun hfired a ha htrue => ?_
      rw [hnew, some.injEq] at ha
      rw [← ha, hfired] at htrue
      cases htrue
    · exact absurd hanswer ha

theorem SelectInv.failed (hinv : SelectInv s) {rest : List ℕ} (hqueue : s.errorQueue = k :: rest)
    (hwakeups : s.wakeups = 0) (hstep : next s .failed = some s') : SelectInv s' := by
  have hothers (j : ℕ) (hj : j ≠ k) :
      s.answers j = s.answers j ∧ (j ∈ rest ↔ j ∈ s.errorQueue) := by
    rw [hqueue, List.mem_cons]
    exact ⟨rfl, (or_iff_right hj).symm⟩
  have hsent : ∃ i, RequestSent s i ∧ k = i + 1 := by
    by_contra hnot
    refine (hinv.stray k fun i hi hk => hnot ⟨i, hi, hk⟩).2.2 ?_
    rw [hqueue]
    exact List.mem_cons_self
  obtain ⟨i, ⟨r, hr, hout⟩, rfl⟩ := hsent
  have hmem : i + 1 ∈ s.errorQueue := by
    rw [hqueue]
    exact List.mem_cons_self
  have hheard (hunheard : Unheard (sessionView s (i + 1))) :
      ∃ early, s.answers (i + 1) = some ⟨none, early⟩ := by
    rcases hunheard with ⟨-, hnot⟩ | ⟨early, ha, -⟩
    · exact absurd hmem (of_decide_eq_false hnot)
    · exact ⟨early, ha⟩
  have hdone (hwatch : s.watchingSession (i + 1) = none)
      (hclosed : s.sessionIdCoroutine (i + 1) = none ∨ ¬ SelectOpen s)
      (hco : s.sessionIdCoroutine (i + 1) ≠ some .thread) (hanswer : s.answers (i + 1) ≠ none) :
      SelectInv s' := by
    simp only [RequestSelect.next, hqueue, if_pos hwakeups, if_neg hco, some.injEq] at hstep
    rw [← hstep]
    exact hinv.settle hr hout hwatch hclosed hothers
      (fun h => hqueue ▸ List.mem_cons_of_mem _ h) hanswer (fun _ ha => ha) fun _ _ ha _ => ha
  by_cases hopen : SelectOpen s
  · rcases (hinv.session i r hr hout).1 hopen with hview | ⟨-, hco, hwatch, a, -, ha⟩
      | ⟨-, hco, hwatch, -, a, ha, -⟩
    · have hco : s.sessionIdCoroutine (i + 1) = some .thread := hview.2.1
      obtain ⟨-, -, -, -, hunheard⟩ := id hview
      obtain ⟨early, ha⟩ := hheard hunheard
      simp only [RequestSelect.next, hqueue, if_pos hwakeups, if_pos hco, some.injEq] at hstep
      rw [← hstep]
      refine hinv.collect hr hout hopen hview hwakeups hothers ha fun a' ha' => ?_
      exact some.inj (ha'.symm.trans ha)
    · exact hdone hwatch (.inl hco) (fun h => nomatch hco.symm.trans h) fun h =>
        nomatch ha.symm.trans h
    · exact hdone hwatch (.inl hco) (fun h => nomatch hco.symm.trans h) fun h =>
        nomatch ha.symm.trans h
  · rcases (hinv.session i r hr hout).2 hopen with ⟨hco, hwatch, hunheard⟩ | ⟨hco, hwatch, ha⟩
    · obtain ⟨early, ha⟩ := hheard hunheard
      exact hdone hwatch (.inr hopen) (fun h => nomatch hco.symm.trans h) fun h =>
        nomatch ha.symm.trans h
    · exact hdone hwatch (.inr hopen) (fun h => nomatch hco.symm.trans h) ha

/-! ## Failures -/

theorem SelectInv.fail (hinv : SelectInv s) {p : ℕ → Bool} {order : List ℕ}
    (hsent : ∀ k ∈ order, p k = true ∧ s.watchingSession k ≠ none)
    (hall : ∀ k, p k = true → s.answers k = none → s.watchingSession k ≠ none → k ∈ order)
    (hmarked : ∀ k, p k = true → s.answers k = none → s.sessionIdCoroutine k ≠ some .break) :
    SelectInv { s.answer p none with errorQueue := s.errorQueue ++ order } := by
  have hkept {k : ℕ} {a : SelectAnswer} (ha : s.answers k = some a) :
      (s.answer p none).answers k = some a := by
    simp [answer, ha]
  have hmem {k : ℕ} (hwatch : s.watchingSession k = none) :
      k ∈ s.errorQueue ++ order ↔ k ∈ s.errorQueue := by
    rw [mem_append]
    exact or_iff_left fun hk => (hsent k hk).2 hwatch
  have hview {k : ℕ} {a : SelectAnswer} (hwatch : s.watchingSession k = none)
      (ha : s.answers k = some a) :
      sessionView { s.answer p none with errorQueue := s.errorQueue ++ order } k
        = sessionView s k :=
    sessionView_other rfl rfl rfl rfl ((hkept ha).trans ha.symm) (hmem hwatch)
  have hclosed {i : ℕ} {r : SelectRequest} (hr : s.requests[i]? = some r)
      (hout : r.outcome = .session) (hnot : ¬ SelectOpen s) :
      (s.answer p none).answers (i + 1) = s.answers (i + 1) := by
    cases ha : s.answers (i + 1) with
    | some a => exact hkept ha
    | none =>
      rcases (hinv.session i r hr hout).2 hnot with ⟨hco, -, -⟩ | ⟨-, -, hsome⟩
      · have hp : p (i + 1) = false := Bool.eq_false_iff.mpr fun hp => hmarked _ hp ha hco
        simp [answer, hp, ha]
      · exact absurd ha hsome
  refine hinv.update ⟨rfl, rfl, rfl, rfl, rfl, rfl, rfl⟩ (fun i r hr hout => ?_)
    (fun k hk => ⟨rfl, rfl, fun hqueue => ?_⟩) (fun k a ha => hkept ha)
    (hinv.timer.other rfl rfl rfl rfl rfl rfl rfl) (fun _ hwaiting => hwaiting) (fun _ => rfl)
    fun hstage hfinished => ?_
  · by_cases hopen : SelectOpen s
    · rcases (hinv.session i r hr hout).1 hopen with ⟨hentry, hco, hwatch, hresp, hunheard⟩
        | ⟨-, -, hwatch, a, -, ha⟩ | ⟨-, -, hwatch, -, a, ha, -⟩
      · refine ⟨fun _ => .inl ⟨hentry, hco, hwatch, hresp, ?_⟩, fun hnot => absurd hopen hnot⟩
        have hwatch : s.watchingSession (i + 1) = some r.address := hwatch
        rcases hunheard with ⟨ha, hqueued⟩ | ⟨early, ha, hqueued⟩
        · have ha : s.answers (i + 1) = none := ha
          have hqueued : i + 1 ∉ s.errorQueue := of_decide_eq_false hqueued
          by_cases hp : p (i + 1) = true
          · refine .inr ⟨!s.fired, ?_, decide_eq_true ?_⟩
            · simp [sessionView, answer, hp, ha]
            · exact mem_append_right _ (hall _ hp ha (hwatch ▸ nofun))
          · refine .inl ⟨?_, decide_eq_false fun hk => ?_⟩
            · simp [sessionView, answer, hp, ha]
            · exact (mem_append.mp hk).elim hqueued fun hk => hp (hsent _ hk).1
        · refine .inr ⟨early, hkept ha, decide_eq_true ?_⟩
          exact mem_append_left _ (of_decide_eq_true hqueued)
      · exact (hinv.session i r hr hout).other rfl rfl (hview hwatch ha)
      · exact (hinv.session i r hr hout).other rfl rfl (hview hwatch ha)
    · refine (hinv.session i r hr hout).other rfl rfl ?_
      have hwatch : s.watchingSession (i + 1) = none := by
        rcases (hinv.session i r hr hout).2 hopen with ⟨-, hwatch, -⟩ | ⟨-, hwatch, -⟩ <;>
          exact hwatch
      exact sessionView_other rfl rfl rfl rfl (hclosed hr hout hopen) (hmem hwatch)
  · exact (hmem (hinv.stray k hk).2.1).mp hqueue
  · obtain ⟨herror, hyielded | ⟨hfired, hyielded⟩⟩ := hfinished
    · exact ⟨herror, .inl hyielded⟩
    · refine ⟨herror, .inr ⟨hfired, fun i a hi ha htrue => hyielded i a hi ?_ htrue⟩⟩
      obtain ⟨r, hr, hout⟩ := id hi
      have hnot : ¬ SelectOpen s := by
        rintro (hopen | hopen)
        · exact nomatch hopen.symm.trans hstage
        · exact nomatch hopen.symm.trans hstage
      exact (hclosed hr hout hnot).symm.trans ha

theorem SelectInv.error (hinv : SelectInv s)
    (hmarked : s.answers k = none → s.sessionIdCoroutine k ≠ some .break)
    (hstep : next s (.error k) = some s') : SelectInv s' := by
  obtain ⟨-, hstep⟩ := ite_none_right_eq_some.mp hstep
  have hp {j : ℕ} (hj : decide (j = k) = true) : j = k := of_decide_eq_true hj
  have hmarked (j : ℕ) (hj : decide (j = k) = true) (ha : s.answers j = none) :
      s.sessionIdCoroutine j ≠ some .break := by
    obtain rfl := hp hj
    exact hmarked ha
  split at hstep
  · next hwatch =>
    rw [← some.inj hstep]
    refine hinv.fail (fun j hj => ?_) (fun j hj _ _ => ?_) hmarked
    · rw [List.mem_singleton.mp hj]
      exact ⟨decide_eq_true rfl, hwatch⟩
    · exact List.mem_singleton.mpr (hp hj)
  · next hwatch =>
    have heq : s.answer (fun session => session = k) none
        = { s.answer (fun session => session = k) none with
          errorQueue := s.errorQueue ++ [] } := by
      rw [append_nil]
      rfl
    rw [← some.inj hstep, heq]
    refine hinv.fail (by simp) (fun j hj _ hw => ?_) hmarked
    obtain rfl := hp hj
    exact absurd hw hwatch

theorem SelectInv.watching (hinv : SelectInv s) (hwatch : s.watchingSession k ≠ none) :
    ∃ i r, k = i + 1 ∧ s.requests[i]? = some r ∧ r.outcome = .session
      ∧ s.watchingSession k = some r.address := by
  have hsent : ∃ i, RequestSent s i ∧ k = i + 1 := by
    by_contra hnot
    exact hwatch (hinv.stray k fun i hi hk => hnot ⟨i, hi, hk⟩).2.1
  obtain ⟨i, ⟨r, hr, hout⟩, rfl⟩ := hsent
  by_cases hopen : SelectOpen s
  · rcases (hinv.session i r hr hout).1 hopen with ⟨-, -, hsome, -⟩ | ⟨-, -, hnone, -⟩
      | ⟨-, -, hnone, -⟩
    · exact ⟨i, r, rfl, hr, hout, hsome⟩
    · exact absurd hnone hwatch
    · exact absurd hnone hwatch
  · rcases (hinv.session i r hr hout).2 hopen with ⟨-, hnone, -⟩ | ⟨-, hnone, -⟩
    · exact absurd hnone hwatch
    · exact absurd hnone hwatch

theorem SelectInv.death (hinv : SelectInv s) {h : ℕ} {order : List ℕ}
    (hok : ∀ k, s.service k = some h → s.answers k = none →
      s.sessionIdCoroutine k ≠ some .break ∧ s.watchingSession k ≠ some (.name h))
    (hstep : next s (.death h order) = some s') : SelectInv s' := by
  obtain ⟨⟨-, hperm⟩, hstep⟩ := ite_none_right_eq_some.mp hstep
  have hwatched (k : ℕ) : k ∈ order ↔ k < s.requests.length + 1
      ∧ s.watchingSession k = some (.handle h) := by
    rw [hperm.mem_iff, watched, List.mem_filter, List.mem_range, decide_eq_true_iff]
  rw [← some.inj hstep]
  refine hinv.fail (fun k hk => ?_) (fun k hk ha hwatch => ?_) fun k hk ha => ?_
  · obtain ⟨-, hhandle⟩ := (hwatched k).mp hk
    have hwatch : s.watchingSession k ≠ none := by rw [hhandle]; nofun
    obtain ⟨i, r, rfl, hr, hout, haddress⟩ := hinv.watching hwatch
    refine ⟨decide_eq_true ?_, hwatch⟩
    rw [hhandle, some.injEq] at haddress
    simp [service, hr, hout, ← haddress, SelectAddress.service]
  · obtain ⟨i, r, rfl, hr, hout, haddress⟩ := hinv.watching hwatch
    have hservice := of_decide_eq_true hk
    have hlt := (List.getElem?_eq_some_iff.mp hr).1
    refine (hwatched _).mpr ⟨by omega, haddress.trans ?_⟩
    have hname := (hok _ hservice ha).2
    rw [haddress] at hname
    simp only [service, hr, hout, bind_eq_bind, bind_some, if_true, some.injEq] at hservice
    cases hcase : r.address with
    | handle g =>
      rw [hcase] at hservice
      exact congrArg (fun x => some (SelectAddress.handle x)) hservice
    | name g =>
      rw [hcase] at hservice hname
      exact absurd (congrArg (fun x => some (SelectAddress.name x)) hservice) hname
  · exact (hok k (of_decide_eq_true hk) ha).1

theorem SelectInv.timerFires (hinv : SelectInv s) (hstep : next s .timer = some s') :
    SelectInv s' := by
  obtain ⟨⟨hwakeups, htimer, hfired⟩, hstep⟩ := ite_none_right_eq_some.mp hstep
  have hfired : s.fired = false := Bool.eq_false_iff.mpr hfired
  have hne {i : ℕ} {r : SelectRequest} (hr : s.requests[i]? = some r) :
      i + 1 ≠ s.requests.length + 1 := by
    have := (List.getElem?_eq_some_iff.mp hr).1
    omega
  have hfinished (h : FinishedRight s) : s.error = [] ∧ ∀ i, RequestSent s i →
      RequestYielded s i := by
    obtain ⟨herror, hall | ⟨htrue, -⟩⟩ := h
    · exact ⟨herror, hall⟩
    · exact nomatch hfired.symm.trans htrue
  by_cases hopen : SelectOpen s
  · obtain ⟨hsession, hco⟩ := hinv.timer.pending htimer hfired hopen
    have hco : s.sessionIdCoroutine (s.requests.length + 1) = some .thread := hco
    have hsession : s.timeoutSession = some (s.requests.length + 1) := hsession
    simp only [dispatchResponse, requestThread, hco, hinv.alive, Bool.false_eq_true, if_false,
      if_pos hsession, wakeup_select, some.injEq] at hstep
    rw [← hstep]
    refine hinv.update ⟨rfl, hinv.alive.symm, rfl, rfl, rfl, rfl, rfl⟩ (fun i r hr hout => ?_)
      (fun k hk => ⟨rfl, rfl, id⟩) (fun _ _ ha => ha) ?_ (fun hstage hwaiting => ?_)
      (fun hstage => ?_) fun _ h => ?_
    · refine (hinv.session i r hr hout).other rfl rfl ?_
      exact sessionView_other rfl (update_of_ne (hne hr) ..) rfl rfl rfl Iff.rfl
    · refine ⟨fun hnone => ?_, nofun, nofun, fun _ => ⟨rfl, update_self ..⟩,
        fun _ => iff_of_true rfl rfl⟩
      exact nomatch htimer.symm.trans hnone
    · obtain ⟨herror, hrequest, hcases⟩ := hwaiting
      refine ⟨herror, hrequest, .inr (.inl ⟨?_, rfl, ?_⟩)⟩
      · simp [hstage, hwakeups]
      · rcases hcases with ⟨-, -, hresp⟩ | ⟨hone, -⟩ | ⟨hone, -⟩
        · exact hresp
        · exact absurd (hone.symm.trans hwakeups) (by decide)
        · exact absurd (hone.symm.trans hwakeups) (by decide)
    · simp [hstage]
    · exact ⟨(hfinished h).1, .inl (hfinished h).2⟩
  · obtain ⟨hsession, hco⟩ := hinv.timer.marked htimer hfired hopen
    have hco : s.sessionIdCoroutine (s.requests.length + 1) = some .break := hco
    simp only [dispatchResponse, hco, some.injEq] at hstep
    rw [← hstep]
    refine hinv.update ⟨rfl, rfl, rfl, rfl, rfl, rfl, rfl⟩ (fun i r hr hout => ?_)
      (fun k hk => ⟨rfl, rfl, id⟩) (fun _ _ ha => ha) ?_
      (fun hstage _ => absurd (.inr hstage) hopen) (fun hstage => absurd (.inl hstage) hopen)
      fun _ h => ⟨(hfinished h).1, .inl (hfinished h).2⟩
    · refine (hinv.session i r hr hout).other rfl rfl ?_
      exact sessionView_other rfl (update_of_ne (hne hr) ..) rfl rfl rfl Iff.rfl
    · refine ⟨fun hnone => ?_, nofun, nofun, fun _ => ⟨hsession, update_self ..⟩,
        fun hnew => absurd hnew hopen⟩
      exact nomatch htimer.symm.trans hnone

theorem SelectInv.request_ne (hinv : SelectInv s) (hopen : SelectOpen s) (hi : RequestSent s i)
    (hentry : s.sessions (i + 1) ≠ none) : s.request ≠ 0 := by
  rw [hinv.count hopen, card_ne_zero]
  exact ⟨i, Finset.mem_filter.mpr ⟨Finset.mem_range.mpr (sent_lt hi), hentry⟩⟩

theorem SelectInv.close (hinv : SelectInv s) (hopen : SelectOpen s) {wakeups : ℕ}
    (hstage : stage = .finished ∨ stage = .left ∨ stage = .killed)
    (hresp : ∀ k, s.resp k ≠ some none) (hfinished : stage = .finished → FinishedRight s) :
    SelectInv ({ s with wakeups := wakeups }.close stage) := by
  have hnot : ¬ SelectOpen ({ s with wakeups := wakeups }.close stage) := by
    rintro (h | h) <;> rcases hstage with rfl | rfl | rfl <;> cases h
  have hmarked {k : ℕ} (hk : s.sessions k = none) :
      decide (s.request ≠ 0 ∧ s.sessions k ≠ none ∧ (s.resp k).join = none) = false := by
    simp [hk]
  have hentries {k : ℕ} (hk : s.timeoutSession ≠ some k) :
      ({ s with wakeups := wakeups }.close stage).sessionIdCoroutine k
        = if decide (s.request ≠ 0 ∧ s.sessions k ≠ none ∧ (s.resp k).join = none) = true
          then some .break else s.sessionIdCoroutine k := by
    cases ht : s.timeoutSession with
    | none => simp only [RequestSelect.close]
    | some t =>
      simp only [RequestSelect.close]
      refine update_of_ne ?_ ..
      rintro rfl
      exact hk ht
  have hwatches (k : ℕ) : ({ s with wakeups := wakeups }.close stage).watchingSession k
      = if decide (s.request ≠ 0 ∧ s.sessions k ≠ none ∧ (s.resp k).join = none) = true
        then none else s.watchingSession k := rfl
  have hsession (i : ℕ) (r : SelectRequest) (hr : s.requests[i]? = some r)
      (hout : r.outcome = .session) :
      SessionMarked (sessionView ({ s with wakeups := wakeups }.close stage) (i + 1))
        ∨ SessionSettled (sessionView ({ s with wakeups := wakeups }.close stage) (i + 1)) := by
    have hsent : RequestSent s i := ⟨r, hr, hout⟩
    have hco := hentries (hinv.timer.ne hsent)
    have hwatch' := hwatches (i + 1)
    rcases (hinv.session i r hr hout).1 hopen with ⟨hentry, -, -, hnone, hunheard⟩
      | ⟨hentry, hnone, hwatch, a, hsome, ha⟩ | ⟨hentry, hnone, hwatch, -, a, ha, -⟩
    · have hentry : s.sessions (i + 1) = some i := hentry
      have hne : s.sessions (i + 1) ≠ none := by rw [hentry]; rintro ⟨⟩
      have hnone : s.resp (i + 1) = none := hnone
      have hmark : decide (s.request ≠ 0 ∧ s.sessions (i + 1) ≠ none
          ∧ (s.resp (i + 1)).join = none) = true :=
        decide_eq_true ⟨hinv.request_ne hopen hsent hne, hne, by rw [hnone]; rfl⟩
      rw [if_pos hmark] at hco hwatch'
      exact .inl ⟨hco, hwatch', hunheard⟩
    · have hsome : s.resp (i + 1) = some a.value := hsome
      have hmark : decide (s.request ≠ 0 ∧ s.sessions (i + 1) ≠ none
          ∧ (s.resp (i + 1)).join = none) = false := by
        apply decide_eq_false
        rintro ⟨-, -, hjoin⟩
        apply hresp (i + 1)
        rw [hsome] at hjoin ⊢
        exact congrArg _ hjoin
      rw [if_neg (Bool.eq_false_iff.mp hmark)] at hco hwatch'
      exact .inr ⟨hco.trans hnone, hwatch'.trans hwatch, fun h => by cases ha.symm.trans h⟩
    · rw [if_neg (Bool.eq_false_iff.mp (hmarked hentry))] at hco hwatch'
      exact .inr ⟨hco.trans hnone, hwatch'.trans hwatch, fun h => by cases ha.symm.trans h⟩
  refine ⟨hinv.sendable, hinv.alive, ?_, fun i r hr hout => ⟨fun h => absurd h hnot,
    fun _ => hsession i r hr hout⟩, hinv.entry, fun k hk => ?_, hinv.given, hinv.once, hinv.gone,
    hinv.invalid, hinv.errors, fun h => absurd h hnot, ?_, fun h => absurd (.inr h) hnot,
    fun h => absurd (.inl h) hnot, hfinished⟩
  · intro h
    rcases hstage with rfl | rfl | rfl <;> cases h
  · obtain ⟨hnone, hwatch, hqueue⟩ := hinv.stray k hk
    refine ⟨hnone, ?_, hqueue⟩
    rw [hwatches]
    split
    · rfl
    · exact hwatch
  · have hkey : s.sessions (timerSession s) = none := by
      by_contra hne
      obtain ⟨i, hi⟩ := ne_none_iff_exists'.mp hne
      obtain ⟨heq, hsent⟩ := hinv.entry _ i hi
      have := sent_lt hsent
      unfold timerSession at heq
      omega
    have hsame (hnone : s.timeoutSession = none) :
        ({ s with wakeups := wakeups }.close stage).sessionIdCoroutine (timerSession s)
          = s.sessionIdCoroutine (timerSession s) := by
      rw [hentries (hnone ▸ (by rintro ⟨⟩)), if_neg (Bool.eq_false_iff.mp (hmarked hkey))]
    refine ⟨fun htimer => ?_, fun _ _ h => absurd h hnot, fun htimer hfired _ => ⟨rfl, ?_⟩,
      fun hfired => ?_, fun h => absurd h hnot⟩
    · obtain ⟨hfired, hnone, hco⟩ := hinv.timer.absent htimer
      exact ⟨hfired, rfl, (hsame hnone).trans hco⟩
    · obtain ⟨hsome, -⟩ := hinv.timer.pending htimer hfired hopen
      simp only [RequestSelect.close, hsome]
      exact update_self ..
    · obtain ⟨hnone, hco⟩ := hinv.timer.fired hfired
      exact ⟨rfl, (hsame hnone).trans hco⟩

/-! ## The iterator -/

theorem mem_collected (hinv : SelectInv s) : k ∈ s.collected ↔ s.resp k ≠ none := by
  rw [collected, List.mem_filter, List.mem_range, isSome_iff_ne_none]
  refine and_iff_right_of_imp fun hne => ?_
  by_contra hlt
  refine hne (hinv.stray k fun i hi hk => ?_).1
  have := sent_lt hi
  omega

theorem collected_eq_nil (hinv : SelectInv s) : s.collected = [] ↔ ∀ k, s.resp k = none := by
  rw [eq_nil_iff_forall_not_mem]
  refine forall_congr' fun k => ?_
  rw [mem_collected hinv, not_not]

theorem SelectInv.yieldSession (hinv : SelectInv s) (hopen : SelectOpen s)
    (hk : s.resp k ≠ none) : SelectInv ({ s with wakeups := 0 }.yieldSession k) := by
  have hsent : ∃ i, RequestSent s i ∧ k = i + 1 := by
    by_contra hnot
    exact hk (hinv.stray k fun i hi hk => hnot ⟨i, hi, hk⟩).1
  obtain ⟨i, hsent, rfl⟩ := hsent
  obtain ⟨r, hr, hout⟩ := id hsent
  have hcollected : SessionCollected i (sessionView s (i + 1)) := by
    rcases (hinv.session i r hr hout).1 hopen with ⟨-, -, -, hnone, -⟩ | h | ⟨-, -, -, hnone, -⟩
    · exact absurd hnone hk
    · exact h
    · exact absurd hnone hk
  obtain ⟨hentry, hco, hwatch, a, hresp, ha⟩ := hcollected
  have hentry : s.sessions (i + 1) = some i := hentry
  have hresp : s.resp (i + 1) = some a.value := hresp
  have hyielded : ({ s with wakeups := 0 }.yieldSession (i + 1)).yielded
      = s.yielded ++ [(i, a.value)] := by
    simp [RequestSelect.yieldSession, hentry, hresp]
  have hmem {j : ℕ} {v : Option ℕ} : (j, v) ∈ s.yielded ++ [(i, a.value)]
      ↔ (j, v) ∈ s.yielded ∨ j = i ∧ v = a.value := by
    rw [mem_append, List.mem_singleton, Prod.mk.injEq]
  have hnew {j : ℕ} : RequestYielded ({ s with wakeups := 0 }.yieldSession (i + 1)) j
      ↔ RequestYielded s j ∨ j = i := by
    rw [RequestYielded, RequestYielded, hyielded]
    constructor
    · rintro ⟨v, hv⟩
      exact (hmem.mp hv).imp (fun hv => ⟨v, hv⟩) And.left
    · rintro (⟨v, hv⟩ | rfl)
      · exact ⟨v, hmem.mpr (.inl hv)⟩
      · exact ⟨_, hmem.mpr (.inr ⟨rfl, rfl⟩)⟩
  have hnot : ¬ RequestYielded s i := fun h => nomatch (hinv.gone i h).symm.trans hentry
  have hopen' : SelectOpen ({ s with wakeups := 0 }.yieldSession (i + 1)) := .inl rfl
  refine ⟨hinv.sendable, hinv.alive, nofun, fun j r' hr' hout' => ⟨fun _ => ?_,
    fun h => absurd hopen' h⟩, fun k j hk => ?_, fun k hk => ?_, fun j v hv => ?_, ?_,
    fun j hj => ?_, fun j hj => ?_, hinv.errors, fun _ => ?_, ?_, nofun, fun _ => rfl, nofun⟩
  · by_cases hj : j = i
    · subst hj
      refine .inr (.inr ⟨update_self .., hco, hwatch, update_self .., a, ha, ?_⟩)
      exact hyielded ▸ hmem.mpr (.inr ⟨rfl, rfl⟩)
    · have hne : j + 1 ≠ i + 1 := fun heq => hj (Nat.succ.inj heq)
      have hview : sessionView ({ s with wakeups := 0 }.yieldSession (i + 1)) (j + 1)
          = sessionView s (j + 1) :=
        sessionView_other (update_of_ne hne ..) rfl rfl (update_of_ne hne ..)
          rfl Iff.rfl
      rw [hview, hyielded]
      refine ((hinv.session j r' hr' hout').1 hopen).imp id (Or.imp id ?_)
      rintro ⟨hentry, hco, hwatch, hresp, b, hb, hv⟩
      exact ⟨hentry, hco, hwatch, hresp, b, hb, hmem.mpr (.inl hv)⟩
  · have hk : Function.update s.sessions (i + 1) none k = some j := hk
    by_cases hne : k = i + 1
    · rw [hne, update_self] at hk
      cases hk
    · rw [update_of_ne hne] at hk
      exact hinv.entry k j hk
  · obtain ⟨hnone, hrest⟩ := hinv.stray k hk
    exact ⟨(update_of_ne (hk i hsent) ..).trans hnone, hrest⟩
  · rw [hyielded] at hv
    rcases hmem.mp hv with hv | ⟨rfl, rfl⟩
    · exact hinv.given j v hv
    · exact .inr ⟨hsent, a, ha, rfl⟩
  · rw [hyielded, map_append, append_assoc]
    refine (perm_middle.nodup_iff).mpr (nodup_cons.mpr ⟨fun hi => ?_, hinv.once⟩)
    rcases mem_append.mp hi with hi | hi
    · obtain ⟨⟨j, v⟩, hv, rfl⟩ := List.mem_map.mp hi
      exact hnot ⟨v, hv⟩
    · obtain ⟨r', hr', hinvalid⟩ := hinv.errors i hi
      rw [hr, some.injEq] at hr'
      rw [← hr', hout] at hinvalid
      cases hinvalid
  · rcases hnew.mp hj with hj | rfl
    · change Function.update s.sessions (i + 1) none (j + 1) = none
      by_cases hne : j + 1 = i + 1
      · rw [hne, update_self]
      · rw [update_of_ne hne]
        exact hinv.gone j hj
    · exact update_self ..
  · exact (hinv.invalid j hj).imp id fun h => hnew.mpr (.inl h)
  · have hset : openRequests ({ s with wakeups := 0 }.yieldSession (i + 1))
        = (openRequests s).erase i := by
      ext j
      rw [mem_erase, openRequests, openRequests, Finset.mem_filter, Finset.mem_filter]
      change _ ∧ Function.update s.sessions (i + 1) none (j + 1) ≠ none ↔ _
      by_cases hj : j = i
      · subst hj
        simp
      · have hne : j + 1 ≠ i + 1 := fun heq => hj (Nat.succ.inj heq)
        rw [update_of_ne hne]
        exact (and_iff_right hj).symm
    have hi : i ∈ openRequests s := by
      refine Finset.mem_filter.mpr ⟨Finset.mem_range.mpr (sent_lt hsent), ?_⟩
      rw [hentry]
      nofun
    change s.request - 1 = _
    rw [hset, card_erase_of_mem hi, hinv.count hopen]
  · refine ⟨hinv.timer.absent, fun htimer hfired _ => hinv.timer.pending htimer hfired hopen,
      fun _ _ h => absurd hopen' h, hinv.timer.fired, fun _ => hinv.timer.timeout hopen⟩

theorem not_sent_of_invalid (hi : RequestInvalid s i) : ¬ RequestSent s i := by
  rintro ⟨r, hr, hout⟩
  obtain ⟨r', hr', hout'⟩ := hi
  rw [hr, some.injEq] at hr'
  rw [← hr', hout] at hout'
  cases hout'

theorem SelectInv.yieldError (hinv : SelectInv s) (hbody : s.stage = .body) {error : List ℕ}
    (herror : s.error = error ++ [i]) :
    SelectInv { s with error := error, yielded := s.yielded ++ [(i, none)] } := by
  have hinvalid : RequestInvalid s i :=
    hinv.errors i (herror ▸ mem_append_right _ (List.mem_singleton_self i))
  have hmem {j : ℕ} {v : Option ℕ} : (j, v) ∈ s.yielded ++ [(i, none)]
      ↔ (j, v) ∈ s.yielded ∨ j = i ∧ v = none := by
    rw [mem_append, List.mem_singleton, Prod.mk.injEq]
  have hnotBody {stage : SelectStage} (hne : stage ≠ .body) : s.stage ≠ stage := hbody ▸ hne.symm
  refine ⟨hinv.sendable, hinv.alive, hinv.noRaise, fun j r hr hout => ⟨fun hopen => ?_,
    (hinv.session j r hr hout).2⟩, hinv.entry, hinv.stray, fun j v hv => ?_, ?_, fun j hj => ?_,
    fun j hj => ?_, fun j hj => hinv.errors j (herror ▸ mem_append_left _ hj), hinv.count, ?_,
    fun h => absurd h (hnotBody nofun), hinv.body, fun h => absurd h (hnotBody nofun)⟩
  · refine ((hinv.session j r hr hout).1 hopen).imp id (Or.imp id ?_)
    rintro ⟨hentry, hco, hwatch, hresp, a, ha, hv⟩
    exact ⟨hentry, hco, hwatch, hresp, a, ha, hmem.mpr (.inl hv)⟩
  · rcases hmem.mp hv with hv | ⟨rfl, rfl⟩
    · exact hinv.given j v hv
    · exact .inl ⟨hinvalid, rfl⟩
  · have honce := hinv.once
    rw [herror] at honce
    rw [map_append, append_assoc]
    have hperm : (error ++ [i]).Perm ([i] ++ error) := perm_append_comm
    exact (hperm.append_left _).nodup_iff.mp honce
  · obtain ⟨v, hv⟩ := hj
    rcases hmem.mp hv with hv | ⟨rfl, -⟩
    · exact hinv.gone j ⟨v, hv⟩
    · by_contra hne
      obtain ⟨j', hj'⟩ := ne_none_iff_exists'.mp hne
      obtain ⟨heq, hsent⟩ := hinv.entry _ j' hj'
      obtain rfl := Nat.succ.inj heq
      exact not_sent_of_invalid hinvalid hsent
  · rcases hinv.invalid j hj with hj | ⟨v, hv⟩
    · rw [herror] at hj
      refine (mem_append.mp hj).imp id fun hj => ⟨none, hmem.mpr (.inr ⟨?_, rfl⟩)⟩
      exact List.mem_singleton.mp hj
    · exact .inr ⟨v, hmem.mpr (.inl hv)⟩
  · exact hinv.timer.other rfl rfl rfl rfl rfl rfl rfl

def EndsByTimeout (s : RequestSelect) : Prop :=
  SelectOpen s ∧ s.timeout = true ∧ s.error = [] ∧ s.collected = []

def NoEarlyFailure (s : RequestSelect) : Prop :=
  ∀ k ∈ s.errorQueue, ∀ a ∈ s.answers k, a.early = false

theorem SelectInv.finish (hinv : SelectInv s) (hopen : SelectOpen s) (herror : s.error = [])
    (hresp : ∀ k, s.resp k = none) (hend : s.request = 0 ∨ s.timeout = true)
    (hok : s.timeout = true → NoEarlyFailure s) : FinishedRight s := by
  refine ⟨herror, ?_⟩
  have hcases {i : ℕ} (hi : RequestSent s i) : s.sessions (i + 1) ≠ none
      ∧ Unheard (sessionView s (i + 1)) ∨ RequestYielded s i := by
    obtain ⟨r, hr, hout⟩ := hi
    rcases (hinv.session i r hr hout).1 hopen with ⟨hentry, -, -, -, hunheard⟩
      | ⟨-, -, -, a, hsome, -⟩ | ⟨-, -, -, -, a, -, hmem⟩
    · have hentry : s.sessions (i + 1) = some i := hentry
      exact .inl ⟨by rw [hentry]; nofun, hunheard⟩
    · exact nomatch (hresp _).symm.trans hsome
    · exact .inr ⟨_, hmem⟩
  by_cases htimeout : s.timeout = true
  · refine .inr ⟨(hinv.timer.timeout hopen).mp htimeout, fun i a hi ha htrue => ?_⟩
    refine (hcases hi).resolve_left fun ⟨_, hunheard⟩ => ?_
    rcases hunheard with ⟨hnone, -⟩ | ⟨early, -, hqueued⟩
    · exact nomatch ha.symm.trans hnone
    · have hearly := hok htimeout (i + 1) (of_decide_eq_true hqueued) a ha
      exact nomatch htrue.symm.trans hearly
  · have hzero := hend.resolve_right htimeout
    exact .inl fun i hi => (hcases hi).resolve_left fun ⟨hne, _⟩ =>
      hinv.request_ne hopen hi hne hzero

theorem SelectInv.iterate (hinv : SelectInv s) (hbody : s.stage = .body)
    (hok : EndsByTimeout s → NoEarlyFailure s) {pick : ℕ} (hstep : s.iterate pick = some s') :
    SelectInv s' := by
  have hopen : SelectOpen s := .inl hbody
  have hsame : s = { s with wakeups := 0 } := by rw [← hinv.body hbody]
  unfold RequestSelect.iterate at hstep
  cases hlast : s.error.getLast? with
  | some i =>
    rw [hlast] at hstep
    rw [← some.inj hstep]
    exact hinv.yieldError hbody (dropLast_append_getLast? i hlast).symm
  | none =>
    have herror := getLast?_eq_none_iff.mp hlast
    rw [hlast] at hstep
    simp only at hstep
    split at hstep
    · next hnil =>
      have hresp := (collected_eq_nil hinv).mp hnil
      split at hstep
      · next hend =>
        rw [← some.inj hstep]
        have hfinished := hinv.finish hopen herror hresp hend
          fun htimeout => hok ⟨hopen, htimeout, herror, hnil⟩
        exact hsame ▸ hinv.close hopen (.inl rfl) (fun k => hresp k ▸ nofun) fun _ => hfinished
      · next hend =>
        rw [not_or] at hend
        rw [← some.inj hstep]
        have hopen' : SelectOpen { s with stage := .waiting } := .inr rfl
        have hnot : s.timeout = false := Bool.eq_false_iff.mpr hend.2
        refine ⟨hinv.sendable, hinv.alive, nofun, fun i r hr hout => ⟨fun _ =>
          (hinv.session i r hr hout).1 hopen, fun h => absurd hopen' h⟩, hinv.entry, hinv.stray,
          hinv.given, hinv.once, hinv.gone, hinv.invalid, hinv.errors, fun _ => hinv.count hopen,
          ⟨hinv.timer.absent, fun htimer hfired _ => hinv.timer.pending htimer hfired hopen,
            fun _ _ h => absurd hopen' h, hinv.timer.fired, fun _ => hinv.timer.timeout hopen⟩,
          fun _ => ⟨herror, hend.1, .inl ⟨hinv.body hbody, hnot, hresp⟩⟩, nofun, nofun⟩
    · obtain ⟨hpick, hstep⟩ := ite_none_right_eq_some.mp hstep
      rw [← some.inj hstep]
      exact hsame ▸ hinv.yieldSession hopen ((mem_collected hinv).mp hpick)

theorem SelectInv.resumed (hinv : SelectInv s) (hwaiting : s.stage = .waiting)
    (hok : EndsByTimeout s → NoEarlyFailure s) {n pick : ℕ} (hwakeups : s.wakeups = n + 1)
    (hstep : { s with wakeups := n }.resumed pick = some s') : SelectInv s' := by
  have hopen : SelectOpen s := .inr hwaiting
  obtain ⟨herror, -, hcases⟩ := hinv.waiting hwaiting
  have hone : s.wakeups = 1 := by
    rcases hcases with ⟨hzero, -⟩ | ⟨hone, -⟩ | ⟨hone, -⟩
    · exact nomatch hzero.symm.trans hwakeups
    · exact hone
    · exact hone
  obtain rfl : n = 0 := Nat.succ.inj (hwakeups.symm.trans hone)
  have hstep : (if s.timeout = true then some ({ s with wakeups := 0 }.close .finished)
      else if s.collected = [] then some ({ s with wakeups := 0 }.close .raised)
      else if pick ∈ s.collected then some ({ s with wakeups := 0 }.yieldSession pick)
      else none) = some s' := hstep
  split at hstep
  · next htimeout =>
    have hresp : ∀ k, s.resp k = none := by
      rcases hcases with ⟨-, -, hresp⟩ | ⟨-, -, hresp⟩ | ⟨-, hfalse, -⟩
      · exact hresp
      · exact hresp
      · exact nomatch htimeout.symm.trans hfalse
    have hfinished := hinv.finish hopen herror hresp (.inr htimeout) fun _ =>
      hok ⟨hopen, htimeout, herror, (collected_eq_nil hinv).mpr hresp⟩
    rw [← some.inj hstep]
    exact hinv.close hopen (.inl rfl) (fun k => hresp k ▸ nofun) fun _ => hfinished
  · next htimeout =>
    have hne : s.collected ≠ [] := by
      rcases hcases with ⟨hzero, -⟩ | ⟨-, htrue, -⟩ | ⟨-, -, k, hk⟩
      · exact nomatch hzero.symm.trans hone
      · exact absurd htrue htimeout
      · exact ne_nil_of_mem ((mem_collected hinv).mpr hk)
    rw [if_neg hne] at hstep
    obtain ⟨hpick, hstep⟩ := ite_none_right_eq_some.mp hstep
    rw [← some.inj hstep]
    exact hinv.yieldSession hopen ((mem_collected hinv).mp hpick)

/-! ## The start -/

def RequestsSendable (requests : List SelectRequest) : Prop :=
  ∀ r ∈ requests, r.outcome = .session ∨ r.outcome = .invalid

/-- The first `n` requests are handled. -/
structure SendingRight (s : RequestSelect) (n : ℕ) : Prop where
  fresh : (∀ k, s.resp k = none) ∧ s.errorQueue = [] ∧ s.wakeups = 0 ∧ s.threadDead = false
    ∧ s.stage = .body ∧ s.fired = false ∧ (∀ k, s.answers k = none) ∧ s.yielded = []
    ∧ s.timeoutSession = none ∧ s.timeout = false
  session : ∀ i r, i < n → s.requests[i]? = some r → r.outcome = .session →
    s.sessions (i + 1) = some i ∧ s.sessionIdCoroutine (i + 1) = some .thread
      ∧ s.watchingSession (i + 1) = some r.address
  entry : ∀ k i, s.sessions k = some i → k = i + 1 ∧ RequestSent s i ∧ i < n
  stray : ∀ k, (∀ i, RequestSent s i → i < n → k ≠ i + 1) →
    s.watchingSession k = none ∧ s.sessionIdCoroutine k = none
  errors : ∀ i, i ∈ s.error ↔ RequestInvalid s i ∧ i < n
  once : s.error.Nodup
  count : s.request = (openRequests s).card

theorem SendingRight.init : SendingRight (init requests timer) 0 where
  fresh := ⟨fun _ => rfl, rfl, rfl, rfl, rfl, rfl, fun _ => rfl, rfl, rfl, rfl⟩
  session := nofun
  entry := nofun
  stray := fun _ _ => ⟨rfl, rfl⟩
  errors := fun i => by simp [RequestSelect.init]
  once := nodup_nil
  count := by simp [openRequests, RequestSelect.init]

theorem SendingRight.sent {n : ℕ} (h : SendingRight s n) (hr : s.requests[n]? = some r)
    (hout : r.outcome = .session) : SendingRight (s.sent r n (n + 1)) (n + 1) := by
  have hsent : RequestSent s n := ⟨r, hr, hout⟩
  have hfree : s.sessions (n + 1) = none := by
    by_contra hne
    obtain ⟨i, hi⟩ := ne_none_iff_exists'.mp hne
    obtain ⟨heq, -, hlt⟩ := h.entry _ i hi
    omega
  refine ⟨h.fresh, fun i r' hi hr' hout' => ?_, fun k i hk => ?_, fun k hk => ?_, fun i => ?_,
    h.once, ?_⟩
  · by_cases heq : i = n
    · subst heq
      obtain rfl := some.inj (hr.symm.trans hr')
      exact ⟨update_self .., update_self .., update_self ..⟩
    · have hne : i + 1 ≠ n + 1 := fun h => heq (Nat.succ.inj h)
      obtain ⟨hentry, hco, hwatch⟩ := h.session i r' (by omega) hr' hout'
      exact ⟨(update_of_ne hne ..).trans hentry, (update_of_ne hne ..).trans hco,
        (update_of_ne hne ..).trans hwatch⟩
  · have hk : Function.update s.sessions (n + 1) (some n) k = some i := hk
    by_cases heq : k = n + 1
    · rw [heq, update_self, some.injEq] at hk
      subst hk
      exact ⟨heq, hsent, Nat.lt_succ_self _⟩
    · rw [update_of_ne heq] at hk
      obtain ⟨hkey, hi, hlt⟩ := h.entry k i hk
      exact ⟨hkey, hi, Nat.lt_succ_of_lt hlt⟩
  · have hne : k ≠ n + 1 := hk n hsent (Nat.lt_succ_self _)
    obtain ⟨hwatch, hco⟩ := h.stray k fun i hi hlt => hk i hi (Nat.lt_succ_of_lt hlt)
    exact ⟨(update_of_ne hne ..).trans hwatch, (update_of_ne hne ..).trans hco⟩
  · refine (h.errors i).trans (and_congr_right fun hi => ?_)
    have hne : i ≠ n := fun heq => not_sent_of_invalid hi (heq ▸ hsent)
    omega
  · have hset : openRequests (s.sent r n (n + 1)) = insert n (openRequests s) := by
      ext j
      rw [mem_insert, openRequests, openRequests, Finset.mem_filter, Finset.mem_filter]
      change _ ∧ Function.update s.sessions (n + 1) (some n) (j + 1) ≠ none ↔ _
      by_cases hj : j = n
      · subst hj
        simpa [RequestSelect.sent] using sent_lt hsent
      · have hne : j + 1 ≠ n + 1 := fun h => hj (Nat.succ.inj h)
        rw [update_of_ne hne]
        exact (or_iff_right hj).symm
    have hn : n ∉ openRequests s := fun hmem => (Finset.mem_filter.mp hmem).2 hfree
    rw [hset, card_insert_of_notMem hn, ← h.count]
    rfl

theorem SendingRight.invalid {n : ℕ} (h : SendingRight s n) (hr : s.requests[n]? = some r)
    (hout : r.outcome = .invalid) : SendingRight { s with error := s.error ++ [n] } (n + 1) := by
  have hinvalid : RequestInvalid s n := ⟨r, hr, hout⟩
  refine ⟨h.fresh, fun i r' hi hr' hout' => ?_, fun k i hk => ?_, fun k hk => ?_, fun i => ?_, ?_,
    h.count⟩
  · refine h.session i r' (Nat.lt_of_le_of_ne (Nat.le_of_lt_succ hi) ?_) hr' hout'
    rintro rfl
    exact not_sent_of_invalid hinvalid ⟨r', hr', hout'⟩
  · obtain ⟨hkey, hi, hlt⟩ := h.entry k i hk
    exact ⟨hkey, hi, Nat.lt_succ_of_lt hlt⟩
  · exact h.stray k fun i hi hlt => hk i hi (Nat.lt_succ_of_lt hlt)
  · rw [mem_append, List.mem_singleton, h.errors i, Nat.lt_succ_iff_lt_or_eq, and_or_left]
    refine or_congr_right ⟨?_, And.right⟩
    rintro rfl
    exact ⟨hinvalid, rfl⟩
  · rw [nodup_append]
    refine ⟨h.once, nodup_singleton n, fun a ha b hb => ?_⟩
    rw [List.mem_singleton.mp hb]
    rintro rfl
    exact Nat.lt_irrefl _ ((h.errors a).mp ha).2

theorem sendRequests_right (rest : List SelectRequest) {n : ℕ} (h : SendingRight s n)
    (hrest : s.requests.drop n = rest) (hsend : RequestsSendable rest) :
    SendingRight (s.sendRequests n rest) s.requests.length
      ∧ (s.sendRequests n rest).requests = s.requests
      ∧ (s.sendRequests n rest).timer = s.timer := by
  induction rest generalizing s n with
  | nil =>
    have hlen : s.requests.length ≤ n := drop_eq_nil_iff.mp hrest
    have hlt {i : ℕ} (hi : i < s.requests.length) : i < n := Nat.lt_of_lt_of_le hi hlen
    have hinvalid {i : ℕ} (hi : RequestInvalid s i) : i < s.requests.length := by
      obtain ⟨r, hr, -⟩ := hi
      exact (List.getElem?_eq_some_iff.mp hr).1
    refine ⟨⟨h.fresh, fun i r hi => h.session i r (hlt hi), fun k i hk => ?_, fun k hk => ?_,
      fun i => ?_, h.once, h.count⟩, rfl, rfl⟩
    · obtain ⟨hkey, hi, -⟩ := h.entry k i hk
      exact ⟨hkey, hi, sent_lt hi⟩
    · exact h.stray k fun i hi _ => hk i hi (sent_lt hi)
    · refine (h.errors i).trans (and_congr_right fun hi => ?_)
      exact iff_of_true (hlt (hinvalid hi)) (hinvalid hi)
  | cons r rest ih =>
    have hr : s.requests[n]? = some r := by
      rw [← head?_drop, hrest]
      rfl
    have hnext : s.requests.drop (n + 1) = rest := by
      rw [← tail_drop, hrest]
      rfl
    have hsend' : RequestsSendable rest := fun r hr => hsend r (List.mem_cons_of_mem _ hr)
    rcases hsend r List.mem_cons_self with hout | hout
    · have hstep : s.sendRequests n (r :: rest)
          = (s.sent r n (n + 1)).sendRequests (n + 1) rest := by
        simp only [sendRequests, hout]
      rw [hstep]
      exact ih (h.sent hr hout) hnext hsend'
    · have hstep : s.sendRequests n (r :: rest)
          = { s with error := s.error ++ [n] }.sendRequests (n + 1) rest := by
        simp only [sendRequests, hout]
      rw [hstep]
      exact ih (h.invalid hr hout) hnext hsend'

theorem SendingRight.select (h : SendingRight s s.requests.length)
    (hsend : RequestsSendable s.requests) {t : RequestSelect}
    (ht : t = if s.timer then
      { s with
        timeoutSession := some (s.requests.length + 1)
        sessionIdCoroutine :=
          Function.update s.sessionIdCoroutine (s.requests.length + 1) (some .thread) }
      else s) : SelectInv t := by
  obtain ⟨hresp, hqueue, hwakeups, halive, hstage, hfired, hanswers, hyielded, hsession,
    htimeout⟩ := h.fresh
  have hopen : SelectOpen s := .inl hstage
  have hnotBody {stage : SelectStage} (hne : stage ≠ .body) : s.stage ≠ stage := hstage ▸ hne.symm
  have hkey {i : ℕ} (hi : RequestSent s i) : i + 1 ≠ s.requests.length + 1 := by
    have := sent_lt hi
    omega
  have hco : s.sessionIdCoroutine (s.requests.length + 1) = none :=
    (h.stray _ fun i hi _ heq => hkey hi heq.symm).2
  have hnone {i : ℕ} : ¬ RequestYielded s i := by
    rintro ⟨v, hv⟩
    rw [hyielded] at hv
    cases hv
  have hsessionRight (i : ℕ) (r : SelectRequest) (hr : s.requests[i]? = some r)
      (hout : r.outcome = .session) : SessionOutstanding i r (sessionView s (i + 1)) := by
    obtain ⟨hentry, hco, hwatch⟩ := h.session i r (List.getElem?_eq_some_iff.mp hr).1 hr hout
    refine ⟨hentry, hco, hwatch, hresp _, .inl ⟨hanswers _, decide_eq_false ?_⟩⟩
    rw [hqueue]
    exact not_mem_nil
  have hstray (k : ℕ) (hk : ∀ i, RequestSent s i → k ≠ i + 1) :
      s.resp k = none ∧ s.watchingSession k = none ∧ k ∉ s.errorQueue :=
    ⟨hresp k, (h.stray k fun i hi _ => hk i hi).1, hqueue ▸ not_mem_nil⟩
  have hgiven (i : ℕ) (v : Option ℕ) (hv : (i, v) ∈ s.yielded) : RequestInvalid s i ∧ v = none
      ∨ RequestSent s i ∧ ∃ a, s.answers (i + 1) = some a ∧ a.value = v :=
    absurd ⟨v, hv⟩ hnone
  have honce : (s.yielded.map Prod.fst ++ s.error).Nodup := by
    rw [hyielded]
    exact h.once
  have hinvalid (i : ℕ) (hi : RequestInvalid s i) : i ∈ s.error ∨ RequestYielded s i := by
    obtain ⟨r, hr, -⟩ := id hi
    exact .inl ((h.errors i).mpr ⟨hi, (List.getElem?_eq_some_iff.mp hr).1⟩)
  have herrors (i : ℕ) (hi : i ∈ s.error) : RequestInvalid s i := ((h.errors i).mp hi).1
  have hentry (k i : ℕ) (hk : s.sessions k = some i) : k = i + 1 ∧ RequestSent s i := by
    obtain ⟨hkey, hi, -⟩ := h.entry k i hk
    exact ⟨hkey, hi⟩
  cases htimer : s.timer with
  | false =>
    rw [htimer] at ht
    obtain rfl : t = s := ht
    refine ⟨hsend, halive, hnotBody nofun, fun i r hr hout => ⟨fun _ =>
      .inl (hsessionRight i r hr hout), absurd hopen⟩, hentry, hstray, hgiven, honce,
      fun i hi => absurd hi hnone, hinvalid, herrors, fun _ => h.count, ⟨fun _ =>
        ⟨hfired, hsession, hco⟩, fun htrue => ?_, fun htrue => ?_, fun htrue => ?_, fun _ => ?_⟩,
      fun h => absurd h (hnotBody nofun), fun _ => hwakeups, fun h => absurd h (hnotBody nofun)⟩
    · exact nomatch htimer.symm.trans htrue
    · exact nomatch htimer.symm.trans htrue
    · exact nomatch hfired.symm.trans htrue
    · rw [htimeout, hfired]
  | true =>
    rw [htimer, if_pos rfl] at ht
    subst ht
    refine ⟨hsend, halive, hnotBody nofun, fun i r hr hout => ⟨fun _ => .inl ?_, absurd hopen⟩,
      hentry, hstray, hgiven, honce, fun i hi => absurd hi hnone, hinvalid, herrors,
      fun _ => h.count, ⟨fun hfalse => ?_, fun _ _ _ => ⟨rfl, update_self ..⟩,
        fun _ _ hnot => absurd hopen hnot, fun htrue => ?_, fun _ => ?_⟩,
      fun h => absurd h (hnotBody nofun), fun _ => hwakeups, fun h => absurd h (hnotBody nofun)⟩
    · obtain ⟨hentry, hco, hrest⟩ := hsessionRight i r hr hout
      exact ⟨hentry, (update_of_ne (hkey ⟨r, hr, hout⟩) ..).trans hco, hrest⟩
    · cases hfalse
    · exact nomatch hfired.symm.trans htrue
    · rw [htimeout, hfired]

theorem SelectInv.start (hsend : RequestsSendable requests) :
    SelectInv (select requests timer) := by
  have hinit : SendingRight (RequestSelect.init requests timer) 0 := .init
  obtain ⟨h, hrequests, htimer⟩ := sendRequests_right requests hinit rfl hsend
  have hrequests : ((RequestSelect.init requests timer).sendRequests 0 requests).requests
      = requests := hrequests
  have htimer : ((RequestSelect.init requests timer).sendRequests 0 requests).timer = timer :=
    htimer
  have hlen : (RequestSelect.init requests timer).requests.length
      = ((RequestSelect.init requests timer).sendRequests 0 requests).requests.length := by
    rw [hrequests]
    rfl
  rw [hlen] at h
  refine h.select (hrequests.symm ▸ hsend) ?_
  rw [RequestSelect.select, hrequests, htimer]
  simp only [h.fresh.2.2.2.2.1, true_and]

/-- The loop is not left while a request that has failed is collected; no failure comes for a
session that `close` has marked; no service dies that a request without an answer names by a
string; no failure before the timer is in `error_queue` where the timer ends the loop; every
response can be unpacked. -/
def SelectMeets (s : RequestSelect) : SelectAction → Prop
  | .next _ | .wake _ => EndsByTimeout s → NoEarlyFailure s
  | .leave | .kill => ∀ k ∈ s.collected, s.resp k ≠ some none
  | .response _ _ | .timer | .failed => True
  | .malformed _ => False
  | .error k => s.answers k = none → s.sessionIdCoroutine k ≠ some .break
  | .death h _ => ∀ k ∈ List.range (s.requests.length + 1), s.service k = some h →
    s.answers k = none → s.sessionIdCoroutine k ≠ some .break
      ∧ s.watchingSession k ≠ some (.name h)

/-- Every message and step of the loop keeps it. -/
theorem SelectInv.step {a : SelectAction} (hinv : SelectInv s) (hok : SelectMeets s a)
    (hstep : next s a = some s') : SelectInv s' := by
  have hresp (hok : ∀ k ∈ s.collected, s.resp k ≠ some none) (k : ℕ) : s.resp k ≠ some none :=
    fun hk => hok k ((mem_collected hinv).mpr (hk ▸ nofun)) hk
  cases a with
  | next pick =>
    obtain ⟨hbody, hstep⟩ := ite_none_right_eq_some.mp hstep
    exact hinv.iterate hbody hok hstep
  | wake pick =>
    cases hwakeups : s.wakeups with
    | zero => simp [RequestSelect.next, hwakeups] at hstep
    | succ n =>
      simp only [RequestSelect.next, hwakeups] at hstep
      split at hstep
      · next hwaiting => exact hinv.resumed hwaiting hok hwakeups hstep
      · next hnot =>
        have hbody : s.stage ≠ .body := fun h => nomatch (hinv.body h).symm.trans hwakeups
        rw [← some.inj hstep]
        exact ⟨hinv.sendable, hinv.alive, hinv.noRaise, hinv.session, hinv.entry, hinv.stray,
          hinv.given, hinv.once, hinv.gone, hinv.invalid, hinv.errors, hinv.count,
          hinv.timer.other rfl rfl rfl rfl rfl rfl rfl, fun h => absurd h hnot,
          fun h => absurd h hbody, hinv.finished⟩
  | leave =>
    obtain ⟨hbody, hstep⟩ := ite_none_right_eq_some.mp hstep
    rw [← some.inj hstep]
    exact hinv.close (.inl hbody) (.inr (.inl rfl)) (hresp hok) nofun
  | kill =>
    obtain ⟨hopen, hstep⟩ := ite_none_right_eq_some.mp hstep
    rw [← some.inj hstep]
    exact hinv.close hopen (.inr (.inr rfl)) (hresp hok) nofun
  | response k v =>
    obtain ⟨⟨hwakeups, hservice, hanswer⟩, hstep⟩ := ite_none_right_eq_some.mp hstep
    exact some.inj hstep ▸ hinv.response hwakeups hservice hanswer
  | malformed k => exact hok.elim
  | error k => exact hinv.error hok hstep
  | death h order =>
    refine hinv.death (fun k hk => ?_) hstep
    obtain ⟨i, r, rfl, hr, -, -⟩ := service_sent (hk ▸ nofun : s.service k ≠ none)
    have hlt := (List.getElem?_eq_some_iff.mp hr).1
    exact hok (i + 1) (List.mem_range.mpr (by omega)) hk
  | timer => exact hinv.timerFires hstep
  | failed =>
    cases hqueue : s.errorQueue with
    | nil => simp [RequestSelect.next, hqueue] at hstep
    | cons k rest =>
      have hwakeups : s.wakeups = 0 := by
        by_contra hne
        simp [RequestSelect.next, hqueue, hne] at hstep
      exact hinv.failed hqueue hwakeups hstep

theorem selectInv_run (hsend : RequestsSendable requests)
    (h : (machine requests timer).Reach SelectMeets s) : SelectInv s := by
  refine h.invariant ?_ fun _ _ _ hinv hok hstep => hinv.step hok hstep
  rintro s rfl
  exact .start hsend

/-! ## What a select does -/

/-- The requests that the loop has yielded and, when it is over, the two session tables. -/
structure SelectRight (s : RequestSelect) : Prop where
  noRaise : s.stage ≠ .raised
  once : (s.yielded.map Prod.fst).Nodup
  own : ∀ i value, (i, value) ∈ s.yielded → RequestInvalid s i ∧ value = none
    ∨ RequestSent s i ∧ ∃ a, s.answers (i + 1) = some a ∧ a.value = value
  all : s.stage = .finished → s.timer = false → ∀ i < s.requests.length, RequestYielded s i
  early : s.stage = .finished → ∀ i, RequestInvalid s i ∨ RequestSent s i
    ∧ (∃ a, s.answers (i + 1) = some a ∧ a.early = true) → RequestYielded s i
  goesOn : s.stage = .waiting → s.wakeups = 0 → s.errorQueue = [] →
    s.fired = false ∧ ∃ i, RequestSent s i ∧ s.answers (i + 1) = none
  clean : ¬ SelectOpen s → ∀ i, RequestSent s i → s.answers (i + 1) ≠ none → i + 1 ∉ s.errorQueue →
    s.sessionIdCoroutine (i + 1) = none ∧ s.watchingSession (i + 1) = none
  cleanTimer : ¬ SelectOpen s → s.timer = false ∨ s.fired = true →
    s.sessionIdCoroutine (timerSession s) = none

theorem SelectInv.goesOn (hinv : SelectInv s) (hwaiting : s.stage = .waiting)
    (hwakeups : s.wakeups = 0) (hqueue : s.errorQueue = []) :
    s.fired = false ∧ ∃ i, RequestSent s i ∧ s.answers (i + 1) = none := by
  have hopen : SelectOpen s := .inr hwaiting
  obtain ⟨-, hrequest, hcases⟩ := hinv.waiting hwaiting
  have hidle : s.timeout = false ∧ ∀ k, s.resp k = none := by
    rcases hcases with ⟨-, hidle⟩ | ⟨hone, -⟩ | ⟨hone, -⟩
    · exact hidle
    · exact nomatch hwakeups.symm.trans hone
    · exact nomatch hwakeups.symm.trans hone
  refine ⟨Bool.eq_false_iff.mpr fun hfired => ?_, ?_⟩
  · exact nomatch hidle.1.symm.trans ((hinv.timer.timeout hopen).mpr hfired)
  · rw [hinv.count hopen, card_ne_zero] at hrequest
    obtain ⟨i, hi⟩ := hrequest
    obtain ⟨j, hj⟩ := ne_none_iff_exists'.mp (Finset.mem_filter.mp hi).2
    obtain ⟨heq, hsent⟩ := hinv.entry _ j hj
    obtain rfl := Nat.succ.inj heq
    obtain ⟨r, hr, hout⟩ := id hsent
    refine ⟨i, hsent, ?_⟩
    rcases (hinv.session i r hr hout).1 hopen with ⟨-, -, -, -, hunheard⟩
      | ⟨-, -, -, a, hsome, -⟩ | ⟨hnone, -⟩
    · rcases hunheard with ⟨hnone, -⟩ | ⟨early, -, hqueued⟩
      · exact hnone
      · have hmem : i + 1 ∈ s.errorQueue := of_decide_eq_true hqueued
        rw [hqueue] at hmem
        cases hmem
    · exact nomatch (hidle.2 _).symm.trans hsome
    · exact nomatch hj.symm.trans hnone

theorem SelectInv.right (hinv : SelectInv s) : SelectRight s where
  noRaise := hinv.noRaise
  once := (nodup_append.mp hinv.once).1
  own := hinv.given
  all := fun hstage htimer i hi => by
    obtain ⟨herror, hall | ⟨hfired, -⟩⟩ := hinv.finished hstage
    · have hr := getElem?_eq_getElem hi
      rcases hinv.sendable _ (getElem_mem hi) with hout | hout
      · exact hall i ⟨_, hr, hout⟩
      · exact (hinv.invalid i ⟨_, hr, hout⟩).resolve_left (herror ▸ not_mem_nil)
    · exact nomatch (hinv.timer.absent htimer).1.symm.trans hfired
  early := fun hstage i hi => by
    obtain ⟨herror, hcases⟩ := hinv.finished hstage
    rcases hi with hi | ⟨hi, a, ha, htrue⟩
    · exact (hinv.invalid i hi).resolve_left (herror ▸ not_mem_nil)
    · rcases hcases with hall | ⟨-, hall⟩
      · exact hall i hi
      · exact hall i a hi ha htrue
  goesOn := hinv.goesOn
  clean := fun hclosed i hi hanswer hqueue => by
    obtain ⟨r, hr, hout⟩ := hi
    rcases (hinv.session i r hr hout).2 hclosed with ⟨-, -, hunheard⟩ | ⟨hco, hwatch, -⟩
    · rcases hunheard with ⟨hnone, -⟩ | ⟨early, -, hqueued⟩
      · exact absurd hnone hanswer
      · exact absurd (of_decide_eq_true hqueued) hqueue
    · exact ⟨hco, hwatch⟩
  cleanTimer := fun _ hor => by
    rcases hor with htimer | hfired
    · exact (hinv.timer.absent htimer).2.2
    · exact (hinv.timer.fired hfired).2

instance : Decidable (SelectOpen s) := inferInstanceAs (Decidable (_ ∨ _))

instance : Decidable (EndsByTimeout s) := inferInstanceAs (Decidable (_ ∧ _ ∧ _ ∧ _))

instance : Decidable (NoEarlyFailure s) :=
  inferInstanceAs (Decidable (∀ k ∈ s.errorQueue, ∀ a ∈ s.answers k, a.early = false))

instance : ∀ (s : RequestSelect) a, Decidable (SelectMeets s a)
  | s, .next _ | s, .wake _ => inferInstanceAs (Decidable (EndsByTimeout s → NoEarlyFailure s))
  | s, .leave | s, .kill => inferInstanceAs (Decidable (∀ k ∈ s.collected, s.resp k ≠ some none))
  | _, .response _ _ | _, .timer | _, .failed => isTrue trivial
  | _, .malformed _ => isFalse id
  | s, .error k =>
    inferInstanceAs (Decidable (s.answers k = none → s.sessionIdCoroutine k ≠ some .break))
  | s, .death h _ =>
    inferInstanceAs (Decidable (∀ k ∈ List.range (s.requests.length + 1), s.service k = some h →
      s.answers k = none → s.sessionIdCoroutine k ≠ some .break
        ∧ s.watchingSession k ≠ some (.name h)))

end Skynet.Analysis
