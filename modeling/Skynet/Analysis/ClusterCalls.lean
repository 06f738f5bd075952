import Skynet.Model.ClusterClient

/-!
# Requests that wait for a cluster node

What is done is what was asked first, and what is left of it is in the queue: its tasks from the
one on that `request_sender` has reached, or, when a coroutine has made its call already and has
not handed back control, from the next one on.
-/

namespace Skynet.Analysis

open Library Model ClusterClient List Function Finset Option

variable {s s' : ClusterClient} {q rs co : ℕ} {rest : List ClusterTask}

/-! ## What is promised -/

def outcomeOf : ClusterKind → Option ℕ → ClusterOutcome
  | _, some c => .passed c
  | .send, none => .dropped
  | _, none => .raised

def HandledAs (s : ClusterClient) (x : HandledCall) : Prop :=
  0 < x.answers ∧ ∃ a, s.answers[x.answers - 1]? = some a ∧ x.outcome = outcomeOf x.call.kind a

def lastAnswer (s : ClusterClient) : Option ℕ := s.answers.getLast?.join

/-- **What is promised**: requests are done in the order in which they were made, with the outcome
of the answer; `clusterd` is asked again only after failures; and when the service is at rest and
`clusterd` has answered, every request is done, and the next one is passed on at once or asks
again. -/
structure CallsOrdered (s : ClusterClient) : Prop where
  order : s.handled.map (·.call) <+: s.made
  outcomes : ∀ x ∈ s.handled, HandledAs s x
  answers : ∀ a ∈ s.answers.dropLast, a = none
  complete : s.control = .idle → (∀ co q, s.point co ≠ .asking q) →
    s.handled.map (·.call) = s.made ∧ s.taskQueue = none ∧ s.sender = lastAnswer s

/-! ## The queue -/

def taskCall (s : ClusterClient) : ClusterTask → ClusterCall
  | .packed call => call
  | .thread co =>
    match s.point co with
    | .queued _ call => call
    | _ => ⟨.send, []⟩

/-- The requests that are not done are those of the tasks that are left, in the queue `q` that the
coroutine `rs` works off. -/
structure TasksLeft (s : ClusterClient) (q rs : ℕ) (rest : List ClusterTask) : Prop where
  made : s.made = s.handled.map (·.call) ++ rest.map (taskCall s)
  kinds : ∀ call, .packed call ∈ rest → call.kind = .send
  threads : ∀ co, .thread co ∈ rest ↔ ∃ p call, s.point co = .queued p call
  once : ∀ co, rest.count (.thread co) ≤ 1
  queued : ∀ co p call, s.point co = .queued p call →
    p = q ∧ co ∈ s.sleepSession ∧ call.kind ≠ .send
  others : ∀ co, co ≠ rs → s.point co = .free ∨ ∃ p call, s.point co = .queued p call
  worker : ∀ p call, s.point rs ≠ .queued p call
  answers : ∀ a ∈ s.answers.dropLast, a = none
  handled : ∀ x ∈ s.handled, HandledAs s x

structure QueueAnswered (s : ClusterClient) (q rs : ℕ) : Prop where
  taskQueue : s.taskQueue = some q
  sender : s.sender = none
  confirm : (s.queues q).confirm = some rs
  queueSender : (s.queues q).sender = lastAnswer s
  answers : s.answers ≠ []

inductive QueueStage
  | none
  | forked
  | asking
  /-- A coroutine of a task has been woken. -/
  | waking (task : ℕ)
  /-- It has made its call, and `request_sender` has been woken. -/
  | confirming

/-- What holds at a stage. -/
def StageOk (s : ClusterClient) (q rs : ℕ) (rest : List ClusterTask) : QueueStage → Prop
  | .none => s.taskQueue = none ∧ rest = [] ∧ s.wakeupQueue = [] ∧ s.point rs = .free ∧
      s.sender = lastAnswer s
  | .forked => s.taskQueue = some q ∧ s.sender = none ∧ lastAnswer s = none ∧
      s.wakeupQueue = [] ∧ s.point rs = .forked q ∧ rs ∈ s.forkQueue ∧ (s.queues q).tasks = rest
  | .asking => s.taskQueue = some q ∧ s.sender = none ∧ lastAnswer s = none ∧
      s.wakeupQueue = [] ∧ s.point rs = .asking q ∧ (s.queues q).tasks = rest
  | .waking task => QueueAnswered s q rs ∧ s.wakeupQueue = [task] ∧ rs ∈ s.sleepSession ∧
      rest.head? = some (.thread task) ∧
        ∃ i, s.point rs = .confirming q i ∧ (s.queues q).tasks.drop i = rest
  | .confirming => QueueAnswered s q rs ∧ s.wakeupQueue = [rs] ∧ rs ∈ s.sleepSession ∧
      ∃ i < (s.queues q).tasks.length,
        s.point rs = .confirming q i ∧ (s.queues q).tasks.drop (i + 1) = rest

structure ControlOk (s : ClusterClient) : Prop where
  running : ∀ co, s.control = .running co → s.point co = .free
  wakeups : s.wakeupQueue ≠ [] → s.control ≠ .idle ∧ (s.control = .forks → s.forkQueue ≠ [])
  forks : s.forkQueue ≠ [] → s.control ≠ .idle

structure ClientAgrees (s : ClusterClient) (stage : QueueStage) (q rs : ℕ)
    (rest : List ClusterTask) : Prop where
  tasks : TasksLeft s q rs rest
  stage : StageOk s q rs rest stage
  control : ControlOk s

theorem clientAgrees_init : ClientAgrees init .none 0 0 [] := by
  refine ⟨?_, ⟨rfl, rfl, rfl, rfl, rfl⟩, ?_⟩
  · constructor <;> simp [init]
  · constructor <;> simp [init]

variable {stage : QueueStage}

theorem ClientAgrees.ordered (h : ClientAgrees s stage q rs rest) : CallsOrdered s := by
  refine ⟨?_, h.tasks.handled, h.tasks.answers, fun hidle hasking => ?_⟩
  · rw [h.tasks.made]
    exact prefix_append _ _
  · have hwakeups : s.wakeupQueue = [] := by
      by_contra hne
      exact (h.control.wakeups hne).1 hidle
    have hstage := h.stage
    have hmade := h.tasks.made
    cases stage with
    | none =>
      obtain ⟨hqueue, rfl, -, -, hsender⟩ := hstage
      rw [map_nil, append_nil] at hmade
      exact ⟨hmade.symm, hqueue, hsender⟩
    | forked =>
      obtain ⟨-, -, -, -, -, hfork, -⟩ := hstage
      exact absurd hidle (h.control.forks (ne_nil_of_mem hfork))
    | asking =>
      obtain ⟨-, -, -, -, hpoint, -⟩ := hstage
      exact absurd hpoint (hasking rs q)
    | waking task =>
      rw [hstage.2.1] at hwakeups
      nomatch hwakeups
    | confirming =>
      rw [hstage.2.1] at hwakeups
      nomatch hwakeups

theorem HandledAs.append {x : HandledCall} (h : HandledAs s x)
    (hanswers : ∃ l, s'.answers = s.answers ++ l) : HandledAs s' x := by
  obtain ⟨hpos, a, ha, hout⟩ := h
  obtain ⟨l, hl⟩ := hanswers
  refine ⟨hpos, a, ?_, hout⟩
  rw [hl, getElem?_append_left (List.getElem?_eq_some_iff.mp ha).1]
  exact ha

variable {call : ClusterCall}

theorem handledAs_last (hne : s.answers ≠ []) :
    HandledAs s ⟨call, outcomeOf call.kind (lastAnswer s), s.answers.length⟩ := by
  refine ⟨length_pos_of_ne_nil hne, s.answers.getLast hne, ?_, ?_⟩
  · rw [← getLast?_eq_getElem?, getLast?_eq_some_getLast hne]
  · rw [lastAnswer, getLast?_eq_some_getLast hne]
    rfl

variable {task : ClusterTask}

theorem TasksLeft.handle (h : TasksLeft s q rs (task :: rest))
    (hne : s.answers ≠ []) (hpacked : ∃ call, task = .packed call) :
    TasksLeft (s.handle (taskCall s task) (outcomeOf (taskCall s task).kind (lastAnswer s))) q rs
      rest := by
  obtain ⟨call, rfl⟩ := hpacked
  refine { h with
    made := ?_
    kinds := fun c hc => h.kinds c (List.mem_cons_of_mem _ hc)
    threads := fun co => ?_
    once := fun co => ?_
    handled := fun x hx => ?_ }
  · have hmade := h.made
    simp only [ClusterClient.handle, map_append, List.map_cons, map_nil,
      append_assoc, singleton_append]
    exact hmade
  · have hco := h.threads co
    simp only [List.mem_cons, reduceCtorEq, false_or] at hco
    exact hco
  · have hco := h.once co
    exact hco
  · rcases mem_append.mp hx with hx | hx
    · exact h.handled x hx
    · rw [List.mem_singleton.mp hx]
      exact handledAs_last hne

theorem TasksLeft.setPoint {p : ClusterPoint} (h : TasksLeft s q rs rest)
    (hp : ∀ p' call, p ≠ .queued p' call) : TasksLeft (s.setPoint rs p) q rs rest := by
  have hpoint : ∀ co, (s.setPoint rs p).point co = if co = rs then p else s.point co :=
    fun co => update_apply _ _ _ _
  have hqueued : ∀ co p' call, (s.setPoint rs p).point co = .queued p' call ↔
      s.point co = .queued p' call := by
    intro co p' call
    rw [hpoint]
    split
    · next hco =>
      rw [hco]
      exact iff_of_false (hp p' call) (h.worker p' call)
    · exact Iff.rfl
  have hcalls : ∀ task ∈ rest, taskCall (s.setPoint rs p) task = taskCall s task := by
    intro task htask
    cases task with
    | packed call => rfl
    | thread co =>
      obtain ⟨p', call, hco⟩ := (h.threads co).mp htask
      simp only [taskCall, hco, (hqueued co p' call).mpr hco]
  refine { h with
    made := ?_
    threads := fun co => ?_
    queued := fun co p' call hco => h.queued co p' call ((hqueued co p' call).mp hco)
    others := fun co hco => ?_
    worker := fun p' call hrs => h.worker p' call ((hqueued rs p' call).mp hrs) }
  · rw [map_congr_left hcalls]
    exact h.made
  · rw [h.threads co]
    simp only [hqueued]
  · rw [hpoint, if_neg hco]
    exact h.others co hco

theorem flush_agrees {i : ℕ} (h : TasksLeft s q rs rest) (ha : QueueAnswered s q rs)
    (hdrop : (s.queues q).tasks.drop i = rest) (hwakeups : s.wakeupQueue = [])
    (hforks : s.forkQueue ≠ [] → s.control ≠ .idle) :
    ∃ stage rest', ClientAgrees (s.flush rs q (lastAnswer s) rest i) stage q rs rest' := by
  induction rest generalizing s i with
  | nil =>
    refine ⟨.none, [], ?_, ?_, ?_⟩
    · have hset := h.setPoint (p := .free) (by nofun)
      exact { hset with }
    · exact ⟨rfl, rfl, hwakeups, update_self _ _ _, rfl⟩
    · refine ⟨by nofun, fun hne => absurd hwakeups hne, by nofun⟩
  | cons task rest ih =>
    cases task with
    | packed call =>
      have hhandle := h.handle ha.answers ⟨call, rfl⟩
      have hkind := h.kinds call List.mem_cons_self
      have hflush : ∀ a, s.flush rs q a (.packed call :: rest) i =
          (s.handle call (outcomeOf call.kind a)).flush rs q a rest (i + 1) := by
        intro a
        rw [hkind]
        cases a <;> rfl
      rw [hflush]
      refine ih hhandle ⟨ha.taskQueue, ha.sender, ha.confirm, ha.queueSender, ha.answers⟩ ?_
        hwakeups hforks
      change (s.queues q).tasks.drop (i + 1) = rest
      rw [← drop_drop, hdrop]
      rfl
    | thread task =>
      obtain ⟨p, call, htask⟩ := (h.threads task).mp List.mem_cons_self
      obtain ⟨-, hsleep, -⟩ := h.queued task p call htask
      have hset := h.setPoint (p := .confirming q i) (by nofun)
      have hwakeup : s.wakeup task = { s with wakeupQueue := [task] } := by
        rw [wakeup, if_pos hsleep, hwakeups, nil_append]
      refine ⟨.waking task, .thread task :: rest, ?_, ?_, ?_⟩
      · rw [flush, hwakeup]
        refine { hset with queued := fun co p' call' hco => ?_ }
        obtain ⟨hp, hin, hkind⟩ := hset.queued co p' call' hco
        exact ⟨hp, Finset.mem_insert_of_mem hin, hkind⟩
      · rw [flush, hwakeup]
        refine ⟨⟨ha.taskQueue, ha.sender, ha.confirm, ha.queueSender, ha.answers⟩, rfl,
          Finset.mem_insert_self _ _, rfl, i, update_self _ _ _, hdrop⟩
      · exact ⟨nofun, fun _ => ⟨nofun, nofun⟩, fun _ => nofun⟩

theorem ClientAgrees.answer {a : Option ℕ} (h : ClientAgrees s .asking q rs rest) :
    ∃ stage rest', ClientAgrees (s.answer rs q a) stage q rs rest' := by
  obtain ⟨hqueue, hsender, hlast, hwakeups, hpoint, htasks⟩ := h.stage
  set s₁ : ClusterClient := { s with
    answers := s.answers ++ [a]
    queues := update s.queues q
      { s.queues q with confirm := some rs, sender := a } } with hs₁
  have hget : s₁.queues q = { s.queues q with confirm := some rs, sender := a } := update_self _ _ _
  have hlast₁ : lastAnswer s₁ = a := by
    rw [lastAnswer, hs₁, getLast?_concat]
    rfl
  have hnone : ∀ b ∈ s.answers, b = none := by
    intro b hb
    have hne := ne_nil_of_mem hb
    rw [← dropLast_append_getLast hne, mem_append, List.mem_singleton] at hb
    rcases hb with hb | rfl
    · exact h.tasks.answers b hb
    · rw [lastAnswer, getLast?_eq_some_getLast hne] at hlast
      exact hlast
  have htasks₁ : TasksLeft s₁ q rs rest := { h.tasks with
      answers := by
        rw [hs₁, dropLast_concat]
        exact hnone
      handled := fun x hx => (h.tasks.handled x hx).append ⟨[a], rfl⟩ }
  have hanswered : QueueAnswered s₁ q rs := by
    refine ⟨hqueue, hsender, ?_, ?_, ?_⟩
    · rw [hget]
    · rw [hget, hlast₁]
    · simp [hs₁]
  have hflush := flush_agrees (i := 0) htasks₁ hanswered (by rw [hget]; exact htasks) hwakeups
    h.control.forks
  rw [hlast₁] at hflush
  have hrun : s.answer rs q a = s₁.flush rs q a rest 0 := by
    change s₁.flush rs q a (s₁.queues q).tasks 0 = _
    rw [hget]
    simp only [htasks]
  rw [hrun]
  exact hflush

/-! ## Control goes back and forth -/

theorem TasksLeft.thread_once {task : ℕ} (h : TasksLeft s q rs (.thread task :: rest)) :
    .thread task ∉ rest := by
  intro hmem
  have honce := h.once task
  rw [count_cons_self] at honce
  have hpos := count_pos_iff.mpr hmem
  omega

theorem ClientAgrees.called {task : ℕ} (h : ClientAgrees s (.waking task) q rs rest) :
    ∃ rest', ClientAgrees ({ s with wakeupQueue := [] }.resumed task) .confirming q rs rest' := by
  obtain ⟨ha, hwakeups, hsleep, hhead, i, hpoint, hdrop⟩ := h.stage
  obtain ⟨rest, rfl⟩ : ∃ tail, rest = .thread task :: tail := head?_eq_some_iff.mp hhead
  obtain ⟨p, call, htask⟩ := (h.tasks.threads task).mp List.mem_cons_self
  obtain ⟨rfl, htsleep, hkind⟩ := h.tasks.queued task p call htask
  have hne : rs ≠ task := by
    rintro rfl
    exact h.tasks.worker _ _ htask
  have hnot := h.tasks.thread_once
  have hi : i < (s.queues p).tasks.length := by
    by_contra hge
    rw [drop_eq_nil_of_le (Nat.not_lt.mp hge)] at hdrop
    cases hdrop
  set s₁ : ClusterClient := ({ s with
    wakeupQueue := [rs]
    sleepSession := s.sleepSession.erase task }.setPoint task .free).handle call
      (outcomeOf call.kind (lastAnswer s)) with hs₁
  have hpt : ∀ c, s₁.point c = if c = task then .free else s.point c :=
    fun c => update_apply _ _ _ _
  have hqueued : ∀ c p' call', s₁.point c = .queued p' call' ↔
      c ≠ task ∧ s.point c = .queued p' call' := by
    intro c p' call'
    rw [hpt]
    split
    · next hc => simp [hc]
    · next hc => simp [hc]
  have hcalls : ∀ t ∈ rest, taskCall s₁ t = taskCall s t := by
    intro t ht
    cases t with
    | packed call => rfl
    | thread c =>
      have hc : c ≠ task := by
        rintro rfl
        exact hnot ht
      simp only [taskCall, hpt, if_neg hc]
  have htasks : TasksLeft s₁ p rs rest := by
    constructor
    · have hmade := h.tasks.made
      simp only [List.map_cons, taskCall, htask] at hmade
      rw [map_congr_left hcalls]
      simp only [hs₁, ClusterClient.handle, map_append, List.map_cons, map_nil,
        append_assoc, singleton_append]
      exact hmade
    · exact fun c hc => h.tasks.kinds c (List.mem_cons_of_mem _ hc)
    · intro c
      have hthreads := h.tasks.threads c
      simp only [List.mem_cons, ClusterTask.thread.injEq] at hthreads
      constructor
      · intro hc
        obtain ⟨p', call', hpc⟩ := hthreads.mp (Or.inr hc)
        refine ⟨p', call', (hqueued c p' call').mpr ⟨?_, hpc⟩⟩
        rintro rfl
        exact hnot hc
      · rintro ⟨p', call', hpc⟩
        obtain ⟨hc, hpc⟩ := (hqueued c p' call').mp hpc
        exact (hthreads.mpr ⟨p', call', hpc⟩).resolve_left hc
    · intro c
      exact (count_le_count_cons).trans (h.tasks.once c)
    · intro c p' call' hpc
      obtain ⟨hc, hpc⟩ := (hqueued c p' call').mp hpc
      obtain ⟨hp, hin, hk⟩ := h.tasks.queued c p' call' hpc
      exact ⟨hp, mem_erase.mpr ⟨hc, hin⟩, hk⟩
    · intro c hc
      rw [hpt]
      split
      · exact Or.inl rfl
      · exact h.tasks.others c hc
    · intro p' call' hpc
      exact h.tasks.worker p' call' ((hqueued rs p' call').mp hpc).2
    · exact h.tasks.answers
    · intro x hx
      rcases mem_append.mp hx with hx | hx
      · exact h.tasks.handled x hx
      · rw [List.mem_singleton.mp hx]
        exact handledAs_last ha.answers
  have hstage : StageOk s₁ p rs rest .confirming := by
    refine ⟨⟨ha.taskQueue, ha.sender, ha.confirm, ha.queueSender, ha.answers⟩, rfl,
      mem_erase.mpr ⟨hne, hsleep⟩, i, hi, ?_, ?_⟩
    · rw [hpt, if_neg hne]
      exact hpoint
    · change (s.queues p).tasks.drop (i + 1) = rest
      rw [← drop_drop, hdrop]
      rfl
  have hwake : rs ∈ s.sleepSession.erase task := mem_erase.mpr ⟨hne, hsleep⟩
  have hrun : { s with wakeupQueue := [] }.resumed task =
      (lastAnswer s).elim { s₁ with control := .running task } fun _ =>
        { s₁ with control := .suspend } := by
    simp only [resumed, htask, callSender, ha.confirm, ha.queueSender, wakeup, hwake, if_true]
    cases hlast : lastAnswer s with
    | some c => simp [hs₁, hlast, outcomeOf, setPoint, ClusterClient.handle]
    | none =>
      have hraised : outcomeOf call.kind none = .raised := by
        cases hk : call.kind with
        | send => exact absurd hk hkind
        | call => rfl
        | query => rfl
      simp [hs₁, hlast, hraised, setPoint, ClusterClient.handle]
  refine ⟨rest, ?_⟩
  rw [hrun]
  cases lastAnswer s with
  | some c =>
    exact ⟨{ htasks with }, ⟨{ hstage.1 with }, hstage.2⟩, by rintro _ ⟨⟩,
      fun _ => ⟨by rintro ⟨⟩, by rintro ⟨⟩⟩, fun _ => by rintro ⟨⟩⟩
  | none =>
    refine ⟨{ htasks with }, ⟨{ hstage.1 with }, hstage.2⟩, ?_,
      fun _ => ⟨by rintro ⟨⟩, by rintro ⟨⟩⟩, fun _ => by rintro ⟨⟩⟩
    rintro c ⟨⟩
    exact (hpt task).trans (if_pos rfl)

theorem ClientAgrees.confirmed (h : ClientAgrees s .confirming q rs rest) :
    ∃ stage rest', ClientAgrees ({ s with wakeupQueue := [] }.resumed rs) stage q rs rest' := by
  obtain ⟨ha, hwakeups, hsleep, i, hi, hpoint, hdrop⟩ := h.stage
  set s₁ : ClusterClient := { s with
    wakeupQueue := []
    sleepSession := s.sleepSession.erase rs } with hs₁
  have htasks : TasksLeft s₁ q rs rest := by
    refine { h.tasks with queued := fun c p call hc => ?_ }
    obtain ⟨hp, hin, hk⟩ := h.tasks.queued c p call hc
    refine ⟨hp, mem_erase.mpr ⟨?_, hin⟩, hk⟩
    rintro rfl
    exact h.tasks.worker p call hc
  have hrun : { s with wakeupQueue := [] }.resumed rs =
      s₁.flush rs q (lastAnswer s₁) rest (i + 1) := by
    simp only [resumed, hpoint, ha.queueSender, hdrop]
    rfl
  rw [hrun]
  exact flush_agrees htasks { ha with } hdrop rfl h.control.forks

theorem ClientAgrees.setControl {c : ClusterControl} (forks : List ℕ)
    (h : ClientAgrees s stage q rs rest) (hforks : ∀ x ∈ s.forkQueue, x ∈ forks)
    (hcontrol : ControlOk { s with control := c, forkQueue := forks }) :
    ClientAgrees { s with control := c, forkQueue := forks } stage q rs rest := by
  refine ⟨{ h.tasks with }, ?_, hcontrol⟩
  have hstage := h.stage
  cases stage with
  | none => exact hstage
  | forked =>
    obtain ⟨hqueue, hsender, hlast, hwakeups, hpoint, hfork, htasks⟩ := hstage
    exact ⟨hqueue, hsender, hlast, hwakeups, hpoint, hforks rs hfork, htasks⟩
  | asking => exact hstage
  | waking task => exact ⟨{ hstage.1 with }, hstage.2⟩
  | confirming => exact ⟨{ hstage.1 with }, hstage.2⟩

theorem ClientAgrees.dispatchWakeup (h : ClientAgrees s stage q rs rest) :
    ∃ stage rest', ClientAgrees s.dispatchWakeup stage q rs rest' := by
  have hnone : s.wakeupQueue = [] → ClientAgrees s.dispatchWakeup stage q rs rest := by
    intro hwakeups
    have hstep : s.dispatchWakeup = { s with control := .forks, forkQueue := s.forkQueue } := by
      unfold ClusterClient.dispatchWakeup
      split
      · rfl
      · next heq =>
        rw [hwakeups] at heq
        nomatch heq
    rw [hstep]
    exact h.setControl s.forkQueue (fun _ hx => hx)
      ⟨nofun, fun hne => absurd hwakeups hne, fun _ => nofun⟩
  cases stage with
  | none =>
    obtain ⟨-, -, hwakeups, -⟩ := h.stage
    exact ⟨_, _, hnone hwakeups⟩
  | forked =>
    obtain ⟨-, -, -, hwakeups, -⟩ := h.stage
    exact ⟨_, _, hnone hwakeups⟩
  | asking =>
    obtain ⟨-, -, -, hwakeups, -⟩ := h.stage
    exact ⟨_, _, hnone hwakeups⟩
  | waking task =>
    obtain ⟨-, hwakeups, -, hhead, -⟩ := h.stage
    obtain ⟨tail, htail⟩ := head?_eq_some_iff.mp hhead
    obtain ⟨p, call, hpoint⟩ := (h.tasks.threads task).mp (by rw [htail]; exact List.mem_cons_self)
    obtain ⟨-, hsleep, -⟩ := h.tasks.queued task p call hpoint
    obtain ⟨rest', hcalled⟩ := h.called
    rw [ClusterClient.dispatchWakeup, hwakeups]
    simp only [hsleep, if_true]
    exact ⟨_, rest', hcalled⟩
  | confirming =>
    obtain ⟨-, hwakeups, hsleep, -⟩ := h.stage
    obtain ⟨stage, rest', hconfirmed⟩ := h.confirmed
    rw [ClusterClient.dispatchWakeup, hwakeups]
    simp only [hsleep, if_true]
    exact ⟨stage, rest', hconfirmed⟩

theorem ClientAgrees.fork {forks : List ℕ}
    (h : ClientAgrees s stage q rs rest) (hforks : s.forkQueue = co :: forks) :
    ∃ stage, ClientAgrees ({ s with forkQueue := forks }.fork co) stage q rs rest := by
  have hcontrol : ∀ s' : ClusterClient, s'.control = .suspend → ControlOk s' := by
    intro s' hs'
    refine ⟨?_, ?_, ?_⟩
    · intro c hc
      rw [hs'] at hc
      nomatch hc
    · intro _
      rw [hs']
      exact ⟨nofun, nofun⟩
    · rw [hs']
      nofun
  unfold ClusterClient.fork
  cases hpoint : s.point co with
  | forked q' =>
    have hco : co = rs := by
      by_contra hne
      rcases h.tasks.others co hne with hfree | ⟨p, call, hqueued⟩
      · rw [hpoint] at hfree
        nomatch hfree
      · rw [hpoint] at hqueued
        nomatch hqueued
    obtain rfl := hco
    have hstage := h.stage
    cases stage with
    | none =>
      rw [hstage.2.2.2.1] at hpoint
      nomatch hpoint
    | forked =>
      obtain ⟨hqueue, hsender, hlast, hwakeups, hforked, -, htasks⟩ := hstage
      rw [hpoint] at hforked
      obtain rfl := ClusterPoint.forked.inj hforked
      refine ⟨.asking, ?_, ?_, hcontrol _ rfl⟩
      · have hset := h.tasks.setPoint (p := .asking q') (by nofun)
        exact { hset with }
      · exact ⟨hqueue, hsender, hlast, hwakeups, update_self _ _ _, htasks⟩
    | asking =>
      rw [hstage.2.2.2.2.1] at hpoint
      nomatch hpoint
    | waking task =>
      obtain ⟨-, -, -, -, i, hconfirming, -⟩ := hstage
      rw [hconfirming] at hpoint
      nomatch hpoint
    | confirming =>
      obtain ⟨-, -, -, i, -, hconfirming, -⟩ := hstage
      rw [hconfirming] at hpoint
      nomatch hpoint
  | _ =>
    refine ⟨stage, { h.tasks with }, ?_, hcontrol _ rfl⟩
    have hstage := h.stage
    cases stage with
    | none => exact hstage
    | forked =>
      obtain ⟨hqueue, hsender, hlast, hwakeups, hforked, hfork, htasks⟩ := hstage
      refine ⟨hqueue, hsender, hlast, hwakeups, hforked, ?_, htasks⟩
      rw [hforks] at hfork
      refine (List.mem_cons.mp hfork).resolve_left ?_
      rintro rfl
      rw [hpoint] at hforked
      nomatch hforked
    | asking => exact hstage
    | waking task => exact ⟨{ hstage.1 with }, hstage.2⟩
    | confirming => exact ⟨{ hstage.1 with }, hstage.2⟩

/-! ## New requests -/

theorem ClientAgrees.getQueue {fork : ℕ}
    (h : ClientAgrees s stage q rs rest) (hcontrol : s.control = .running co)
    (hsender : s.sender = none) (hne : fork ≠ co) :
    ∃ stage q' rs' s', s.getQueue fork = (q', s') ∧ ClientAgrees s' stage q' rs' rest ∧
      s'.taskQueue = some q' ∧ s'.sender = none ∧ s'.control = .running co := by
  cases hqueue : s.taskQueue with
  | some q₀ =>
    have hq : q₀ = q := by
      have hstage := h.stage
      cases stage with
      | none =>
        rw [hstage.1] at hqueue
        nomatch hqueue
      | forked => exact some.inj (hqueue.symm.trans hstage.1)
      | asking => exact some.inj (hqueue.symm.trans hstage.1)
      | waking task => exact some.inj (hqueue.symm.trans hstage.1.taskQueue)
      | confirming => exact some.inj (hqueue.symm.trans hstage.1.taskQueue)
    refine ⟨stage, q, rs, s, ?_, h, hq ▸ hqueue, hsender, hcontrol⟩
    rw [ClusterClient.getQueue, hqueue, hq]
  | none =>
    have hstage : s.wakeupQueue = [] ∧ rest = [] ∧ s.point rs = .free ∧
        s.sender = lastAnswer s := by
      have hstage := h.stage
      cases stage with
      | none => exact ⟨hstage.2.2.1, hstage.2.1, hstage.2.2.2⟩
      | forked =>
        rw [hstage.1] at hqueue
        nomatch hqueue
      | asking =>
        rw [hstage.1] at hqueue
        nomatch hqueue
      | waking task =>
        rw [hstage.1.taskQueue] at hqueue
        nomatch hqueue
      | confirming =>
        rw [hstage.1.taskQueue] at hqueue
        nomatch hqueue
    obtain ⟨hwakeups, rfl, hrs, hlast⟩ := hstage
    have hfree : ∀ c, s.point c = .free := by
      intro c
      by_cases hc : c = rs
      · rw [hc]
        exact hrs
      · rcases h.tasks.others c hc with hfree | hqueued
        · exact hfree
        · nomatch (h.tasks.threads c).mpr hqueued
    have hpoint : ∀ c, update s.point fork (.forked s.queueCount) c =
        if c = fork then .forked s.queueCount else .free := by
      intro c
      rw [update_apply, hfree]
    have hget : s.getQueue fork = (s.queueCount, { s.setPoint fork (.forked s.queueCount) with
          forkQueue := s.forkQueue ++ [fork]
          taskQueue := some s.queueCount
          queues := update s.queues s.queueCount ⟨[], none, none⟩
          queueCount := s.queueCount + 1 }) := by
      unfold ClusterClient.getQueue
      split
      · next heq =>
        rw [hqueue] at heq
        nomatch heq
      · rfl
    refine ⟨.forked, s.queueCount, fork, _, hget, ?_, rfl, hsender, hcontrol⟩
    refine ⟨?_, ?_, ?_⟩
    · refine { h.tasks with
        threads := fun c => ?_
        queued := fun c p call hc => ?_
        others := fun c hc => ?_
        worker := fun p call => ?_ }
      · refine iff_of_false (by nofun) ?_
        rintro ⟨p, call, hc⟩
        change update _ _ _ c = _ at hc
        rw [hpoint] at hc
        split at hc
        · nomatch hc
        · nomatch hc
      · change update _ _ _ c = _ at hc
        rw [hpoint] at hc
        split at hc
        · nomatch hc
        · nomatch hc
      · exact Or.inl ((hpoint c).trans (if_neg hc))
      · change update _ _ _ fork ≠ _
        rw [hpoint, if_pos rfl]
        nofun
    · refine ⟨rfl, hsender, hlast.symm.trans hsender, hwakeups, update_self _ _ _, ?_, ?_⟩
      · exact mem_append_right _ (List.mem_singleton_self _)
      · have hnew : update s.queues s.queueCount ⟨[], none, none⟩ s.queueCount =
            ⟨[], none, none⟩ := update_self _ _ _
        exact congrArg TaskQueue.tasks hnew
    · refine ⟨fun c hc => ?_, fun hne' => absurd hwakeups hne', fun _ hidle => ?_⟩
      · obtain rfl := ClusterControl.running.inj (hcontrol.symm.trans hc)
        exact (hpoint co).trans (if_neg hne.symm)
      · nomatch hcontrol.symm.trans hidle

structure InsertsTask (s s' : ClusterClient) (q rs : ℕ) (task : ClusterTask) : Prop where
  queues : s'.queues q = { s.queues q with tasks := (s.queues q).tasks ++ [task] }
  point : s'.point rs = s.point rs
  sleepSession : ∀ c ∈ s.sleepSession, c ∈ s'.sleepSession
  forkQueue : s'.forkQueue = s.forkQueue
  wakeupQueue : s'.wakeupQueue = s.wakeupQueue
  sender : s'.sender = s.sender
  taskQueue : s'.taskQueue = s.taskQueue
  answers : s'.answers = s.answers

theorem QueueAnswered.insert (h : QueueAnswered s q rs)
    (hi : InsertsTask s s' q rs task) : QueueAnswered s' q rs := by
  obtain ⟨hqueue, hsender, hconfirm, hlast, hanswers⟩ := h
  constructor
  · rw [hi.taskQueue]
    exact hqueue
  · rw [hi.sender]
    exact hsender
  · rw [hi.queues]
    exact hconfirm
  · rw [hi.queues, lastAnswer, hi.answers]
    exact hlast
  · rw [hi.answers]
    exact hanswers

theorem StageOk.insert (h : StageOk s q rs rest stage) (hq : s.taskQueue = some q)
    (hi : InsertsTask s s' q rs task) : StageOk s' q rs (rest ++ [task]) stage := by
  have hlast : lastAnswer s' = lastAnswer s := congrArg (fun l => l.getLast?.join) hi.answers
  cases stage with
  | none =>
    rw [h.1] at hq
    nomatch hq
  | forked =>
    obtain ⟨hqueue, hsender, hanswer, hwakeups, hpoint, hfork, htasks⟩ := h
    refine ⟨hi.taskQueue.trans hqueue, hi.sender.trans hsender, hlast.trans hanswer,
      hi.wakeupQueue.trans hwakeups, hi.point.trans hpoint, ?_, ?_⟩
    · rw [hi.forkQueue]
      exact hfork
    · rw [hi.queues, htasks]
  | asking =>
    obtain ⟨hqueue, hsender, hanswer, hwakeups, hpoint, htasks⟩ := h
    refine ⟨hi.taskQueue.trans hqueue, hi.sender.trans hsender, hlast.trans hanswer,
      hi.wakeupQueue.trans hwakeups, hi.point.trans hpoint, ?_⟩
    rw [hi.queues, htasks]
  | waking t =>
    obtain ⟨ha, hwakeups, hsleep, hhead, i, hpoint, hdrop⟩ := h
    obtain ⟨tail, rfl⟩ := head?_eq_some_iff.mp hhead
    refine ⟨ha.insert hi, hi.wakeupQueue.trans hwakeups, hi.sleepSession rs hsleep, rfl, i,
      hi.point.trans hpoint, ?_⟩
    have hle : i ≤ (s.queues q).tasks.length := by
      by_contra hgt
      rw [drop_eq_nil_of_le (Nat.le_of_not_le hgt)] at hdrop
      nomatch hdrop
    rw [hi.queues, ← hdrop]
    exact drop_append_of_le_length hle
  | confirming =>
    obtain ⟨ha, hwakeups, hsleep, i, hlt, hpoint, hdrop⟩ := h
    refine ⟨ha.insert hi, hi.wakeupQueue.trans hwakeups, hi.sleepSession rs hsleep, i, ?_,
      hi.point.trans hpoint, ?_⟩
    · rw [hi.queues, length_append]
      exact Nat.lt_add_right _ hlt
    · rw [hi.queues, ← hdrop]
      exact drop_append_of_le_length hlt

theorem TasksLeft.packed {queues : ℕ → TaskQueue} (h : TasksLeft s q rs rest)
    (hkind : call.kind = .send) :
    TasksLeft { s with made := s.made ++ [call], queues := queues } q rs
      (rest ++ [.packed call]) := by
  refine { h with
    made := ?_
    kinds := fun c hc => ?_
    threads := fun c => ?_
    once := fun c => ?_ }
  · have hcall : taskCall s (.packed call) = call := rfl
    change s.made ++ [call] =
      s.handled.map _ ++ (rest ++ [ClusterTask.packed call]).map (taskCall s)
    rw [h.made, map_append, List.map_singleton, hcall, append_assoc]
  · rcases mem_append.mp hc with hc | hc
    · exact h.kinds c hc
    · obtain rfl := ClusterTask.packed.inj (List.mem_singleton.mp hc)
      exact hkind
  · rw [mem_append, List.mem_singleton]
    simp only [reduceCtorEq, or_false]
    exact h.threads c
  · have hcount : (rest ++ [ClusterTask.packed call]).count (ClusterTask.thread c) =
        rest.count (ClusterTask.thread c) := by
      simp
    rw [hcount]
    exact h.once c

theorem TasksLeft.thread {queues : ℕ → TaskQueue} {c : ClusterControl}
    (h : TasksLeft s q rs rest) (hkind : call.kind ≠ .send) (hfree : s.point co = .free)
    (hne : co ≠ rs) :
    TasksLeft { s with
      made := s.made ++ [call]
      queues := queues
      point := update s.point co (.queued q call)
      sleepSession := insert co s.sleepSession
      control := c } q rs (rest ++ [.thread co]) := by
  set s' : ClusterClient := { s with
      made := s.made ++ [call]
      queues := queues
      point := update s.point co (.queued q call)
      sleepSession := insert co s.sleepSession
      control := c } with hs'
  have hpoint : ∀ d, s'.point d = if d = co then .queued q call else s.point d :=
    fun d => update_apply _ _ _ _
  have hnot : .thread co ∉ rest := by
    intro hin
    obtain ⟨p, call', hqueued⟩ := (h.threads co).mp hin
    rw [hfree] at hqueued
    nomatch hqueued
  have hcalls : ∀ t ∈ rest, taskCall s' t = taskCall s t := by
    intro t ht
    cases t with
    | packed call => rfl
    | thread d =>
      have hd : d ≠ co := by
        rintro rfl
        exact hnot ht
      simp only [taskCall, hpoint, if_neg hd]
  refine { h with
    made := ?_
    kinds := fun c hc => ?_
    threads := fun d => ?_
    once := fun d => ?_
    queued := fun d p call' hd => ?_
    others := fun d hd => ?_
    worker := fun p call' hd => ?_ }
  · have hcall : taskCall s' (.thread co) = call := by
      simp only [taskCall, hpoint, if_true]
    change s.made ++ [call] = s.handled.map _ ++ (rest ++ [ClusterTask.thread co]).map (taskCall s')
    rw [h.made, map_append, List.map_singleton, hcall, append_assoc, map_congr_left hcalls]
  · rcases mem_append.mp hc with hc | hc
    · exact h.kinds c hc
    · nomatch List.mem_singleton.mp hc
  · rw [mem_append, List.mem_singleton, ClusterTask.thread.injEq, h.threads d, hpoint]
    split
    · next hd => exact iff_of_true (Or.inr hd) ⟨q, call, rfl⟩
    · next hd => exact or_iff_left hd
  · rw [count_append]
    by_cases hd : d = co
    · rw [hd, count_eq_zero_of_not_mem hnot]
      simp
    · have hcount : [ClusterTask.thread co].count (.thread d) = 0 := by
        simp [Ne.symm hd]
      rw [hcount]
      exact h.once d
  · rw [hpoint] at hd
    split at hd
    · next heq =>
      obtain ⟨rfl, rfl⟩ := ClusterPoint.queued.inj hd
      exact ⟨rfl, heq ▸ Finset.mem_insert_self _ _, hkind⟩
    · obtain ⟨hp, hin, hk⟩ := h.queued d p call' hd
      exact ⟨hp, Finset.mem_insert_of_mem hin, hk⟩
  · rw [hpoint]
    split
    · exact Or.inr ⟨_, _, rfl⟩
    · exact h.others d hd
  · rw [hpoint, if_neg hne.symm] at hd
    exact h.worker p call' hd

theorem getQueue_made (s : ClusterClient) (made : List ClusterCall) (fork : ℕ) :
    { s with made := made }.getQueue fork =
      ((s.getQueue fork).1, { (s.getQueue fork).2 with made := made }) := by
  obtain ⟨_, _, _, _, _, _, taskQueue, _, _, _, _, _⟩ := s
  cases taskQueue <;> rfl

theorem request_of_none {fork : ℕ} (hsender : s.sender = none) :
    s.request co call fork =
      if call.kind = .send then
        ({ s with made := s.made ++ [call] }.insertTask fork (.packed call)).2
      else
        ({ s with made := s.made ++ [call] }.insertTask fork (.thread co)).2.wait co
          (.queued ({ s with made := s.made ++ [call] }.insertTask fork (.thread co)).1 call) := by
  obtain ⟨_, _, _, _, _, sender, _, _, _, _, _, _⟩ := s
  obtain ⟨kind, msg⟩ := call
  obtain rfl : sender = none := hsender
  cases kind <;> rfl

theorem ClientAgrees.request {fork : ℕ} (h : ClientAgrees s stage q rs rest)
    (hcontrol : s.control = .running co) (hne : fork ≠ co) : ∃ stage q rs rest, ClientAgrees
    (s.request co call fork) stage q rs rest := by
  cases hsender : s.sender with
  | some c =>
    -- the sender is known, so that no queue is under way
    obtain ⟨hqueue, rfl, hwakeups, hrs, hlast⟩ : StageOk s q rs rest .none := by
      have hstage := h.stage
      cases stage with
      | none => exact hstage
      | forked => nomatch hsender.symm.trans hstage.2.1
      | asking => nomatch hsender.symm.trans hstage.2.1
      | waking task => nomatch hsender.symm.trans hstage.1.sender
      | confirming => nomatch hsender.symm.trans hstage.1.sender
    have hanswer : lastAnswer s = some c := hlast.symm.trans hsender
    have hanswers : s.answers ≠ [] := by
      intro hnil
      rw [lastAnswer, hnil] at hanswer
      nomatch hanswer
    have hpassed : HandledAs s ⟨call, outcomeOf call.kind (lastAnswer s), s.answers.length⟩ :=
      handledAs_last hanswers
    rw [hanswer] at hpassed
    have htasks : ∀ control, TasksLeft { s with
        made := s.made ++ [call]
        handled := s.handled ++ [⟨call, .passed c, s.answers.length⟩]
        control := control } q rs [] := by
      intro control
      refine { h.tasks with
        made := ?_
        handled := fun x hx => ?_ }
      · have hmade := h.tasks.made
        simp only [map_nil, append_nil] at hmade ⊢
        rw [hmade, map_append]
        rfl
      · rcases mem_append.mp hx with hx | hx
        · exact h.tasks.handled x hx
        · rw [List.mem_singleton.mp hx]
          cases call.kind <;> exact hpassed
    have hrun : s.request co call fork = { s with
        made := s.made ++ [call]
        handled := s.handled ++ [⟨call, .passed c, s.answers.length⟩]
        control := if call.kind = .send then s.control else .suspend } := by
      unfold ClusterClient.request
      simp only [hsender]
      cases call.kind <;> rfl
    rw [hrun]
    refine ⟨.none, q, rs, [], htasks _, ⟨hqueue, rfl, hwakeups, hrs, hlast⟩, ?_⟩
    split
    · exact ⟨h.control.running, h.control.wakeups, h.control.forks⟩
    · exact ⟨nofun, fun _ => ⟨nofun, nofun⟩, fun _ => nofun⟩
  | none =>
    obtain ⟨stage', q', rs', s', hget, h', hqueue, hsender', hcontrol'⟩ :=
      h.getQueue hcontrol hsender hne
    have hinsert : ∀ task, { s with made := s.made ++ [call] }.insertTask fork task = (q', { s' with
          made := s.made ++ [call]
          queues := update s'.queues q'
            { s'.queues q' with tasks := (s'.queues q').tasks ++ [task] } }) := by
      intro task
      rw [insertTask, getQueue_made, hget]
    have hmade : s'.made = s.made := by
      have hself := getQueue_made s s.made fork
      rw [hget] at hself
      exact congrArg (fun p => p.2.made) hself
    have hfree := h'.control.running co hcontrol'
    have hworker : co ≠ rs' := by
      rintro rfl
      have hstage := h'.stage
      cases stage' with
      | none => nomatch hqueue.symm.trans hstage.1
      | forked => nomatch hfree.symm.trans hstage.2.2.2.2.1
      | asking => nomatch hfree.symm.trans hstage.2.2.2.2.1
      | waking task =>
        obtain ⟨-, -, -, -, i, hpoint, -⟩ := hstage
        nomatch hfree.symm.trans hpoint
      | confirming =>
        obtain ⟨-, -, -, i, -, hpoint, -⟩ := hstage
        nomatch hfree.symm.trans hpoint
    have hthread : call.kind ≠ .send → ∃ stage q rs rest,
        ClientAgrees (s.request co call fork) stage q rs rest := by
      intro hkind
      have hrun : s.request co call fork = { s' with
          made := s'.made ++ [call]
          queues := update s'.queues q'
            { s'.queues q' with tasks := (s'.queues q').tasks ++ [.thread co] }
          point := update s'.point co (.queued q' call)
          sleepSession := insert co s'.sleepSession
          control := .suspend } := by
        rw [request_of_none hsender, if_neg hkind, hinsert, hmade]
        rfl
      rw [hrun]
      refine ⟨stage', q', rs', rest ++ [.thread co], h'.tasks.thread hkind hfree hworker,
        h'.stage.insert hqueue ⟨update_self _ _ _, ?_, ?_, rfl, rfl, rfl, rfl, rfl⟩, ?_⟩
      · exact update_of_ne hworker.symm _ _
      · exact fun c hc => Finset.mem_insert_of_mem hc
      · exact ⟨nofun, fun _ => ⟨nofun, nofun⟩, fun _ => nofun⟩
    cases hkind : call.kind with
    | send =>
      have hrun : s.request co call fork = { s' with
          made := s'.made ++ [call]
          queues := update s'.queues q'
            { s'.queues q' with tasks := (s'.queues q').tasks ++ [.packed call] } } := by
        rw [request_of_none hsender, if_pos hkind, hinsert, hmade]
      rw [hrun]
      exact ⟨stage', q', rs', rest ++ [.packed call], h'.tasks.packed hkind,
        h'.stage.insert hqueue ⟨update_self _ _ _, rfl, fun _ hc => hc, rfl, rfl, rfl, rfl,
          rfl⟩, ⟨h'.control.running, h'.control.wakeups, h'.control.forks⟩⟩
    | call => exact hthread (by rw [hkind]; nofun)
    | query => exact hthread (by rw [hkind]; nofun)

/-- Every step keeps the agreement with the history. -/
theorem ClientAgrees.next {a : ClusterAction}
    (h : ClientAgrees s stage q rs rest) (hs' : ClusterClient.next s a = some s') :
    ∃ stage q rs rest, ClientAgrees s' stage q rs rest := by
  cases a with
  | resume co =>
    have hfree : s.point co = .free ∧ s' = { s with control := .running co } := by
      simp only [ClusterClient.next] at hs'
      split at hs'
      · nomatch hs'
      · next hpoint _ => exact ⟨hpoint, (some.inj hs').symm⟩
      · nomatch hs'
    obtain ⟨hpoint, rfl⟩ := hfree
    refine ⟨stage, q, rs, rest, h.setControl s.forkQueue (fun _ hx => hx) ?_⟩
    refine ⟨?_, fun _ => ⟨nofun, nofun⟩, fun _ => nofun⟩
    rintro c ⟨⟩
    exact hpoint
  | request call fork =>
    simp only [ClusterClient.next] at hs'
    split at hs'
    · next co hcontrol =>
      obtain ⟨⟨-, hne⟩, hs'⟩ := ite_none_right_eq_some.mp hs'
      obtain rfl := some.inj hs'
      exact h.request hcontrol hne
    · nomatch hs'
  | yield =>
    simp only [ClusterClient.next] at hs'
    split at hs'
    · obtain rfl := some.inj hs'
      exact ⟨stage, q, rs, rest, h.setControl s.forkQueue (fun _ hx => hx)
        ⟨nofun, fun _ => ⟨nofun, nofun⟩, fun _ => nofun⟩⟩
    · nomatch hs'
  | raise fork =>
    simp only [ClusterClient.next] at hs'
    split at hs'
    · obtain ⟨-, hs'⟩ := ite_none_right_eq_some.mp hs'
      obtain rfl := some.inj hs'
      refine ⟨stage, q, rs, rest, h.setControl _ (fun _ hx => mem_append_left _ hx)
        ⟨nofun, fun _ => ⟨nofun, fun _ => ?_⟩, fun _ => nofun⟩⟩
      exact append_ne_nil_of_right_ne_nil _ (cons_ne_nil _ _)
    · nomatch hs'
  | dispatchWakeup =>
    simp only [ClusterClient.next] at hs'
    split at hs'
    · obtain rfl := some.inj hs'
      obtain ⟨stage, rest', h'⟩ := h.dispatchWakeup
      exact ⟨stage, q, rs, rest', h'⟩
    · nomatch hs'
  | forkNext =>
    simp only [ClusterClient.next] at hs'
    split at hs'
    · next hcontrol hforks =>
      obtain rfl := some.inj hs'
      refine ⟨stage, q, rs, rest, h.setControl s.forkQueue (fun _ hx => hx) ?_⟩
      refine ⟨nofun, fun hne => ?_, fun hne => absurd hforks hne⟩
      exact absurd hforks ((h.control.wakeups hne).2 hcontrol)
    · next co cos hcontrol hforks =>
      obtain rfl := some.inj hs'
      obtain ⟨stage, h'⟩ := h.fork hforks
      exact ⟨stage, q, rs, rest, h'⟩
    · nomatch hs'
  | answer co a =>
    simp only [ClusterClient.next] at hs'
    split at hs'
    · next q' hcontrol hpoint =>
      obtain rfl := some.inj hs'
      have hco : co = rs := by
        by_contra hne
        rcases h.tasks.others co hne with hfree | ⟨p, call, hqueued⟩
        · nomatch hpoint.symm.trans hfree
        · nomatch hpoint.symm.trans hqueued
      obtain rfl := hco
      have hstage := h.stage
      cases stage with
      | none => nomatch hpoint.symm.trans hstage.2.2.2.1
      | forked => nomatch hpoint.symm.trans hstage.2.2.2.2.1
      | asking =>
        obtain rfl := ClusterPoint.asking.inj (hpoint.symm.trans hstage.2.2.2.2.1)
        obtain ⟨stage, rest', h'⟩ := h.answer (a := a)
        exact ⟨stage, q', co, rest', h'⟩
      | waking task =>
        obtain ⟨-, -, -, -, i, hconfirming, -⟩ := hstage
        nomatch hpoint.symm.trans hconfirming
      | confirming =>
        obtain ⟨-, -, -, i, -, hconfirming, -⟩ := hstage
        nomatch hpoint.symm.trans hconfirming
    · nomatch hs'

/-! ## Requests behind a failure -/

/-- A request for which there is no sender comes to a queue for which `clusterd` is being asked, or
to one that has a sender. -/
def AsksAgain (s : ClusterClient) (a : ClusterAction) (s' : ClusterClient) : Prop :=
  (∃ call fork, a = .request call fork) → s.sender = none → ∃ q, s'.taskQueue = some q ∧
    ((∃ rs, s'.point rs = .forked q ∨ s'.point rs = .asking q) ∨ (s'.queues q).sender ≠ none)

/-- No request is made while a queue is worked off for which `clusterd` has failed. -/
def NotWhileFailing (s : ClusterClient) (a : ClusterAction) : Prop :=
  (∃ call fork, a = .request call fork) → ∀ q rs i, s.taskQueue = some q →
    s.point rs = .confirming q i → (s.queues q).sender ≠ none

/-- What a request without a sender does to the queue: one that is there stays, or `fork` will
ask for a new one. -/
structure JoinsQueue (s s' : ClusterClient) : Prop where
  confirming : ∀ c q i, s'.point c = .confirming q i ↔ s.point c = .confirming q i
  joined : ∀ q, s.taskQueue = some q →
    s'.taskQueue = some q ∧ (s'.queues q).sender = (s.queues q).sender
  opened : s'.taskQueue ≠ none

theorem joinsQueue_request {fork : ℕ} (hsender : s.sender = none) (hco : s.point co = .free)
    (hfork : s.point fork = .free) : JoinsQueue s (s.request co call fork) := by
  have hsame : ∀ c q i p, s.point c = .free → (∀ q i, p ≠ .confirming q i) →
      ∀ d, update s.point c p d = .confirming q i ↔ s.point d = .confirming q i := by
    intro c q i p hc hp d
    rw [update_apply]
    split
    · next heq =>
      rw [heq, hc]
      exact iff_of_false (hp q i) (by simp)
    · rfl
  have hforked : ∀ q i q' d, update s.point fork (.forked q') d = .confirming q i ↔
      s.point d = .confirming q i := fun q i q' => hsame fork q i _ hfork (by simp)
  cases hqueue : s.taskQueue with
  | some q₀ =>
    by_cases hkind : call.kind = .send
    · rw [request_of_none hsender, if_pos hkind]
      simp only [insertTask, ClusterClient.getQueue, hqueue]
      refine ⟨fun _ _ _ => Iff.rfl, fun q hq => ?_, by simp⟩
      obtain rfl := some.inj (hqueue.symm.trans hq)
      exact ⟨rfl, by simp [update_self]⟩
    · rw [request_of_none hsender, if_neg hkind]
      simp only [insertTask, ClusterClient.getQueue, hqueue]
      refine ⟨fun c q i => hsame co q i _ hco (by simp) c, fun q hq => ?_, ?_⟩
      · obtain rfl := some.inj (hqueue.symm.trans hq)
        exact ⟨rfl, by simp [wait, setPoint]⟩
      · simp [wait, setPoint]
  | none =>
    by_cases hkind : call.kind = .send
    · rw [request_of_none hsender, if_pos hkind]
      simp only [insertTask, ClusterClient.getQueue, hqueue]
      refine ⟨fun c q i => hforked q i _ c, fun q hq => ?_, nofun⟩
      cases hqueue.symm.trans hq
    · rw [request_of_none hsender, if_neg hkind]
      simp only [insertTask, ClusterClient.getQueue, hqueue]
      refine ⟨fun c q i => ?_, fun q hq => (by cases hqueue.symm.trans hq), nofun⟩
      change update (update s.point fork _) co _ c = _ ↔ _
      rw [update_apply]
      split
      · next heq =>
        rw [heq, hco]
        simp
      · exact hforked q i _ c

/-- The one coroutine that is neither free nor queued is the worker. -/
theorem TasksLeft.eq_worker (h : TasksLeft s q rs rest) {c : ℕ} (hfree : s.point c ≠ .free)
    (hqueued : ∀ p call, s.point c ≠ .queued p call) : c = rs := by
  by_contra hne
  obtain hc | ⟨p, call, hc⟩ := h.others c hne
  · exact hfree hc
  · exact hqueued p call hc

theorem asks_again_step {a : ClusterAction} (h : ClientAgrees s stage q rs rest)
    (hnext : ClusterClient.next s a = some s') : AsksAgain s a s' ↔ NotWhileFailing s a := by
  cases hsender : s.sender with
  | some c =>
    refine iff_of_true (fun _ hnone => ?_) fun _ q' rs' i hqueue _ => ?_
    · nomatch hsender.symm.trans hnone
    · have hstage := h.stage
      cases stage with
      | none => nomatch hstage.1.symm.trans hqueue
      | forked => nomatch hsender.symm.trans hstage.2.1
      | asking => nomatch hsender.symm.trans hstage.2.1
      | waking task => nomatch hsender.symm.trans hstage.1.sender
      | confirming => nomatch hsender.symm.trans hstage.1.sender
  | none =>
    refine imp_congr_right ?_
    rintro ⟨call, fork, rfl⟩
    obtain ⟨stage', q', rs', rest', h'⟩ := h.next hnext
    obtain ⟨co, hcontrol, hfork, rfl⟩ : ∃ co, s.control = .running co ∧ s.point fork = .free ∧
        s' = s.request co call fork := by
      simp only [ClusterClient.next] at hnext
      split at hnext
      · next co hcontrol =>
        obtain ⟨⟨hfork, -⟩, hnext⟩ := ite_none_right_eq_some.mp hnext
        exact ⟨co, hcontrol, hfork, (some.inj hnext).symm⟩
      · nomatch hnext
    have hjoins : JoinsQueue s (s.request co call fork) :=
      joinsQueue_request hsender (h.control.running co hcontrol) hfork
    constructor
    · intro hasks q₀ c i hqueue hpoint
      obtain ⟨q₁, hq₁, hcase⟩ := hasks hsender
      obtain ⟨hqueue', hsame⟩ := hjoins.joined q₀ hqueue
      obtain rfl := some.inj (hq₁.symm.trans hqueue')
      have hpoint' := (hjoins.confirming c q₁ i).mpr hpoint
      rw [← hsame]
      refine hcase.resolve_left ?_
      rintro ⟨d, hd⟩
      have hcw := h'.tasks.eq_worker (c := c) (by simp [hpoint']) (by simp [hpoint'])
      have hdw := h'.tasks.eq_worker (c := d) (by rcases hd with hd | hd <;> simp [hd])
        (by rcases hd with hd | hd <;> simp [hd])
      rw [hdw, ← hcw, hpoint'] at hd
      simp at hd
    · intro hcond _
      have hstage := h'.stage
      have hworking : ∀ i, (s.request co call fork).taskQueue = some q' →
          (s.request co call fork).point rs' = .confirming q' i →
            ((s.request co call fork).queues q').sender ≠ none := by
        intro i hqueue' hpoint'
        have hpoint := (hjoins.confirming rs' q' i).mp hpoint'
        cases hqueue : s.taskQueue with
        | none =>
          have hrs := h.tasks.eq_worker (c := rs') (by simp [hpoint]) (by simp [hpoint])
          have hstage := h.stage
          cases stage with
          | none =>
            rw [hrs, hstage.2.2.2.1] at hpoint
            nomatch hpoint
          | forked => nomatch hqueue.symm.trans hstage.1
          | asking => nomatch hqueue.symm.trans hstage.1
          | waking task => nomatch hqueue.symm.trans hstage.1.taskQueue
          | confirming => nomatch hqueue.symm.trans hstage.1.taskQueue
        | some q₀ =>
          obtain ⟨hq₀, hsame⟩ := hjoins.joined q₀ hqueue
          obtain rfl := some.inj (hq₀.symm.trans hqueue')
          rw [hsame]
          exact hcond _ _ _ hqueue hpoint
      cases stage' with
      | none => exact absurd hstage.1 hjoins.opened
      | forked => exact ⟨q', hstage.1, .inl ⟨rs', .inl hstage.2.2.2.2.1⟩⟩
      | asking => exact ⟨q', hstage.1, .inl ⟨rs', .inr hstage.2.2.2.2.1⟩⟩
      | waking task =>
        obtain ⟨ha, -, -, -, i, hpoint, -⟩ := hstage
        exact ⟨q', ha.taskQueue, .inr (hworking i ha.taskQueue hpoint)⟩
      | confirming =>
        obtain ⟨ha, -, -, i, -, hpoint, -⟩ := hstage
        exact ⟨q', ha.taskQueue, .inr (hworking i ha.taskQueue hpoint)⟩

theorem asks_again_run (actions : List ClusterAction) : machine.Each AsksAgain init actions ↔
    machine.Each (fun s a _ => NotWhileFailing s a) init actions := by
  refine Machine.each_congr (I := fun s => ∃ stage q rs rest, ClientAgrees s stage q rs rest)
    ?_ ?_ ⟨_, _, _, _, clientAgrees_init⟩ actions
  · rintro s a s' ⟨stage, q, rs, rest, hs⟩ hnext
    exact hs.next hnext
  · rintro s a s' ⟨stage, q, rs, rest, hs⟩ hnext
    exact asks_again_step hs hnext

/-- **In every run** requests are done once, in order, and with the sender that `clusterd` gave;
and each request behind a failure asks again exactly in the runs in which none is made while a
failed queue is worked off.
SRC: cluster.lua:13-76, 109-111 -/
theorem cluster_calls_ordered (actions : List ClusterAction) :
    (∀ s, machine.Reachable s → CallsOrdered s) ∧ (machine.Each AsksAgain init actions ↔
      machine.Each (fun s a _ => NotWhileFailing s a) init actions) := by
  refine ⟨fun s h => ?_, asks_again_run actions⟩
  obtain ⟨stage, q, rs, rest, hs⟩ := h.invariant
    (I := fun s => ∃ stage q rs rest, ClientAgrees s stage q rs rest)
    (by
      rintro s rfl
      exact ⟨_, _, _, _, clientAgrees_init⟩)
    (by
      rintro s a s' ⟨stage, q, rs, rest, hs⟩ - hnext
      exact hs.next hnext)
  exact hs.ordered

/-- **A request joins a queue that has failed**: the first call raises, and its coroutine calls
again before it hands back control. -/
theorem failed_queue_joined : ¬∀ actions, machine.Each AsksAgain init actions := by
  intro h
  have hrun := (asks_again_run _).mp (h [.resume 1, .request ⟨.call, [1]⟩ 9, .dispatchWakeup,
    .forkNext, .dispatchWakeup, .forkNext, .answer 9 none, .dispatchWakeup,
    .request ⟨.call, [2]⟩ 8])
  have hlast := ((((((((hrun _ rfl).2 _ rfl).2 _ rfl).2 _ rfl).2 _ rfl).2 _ rfl).2 _ rfl).2 _
    rfl).2 _ rfl
  exact hlast.1 ⟨_, _, rfl⟩ 0 9 0 rfl rfl rfl

/-- A request behind a failure, made when its queue is done with. -/
def afterFailure : List ClusterAction :=
  [.resume 1, .request ⟨.call, [1]⟩ 9, .dispatchWakeup, .forkNext, .dispatchWakeup, .forkNext,
    .answer 9 none, .dispatchWakeup, .yield, .dispatchWakeup, .resume 1, .request ⟨.call, [2]⟩ 7]

/-- A call that is made while the queue is worked off comes after those in the queue; and a call
behind a failure asks again. -/
theorem cluster_calls_ordered_flush : ∃ s, CallsOrdered s ∧
    s.handled = [⟨⟨.send, [1]⟩, .passed 7, 1⟩, ⟨⟨.call, [2]⟩, .passed 7, 1⟩,
      ⟨⟨.query, [3]⟩, .passed 7, 1⟩, ⟨⟨.send, [4]⟩, .passed 7, 1⟩] ∧
    machine.Each AsksAgain init afterFailure := by
  have hcond : machine.Each (fun s a _ => NotWhileFailing s a) init afterFailure := by
    -- the two requests are made without a queue
    iterate 12
      rintro _ ⟨⟩
      refine ⟨nofun, ?_⟩
    trivial
  have hrun : (machine.run init [.resume 1, .request ⟨.send, [1]⟩ 9, .request ⟨.call, [2]⟩ 8,
      .resume 2, .request ⟨.query, [3]⟩ 8, .dispatchWakeup, .forkNext, .dispatchWakeup, .forkNext,
      .answer 9 (some 7), .dispatchWakeup, .resume 3, .request ⟨.send, [4]⟩ 8, .yield,
      .dispatchWakeup, .dispatchWakeup, .dispatchWakeup]).map (·.handled) =
        some [⟨⟨.send, [1]⟩, .passed 7, 1⟩, ⟨⟨.call, [2]⟩, .passed 7, 1⟩,
          ⟨⟨.query, [3]⟩, .passed 7, 1⟩, ⟨⟨.send, [4]⟩, .passed 7, 1⟩] := by
    decide
  obtain ⟨s, hs, hhandled⟩ := map_eq_some_iff.mp hrun
  exact ⟨s, (cluster_calls_ordered []).1 s (Machine.Reachable.run (.start rfl) hs), hhandled,
    (cluster_calls_ordered afterFailure).2.mpr hcond⟩

end Skynet.Analysis
