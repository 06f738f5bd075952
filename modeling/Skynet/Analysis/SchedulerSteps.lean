import Skynet.Analysis.SchedulerQueue

/-!
# What a step does to all queues

One lemma for each operation of the scheduler: the thread that runs it moves to a
control point whose weights differ by what the operation gives or takes, and the
invariant of all queues is kept.
-/

namespace Skynet.Analysis

open Library Model SchedState Function List

variable {θ ι δ : Type} [DecidableEq ι] [DecidableEq θ] [Fintype θ]

/-- A thread holds, refers to and deletes the same at two control points. -/
def SameWork (pc' pc : Pc ι δ) : Prop :=
  ∀ x, holds x pc' = holds x pc ∧ refs x pc' = refs x pc ∧ dels x pc' = dels x pc

/-- It lets go of a queue. -/
def LetsGo (q : ι) (pc' pc : Pc ι δ) : Prop :=
  ∀ x, holds x pc' + (if q = x then 1 else 0) = holds x pc ∧ refs x pc' = refs x pc ∧
    dels x pc' = dels x pc

/-- It gets a reference. -/
def GetsRef (ctx : ι) (pc' pc : Pc ι δ) : Prop :=
  ∀ x, holds x pc' = holds x pc ∧ refs x pc' = refs x pc + (if ctx = x then 1 else 0) ∧
    dels x pc' = dels x pc

namespace SchedInv

variable {stray : Prop} {s s' : SchedState θ ι δ} {l l' : List ι} {t : θ} {pc' : Pc ι δ}

/-- A thread moves after a change of the process: the invariant of every queue is what
is left to show. -/
theorem goto {r : SchedState θ ι δ} (h : SchedInv stray s l) (hpc : r.pc = s.pc) (hlater : Later s r)
    (hglobal : r.global.Represents l')
    (htable : ∀ h c, r.table h = some c → r.born c = true ∧ (r.mq c).handle = h)
    (hok : PcOk r pc') (hfault : FaultOk r)
    (hqueue : ∀ q, QueueOk stray (queueData r q
      (l'.count q + threadSum (holds q) (update s.pc t pc'))
      (threadSum (refs q) (update s.pc t pc'))
      (threadSum (dels q) (update s.pc t pc')))) :
    SchedInv stray (r.goto t pc') l' := by
  refine ⟨hglobal, htable, fun q => ?_, fun u => ?_, hfault⟩
  · rw [← hpc] at hqueue
    exact hqueue q
  · have hgoto : Later r (r.goto t pc') := fun q hq => ⟨hq, rfl, fun hrel => ⟨hrel, id⟩⟩
    show PcOk _ (update r.pc t pc' u)
    rw [update_apply]
    split
    · exact hgoto.pcOk hok
    · rw [hpc]
      exact hgoto.pcOk (hlater.pcOk (h.pcOk u))

variable {q : ι}

omit [DecidableEq θ] in
theorem queue_of_eq (h : SchedInv stray s l) {p r d : ℕ}
    (heq : queueData s' q p r d = queueData s q (l.count q + threadSum (holds q) s.pc)
      (threadSum (refs q) s.pc) (threadSum (dels q) s.pc)) :
    QueueOk stray (queueData s' q p r d) := by
  rw [heq]
  exact h.queue q

theorem move (h : SchedInv stray s l) (hw : SameWork pc' (s.pc t)) (hok : PcOk s pc') :
    SchedInv stray (s.goto t pc') l := by
  refine h.goto rfl (Later.refl s) h.global h.table hok h.faultOk fun x => ?_
  obtain ⟨hh, hr, hd⟩ := hw x
  rw [threadSum_update_eq hh, threadSum_update_eq hr, threadSum_update_eq hd]
  exact h.queue x

/-! ## The global list -/

omit [DecidableEq θ] in
theorem freed_of_linked (h : SchedInv stray s l) (hq : q ∈ l) : s.freed q = false := by
  have hcount := count_pos_iff.mpr hq
  exact ((h.queue q).of_placed (by show 0 < l.count q + _; omega)).2

omit [DecidableEq θ] in
theorem of_holds (h : SchedInv stray s l) (hq : 0 < holds q (s.pc t)) :
    s.freed q = false ∧ q ∉ l ∧ s.born q = true := by
  have hle := le_threadSum (holds q) s.pc t
  have hplaced := (h.queue q).of_placed (by show 0 < l.count q + _; omega)
  have hone := (h.queue q).one
  refine ⟨hplaced.2, fun hmem => ?_, hplaced.1⟩
  have hcount := count_pos_iff.mpr hmem
  have hone' : l.count q + threadSum (holds q) s.pc ≤ 1 := hone
  omega

omit [DecidableEq ι] [DecidableEq θ] [Fintype θ] in
/-- `skynet_globalmq_push` of a queue that is not linked neither fails nor touches a freed
queue. -/
theorem globalPush_eq [DecidableEq ι] {k : SchedState θ ι δ → SchedState θ ι δ}
    (hrep : s.global.Represents l) (hq : q ∉ l) (hfreed : s.freed q = false)
    (hlinked : ∀ x ∈ l, s.freed x = false) :
    s.globalPush q k = k { s with global := s.global.push q } := by
  have htail : s.global.tail.any (fun last => s.freed last) = false := by
    rw [hrep.tail]
    cases hlast : l.getLast? with
    | none => rfl
    | some last => exact hlinked last (mem_of_getLast? hlast)
  unfold SchedState.globalPush skynetGlobalmqPush
  rw [if_neg (by simp [hfreed, htail]), if_pos (hrep.next_eq_none hq)]

theorem globalPush (h : SchedInv stray s l) (hw : LetsGo q pc' (s.pc t)) (hok : PcOk s pc') :
    ∃ l', SchedInv stray (s.globalPush q fun s => s.goto t pc') l' := by
  have hq := (hw q).1
  rw [if_pos rfl] at hq
  obtain ⟨hfreed, hmem, -⟩ := h.of_holds (t := t) (q := q) (by omega)
  refine ⟨l ++ [q], ?_⟩
  rw [globalPush_eq h.global hmem hfreed fun x hx => h.freed_of_linked hx]
  refine h.goto (r := { s with global := s.global.push q }) rfl (Later.refl s) (h.global.push hmem)
    h.table hok h.faultOk fun x => ?_
  have hsum := threadSum_update (holds x) s.pc t pc'
  obtain ⟨hx, hr, hd⟩ := hw x
  rw [threadSum_update_eq hr, threadSum_update_eq hd, count_append]
  have hcount : [q].count x = if q = x then 1 else 0 := by
    simp [count_singleton]
  have hplaced : l.count x + [q].count x + threadSum (holds x) (update s.pc t pc') =
      l.count x + threadSum (holds x) s.pc := by
    rw [hcount]
    omega
  rw [hplaced]
  exact h.queue x

theorem globalPop (h : SchedInv stray s l) {k : Option ι → SchedState θ ι δ → SchedState θ ι δ}
    (pcOf : Option ι → Pc ι δ) (hk : ∀ o s, k o s = s.goto t (pcOf o))
    (hw : ∀ o x, holds x (pcOf o) = holds x (s.pc t) + (if o = some x then 1 else 0) ∧
      refs x (pcOf o) = refs x (s.pc t) ∧ dels x (pcOf o) = dels x (s.pc t))
    (hok : ∀ o, PcOk s (pcOf o)) : ∃ l', SchedInv stray (s.globalPop k) l' := by
  have hhead : s.global.head.any (fun first => s.freed first) = false := by
    rw [h.global.head]
    cases l with
    | nil => rfl
    | cons q l => exact h.freed_of_linked (mem_cons_self)
  unfold SchedState.globalPop skynetGlobalmqPop
  rw [hhead]
  obtain ⟨rfl, hpop⟩ | ⟨q, l', g', rfl, hpop, hrep⟩ := h.global.pop
  · simp only [hpop, hk]
    exact ⟨[], h.move (fun x => by simpa using hw none x) (hok none)⟩
  · have htail : ¬ (g'.head = none ∧ s.global.tail ≠ some q) := by
      rintro ⟨hnil, hne⟩
      rw [hrep.head, head?_eq_none_iff] at hnil
      subst hnil
      exact hne h.global.tail
    simp only [hpop, if_neg htail, hk]
    refine ⟨l', h.goto (r := { s with global := g' }) rfl (Later.refl s) hrep h.table
      (hok (some q)) h.faultOk fun x => ?_⟩
    have hsum := threadSum_update (holds x) s.pc t (pcOf (some q))
    obtain ⟨hx, hr, hd⟩ := hw (some q) x
    rw [threadSum_update_eq hr, threadSum_update_eq hd]
    have hplaced : l'.count x + threadSum (holds x) (update s.pc t (pcOf (some q))) =
        (q :: l').count x + threadSum (holds x) s.pc := by
      rw [count_cons]
      simp only [Option.some.injEq] at hx
      by_cases hqx : q = x
      · simp only [hqx, if_true, beq_self_eq_true] at hx hsum ⊢
        omega
      · simp only [hqx, if_false, beq_iff_eq] at hx ⊢
        omega
    rw [hplaced]
    exact h.queue x

/-! ## References -/

variable {ctx : ι}

omit [DecidableEq θ] in
theorem tabled (h : SchedInv stray s l) {handle : ℕ} (htab : s.table handle = some ctx) :
    s.born ctx = true ∧ (s.mq ctx).handle = handle ∧
      (if s.table (s.mq ctx).handle = some ctx then 1 else 0) = 1 := by
  obtain ⟨hborn, hhandle⟩ := h.table handle ctx htab
  exact ⟨hborn, hhandle, by rw [hhandle, if_pos htab]⟩

omit [DecidableEq ι] [DecidableEq θ] [Fintype θ] in
theorem later_ref (ref : ι → ℤ) : Later s { s with ref := ref } :=
  fun _ hq => ⟨hq, rfl, fun hrel => ⟨hrel, id⟩⟩

theorem setRef (h : SchedInv stray s l) {ref : ℤ} (hok : PcOk s pc')
    (hh : ∀ x, holds x pc' = holds x (s.pc t))
    (hr : ∀ x, x ≠ ctx → refs x pc' = refs x (s.pc t))
    (hd : ∀ x, x ≠ ctx → dels x pc' = dels x (s.pc t))
    (hctx : QueueOk stray { queueData s ctx
      (l.count ctx + threadSum (holds ctx) s.pc)
      (threadSum (refs ctx) (update s.pc t pc'))
      (threadSum (dels ctx) (update s.pc t pc')) with ref := ref }) :
    SchedInv stray ({ s with ref := update s.ref ctx ref }.goto t pc') l := by
  have hlater := later_ref (s := s) (update s.ref ctx ref)
  refine h.goto (r := { s with ref := update s.ref ctx ref }) rfl hlater h.global h.table
    (hlater.pcOk hok) h.faultOk fun x => ?_
  rw [threadSum_update_eq (hh x)]
  by_cases hx : x = ctx
  · subst hx
    have hdata : queueData { s with ref := update s.ref x ref } x
        (l.count x + threadSum (holds x) s.pc) (threadSum (refs x) (update s.pc t pc'))
        (threadSum (dels x) (update s.pc t pc')) = { queueData s x
        (l.count x + threadSum (holds x) s.pc) (threadSum (refs x) (update s.pc t pc'))
        (threadSum (dels x) (update s.pc t pc')) with ref := ref } := by
      simp [queueData]
    rw [hdata]
    exact hctx
  · rw [threadSum_update_eq (hr x hx), threadSum_update_eq (hd x hx)]
    exact h.queue_of_eq (by simp [queueData, update_of_ne hx])

theorem grab (h : SchedInv stray s l) {handle : ℕ} (htab : s.table handle = some ctx)
    (hw : GetsRef ctx pc' (s.pc t)) (hok : PcOk s pc') :
    SchedInv stray ({ s with ref := update s.ref ctx (s.ref ctx + 1) }.goto t pc') l := by
  have hsum := threadSum_update (refs ctx) s.pc t pc'
  obtain ⟨-, hone, hd⟩ := hw ctx
  rw [if_pos rfl] at hone
  refine h.setRef hok (fun x => (hw x).1)
    (fun x hx => by rw [(hw x).2.1, if_neg (Ne.symm hx), Nat.add_zero]) (fun x _ => (hw x).2.2) ?_
  rw [threadSum_update_eq hd, show threadSum (refs ctx) (update s.pc t pc') =
    threadSum (refs ctx) s.pc + 1 by omega]
  exact (h.queue ctx).grab (h.tabled htab).2.2

theorem release (h : SchedInv stray s l) (hne : s.ref ctx ≠ 1) (hh : ∀ x, holds x pc' = holds x (s.pc t))
    (hr : ∀ x, refs x pc' + (if ctx = x then 1 else 0) = refs x (s.pc t))
    (hd : ∀ x, dels x pc' = dels x (s.pc t)) (hok : PcOk s pc') : SchedInv stray
    ({ s with ref := update s.ref ctx (s.ref ctx - 1) }.goto t pc') l := by
  have hsum := threadSum_update (refs ctx) s.pc t pc'
  have hone := hr ctx
  rw [if_pos rfl] at hone
  refine h.setRef hok hh (fun x hx => by rw [← hr x, if_neg (Ne.symm hx), Nat.add_zero])
    (fun x _ => hd x) ?_
  rw [threadSum_update_eq (hd ctx), show threadSum (refs ctx) (update s.pc t pc') =
    threadSum (refs ctx) s.pc - 1 by omega]
  exact (h.queue ctx).release (by show 0 < threadSum _ _; omega) hne

theorem releaseLast (h : SchedInv stray s l) (hone : s.ref ctx = 1)
    (hh : ∀ x, holds x pc' = holds x (s.pc t))
    (hr : ∀ x, refs x pc' + (if ctx = x then 1 else 0) = refs x (s.pc t))
    (hd : ∀ x, dels x pc' = dels x (s.pc t) + if ctx = x then 1 else 0) (hok : PcOk s pc') :
    SchedInv stray ({ s with ref := update s.ref ctx (s.ref ctx - 1) }.goto t pc') l := by
  have hsum := threadSum_update (refs ctx) s.pc t pc'
  have hdsum := threadSum_update (dels ctx) s.pc t pc'
  have hrone := hr ctx
  have hdone := hd ctx
  rw [if_pos rfl] at hrone hdone
  refine h.setRef hok hh (fun x hx => by rw [← hr x, if_neg (Ne.symm hx), Nat.add_zero])
    (fun x hx => by rw [hd x, if_neg (Ne.symm hx), Nat.add_zero]) ?_
  rw [show threadSum (refs ctx) (update s.pc t pc') = threadSum (refs ctx) s.pc - 1 by
    omega, show threadSum (dels ctx) (update s.pc t pc') =
    threadSum (dels ctx) s.pc + 1 by omega]
  exact (h.queue ctx).releaseLast (by show 0 < threadSum _ _; omega) hone

theorem retire (h : SchedInv stray s l) {handle : ℕ} (htab : s.table handle = some ctx)
    (hw : GetsRef ctx pc' (s.pc t)) (hok : PcOk s pc') :
    SchedInv stray ({ s with table := update s.table handle none }.goto t pc') l := by
  have hlater : Later s { s with table := update s.table handle none } :=
    fun _ hq => ⟨hq, rfl, fun hrel => ⟨hrel, id⟩⟩
  obtain ⟨hborn, hhandle, htabled⟩ := h.tabled htab
  have hstill : ∀ k c, update s.table handle none k = some c → s.table k = some c := by
    intro k c hk
    rw [update_apply] at hk
    split at hk
    · cases hk
    · exact hk
  refine h.goto (r := { s with table := update s.table handle none }) rfl hlater h.global
    (fun k c hk => h.table k c (hstill k c hk)) (hlater.pcOk hok) h.faultOk fun x => ?_
  obtain ⟨hh, hrx, hd⟩ := hw x
  rw [threadSum_update_eq hh, threadSum_update_eq hd]
  by_cases hx : x = ctx
  · subst hx
    have hsum := threadSum_update (refs x) s.pc t pc'
    rw [if_pos rfl] at hrx
    rw [show threadSum (refs x) (update s.pc t pc') = threadSum (refs x) s.pc + 1 by omega]
    have hdata := (h.queue x).retire htabled
    refine Eq.mp ?_ hdata
    simp [queueData, hhandle]
  · rw [if_neg (Ne.symm hx), Nat.add_zero] at hrx
    rw [threadSum_update_eq hrx]
    refine h.queue_of_eq ?_
    have hsame : update s.table handle none (s.mq x).handle = some x ↔
        s.table (s.mq x).handle = some x := by
      rw [update_apply]
      split
      · next heq =>
        rw [heq, htab]
        simp [Ne.symm hx]
      · exact Iff.rfl
    simp only [queueData, hsame]

/-! ## One queue -/

omit [DecidableEq ι] [DecidableEq θ] [Fintype θ] in
def OnlyQueue (s s' : SchedState θ ι δ) (q : ι) : Prop :=
  s'.pc = s.pc ∧ s'.table = s.table ∧ ∀ x, x ≠ q → s'.mq x = s.mq x ∧ s'.born x = s.born x ∧
    s'.freed x = s.freed x ∧ s'.ref x = s.ref x ∧ s'.pushed x = s.pushed x ∧
    s'.popped x = s.popped x ∧ s'.errors x = s.errors x

theorem setQueue {r : SchedState θ ι δ} (h : SchedInv stray s l) (hb : s.born q = true) (honly : OnlyQueue s r q) (hlater : Later s r)
    (hglobal : r.global.Represents l') (hfault : FaultOk r) (hok : PcOk s pc')
    (hcount : ∀ x, x ≠ q → l'.count x = l.count x)
    (hh : ∀ x, x ≠ q → holds x pc' = holds x (s.pc t))
    (hr : ∀ x, refs x pc' = refs x (s.pc t))
    (hd : ∀ x, x ≠ q → dels x pc' = dels x (s.pc t))
    (hq : QueueOk stray (queueData r q
      (l'.count q + threadSum (holds q) (update s.pc t pc'))
      (threadSum (refs q) s.pc) (threadSum (dels q) (update s.pc t pc')))) :
    SchedInv stray (r.goto t pc') l' := by
  obtain ⟨hpc, htable, hothers⟩ := honly
  refine h.goto hpc hlater hglobal (fun k c hk => ?_) (hlater.pcOk hok) hfault fun x => ?_
  · rw [htable] at hk
    obtain ⟨hborn, hhandle⟩ := h.table k c hk
    obtain ⟨hborn', hhandle', -⟩ := hlater c hborn
    exact ⟨hborn', hhandle'.trans hhandle⟩
  rw [threadSum_update_eq (hr x)]
  by_cases hx : x = q
  · subst hx
    exact hq
  · obtain ⟨hmq, hborn, hfreed, href, hpushed, hpopped, herrors⟩ := hothers x hx
    rw [threadSum_update_eq (hh x hx), threadSum_update_eq (hd x hx), hcount x hx]
    refine h.queue_of_eq ?_
    simp only [queueData, hmq, hborn, hfreed, href, hpushed, hpopped, herrors, htable]

omit [DecidableEq θ] [Fintype θ] in
/-- A new value of one queue that keeps its handle, its mark and, once marked, its
emptiness. -/
theorem later_setMq {m : MessageQueue δ} (hborn : s'.born = s.born)
    (hmq : s'.mq = update s.mq q m) (hhandle : m.handle = (s.mq q).handle)
    (hrel : (s.mq q).release = 1 → m.release = 1 ∧ (contents (s.mq q) = [] → contents m = [])) :
    Later s s' := by
  intro x hx
  rw [hborn, hmq]
  by_cases hxq : x = q
  · subst hxq
    rw [update_self]
    exact ⟨hx, hhandle, hrel⟩
  · rw [update_of_ne hxq]
    exact ⟨hx, rfl, fun hr => ⟨hr, id⟩⟩

omit [DecidableEq θ] in
theorem of_refs (h : SchedInv stray s l) {c : ι} (hc : 0 < refs c (s.pc t)) :
    s.born c = true ∧ 0 < s.ref c ∧ (s.mq c).release = 0 ∧ s.freed c = false ∧
      0 < threadSum (refs c) s.pc := by
  have hle := le_threadSum (refs c) s.pc t
  obtain ⟨hb, hpos, hrel, -, hfreed⟩ := (h.queue c).of_refs (by show 0 < threadSum _ _; omega)
  exact ⟨hb, hpos, hrel, hfreed, by omega⟩

omit [DecidableEq θ] in
theorem halt (h : SchedInv stray s l) {f : MqFault}
    (hf : f = .notInit ∨ f = .wrongContext ∨ f = .overflow) : SchedInv stray (s.halt f) l := by
  have hlater : Later s (s.halt f) := fun _ hq => ⟨hq, rfl, fun hrel => ⟨hrel, id⟩⟩
  refine ⟨h.global, h.table, h.queue, fun u => hlater.pcOk (h.pcOk u), fun f' hf' => ?_⟩
  obtain rfl := Option.some.inj hf'
  exact hf

/-- `skynet_mq_push` by a thread with a reference to the context. -/
theorem mqPush [Inhabited δ] (h : SchedInv stray s l) (m : SkynetMessage δ)
    (hq : 0 < refs q (s.pc t)) (hw : SameWork pc' (s.pc t)) (hok : PcOk s pc') :
    ∃ l', SchedInv stray (s.mqPush q m fun s => s.goto t pc') l' := by
  obtain ⟨hb, -, hrel, hfreed, hrefs⟩ := h.of_refs hq
  obtain ⟨hhandle, hrel', hin⟩ := mqStore_flags (s.mq q) m
  have hnotrel : (s.mq q).release = 1 → False := fun hone => by omega
  unfold SchedState.mqPush skynetMqPush
  dsimp only
  by_cases hcap : 2 ^ 31 ≤ (mqStore (s.mq q) m).cap
  · rw [if_pos hcap]
    exact ⟨l, h.halt (.inr (.inr rfl))⟩
  rw [if_neg hcap, hin]
  by_cases hzero : (s.mq q).inGlobal = 0
  · rw [if_pos hzero]
    dsimp only
    rw [if_pos rfl]
    obtain ⟨hplaced, hdata⟩ := (h.queue q).storeLink (by exact hrefs) m hzero
    have hplaced' : l.count q + threadSum (holds q) s.pc = 0 := hplaced
    have hmem : q ∉ l := count_eq_zero.mp (by omega)
    rw [globalPush_eq (l := l)]
    case hrep => exact h.global
    case hq => exact hmem
    case hfreed => exact hfreed
    case hlinked => exact fun x hx => h.freed_of_linked hx
    refine ⟨l ++ [q], h.setQueue hb ⟨rfl, rfl, fun x hx => ?_⟩
      (later_setMq (q := q) (m := { mqStore (s.mq q) m with inGlobal := mqInGlobal }) rfl ?_ hhandle
        fun hone => (hnotrel hone).elim)
      (h.global.push hmem) h.faultOk hok (fun x hx => ?_) (fun x _ => (hw x).1)
      (fun x => (hw x).2.1) (fun x _ => (hw x).2.2) ?_⟩
    · simp [setMq, update_of_ne hx]
    · simp [setMq]
    · simp [count_append, Ne.symm hx]
    · rw [threadSum_update_eq (hw q).1, threadSum_update_eq (hw q).2.2]
      refine Eq.mp ?_ hdata
      simp [queueData, setMq, hhandle, count_append, Nat.add_right_comm]
  · rw [if_neg hzero]
    dsimp only
    rw [if_neg Bool.false_ne_true]
    refine ⟨l, h.setQueue hb ⟨rfl, rfl, fun x hx => ?_⟩
      (later_setMq (q := q) (m := mqStore (s.mq q) m) rfl rfl hhandle fun hone => (hnotrel hone).elim)
      h.global h.faultOk hok (fun _ _ => rfl) (fun x _ => (hw x).1)
      (fun x => (hw x).2.1) (fun x _ => (hw x).2.2) ?_⟩
    · simp [setMq, update_of_ne hx]
    · rw [threadSum_update_eq (hw q).1, threadSum_update_eq (hw q).2.2]
      refine Eq.mp ?_ ((h.queue q).store (by exact hrefs) m hzero)
      simp [queueData, setMq, hhandle]

/-- `skynet_mq_mark_release` by the thread that deletes the context. -/
theorem markRelease (h : SchedInv stray s l) (hq : 0 < dels q (s.pc t))
    (hh : ∀ x, holds x pc' = holds x (s.pc t)) (hr : ∀ x, refs x pc' = refs x (s.pc t))
    (hd : ∀ x, dels x pc' + (if q = x then 1 else 0) = dels x (s.pc t)) (hok : PcOk s pc') :
    ∃ l', SchedInv stray (s.markRelease q fun s => s.goto t pc') l' := by
  have hle := le_threadSum (dels q) s.pc t
  have hdels : 0 < threadSum (dels q) s.pc := by omega
  obtain ⟨hb, -, hrel, -, hfreed⟩ := (h.queue q).of_dels (by exact hdels)
  have hsum := threadSum_update (dels q) s.pc t pc'
  have hone := hd q
  rw [if_pos rfl] at hone
  have hother : ∀ x, x ≠ q → dels x pc' = dels x (s.pc t) := fun x hx => by
    rw [← hd x, if_neg (Ne.symm hx), Nat.add_zero]
  have hless : threadSum (dels q) (update s.pc t pc') = threadSum (dels q) s.pc - 1 := by
    omega
  have hrel0 : (s.mq q).release = 0 := hrel
  have hnotrel : (s.mq q).release = 1 → False := fun hone => by omega
  unfold SchedState.markRelease
  rw [if_neg (not_not_intro hrel0)]
  split
  · next hin =>
    obtain ⟨hplaced, hdata⟩ := (h.queue q).markLink (by exact hdels) hin
    have hplaced' : l.count q + threadSum (holds q) s.pc = 0 := hplaced
    have hmem : q ∉ l := count_eq_zero.mp (by omega)
    rw [globalPush_eq (l := l)]
    case hrep => exact h.global
    case hq => exact hmem
    case hfreed => exact hfreed
    case hlinked => exact fun x hx => h.freed_of_linked hx
    refine ⟨l ++ [q], h.setQueue hb ⟨rfl, rfl, fun x hx => ?_⟩
      (later_setMq (q := q) (m := { s.mq q with release := 1 }) rfl rfl rfl
        fun hone => (hnotrel hone).elim)
      (h.global.push hmem) h.faultOk hok (fun x hx => ?_) (fun x _ => hh x) hr hother ?_⟩
    · simp [setMq, update_of_ne hx]
    · simp [count_append, Ne.symm hx]
    · rw [threadSum_update_eq (hh q), hless]
      refine Eq.mp ?_ hdata
      simp [queueData, setMq, count_append, Nat.add_right_comm]
  · next hin =>
    refine ⟨l, h.setQueue hb ⟨rfl, rfl, fun x hx => ?_⟩
      (later_setMq (q := q) (m := { s.mq q with release := 1 }) rfl rfl rfl
        fun hone => (hnotrel hone).elim)
      h.global h.faultOk hok (fun _ _ => rfl) (fun x _ => hh x) hr hother ?_⟩
    · simp [setMq, update_of_ne hx]
    · rw [threadSum_update_eq (hh q), hless]
      refine Eq.mp ?_ ((h.queue q).mark (by exact hdels) (not_not.mp hin))
      simp [queueData, setMq]

/-! ## The thread that holds a queue -/

omit [DecidableEq θ] in
theorem pop_later {o : Option (SkynetMessage δ)} {m : MessageQueue δ}
    (h : SchedInv stray s l) (hb : s.born q = true) (hm : skynetMqPop (s.mq q) = (o, m)) :
    m.handle = (s.mq q).handle ∧ ((s.mq q).release = 1 →
      m.release = 1 ∧ (contents (s.mq q) = [] → contents m = [])) := by
  obtain ⟨hhandle, hrel⟩ := skynetMqPop_flags (s.mq q)
  rw [hm] at hhandle hrel
  refine ⟨hhandle, fun hone => ⟨hrel.trans hone, fun hnil => ?_⟩⟩
  obtain ⟨-, -, -, hnil', -⟩ | ⟨m', -, hcont, -⟩ := skynetMqPop_spec ((h.queue q).mqOk hb)
  · rw [show (queueData s q _ _ _).mq = s.mq q from rfl, hm] at hnil'
    exact hnil'
  · rw [show (queueData s q _ _ _).mq = s.mq q from rfl, hnil] at hcont
    cases hcont

variable {mq : MessageQueue δ}

/-- The holder pops a message. -/
theorem pop (h : SchedInv stray s l) (hq : 0 < holds q (s.pc t)) {m : SkynetMessage δ}
    (hm : skynetMqPop (s.mq q) = (some m, mq)) {how : Popped θ}
    {errors : ι → List (ℕ × ℕ)}
    (herr : errors = update s.errors q
      (s.errors q ++ toldSources (s.mq q).handle [(m, how)]))
    (hw : SameWork pc' (s.pc t)) (hok : PcOk s pc') :
    SchedInv stray ({ (s.setMq q mq).recordPop q m how with errors := errors }.goto t pc') l := by
  obtain ⟨hfreed, hmem, hb⟩ := h.of_holds hq
  obtain ⟨hhandle, hrel⟩ := h.pop_later hb hm
  have hle := le_threadSum (holds q) s.pc t
  refine h.setQueue hb ⟨rfl, rfl, fun x hx => ?_⟩ (later_setMq (q := q) (m := mq) rfl rfl hhandle hrel)
    h.global h.faultOk hok (fun _ _ => rfl) (fun x _ => (hw x).1) (fun x => (hw x).2.1)
    (fun x _ => (hw x).2.2) ?_
  · simp [setMq, recordPop, herr, update_of_ne hx]
  · rw [threadSum_update_eq (hw q).1, threadSum_update_eq (hw q).2.2]
    refine Eq.mp ?_ ((h.queue q).pop (by show 0 < l.count q + _; omega) hm how rfl)
    simp [queueData, setMq, recordPop, herr, hhandle]

/-- The one that drops a queue finds it empty. -/
theorem popDropped (h : SchedInv stray s l) (hq : 0 < holds q (s.pc t)) (hrel : (s.mq q).release = 1)
    (hm : skynetMqPop (s.mq q) = (none, mq)) (hw : SameWork pc' (s.pc t)) (hok : PcOk s pc') :
    SchedInv stray ((s.setMq q mq).goto t pc') l := by
  obtain ⟨hfreed, hmem, hb⟩ := h.of_holds hq
  obtain ⟨hhandle, hrel'⟩ := h.pop_later hb hm
  have hle := le_threadSum (holds q) s.pc t
  refine h.setQueue hb ⟨rfl, rfl, fun x hx => ?_⟩ (later_setMq (q := q) (m := mq) rfl rfl hhandle hrel')
    h.global h.faultOk hok (fun _ _ => rfl) (fun x _ => (hw x).1) (fun x => (hw x).2.1)
    (fun x _ => (hw x).2.2) ?_
  · simp [setMq, update_of_ne hx]
  · rw [threadSum_update_eq (hw q).1, threadSum_update_eq (hw q).2.2]
    refine Eq.mp ?_ ((h.queue q).popDropped (by show 0 < l.count q + _; omega) hrel hm)
    simp [queueData, setMq, hhandle]

/-- A worker finds its queue empty and lets go of it. -/
theorem popIdle (h : SchedInv stray s l) (hre : (s.mq q).release = 1 → stray)
    (hm : skynetMqPop (s.mq q) = (none, mq)) (hw : LetsGo q pc' (s.pc t)) (hok : PcOk s pc') :
    SchedInv stray ((s.setMq q mq).goto t pc') l := by
  have hone := (hw q).1
  rw [if_pos rfl] at hone
  obtain ⟨hfreed, hmem, hb⟩ := h.of_holds (t := t) (q := q) (by omega)
  obtain ⟨hhandle, hrel'⟩ := h.pop_later hb hm
  have hsum := threadSum_update (holds q) s.pc t pc'
  refine h.setQueue hb ⟨rfl, rfl, fun x hx => ?_⟩ (later_setMq (q := q) (m := mq) rfl rfl hhandle hrel')
    h.global h.faultOk hok (fun _ _ => rfl) (fun x hx => ?_) (fun x => (hw x).2.1)
    (fun x _ => (hw x).2.2) ?_
  · simp [setMq, update_of_ne hx]
  · rw [← (hw x).1, if_neg (Ne.symm hx), Nat.add_zero]
  · rw [threadSum_update_eq (hw q).2.2, show l.count q + threadSum (holds q) (update s.pc t pc')
      = l.count q + threadSum (holds q) s.pc - 1 by omega]
    refine Eq.mp ?_ ((h.queue q).popIdle (by show 0 < l.count q + _; omega) hre hm)
    simp [queueData, setMq, hhandle]

/-- `_release` of an empty marked queue by its holder. -/
theorem free (h : SchedInv stray s l) (hrel : (s.mq q).release = 1) (hnil : contents (s.mq q) = [])
    (hw : LetsGo q pc' (s.pc t)) (hok : PcOk s pc') : SchedInv stray
    ({ s with freed := update s.freed q true }.goto t pc') l := by
  have hone := (hw q).1
  rw [if_pos rfl] at hone
  obtain ⟨hfreed, hmem, hb⟩ := h.of_holds (t := t) (q := q) (by omega)
  have hsum := threadSum_update (holds q) s.pc t pc'
  refine h.setQueue (r := { s with freed := update s.freed q true }) hb
    ⟨rfl, rfl, fun x hx => ?_⟩ (fun _ hx => ⟨hx, rfl, fun hrel => ⟨hrel, id⟩⟩)
    h.global h.faultOk hok (fun _ _ => rfl) (fun x hx => ?_) (fun x => (hw x).2.1)
    (fun x _ => (hw x).2.2) ?_
  · simp [update_of_ne hx]
  · rw [← (hw x).1, if_neg (Ne.symm hx), Nat.add_zero]
  · rw [threadSum_update_eq (hw q).2.2, show l.count q + threadSum (holds q) (update s.pc t pc')
      = l.count q + threadSum (holds q) s.pc - 1 by omega]
    refine Eq.mp ?_ ((h.queue q).free (by show 0 < l.count q + _; omega) hrel hnil)
    simp [queueData]

theorem overload (h : SchedInv stray s l) (hq : 0 < holds q (s.pc t)) (hw : SameWork pc' (s.pc t))
    (hok : PcOk s pc') : SchedInv stray ((s.setMq q (skynetMqOverload (s.mq q)).2).goto t pc') l := by
  obtain ⟨hfreed, hmem, hb⟩ := h.of_holds hq
  have hflags : (skynetMqOverload (s.mq q)).2.handle = (s.mq q).handle ∧
      (skynetMqOverload (s.mq q)).2.release = (s.mq q).release := by
    unfold skynetMqOverload
    split <;> exact ⟨rfl, rfl⟩
  refine h.setQueue hb ⟨rfl, rfl, fun x hx => ?_⟩
    (later_setMq (q := q) rfl rfl hflags.1 fun hone => ⟨hflags.2.trans hone, fun hnil => ?_⟩)
    h.global h.faultOk hok (fun _ _ => rfl) (fun x _ => (hw x).1) (fun x => (hw x).2.1)
    (fun x _ => (hw x).2.2) ?_
  · simp [setMq, update_of_ne hx]
  · rw [skynetMqOverload_contents, hnil]
  · rw [threadSum_update_eq (hw q).1, threadSum_update_eq (hw q).2.2]
    refine Eq.mp ?_ (h.queue q).overload
    simp [queueData, setMq, hflags.1]

end SchedInv

end Skynet.Analysis
