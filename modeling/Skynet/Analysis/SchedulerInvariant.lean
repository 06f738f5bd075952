import Skynet.Analysis.MessageQueueFifo
import Skynet.Model.Scheduler

/-!
# The invariant of the scheduler

A queue is linked in the global list or held by a thread, a context is referenced by the
handle table or by a thread, and a context whose last reference is gone waits in a
thread for its queue to be marked.  All three are counts: `holds`, `refs` and `dels`
weigh a control point, and the invariant of each queue is arithmetic on the sums over
the threads.  A step changes one thread and the counts of one or two queues.
-/

namespace Skynet.Analysis

open Library Model

variable {θ ι δ : Type} [DecidableEq ι]

/-! ## What a thread has in its hands -/

def contHolds (q : ι) : Cont ι → ℕ
  | .stop | .workerLoop none => 0
  | .workerLoop (some q') | .dropLoop q' _ _ | .created q' | .failRetire q' _
  | .failRelease q' _ => if q' = q then 1 else 0

/-- The times a thread holds the queue `q`: it will link it, drop it or dispatch from
it. -/
def holds (q : ι) : Pc ι δ → ℕ
  | .idle | .worker none => 0
  | .grabbing _ _ k | .pushing _ _ k | .releasing _ k | .deleting _ k | .retiring _ k =>
    contHolds q k
  | .worker (some q') | .mqRelease q' _ _ | .dropping q' _ _ | .freeing q' _
  | .popping q' _ _ _ | .measuring q' _ _ | .dispatching q' _ _ _ _ | .finishing q' _
  | .initing q' | .initialised q' | .linking q' => if q' = q then 1 else 0
  | .swapping q' nq _ => (if q' = q then 1 else 0) + if nq = q then 1 else 0

def refs (c : ι) : Pc ι δ → ℕ
  | .pushing ctx _ _ | .releasing ctx _ | .popping _ ctx _ _ | .measuring _ ctx _
  | .dispatching _ ctx _ _ _ | .finishing _ ctx | .swapping _ _ ctx | .initing ctx =>
    if ctx = c then 1 else 0
  | .idle | .grabbing _ _ _ | .deleting _ _ | .retiring _ _ | .worker _ | .mqRelease _ _ _
  | .dropping _ _ _ | .freeing _ _ | .initialised _ | .linking _ => 0

def dels (c : ι) : Pc ι δ → ℕ
  | .deleting ctx _ => if ctx = c then 1 else 0
  | _ => 0

/-! ## The invariant -/

def Reissued (s : SchedState θ ι δ) (q : ι) : Prop :=
  ∃ c, c ≠ q ∧ s.born c = true ∧ (s.mq c).handle = (s.mq q).handle

/-- No handle is issued again while a queue with it waits to be freed. -/
def HandlesApart (s : SchedState θ ι δ) : Prop :=
  ∀ q c, c ≠ q → s.born q = true → s.born c = true → (s.mq c).handle = (s.mq q).handle →
    s.freed q = true ∨ s.freed c = true

def toldSources (handle : ℕ) (popped : List (SkynetMessage δ × Popped θ)) : List (ℕ × ℕ) :=
  popped.filterMap fun m => match m.2 with
    | .dispatched _ => none
    | .dropped _ => if m.1.source = 0 then none else some (handle, m.1.source)

/-- All there is to a queue and its context: what the process stores of them, what is
recorded of the queue, the times it is linked or held, the times the handle table and
the threads refer to the context, and the threads that are deleting it. -/
structure QueueData (θ δ : Type) where
  mq : MessageQueue δ
  born : Bool
  freed : Bool
  ref : ℤ
  pushed : List (SkynetMessage δ)
  popped : List (SkynetMessage δ × Popped θ)
  errors : List (ℕ × ℕ)
  placed : ℕ
  tabled : ℕ
  refs : ℕ
  dels : ℕ

/-- The invariant of one queue; `stray` says that it may be in no place while it is to be
freed. -/
structure QueueOk (stray : Prop) (v : QueueData θ δ) : Prop where
  unborn : v.born = false → v.placed = 0 ∧ v.tabled = 0 ∧ v.refs = 0 ∧ v.dels = 0 ∧
    v.freed = false ∧ v.pushed = [] ∧ v.popped = [] ∧ v.errors = []
  mqOk : v.born = true → MqOk v.mq
  flags : v.born = true → v.mq.handle ≠ 0 ∧ v.mq.inGlobal ≤ 1 ∧ v.mq.release ≤ 1
  /-- No place for a queue with nothing to do. -/
  idle : v.born = true → v.mq.inGlobal = 0 → v.mq.release = 0 → v.placed = 0 ∧ contents v.mq = []
  /-- One place for a queue that may have something to do. -/
  busy : v.born = true → v.mq.inGlobal = 1 → v.mq.release = 0 → v.placed = 1
  one : v.placed ≤ 1
  freed : v.freed = true → v.mq.release = 1 ∧ v.placed = 0 ∧ contents v.mq = []
  /-- One place for a queue that is to be freed, unless a worker took the service with
  its handle for its owner and found it empty. -/
  marked : v.born = true → v.mq.release = 1 →
    v.freed = true ∨ v.placed = 1 ∨ (v.placed = 0 ∧ contents v.mq = [] ∧ stray)
  ref : v.born = true → v.ref = v.refs + v.tabled
  /-- The context is referenced, being deleted, or deleted and its queue marked. -/
  phase : v.born = true → v.dels + v.mq.release + (if 0 < v.ref then 1 else 0) = 1
  history : v.born = true → v.pushed = v.popped.map Prod.fst ++ contents v.mq
  told : v.born = true → v.errors = toldSources v.mq.handle v.popped

def ContOk (s : SchedState θ ι δ) : Cont ι → Prop
  | .dropLoop q handle _ =>
    s.born q = true ∧ handle = (s.mq q).handle ∧ (s.mq q).release = 1
  | .failRetire q handle | .failRelease q handle =>
    s.born q = true ∧ handle = (s.mq q).handle
  | .stop | .workerLoop _ | .created _ => True

def PcOk (s : SchedState θ ι δ) : Pc ι δ → Prop
  | .grabbing _ _ k | .pushing _ _ k | .releasing _ k | .deleting _ k | .retiring _ k =>
    ContOk s k
  | .mqRelease q handle _ => s.born q = true ∧ handle = (s.mq q).handle
  | .dropping q handle _ => s.born q = true ∧ handle = (s.mq q).handle ∧ (s.mq q).release = 1
  | .freeing q _ => s.born q = true ∧ (s.mq q).release = 1 ∧ contents (s.mq q) = []
  | .popping q ctx _ _ | .measuring q ctx _ | .dispatching q ctx _ _ _ | .finishing q ctx
  | .swapping q _ ctx =>
    s.born q = true ∧ s.born ctx = true ∧ (s.mq ctx).handle = (s.mq q).handle
  | .idle | .worker _ | .initing _ | .initialised _ | .linking _ => True

/-- The faults that are not excluded: a worker that took the service with the handle of
the queue for the queue's owner, and a queue that has outgrown its capacity. -/
def FaultOk (s : SchedState θ ι δ) : Prop :=
  ∀ f, s.fault = some f → f = .notInit ∨ f = .wrongContext ∨ f = .overflow

def queueData (s : SchedState θ ι δ) (q : ι) (placed refs dels : ℕ) : QueueData θ δ where
  mq := s.mq q
  born := s.born q
  freed := s.freed q
  ref := s.ref q
  pushed := s.pushed q
  popped := s.popped q
  errors := s.errors q
  placed := placed
  tabled := if s.table (s.mq q).handle = some q then 1 else 0
  refs := refs
  dels := dels

variable [Fintype θ]

/-- The invariant of a state whose global list is `l`; `stray` says that a marked queue may
be in no place, where a worker took the owner of its handle for the queue's own. -/
structure SchedInv (stray : Prop) (s : SchedState θ ι δ) (l : List ι) : Prop where
  global : s.global.Represents l
  table : ∀ h c, s.table h = some c → s.born c = true ∧ (s.mq c).handle = h
  queue : ∀ q, QueueOk stray (queueData s q (l.count q + threadSum (holds q) s.pc)
    (threadSum (refs q) s.pc) (threadSum (dels q) s.pc))
  pcOk : ∀ t, PcOk s (s.pc t)
  faultOk : FaultOk s

/-! ## Frames -/

omit [Fintype θ] [DecidableEq ι]

/-- What never changes for the worse: services stay born under their handle, marks stay,
and marked queues that are empty stay empty. -/
def Later (s s' : SchedState θ ι δ) : Prop :=
  ∀ q, s.born q = true → s'.born q = true ∧ (s'.mq q).handle = (s.mq q).handle ∧
    ((s.mq q).release = 1 → (s'.mq q).release = 1 ∧
      (contents (s.mq q) = [] → contents (s'.mq q) = []))

theorem Later.refl (s : SchedState θ ι δ) : Later s s :=
  fun _ hq => ⟨hq, rfl, fun hrel => ⟨hrel, id⟩⟩

variable {s s' : SchedState θ ι δ}

theorem Later.contOk (h : Later s s') {k : Cont ι} (hk : ContOk s k) : ContOk s' k := by
  cases k with
  | dropLoop q handle by_ =>
    obtain ⟨hborn, hhandle, hrel⟩ := hk
    obtain ⟨hborn', hhandle', hrel'⟩ := h q hborn
    exact ⟨hborn', hhandle.trans hhandle'.symm, (hrel' hrel).1⟩
  | failRetire q handle | failRelease q handle =>
    obtain ⟨hborn, hhandle⟩ := hk
    obtain ⟨hborn', hhandle', -⟩ := h q hborn
    exact ⟨hborn', hhandle.trans hhandle'.symm⟩
  | stop | workerLoop | created => trivial

theorem Later.pcOk (h : Later s s') {pc : Pc ι δ} (hpc : PcOk s pc) : PcOk s' pc := by
  cases pc with
  | grabbing | pushing | releasing | deleting | retiring => exact h.contOk hpc
  | mqRelease q handle by_ =>
    obtain ⟨hborn, hhandle⟩ := hpc
    obtain ⟨hborn', hhandle', -⟩ := h q hborn
    exact ⟨hborn', hhandle.trans hhandle'.symm⟩
  | dropping q handle by_ =>
    obtain ⟨hborn, hhandle, hrel⟩ := hpc
    obtain ⟨hborn', hhandle', hrel'⟩ := h q hborn
    exact ⟨hborn', hhandle.trans hhandle'.symm, (hrel' hrel).1⟩
  | freeing q by_ =>
    obtain ⟨hborn, hrel, hnil⟩ := hpc
    obtain ⟨hborn', -, hrel'⟩ := h q hborn
    exact ⟨hborn', (hrel' hrel).1, (hrel' hrel).2 hnil⟩
  | popping q ctx | measuring q ctx | dispatching q ctx | finishing q ctx | swapping q _ ctx =>
    obtain ⟨hq, hctx, hhandle⟩ := hpc
    obtain ⟨hq', hhandleq, -⟩ := h q hq
    obtain ⟨hctx', hhandlec, -⟩ := h ctx hctx
    exact ⟨hq', hctx', by rw [hhandlec, hhandleq, hhandle]⟩
  | idle | worker | initing | initialised | linking => trivial

end Skynet.Analysis
