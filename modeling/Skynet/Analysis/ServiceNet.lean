import Skynet.Analysis.ServiceMgr

/-!
# Global launches and queries that came first

A manager forwards the first request for a global name and lets the later ones wait for the
answer.  When that first request is a query, a launch that comes behind it is never
forwarded: the query waits at `SERVICE` for a launch that waits for the query.
-/

namespace Skynet.Analysis

open Library Model ServiceMgr List Or

variable {chunk : LuaString} {m m' : ServiceMgr} {co node : ℕ} {name : LuaString}
  {net net' : ServiceNet}

/-! ## What is to hold -/

def globalName : MgrCommand → Option LuaString
  | .glaunch name args => (remoteName name args).toOption
  | .gquery name args => (remoteName name args).toOption
  | _ => none

def isLaunch : MgrCommand → Bool
  | .glaunch .. => true
  | _ => false

def LaunchWaits (net : ServiceNet) (node co : ℕ) (name : LuaString) : Prop :=
  (∃ req, (net.slaves node).requests[co]? = some req ∧ isLaunch req.command = true ∧
    globalName req.command = some name) ∧ (net.slaves node).threads.get co ≠ none

/-- `SERVICE` has started a launch of the name, or a request to launch it is on its way
there. -/
def LaunchUnderWay (net : ServiceNet) (name : LuaString) : Prop :=
  (∃ co, .started name co ∈ net.master.log) ∨
    ∃ call ∈ net.calls, ∃ func, target true call.command = .ok (name, some func)

def LaunchesForwarded (net : ServiceNet) : Prop :=
  ∀ node co name, LaunchWaits net node co name → LaunchUnderWay net name

/-- The request that a node has forwarded for a name, and that has no answer yet, is a
query. -/
def queryForwarded (m : ServiceMgr) (name : LuaString) : Bool :=
  match m.service.get name with
  | some (.pending (some w) _) => m.requests[w.co]?.any fun req => !isLaunch req.command
  | _ => false

def NoLaunchBehindQuery (net : ServiceNet) : NetEvent → Prop
  | .slaveRequest node req => isLaunch req.command = true →
      (globalName req.command).all (fun name => !queryForwarded (net.slaves node) name) = true
  | _ => True

instance : ∀ net e, Decidable (NoLaunchBehindQuery net e)
  | _, .slaveRequest .. => inferInstanceAs (Decidable (_ → _))
  | _, .masterRequest .. | _, .arrive .. | _, .answer .. | _, .launched ..
  | _, .resumeMaster .. | _, .resumeSlave .. => .isTrue trivial

/-! ## What a step of a manager does -/

/-- What `waitfor` leaves of a manager for the coroutine `co`: it has ended at an entry that
is final, or waits, or has started a launch. -/
inductive WaitedFor (m : ServiceMgr) (co : ℕ) (name : LuaString) (func : Option LaunchFunc)
    (m' : ServiceMgr) : Prop
  | ended (entry : ServiceEntry) (hentry : m.service.get name = some entry)
    (hfinal : ∀ launch waiting, entry ≠ .pending launch waiting)
    (hservice : m'.service = m.service) (hthreads : m'.threads = m.threads.put co none)
    (hlog : m'.log = m.log)
  | waits (launch : Option Waiter) (waiting : List Waiter)
    (hentry : m.service.get name = some (.pending launch waiting) ∨
      m.service.get name = none ∧ launch = none ∧ waiting = [])
    (hfunc : launch = none → func = none) (self : Waiter)
    (hservice : m'.service = m.service.put name (some (.pending launch (waiting ++ [self]))))
    (hthreads : m'.threads = m.threads.put co (some (.waiting name))) (hlog : m'.log = m.log)
  | starts (waiting : List Waiter) (self : Waiter) (hself : self.co = co) (f : LaunchFunc)
    (hfunc : func = some f)
    (hservice : m'.service = m.service.put name (some (.pending (some self) waiting)))
    (hthreads : m'.threads = m.threads.put co (some (.launching name f)))
    (hlog : m'.log = m.log ++ [.started name co])

theorem waitfor_cases (m : ServiceMgr) (co : ℕ) (name : LuaString) (func : Option LaunchFunc) :
    (m.waitfor chunk co name func).requests = m.requests ∧
      WaitedFor m co name func (m.waitfor chunk co name func) := by
  unfold ServiceMgr.waitfor
  split
  · next h hentry => exact ⟨rfl, .ended _ hentry nofun rfl rfl rfl⟩
  · next err hentry => exact ⟨rfl, .ended _ hentry nofun rfl rfl rfl⟩
  · next launch waiting hentry =>
    dsimp only
    split
    · exact ⟨rfl, .starts waiting _ rfl _ rfl rfl rfl rfl⟩
    · next hnot =>
      refine ⟨rfl, .waits launch waiting (.inl hentry) (fun hnone => ?_) _ rfl rfl rfl⟩
      cases func with
      | none => rfl
      | some f => exact (hnot f hnone rfl).elim
  · next hentry =>
    cases func with
    | none => exact ⟨rfl, .waits none [] (.inr ⟨hentry, rfl, rfl⟩) (fun _ => rfl) _ rfl rfl rfl⟩
    | some f => exact ⟨rfl, .starts [] _ rfl f rfl rfl rfl rfl⟩

/-- The launching call of a coroutine ends: so does the coroutine, the entry of its name is
final or gone, and coroutines are woken. -/
theorem request_effect {result : LaunchResult} (h : m.request chunk co result = some m') :
    ∃ name func, m.threads.get co = some (.launching name func) ∧ m'.requests = m.requests ∧
      m.log ⊆ m'.log ∧ (∀ other ≠ name, m'.service.get other = m.service.get other) ∧
      (∀ launch waiting, m'.service.get name ≠ some (.pending launch waiting)) ∧
      ∀ j, m'.threads.get j = (if j = co then none else m.threads.get j) ∨
        j ≠ co ∧ ∃ n, m.threads.get j = some (.waiting n) ∧ m'.threads.get j = some (.woken n) := by
  unfold ServiceMgr.request at h
  split at h
  case h_2 => nomatch h
  case h_1 name func hlaunching =>
    refine ⟨name, func, hlaunching, ?_⟩
    split at h
    · next launch waiting hentry =>
      simp only [Option.some.injEq] at h
      obtain ⟨threads, hthreads, hget⟩ := foldl_wakeup (waiting.map (·.co)) { m with
        service := m.service.put name (entryAfter result)
        log := m.log ++ [.ended name co result (m.threads.keysOf (.waiting name))] }
      have hm' : ∃ reply, m' = ServiceMgr.ret { m with
          service := m.service.put name (entryAfter result)
          threads := threads
          log := m.log ++ [.ended name co result (m.threads.keysOf (.waiting name))] }
            co reply := by
        rw [← h]
        cases result with
        | raised err => exact ⟨_, by rw [← hthreads]; rfl⟩
        | returned handle => exact ⟨_, by rw [← hthreads]; rfl⟩
      obtain ⟨reply, rfl⟩ := hm'
      refine ⟨rfl, by simp [ServiceMgr.ret], ?_, ?_, ?_⟩
      · intro other hother
        simp [ServiceMgr.ret, Table.get_put, hother]
      · cases result with
        | raised err => simp [ServiceMgr.ret, entryAfter]
        | returned handle => cases handle <;> simp [ServiceMgr.ret, entryAfter]
      · intro j
        simp only [ServiceMgr.ret, Table.get_put]
        by_cases hj : j = co
        · simp [hj]
        · simp only [hj, ↓reduceIte, hget]
          split
          · cases hthread : m.threads.get j with
            | none => simp [wakened]
            | some thread => cases thread <;> simp [wakened, hj]
          · exact inl rfl
    · next hentry =>
      rw [← Option.some.inj h]
      refine ⟨rfl, by simp [ServiceMgr.ret], fun _ _ => rfl, hentry, fun j => inl ?_⟩
      simp [ServiceMgr.ret, Table.get_put]

theorem resume_effect (h : m.resume chunk co = some m') :
    (∃ name, m.threads.get co = some (.woken name)) ∧ m'.requests = m.requests ∧
      m'.log = m.log ∧ m'.service = m.service ∧ m'.threads = m.threads.put co none := by
  unfold ServiceMgr.resume at h
  split at h
  case h_2 => nomatch h
  case h_1 name hwoken =>
    refine ⟨⟨name, hwoken⟩, ?_⟩
    split at h <;> exact Option.some.inj h ▸ ⟨rfl, rfl, rfl, rfl⟩

theorem dispatch_error (chunk : LuaString) (m : ServiceMgr) {standalone : Bool} {req : MgrRequest} {e : ConcatError}
    (h : target standalone req.command = .error e) :
    (m.dispatch chunk standalone req).requests = m.requests ++ [req] ∧
      (m.dispatch chunk standalone req).log = m.log ∧
      (m.dispatch chunk standalone req).service = m.service ∧
      (m.dispatch chunk standalone req).threads = m.threads.put m.requests.length none := by
  unfold ServiceMgr.dispatch
  rw [h]
  exact ⟨rfl, rfl, rfl, rfl⟩

theorem dispatch_ok (chunk : LuaString) (m : ServiceMgr) {standalone : Bool} {req : MgrRequest} {func : Option LaunchFunc}
    (h : target standalone req.command = .ok (name, func)) :
    (m.dispatch chunk standalone req).requests = m.requests ++ [req] ∧
      WaitedFor m m.requests.length name func (m.dispatch chunk standalone req) := by
  have hwaitfor := @waitfor_cases chunk { m with requests := m.requests ++ [req] }
    m.requests.length name func
  unfold ServiceMgr.dispatch
  rw [h]
  refine ⟨hwaitfor.1, ?_⟩
  cases hwaitfor.2 with
  | ended entry hentry hfinal hservice hthreads hlog =>
    exact .ended entry hentry hfinal hservice hthreads hlog
  | waits launch waiting hentry hfunc self hservice hthreads hlog =>
    exact .waits launch waiting hentry hfunc self hservice hthreads hlog
  | starts waiting self hself f hfunc hservice hthreads hlog =>
    exact .starts waiting self hself f hfunc hservice hthreads hlog

/-- What a node makes of a global request: the call that it would forward has the same name
at `SERVICE`, and launches there what it is to launch. -/
theorem target_global {command : MgrCommand} (h : command.isGlobal = true) :
    (∃ e, target false command = .error e ∧ globalName command = none) ∨
      ∃ name call, target false command = .ok (name, some (.callService call)) ∧
        globalName command = some name ∧
        (isLaunch command = true → ∃ func, target true call = .ok (name, some func)) := by
  cases command with
  | launch => nomatch h
  | query => nomatch h
  | glaunch name args =>
    cases hname : remoteName name args with
    | error e => exact inl ⟨e, by simp [target, hname, Except.map], by simp [globalName, hname]; rfl⟩
    | ok key =>
      refine inr ⟨key, .launch ('@' :: name) args, ?_, ?_, fun _ => ?_⟩
      · simp [target, hname, Except.map]
      · simp [globalName, hname]
        rfl
      · have hlocal : localName 82 ('@' :: name) args = .ok key := by
          unfold remoteName at hname
          unfold localName readName
          split at hname
          · next hsnaxd =>
            cases args with
            | nil => nomatch hname
            | cons subname args => simpa [hsnaxd] using hname
          · next hsnaxd => simpa [hsnaxd] using hname
        exact ⟨launchFunc ('@' :: name) args, by simp [target, hlocal, Except.map]⟩
  | gquery name args =>
    cases hname : remoteName name args with
    | error e => exact inl ⟨e, by simp [target, hname, Except.map], by simp [globalName, hname]; rfl⟩
    | ok key =>
      refine inr ⟨key, .query ('@' :: name) args, ?_, ?_, nofun⟩
      · simp [target, hname, Except.map]
      · simp [globalName, hname]
        rfl

/-! ## The nodes -/

/-- A node that gets global requests only: the forwarded request of a name is under way,
and each coroutine is busy with the name of its request. -/
structure SlaveOk (m : ServiceMgr) : Prop where
  known : ∀ co, m.requests.length ≤ co → m.threads.get co = none
  launch : ∀ name launch waiting, m.service.get name = some (.pending launch waiting) →
    ∃ w func, launch = some w ∧ m.threads.get w.co = some (.launching name func)
  named : ∀ co name func, m.threads.get co = some (.launching name func) →
    ∃ req, m.requests[co]? = some req ∧ globalName req.command = some name

namespace SlaveOk

theorem init : SlaveOk .init := by
  constructor <;> simp [ServiceMgr.init]

theorem request {result : LaunchResult} (h : SlaveOk m)
    (hstep : m.request chunk co result = some m') : SlaveOk m' := by
  obtain ⟨name, func, hco, hrequests, -, hother, hfinal, hthreads⟩ := request_effect hstep
  constructor
  case known =>
    intro j hj
    rw [hrequests] at hj
    grind [h.known j hj]
  case launch =>
    intro other launch waiting hentry
    have hne : other ≠ name := fun heq => hfinal launch waiting (heq ▸ hentry)
    rw [hother other hne] at hentry
    obtain ⟨w, f, hw, hwco⟩ := h.launch other launch waiting hentry
    exact ⟨w, f, hw, by grind⟩
  case named =>
    intro j other f hj
    rw [hrequests]
    exact h.named j other f (by grind)

theorem resume (h : SlaveOk m) (hstep : m.resume chunk co = some m') : SlaveOk m' := by
  obtain ⟨⟨name, hwoken⟩, hrequests, -, hservice, hthreads⟩ := resume_effect hstep
  constructor
  case known => grind [h.known]
  case launch =>
    rw [hservice]
    intro other launch waiting hentry
    obtain ⟨w, f, hw, hwco⟩ := h.launch other launch waiting hentry
    exact ⟨w, f, hw, by grind⟩
  case named =>
    rw [hrequests]
    intro j other f hj
    exact h.named j other f (by grind)

theorem dispatch (chunk : LuaString) {req : MgrRequest} (h : SlaveOk m)
    (hglobal : req.command.isGlobal = true) : SlaveOk (m.dispatch chunk false req) := by
  have hfresh : m.threads.get m.requests.length = none := h.known _ (le_refl _)
  rcases target_global hglobal with ⟨e, htarget, -⟩ | ⟨name, call, htarget, hname, -⟩
  · obtain ⟨hrequests, -, hservice, hthreads⟩ := dispatch_error chunk m htarget
    constructor
    case known => grind [h.known]
    case launch =>
      rw [hservice]
      intro other launch waiting hentry
      obtain ⟨w, f, hw, hwco⟩ := h.launch other launch waiting hentry
      exact ⟨w, f, hw, by grind⟩
    case named =>
      intro j other f hj
      obtain ⟨r, hr, hother⟩ := h.named j other f (by grind)
      exact ⟨r, by grind, hother⟩
  · obtain ⟨hrequests, hcases⟩ := dispatch_ok chunk m htarget
    -- the coroutines that were there go on as before
    have hold : ∀ j other f, j ≠ m.requests.length → m.threads.get j = some (.launching other f) →
        ∃ r, (m.requests ++ [req])[j]? = some r ∧ globalName r.command = some other := by
      intro j other f hne hj
      obtain ⟨r, hr, hother⟩ := h.named j other f hj
      exact ⟨r, by grind, hother⟩
    cases hcases with
    | ended entry hentry hfinal hservice hthreads hlog =>
      constructor
      case known => grind [h.known]
      case launch =>
        rw [hservice]
        intro other launch waiting hother
        obtain ⟨w, f, hw, hwco⟩ := h.launch other launch waiting hother
        exact ⟨w, f, hw, by grind⟩
      case named =>
        rw [hrequests]
        intro j other f hj
        exact hold j other f (by grind) (by grind)
    | waits launch waiting hentry hfunc self hservice hthreads hlog =>
      have hsome : launch ≠ none := fun hnone => nomatch hfunc hnone
      have hpending : m.service.get name = some (.pending launch waiting) :=
        hentry.resolve_right fun hnone => hsome hnone.2.1
      constructor
      case known => grind [h.known]
      case launch =>
        rw [hservice]
        intro other l w hother
        rw [Table.get_put] at hother
        split at hother
        · obtain ⟨x, f, hx, hxco⟩ := h.launch name launch waiting hpending
          exact ⟨x, f, by grind, by grind⟩
        · obtain ⟨x, f, hx, hxco⟩ := h.launch other l w hother
          exact ⟨x, f, hx, by grind⟩
      case named =>
        rw [hrequests]
        intro j other f hj
        exact hold j other f (by grind) (by grind)
    | starts waiting self hself f hfunc hservice hthreads hlog =>
      constructor
      case known => grind [h.known]
      case launch =>
        rw [hservice]
        intro other l w hother
        rw [Table.get_put] at hother
        split at hother
        · exact ⟨self, f, by grind, by grind⟩
        · obtain ⟨x, g, hx, hxco⟩ := h.launch other l w hother
          exact ⟨x, g, hx, by grind⟩
      case named =>
        rw [hrequests]
        intro j other g hj
        by_cases hne : j = m.requests.length
        · exact ⟨req, by grind, by grind⟩
        · exact hold j other g hne (by grind)

end SlaveOk

/-! ## The manager `SERVICE` -/

structure MasterOk (m : ServiceMgr) : Prop where
  entered : ∀ name entry, m.service.get name = some entry →
    (∀ waiting, entry ≠ .pending none waiting) → ∃ co, .started name co ∈ m.log
  launching : ∀ co name func, m.threads.get co = some (.launching name func) →
    ∃ co, .started name co ∈ m.log

namespace MasterOk

theorem init : MasterOk .init := by
  constructor <;> simp [ServiceMgr.init]

theorem request {result : LaunchResult} (h : MasterOk m)
    (hstep : m.request chunk co result = some m') : MasterOk m' := by
  obtain ⟨name, func, hco, -, hlog, hother, -, hthreads⟩ := request_effect hstep
  constructor
  case entered =>
    intro other entry hentry hmore
    by_cases hne : other = name
    · obtain ⟨c, hc⟩ := h.launching co name func hco
      exact ⟨c, hne ▸ hlog hc⟩
    · obtain ⟨c, hc⟩ := h.entered other entry (hother other hne ▸ hentry) hmore
      exact ⟨c, hlog hc⟩
  case launching =>
    intro j other f hj
    obtain ⟨c, hc⟩ := h.launching j other f (by grind)
    exact ⟨c, hlog hc⟩

theorem resume (h : MasterOk m) (hstep : m.resume chunk co = some m') : MasterOk m' := by
  obtain ⟨-, -, hlog, hservice, hthreads⟩ := resume_effect hstep
  constructor
  case entered =>
    rw [hlog, hservice]
    exact h.entered
  case launching =>
    rw [hlog]
    intro j other f hj
    exact h.launching j other f (by grind)

theorem dispatch (chunk : LuaString) (standalone : Bool) (req : MgrRequest) (h : MasterOk m) :
    MasterOk (m.dispatch chunk standalone req) ∧ m.log ⊆ (m.dispatch chunk standalone req).log ∧
      ∀ name func, target standalone req.command = .ok (name, some func) →
        ∃ co, .started name co ∈ (m.dispatch chunk standalone req).log := by
  cases htarget : target standalone req.command with
  | error e =>
    obtain ⟨-, hlog, hservice, hthreads⟩ := dispatch_error chunk m htarget
    refine ⟨⟨?_, ?_⟩, by rw [hlog]; exact Subset.refl _, nofun⟩
    · rw [hlog, hservice]
      exact h.entered
    · rw [hlog]
      intro j other f hj
      exact h.launching j other f (by grind)
  | ok target =>
    obtain ⟨name, func⟩ := target
    obtain ⟨-, hcases⟩ := dispatch_ok chunk m htarget
    cases hcases with
    | ended entry hentry hfinal hservice hthreads hlog =>
      refine ⟨⟨?_, ?_⟩, by rw [hlog]; exact Subset.refl _, ?_⟩
      · rw [hlog, hservice]
        exact h.entered
      · rw [hlog]
        intro j other f hj
        exact h.launching j other f (by grind)
      · rintro _ _ ⟨rfl, rfl⟩
        rw [hlog]
        exact h.entered name entry hentry fun waiting => hfinal none waiting
    | waits launch waiting hentry hfunc self hservice hthreads hlog =>
      have hlaunched : launch ≠ none → ∃ co, .started name co ∈ m.log := fun hsome =>
        h.entered name _ (hentry.resolve_right fun hnone => hsome hnone.2.1) (by simp [hsome])
      refine ⟨⟨?_, ?_⟩, by rw [hlog]; exact Subset.refl _, ?_⟩
      · rw [hlog, hservice]
        intro other entry hget hmore
        rw [Table.get_put] at hget
        split at hget
        · next heq =>
          subst heq
          exact hlaunched fun hnone => hmore (waiting ++ [self]) (by grind)
        · exact h.entered other entry hget hmore
      · rw [hlog]
        intro j other f hj
        exact h.launching j other f (by grind)
      · rintro _ _ ⟨rfl, rfl⟩
        rw [hlog]
        exact hlaunched fun hnone => nomatch hfunc hnone
    | starts waiting self hself f hfunc hservice hthreads hlog =>
      have hstarted : ∃ co, .started name co ∈ (m.dispatch chunk standalone req).log :=
        ⟨_, by rw [hlog]; exact mem_append_right _ (mem_singleton.mpr rfl)⟩
      have hgrows : m.log ⊆ (m.dispatch chunk standalone req).log := by
        rw [hlog]
        exact subset_append_left _ _
      refine ⟨⟨?_, ?_⟩, hgrows, ?_⟩
      · rw [hservice]
        intro other entry hget hmore
        rw [Table.get_put] at hget
        split at hget
        · next heq => exact heq ▸ hstarted
        · obtain ⟨c, hc⟩ := h.entered other entry hget hmore
          exact ⟨c, hgrows hc⟩
      · intro j other g hj
        by_cases hj' : j = m.requests.length
        · have heq : other = name := by grind
          exact heq ▸ hstarted
        · obtain ⟨c, hc⟩ := h.launching j other g (by grind)
          exact ⟨c, hgrows hc⟩
      · rintro _ _ ⟨rfl, -⟩
        exact hstarted

end MasterOk

/-! ## Runs -/

structure NetOk (net : ServiceNet) : Prop where
  master : MasterOk net.master
  slaves : ∀ node, SlaveOk (net.slaves node)
  forwarded : LaunchesForwarded net

theorem LaunchUnderWay.mono (h : LaunchUnderWay net name) (hlog : net.master.log ⊆ net'.master.log)
    (hcalls : ∀ call ∈ net.calls, call ∈ net'.calls ∨
      ∀ name func, target true call.command = .ok (name, some func) →
        ∃ co, .started name co ∈ net'.master.log) : LaunchUnderWay net' name := by
  rcases h with ⟨co, hco⟩ | ⟨call, hcall, func, hfunc⟩
  · exact inl ⟨co, hlog hco⟩
  · rcases hcalls call hcall with hstill | hstarted
    · exact inr ⟨call, hstill, func, hfunc⟩
    · exact inl (hstarted name func hfunc)

theorem LaunchWaits.back {slaves : ℕ → ServiceMgr}
    (hrequests : ∀ i, (net'.slaves i).requests = (slaves i).requests)
    (hthreads : ∀ i j, (slaves i).threads.get j = none → (net'.slaves i).threads.get j = none)
    (hslaves : net.slaves = slaves) (h : LaunchWaits net' node co name) :
    LaunchWaits net node co name := by
  subst hslaves
  obtain ⟨hreq, hthread⟩ := h
  exact ⟨hrequests node ▸ hreq, fun hnone => hthread (hthreads node co hnone)⟩

namespace NetOk

theorem init : NetOk .init where
  master := .init
  slaves _ := .init
  forwarded node co name h := by
    obtain ⟨⟨req, hreq, -⟩, -⟩ := h
    simp [ServiceNet.init, ServiceMgr.init] at hreq

theorem putMaster (h : NetOk net) (hm : MasterOk m) (hlog : net.master.log ⊆ m.log) :
    NetOk { net with master := m } where
  master := hm
  slaves := h.slaves
  forwarded node co name hwaits :=
    (h.forwarded node co name hwaits).mono hlog fun _ hcall => inl hcall

theorem putSlave (h : NetOk net) (hm : SlaveOk m)
    (hrequests : m.requests = (net.slaves node).requests)
    (hthreads : ∀ j, (net.slaves node).threads.get j = none → m.threads.get j = none) :
    NetOk (net.putSlave node m) where
  master := h.master
  slaves i := by
    unfold ServiceNet.putSlave
    dsimp only
    split
    · exact hm
    · exact h.slaves i
  forwarded i co name hwaits := by
    have hback : LaunchWaits net i co name := by
      refine hwaits.back (fun k => ?_) (fun k j hnone => ?_) rfl
      · unfold ServiceNet.putSlave
        grind
      · unfold ServiceNet.putSlave
        grind
    exact h.forwarded i co name hback

theorem slaveRequest {req : MgrRequest} (h : NetOk net) (hglobal : req.command.isGlobal = true)
    (hok : NoLaunchBehindQuery net (.slaveRequest node req)) :
    NetOk { net.putSlave node ((net.slaves node).dispatch chunk false req) with
      calls := net.calls ++ ServiceNet.sentBy node ((net.slaves node).dispatch chunk false req)
        (net.slaves node).requests.length } := by
  have hslave := h.slaves node
  have hnew := hslave.dispatch chunk hglobal
  generalize hm : (net.slaves node).dispatch chunk false req = m' at hnew
  have hold : ∀ {name}, LaunchUnderWay net name → LaunchUnderWay
      { net.putSlave node m' with
        calls := net.calls ++ ServiceNet.sentBy node m' (net.slaves node).requests.length } name :=
    fun hway => hway.mono (Subset.refl _) fun _ hcall =>
      inl (mem_append_left _ hcall)
  refine ⟨h.master, fun i => ?_, fun i co name hwaits => ?_⟩
  · unfold ServiceNet.putSlave
    dsimp only
    split
    · exact hnew
    · exact h.slaves i
  · by_cases hself : i = node ∧ co = (net.slaves node).requests.length
    · obtain ⟨rfl, rfl⟩ := hself
      obtain ⟨⟨req', hreq', hlaunch, hname⟩, hthread⟩ := hwaits
      simp only [ServiceNet.putSlave, ↓reduceIte] at hreq' hthread
      rcases target_global hglobal with ⟨e, htarget, -⟩ | ⟨key, call, htarget, hkey, hcall⟩
      · obtain ⟨-, -, -, hthreads⟩ := dispatch_error chunk (net.slaves i) htarget
        rw [hm] at hthreads
        simp [hthreads] at hthread
      · obtain ⟨hrequests, hcases⟩ := dispatch_ok chunk (net.slaves i) htarget
        rw [hm] at hrequests hcases
        obtain rfl : req = req' := by simpa [hrequests] using hreq'
        obtain rfl : key = name := by simpa [hkey] using hname
        cases hcases with
        | ended entry hentry hfinal hservice hthreads hlog => simp [hthreads] at hthread
        | waits launch waiting hentry hfunc self hservice hthreads hlog =>
          have hsome : launch ≠ none := fun hnone => nomatch hfunc hnone
          have hpending := hentry.resolve_right fun hnone => hsome hnone.2.1
          obtain ⟨w, f, rfl, hw⟩ := hslave.launch key launch waiting hpending
          obtain ⟨first, hfirst, hfirstName⟩ := hslave.named w.co key f hw
          have hnot : queryForwarded (net.slaves i) key = false := by
            have hall := hok hlaunch
            simpa [hkey] using hall
          have hfirstLaunch : isLaunch first.command = true := by
            simpa [queryForwarded, hpending, hfirst] using hnot
          exact hold (h.forwarded i w.co key
            ⟨⟨first, hfirst, hfirstLaunch, hfirstName⟩, by simp [hw]⟩)
        | starts waiting self hself f hfunc hservice hthreads hlog =>
          obtain ⟨g, hg⟩ := hcall hlaunch
          obtain rfl : .callService call = f := by simpa using hfunc
          refine inr ⟨⟨i, (net.slaves i).requests.length, call⟩, ?_, g, hg⟩
          simp [ServiceNet.sentBy, hthreads]
    · refine hold (h.forwarded i co name ?_)
      by_cases hi : i = node
      · subst hi
        obtain ⟨⟨req', hreq', hlaunch, hname⟩, hthread⟩ := hwaits
        simp only [ServiceNet.putSlave, ↓reduceIte] at hreq' hthread
        have heffect : m'.requests = (net.slaves i).requests ++ [req] ∧
            m'.threads.get co = (net.slaves i).threads.get co := by
          rcases target_global hglobal with ⟨e, htarget, -⟩ | ⟨key, call, htarget, hkey, hcall⟩
          · obtain ⟨hrequests, -, -, hthreads⟩ := dispatch_error chunk (net.slaves i) htarget
            grind
          · obtain ⟨hrequests, hcases⟩ := dispatch_ok chunk (net.slaves i) htarget
            cases hcases <;> grind
        refine ⟨⟨req', ?_, hlaunch, hname⟩, heffect.2 ▸ hthread⟩
        grind
      · unfold LaunchWaits at hwaits ⊢
        simpa [ServiceNet.putSlave, hi] using hwaits

theorem arrive {i : ℕ} {call : ServiceCall} (callers : Table ℕ (ℕ × ℕ)) (h : NetOk net)
    (hcall : net.calls[i]? = some call) :
    NetOk { net with
      master := net.master.dispatch chunk true ⟨call.co + 1, call.node, call.command⟩
      calls := net.calls.eraseIdx i
      callers := callers } := by
  obtain ⟨hm, hlog, hstarted⟩ := h.master.dispatch chunk true
    ⟨call.co + 1, call.node, call.command⟩
  refine ⟨hm, h.slaves, fun node co name hwaits => ?_⟩
  refine (h.forwarded node co name hwaits).mono hlog fun other hother => ?_
  obtain ⟨j, hj⟩ := getElem?_of_mem hother
  by_cases hij : j = i
  · subst hij
    rw [hcall, Option.some.injEq] at hj
    exact inr (hj ▸ hstarted)
  · exact inl (mem_eraseIdx_iff_getElem?.mpr ⟨j, hij, hj⟩)

theorem next {e : NetEvent} (h : NetOk net) (hok : NoLaunchBehindQuery net e)
    (hnext : net.next chunk e = some net') : NetOk net' := by
  cases e with
  | slaveRequest node req =>
    simp only [ServiceNet.next] at hnext
    split at hnext
    · next hglobal => exact Option.some.inj hnext ▸ h.slaveRequest hglobal hok
    · nomatch hnext
  | masterRequest req =>
    obtain ⟨hm, hlog, -⟩ := h.master.dispatch chunk true req
    exact Option.some.inj hnext ▸ h.putMaster hm hlog
  | arrive i =>
    obtain ⟨call, hcall, rfl⟩ := Option.map_eq_some_iff.mp hnext
    exact h.arrive _ hcall
  | answer i =>
    simp only [ServiceNet.next, Option.bind_eq_bind, Option.bind_eq_some_iff, Option.pure_def,
      Option.some.injEq] at hnext
    obtain ⟨⟨asked, reply⟩, -, ⟨node, co⟩, -, m, hrequest, rfl⟩ := hnext
    obtain ⟨name, func, hco, hrequests, -, -, -, hthreads⟩ := request_effect hrequest
    exact h.putSlave ((h.slaves node).request hrequest) hrequests fun j hnone => by grind
  | launched co result =>
    obtain ⟨m, hm, rfl⟩ := Option.map_eq_some_iff.mp hnext
    obtain ⟨-, -, -, -, hlog, -⟩ := request_effect hm
    exact h.putMaster (h.master.request hm) hlog
  | resumeMaster co =>
    obtain ⟨m, hm, rfl⟩ := Option.map_eq_some_iff.mp hnext
    obtain ⟨-, -, hlog, -⟩ := resume_effect hm
    exact h.putMaster (h.master.resume hm) (hlog ▸ Subset.refl _)
  | resumeSlave node co =>
    obtain ⟨m, hm, rfl⟩ := Option.map_eq_some_iff.mp hnext
    obtain ⟨-, hrequests, -, -, hthreads⟩ := resume_effect hm
    exact h.putSlave ((h.slaves node).resume hm) hrequests fun j hnone => by grind

end NetOk

/-- **Global launches reach the master.** In every run in which no launch comes to a node
behind a query that the node has forwarded, a launch that waits has been started at
`SERVICE` or is on its way there.
SRC: service_mgr.lua:29-96, 98-189 -/
theorem launches_forwarded (h : (serviceNetMachine chunk).Reach NoLaunchBehindQuery net) :
    LaunchesForwarded net := by
  have hok : NetOk net :=
    h.invariant (fun _ hstart => hstart ▸ .init) fun _ _ _ hnet hok hnext => hnet.next hok hnext
  exact hok.forwarded

def launchFirst : List NetEvent :=
  [.slaveRequest 1 ⟨1, 10, .glaunch ['x'] []⟩, .slaveRequest 1 ⟨1, 20, .gquery ['x'] []⟩, .arrive 0]

theorem launches_forwarded_first : ∃ net,
    (serviceNetMachine []).runOk NoLaunchBehindQuery .init launchFirst = some net ∧
      LaunchWaits net 1 0 ['@', 'x'] ∧ LaunchesForwarded net := by
  have hrun : ((serviceNetMachine []).runOk NoLaunchBehindQuery .init launchFirst).map
      (fun net => ((net.slaves 1).requests[0]?, (net.slaves 1).threads.get 0)) =
      some (some ⟨1, 10, .glaunch ['x'] []⟩, some (.launching ['@', 'x']
        (.callService (.launch ['@', 'x'] [])))) := rfl
  obtain ⟨net, hnet, hfields⟩ := Option.map_eq_some_iff.mp hrun
  simp only [Prod.mk.injEq] at hfields
  refine ⟨net, hnet, ⟨⟨_, hfields.1, rfl, rfl⟩, by simp [hfields.2]⟩, ?_⟩
  exact launches_forwarded (Machine.Reach.runOk (.start rfl) hnet)

def queryFirst : ServiceMgr := ServiceMgr.init.dispatch [] false ⟨1, 10, .gquery ['x'] []⟩

def launchBehind : ServiceMgr := queryFirst.dispatch [] false ⟨1, 20, .glaunch ['x'] []⟩

def swallowed : ServiceNet where
  master := ServiceMgr.init.dispatch [] true ⟨1, 1, .query ['@', 'x'] []⟩
  slaves := ((ServiceNet.init.putSlave 1 queryFirst).putSlave 1 launchBehind).slaves
  calls := []
  callers := (∅ : Table ℕ (ℕ × ℕ)).put 0 (some (1, 0))

/-- **A launch swallowed.** The launch behind the query waits at its node, the query waits
at `SERVICE`, and nothing happens any more until another request comes.
SRC: service_mgr.lua:47-61, 180 -/
theorem launch_swallowed : (serviceNetMachine []).Reachable swallowed ∧
    LaunchWaits swallowed 1 1 ['@', 'x'] ∧ ¬LaunchesForwarded swallowed ∧
    ∀ e, (∀ node req, e ≠ .slaveRequest node req) → (∀ req, e ≠ .masterRequest req) →
      swallowed.next [] e = none := by
  have hwaits : LaunchWaits swallowed 1 1 ['@', 'x'] := ⟨⟨_, rfl, rfl, rfl⟩, by decide⟩
  have hmaster : swallowed.master.threads = (∅ : Table ℕ MgrThread).put 0
      (some (.waiting ['@', 'x'])) := rfl
  have hslave : launchBehind.threads = ((∅ : Table ℕ MgrThread).put 0 (some (.launching ['@', 'x']
      (.callService (.query ['@', 'x'] []))))).put 1 (some (.waiting ['@', 'x'])) := rfl
  have hreach : (serviceNetMachine []).Reachable swallowed :=
    Machine.Reachable.run (.start rfl) (l := [.slaveRequest 1 ⟨1, 10, .gquery ['x'] []⟩,
      .slaveRequest 1 ⟨1, 20, .glaunch ['x'] []⟩, .arrive 0]) rfl
  refine ⟨hreach, hwaits, fun h => ?_, fun e hslaveReq hmasterReq => ?_⟩
  · rcases h 1 1 _ hwaits with ⟨co, hco⟩ | ⟨call, hcall, -⟩
    · exact not_mem_nil hco
    · exact not_mem_nil hcall
  · cases e with
    | slaveRequest node req => exact absurd rfl (hslaveReq node req)
    | masterRequest req => exact absurd rfl (hmasterReq req)
    | arrive i => rfl
    | answer i => rfl
    | launched co result =>
      by_cases hco : co = 0 <;>
        simp [ServiceNet.next, ServiceMgr.request, hmaster, Table.get_put, hco]
    | resumeMaster co =>
      by_cases hco : co = 0 <;>
        simp [ServiceNet.next, ServiceMgr.resume, hmaster, Table.get_put, hco]
    | resumeSlave node co =>
      by_cases hnode : node = 1
      · have hthreads : (swallowed.slaves node).threads = launchBehind.threads := by
          simp [swallowed, ServiceNet.putSlave, hnode]
        by_cases hone : co = 1
        · simp [ServiceNet.next, ServiceMgr.resume, hthreads, hslave, hone]
        · by_cases hzero : co = 0 <;>
            simp [ServiceNet.next, ServiceMgr.resume, hthreads, hslave, Table.get_put, hone, hzero]
      · simp [ServiceNet.next, ServiceMgr.resume, swallowed, ServiceNet.putSlave, hnode,
          ServiceNet.init, ServiceMgr.init]

end Skynet.Analysis
