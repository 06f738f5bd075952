import Skynet.Model.ServiceMgr

/-!
# Unique services are launched once

What holds of a service manager whatever requests come and however their coroutines
interleave, as long as every launch ends with a handle or with an error: one launch of a
name at most is in progress, none follows a launch that has ended, and whoever waits for a
name is in its list until the launch ends, and then gets the handle or the error of it.

A launch that returns `nil` breaks this: the entry of the name is gone when the waiters
look at it again.
-/

namespace Skynet.Analysis

open Library Model ServiceMgr List Option

variable {chunk : LuaString} {busy : Option ℕ} {m m' : ServiceMgr} {co : ℕ}
  {name : LuaString} {reply : MgrReply} {result : LaunchResult}

/-! ## What is to hold -/

/-- The answers that tell the result of a launch: its handle, or its error as it is raised
again in some line of the manager. -/
def TellsResult (chunk : LuaString) : LaunchResult → MgrReply → Prop
  | .raised err, reply => ∃ line, reply = .error (raisedAt chunk line err)
  | .returned handle, reply => reply = .value handle

def answersTo (answers : List (ℕ × MgrReply)) (co : ℕ) : List (ℕ × MgrReply) :=
  answers.filter (·.1 = co)

/-- At most one launch of a name is in progress and none starts after a successful one;
every request with a session is answered once and not again; who waits for a name is in
the list that the launch in progress, or the next one, will wake; who was woken can go on
and ends; and all who waited when a launch ended, and its own request, get its result. -/
structure LaunchedOnce (chunk : LuaString) (m : ServiceMgr) : Prop where
  oneInProgress : ∀ name co co' func func', m.threads.get co = some (.launching name func) →
    m.threads.get co' = some (.launching name func') → co = co'
  noneAfterSuccess : ∀ name co h waiting before after,
    m.log = before ++ .ended name co (.returned (some h)) waiting :: after →
      ∀ co', .started name co' ∉ after
  answered : ∀ co req, m.requests[co]? = some req → req.session ≠ 0 →
    (answersTo m.answers co).length = if m.threads.get co = none then 1 else 0
  wakeable : ∀ co name, m.threads.get co = some (.waiting name) → ∃ launch waiting,
    m.service.get name = some (.pending launch waiting) ∧ co ∈ waiting.map (·.co) ∧
      ∀ w ∈ launch, ∃ func, m.threads.get w.co = some (.launching name func)
  resumable : ∀ co name, m.threads.get co = some (.woken name) →
    ∃ m', m.resume chunk co = some m' ∧ m'.threads.get co = none
  told : ∀ name co result waiting, .ended name co result waiting ∈ m.log →
    ∀ c ∈ co :: waiting, m.threads.get c = some (.woken name) ∨
      (m.threads.get c = none ∧ ∀ p ∈ answersTo m.answers c, TellsResult chunk result p.2)

def LaunchesTell (_ : ServiceMgr) : MgrEvent → Prop
  | .returned _ result => result ≠ .returned none
  | _ => True

instance : ∀ m e, Decidable (LaunchesTell m e)
  | _, .returned _ result => inferInstanceAs (Decidable (result ≠ _))
  | _, .request _ => .isTrue trivial
  | _, .resume _ => .isTrue trivial

def wakened : Option MgrThread → Option MgrThread
  | some (.waiting name) => some (.woken name)
  | thread => thread

theorem wakeup_eq (m : ServiceMgr) (co : ℕ) : ∃ threads,
    m.wakeup co = { m with threads := threads } ∧ ∀ j, threads.get j =
      if j = co then wakened (m.threads.get j) else m.threads.get j := by
  unfold wakeup
  split
  · next name h =>
    refine ⟨_, rfl, fun j => ?_⟩
    rw [Table.get_put]
    split
    · next hj => simp [hj, h, wakened]
    · rfl
  · next h =>
    refine ⟨m.threads, rfl, fun j => ?_⟩
    split
    · next hj =>
      subst hj
      unfold wakened
      split
      · next name hname => exact absurd hname (h name)
      · rfl
    · rfl

theorem foldl_wakeup (cos : List ℕ) (m : ServiceMgr) : ∃ threads,
    cos.foldl wakeup m = { m with threads := threads } ∧ ∀ j, threads.get j =
      if j ∈ cos then wakened (m.threads.get j) else m.threads.get j := by
  induction cos generalizing m with
  | nil => exact ⟨m.threads, rfl, by simp⟩
  | cons co cos ih =>
    obtain ⟨first, hfirst, hget⟩ := wakeup_eq m co
    obtain ⟨threads, hthreads, hgets⟩ := ih (m.wakeup co)
    refine ⟨threads, by rw [foldl_cons, hthreads, hfirst], fun j => ?_⟩
    have htwice : wakened (wakened (m.threads.get j)) = wakened (m.threads.get j) := by
      cases m.threads.get j with
      | none => rfl
      | some thread => cases thread <;> rfl
    rw [hgets, hfirst, hget]
    by_cases hj : j = co
    · subst hj
      simp [htwice]
    · simp [hj]

/-! ## The invariant -/

def entryAfter : LaunchResult → Option ServiceEntry
  | .raised err => some (.failed err)
  | .returned handle => handle.map .handle

theorem eq_raised {err : LuaString} (h : entryAfter result = some (.failed err)) :
    result = .raised err := by
  match result with
  | .raised err' => simpa [entryAfter] using h
  | .returned none => simp [entryAfter] at h
  | .returned (some handle) => simp [entryAfter] at h

theorem eq_returned {handle : ℕ} (h : entryAfter result = some (.handle handle)) :
    result = .returned (some handle) := by
  match result with
  | .raised err => simp [entryAfter] at h
  | .returned none => simp [entryAfter] at h
  | .returned (some handle') => simpa [entryAfter] using h

theorem entryAfter_final (hresult : result ≠ .returned none) :
    (∀ launch waiting, entryAfter result ≠ some (.pending launch waiting)) ∧
      entryAfter result ≠ none := by
  match result, hresult with
  | .raised err, _ => simp [entryAfter]
  | .returned (some h), _ => simp [entryAfter]

def NotRestarted (earlier later : LaunchRecord) : Prop :=
  ∀ name co result waiting co', earlier = .ended name co result waiting → later ≠ .started name co'

/-- Between two moments at which a coroutine yields or ends: the lists of waiters are the
coroutines that wait, the launch of an entry is in progress, and the entry of a name whose
launch has ended stays.  `busy` is the coroutine that runs. -/
structure Managed (chunk : LuaString) (busy : Option ℕ) (m : ServiceMgr) : Prop where
  known : ∀ co, m.requests.length ≤ co → m.threads.get co = none
  launch : ∀ name launch waiting, m.service.get name = some (.pending launch waiting) →
    ∀ w ∈ launch, ∃ func, m.threads.get w.co = some (.launching name func)
  list : ∀ name launch waiting, m.service.get name = some (.pending launch waiting) →
    ∀ co, co ∈ waiting.map (·.co) ↔ m.threads.get co = some (.waiting name)
  launching : ∀ co name func, m.threads.get co = some (.launching name func) →
    ∃ w waiting, m.service.get name = some (.pending (some w) waiting) ∧ w.co = co
  waiting : ∀ co name, m.threads.get co = some (.waiting name) →
    ∃ launch waiting, m.service.get name = some (.pending launch waiting)
  running : ∀ co, busy = some co → m.threads.get co = none ∧ co < m.requests.length ∧
    answersTo m.answers co = []
  answered : ∀ co < m.requests.length, busy ≠ some co → (answersTo m.answers co).length =
    if m.threads.get co = none ∧ m.session co ≠ 0 then 1 else 0
  answersKnown : ∀ co, m.requests.length ≤ co → answersTo m.answers co = []
  stays : ∀ name co result waiting, .ended name co result waiting ∈ m.log →
    m.service.get name = entryAfter result ∧ result ≠ .returned none
  told : ∀ name co result waiting, .ended name co result waiting ∈ m.log →
    ∀ c ∈ co :: waiting, c < m.requests.length ∧ (m.threads.get c = some (.woken name) ∨
      (m.threads.get c = none ∧ ∀ p ∈ answersTo m.answers c, TellsResult chunk result p.2))
  order : m.log.Pairwise NotRestarted

namespace Managed

theorem init : Managed chunk none .init := by
  constructor <;> simp [ServiceMgr.init, answersTo]

theorem leave (h : Managed chunk none m) (hwoken : m.threads.get co = some (.woken name)) :
    Managed chunk (some co) { m with threads := m.threads.put co none } := by
  have hknown : co < m.requests.length := by grind [h.known]
  have hfresh : answersTo m.answers co = [] := by
    have hlength := h.answered co hknown nofun
    simpa [hwoken] using hlength
  constructor
  case known => grind [h.known]
  case launch => grind [h.launch]
  case list => grind [h.list]
  case launching => grind [h.launching]
  case waiting => grind [h.waiting]
  case running => grind
  case answered => grind [h.answered, session]
  case answersKnown => exact h.answersKnown
  case stays => exact h.stays
  case told =>
    intro name co' result waiting hended c hc
    have htold := h.told name co' result waiting hended c hc
    grind
  case order => exact h.order

theorem ret (h : Managed chunk (some co) m)
    (hreply : ∀ name co' result waiting, .ended name co' result waiting ∈ m.log →
      co ∈ co' :: waiting → TellsResult chunk result reply) :
    Managed chunk none (m.ret co reply) := by
  obtain ⟨hnone, hlt, hfresh⟩ := h.running co rfl
  have hanswers : ∀ c, answersTo (m.ret co reply).answers c = answersTo m.answers c ++
      if c = co ∧ m.session co ≠ 0 then [(co, reply)] else [] := by
    intro c
    unfold ServiceMgr.ret answersTo
    grind
  have hthreads : ∀ c, (m.ret co reply).threads.get c = m.threads.get c := by
    grind [ServiceMgr.ret]
  have hsession : ∀ c, (m.ret co reply).session c = m.session c := fun c => rfl
  constructor
  case known => grind [h.known, ServiceMgr.ret]
  case launch => grind [h.launch, ServiceMgr.ret]
  case list => grind [h.list, ServiceMgr.ret]
  case launching => grind [h.launching, ServiceMgr.ret]
  case waiting => grind [h.waiting, ServiceMgr.ret]
  case running => grind
  case answered =>
    intro c hc hbusy
    have := h.answered c hc
    grind
  case answersKnown => grind [h.answersKnown, ServiceMgr.ret]
  case stays => exact h.stays
  case told =>
    intro name co' result waiting hended c hc
    obtain ⟨hlt', htold⟩ := h.told name co' result waiting hended c hc
    rw [hthreads, hanswers]
    by_cases hself : c = co
    · subst hself
      have hresult := hreply name co' result waiting hended hc
      refine ⟨hlt, Or.inr ⟨hnone, fun p hp => ?_⟩⟩
      grind
    · have hrest : (if c = co ∧ m.session co ≠ 0 then [(co, reply)] else []) = [] := by
        simp [hself]
      rw [hrest, append_nil]
      exact ⟨hlt', htold⟩
  case order => exact h.order

theorem arrive (h : Managed chunk none m) (req : MgrRequest) :
    Managed chunk (some m.requests.length) { m with requests := m.requests ++ [req] } := by
  constructor
  case known => grind [h.known]
  case launch => exact h.launch
  case list => exact h.list
  case launching => exact h.launching
  case waiting => exact h.waiting
  case running => grind [h.known, h.answersKnown]
  case answered =>
    intro c hc hbusy
    have hlt : c < m.requests.length := by grind
    have hsession : session { m with requests := m.requests ++ [req] } c = m.session c := by
      simp [session, getElem?_append_left hlt]
    rw [hsession]
    exact h.answered c hlt nofun
  case answersKnown => grind [h.answersKnown]
  case stays => exact h.stays
  case told =>
    intro name co' result waiting hended c hc
    obtain ⟨hlt, htold⟩ := h.told name co' result waiting hended c hc
    exact ⟨by simp; omega, htold⟩
  case order => exact h.order

/-- The coroutine that runs starts the launch of a name without an entry, or with a table
that has no launch. -/
theorem start (h : Managed chunk (some co) m) (func : LaunchFunc) {waiting : List Waiter}
    (self : Waiter) (hself : self.co = co)
    (hnew : ∀ name co' result waiting, .ended name co' result waiting ∈ m.log → co ∉ co' :: waiting)
    (hentry : m.service.get name = some (.pending none waiting) ∨
      m.service.get name = none ∧ waiting = []) :
    Managed chunk none { m with
      service := m.service.put name (some (.pending (some self) waiting))
      threads := m.threads.put co (some (.launching name func))
      log := m.log ++ [.started name co] } := by
  obtain ⟨hnone, hlt, hfresh⟩ := h.running co rfl
  have hended : ∀ co' result w, .ended name co' result w ∉ m.log := by
    intro co' result w hmem
    obtain ⟨hafter, hresult⟩ := h.stays _ _ _ _ hmem
    obtain ⟨hpending, hnil⟩ := entryAfter_final hresult
    grind
  constructor
  case known => grind [h.known]
  case launch =>
    intro name' launch waiting' hget w hw
    rw [Table.get_put] at hget
    split at hget
    · exact ⟨func, by grind⟩
    · obtain ⟨func', hfunc'⟩ := h.launch name' launch waiting' hget w hw
      exact ⟨func', by grind⟩
  case list => grind [h.list, h.waiting]
  case launching =>
    intro c name' func' hget
    rw [Table.get_put] at hget
    split at hget
    · exact ⟨self, waiting, by grind⟩
    · obtain ⟨w, waiting', hpending, hw⟩ := h.launching c name' func' hget
      exact ⟨w, waiting', by grind⟩
  case waiting => grind [h.waiting]
  case running => nofun
  case answered => grind [h.answered, session]
  case answersKnown => exact h.answersKnown
  case stays => grind [h.stays]
  case told =>
    intro name' co' result w hmem c hc
    have hmem : .ended name' co' result w ∈ m.log := by simpa using hmem
    have htold := h.told name' co' result w hmem c hc
    have hne : c ≠ co := fun heq => hnew name' co' result w hmem (heq ▸ hc)
    simpa [Table.get_put, hne] using htold
  case order =>
    refine pairwise_append.mpr ⟨h.order, pairwise_singleton _ _, ?_⟩
    intro earlier hearlier later hlater name' co' result w c heq hstarted
    rw [mem_singleton.mp hlater] at hstarted
    have hname : name = name' := by
      injection hstarted
    exact hended co' result w (hname ▸ heq ▸ hearlier)

theorem wait (h : Managed chunk (some co) m) {launch : Option Waiter} {waiting : List Waiter}
    (self : Waiter) (hself : self.co = co)
    (hnew : ∀ name co' result waiting, .ended name co' result waiting ∈ m.log → co ∉ co' :: waiting)
    (hentry : m.service.get name = some (.pending launch waiting) ∨
      m.service.get name = none ∧ launch = none ∧ waiting = []) :
    Managed chunk none { m with
      service := m.service.put name (some (.pending launch (waiting ++ [self])))
      threads := m.threads.put co (some (.waiting name)) } := by
  obtain ⟨hnone, hlt, hfresh⟩ := h.running co rfl
  constructor
  case known => grind [h.known]
  case launch => grind [h.launch]
  case list => grind [h.list, h.waiting]
  case launching => grind [h.launching]
  case waiting => grind [h.waiting]
  case running => nofun
  case answered => grind [h.answered, session]
  case answersKnown => exact h.answersKnown
  case stays =>
    intro name' co' result w hmem
    obtain ⟨hafter, hresult⟩ := h.stays _ _ _ _ hmem
    obtain ⟨hpending, hnil⟩ := entryAfter_final hresult
    grind
  case told =>
    intro name' co' result w hmem c hc
    have htold := h.told name' co' result w hmem c hc
    have hne : c ≠ co := fun heq => hnew name' co' result w hmem (heq ▸ hc)
    simpa [Table.get_put, hne] using htold
  case order => exact h.order

theorem finish (h : Managed chunk none m) (hresult : result ≠ .returned none)
    {func : LaunchFunc} (hlaunching : m.threads.get co = some (.launching name func))
    (threads : Table ℕ MgrThread) (hthreads : ∀ j, threads.get j =
      if m.threads.get j = some (.waiting name) then some (.woken name) else m.threads.get j) :
    Managed chunk (some co) { m with
      service := m.service.put name (entryAfter result)
      threads := threads.put co none
      log := m.log ++ [.ended name co result (m.threads.keysOf (.waiting name))] } := by
  have hlt : co < m.requests.length := by grind [h.known]
  obtain ⟨hpending, hnil⟩ := entryAfter_final hresult
  obtain ⟨w, waiting, hentry, hw⟩ := h.launching co name func hlaunching
  have hfresh : answersTo m.answers co = [] := by
    have hlength := h.answered co hlt nofun
    simpa [hlaunching] using hlength
  constructor
  case known => grind [h.known]
  case launch =>
    intro name' launch waiting' hget w' hw'
    rw [Table.get_put] at hget
    split at hget
    · exact absurd hget (hpending _ _)
    · obtain ⟨func', hfunc'⟩ := h.launch name' launch waiting' hget w' hw'
      exact ⟨func', by grind⟩
  case list => grind [h.list]
  case launching =>
    intro c name' func' hget
    have hc : m.threads.get c = some (.launching name' func') := by grind
    obtain ⟨w', waiting', hpending', hw'⟩ := h.launching c name' func' hc
    exact ⟨w', waiting', by grind⟩
  case waiting =>
    intro c name' hget
    have hc : m.threads.get c = some (.waiting name') ∧ name' ≠ name := by grind
    obtain ⟨launch, waiting', hpending'⟩ := h.waiting c name' hc.1
    exact ⟨launch, waiting', by grind⟩
  case running => grind
  case answered => grind [h.answered, session]
  case answersKnown => exact h.answersKnown
  case stays =>
    intro name' co' result' w' hmem
    rcases mem_append.mp hmem with hmem | hmem
    · obtain ⟨hafter, hfinal⟩ := h.stays _ _ _ _ hmem
      obtain ⟨hpending', hnil'⟩ := entryAfter_final hfinal
      grind
    · grind
  case told =>
    intro name' co' result' w' hmem c hc
    rcases mem_append.mp hmem with hmem | hmem
    · obtain ⟨hlt', htold⟩ := h.told _ _ _ _ hmem c hc
      grind
    · grind [h.known]
  case order =>
    refine pairwise_append.mpr ⟨h.order, pairwise_singleton _ _, ?_⟩
    intro earlier _ later hlater name' co' result' w' c _ hstarted
    rw [mem_singleton.mp hlater] at hstarted
    nomatch hstarted

end Managed

theorem ret_leave (m : ServiceMgr) (co : ℕ) (reply : MgrReply) :
    ServiceMgr.ret { m with threads := m.threads.put co none } co reply = m.ret co reply := by
  rw [ServiceMgr.ret, ServiceMgr.ret, Table.put_put]
  rfl

/-! ## The steps -/

namespace Managed

/-- `request` once the launch has ended. -/
theorem request (h : Managed chunk none m) (hresult : result ≠ .returned none)
    (hstep : m.request chunk co result = some m') : Managed chunk none m' := by
  unfold ServiceMgr.request at hstep
  split at hstep
  case h_2 => nomatch hstep
  case h_1 name func hlaunching =>
    obtain ⟨w, waiting, hentry, hw⟩ := h.launching co name func hlaunching
    simp only [hentry, some.injEq] at hstep
    obtain ⟨threads, hthreads, hget⟩ := foldl_wakeup (waiting.map (·.co)) { m with
      service := m.service.put name (entryAfter result)
      log := m.log ++ [.ended name co result (m.threads.keysOf (.waiting name))] }
    have hlist := h.list name (some w) waiting hentry
    have hfinish := h.finish hresult hlaunching threads fun j => by
      grind [wakened]
    have hret : Managed chunk none (ServiceMgr.ret { m with
        service := m.service.put name (entryAfter result)
        threads := threads
        log := m.log ++ [.ended name co result (m.threads.keysOf (.waiting name))] } co
        (match result with
          | .raised err => .error (raisedAt chunk 25 err)
          | .returned handle => .value handle)) := by
      rw [← ret_leave]
      refine hfinish.ret fun name' co' result' w' hended hmem => ?_
      rcases mem_append.mp hended with hended | hended
      · have htold := (h.told name' co' result' w' hended co hmem).2
        grind
      · obtain ⟨rfl, rfl, rfl, rfl⟩ : name' = name ∧ co' = co ∧ result' = result ∧
            w' = m.threads.keysOf (.waiting name) := by simpa using hended
        cases result' with
        | raised err => exact ⟨25, rfl⟩
        | returned handle => rfl
    rw [← hstep]
    cases result with
    | raised err => exact hthreads ▸ hret
    | returned handle => exact hthreads ▸ hret

/-- `waitfor` after `skynet.wait`. -/
theorem resume (h : Managed chunk none m) (hstep : m.resume chunk co = some m') :
    Managed chunk none m' := by
  unfold ServiceMgr.resume at hstep
  split at hstep
  case h_2 => nomatch hstep
  case h_1 name hwoken =>
    have hleave := h.leave hwoken
    have htells : ∀ name' co' result waiting, .ended name' co' result waiting ∈ m.log →
        co ∈ co' :: waiting → m.service.get name = entryAfter result ∧ result ≠ .returned none := by
      intro name' co' result waiting hended hmem
      have htold := (h.told name' co' result waiting hended co hmem).2
      have hname : name' = name := by grind
      exact hname ▸ h.stays name' co' result waiting hended
    split at hstep
    · next err hfailed =>
      rw [← some.inj hstep, ← ret_leave]
      refine hleave.ret fun name' co' result waiting hended hmem => ?_
      obtain ⟨hentry, hresult⟩ := htells name' co' result waiting hended hmem
      rw [eq_raised (hentry.symm.trans hfailed)]
      exact ⟨64, rfl⟩
    · next handle hhandle =>
      rw [← some.inj hstep, ← ret_leave]
      refine hleave.ret fun name' co' result waiting hended hmem => ?_
      obtain ⟨hentry, hresult⟩ := htells name' co' result waiting hended hmem
      rw [eq_returned (hentry.symm.trans hhandle)]
      rfl
    · next hfailed hhandle =>
      rw [← some.inj hstep, ← ret_leave]
      refine hleave.ret fun name' co' result waiting hended hmem => ?_
      obtain ⟨hentry, hresult⟩ := htells name' co' result waiting hended hmem
      match result, hresult with
      | .raised err, _ => exact absurd hentry (hfailed err)
      | .returned (some handle), _ => exact absurd hentry (hhandle handle)

/-- `waitfor` in the coroutine of a new request. -/
theorem waitfor (h : Managed chunk (some co) m)
    (hnew : ∀ name co' result waiting, .ended name co' result waiting ∈ m.log →
      co ∉ co' :: waiting) (name : LuaString) (func : Option LaunchFunc) :
    Managed chunk none (m.waitfor chunk co name func) := by
  have hret : ∀ reply, Managed chunk none (m.ret co reply) := fun reply =>
    h.ret fun name' co' result waiting hended hmem =>
      absurd hmem (hnew name' co' result waiting hended)
  unfold ServiceMgr.waitfor
  split
  · exact hret _
  · exact hret _
  · next launch waiting hentry =>
    dsimp only
    split
    · exact h.start _ _ rfl hnew (.inl hentry)
    · exact h.wait _ rfl hnew (.inl hentry)
  · next hentry =>
    dsimp only
    split
    · exact h.start _ _ rfl hnew (.inr ⟨hentry, rfl⟩)
    · exact h.wait _ rfl hnew (.inr ⟨hentry, rfl, rfl⟩)

/-- A request is dispatched. -/
theorem dispatch (h : Managed chunk none m) (standalone : Bool) (req : MgrRequest) :
    Managed chunk none (m.dispatch chunk standalone req) := by
  have hnew : ∀ name co' result waiting, .ended name co' result waiting ∈ m.log →
      m.requests.length ∉ co' :: waiting := by
    intro name co' result waiting hended hmem
    exact absurd (h.told name co' result waiting hended _ hmem).1 (lt_irrefl _)
  unfold ServiceMgr.dispatch
  split
  · exact (h.arrive req).waitfor hnew _ _
  · exact (h.arrive req).ret fun name co' result waiting hended hmem =>
      absurd hmem (hnew name co' result waiting hended)

theorem launchedOnce (h : Managed chunk none m) : LaunchedOnce chunk m where
  oneInProgress name co co' func func' hco hco' := by
    obtain ⟨w, waiting, hentry, hw⟩ := h.launching co name func hco
    obtain ⟨w', waiting', hentry', hw'⟩ := h.launching co' name func' hco'
    grind
  noneAfterSuccess name co handle waiting before after hlog co' hmem := by
    have horder := h.order
    rw [hlog] at horder
    have hafter := (pairwise_cons.mp (pairwise_append.mp horder).2.1).1
    exact hafter _ hmem name co _ waiting co' rfl rfl
  answered co req hreq hsession := by
    obtain ⟨hlt, -⟩ := List.getElem?_eq_some_iff.mp hreq
    have hanswered := h.answered co hlt nofun
    simpa [session, hreq, hsession] using hanswered
  wakeable co name hwaiting := by
    obtain ⟨launch, waiting, hentry⟩ := h.waiting co name hwaiting
    exact ⟨launch, waiting, hentry, (h.list name launch waiting hentry co).mpr hwaiting,
      h.launch name launch waiting hentry⟩
  resumable co name hwoken := by
    unfold ServiceMgr.resume
    simp only [hwoken]
    split <;> exact ⟨_, rfl, by simp [ServiceMgr.ret]⟩
  told name co result waiting hended c hc := (h.told name co result waiting hended c hc).2

end Managed

/-! ## Runs -/

/-- **Unique services.** In every run in which each launch ends with a handle or an
error, a service is launched once and every request is answered with the result.
SRC: service_mgr.lua:8-96, 98-189 -/
theorem launched_once {standalone : Bool}
    (h : (serviceMgrMachine chunk standalone).Reach LaunchesTell m) : LaunchedOnce chunk m := by
  have hmanaged : Managed chunk none m := by
    refine h.invariant (fun m hstart => hstart ▸ .init) fun m e m' hm hok hnext => ?_
    cases e with
    | request req => exact some.inj hnext ▸ hm.dispatch standalone req
    | returned co result => exact hm.request hok hnext
    | resume co => exact hm.resume hnext
  exact hmanaged.launchedOnce

def globalCallers : List MgrEvent :=
  [.request ⟨1, 10, .glaunch ['x'] []⟩, .request ⟨1, 20, .gquery ['x'] []⟩]

def globalLaunch : List MgrEvent := globalCallers ++
    [.returned 0 (.returned (some 7)), .request ⟨2, 10, .glaunch ['x'] []⟩, .resume 1]

theorem launched_once_global : ∃ m,
    (serviceMgrMachine [] false).runOk LaunchesTell .init globalLaunch = some m ∧
      m.answers = [(0, .value (some 7)), (2, .value (some 7)), (1, .value (some 7))] ∧
      LaunchedOnce [] m := by
  have hrun : ((serviceMgrMachine [] false).runOk LaunchesTell .init globalLaunch).map
      (·.answers) = some [(0, .value (some 7)), (2, .value (some 7)), (1, .value (some 7))] := rfl
  obtain ⟨m, hm, hanswers⟩ := map_eq_some_iff.mp hrun
  exact ⟨m, hm, hanswers, launched_once (Machine.Reach.runOk (.start rfl) hm)⟩

/-- **An error lost.** The launch fails at the manager `SERVICE`, whose answer `nil, err`
is no error for `pcall`: the one who waits is told of a failed assertion.
SRC: service_mgr.lua:9-16, 62-66, 180, 208-211 -/
theorem error_lost : ∃ m, (serviceMgrMachine [] false).Reachable m ∧
    m.answers = [(0, .value none), (1, .error (raisedAt [] 66 assertionFailed))] ∧
      ¬LaunchedOnce [] m := by
  have hrun : ((serviceMgrMachine [] false).run .init
      (globalCallers ++ [.returned 0 (.returned none), .resume 1])).map
        (fun m => (m.answers, m.log, m.threads.get 1)) =
      some ([(0, .value none), (1, .error (raisedAt [] 66 assertionFailed))],
        [.started ['@', 'x'] 0, .ended ['@', 'x'] 0 (.returned none) [1]], none) := rfl
  obtain ⟨m, hm, hrecords⟩ := map_eq_some_iff.mp hrun
  simp only [Prod.mk.injEq] at hrecords
  obtain ⟨hanswers, hlog, hthread⟩ := hrecords
  refine ⟨m, Machine.Reachable.run (.start rfl) hm, hanswers, fun h => ?_⟩
  have htold := h.told ['@', 'x'] 0 (.returned none) [1] (by simp [hlog]) 1 (by simp)
  simp [hthread, hanswers, answersTo, TellsResult] at htold

end Skynet.Analysis
