import Skynet.Library.Walk
import Skynet.Model.Require

/-!
# Modules are loaded once, and nobody waits in a circle

A frame of a coroutine has the entry of its module in `loading`, and the coroutines that wait for
the module are in its queue.  The init list of the innermost frame is the one in `context`.
-/

namespace Skynet.Analysis

open Library Relation Model RequireState List Function Option

variable {s s' : RequireState} {co c name : ℕ} {f f' g : LoadFrame} {fs : List LoadFrame}
variable {files : ℕ → Bool} {loaded loaded' : ℕ → Option ModuleValue}
variable {records' : ℕ → Option LoadRecord} {value : Option ModuleValue}

/-! ## Invariant -/

def RequireWaits (s : RequireState) (co co' : ℕ) : Prop :=
  ∃ name, (s.threads co).status = .waiting name ∧ ∃ f ∈ (s.threads co').frames, f.name = name

def ContextRight : Option ℕ → List LoadFrame → Prop
  | list, [] => list = none
  | list, f :: fs => list = some f.initList ∧ ContextRight f.oldInitList fs

def PhaseRight (f : LoadFrame) : Prop :=
  match f.phase with
  | .chunk => f.finished = []
  | .inits _ i => i < f.registered.length ∧ f.finished = f.registered.take i

def FrameRight (s : RequireState) (co : ℕ) (f : LoadFrame) : Prop :=
  s.loaded f.name = none ∧ (∃ queue, s.loading f.name = some queue ∧ queue.co = co)
    ∧ s.lists[f.initList]? = some f.registered ∧ PhaseRight f

/-- A call that is over has the value of the module, and after a wait an error if and only if the
load failed. -/
def ResultRight (s : RequireState) (r : RequireResult) : Prop :=
  (∀ v, r.value = some v → s.loaded r.name = some v)
    ∧ ∀ ok, r.waited = some ok → (r.value = none ↔ ok = false)

def WokenRight (s : RequireState) (name : ℕ) (ok : Bool) : Prop :=
  (s.loaded name = none ↔ ok = false)
    ∧ (ok = false → ∃ r ∈ s.results, r.name = name ∧ r.waited = none ∧ r.value = none)

/-- The module has been there at the start, or all init functions that its chunk and these
functions themselves have registered have returned. -/
def RecordRight (loaded : ℕ → Option ModuleValue) (s : RequireState) (name : ℕ) : Prop :=
  ∀ v, s.loaded name = some v → loaded name = some v
    ∨ ∃ r, s.records name = some r ∧ r.value = v ∧ r.finished = r.registered

structure RequireInv (loaded : ℕ → Option ModuleValue) (s : RequireState) : Prop where
  frame : ∀ co, ∀ f ∈ (s.threads co).frames, FrameRight s co f
  nodup : ∀ co, ((s.threads co).frames.map LoadFrame.name).Nodup
  refs : ∀ co co', ∀ f ∈ (s.threads co).frames, ∀ f' ∈ (s.threads co').frames,
    f.initList = f'.initList → f.name = f'.name
  context : ∀ co, ContextRight (s.context co) (s.threads co).frames
  loading : ∀ name queue, s.loading name = some queue →
    ∃ f ∈ (s.threads queue.co).frames, f.name = name
  queue : ∀ name queue, s.loading name = some queue →
    ∀ c, c ∈ queue.waiting ↔ (s.threads c).status = .waiting name
  waiting : ∀ c name, (s.threads c).status = .waiting name → s.loading name ≠ none
  woken : ∀ c name ok, (s.threads c).status = .woken name ok → WokenRight s name ok
  results : ∀ r ∈ s.results, ResultRight s r
  records : ∀ name, RecordRight loaded s name
  free : NoDeadlock (RequireWaits s)

theorem RequireInv.start : RequireInv loaded (start files loaded) where
  frame := nofun
  nodup := fun _ => nodup_nil
  refs := nofun
  context := fun _ => rfl
  loading := nofun
  queue := nofun
  waiting := nofun
  woken := nofun
  results := nofun
  records := fun _ _ hv => .inl hv
  free := .of_none fun _ _ ⟨_, hwaiting, _⟩ => nomatch hwaiting

theorem RequireInv.owner (hinv : RequireInv loaded s) (hf : f ∈ (s.threads co).frames)
    (hg : g ∈ (s.threads c).frames) (hname : f.name = g.name) : co = c := by
  obtain ⟨-, ⟨q, hq, rfl⟩, -⟩ := hinv.frame co f hf
  obtain ⟨-, ⟨q', hq', rfl⟩, -⟩ := hinv.frame c g hg
  rw [hname, hq', some.injEq] at hq
  rw [hq]

theorem RequireInv.other (hinv : RequireInv loaded s) (hco : (s.threads co).frames = f :: fs)
    (hg : g ∈ (s.threads c).frames) (hother : c ≠ co ∨ g ∈ fs) : g.name ≠ f.name := by
  intro hname
  have hmem : f ∈ (s.threads co).frames := hco ▸ mem_cons_self
  rcases hother with hne | hfs
  · exact hne (hinv.owner hg hmem hname)
  · have hnodup := hinv.nodup co
    rw [hco, map_cons, nodup_cons] at hnodup
    exact hnodup.1 (hname ▸ List.mem_map_of_mem hfs)

/-! ## Calls that are over at once -/

theorem RequireInv.answer (hinv : RequireInv loaded s) {waited : Option Bool}
    (hr : ResultRight s ⟨co, name, waited, value⟩) :
    RequireInv loaded (s.answer co name waited value) where
  frame := hinv.frame
  nodup := hinv.nodup
  refs := hinv.refs
  context := hinv.context
  loading := hinv.loading
  queue := hinv.queue
  waiting := hinv.waiting
  woken := fun c n ok hstatus => by
    obtain ⟨hiff, hfailed⟩ := hinv.woken c n ok hstatus
    refine ⟨hiff, fun hok => ?_⟩
    obtain ⟨r, hmem, hright⟩ := hfailed hok
    exact ⟨r, mem_append_left _ hmem, hright⟩
  results := fun r hmem => by
    rcases mem_append.mp hmem with hmem | hmem
    · exact hinv.results r hmem
    · rw [mem_singleton.mp hmem]
      exact hr
  records := hinv.records
  free := hinv.free

theorem setThread_self (t : RequireThread) : (s.setThread co t).threads co = t := update_self ..

theorem setThread_ne (t : RequireThread) (hne : c ≠ co) :
    (s.setThread co t).threads c = s.threads c :=
  update_of_ne hne ..

theorem update_some {β : Type} {m : ℕ → Option β} {n : ℕ} {v w : β}
    (h : update m name (some v) n = some w) :
    n = name ∧ w = v ∨ n ≠ name ∧ m n = some w := by
  by_cases hname : n = name
  · subst hname
    rw [update_self, some.injEq] at h
    exact .inl ⟨rfl, h.symm⟩
  · exact .inr ⟨hname, (update_of_ne hname ..).symm.trans h⟩

/-- A coroutine joins the queue of a module, where the coroutine that loads the module does not
wait for it. -/
theorem RequireInv.wait (hinv : RequireInv loaded s) (hrunning : (s.threads co).status = .running)
    {queue : LoadingQueue} (hqueue : s.loading name = some queue)
    (hfree : ¬ ReflTransGen (RequireWaits s) queue.co co) :
    RequireInv loaded
      { s.setThread co { s.threads co with status := .waiting name } with
        loading := update s.loading name
          (some { queue with waiting := queue.waiting ++ [co] }) } := by
  have hframes (c : ℕ) : ((s.setThread co { s.threads co with status := .waiting name }).threads
      c).frames = (s.threads c).frames := by
    by_cases hc : c = co
    · rw [hc, setThread_self]
    · rw [setThread_ne _ hc]
  have hstatus {c : ℕ} (hc : c ≠ co) : ((s.setThread co { s.threads co with
      status := .waiting name }).threads c).status = (s.threads c).status := by
    rw [setThread_ne _ hc]
  have hself : ((s.setThread co { s.threads co with status := .waiting name }).threads co).status
      = .waiting name := by
    rw [setThread_self]
  refine ⟨fun c g hg => ?_, fun c => ?_, fun c c' g hg g' hg' => ?_, fun c => ?_,
    fun n q hq => ?_, fun n q hq c => ?_, fun c n hc => ?_, fun c n ok hc => ?_, hinv.results,
    hinv.records, ?_⟩
  · obtain ⟨hloaded, ⟨q, hq, hco⟩, hlist⟩ := hinv.frame c g (hframes c ▸ hg)
    refine ⟨hloaded, ?_, hlist⟩
    by_cases hname : g.name = name
    · refine ⟨_, (congrArg _ hname).trans (update_self ..), ?_⟩
      rw [hname, hqueue, some.injEq] at hq
      exact hq ▸ hco
    · exact ⟨q, (update_of_ne hname ..).trans hq, hco⟩
  · exact hframes c ▸ hinv.nodup c
  · exact hinv.refs c c' g (hframes c ▸ hg) g' (hframes c' ▸ hg')
  · exact hframes c ▸ hinv.context c
  · rcases update_some hq with ⟨rfl, rfl⟩ | ⟨-, hq⟩
    · exact hframes queue.co ▸ hinv.loading n queue hqueue
    · exact hframes q.co ▸ hinv.loading n q hq
  · rcases update_some hq with ⟨rfl, rfl⟩ | ⟨hname, hq⟩
    · rw [mem_append, mem_singleton, hinv.queue n queue hqueue c]
      by_cases hc : c = co
      · exact iff_of_true (.inr hc) (hc ▸ hself)
      · rw [hstatus hc]
        exact or_iff_left hc
    · rw [hinv.queue n q hq c]
      by_cases hc : c = co
      · subst hc
        refine iff_of_false (hrunning ▸ nofun) fun hwaiting => hname ?_
        exact (ThreadStatus.waiting.inj (hself.symm.trans hwaiting)).symm
      · rw [hstatus hc]
  · by_cases hname : n = name
    · subst hname
      exact fun hnone => nomatch (update_self ..).symm.trans hnone
    · have hne : c ≠ co := by
        rintro rfl
        exact hname (ThreadStatus.waiting.inj (hself.symm.trans hc)).symm
      refine fun hnone => hinv.waiting c n ((hstatus hne).symm.trans hc) ?_
      exact (update_of_ne hname ..).symm.trans hnone
  · have hne : c ≠ co := by
      rintro rfl
      exact nomatch hself.symm.trans hc
    exact hinv.woken c n ok ((hstatus hne).symm.trans hc)
  · refine hinv.free.add hfree fun x y ⟨n, hwaiting, g, hg, hname⟩ => ?_
    have hgold : g ∈ (s.threads y).frames := hframes y ▸ hg
    by_cases hx : x = co
    · subst hx
      obtain rfl := ThreadStatus.waiting.inj (hself.symm.trans hwaiting)
      obtain ⟨-, ⟨q, hq, rfl⟩, -⟩ := hinv.frame y g hgold
      rw [hname, hqueue, some.injEq] at hq
      exact .inr ⟨rfl, hq ▸ rfl⟩
    · exact .inl ⟨n, (hstatus hx).symm.trans hwaiting, g, hgold, hname⟩

theorem RequireInv.begin (hinv : RequireInv loaded s)
    (hnone : s.loaded name = none) (hnot : s.loading name = none) :
    RequireInv loaded
      { s.setThread co
          { s.threads co with
            frames := ⟨name, s.lists.length, s.context co, .chunk, [], []⟩
              :: (s.threads co).frames } with
        loading := update s.loading name (some ⟨co, []⟩)
        context := update s.context co (some s.lists.length)
        lists := s.lists ++ [[]] } := by
  set frame : LoadFrame := ⟨name, s.lists.length, s.context co, .chunk, [], []⟩ with hframe
  set t : RequireThread := { s.threads co with frames := frame :: (s.threads co).frames } with ht
  have hstatus (c : ℕ) : ((s.setThread co t).threads c).status = (s.threads c).status := by
    by_cases hc : c = co
    · rw [hc, setThread_self]
    · rw [setThread_ne _ hc]
  have hnobody (c : ℕ) : (s.threads c).status ≠ .waiting name :=
    fun hwaiting => hinv.waiting c name hwaiting hnot
  have hold {c : ℕ} {g : LoadFrame} (hg : g ∈ (s.threads c).frames) :
      g.name ≠ name ∧ g.initList < s.lists.length := by
    obtain ⟨-, ⟨q, hq, -⟩, hlist, -⟩ := hinv.frame c g hg
    refine ⟨?_, (List.getElem?_eq_some_iff.mp hlist).1⟩
    rintro rfl
    exact nomatch hnot.symm.trans hq
  have hmem {c : ℕ} {g : LoadFrame} (hg : g ∈ ((s.setThread co t).threads c).frames) :
      c = co ∧ g = frame ∨ g ∈ (s.threads c).frames := by
    by_cases hc : c = co
    · rw [hc, setThread_self] at hg
      exact (mem_cons.mp hg).imp (fun h => ⟨hc, h⟩) fun h => hc ▸ h
    · rw [setThread_ne _ hc] at hg
      exact .inr hg
  have hkept {c : ℕ} {g : LoadFrame} (hg : g ∈ (s.threads c).frames) :
      g ∈ ((s.setThread co t).threads c).frames := by
    by_cases hc : c = co
    · subst hc
      rw [setThread_self]
      exact mem_cons_of_mem _ hg
    · rw [setThread_ne _ hc]
      exact hg
  refine ⟨fun c g hg => ?_, fun c => ?_, fun c c' g hg g' hg' heq => ?_, fun c => ?_,
    fun n q hq => ?_, fun n q hq c => ?_, fun c n hc => ?_, fun c n ok hc => ?_, hinv.results,
    hinv.records, ?_⟩
  · rcases hmem hg with ⟨rfl, rfl⟩ | hg
    · exact ⟨hnone, ⟨_, update_self .., rfl⟩, getElem?_concat_length .., rfl⟩
    · obtain ⟨hloaded, ⟨q, hq, hco⟩, hlist, hphase⟩ := hinv.frame c g hg
      obtain ⟨hne, hlt⟩ := hold hg
      exact ⟨hloaded, ⟨q, (update_of_ne hne ..).trans hq, hco⟩,
        (getElem?_append_left hlt).trans hlist, hphase⟩
  · by_cases hc : c = co
    · rw [hc, setThread_self, ht, map_cons, nodup_cons]
      refine ⟨fun hmem => ?_, hinv.nodup co⟩
      obtain ⟨g, hg, hname⟩ := List.mem_map.mp hmem
      exact (hold hg).1 hname
    · rw [setThread_ne _ hc]
      exact hinv.nodup c
  · rcases hmem hg with ⟨-, rfl⟩ | hgold
    · rcases hmem hg' with ⟨-, rfl⟩ | hgold'
      · rfl
      · exact absurd heq.symm (Nat.ne_of_lt (hold hgold').2)
    · rcases hmem hg' with ⟨-, rfl⟩ | hgold'
      · exact absurd heq (Nat.ne_of_lt (hold hgold).2)
      · exact hinv.refs c c' g hgold g' hgold' heq
  · change ContextRight (update s.context co _ c) ((s.setThread co t).threads c).frames
    by_cases hc : c = co
    · rw [hc, setThread_self, update_self]
      exact ⟨rfl, hinv.context co⟩
    · rw [setThread_ne _ hc, update_of_ne hc]
      exact hinv.context c
  · rcases update_some hq with ⟨rfl, rfl⟩ | ⟨-, hq⟩
    · refine ⟨frame, ?_, rfl⟩
      rw [setThread_self]
      exact mem_cons_self
    · obtain ⟨g, hg, hgname⟩ := hinv.loading n q hq
      exact ⟨g, hkept hg, hgname⟩
  · rw [hstatus]
    rcases update_some hq with ⟨rfl, rfl⟩ | ⟨-, hq⟩
    · exact iff_of_false not_mem_nil (hnobody c)
    · exact hinv.queue n q hq c
  · have hwaiting := (hstatus c).symm.trans hc
    have hne : n ≠ name := by
      rintro rfl
      exact hnobody c hwaiting
    exact fun hnot => hinv.waiting c n hwaiting ((update_of_ne hne ..).symm.trans hnot)
  · exact hinv.woken c n ok ((hstatus c).symm.trans hc)
  · refine hinv.free.mono fun x y ⟨n, hwaiting, g, hg, hname⟩ => ?_
    have hwaiting := (hstatus x).symm.trans hwaiting
    rcases hmem hg with ⟨-, rfl⟩ | hgold
    · exact absurd (hwaiting.trans (congrArg _ hname.symm)) (hnobody x)
    · exact ⟨n, hwaiting, g, hgold, hname⟩

theorem RequireInv.advance (hinv : RequireInv loaded s) (f' : LoadFrame)
    (hco : (s.threads co).frames = f :: fs) (hsame : f'.name = f.name ∧ f'.initList = f.initList
      ∧ f'.oldInitList = f.oldInitList) (lists : List (List ℕ))
    (hlists : ∀ i, i ≠ f.initList → lists[i]? = s.lists[i]?)
    (hlist : lists[f.initList]? = some f'.registered) (hphase : PhaseRight f') :
    RequireInv loaded
      { s.setThread co { s.threads co with frames := f' :: fs } with lists := lists } := by
  obtain ⟨hname, hinitList, holdInitList⟩ := hsame
  set t : RequireThread := { s.threads co with frames := f' :: fs } with ht
  have hstatus (c : ℕ) : ((s.setThread co t).threads c).status = (s.threads c).status := by
    by_cases hc : c = co
    · rw [hc, setThread_self]
    · rw [setThread_ne _ hc]
  have hf : f ∈ (s.threads co).frames := hco ▸ mem_cons_self
  have hmem {c : ℕ} {g : LoadFrame} (hg : g ∈ ((s.setThread co t).threads c).frames) :
      c = co ∧ g = f' ∨ g ∈ (s.threads c).frames ∧ g.name ≠ f.name := by
    by_cases hc : c = co
    · rw [hc, setThread_self] at hg
      rcases mem_cons.mp hg with hg | hg
      · exact .inl ⟨hc, hg⟩
      · have hgold : g ∈ (s.threads c).frames := by
          rw [hc, hco]
          exact mem_cons_of_mem _ hg
        exact .inr ⟨hgold, hinv.other hco hgold (.inr hg)⟩
    · rw [setThread_ne _ hc] at hg
      exact .inr ⟨hg, hinv.other hco hg (.inl hc)⟩
  have hkept {c : ℕ} {g : LoadFrame} (hg : g ∈ (s.threads c).frames) :
      ∃ g' ∈ ((s.setThread co t).threads c).frames, g'.name = g.name := by
    by_cases hc : c = co
    · subst hc
      rw [setThread_self]
      rw [hco] at hg
      rcases mem_cons.mp hg with rfl | hg
      · exact ⟨f', mem_cons_self, hname⟩
      · exact ⟨g, mem_cons_of_mem _ hg, rfl⟩
    · rw [setThread_ne _ hc]
      exact ⟨g, hg, rfl⟩
  refine ⟨fun c g hg => ?_, fun c => ?_, fun c c' g hg g' hg' heq => ?_, fun c => ?_,
    fun n q hq => ?_, fun n q hq c => ?_,
    fun c n hc => hinv.waiting c n ((hstatus c).symm.trans hc),
    fun c n ok hc => hinv.woken c n ok ((hstatus c).symm.trans hc), hinv.results, hinv.records, ?_⟩
  · rcases hmem hg with ⟨rfl, rfl⟩ | ⟨hgold, hne⟩
    · obtain ⟨hloaded, hq, -⟩ := hinv.frame c f hf
      exact ⟨hname ▸ hloaded, hname ▸ hq, hinitList ▸ hlist, hphase⟩
    · obtain ⟨hloaded, hq, hglist, hgphase⟩ := hinv.frame c g hgold
      refine ⟨hloaded, hq, (hlists _ fun heq => hne ?_).trans hglist, hgphase⟩
      exact hinv.refs c co g hgold f hf heq
  · by_cases hc : c = co
    · have hnodup := hinv.nodup co
      rw [hco, map_cons, ← hname] at hnodup
      rw [hc, setThread_self]
      exact hnodup
    · rw [setThread_ne _ hc]
      exact hinv.nodup c
  · rcases hmem hg with ⟨rfl, rfl⟩ | ⟨hgold, -⟩
    · rcases hmem hg' with ⟨rfl, rfl⟩ | ⟨hgold', -⟩
      · rfl
      · exact hname.trans (hinv.refs c c' f hf g' hgold' (hinitList.symm.trans heq))
    · rcases hmem hg' with ⟨rfl, rfl⟩ | ⟨hgold', -⟩
      · exact (hinv.refs c c' g hgold f hf (heq.trans hinitList)).trans hname.symm
      · exact hinv.refs c c' g hgold g' hgold' heq
  · by_cases hc : c = co
    · have hcontext := hinv.context co
      rw [hco] at hcontext
      rw [hc, setThread_self]
      refine ⟨hinitList ▸ hcontext.1, ?_⟩
      rw [holdInitList]
      exact hcontext.2
    · rw [setThread_ne _ hc]
      exact hinv.context c
  · obtain ⟨g, hg, hgname⟩ := hinv.loading n q hq
    obtain ⟨g', hg', hname'⟩ := hkept hg
    exact ⟨g', hg', hname'.trans hgname⟩
  · rw [hstatus]
    exact hinv.queue n q hq c
  · refine hinv.free.mono fun x y ⟨n, hwaiting, g, hg, hgname⟩ => ?_
    have hx : (s.threads x).status = .waiting n := (hstatus x).symm.trans hwaiting
    rcases hmem hg with ⟨rfl, rfl⟩ | ⟨hgold, -⟩
    · exact ⟨n, hx, f, hf, hname.symm.trans hgname⟩
    · exact ⟨n, hx, g, hgold, hgname⟩

theorem loadEnded_status (hinv : RequireInv loaded s) (hco : s.threads co = ⟨f :: fs, .running⟩)
    (value : Option ModuleValue) (c : ℕ) :
    ((s.loadEnded co f fs value).threads c).frames
        = (if c = co then fs else (s.threads c).frames)
      ∧ ((s.loadEnded co f fs value).threads c).status
        = if (s.threads c).status = .waiting f.name then .woken f.name value.isSome
          else (s.threads c).status := by
  obtain ⟨-, ⟨queue, hqueue, -⟩, -⟩ := hinv.frame co f (by rw [hco]; exact mem_cons_self)
  have hwaiting := hinv.queue f.name queue hqueue c
  simp only [loadEnded, answer, hqueue, map_some, getD_some]
  by_cases hc : c = co
  · subst hc
    rw [hco] at hwaiting ⊢
    have hnot : c ∉ queue.waiting := fun hmem => nomatch hwaiting.mp hmem
    simp [hnot, setThread_self]
  · rw [setThread_ne _ hc, if_neg hc]
    by_cases hmem : c ∈ queue.waiting
    · have hstatus := hwaiting.mp hmem
      simp [hmem, hstatus, wake]
    · rw [if_neg hmem, if_neg (fun h => hmem (hwaiting.mpr h))]
      exact ⟨rfl, rfl⟩

theorem loadEnded_congr (hname : f'.name = f.name) (hold : f'.oldInitList = f.oldInitList) :
    s.loadEnded co f' fs value = s.loadEnded co f fs value := by
  simp only [loadEnded, hname, hold]

theorem RequireInv.ended (hinv : RequireInv loaded s) (hco : s.threads co = ⟨f :: fs, .running⟩)
    (hloaded : ∀ n, n ≠ f.name → loaded' n = s.loaded n) (hvalue : loaded' f.name = value)
    (hrecords : ∀ n, RecordRight loaded { s with loaded := loaded', records := records' } n)
    (hnobody : value ≠ none → ∀ c, (s.threads c).status ≠ .woken f.name false) :
    RequireInv loaded
      ({ s with loaded := loaded', records := records' }.loadEnded co f fs value) := by
  have hframes : (s.threads co).frames = f :: fs := by rw [hco]
  have hf : f ∈ (s.threads co).frames := hframes ▸ mem_cons_self
  obtain ⟨hnone, ⟨queue, hqueue, -⟩, -⟩ := hinv.frame co f hf
  set t := { s with loaded := loaded', records := records' }.loadEnded co f fs value with ht
  have hthread (c : ℕ) : (t.threads c).frames = (if c = co then fs else (s.threads c).frames)
      ∧ (t.threads c).status = if (s.threads c).status = .waiting f.name
          then .woken f.name value.isSome else (s.threads c).status :=
    loadEnded_status hinv hco value c
  have hloading {n : ℕ} {q : LoadingQueue} (hq : t.loading n = some q) :
      n ≠ f.name ∧ s.loading n = some q := by
    have hq : update s.loading f.name none n = some q := hq
    by_cases hn : n = f.name
    · subst hn
      rw [update_self] at hq
      cases hq
    · exact ⟨hn, (update_of_ne hn ..).symm.trans hq⟩
  have hmem {c : ℕ} {g : LoadFrame} (hg : g ∈ (t.threads c).frames) :
      g ∈ (s.threads c).frames ∧ g.name ≠ f.name := by
    rw [(hthread c).1] at hg
    split at hg
    · next hc =>
      have hgold : g ∈ (s.threads c).frames := by
        rw [hc, hframes]
        exact mem_cons_of_mem _ hg
      exact ⟨hgold, hinv.other hframes hgold (.inr hg)⟩
    · next hc => exact ⟨hg, hinv.other hframes hg (.inl hc)⟩
  have hwaiting {c n : ℕ} : (t.threads c).status = .waiting n ↔ n ≠ f.name
      ∧ (s.threads c).status = .waiting n := by
    rw [(hthread c).2]
    split
    · next hw =>
      refine iff_of_false nofun fun ⟨hne, h⟩ => hne ?_
      exact (ThreadStatus.waiting.inj (hw.symm.trans h)).symm
    · next hw =>
      refine ⟨fun h => ⟨?_, h⟩, And.right⟩
      rintro rfl
      exact hw h
  refine ⟨fun c g hg => ?_, fun c => ?_, fun c c' g hg g' hg' => ?_, fun c => ?_,
    fun n q hq => ?_, fun n q hq c => ?_, fun c n hc => ?_, fun c n ok hc => ?_, fun r hr => ?_,
    hrecords, ?_⟩
  · obtain ⟨hgold, hne⟩ := hmem hg
    obtain ⟨hnone, ⟨q, hq, hqco⟩, hrest⟩ := hinv.frame c g hgold
    exact ⟨(hloaded _ hne).trans hnone, ⟨q, (update_of_ne hne ..).trans hq, hqco⟩, hrest⟩
  · rw [(hthread c).1]
    split
    · have hnodup := hinv.nodup co
      rw [hframes, map_cons] at hnodup
      exact hnodup.of_cons
    · exact hinv.nodup c
  · exact hinv.refs c c' g (hmem hg).1 g' (hmem hg').1
  · rw [(hthread c).1]
    change ContextRight (update s.context co f.oldInitList c) _
    split
    · next hc =>
      have hcontext := hinv.context co
      rw [hframes] at hcontext
      rw [hc, update_self]
      exact hcontext.2
    · next hc =>
      rw [update_of_ne hc]
      exact hinv.context c
  · obtain ⟨hne, hq⟩ := hloading hq
    obtain ⟨g, hg, rfl⟩ := hinv.loading n q hq
    refine ⟨g, ?_, rfl⟩
    rw [(hthread q.co).1]
    split
    · next hc =>
      rw [hc, hframes] at hg
      exact (mem_cons.mp hg).resolve_left fun heq => hne (heq ▸ rfl)
    · exact hg
  · obtain ⟨hne, hq⟩ := hloading hq
    rw [hinv.queue n q hq c, hwaiting]
    exact (and_iff_right hne).symm
  · obtain ⟨hne, hc⟩ := hwaiting.mp hc
    exact fun hnone => hinv.waiting c n hc ((update_of_ne hne ..).symm.trans hnone)
  · have hnew : t.results = s.results ++ [⟨co, f.name, none, value⟩] := rfl
    change (loaded' n = none ↔ ok = false) ∧ _
    rw [(hthread c).2] at hc
    split at hc
    · obtain ⟨rfl, rfl⟩ := ThreadStatus.woken.inj hc
      refine ⟨by rw [hvalue, isSome_eq_false_iff, isNone_iff_eq_none], fun hok => ?_⟩
      rw [isSome_eq_false_iff, isNone_iff_eq_none] at hok
      refine ⟨⟨co, f.name, none, value⟩, ?_, rfl, rfl, hok⟩
      exact hnew ▸ mem_append_right _ (mem_singleton_self _)
    · obtain ⟨hiff, hfailed⟩ := hinv.woken c n ok hc
      refine ⟨?_, fun hok => ?_⟩
      · by_cases hn : n = f.name
        · subst hn
          have hok := hiff.mp hnone
          subst hok
          refine iff_of_true (hvalue.trans ?_) rfl
          by_contra hne
          exact hnobody hne c hc
        · rw [hloaded n hn]
          exact hiff
      · obtain ⟨r, hr, hright⟩ := hfailed hok
        exact ⟨r, hnew ▸ mem_append_left _ hr, hright⟩
  · rcases mem_append.mp hr with hr | hr
    · obtain ⟨hright, hwaited⟩ := hinv.results r hr
      refine ⟨fun v hv => ?_, hwaited⟩
      have hv := hright v hv
      refine (hloaded r.name ?_).trans hv
      intro heq
      rw [heq, hnone] at hv
      cases hv
    · rw [mem_singleton.mp hr]
      exact ⟨fun v hv => hvalue.trans hv, nofun⟩
  · refine hinv.free.mono fun x y ⟨n, hx, g, hg, hname⟩ => ?_
    exact ⟨n, (hwaiting.mp hx).2, g, (hmem hg).1, hname⟩

theorem RequireInv.resume (hinv : RequireInv loaded s) {ok : Bool}
    (hwoken : (s.threads co).status = .woken name ok) :
    RequireInv loaded ((s.setThread co { s.threads co with status := .running }).answer co name
      (some ok) (s.loaded name)) := by
  obtain ⟨hiff, -⟩ := hinv.woken co name ok hwoken
  set t : RequireThread := { s.threads co with status := .running } with ht
  have hframes (c : ℕ) : ((s.setThread co t).threads c).frames = (s.threads c).frames := by
    by_cases hc : c = co
    · rw [hc, setThread_self]
    · rw [setThread_ne _ hc]
  have hstatus {c : ℕ} {status : ThreadStatus} (hne : status ≠ .running) :
      ((s.setThread co t).threads c).status = status → (s.threads c).status = status := by
    by_cases hc : c = co
    · rw [hc, setThread_self]
      exact fun heq => absurd heq.symm hne
    · rw [setThread_ne _ hc]
      exact id
  have hset : RequireInv loaded (s.setThread co t) := by
    refine ⟨fun c g hg => hinv.frame c g (hframes c ▸ hg), fun c => hframes c ▸ hinv.nodup c,
      fun c c' g hg g' hg' => hinv.refs c c' g (hframes c ▸ hg) g' (hframes c' ▸ hg'),
      fun c => hframes c ▸ hinv.context c, fun n q hq => hframes q.co ▸ hinv.loading n q hq,
      fun n q hq c => ?_, fun c n hc => hinv.waiting c n (hstatus nofun hc),
      fun c n ok hc => hinv.woken c n ok (hstatus nofun hc), hinv.results, hinv.records, ?_⟩
    · rw [hinv.queue n q hq c]
      refine ⟨fun hwaiting => ?_, hstatus nofun⟩
      have hc : c ≠ co := by
        rintro rfl
        exact nomatch hwoken.symm.trans hwaiting
      rw [setThread_ne _ hc]
      exact hwaiting
    · refine hinv.free.mono fun x y ⟨n, hx, g, hg, hname⟩ => ?_
      exact ⟨n, hstatus nofun hx, g, hframes y ▸ hg, hname⟩
  refine hset.answer ⟨fun v hv => hv, fun ok' hok => ?_⟩
  rw [← some.inj hok]
  exact hiff

/-! ## Runs -/

def AtEnd (s : RequireState) (f : LoadFrame) (i : ℕ) : Prop :=
  (s.lists.getD f.initList [])[i]? = none

/-- A coroutine that would wait for a module is not one that the coroutine which loads the module
waits for, and no load is successful while a coroutine has not yet been told that the load it
waited for has failed. -/
def RequiresMeet (s : RequireState) : RequireAction → Prop
  | .require co name => ∀ queue, s.loading name = some queue → queue.co ≠ co →
    ¬ ReflTransGen (RequireWaits s) queue.co co
  | .chunkReturned co _ => ∀ f ∈ (s.threads co).frames.head?, AtEnd s f 0 →
    ∀ c, (s.threads c).status ≠ .woken f.name false
  | .initReturned co => ∀ f ∈ (s.threads co).frames.head?, ∀ m i, f.phase = .inits m i →
    AtEnd s f (i + 1) → ∀ c, (s.threads c).status ≠ .woken f.name false
  | _ => True

theorem RequireInv.getD_list (hinv : RequireInv loaded s) (hf : f ∈ (s.threads co).frames) :
    s.lists.getD f.initList [] = f.registered := by
  obtain ⟨-, -, hlist, -⟩ := hinv.frame co f hf
  rw [getD_eq_getElem?_getD, hlist, getD_some]

theorem RequireInv.initList (hinv : RequireInv loaded s) (f' : LoadFrame)
    (hco : s.threads co = ⟨f :: fs, .running⟩) (hsame : f'.name = f.name
      ∧ f'.initList = f.initList ∧ f'.oldInitList = f.oldInitList ∧ f'.registered = f.registered)
    {m : Option ℕ} {i : ℕ}
    (hfinished : f'.finished = f.registered.take i)
    (hnobody : AtEnd s f i → ∀ c, (s.threads c).status ≠ .woken f.name false) :
    RequireInv loaded (s.initList co f' fs m i) := by
  obtain ⟨hname, hinitList, holdInitList, hregistered⟩ := hsame
  have hframes : (s.threads co).frames = f :: fs := by rw [hco]
  have hmem : f ∈ (s.threads co).frames := hframes ▸ mem_cons_self
  obtain ⟨-, -, hlist, -⟩ := hinv.frame co f hmem
  have hget := hinv.getD_list hmem
  have hget' : s.lists.getD f'.initList [] = f.registered := by rw [hinitList, hget]
  unfold RequireState.initList
  rw [hget']
  cases hnext : f.registered[i]? with
  | some g =>
    have hlt := (List.getElem?_eq_some_iff.mp hnext).1
    refine hinv.advance { f' with phase := .inits m i } hframes
      ⟨hname, hinitList, holdInitList⟩ s.lists (fun _ _ => rfl) (hlist.trans ?_) ⟨?_, ?_⟩
    · exact congrArg _ hregistered.symm
    · exact hregistered ▸ hlt
    · exact hregistered ▸ hfinished
  | none =>
    have hlen : f.registered.length ≤ i := List.getElem?_eq_none_iff.mp hnext
    have hended := hnobody (by rw [AtEnd, hget, hnext])
    have hall : f'.finished = f'.registered := by
      rw [hfinished, hregistered, take_of_length_le hlen]
    rw [loadEnded_congr hname holdInitList, hname]
    refine hinv.ended hco (fun n hn => update_of_ne hn ..) (update_self ..)
      (fun n v hv => ?_) fun _ => hended
    rcases update_some hv with ⟨rfl, rfl⟩ | ⟨hne, hv⟩
    · exact .inr ⟨_, update_self .., rfl, hall⟩
    · refine (hinv.records n v hv).imp id fun ⟨r, hr, hright⟩ => ⟨r, ?_, hright⟩
      exact (update_of_ne hne ..).trans hr

theorem frames_running {p : LoadFrame → List LoadFrame → Option RequireState}
    (hstep : (match s.threads co with
      | ⟨frame :: frames, .running⟩ => p frame frames
      | _ => none) = some s') :
    ∃ f fs, s.threads co = ⟨f :: fs, .running⟩ ∧ p f fs = some s' := by
  split at hstep
  · next f fs hco => exact ⟨f, fs, hco, hstep⟩
  · cases hstep

theorem RequireInv.require (hinv : RequireInv loaded s)
    (hrunning : (s.threads co).status = .running)
    (hok : ∀ queue, s.loading name = some queue → queue.co ≠ co →
      ¬ ReflTransGen (RequireWaits s) queue.co co) : RequireInv loaded (s.require co name) := by
  have herror : RequireInv loaded (s.answer co name none none) := hinv.answer ⟨nofun, nofun⟩
  unfold RequireState.require
  split
  · next m hm => exact hinv.answer ⟨fun v hv => hm.trans hv, nofun⟩
  · next hnone =>
    split
    · exact herror
    · split
      · next queue hqueue =>
        split
        · exact herror
        · next hne => exact hinv.wait hrunning hqueue (hok queue hqueue hne)
      · next hnot => exact hinv.begin hnone hnot

theorem RequireInv.init (hinv : RequireInv loaded s) (x : ℕ) : RequireInv loaded (s.init co x) := by
  unfold RequireState.init
  split
  · next list frame frames hcontext hframes =>
    have hright := hinv.context co
    rw [hcontext, hframes] at hright
    obtain rfl := some.inj hright.1
    obtain ⟨-, -, hlist, hphase⟩ := hinv.frame co frame (hframes ▸ mem_cons_self)
    refine hinv.advance { frame with registered := frame.registered ++ [x] } hframes
      ⟨rfl, rfl, rfl⟩ _ (fun i hi => ?_) ?_ ?_
    · exact getElem?_modify_ne _ _ hi.symm
    · rw [getElem?_modify_eq, hlist]
      rfl
    · unfold PhaseRight at hphase ⊢
      cases hcase : frame.phase with
      | chunk =>
        rw [hcase] at hphase
        exact hphase
      | inits m i =>
        rw [hcase] at hphase
        obtain ⟨hlt, hfinished⟩ := hphase
        refine ⟨?_, hfinished.trans (take_append_of_le_length (Nat.le_of_lt hlt)).symm⟩
        rw [length_append]
        exact Nat.lt_add_right _ hlt
  · exact hinv

/-- Every step of a load keeps the invariant. -/
theorem RequireInv.step {a : RequireAction} (hinv : RequireInv loaded s) (hok : RequiresMeet s a)
    (hstep : next s a = some s') : RequireInv loaded s' := by
  cases a with
  | require co name =>
    obtain ⟨hrunning, hstep⟩ := ite_none_right_eq_some.mp hstep
    exact some.inj hstep ▸ hinv.require hrunning hok
  | init co x =>
    obtain ⟨-, hstep⟩ := ite_none_right_eq_some.mp hstep
    exact some.inj hstep ▸ hinv.init x
  | chunkReturned co m =>
    obtain ⟨f, fs, hco, hstep⟩ := frames_running hstep
    obtain ⟨hphase, hstep⟩ := ite_none_right_eq_some.mp hstep
    have hhead : f ∈ (s.threads co).frames.head? := by rw [hco]; rfl
    obtain ⟨-, -, -, hright⟩ := hinv.frame co f (mem_of_mem_head? hhead)
    rw [PhaseRight, hphase] at hright
    exact some.inj hstep ▸ hinv.initList f hco ⟨rfl, rfl, rfl, rfl⟩ hright
      (hok f hhead)
  | initReturned co =>
    obtain ⟨f, fs, hco, hstep⟩ := frames_running hstep
    have hhead : f ∈ (s.threads co).frames.head? := by rw [hco]; rfl
    have hmem := mem_of_mem_head? hhead
    obtain ⟨-, -, -, hright⟩ := hinv.frame co f hmem
    split at hstep
    · next m i hphase =>
      rw [PhaseRight, hphase] at hright
      obtain ⟨hlt, hfinished⟩ := hright
      rw [← some.inj hstep]
      refine hinv.initList
        { f with finished := f.finished ++ [(s.lists.getD f.initList []).getD i 0] } hco
        ⟨rfl, rfl, rfl, rfl⟩ ?_ (hok f hhead m i hphase)
      rw [hfinished, hinv.getD_list hmem, getD_eq_getElem?_getD, take_add_one,
        getElem?_eq_getElem hlt]
      rfl
    · cases hstep
  | raised co =>
    obtain ⟨f, fs, hco, hstep⟩ := frames_running hstep
    obtain ⟨hnone, -⟩ := hinv.frame co f (by rw [hco]; exact mem_cons_self)
    exact some.inj hstep ▸ hinv.ended hco (fun _ _ => rfl) hnone hinv.records
      (absurd rfl)
  | resume co =>
    simp only [RequireState.next] at hstep
    split at hstep
    · next name ok hwoken => exact some.inj hstep ▸ hinv.resume hwoken
    · cases hstep

theorem requireInv_run (h : (machine files loaded).Reach RequiresMeet s) : RequireInv loaded s := by
  refine h.invariant ?_ fun _ _ _ hinv hok hstep => hinv.step hok hstep
  rintro s rfl
  exact .start

/-! ## What require does -/

/-- A module that is neither loaded nor being loaded is loaded by the next coroutine that requires
it, also after a failure. -/
def TriesAgain (s : RequireState) : Prop := ∀ name, s.files name = true → s.loaded name = none →
    (∀ co, ∀ f ∈ (s.threads co).frames, f.name ≠ name) →
    ∀ co, (s.threads co).status = .running →
    ∃ s', next s (.require co name) = some s' ∧ ∃ f ∈ (s'.threads co).frames, f.name = name

def CircularRaises (s : RequireState) : Prop :=
  ∀ co, ∀ f ∈ (s.threads co).frames, (s.threads co).status = .running →
    next s (.require co f.name) = some (s.answer co f.name none none)

/-- The loads and the calls of `require` in a state. -/
structure RequiresRight (loaded : ℕ → Option ModuleValue) (s : RequireState) : Prop where
  once : ∀ co co', ∀ f ∈ (s.threads co).frames, ∀ f' ∈ (s.threads co').frames,
    f.name = f'.name → co = co'
  nodup : ∀ co, ((s.threads co).frames.map LoadFrame.name).Nodup
  notAgain : ∀ co, ∀ f ∈ (s.threads co).frames, s.loaded f.name = none
  value : ∀ r ∈ s.results, ∀ v, r.value = some v → s.loaded r.name = some v
  finished : ∀ name, RecordRight loaded s name
  waited : ∀ r ∈ s.results, ∀ ok, r.waited = some ok → (r.value = none ↔ ok = false)
  waiting : ∀ co name, (s.threads co).status = .waiting name →
    ∃ co', ∃ f ∈ (s.threads co').frames, f.name = name
  tries : TriesAgain s
  circular : CircularRaises s
  noCycle : ∀ co, ¬ TransGen (RequireWaits s) co co
  progress : ∀ co, ∃ co', ReflTransGen (RequireWaits s) co co'
    ∧ ∀ name, (s.threads co').status ≠ .waiting name

theorem RequireInv.owned (hinv : RequireInv loaded s)
    (hwaiting : (s.threads co).status = .waiting name) :
    ∃ co', ∃ f ∈ (s.threads co').frames, f.name = name := by
  obtain ⟨q, hq⟩ := ne_none_iff_exists'.mp (hinv.waiting co name hwaiting)
  exact ⟨q.co, hinv.loading name q hq⟩

theorem RequireInv.tries (hinv : RequireInv loaded s) : TriesAgain s := by
  intro name hfile hnone hnobody co hrunning
  have hnot : s.loading name = none := by
    by_contra hsome
    obtain ⟨q, hq⟩ := ne_none_iff_exists'.mp hsome
    obtain ⟨f, hf, hname⟩ := hinv.loading name q hq
    exact hnobody q.co f hf hname
  refine ⟨_, if_pos hrunning, ?_⟩
  simp [RequireState.require, hnone, hfile, hnot, setThread]

theorem RequireInv.circular (hinv : RequireInv loaded s) : CircularRaises s := by
  intro co f hf hrunning
  obtain ⟨hnone, ⟨q, hq, hco⟩, -⟩ := hinv.frame co f hf
  simp [RequireState.next, RequireState.require, hrunning, hnone, hq, hco]

theorem RequireInv.right (hinv : RequireInv loaded s) : RequiresRight loaded s where
  once := fun co co' f hf f' hf' hname => hinv.owner hf hf' hname
  nodup := hinv.nodup
  notAgain := fun co f hf => (hinv.frame co f hf).1
  value := fun r hr => (hinv.results r hr).1
  finished := hinv.records
  waited := fun r hr => (hinv.results r hr).2
  waiting := fun _ _ hwaiting => hinv.owned hwaiting
  tries := hinv.tries
  circular := hinv.circular
  noCycle := hinv.free.not_cycle
  progress := fun co => by
    obtain ⟨co', hpath, hfree⟩ := hinv.free.free co
    refine ⟨co', hpath, fun name hwaiting => ?_⟩
    obtain ⟨owner, howner⟩ := hinv.owned hwaiting
    exact hfree owner ⟨name, hwaiting, howner⟩

/-- A module is loaded by one coroutine at a time and never again after a success; all successful
calls have its value, with all its init functions behind them; those that wait for a load that
fails get an error, and nobody waits in a circle. -/
theorem module_loaded_once (files : ℕ → Bool) (loaded : ℕ → Option ModuleValue)
    (s : RequireState) : (machine files loaded).Reach RequiresMeet s → RequiresRight loaded s :=
  fun h => (requireInv_run h).right

/-- Each coroutine that would wait finds the other one running, and no load that is successful has
failed before. -/
def RequiresMeetRunning (s : RequireState) : RequireAction → Prop
  | .require co name => ∀ queue ∈ s.loading name, queue.co ≠ co →
    (s.threads queue.co).status = .running
  | .chunkReturned co _ | .initReturned co => ∀ f ∈ (s.threads co).frames.head?,
    ∀ r ∈ s.results, r.name = f.name → r.value ≠ none
  | _ => True

instance : ∀ (s : RequireState) a, Decidable (RequiresMeetRunning s a)
  | s, .require co name =>
    inferInstanceAs (Decidable (∀ queue ∈ s.loading name, queue.co ≠ co →
      (s.threads queue.co).status = .running))
  | s, .chunkReturned co _ | s, .initReturned co =>
    inferInstanceAs (Decidable (∀ f ∈ (s.threads co).frames.head?,
      ∀ r ∈ s.results, r.name = f.name → r.value ≠ none))
  | _, .init _ _ | _, .raised _ | _, .resume _ => isTrue trivial

theorem RequireInv.meet {a : RequireAction} (hinv : RequireInv loaded s)
    (hok : RequiresMeetRunning s a) : RequiresMeet s a := by
  have htold {co : ℕ} (hok : ∀ f ∈ (s.threads co).frames.head?,
      ∀ r ∈ s.results, r.name = f.name → r.value ≠ none) :
      ∀ f ∈ (s.threads co).frames.head?, ∀ c, (s.threads c).status ≠ .woken f.name false := by
    intro f hf c hwoken
    obtain ⟨r, hr, hname, -, hvalue⟩ := (hinv.woken c f.name false hwoken).2 rfl
    exact hok f hf r hr hname hvalue
  cases a with
  | require co name =>
    intro queue hqueue hne hpath
    rcases ReflTransGen.cases_head hpath with heq | ⟨x, ⟨n, hwaiting, -⟩, -⟩
    · exact hne heq
    · exact nomatch (hok queue hqueue hne).symm.trans hwaiting
  | chunkReturned co m => exact fun f hf _ => htold hok f hf
  | initReturned co => exact fun f hf _ _ _ _ => htold hok f hf
  | init co x => trivial
  | raised co => trivial
  | resume co => trivial

theorem reach_of_running (h : (machine files loaded).Reach RequiresMeetRunning s) :
    (machine files loaded).Reach RequiresMeet s := by
  induction h with
  | start h => exact .start h
  | step _ hok hstep ih => exact ih.step ((requireInv_run ih).meet hok) hstep

/-- A module that requires another one, while a second coroutine waits for it; then one that fails,
with the second coroutine waiting, and which this coroutine tries again. -/
theorem modules_loaded_once : ∃ s, RequiresRight (fun _ => none) s
    ∧ s.results = [⟨0, 1, none, some (.value 5)⟩, ⟨0, 0, none, some .yes⟩,
      ⟨1, 0, some true, some .yes⟩, ⟨0, 2, none, none⟩, ⟨1, 2, some false, none⟩]
    ∧ (s.threads 1).frames.map LoadFrame.name = [2] := by
  have hrun : ((machine (fun _ => true) fun _ => none).runOk RequiresMeetRunning
      (start (fun _ => true) fun _ => none) [.require 0 0, .init 0 7, .require 1 0, .require 0 1,
      .init 0 8, .chunkReturned 0 (some 5), .initReturned 0, .chunkReturned 0 none,
      .initReturned 0, .resume 1, .require 0 2, .require 1 2, .raised 0, .resume 1,
      .require 1 2]).map
      (fun s => decide (s.results = [⟨0, 1, none, some (.value 5)⟩, ⟨0, 0, none, some .yes⟩,
        ⟨1, 0, some true, some .yes⟩, ⟨0, 2, none, none⟩, ⟨1, 2, some false, none⟩]
        ∧ (s.threads 1).frames.map LoadFrame.name = [2])) = some true := by
    decide
  obtain ⟨s, hs, hstate⟩ := map_eq_some_iff.mp hrun
  have hreach := reach_of_running (.runOk (.start rfl) hs)
  exact ⟨s, module_loaded_once _ _ s hreach, of_decide_eq_true hstate⟩

/-- Two modules that require each other, required by two coroutines: each one loads its module and
waits for the other one. -/
theorem modules_wait_in_circle : ∃ s, (machine (fun _ => true) fun _ => none).Reachable s
    ∧ (s.threads 0).status = .waiting 1 ∧ (s.threads 1).status = .waiting 0
    ∧ s.results = [] ∧ ¬ RequiresRight (fun _ => none) s := by
  have hrun : ((machine (fun _ => true) fun _ => none).run (start (fun _ => true) fun _ => none)
      [.require 0 0, .require 1 1, .require 0 1, .require 1 0]).map
      (fun s => decide ((s.threads 0).status = .waiting 1 ∧ (s.threads 1).status = .waiting 0
        ∧ s.results = [] ∧ (s.threads 0).frames.map LoadFrame.name = [0]
        ∧ (s.threads 1).frames.map LoadFrame.name = [1])) = some true := by
    decide
  obtain ⟨s, hs, hstate⟩ := map_eq_some_iff.mp hrun
  obtain ⟨hzero, hone, hresults, hnames, hnames'⟩ := of_decide_eq_true hstate
  refine ⟨s, Machine.Reachable.run (.start rfl) hs, hzero, hone, hresults, fun hright => ?_⟩
  have hframe {co name : ℕ} (hmap : (s.threads co).frames.map LoadFrame.name = [name]) :
      ∃ f ∈ (s.threads co).frames, f.name = name :=
    List.mem_map.mp (hmap ▸ mem_singleton_self name)
  refine hright.noCycle 0 (.head ⟨1, hzero, hframe hnames'⟩ (.single ⟨0, hone, hframe hnames⟩))

end Skynet.Analysis
