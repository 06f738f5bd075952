import Skynet.Model.SnluaSignal
import Mathlib.Data.Fintype.Basic

/-!
# Signals and the Lua threads they hook

`snlua_signal` reads `activeL` and calls `lua_sethook` on it a step later.  What keeps the thread
it has read from being collected is the wait in `lua_resumeX`, and the wait looks at `trap` only.
So a thread is hooked in time where the flag is still up when its coroutine is left, and where
`activeL` is read neither before the first coroutine nor between the look at the flag and the
switch.
-/

namespace Skynet.Analysis

open Library Model Snlua Function Option List

variable {τ : Type} {s s' : Snlua τ} {t : τ} {co n : ℕ}

def Trapping : SignalPc → Prop
  | .read | .sethook _ | .casBack => True
  | _ => False

def AimsAt (s : Snlua τ) (co : ℕ) : Prop := ∃ t, s.signals t = .sethook (some co)

/-- Every `lua_sethook` that comes next is of a Lua thread that is there; no signal has raised two
errors; a flag of `1` has a thread before its second compare-and-exchange, and the spin loop runs
only under such a flag or has seen its end. -/
structure SignalsSafe (s : Snlua τ) : Prop where
  alive : ∀ t L, s.signals t = .sethook L → ∃ co, L = some co ∧ s.status co ≠ none
  once : s.raised.Nodup
  served : s.trap = 1 → ∃ t, Trapping (s.signals t)
  spins : s.worker = .spin → s.trap = 1 ∨ s.trap = -1

/-- `lua_resumeX` goes on to leave a finished coroutine only when no thread aims at it; `activeL` is
read after the first switch, and not when the worker is about to overwrite a finished coroutine in
it; the second compare-and-exchange does not fail without reason. -/
def SignalInTime (s : Snlua τ) : SnluaAction τ → Prop
  | .worker =>
    s.status s.current = some .finished →
      s.worker = .returned ∧ s.trap = 0 ∨ s.worker = .spin ∧ s.trap < 0 → ¬ AimsAt s s.current
  | .atom t =>
    s.signals t = .read →
      s.activeL ≠ none ∧ ¬ (s.worker = .leave ∧ s.status s.current = some .finished)
  | .spurious t => s.signals t ≠ .casBack
  | _ => True

/-! ## The flag -/

/-- What every step keeps of the flag: its values, the numbers of the errors it has raised, and the
thread that has set it. -/
structure TrapInv (s : Snlua τ) : Prop where
  values : s.trap = 0 ∨ s.trap = 1 ∨ s.trap = -1
  numbers : ∀ n ∈ s.raised, n ≤ s.accepted
  pending : s.trap ≠ 0 → s.accepted ∉ s.raised
  nodup : s.raised.Nodup
  up : s.worker = .hookStore ∨ s.worker = .spin → s.trap ≠ 0
  served : s.trap = 1 → ∃ t, Trapping (s.signals t)

theorem TrapInv.worker (h : TrapInv s) (htrap : s'.trap = s.trap)
    (hacc : s'.accepted = s.accepted) (hraised : s'.raised = s.raised)
    (hsignals : s'.signals = s.signals)
    (hup : s'.worker = .hookStore ∨ s'.worker = .spin → s.trap ≠ 0) : TrapInv s' where
  values := htrap ▸ h.values
  numbers := hacc ▸ hraised ▸ h.numbers
  pending := htrap ▸ hacc ▸ hraised ▸ h.pending
  nodup := hraised ▸ h.nodup
  up := htrap ▸ hup
  served := htrap ▸ hsignals ▸ h.served

theorem TrapInv.lowered (h : TrapInv s) (hup : s.trap ≠ 0) :
    TrapInv { s with trap := 0, raised := s.raised ++ [s.accepted], worker := .running } where
  values := .inl rfl
  numbers n hn := by
    rcases mem_append.mp hn with hn | hn
    · exact h.numbers n hn
    · exact Nat.le_of_eq (mem_singleton.mp hn)
  pending hne := absurd rfl hne
  nodup := nodup_append.mpr ⟨h.nodup, nodup_singleton _, fun a ha b hb heq =>
    h.pending hup (mem_singleton.mp hb ▸ heq ▸ ha)⟩
  up hw := by simp at hw
  served hone := by simp at hone

theorem TrapInv.workerStep (h : TrapInv s) (hs : s.workerStep = some s') : TrapInv s' := by
  unfold Snlua.workerStep at hs
  cases hw : s.worker with
  | running => simp only [hw, reduceCtorEq] at hs
  | switchLoad entering =>
    simp only [hw, some.injEq] at hs
    subst hs
    refine h.worker rfl rfl rfl rfl fun hup => ?_
    cases entering <;> simp [afterSwitch, apply_ite] at hup <;> grind
  | switchHook entering =>
    simp only [hw, some.injEq] at hs
    subst hs
    refine h.worker rfl rfl rfl rfl fun hup => ?_
    cases entering <;> simp [afterSwitch] at hup
  | resume =>
    simp only [hw] at hs
    split at hs <;>
      (simp only [some.injEq] at hs; subst hs; exact h.worker rfl rfl rfl rfl nofun)
  | returned =>
    simp only [hw, some.injEq] at hs
    subst hs
    refine h.worker rfl rfl rfl rfl fun hup htrap => ?_
    simp [htrap] at hup
  | spin =>
    simp only [hw, some.injEq] at hs
    subst hs
    exact h.worker rfl rfl rfl rfl fun _ => h.up (.inr hw)
  | leave =>
    simp only [hw, some.injEq] at hs
    subst hs
    exact h.worker rfl rfl rfl rfl nofun
  | hookReset =>
    simp only [hw, some.injEq] at hs
    subst hs
    exact h.worker rfl rfl rfl rfl nofun
  | hookLoad =>
    simp only [hw, some.injEq] at hs
    subst hs
    refine h.worker rfl rfl rfl rfl fun hup htrap => ?_
    simp [htrap] at hup
  | hookStore =>
    simp only [hw, some.injEq] at hs
    exact hs ▸ h.lowered (h.up (.inl hw))

section

variable [DecidableEq τ]

theorem TrapInv.goto {pc : SignalPc} (h : TrapInv s)
    (hserve : s.trap = 1 → Trapping (s.signals t) → Trapping pc) : TrapInv (s.goto t pc) where
  values := h.values
  numbers := h.numbers
  pending := h.pending
  nodup := h.nodup
  up := h.up
  served hone := by
    obtain ⟨u, hu⟩ := h.served hone
    by_cases heq : u = t
    · subst heq
      exact ⟨u, by simpa [Snlua.goto] using hserve hone hu⟩
    · exact ⟨u, by simpa [Snlua.goto, heq] using hu⟩

theorem TrapInv.away {pc : SignalPc} (h : TrapInv s) (haway : ¬ Trapping (s.signals t)) :
    TrapInv (s.goto t pc) :=
  h.goto fun _ hserve => absurd hserve haway

theorem TrapInv.signalStep (h : TrapInv s) (hs : s.signalStep t = some s') : TrapInv s' := by
  unfold Snlua.signalStep at hs
  cases hpc : s.signals t with
  | idle => simp only [hpc, reduceCtorEq] at hs
  | load =>
    simp only [hpc, some.injEq] at hs
    exact hs ▸ h.away (by rw [hpc]; exact id)
  | cas =>
    simp only [hpc] at hs
    split at hs
    · cases hs
      exact {
        values := .inr (.inl rfl)
        numbers := fun n hn => Nat.le_succ_of_le (h.numbers n hn)
        pending := fun _ hn => absurd (h.numbers _ hn) (Nat.not_succ_le_self _)
        nodup := h.nodup
        up := fun _ => by simp
        served := fun _ => ⟨t, by simp [Snlua.goto, Trapping]⟩ }
    · simp only [some.injEq] at hs
      exact hs ▸ h.away (by rw [hpc]; exact id)
  | read =>
    simp only [hpc, some.injEq] at hs
    exact hs ▸ h.goto fun _ _ => trivial
  | sethook L =>
    cases L with
    | none => simp only [hpc, reduceCtorEq] at hs
    | some co =>
      simp only [hpc, ite_none_left_eq_some, some.injEq] at hs
      obtain ⟨-, rfl⟩ := hs
      have hgo : TrapInv (s.goto t .casBack) := h.goto fun _ _ => trivial
      exact hgo.worker rfl rfl rfl rfl h.up
  | casBack =>
    simp only [hpc, some.injEq] at hs
    subst hs
    have hone : (if s.trap = 1 then -1 else s.trap) ≠ 1 := by
      split <;> simp_all
    have hzero : (if s.trap = 1 then -1 else s.trap) ≠ 0 ↔ s.trap ≠ 0 := by
      split <;> simp_all
    exact {
      values := by
        rcases h.values with hv | hv | hv <;> simp [hv]
      numbers := h.numbers
      pending := fun hne => h.pending (hzero.mp hne)
      nodup := h.nodup
      up := fun hw => hzero.mpr (h.up hw)
      served := fun heq => absurd heq hone }

/-- **Every step keeps what is known of the flag**, but for a second compare-and-exchange that
fails without reason. -/
theorem TrapInv.next {a : SnluaAction τ} (h : TrapInv s)
    (hok : ∀ t, a = .spurious t → s.signals t ≠ .casBack) (hs : s.next a = some s') :
    TrapInv s' := by
  cases a with
  | worker => exact h.workerStep hs
  | atom t => exact h.signalStep hs
  | signal t signal =>
    obtain ⟨hidle, heq⟩ := ite_none_right_eq_some.mp hs
    exact some.inj heq ▸ h.away (by rw [hidle]; exact id)
  | spurious t =>
    obtain ⟨hpc, heq⟩ := ite_none_right_eq_some.mp hs
    have hcas := hpc.resolve_right (hok t rfl)
    exact some.inj heq ▸ h.away (by rw [hcas]; exact id)
  | create =>
    obtain ⟨hrun, heq⟩ := ite_none_right_eq_some.mp hs
    exact some.inj heq ▸ h.worker rfl rfl rfl rfl h.up
  | collect co =>
    obtain ⟨-, heq⟩ := ite_none_right_eq_some.mp hs
    exact some.inj heq ▸ h.worker rfl rfl rfl rfl h.up
  | resume co | yield | finish | count =>
    obtain ⟨-, heq⟩ := ite_none_right_eq_some.mp hs
    exact some.inj heq ▸ h.worker rfl rfl rfl rfl nofun

end

/-! ## The threads it hooks -/

/-- What every step in time keeps: the Lua threads under `lua_resumeX` are there and `activeL` is
the innermost of them; a thread at which somebody aims is there, and where it has finished it is
still under `lua_resumeX` and not about to be left. -/
structure LifeInv (s : Snlua τ) : Prop where
  made : s.made ≠ 0
  main : s.status 0 = some .active
  stack : ∀ co ∈ s.stack, s.status co ≠ none
  active : ∀ co, s.activeL = some co → co = s.current
  aims : ∀ t L, s.signals t = .sethook L → ∃ co, L = some co ∧ s.status co ≠ none ∧
    (s.status co = some .finished → co ∈ s.stack ∧ (s.worker = .leave → co ≠ s.current))

theorem current_mem (h : s.current ≠ 0) : s.current ∈ s.stack := by
  unfold current at h ⊢
  cases hstack : s.stack with
  | nil => simp [hstack] at h
  | cons co rest => simp

theorem LifeInv.current_alive (h : LifeInv s) : s.status s.current ≠ none := by
  by_cases hzero : s.current = 0
  · rw [hzero, h.main]
    nofun
  · exact h.stack _ (current_mem hzero)

theorem LifeInv.current_finished (h : LifeInv s) (hfin : s.status s.current = some .finished) :
    s.current ∈ s.stack := by
  refine current_mem fun hzero => ?_
  rw [hzero, h.main] at hfin
  cases hfin

theorem LifeInv.worker (h : LifeInv s) (hmade : s'.made = s.made) (hstatus : s'.status = s.status)
    (hstack : s'.stack = s.stack) (hactive : s'.activeL = s.activeL)
    (hsignals : s'.signals = s.signals)
    (hleave : s'.worker = .leave → s.status s.current = some .finished →
      ¬ AimsAt s s.current) : LifeInv s' where
  made := hmade ▸ h.made
  main := hstatus ▸ h.main
  stack := hstatus ▸ hstack ▸ h.stack
  active co hco := by
    rw [hactive] at hco
    rw [h.active co hco, current, current, hstack]
  aims t L ht := by
    rw [hsignals] at ht
    obtain ⟨co, rfl, halive, hfin⟩ := h.aims t L ht
    rw [hstatus, hstack]
    refine ⟨co, rfl, halive, fun hco => ⟨(hfin hco).1, fun hw heq => ?_⟩⟩
    rw [current, hstack, ← current] at heq
    exact hleave hw (heq ▸ hco) ⟨t, heq ▸ ht⟩

theorem LifeInv.status {st : LuaStatus} {w : WorkerPc} (h : LifeInv s) (hne : s.current ≠ 0)
    (hw : w ≠ .leave) :
    LifeInv { s with status := update s.status s.current (some st), worker := w } where
  made := h.made
  main := by simpa [update_of_ne (Ne.symm hne)] using h.main
  stack co hco := by
    by_cases heq : co = s.current
    · simp [heq]
    · simpa [update_of_ne heq] using h.stack co hco
  active := h.active
  aims t L ht := by
    obtain ⟨co, rfl, halive, hfin⟩ := h.aims t L ht
    by_cases heq : co = s.current
    · subst heq
      exact ⟨_, rfl, by simp, fun _ => ⟨current_mem hne, fun hleave => absurd hleave hw⟩⟩
    · refine ⟨co, rfl, by simpa [update_of_ne heq] using halive, fun hco => ?_⟩
      have hco : s.status co = some .finished := by
        simpa [update_of_ne heq] using hco
      exact ⟨(hfin hco).1, fun hleave => absurd hleave hw⟩

theorem LifeInv.leave (h : LifeInv s) (hw : s.worker = .leave) :
    LifeInv { s with
      activeL := some (s.stack.tail.headD 0), stack := s.stack.tail
      worker := .switchLoad false } where
  made := h.made
  main := h.main
  stack co hco := h.stack co (mem_of_mem_tail hco)
  active co hco := (some.inj hco).symm
  aims t L ht := by
    obtain ⟨co, rfl, halive, hfin⟩ := h.aims t L ht
    refine ⟨co, rfl, halive, fun hco => ⟨?_, nofun⟩⟩
    obtain ⟨hmem, hne⟩ := hfin hco
    have hne := hne hw
    unfold current at hne
    cases hstack : s.stack with
    | nil => simp [hstack] at hmem
    | cons x xs =>
      rw [hstack] at hmem hne
      exact (mem_cons.mp hmem).resolve_left hne

theorem LifeInv.workerStep (h : LifeInv s)
    (hok : s.status s.current = some .finished →
      s.worker = .returned ∧ s.trap = 0 ∨ s.worker = .spin ∧ s.trap < 0 → ¬ AimsAt s s.current)
    (hs : s.workerStep = some s') : LifeInv s' := by
  unfold Snlua.workerStep at hs
  cases hw : s.worker with
  | running => simp only [hw, reduceCtorEq] at hs
  | switchLoad entering =>
    simp only [hw, some.injEq] at hs
    subst hs
    refine h.worker rfl rfl rfl rfl rfl fun hleave => ?_
    cases entering <;> simp [afterSwitch, apply_ite] at hleave <;> grind
  | switchHook entering =>
    simp only [hw, some.injEq] at hs
    subst hs
    refine h.worker rfl rfl rfl rfl rfl fun hleave => ?_
    cases entering <;> simp [afterSwitch] at hleave
  | resume =>
    simp only [hw] at hs
    split at hs
    · next hsusp =>
      cases hs
      refine h.status (fun hzero => ?_) (by simp)
      rw [hzero, h.main] at hsusp
      cases hsusp
    · cases hs
      exact h.worker rfl rfl rfl rfl rfl nofun
  | returned =>
    simp only [hw, some.injEq] at hs
    subst hs
    refine h.worker rfl rfl rfl rfl rfl fun hleave hfin => hok hfin (.inl ⟨hw, ?_⟩)
    by_contra htrap
    simp [htrap] at hleave
  | spin =>
    simp only [hw, some.injEq] at hs
    subst hs
    refine h.worker rfl rfl rfl rfl rfl fun hleave hfin => hok hfin (.inr ⟨hw, ?_⟩)
    by_contra htrap
    exact htrap (by simpa using hleave)
  | leave =>
    simp only [hw, some.injEq] at hs
    exact hs ▸ h.leave hw
  | hookReset =>
    simp only [hw, some.injEq] at hs
    subst hs
    exact h.worker rfl rfl rfl rfl rfl nofun
  | hookLoad =>
    simp only [hw, some.injEq] at hs
    subst hs
    refine h.worker rfl rfl rfl rfl rfl fun hleave => ?_
    split at hleave <;> cases hleave
  | hookStore =>
    simp only [hw, some.injEq] at hs
    subst hs
    exact h.worker rfl rfl rfl rfl rfl nofun

theorem LifeInv.collect (h : LifeInv s) (hfin : s.status co = some .finished)
    (hstack : co ∉ s.stack) :
    LifeInv { s with status := update s.status co none } where
  made := h.made
  main := by
    have hne : (0 : ℕ) ≠ co := fun heq => by
      rw [← heq, h.main] at hfin
      cases hfin
    simpa [update_of_ne hne] using h.main
  stack x hx := by
    have hne : x ≠ co := fun heq => hstack (heq ▸ hx)
    simpa [update_of_ne hne] using h.stack x hx
  active := h.active
  aims t L ht := by
    obtain ⟨x, rfl, halive, hx⟩ := h.aims t L ht
    have hne : x ≠ co := fun heq => hstack (heq ▸ (hx (heq ▸ hfin)).1)
    exact ⟨x, rfl, by simpa [update_of_ne hne] using halive, fun hfin =>
      hx (by simpa [update_of_ne hne] using hfin)⟩

theorem LifeInv.create {hook : ℕ → Bool} (h : LifeInv s) :
    LifeInv { s with
      made := s.made + 1
      status := update s.status s.made (some .suspended)
      hook := hook } where
  made := Nat.succ_ne_zero _
  main := by simpa [update_of_ne (Ne.symm h.made)] using h.main
  stack co hco := by
    by_cases heq : co = s.made
    · simp [heq]
    · simpa [update_of_ne heq] using h.stack co hco
  active := h.active
  aims t L ht := by
    obtain ⟨co, rfl, halive, hfin⟩ := h.aims t L ht
    by_cases heq : co = s.made
    · exact ⟨co, rfl, by simp [heq], fun hco => by simp [heq] at hco⟩
    · exact ⟨co, rfl, by simpa [update_of_ne heq] using halive, fun hco =>
        hfin (by simpa [update_of_ne heq] using hco)⟩

theorem LifeInv.resume (h : LifeInv s) (halive : s.status co ≠ none) :
    LifeInv { s with activeL := some co, stack := co :: s.stack, worker := .switchLoad true } where
  made := h.made
  main := h.main
  stack x hx := by
    rcases mem_cons.mp hx with rfl | hx
    · exact halive
    · exact h.stack x hx
  active x hx := (some.inj hx).symm
  aims t L ht := by
    obtain ⟨x, rfl, hx, hfin⟩ := h.aims t L ht
    exact ⟨x, rfl, hx, fun hco => ⟨mem_cons_of_mem _ (hfin hco).1, nofun⟩⟩

section

variable [DecidableEq τ]

theorem LifeInv.goto {pc : SignalPc} (h : LifeInv s)
    (haims : ∀ L, pc = .sethook L → ∃ co, L = some co ∧ s.status co ≠ none ∧
      (s.status co = some .finished → co ∈ s.stack ∧ (s.worker = .leave → co ≠ s.current))) :
    LifeInv (s.goto t pc) where
  made := h.made
  main := h.main
  stack := h.stack
  active := h.active
  aims u L hu := by
    by_cases heq : u = t
    · subst heq
      exact haims L (by simpa [Snlua.goto] using hu)
    · exact h.aims u L (by simpa [Snlua.goto, heq] using hu)

theorem LifeInv.signalStep (h : LifeInv s)
    (hok : s.signals t = .read →
      s.activeL ≠ none ∧ ¬ (s.worker = .leave ∧ s.status s.current = some .finished))
    (hs : s.signalStep t = some s') : LifeInv s' := by
  unfold Snlua.signalStep at hs
  cases hpc : s.signals t with
  | idle => simp only [hpc, reduceCtorEq] at hs
  | load =>
    simp only [hpc, some.injEq] at hs
    subst hs
    refine h.goto fun L hL => ?_
    split at hL <;> cases hL
  | cas =>
    simp only [hpc] at hs
    split at hs
    · cases hs
      have hgo : LifeInv (s.goto t .read) := h.goto nofun
      exact ⟨hgo.made, hgo.main, hgo.stack, hgo.active, hgo.aims⟩
    · simp only [some.injEq] at hs
      exact hs ▸ h.goto nofun
  | read =>
    simp only [hpc, some.injEq] at hs
    subst hs
    obtain ⟨hactive, hleave⟩ := hok hpc
    refine h.goto fun L hL => ?_
    obtain ⟨co, hco⟩ := ne_none_iff_exists'.mp hactive
    obtain rfl := h.active co hco
    refine ⟨s.current, (SignalPc.sethook.inj hL) ▸ hco, h.current_alive, fun hfin => ?_⟩
    exact ⟨h.current_finished hfin, fun hw => absurd ⟨hw, hfin⟩ hleave⟩
  | sethook L =>
    cases L with
    | none => simp only [hpc, reduceCtorEq] at hs
    | some co =>
      simp only [hpc, ite_none_left_eq_some, some.injEq] at hs
      obtain ⟨-, rfl⟩ := hs
      have hgo : LifeInv (s.goto t .casBack) := h.goto nofun
      exact ⟨hgo.made, hgo.main, hgo.stack, hgo.active, hgo.aims⟩
  | casBack =>
    simp only [hpc, some.injEq] at hs
    subst hs
    have hgo : LifeInv (s.goto t .idle) := h.goto nofun
    exact ⟨hgo.made, hgo.main, hgo.stack, hgo.active, hgo.aims⟩

/-- **Every step in time keeps the threads aimed at.** -/
theorem LifeInv.next {a : SnluaAction τ} (h : LifeInv s) (hok : SignalInTime s a)
    (hs : s.next a = some s') : LifeInv s' := by
  cases a with
  | worker => exact h.workerStep hok hs
  | atom t => exact h.signalStep hok hs
  | signal t signal =>
    obtain ⟨-, heq⟩ := ite_none_right_eq_some.mp hs
    refine some.inj heq ▸ h.goto fun L hL => ?_
    split at hL <;> cases hL
  | spurious t =>
    obtain ⟨-, heq⟩ := ite_none_right_eq_some.mp hs
    exact some.inj heq ▸ h.goto nofun
  | create =>
    obtain ⟨-, heq⟩ := ite_none_right_eq_some.mp hs
    exact some.inj heq ▸ h.create
  | resume co =>
    obtain ⟨⟨-, halive⟩, heq⟩ := ite_none_right_eq_some.mp hs
    exact some.inj heq ▸ h.resume halive
  | yield | finish =>
    obtain ⟨⟨-, hne⟩, heq⟩ := ite_none_right_eq_some.mp hs
    exact some.inj heq ▸ h.status hne nofun
  | count =>
    obtain ⟨-, heq⟩ := ite_none_right_eq_some.mp hs
    exact some.inj heq ▸ h.worker rfl rfl rfl rfl rfl nofun
  | collect co =>
    obtain ⟨⟨hfin, hstack⟩, heq⟩ := ite_none_right_eq_some.mp hs
    exact some.inj heq ▸ h.collect hfin hstack

end

/-! ## Every run -/

theorem trapInv_create : TrapInv (snluaCreate τ) where
  values := .inl rfl
  numbers := nofun
  pending _ := not_mem_nil
  nodup := nodup_nil
  up := by simp [snluaCreate]
  served := by simp [snluaCreate]

theorem lifeInv_create : LifeInv (snluaCreate τ) where
  made := Nat.one_ne_zero
  main := rfl
  stack := nofun
  active := nofun
  aims := nofun

section

variable [DecidableEq τ]

/-- **Signals touch only Lua threads that are there**, raise one error each and leave the spin loop
an end, in every run of a worker and any number of signalling threads in which the wait of
`lua_resumeX` is in time.
SRC: service_snlua.c:63-97, 501-536 -/
theorem signals_safe (h : (snluaMachine τ).Reach SignalInTime s) : SignalsSafe s := by
  have htrap : TrapInv s := h.invariant (fun _ hs => hs ▸ trapInv_create)
    fun _ _ _ hinv hok hnext => hinv.next (fun _ ha => by subst ha; exact hok) hnext
  have hlife : LifeInv s := h.invariant (fun _ hs => hs ▸ lifeInv_create)
    fun _ _ _ hinv hok hnext => hinv.next hok hnext
  exact {
    alive := fun t L ht => by
      obtain ⟨co, hco, halive, -⟩ := hlife.aims t L ht
      exact ⟨co, hco, halive⟩
    once := htrap.nodup
    served := htrap.served
    spins := fun hw => htrap.values.resolve_left (htrap.up (.inr hw)) }

instance [Fintype τ] (s : Snlua τ) (co : ℕ) : Decidable (AimsAt s co) :=
  inferInstanceAs (Decidable (∃ t, s.signals t = .sethook (some co)))

instance [Fintype τ] (s : Snlua τ) : ∀ a, Decidable (SignalInTime s a)
  | .worker =>
    inferInstanceAs (Decidable (s.status s.current = some .finished →
      s.worker = .returned ∧ s.trap = 0 ∨ s.worker = .spin ∧ s.trap < 0 → ¬ AimsAt s s.current))
  | .atom t =>
    inferInstanceAs (Decidable (s.signals t = .read →
      s.activeL ≠ none ∧ ¬ (s.worker = .leave ∧ s.status s.current = some .finished)))
  | .spurious t => inferInstanceAs (Decidable (s.signals t ≠ .casBack))
  | .create | .resume _ | .yield | .finish | .count | .collect _ | .signal _ _ => .isTrue trivial

end

/-- A coroutine is interrupted by a signal, ends with the error and is collected. -/
theorem signals_safe_interrupted : ∃ s, (snluaMachine (Fin 1)).Reach SignalInTime s ∧
    s.raised = [1] ∧ s.status 1 = none ∧ SignalsSafe s := by
  have hstart : (snluaMachine (Fin 1)).Reach SignalInTime (snluaCreate (Fin 1)) := .start rfl
  have hreach := hstart.runOk
    (l := [.create, .resume 1, .worker, .worker, .signal 0 0, .atom 0, .atom 0, .atom 0, .atom 0,
      .atom 0, .count, .worker, .worker, .worker, .finish, .worker, .worker, .worker, .collect 1]) rfl
  exact ⟨_, hreach, rfl, rfl, signals_safe hreach⟩

theorem not_safe_null (h : s.signals t = .sethook none) : ¬ SignalsSafe s := by
  intro hsafe
  obtain ⟨co, hco, -⟩ := hsafe.alive t none h
  cases hco

theorem not_safe_dead (h : s.signals t = .sethook (some co)) (hdead : s.status co = none) :
    ¬ SignalsSafe s := by
  intro hsafe
  obtain ⟨x, hx, halive⟩ := hsafe.alive t _ h
  exact halive (some.inj hx ▸ hdead)

/-- Four ways a signal goes wrong.  It comes before the first coroutine, and `activeL` is `NULL`;
it reads `activeL` when the worker has already looked at the flag, and the coroutine is collected;
the hook that a second coroutine took over fires before the thread has called `lua_sethook` on the
first; the second compare-and-exchange fails without reason, and nobody ends the spin loop. -/
theorem signals_unsafe :
    (∃ s, (snluaMachine (Fin 1)).Reachable s ∧ s.signals 0 = .sethook none ∧ ¬ SignalsSafe s) ∧
      (∃ s, (snluaMachine (Fin 1)).Reachable s ∧ s.signals 0 = .sethook (some 1) ∧
        s.status 1 = none ∧ s.raised = [] ∧ ¬ SignalsSafe s) ∧
      (∃ s, (snluaMachine (Fin 1)).Reachable s ∧ s.signals 0 = .sethook (some 1) ∧
        s.status 1 = none ∧ s.raised = [1] ∧ ¬ SignalsSafe s) ∧
      ∃ s, (snluaMachine (Fin 1)).Reachable s ∧ s.worker = .spin ∧ s.trap = 1 ∧
        ¬ SignalsSafe s := by
  have hstart : (snluaMachine (Fin 1)).Reachable (snluaCreate (Fin 1)) := .start rfl
  refine ⟨?_, ?_, ?_, ?_⟩
  · have hreach := hstart.run (l := [.signal 0 0, .atom 0, .atom 0, .atom 0]) rfl
    exact ⟨_, hreach, rfl, not_safe_null (t := 0) rfl⟩
  · have hreach := hstart.run (l := [.create, .resume 1, .worker, .worker, .signal 0 0, .finish,
      .worker, .atom 0, .atom 0, .atom 0, .worker, .collect 1]) rfl
    exact ⟨_, hreach, rfl, rfl, rfl, not_safe_dead (t := 0) rfl rfl⟩
  · have hreach := hstart.run (l := [.create, .resume 1, .worker, .worker, .signal 0 0, .atom 0,
      .atom 0, .atom 0, .create, .resume 2, .worker, .worker, .worker, .count, .worker, .worker,
      .worker, .finish, .worker, .worker, .worker, .finish, .worker, .worker, .worker,
      .collect 1]) rfl
    exact ⟨_, hreach, rfl, rfl, rfl, not_safe_dead (t := 0) rfl rfl⟩
  · have hreach := hstart.run (l := [.create, .resume 1, .worker, .worker, .signal 0 0, .atom 0,
      .atom 0, .atom 0, .atom 0, .spurious 0, .finish, .worker, .worker]) rfl
    refine ⟨_, hreach, rfl, rfl, fun hsafe => ?_⟩
    obtain ⟨t, ht⟩ := hsafe.served rfl
    rw [Subsingleton.elim t 0] at ht
    exact ht

end Skynet.Analysis
