import Skynet.Analysis.SchedulerInvariant

/-!
# What a step does to one queue

Every step of the scheduler is, for each queue, one of a dozen changes of its data.
Each of them keeps the invariant of the queue; a thread that has a reference, a queue or
a deletion in its hands knows what that needs.
-/

namespace Skynet.Analysis

open Library Model

variable {θ ι δ : Type}

/-! ## The flags survive the queue operations -/

theorem mqStore_flags [Inhabited δ] (q : MessageQueue δ) (m : SkynetMessage δ) :
    (mqStore q m).handle = q.handle ∧ (mqStore q m).release = q.release ∧
      (mqStore q m).inGlobal = q.inGlobal := by
  unfold mqStore
  dsimp only
  generalize (if q.tail + 1 ≥ q.cap then 0 else q.tail + 1) = tail
  split <;> exact ⟨rfl, rfl, rfl⟩

theorem skynetMqPop_flags (q : MessageQueue δ) :
    (skynetMqPop q).2.handle = q.handle ∧ (skynetMqPop q).2.release = q.release := by
  unfold skynetMqPop
  split <;> exact ⟨rfl, rfl⟩

theorem skynetMqOverload_contents (q : MessageQueue δ) :
    contents (skynetMqOverload q).2 = contents q := by
  unfold skynetMqOverload
  split <;> rfl

theorem toldSources_append (handle : ℕ) (l l' : List (SkynetMessage δ × Popped θ)) :
    toldSources handle (l ++ l') = toldSources handle l ++ toldSources handle l' :=
  List.filterMap_append

namespace QueueOk

variable {p : Prop} {v : QueueData θ δ}

theorem of_placed (h : QueueOk p v) (hp : 0 < v.placed) : v.born = true ∧ v.freed = false := by
  constructor
  · by_contra hb
    have hzero := (h.unborn (by simpa using hb)).1
    omega
  · by_contra hf
    have hzero := (h.freed (by simpa using hf)).2.1
    omega

/-- A referenced context is not being deleted, and its queue is neither marked nor
freed. -/
theorem of_refs (h : QueueOk p v) (hr : 0 < v.refs) :
    v.born = true ∧ 0 < v.ref ∧ v.mq.release = 0 ∧ v.dels = 0 ∧ v.freed = false := by
  have hb : v.born = true := by
    by_contra hb
    have hzero := (h.unborn (by simpa using hb)).2.2.1
    omega
  have href := h.ref hb
  have hphase := h.phase hb
  rw [if_pos (by omega)] at hphase
  refine ⟨hb, by omega, by omega, by omega, ?_⟩
  by_contra hf
  have hrel := (h.freed (by simpa using hf)).1
  omega

/-- While a context is being deleted nothing refers to it, and its queue is not marked
yet. -/
theorem of_dels (h : QueueOk p v) (hd : 0 < v.dels) :
    v.born = true ∧ v.ref ≤ 0 ∧ v.mq.release = 0 ∧ v.dels = 1 ∧ v.freed = false := by
  have hb : v.born = true := by
    by_contra hb
    have hzero := (h.unborn (by simpa using hb)).2.2.2.1
    omega
  have hphase := h.phase hb
  split at hphase
  · omega
  refine ⟨hb, by omega, by omega, by omega, ?_⟩
  by_contra hf
  have hrel := (h.freed (by simpa using hf)).1
  omega

/-! ## References -/

/-- The counts of a context change together. -/
theorem setRefs (h : QueueOk p v) (hb : v.born = true) {ref : ℤ} {refs dels : ℕ}
    (href : ref = refs + v.tabled)
    (hphase : dels + v.mq.release + (if 0 < ref then 1 else 0) = 1) :
    QueueOk p { v with ref := ref, refs := refs, dels := dels } := by
  refine ⟨fun hn => ?_, h.mqOk, h.flags, h.idle, h.busy, h.one, h.freed, h.marked, fun _ => href,
    fun _ => hphase, h.history, h.told⟩
  rw [hb] at hn
  cases hn

theorem grab (h : QueueOk p v) (ht : v.tabled = 1) :
    QueueOk p { v with ref := v.ref + 1, refs := v.refs + 1 } := by
  have hb : v.born = true := by
    by_contra hb
    have hzero := (h.unborn (by simpa using hb)).2.1
    omega
  have href := h.ref hb
  have hphase := h.phase hb
  rw [if_pos (by omega)] at hphase
  refine h.setRefs hb (by push_cast; omega) ?_
  rw [if_pos (by omega)]
  exact hphase

theorem release (h : QueueOk p v) (hr : 0 < v.refs) (hne : v.ref ≠ 1) :
    QueueOk p { v with ref := v.ref - 1, refs := v.refs - 1 } := by
  obtain ⟨hb, hpos, hrel, hdels, -⟩ := h.of_refs hr
  have href := h.ref hb
  refine h.setRefs hb (by omega) ?_
  rw [if_pos (by omega)]
  omega

theorem releaseLast (h : QueueOk p v) (hr : 0 < v.refs) (hone : v.ref = 1) :
    QueueOk p { v with ref := v.ref - 1, refs := v.refs - 1, dels := v.dels + 1 } := by
  obtain ⟨hb, hpos, hrel, hdels, -⟩ := h.of_refs hr
  have href := h.ref hb
  refine h.setRefs hb (by omega) ?_
  rw [if_neg (by omega)]
  omega

theorem retire (h : QueueOk p v) (ht : v.tabled = 1) :
    QueueOk p { v with tabled := 0, refs := v.refs + 1 } := by
  have hb : v.born = true := by
    by_contra hb
    have hzero := (h.unborn (by simpa using hb)).2.1
    omega
  have href := h.ref hb
  refine ⟨fun hn => ?_, h.mqOk, h.flags, h.idle, h.busy, h.one, h.freed, h.marked, fun _ => ?_,
    h.phase, h.history, h.told⟩
  · rw [hb] at hn
    cases hn
  · show v.ref = ((v.refs + 1 : ℕ) : ℤ) + (0 : ℕ)
    omega

theorem mark (h : QueueOk p v) (hd : 0 < v.dels) (hg : v.mq.inGlobal = 1) :
    QueueOk p { v with mq := { v.mq with release := 1 }, dels := v.dels - 1 } := by
  obtain ⟨hb, hpos, hrel, hdels, hfreed⟩ := h.of_dels hd
  obtain ⟨hhandle, hin, -⟩ := h.flags hb
  refine ⟨fun hn => ?_, fun hb => ⟨(h.mqOk hb).1, (h.mqOk hb).2⟩, fun _ => ⟨hhandle, hin, le_rfl⟩,
    fun _ _ hn => ?_, fun _ _ hn => ?_, h.one, fun hf => ?_, fun _ _ => .inr (.inl ?_), h.ref,
    fun _ => ?_, h.history, h.told⟩
  · rw [hb] at hn
    cases hn
  · cases hn
  · cases hn
  · rw [hfreed] at hf
    cases hf
  · exact h.busy hb hg hrel
  · show v.dels - 1 + 1 + (if 0 < v.ref then 1 else 0) = 1
    rw [if_neg (by omega)]
    omega

theorem markLink (h : QueueOk p v) (hd : 0 < v.dels) (hg : v.mq.inGlobal ≠ 1) :
    v.placed = 0 ∧ QueueOk p { v with
      mq := { v.mq with release := 1 }, dels := v.dels - 1, placed := v.placed + 1 } := by
  obtain ⟨hb, hpos, hrel, hdels, hfreed⟩ := h.of_dels hd
  obtain ⟨hhandle, hin, -⟩ := h.flags hb
  have hzero := (h.idle hb (by omega) hrel).1
  refine ⟨hzero, fun hn => ?_, fun hb => ⟨(h.mqOk hb).1, (h.mqOk hb).2⟩,
    fun _ => ⟨hhandle, hin, le_rfl⟩, fun _ _ hn => ?_, fun _ _ hn => ?_, ?_, fun hf => ?_,
    fun _ _ => .inr (.inl ?_), h.ref, fun _ => ?_, h.history, h.told⟩
  · rw [hb] at hn
    cases hn
  · cases hn
  · cases hn
  · show v.placed + 1 ≤ 1
    omega
  · rw [hfreed] at hf
    cases hf
  · show v.placed + 1 = 1
    omega
  · show v.dels - 1 + 1 + (if 0 < v.ref then 1 else 0) = 1
    rw [if_neg (by omega)]
    omega

theorem free (h : QueueOk p v) (hp : 0 < v.placed) (hrel : v.mq.release = 1)
    (hnil : contents v.mq = []) : QueueOk p { v with freed := true, placed := v.placed - 1 } := by
  have hb := (h.of_placed hp).1
  have hone := h.one
  refine ⟨fun hn => ?_, h.mqOk, h.flags, fun _ _ hn => ?_, fun _ _ hn => ?_, ?_,
    fun _ => ⟨hrel, ?_, hnil⟩, fun _ _ => .inl rfl, h.ref, h.phase, h.history, h.told⟩
  · rw [hb] at hn
    cases hn
  · rw [hrel] at hn
    cases hn
  · rw [hrel] at hn
    cases hn
  · show v.placed - 1 ≤ 1
    omega
  · show v.placed - 1 = 0
    omega

/-! ## Messages -/

theorem store [Inhabited δ] (h : QueueOk p v) (hr : 0 < v.refs) (m : SkynetMessage δ)
    (hg : v.mq.inGlobal ≠ 0) :
    QueueOk p { v with mq := mqStore v.mq m, pushed := v.pushed ++ [m] } := by
  obtain ⟨hb, hpos, hrel, hdels, hfreed⟩ := h.of_refs hr
  obtain ⟨hmq, hcont⟩ := mqStore_spec (h.mqOk hb) m
  obtain ⟨hh, hr', hi⟩ := mqStore_flags v.mq m
  refine ⟨fun hn => ?_, fun _ => hmq, fun _ => ?_, fun _ hn => ?_, fun _ hn _ => ?_, h.one,
    fun hf => ?_, fun _ hn => ?_, h.ref, fun _ => ?_, fun _ => ?_, fun _ => ?_⟩
  · rw [hb] at hn
    cases hn
  · rw [hh, hr', hi]
    exact h.flags hb
  · exact absurd (hi.symm.trans hn) hg
  · exact h.busy hb (hi.symm.trans hn) hrel
  · rw [hfreed] at hf
    cases hf
  · have hone := hr'.symm.trans hn
    omega
  · rw [hr']
    exact h.phase hb
  · rw [hcont, h.history hb, List.append_assoc]
  · rw [hh]
    exact h.told hb

theorem storeLink [Inhabited δ] (h : QueueOk p v) (hr : 0 < v.refs) (m : SkynetMessage δ)
    (hg : v.mq.inGlobal = 0) :
    v.placed = 0 ∧ QueueOk p { v with
      mq := { mqStore v.mq m with inGlobal := mqInGlobal }
      pushed := v.pushed ++ [m]
      placed := v.placed + 1 } := by
  obtain ⟨hb, hpos, hrel, hdels, hfreed⟩ := h.of_refs hr
  obtain ⟨hmq, hcont⟩ := mqStore_spec (h.mqOk hb) m
  obtain ⟨hh, hr', hi⟩ := mqStore_flags v.mq m
  have hzero := (h.idle hb hg hrel).1
  refine ⟨hzero, fun hn => ?_, fun _ => ⟨hmq.1, hmq.2⟩, fun _ => ?_, fun _ hn => ?_,
    fun _ _ _ => ?_, ?_, fun hf => ?_, fun _ hn => ?_, h.ref, fun _ => ?_, fun _ => ?_,
    fun _ => ?_⟩
  · rw [hb] at hn
    cases hn
  · have hflags := h.flags hb
    exact ⟨by rw [hh]; exact hflags.1, le_rfl, by rw [hr']; exact hflags.2.2⟩
  · cases hn
  · show v.placed + 1 = 1
    omega
  · show v.placed + 1 ≤ 1
    omega
  · rw [hfreed] at hf
    cases hf
  · have hone := hr'.symm.trans hn
    omega
  · rw [hr']
    exact h.phase hb
  · show v.pushed ++ [m] = v.popped.map Prod.fst ++ contents (mqStore v.mq m)
    rw [hcont, h.history hb, List.append_assoc]
  · rw [hh]
    exact h.told hb

variable {mq : MessageQueue δ}

theorem pop (h : QueueOk p v) (hp : 0 < v.placed) {m : SkynetMessage δ}
    (hm : skynetMqPop v.mq = (some m, mq)) (how : Popped θ) {errors : List (ℕ × ℕ)}
    (herr : errors = v.errors ++ toldSources v.mq.handle [(m, how)]) : QueueOk p
    { v with mq := mq, popped := v.popped ++ [(m, how)], errors := errors } := by
  obtain ⟨hb, hfreed⟩ := h.of_placed hp
  obtain ⟨hh, hr⟩ := skynetMqPop_flags v.mq
  rw [hm] at hh hr
  have hone := h.one
  obtain ⟨-, hnone, -⟩ | ⟨m', hm', hcont, hmq, hi⟩ := skynetMqPop_spec (h.mqOk hb)
  · rw [hm] at hnone
    cases hnone
  rw [hm] at hm' hcont hmq hi
  obtain rfl := Option.some.inj hm'
  refine ⟨fun hn => ?_, fun _ => hmq, fun _ => ?_, fun _ hn hn' => ?_, fun _ _ _ => ?_, h.one,
    fun hf => ?_, fun _ _ => .inr (.inl ?_), h.ref, fun _ => ?_, fun _ => ?_, fun _ => ?_⟩
  · rw [hb] at hn
    cases hn
  · rw [hh, hr, hi]
    exact h.flags hb
  · have hidle := (h.idle hb (hi.symm.trans hn) (hr.symm.trans hn')).1
    omega
  · show v.placed = 1
    omega
  · rw [hfreed] at hf
    cases hf
  · show v.placed = 1
    omega
  · rw [hr]
    exact h.phase hb
  · rw [h.history hb, hcont, List.map_append, List.append_assoc]
    rfl
  · rw [herr, hh, toldSources_append, h.told hb]

theorem pop_empty_data (h : QueueOk p v) (hb : v.born = true)
    (hm : skynetMqPop v.mq = (none, mq)) :
    contents v.mq = [] ∧ MqOk mq ∧ contents mq = [] ∧ mq.inGlobal = 0 ∧
      mq.handle = v.mq.handle ∧ mq.release = v.mq.release := by
  obtain ⟨hh, hr⟩ := skynetMqPop_flags v.mq
  rw [hm] at hh hr
  obtain ⟨hnil, -, hmq, hnil', hi⟩ | ⟨m', hm', -⟩ := skynetMqPop_spec (h.mqOk hb)
  · rw [hm] at hmq hnil' hi
    exact ⟨hnil, hmq, hnil', hi, hh, hr⟩
  · rw [hm] at hm'
    cases hm'

theorem popDropped (h : QueueOk p v) (hp : 0 < v.placed) (hrel : v.mq.release = 1)
    (hm : skynetMqPop v.mq = (none, mq)) : QueueOk p { v with mq := mq } := by
  obtain ⟨hb, hfreed⟩ := h.of_placed hp
  obtain ⟨hnil, hmq, hnil', hi, hh, hr⟩ := h.pop_empty_data hb hm
  have hone := h.one
  refine ⟨fun hn => ?_, fun _ => hmq, fun _ => ?_, fun _ _ hn => ?_, fun _ hn => ?_, h.one,
    fun hf => ?_, fun _ _ => .inr (.inl ?_), h.ref, fun _ => ?_, fun _ => ?_, fun _ => ?_⟩
  · rw [hb] at hn
    cases hn
  · rw [hh, hr, hi]
    exact ⟨(h.flags hb).1, by omega, (h.flags hb).2.2⟩
  · have hzero := hr.symm.trans hn
    omega
  · rw [hi] at hn
    cases hn
  · rw [hfreed] at hf
    cases hf
  · show v.placed = 1
    omega
  · rw [hr]
    exact h.phase hb
  · rw [h.history hb, hnil, hnil']
  · rw [hh]
    exact h.told hb

theorem popIdle (h : QueueOk p v) (hp : 0 < v.placed) (hre : v.mq.release = 1 → p)
    (hm : skynetMqPop v.mq = (none, mq)) :
    QueueOk p { v with mq := mq, placed := v.placed - 1 } := by
  obtain ⟨hb, hfreed⟩ := h.of_placed hp
  obtain ⟨hnil, hmq, hnil', hi, hh, hr⟩ := h.pop_empty_data hb hm
  have hone := h.one
  refine ⟨fun hn => ?_, fun _ => hmq, fun _ => ?_, fun _ _ hn => ⟨?_, hnil'⟩, fun _ hn => ?_, ?_,
    fun hf => ?_, fun _ hn => .inr (.inr ⟨?_, hnil', hre (hr.symm.trans hn)⟩), h.ref,
    fun _ => ?_, fun _ => ?_, fun _ => ?_⟩
  · rw [hb] at hn
    cases hn
  · rw [hh, hr, hi]
    exact ⟨(h.flags hb).1, by omega, (h.flags hb).2.2⟩
  · show v.placed - 1 = 0
    omega
  · rw [hi] at hn
    cases hn
  · show v.placed - 1 ≤ 1
    omega
  · rw [hfreed] at hf
    cases hf
  · show v.placed - 1 = 0
    omega
  · rw [hr]
    exact h.phase hb
  · rw [h.history hb, hnil, hnil']
  · rw [hh]
    exact h.told hb

theorem overload (h : QueueOk p v) : QueueOk p { v with mq := (skynetMqOverload v.mq).2 } := by
  have hmq : MqOk v.mq → MqOk (skynetMqOverload v.mq).2 := by
    unfold skynetMqOverload
    split <;> exact fun hok => ⟨hok.1, hok.2⟩
  have hcont := skynetMqOverload_contents v.mq
  have hflags : (skynetMqOverload v.mq).2.handle = v.mq.handle ∧
      (skynetMqOverload v.mq).2.release = v.mq.release ∧
      (skynetMqOverload v.mq).2.inGlobal = v.mq.inGlobal := by
    unfold skynetMqOverload
    split <;> exact ⟨rfl, rfl, rfl⟩
  obtain ⟨hh, hr, hi⟩ := hflags
  refine ⟨h.unborn, fun hb => hmq (h.mqOk hb), ?_, ?_, ?_, h.one, ?_, ?_, h.ref, ?_, ?_, ?_⟩
  all_goals simp only [hh, hr, hi, hcont]
  · exact h.flags
  · exact h.idle
  · exact h.busy
  · exact h.freed
  · exact h.marked
  · exact h.phase
  · exact h.history
  · exact h.told

/-- A new service: its queue is held by its creator, its context referenced by the table
and by the creator. -/
theorem create [Inhabited δ] (h : QueueOk p v) (hb : v.born = false) {handle : ℕ}
    (hne : handle ≠ 0) :
    QueueOk p { v with
      mq := skynetMqCreate handle, born := true, ref := 2, placed := v.placed + 1, tabled := 1
      refs := v.refs + 1 } := by
  obtain ⟨hplaced, -, hrefs, hdels, hfreed, hpushed, hpopped, herrors⟩ := h.unborn hb
  have hcap : 0 < defaultQueueSize := by unfold defaultQueueSize; omega
  refine ⟨fun hn => (by cases hn), fun _ => ⟨hcap, hcap⟩, fun _ => ⟨hne, le_rfl, Nat.zero_le 1⟩,
    fun _ hn => (by cases hn), fun _ _ _ => ?_, ?_, fun hf => ?_, fun _ hn => (by cases hn),
    fun _ => ?_, fun _ => ?_, fun _ => ?_, fun _ => ?_⟩
  · show v.placed + 1 = 1
    omega
  · show v.placed + 1 ≤ 1
    omega
  · rw [hfreed] at hf
    cases hf
  · rw [hrefs]
    rfl
  · rw [hdels]
    rfl
  · rw [hpushed, hpopped]
    rfl
  · rw [herrors, hpopped]
    rfl

end QueueOk

end Skynet.Analysis
