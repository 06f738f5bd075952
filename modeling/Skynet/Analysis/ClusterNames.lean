import Skynet.Model.ClusterNames

/-!
# Names of a cluster that are cached

What a request finds is what `clusterd` had for the name at some time since the last change that
the agent had been told of when the request came.  Between a change and its notice a request may
go to an address that the name has no more.
-/

namespace Skynet.Analysis

open Library Model ClusterNames List Or

variable {s s' : ClusterNames} {g : ℕ} {n : Bytes} {v : Option ℕ}

/-! ## What a name had -/

def HadSince (s : ClusterNames) (g : ℕ) (n : Bytes) (v : Option ℕ) : Prop :=
  ∃ p ∈ s.past, g ≤ p.1 ∧ p.2.get n = v

def WaitedForOther (o : NameOutcome) : Prop := ∃ g, o.waited = some g ∧ g ≠ o.cache

/-- **What is promised** of the requests: they go to addresses that their names have had since the
last change that the agent had been told of when they came; those that wait for no query of another
cache are rejected only if the name had none at some time since then; and none is left when all
that is on its way has come. -/
structure NamesResolved (s : ClusterNames) : Prop where
  delivered : ∀ o ∈ s.found, ∀ a, o.addr = some a → HadSince s o.cache o.name (some a)
  rejected : ∀ o ∈ s.found, o.addr = none → ¬WaitedForOther o → HadSince s o.cache o.name none
  answered : s.queries = [] → s.replies = [] → s.woken = [] → s.pending = ∅

theorem HadSince.mono (h : HadSince s g n v) (hpast : ∀ p ∈ s.past, p ∈ s'.past) :
    HadSince s' g n v := by
  obtain ⟨p, hp, hle, hv⟩ := h
  exact ⟨p, hpast p hp, hle, hv⟩

/-! ## The invariant -/

def OnItsWay (s : ClusterNames) (q : NameQuery) : Prop :=
  q ∈ s.queries ∨ ∃ v, NameReply.answer q v ∈ s.replies

def RequestWaits (s : ClusterNames) (i : ℕ) : Prop := (∃ q, OnItsWay s q ∧ q.request = i) ∨
    (∃ n e w, s.inquery.get n = some e ∧ w ∈ e.waitco ∧ w.request = i) ∨
      ∃ w ∈ s.woken, w.request = i

def answeredNames (l : List NameReply) : List Bytes := l.filterMap fun
    | .namechange => none
    | .answer q _ => some q.name

def notices (l : List NameReply) : ℕ := l.countP fun m => m = .namechange

/-- What `clusterd` and the agent keep agrees. -/
structure AgentInv (s : ClusterNames) : Prop where
  now : (s.changes, s.names) ∈ s.past
  told : s.registerName + notices s.replies = s.changes
  asked : ∀ q ∈ s.queries, q.cache ≤ s.registerName
  answers : ∀ q v, NameReply.answer q v ∈ s.replies → HadSince s q.cache q.name v
  caches : ∀ g n a, (s.caches g).get n = some a → HadSince s g n (some a)
  once : (s.queries.map (·.name) ++ answeredNames s.replies).Nodup
  entries : ∀ q, OnItsWay s q → ∃ e, s.inquery.get q.name = some e ∧ e.cache = q.cache
  queried : ∀ n e, s.inquery.get n = some e → ∃ q, OnItsWay s q ∧ q.name = n
  waiting : ∀ n e w, s.inquery.get n = some e → w ∈ e.waitco → w.name = n ∧ w.asked = e.cache
  woken : ∀ w ∈ s.woken, w.asked = w.cache → (s.caches w.cache).get w.name = none →
    HadSince s w.cache w.name none
  found : ∀ o ∈ s.found, (∀ a, o.addr = some a → HadSince s o.cache o.name (some a)) ∧
    (o.addr = none → ¬WaitedForOther o → HadSince s o.cache o.name none)
  pending : ∀ i ∈ s.pending, RequestWaits s i

theorem agentInv_init : AgentInv init := by
  constructor <;> simp [init, notices, answeredNames, OnItsWay]

theorem AgentInv.resolved (h : AgentInv s) : NamesResolved s := by
  refine ⟨fun o ho => (h.found o ho).1, fun o ho => (h.found o ho).2, ?_⟩
  intro hq hr hw
  have hnone : ∀ q, ¬OnItsWay s q := by
    rintro q (hin | ⟨v, hin⟩)
    · rw [hq] at hin
      nomatch hin
    · rw [hr] at hin
      nomatch hin
  refine Finset.eq_empty_of_forall_notMem fun i hi => ?_
  rcases h.pending i hi with ⟨q, hq', -⟩ | ⟨n, e, w, he, -, -⟩ | ⟨w, hw', -⟩
  · exact hnone q hq'
  · obtain ⟨q, hq', -⟩ := h.queried n e he
    exact hnone q hq'
  · rw [hw] at hw'
    nomatch hw'

@[simp] theorem notices_append (l l' : List NameReply) :
    notices (l ++ l') = notices l + notices l' := countP_append

@[simp] theorem answeredNames_append (l l' : List NameReply) :
    answeredNames (l ++ l') = answeredNames l ++ answeredNames l' := filterMap_append

theorem mem_answeredNames {l : List NameReply} :
    n ∈ answeredNames l ↔ ∃ q v, NameReply.answer q v ∈ l ∧ q.name = n := by
  rw [answeredNames, mem_filterMap]
  constructor
  · rintro ⟨m, hm, hname⟩
    cases m with
    | namechange => nomatch hname
    | answer q v => exact ⟨q, v, hm, Option.some.inj hname⟩
  · rintro ⟨q, v, hm, hname⟩
    exact ⟨_, hm, congrArg some hname⟩

theorem mem_names : n ∈ s.queries.map (·.name) ++ answeredNames s.replies ↔
    ∃ q, OnItsWay s q ∧ q.name = n := by
  rw [mem_append, mem_map, mem_answeredNames]
  constructor
  · rintro (⟨q, hq, hname⟩ | ⟨q, v, hq, hname⟩)
    · exact ⟨q, inl hq, hname⟩
    · exact ⟨q, inr ⟨v, hq⟩, hname⟩
  · rintro ⟨q, hq | ⟨v, hq⟩, hname⟩
    · exact inl ⟨q, hq, hname⟩
    · exact inr ⟨q, v, hq, hname⟩

/-! ## Registrations -/

structure Registers (s s' : ClusterNames) : Prop where
  now : (s'.changes, s'.names) ∈ s'.past
  past : ∀ p ∈ s.past, p ∈ s'.past
  told : notices s'.replies + s.changes = notices s.replies + s'.changes
  answers : ∀ q v, NameReply.answer q v ∈ s'.replies ↔ NameReply.answer q v ∈ s.replies
  names : answeredNames s'.replies = answeredNames s.replies
  rest : s' = { s with
    names := s'.names
    addrs := s'.addrs
    agent := s'.agent
    replies := s'.replies
    changes := s'.changes
    past := s'.past }

theorem AgentInv.registers (h : AgentInv s) (hr : Registers s s') : AgentInv s' := by
  obtain ⟨hnow, hpast, htold, hanswers, hnames, hrest⟩ := hr
  have hhad : ∀ g n v, HadSince s g n v → HadSince s' g n v := fun g n v hv => hv.mono hpast
  have hway : ∀ q, OnItsWay s' q ↔ OnItsWay s q := by
    intro q
    rw [OnItsWay, OnItsWay, exists_congr (hanswers q), hrest]
  have hfields : s'.queries = s.queries ∧ s'.caches = s.caches ∧
      s'.registerName = s.registerName ∧ s'.inquery = s.inquery ∧ s'.woken = s.woken ∧
      s'.pending = s.pending ∧ s'.found = s.found := by
    rw [hrest]
    exact ⟨rfl, rfl, rfl, rfl, rfl, rfl, rfl⟩
  obtain ⟨hqueries, hcaches, hregister, hinquery, hwoken, hpending, hfound⟩ := hfields
  constructor
  · exact hnow
  · have := h.told
    omega
  · rw [hqueries, hregister]
    exact h.asked
  · intro q v hq
    exact hhad _ _ _ (h.answers q v ((hanswers q v).mp hq))
  · intro g n a hg
    rw [hcaches] at hg
    exact hhad _ _ _ (h.caches g n a hg)
  · rw [hqueries, hnames]
    exact h.once
  · intro q hq
    rw [hinquery]
    exact h.entries q ((hway q).mp hq)
  · intro n e he
    rw [hinquery] at he
    obtain ⟨q, hq, hname⟩ := h.queried n e he
    exact ⟨q, (hway q).mpr hq, hname⟩
  · rw [hinquery]
    exact h.waiting
  · intro w hw hasked hnone
    rw [hwoken] at hw
    rw [hcaches] at hnone
    exact hhad _ _ _ (h.woken w hw hasked hnone)
  · intro o ho
    rw [hfound] at ho
    obtain ⟨hdelivered, hrejected⟩ := h.found o ho
    exact ⟨fun a ha => hhad _ _ _ (hdelivered a ha),
      fun hnone hother => hhad _ _ _ (hrejected hnone hother)⟩
  · intro i hi
    rw [hpending] at hi
    rcases h.pending i hi with ⟨q, hq, hreq⟩ | hw | hw
    · exact inl ⟨q, (hway q).mpr hq, hreq⟩
    · rw [← hinquery] at hw
      exact inr (inl hw)
    · rw [← hwoken] at hw
      exact inr (inr hw)

theorem registers_register (name : Bytes) (addr : ℕ) (h : AgentInv s) :
    Registers s (s.register name addr) := by
  have hself : Registers s s := ⟨h.now, fun _ hp => hp, rfl, fun _ _ => Iff.rfl, rfl, rfl⟩
  unfold ClusterNames.register
  split
  · exact hself
  · cases s.addrs.get addr with
    | none =>
      refine ⟨?_, fun p hp => ?_, rfl, fun _ _ => Iff.rfl, rfl, rfl⟩
      · exact mem_append_right _ (mem_singleton_self _)
      · exact mem_append_left _ hp
    | some old =>
      cases hagent : s.agent with
      | false =>
        refine ⟨?_, fun p hp => ?_, rfl, fun _ _ => Iff.rfl, rfl, rfl⟩
        · exact mem_append_right _ (mem_singleton_self _)
        · exact mem_append_left _ hp
      | true =>
        simp only [clearnamecache, if_true]
        refine ⟨?_, fun p hp => ?_, ?_, fun q v => ?_, ?_, rfl⟩
        · exact mem_append_right _ (mem_singleton_self _)
        · exact mem_append_left _ hp
        · simp [notices]
          omega
        · simp
        · simp [answeredNames]

theorem AgentInv.register (h : AgentInv s) (name : Bytes) (addr : ℕ) :
    AgentInv (s.register name addr) :=
  h.registers (registers_register name addr h)

theorem AgentInv.opened (h : AgentInv s) : AgentInv { s with agent := true } :=
  h.registers ⟨h.now, fun _ hp => hp, rfl, fun _ _ => Iff.rfl, rfl, rfl⟩

/-! ## Queries and their answers -/

theorem AgentInv.queryname {q : NameQuery} {queries : List NameQuery} (h : AgentInv s)
    (hq : s.queries = q :: queries) : AgentInv (s.queryname q queries) := by
  have hle : s.registerName ≤ s.changes := by
    have := h.told
    omega
  have hmem : q ∈ s.queries := by
    rw [hq]
    exact mem_cons_self
  have hway : ∀ x, OnItsWay (s.queryname q queries) x ↔ OnItsWay s x := by
    intro x
    simp only [OnItsWay, ClusterNames.queryname, hq, mem_append, mem_cons,
      not_mem_nil, or_false, NameReply.answer.injEq]
    constructor
    · rintro (hx | ⟨v, hx | ⟨rfl, -⟩⟩)
      · exact inl (inr hx)
      · exact inr ⟨v, hx⟩
      · exact inl (inl rfl)
    · rintro ((rfl | hx) | ⟨v, hx⟩)
      · exact inr ⟨_, inr ⟨rfl, rfl⟩⟩
      · exact inl hx
      · exact inr ⟨v, inl hx⟩
  refine { h with
    told := ?_
    asked := ?_
    answers := ?_
    once := ?_
    entries := ?_
    queried := ?_
    pending := ?_ }
  · have := h.told
    simp only [ClusterNames.queryname, notices_append]
    exact this
  · intro x hx
    refine h.asked x ?_
    rw [hq]
    exact mem_cons_of_mem q hx
  · intro x v hx
    rcases mem_append.mp hx with hx | hx
    · exact h.answers x v hx
    · obtain ⟨rfl, rfl⟩ := NameReply.answer.inj (mem_singleton.mp hx)
      exact ⟨_, h.now, (h.asked x hmem).trans hle, rfl⟩
  · have honce := h.once
    rw [hq] at honce
    refine (Perm.nodup_iff ?_).mp honce
    simp only [ClusterNames.queryname, answeredNames_append, ← append_assoc]
    exact (perm_append_comm : ([q.name] ++ _).Perm (_ ++ [q.name]))
  · exact fun x hx => h.entries x ((hway x).mp hx)
  · intro n e he
    obtain ⟨x, hx, hname⟩ := h.queried n e he
    exact ⟨x, (hway x).mpr hx, hname⟩
  · intro i hi
    rcases h.pending i hi with ⟨x, hx, hreq⟩ | hw
    · exact inl ⟨x, (hway x).mpr hx, hreq⟩
    · exact inr hw

theorem AgentInv.namechange {replies : List NameReply} (h : AgentInv s)
    (hr : s.replies = .namechange :: replies) : AgentInv (s.deliver .namechange replies) := by
  have hmem : ∀ q v, NameReply.answer q v ∈ replies ↔ NameReply.answer q v ∈ s.replies := by
    rw [hr]
    simp
  have hway : ∀ x, OnItsWay (s.deliver .namechange replies) x ↔ OnItsWay s x := by
    intro x
    rw [OnItsWay, OnItsWay, ← exists_congr (hmem x)]
    exact Iff.rfl
  refine { h with
    told := ?_
    asked := ?_
    answers := ?_
    once := ?_
    entries := ?_
    queried := ?_
    pending := ?_ }
  · have htold := h.told
    rw [hr] at htold
    simp only [notices, countP_cons_of_pos, decide_true] at htold
    simp only [ClusterNames.deliver, notices]
    omega
  · exact fun q hq => Nat.le_succ_of_le (h.asked q hq)
  · exact fun q v hq => h.answers q v ((hmem q v).mp hq)
  · have honce := h.once
    rw [hr] at honce
    exact honce
  · exact fun x hx => h.entries x ((hway x).mp hx)
  · intro n e he
    obtain ⟨x, hx, hname⟩ := h.queried n e he
    exact ⟨x, (hway x).mpr hx, hname⟩
  · intro i hi
    rcases h.pending i hi with ⟨x, hx, hreq⟩ | hw
    · exact inl ⟨x, (hway x).mpr hx, hreq⟩
    · exact inr hw

theorem AgentInv.found_append {o : NameOutcome} (h : AgentInv s)
    (hdelivered : ∀ a, o.addr = some a → HadSince s o.cache o.name (some a))
    (hrejected : o.addr = none → ¬WaitedForOther o → HadSince s o.cache o.name none) :
    ∀ x ∈ s.found ++ [o], (∀ a, x.addr = some a → HadSince s x.cache x.name (some a)) ∧
      (x.addr = none → ¬WaitedForOther x → HadSince s x.cache x.name none) := by
  intro x hx
  rcases mem_append.mp hx with hx | hx
  · exact h.found x hx
  · rw [mem_singleton.mp hx]
    exact ⟨hdelivered, hrejected⟩

theorem AgentInv.answer {q : NameQuery} {replies : List NameReply} (h : AgentInv s)
    (hr : s.replies = .answer q v :: replies) : AgentInv (s.deliver (.answer q v) replies) := by
  have hq : OnItsWay s q := inr ⟨v, by rw [hr]; exact mem_cons_self⟩
  have hhad : HadSince s q.cache q.name v := h.answers q v (by rw [hr]; exact mem_cons_self)
  obtain ⟨e, he, hcache⟩ := h.entries q hq
  -- the query is the only one for the name
  have honce : (q.name :: (s.queries.map (·.name) ++ answeredNames replies)).Nodup := by
    refine (Perm.nodup_iff ?_).mp h.once
    rw [hr]
    exact perm_middle
  obtain ⟨hnot, hnodup⟩ := nodup_cons.mp honce
  set s' := s.deliver (.answer q v) replies with hs'
  have hinquery : ∀ m, s'.inquery.get m = if m = q.name then none else s.inquery.get m := by
    intro m
    cases v <;> exact Table.get_put _ _ _ _
  have hwoken : s'.woken = s.woken ++ e.waitco := by
    rw [hs']
    cases v <;> simp only [ClusterNames.deliver, ClusterNames.answer, ClusterNames.dispatch, he]
  have hcaches : ∀ g m, (s'.caches g).get m =
      if g = q.cache ∧ m = q.name then v.or ((s.caches g).get m) else (s.caches g).get m := by
    intro g m
    rw [hs']
    cases v with
    | none => simp [ClusterNames.deliver, ClusterNames.answer, ClusterNames.dispatch]
    | some a =>
      simp only [ClusterNames.deliver, ClusterNames.answer, ClusterNames.dispatch,
        Function.update_apply]
      by_cases hg : g = q.cache
      · simp [hg, Table.get_put]
      · simp [hg]
  have hrest : s'.queries = s.queries ∧ s'.replies = replies ∧ s'.changes = s.changes ∧
      s'.names = s.names ∧ s'.past = s.past ∧ s'.registerName = s.registerName ∧
      s'.pending = s.pending.erase q.request ∧
      s'.found = s.found ++ [⟨q.request, q.name, q.cache, none, v⟩] := by
    rw [hs']
    cases v <;> exact ⟨rfl, rfl, rfl, rfl, rfl, rfl, rfl, rfl⟩
  obtain ⟨hqueries, hreplies, hchanges, hnames, hpast, hregister, hpending, hfound⟩ := hrest
  have hhads : ∀ g m w, HadSince s' g m w ↔ HadSince s g m w := by
    intro g m w
    rw [HadSince, HadSince, hpast]
  have hway : ∀ x, OnItsWay s x ↔ x = q ∨ OnItsWay s' x := by
    intro x
    rw [OnItsWay, OnItsWay, hqueries, hreplies, hr]
    simp only [mem_cons, NameReply.answer.injEq]
    constructor
    · rintro (hx | ⟨w, ⟨rfl, -⟩ | hx⟩)
      · exact inr (inl hx)
      · exact inl rfl
      · exact inr (inr ⟨w, hx⟩)
    · rintro (rfl | hx | ⟨w, hx⟩)
      · exact inr ⟨v, inl ⟨rfl, rfl⟩⟩
      · exact inl hx
      · exact inr ⟨w, inr hx⟩
  have hother : ∀ x, OnItsWay s' x → x.name ≠ q.name := by
    intro x hx heq
    refine hnot ?_
    rw [← hqueries, ← hreplies]
    exact mem_names.mpr ⟨x, hx, heq⟩
  constructor
  · rw [hchanges, hnames, hpast]
    exact h.now
  · have htold := h.told
    rw [hr] at htold
    rw [hregister, hreplies, hchanges]
    exact htold
  · rw [hqueries, hregister]
    exact h.asked
  · intro x w hx
    rw [hreplies] at hx
    rw [hhads]
    refine h.answers x w ?_
    rw [hr]
    exact mem_cons_of_mem _ hx
  · intro g m a hg
    rw [hcaches] at hg
    rw [hhads]
    split at hg
    · next heq =>
      cases v with
      | none => exact h.caches g m a hg
      | some b =>
        obtain ⟨rfl, rfl⟩ := heq
        cases hg
        exact hhad
    · exact h.caches g m a hg
  · rw [hqueries, hreplies]
    exact hnodup
  · intro x hx
    rw [hinquery, if_neg (hother x hx)]
    exact h.entries x ((hway x).mpr (inr hx))
  · intro m e' he'
    rw [hinquery] at he'
    split at he'
    · nomatch he'
    · next hm =>
      obtain ⟨x, hx, rfl⟩ := h.queried m e' he'
      rcases (hway x).mp hx with rfl | hx
      · exact absurd rfl hm
      · exact ⟨x, hx, rfl⟩
  · intro m e' w he' hw
    rw [hinquery] at he'
    split at he'
    · nomatch he'
    · exact h.waiting m e' w he' hw
  · intro w hw hasked hnone
    rw [hcaches] at hnone
    rw [hwoken] at hw
    rw [hhads]
    rcases mem_append.mp hw with hw | hw
    · refine h.woken w hw hasked ?_
      split at hnone
      · exact (Option.or_eq_none_iff.mp hnone).2
      · exact hnone
    · obtain ⟨hname, hcache'⟩ := h.waiting q.name e w he hw
      have hc : w.cache = q.cache := by rw [← hasked, hcache', hcache]
      rw [if_pos ⟨hc, hname⟩] at hnone
      rw [hc, hname, ← (Option.or_eq_none_iff.mp hnone).1]
      exact hhad
  · intro o ho
    rw [hfound] at ho
    simp only [hhads]
    refine h.found_append ?_ ?_ o ho
    · rintro a rfl
      exact hhad
    · rintro rfl -
      exact hhad
  · intro i hi
    rw [hpending, Finset.mem_erase] at hi
    obtain ⟨hne, hi⟩ := hi
    rcases h.pending i hi with ⟨x, hx, hreq⟩ | ⟨m, e', w, he', hw, hreq⟩ | ⟨w, hw, hreq⟩
    · rcases (hway x).mp hx with rfl | hx
      · exact absurd hreq.symm hne
      · exact inl ⟨x, hx, hreq⟩
    · by_cases hm : m = q.name
      · rw [hm, he] at he'
        obtain rfl := Option.some.inj he'
        refine inr (inr ⟨w, ?_, hreq⟩)
        rw [hwoken]
        exact mem_append_right _ hw
      · refine inr (inl ⟨m, e', w, ?_, hw, hreq⟩)
        rw [hinquery, if_neg hm]
        exact he'
    · refine inr (inr ⟨w, ?_, hreq⟩)
      rw [hwoken]
      exact mem_append_left _ hw

theorem AgentInv.request (h : AgentInv s) (number : ℕ) (name : Bytes) :
    AgentInv (s.request number name) := by
  unfold ClusterNames.request
  cases hhit : (s.caches s.registerName).get name with
  | some a =>
    refine { h with
      found := h.found_append ?_ ?_
      pending := fun i hi => h.pending i (Finset.mem_of_mem_erase hi) }
    · rintro b ⟨⟩
      exact h.caches _ _ _ hhit
    · nofun
  | none =>
    cases he : s.inquery.get name with
    | some e =>
      have hget : ∀ m e', (s.inquery.put name (some { e with
          waitco := e.waitco ++ [⟨number, name, s.registerName, e.cache⟩] })).get m = some e' →
          ∃ e₀, s.inquery.get m = some e₀ ∧ e₀.cache = e'.cache ∧ ∀ w ∈ e'.waitco, w ∈ e₀.waitco ∨
              w = ⟨number, name, s.registerName, e.cache⟩ ∧ m = name ∧ e₀ = e := by
        intro m e' he'
        rw [Table.get_put] at he'
        split at he'
        · next hm =>
          obtain rfl := Option.some.inj he'
          refine ⟨e, hm ▸ he, rfl, fun w hw => ?_⟩
          rcases mem_append.mp hw with hw | hw
          · exact inl hw
          · exact inr ⟨mem_singleton.mp hw, hm, rfl⟩
        · exact ⟨e', he', rfl, fun w hw => inl hw⟩
      refine { h with
        entries := ?_
        queried := ?_
        waiting := ?_
        pending := ?_ }
      · intro q hq
        obtain ⟨e₀, he₀, hcache⟩ := h.entries q hq
        by_cases hname : q.name = name
        · rw [hname, he] at he₀
          cases he₀
          exact ⟨_, (Table.get_put _ _ _ _).trans (if_pos hname), hcache⟩
        · exact ⟨e₀, (Table.get_put _ _ _ _).trans ((if_neg hname).trans he₀), hcache⟩
      · intro m e' he'
        obtain ⟨e₀, he₀, -⟩ := hget m e' he'
        exact h.queried m e₀ he₀
      · intro m e' w he' hw
        obtain ⟨e₀, he₀, hcache, hall⟩ := hget m e' he'
        rcases hall w hw with hw | ⟨rfl, rfl, rfl⟩
        · rw [← hcache]
          exact h.waiting m e₀ w he₀ hw
        · exact ⟨rfl, hcache⟩
      · intro i hi
        rcases Finset.mem_insert.mp hi with rfl | hi
        · refine inr (inl ⟨name, _, ⟨i, name, s.registerName, e.cache⟩,
            Table.get_put_self _ _ _, ?_, rfl⟩)
          exact mem_append_right _ (mem_singleton_self _)
        · rcases h.pending i hi with hq | ⟨m, e', w, he', hw, hreq⟩ | hw
          · exact inl hq
          · by_cases hm : m = name
            · rw [hm, he] at he'
              obtain rfl := Option.some.inj he'
              refine inr (inl ⟨name, _, w, Table.get_put_self _ _ _, ?_, hreq⟩)
              exact mem_append_left _ hw
            · refine inr (inl ⟨m, e', w, ?_, hw, hreq⟩)
              exact (Table.get_put _ _ _ _).trans ((if_neg hm).trans he')
          · exact inr (inr hw)
    | none =>
      have hnew : ∀ q, OnItsWay s q → q.name ≠ name := by
        intro q hq heq
        obtain ⟨e, hget, -⟩ := h.entries q hq
        rw [heq, he] at hget
        nomatch hget
      set s' : ClusterNames := { s with
        inquery := s.inquery.put name (some ⟨s.registerName, []⟩)
        queries := s.queries ++ [⟨number, name, s.registerName⟩]
        pending := insert number s.pending } with hs'
      have hway : ∀ x, OnItsWay s' x ↔ OnItsWay s x ∨ x = ⟨number, name, s.registerName⟩ := by
        intro x
        simp only [OnItsWay, hs', mem_append, mem_singleton]
        exact or_right_comm
      have hget : ∀ m, s'.inquery.get m =
          if m = name then some ⟨s.registerName, []⟩ else s.inquery.get m :=
        fun m => Table.get_put _ _ _ _
      refine { h with
        asked := ?_
        once := ?_
        entries := ?_
        queried := ?_
        waiting := ?_
        pending := ?_ }
      · intro x hx
        rcases mem_append.mp hx with hx | hx
        · exact h.asked x hx
        · rw [mem_singleton.mp hx]
      · have hnot : name ∉ s.queries.map (·.name) ++ answeredNames s.replies := by
          intro hmem
          obtain ⟨q, hq, heq⟩ := mem_names.mp hmem
          exact hnew q hq heq
        have honce := nodup_cons.mpr ⟨hnot, h.once⟩
        refine (Perm.nodup_iff ?_).mp honce
        simp only [hs', map_append, append_assoc, map_cons, map_nil]
        exact perm_middle.symm
      · intro x hx
        rw [hget]
        rcases (hway x).mp hx with hx | rfl
        · rw [if_neg (hnew x hx)]
          exact h.entries x hx
        · exact ⟨_, if_pos rfl, rfl⟩
      · intro m e' he'
        rw [hget] at he'
        split at he'
        · next hm => exact ⟨_, (hway _).mpr (inr rfl), hm.symm⟩
        · obtain ⟨x, hx, hname⟩ := h.queried m e' he'
          exact ⟨x, (hway x).mpr (inl hx), hname⟩
      · intro m e' w he' hw
        rw [hget] at he'
        split at he'
        · obtain rfl := Option.some.inj he'
          nomatch hw
        · exact h.waiting m e' w he' hw
      · intro i hi
        rcases Finset.mem_insert.mp hi with rfl | hi
        · exact inl ⟨_, (hway _).mpr (inr rfl), rfl⟩
        · rcases h.pending i hi with ⟨x, hx, hreq⟩ | ⟨m, e', w, he', hw, hreq⟩ | hw
          · exact inl ⟨x, (hway x).mpr (inl hx), hreq⟩
          · have hm : m ≠ name := by
              rintro rfl
              rw [he] at he'
              nomatch he'
            refine inr (inl ⟨m, e', w, ?_, hw, hreq⟩)
            rw [hget, if_neg hm]
            exact he'
          · exact inr (inr hw)

theorem AgentInv.resume {w : NameWaiter} (h : AgentInv s) (hw : w ∈ s.woken) :
    AgentInv (s.resume w) := by
  refine { h with
    woken := fun x hx => h.woken x (mem_of_mem_erase hx)
    found := h.found_append ?_ ?_
    pending := fun i hi => ?_ }
  · intro a ha
    exact h.caches _ _ _ ha
  · intro hnone hother
    have hasked : w.asked = w.cache := by
      by_contra hne
      exact hother ⟨_, rfl, hne⟩
    exact h.woken w hw hasked hnone
  · obtain ⟨hne, hi⟩ := Finset.mem_erase.mp hi
    rcases h.pending i hi with hq | hq | ⟨x, hx, rfl⟩
    · exact inl hq
    · exact inr (inl hq)
    · have hxw : x ≠ w := fun heq => hne (heq ▸ rfl)
      exact inr (inr ⟨x, (mem_erase_of_ne hxw).mpr hx, rfl⟩)

/-! ## Every run -/

/-- Every request, answer and notice keeps the invariant. -/
theorem AgentInv.next {a : ClusterNamesAction} (h : AgentInv s)
    (hs' : ClusterNames.next s a = some s') : AgentInv s' := by
  cases a with
  | opened =>
    obtain rfl := Option.some.inj hs'
    exact h.opened
  | register name addr =>
    obtain rfl := Option.some.inj hs'
    exact h.register name addr
  | queryname =>
    simp only [ClusterNames.next] at hs'
    split at hs'
    · nomatch hs'
    · next q queries hq =>
      obtain rfl := Option.some.inj hs'
      exact h.queryname hq
  | deliver =>
    simp only [ClusterNames.next] at hs'
    split at hs'
    · nomatch hs'
    · next m replies hr =>
      obtain rfl := Option.some.inj hs'
      cases m with
      | namechange => exact h.namechange hr
      | answer q v => exact h.answer hr
  | request number name =>
    obtain ⟨-, hs'⟩ := Option.ite_none_right_eq_some.mp hs'
    obtain rfl := Option.some.inj hs'
    exact h.request number name
  | resume w =>
    obtain ⟨hw, hs'⟩ := Option.ite_none_right_eq_some.mp hs'
    obtain rfl := Option.some.inj hs'
    exact h.resume hw

/-- **In every run** the requests find what their names have had since the last notice. -/
theorem names_resolved (h : machine.Reachable s) : NamesResolved s := by
  refine AgentInv.resolved (h.invariant (I := AgentInv) ?_ ?_)
  · rintro s rfl
    exact agentInv_init
  · exact fun s a s' hs _ hnext => hs.next hnext

/-- A cached name: the request goes to the address that the name was registered for last. -/
theorem names_resolved_cached : ∃ s, NamesResolved s ∧
    s.found = [⟨0, [1], 0, none, some 7⟩, ⟨1, [1], 0, none, some 7⟩] := by
  have hrun : (machine.run init [.opened, .register [1] 7, .request 0 [1], .queryname, .deliver,
      .request 1 [1]]).map (·.found) =
        some [⟨0, [1], 0, none, some 7⟩, ⟨1, [1], 0, none, some 7⟩] := by
    decide
  obtain ⟨s, hs, hfound⟩ := Option.map_eq_some_iff.mp hrun
  exact ⟨s, names_resolved (Machine.Reachable.run (.start rfl) hs), hfound⟩

/-- The name is registered for another address when a request comes and when it is dispatched, and
the notice is on its way: the request goes to the address that the name had before. -/
theorem cached_name_before_notice : ∃ s s', machine.Reachable s ∧
    ClusterNames.next s (.request 1 [1]) = some s' ∧ s.names.get [1] = some 8 ∧
      s'.names.get [1] = some 8 ∧ s'.found = s.found ++ [⟨1, [1], 0, none, some 7⟩] := by
  have hrun : (machine.run init [.opened, .register [1] 7, .request 0 [1], .queryname, .deliver,
      .register [2] 7, .register [1] 8]).map (fun s => (s.names.get [1],
        (ClusterNames.next s (.request 1 [1])).map fun s' =>
          (s'.names.get [1], s.found, s'.found))) =
        some (some 8, some (some 8, [⟨0, [1], 0, none, some 7⟩],
          [⟨0, [1], 0, none, some 7⟩, ⟨1, [1], 0, none, some 7⟩])) := by
    decide
  obtain ⟨s, hs, hstate⟩ := Option.map_eq_some_iff.mp hrun
  obtain ⟨hname, hnext⟩ := Prod.mk.inj hstate
  obtain ⟨s', hs', hstate'⟩ := Option.map_eq_some_iff.mp hnext
  obtain ⟨hname', hfounds⟩ := Prod.mk.inj hstate'
  obtain ⟨hfound, hfound'⟩ := Prod.mk.inj hfounds
  refine ⟨s, s', Machine.Reachable.run (.start rfl) hs, hs', hname, hname', ?_⟩
  rw [hfound, hfound']
  rfl

/-- A request that waits for the query of a cache that is gone reads the new cache, where the
answer is not: it is rejected although its name is registered all the time. -/
example : (machine.run init [.opened, .register [1] 7, .register [2] 9, .request 0 [1],
    .register [3] 9, .queryname, .deliver, .request 1 [1], .deliver,
    .resume ⟨1, [1], 1, 0⟩]).map (fun s => (s.names.get [1], s.found)) =
      some (some 7, [⟨0, [1], 0, none, some 7⟩, ⟨1, [1], 1, some 0, none⟩]) := by
  decide

end Skynet.Analysis
