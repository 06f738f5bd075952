import Skynet.Analysis.DnsCache

/-!
# How DNS queries end

Every query that waits is in the pool under its own id and has a timer that is due
`TIMEOUT` ticks after it started, and every query that does not wait has been woken once.
What wakes it goes by the id alone, so a query ends by its own answer or its own timer
exactly as long as the packets with its id carry its name and no timer of an earlier query
fires under its id.
-/

namespace Skynet.Analysis

open Library Model Dns List Option

variable {hosts : DnsName → Bool → Option (List DnsName)} {s s' : Dns} {e : DnsEvent}
  {p : DnsPacket} {content : Bytes}

/-! ## What is to hold -/

def newWoken (s s' : Dns) : List DnsWake := s'.woken.drop s.woken.length

def QueryWaits (s : Dns) (co : ℕ) : Prop :=
  ∃ tid req, s.requestPool.get tid = some req ∧ req.co = co

def timesWoken (s : Dns) (co : ℕ) : ℕ := (s.woken.map DnsWake.co).count co

/-- The query `q` is woken by its own timer, `TIMEOUT` ticks after it started or later, or by
the packet that has come, with its id and its name. -/
def OwnCause (e : DnsEvent) (w : DnsWake) (q : DnsQuery) : Prop :=
  match w.cause with
  | .timeout owner => owner = w.co ∧ q.started + dnsTimeout ≤ w.time
  | .answer p => (∃ content, e = .packet content ∧ unpackPacket content = .ok p) ∧
    p.tid = q.tid ∧ p.question.name = q.name

/-- What a step does to the queries: it wakes those that wait, by causes of their own, and a
query waits or has been woken once. -/
structure EndsOwn (s : Dns) (e : DnsEvent) (s' : Dns) : Prop where
  own : ∀ w ∈ newWoken s s', w.time = s.now ∧ QueryWaits s w.co ∧
    ∃ q, s.queries[w.co]? = some q ∧ OwnCause e w q
  once : ∀ co < s'.queries.length,
    QueryWaits s' co ∧ timesWoken s' co = 0 ∨ ¬QueryWaits s' co ∧ timesWoken s' co = 1

/-- A packet with the id of a query that waits has its name, and a timer that is due finds no
query under its id, or its own. -/
def OwnIds (s : Dns) : DnsEvent → Prop
  | .packet content => ∀ p req, unpackPacket content = .ok p →
    s.requestPool.get p.tid = some req → p.question.name = req.name
  | .timer i => ∀ t req, s.timers[i]? = some t → s.requestPool.get t.tid = some req →
    req.co = t.owner
  | _ => True

/-! ## The invariant -/

/-- Every entry of the pool is a query under its own id, a timer is due `TIMEOUT` ticks after
its query started, and a query waits or has been woken once. -/
structure DnsInv (s : Dns) : Prop where
  pool : ∀ tid req, s.requestPool.get tid = some req → req.tid = tid ∧
    ∃ started, s.queries[req.co]? = some ⟨req.name, tid, req.qtype, started⟩
  timer : ∀ t ∈ s.timers, ∃ q, s.queries[t.owner]? = some q ∧ q.tid = t.tid ∧
    t.due = q.started + dnsTimeout
  once : ∀ co < s.queries.length,
    QueryWaits s co ∧ timesWoken s co = 0 ∨ ¬QueryWaits s co ∧ timesWoken s co = 1
  known : ∀ w ∈ s.woken, w.co < s.queries.length

namespace DnsInv

theorem init : DnsInv .init := by
  refine ⟨fun tid req h => ?_, nofun, nofun, nofun⟩
  nomatch h

theorem congr (hi : DnsInv s) (hpool : s'.requestPool = s.requestPool)
    (htimers : ∀ t ∈ s'.timers, t ∈ s.timers) (hqueries : s'.queries = s.queries)
    (hwoken : s'.woken = s.woken) : DnsInv s' := by
  have hwaits : ∀ co, QueryWaits s' co ↔ QueryWaits s co := by
    intro co
    rw [QueryWaits, hpool]
    rfl
  refine ⟨?_, fun t ht => ?_, fun co hco => ?_, ?_⟩
  · rw [hpool, hqueries]
    exact hi.pool
  · rw [hqueries]
    exact hi.timer t (htimers t ht)
  · rw [hqueries] at hco
    rw [hwaits, timesWoken, hwoken]
    exact hi.once co hco
  · rw [hwoken, hqueries]
    exact hi.known

theorem suspend (hi : DnsInv s) {tid : ℕ} (hfree : s.requestPool.get tid = none)
    (name : DnsName) (qtype : ℕ) : DnsInv (s.suspend tid name qtype) := by
  have hget : ∀ i, (s.suspend tid name qtype).requestPool.get i =
      if i = tid then some ⟨name, tid, qtype, s.queries.length⟩ else s.requestPool.get i :=
    fun i => Table.get_put _ _ _ _
  have hkept : ∀ {co : ℕ} {q : DnsQuery}, s.queries[co]? = some q →
      (s.suspend tid name qtype).queries[co]? = some q :=
    fun hq => getElem?_append_left (List.getElem?_eq_some_iff.mp hq).1 ▸ hq
  have hlast : (s.suspend tid name qtype).queries[s.queries.length]? =
      some ⟨name, tid, qtype, s.now⟩ := by
    simp [Dns.suspend]
  have hwaits : ∀ co < s.queries.length,
      (QueryWaits (s.suspend tid name qtype) co ↔ QueryWaits s co) := by
    intro co hco
    constructor
    · rintro ⟨i, req, hreq, rfl⟩
      rw [hget] at hreq
      split at hreq
      · rw [← some.inj hreq] at hco
        exact absurd hco (Nat.lt_irrefl _)
      · exact ⟨i, req, hreq, rfl⟩
    · rintro ⟨i, req, hreq, rfl⟩
      refine ⟨i, req, ?_, rfl⟩
      rw [hget, if_neg ?_, hreq]
      rintro rfl
      rw [hfree] at hreq
      nomatch hreq
  refine ⟨fun i req hreq => ?_, fun t ht => ?_, fun co hco => ?_, fun w hw => ?_⟩
  · rw [hget] at hreq
    split at hreq
    · next heq =>
      rw [← some.inj hreq]
      exact ⟨heq.symm, s.now, heq ▸ hlast⟩
    · obtain ⟨htid, started, hq⟩ := hi.pool i req hreq
      exact ⟨htid, started, hkept hq⟩
  · rcases mem_append.mp ht with ht | ht
    · obtain ⟨q, hq, htid, hdue⟩ := hi.timer t ht
      exact ⟨q, hkept hq, htid, hdue⟩
    · obtain rfl := mem_singleton.mp ht
      exact ⟨_, hlast, rfl, rfl⟩
  · have hlen : co < s.queries.length + 1 := by
      simpa [Dns.suspend] using hco
    by_cases hold : co < s.queries.length
    · rw [hwaits co hold]
      exact hi.once co hold
    · obtain rfl : co = s.queries.length := by omega
      refine .inl ⟨⟨tid, _, (hget tid).trans (if_pos rfl), rfl⟩, ?_⟩
      rw [timesWoken, count_eq_zero]
      intro hmem
      obtain ⟨w, hw, hco⟩ := mem_map.mp hmem
      exact absurd (hi.known w hw) (by omega)
  · have hold := hi.known w hw
    change w.co < (s.queries ++ [_]).length
    rw [length_append]
    omega

theorem wakeup (hi : DnsInv s) {tid : ℕ} {req : DnsRequest}
    (hreq : s.requestPool.get tid = some req) (hpool : s'.requestPool = s.requestPool.put tid none)
    (htimers : ∀ t ∈ s'.timers, t ∈ s.timers) (hqueries : s'.queries = s.queries)
    {w : DnsWake} (hco : w.co = req.co) (hwoken : s'.woken = s.woken ++ [w]) : DnsInv s' := by
  have hget : ∀ i, s'.requestPool.get i = if i = tid then none else s.requestPool.get i := by
    intro i
    rw [hpool]
    exact Table.get_put _ _ _ _
  obtain ⟨-, started, hq⟩ := hi.pool tid req hreq
  have hwaits : ∀ co, QueryWaits s' co ↔ QueryWaits s co ∧ co ≠ req.co := by
    intro co
    constructor
    · rintro ⟨i, req', hreq', rfl⟩
      rw [hget] at hreq'
      split at hreq'
      · nomatch hreq'
      · next hne =>
        refine ⟨⟨i, req', hreq', rfl⟩, fun heq => hne ?_⟩
        obtain ⟨-, started', hq'⟩ := hi.pool i req' hreq'
        rw [heq, hq] at hq'
        exact (congrArg DnsQuery.tid (some.inj hq')).symm
    · rintro ⟨⟨i, req', hreq', rfl⟩, hne⟩
      refine ⟨i, req', ?_, rfl⟩
      rw [hget, if_neg ?_, hreq']
      rintro rfl
      rw [hreq] at hreq'
      exact hne (congrArg DnsRequest.co (some.inj hreq').symm)
  have htimes : ∀ co, timesWoken s' co = timesWoken s co + if req.co = co then 1 else 0 := by
    intro co
    rw [timesWoken, hwoken, map_append, count_append, map_singleton, hco, count_singleton]
    simp [timesWoken]
  refine ⟨fun i req' hreq' => ?_, fun t ht => ?_, fun co hlen => ?_, fun w' hw' => ?_⟩
  · rw [hget] at hreq'
    split at hreq'
    · nomatch hreq'
    · rw [hqueries]
      exact hi.pool i req' hreq'
  · rw [hqueries]
    exact hi.timer t (htimers t ht)
  · rw [hqueries] at hlen
    rw [hwaits, htimes]
    rcases hi.once co hlen with ⟨hwait, hzero⟩ | ⟨hwait, hone⟩
    · by_cases heq : co = req.co
      · rw [heq] at hzero
        exact .inr ⟨fun h => h.2 heq, by simp [hzero, heq]⟩
      · exact .inl ⟨⟨hwait, heq⟩, by simp [hzero, Ne.symm heq]⟩
    · have hne : req.co ≠ co := by
        rintro rfl
        exact hwait ⟨tid, req, hreq, rfl⟩
      exact .inr ⟨fun h => hwait h.1, by simp [hone, hne]⟩
  · rw [hqueries]
    rw [hwoken, mem_append, mem_singleton] at hw'
    rcases hw' with hw' | rfl
    · exact hi.known w' hw'
    · rw [hco]
      exact (List.getElem?_eq_some_iff.mp hq).1

end DnsInv

/-! ## Steps -/

theorem fire_cases (s : Dns) (t : DnsTimer) :
    s.requestPool.get t.tid = none ∧ s.fire t = s ∨
      ∃ req result, s.requestPool.get t.tid = some req ∧
        (s.fire t).woken = s.woken ++ [⟨req.co, .timeout t.owner, s.now, result⟩] ∧
        (s.fire t).requestPool = (s.requestPool.put t.tid none).put req.tid none ∧
        (s.fire t).timers = s.timers ∧ (s.fire t).queries = s.queries := by
  unfold fire
  split
  · next hnone => exact .inl ⟨hnone, rfl⟩
  · next req hreq => exact .inr ⟨req, _, hreq, rfl, rfl, rfl, rfl⟩

theorem receive_kept (s : Dns) (p : DnsPacket) :
    (s.receive p).timers = s.timers ∧ (s.receive p).queries = s.queries := by
  have hput : ∀ (s : Dns) (qtype : ℕ), (s.cachePut qtype p).timers = s.timers ∧
      (s.cachePut qtype p).queries = s.queries := by
    intro s qtype
    unfold cachePut
    split <;> exact ⟨rfl, rfl⟩
  have hboth : ((s.cachePut qtypeA p).cachePut qtypeAAAA p).timers = s.timers ∧
      ((s.cachePut qtypeA p).cachePut qtypeAAAA p).queries = s.queries :=
    ⟨(hput _ _).1.trans (hput _ _).1, (hput _ _).2.trans (hput _ _).2⟩
  unfold receive
  dsimp only
  split <;> exact hboth

/-- Everything that a step can do to the queries: it wakes none, a packet wakes the one with
its id, or a timer that is due does. -/
theorem step_queries (hi : DnsInv s) (hstep : s.next hosts e = some s') : DnsInv s' ∧
    (s'.woken = s.woken ∧ OwnIds s e ∨
      (∃ content p req result, e = .packet content ∧ unpackPacket content = .ok p ∧
        s.requestPool.get p.tid = some req ∧
        s'.woken = s.woken ++ [⟨req.co, .answer p, s.now, result⟩]) ∨
      ∃ i t req result, e = .timer i ∧ s.timers[i]? = some t ∧ t.due ≤ s.now ∧
        s.requestPool.get t.tid = some req ∧
        s'.woken = s.woken ++ [⟨req.co, .timeout t.owner, s.now, result⟩]) := by
  have hsame : ∀ t ∈ s.timers, t ∈ s.timers := fun _ h => h
  cases e with
  | resolve name ipv6 served =>
    rw [← some.inj hstep]
    rcases resolve_cases hosts s name ipv6 served with hnext | ⟨n, hnext⟩ |
      ⟨n, tid, written, name', qtype, hgen, hnext⟩ <;> rw [hnext]
    · exact ⟨hi, .inl ⟨rfl, trivial⟩⟩
    · exact ⟨hi.congr rfl hsame rfl rfl, .inl ⟨rfl, trivial⟩⟩
    · have hsent : DnsInv { s with nextTid := n, written := written } := hi.congr rfl hsame rfl rfl
      exact ⟨hsent.suspend (genTid_cases hgen).1 name' qtype, .inl ⟨rfl, trivial⟩⟩
  | packet content =>
    rcases receivePacket_cases hstep with ⟨rfl, hnone⟩ | ⟨p, hp, rfl⟩
    · exact ⟨hi, .inl ⟨rfl, fun p req hp => absurd hp (hnone p)⟩⟩
    · obtain ⟨htimers, hqueries⟩ := receive_kept s p
      have hkept : ∀ t ∈ (s.receive p).timers, t ∈ s.timers := htimers ▸ hsame
      cases hreq : s.requestPool.get p.tid with
      | none =>
        obtain ⟨hwoken, hpool⟩ := receive_of_none hreq
        refine ⟨hi.congr hpool hkept hqueries hwoken, .inl ⟨hwoken, fun q req hq hget => ?_⟩⟩
        rw [hp] at hq
        rw [← Except.ok.inj hq, hreq] at hget
        nomatch hget
      | some req =>
        obtain ⟨result, hwoken, hpool⟩ := receive_of_some hreq
        rw [(hi.pool _ _ hreq).1] at hpool
        exact ⟨hi.wakeup hreq hpool hkept hqueries rfl hwoken,
          .inr (.inl ⟨content, p, req, result, rfl, hp, hreq, hwoken⟩)⟩
  | timer i =>
    obtain ⟨t, ht, hfire⟩ := bind_eq_some_iff.mp hstep
    split at hfire
    · next hdue =>
      rw [← some.inj hfire]
      have hkept : ∀ u ∈ s.timers.eraseIdx i, u ∈ s.timers := fun u hu => mem_of_mem_eraseIdx hu
      rcases fire_cases { s with timers := s.timers.eraseIdx i } t with ⟨hnone, hnext⟩ |
        ⟨req, result, hreq, hwoken, hpool, htimers, hqueries⟩
      · rw [hnext]
        refine ⟨hi.congr rfl hkept rfl rfl, .inl ⟨rfl, fun t' req ht' hreq => ?_⟩⟩
        rw [ht] at ht'
        rw [← some.inj ht'] at hreq
        exact absurd (hnone.symm.trans hreq) nofun
      · have htid := (hi.pool _ _ hreq).1
        rw [htid, Table.put_put] at hpool
        refine ⟨hi.wakeup hreq hpool ?_ hqueries rfl hwoken,
          .inr (.inr ⟨i, t, req, result, rfl, ht, hdue, hreq, hwoken⟩)⟩
        rw [htimers]
        exact hkept
    · nomatch hfire
  | tick =>
    rw [← some.inj hstep]
    exact ⟨hi.congr rfl hsame rfl rfl, .inl ⟨rfl, trivial⟩⟩
  | flush =>
    rw [← some.inj hstep]
    exact ⟨hi.congr rfl hsame rfl rfl, .inl ⟨rfl, trivial⟩⟩
  | collect qtype name =>
    rw [← some.inj hstep]
    exact ⟨hi.congr rfl hsame rfl rfl, .inl ⟨rfl, trivial⟩⟩

theorem endsOwn_iff (hi : DnsInv s) (hstep : s.next hosts e = some s') :
    EndsOwn s e s' ↔ OwnIds s e := by
  obtain ⟨hi', ⟨hwoken, hown⟩ | ⟨content, p, req, result, rfl, hp, hreq, hwoken⟩ |
    ⟨i, t, req, result, rfl, ht, hdue, hreq, hwoken⟩⟩ := step_queries hi hstep
  · refine iff_of_true ⟨?_, hi'.once⟩ hown
    rw [newWoken, hwoken, drop_length]
    nofun
  · have hnew : newWoken s s' = [⟨req.co, .answer p, s.now, result⟩] := by
      rw [newWoken, hwoken, drop_left]
    obtain ⟨htid, started, hq⟩ := hi.pool _ _ hreq
    constructor
    · intro hends q req' hq' hreq'
      rw [hp] at hq'
      rw [← Except.ok.inj hq'] at hreq' ⊢
      rw [hreq] at hreq'
      obtain ⟨-, -, query, hquery, -, -, hname⟩ := hends.own _ (hnew ▸ mem_singleton_self _)
      rw [hq] at hquery
      rw [hname, ← some.inj hquery, some.inj hreq']
    · intro hids
      refine ⟨fun w hw => ?_, hi'.once⟩
      rw [hnew] at hw
      obtain rfl := mem_singleton.mp hw
      exact ⟨rfl, ⟨_, req, hreq, rfl⟩, _, hq, ⟨content, rfl, hp⟩, rfl, hids p req hp hreq⟩
  · have hnew : newWoken s s' = [⟨req.co, .timeout t.owner, s.now, result⟩] := by
      rw [newWoken, hwoken, drop_left]
    obtain ⟨htid, started, hq⟩ := hi.pool _ _ hreq
    constructor
    · intro hends t' req' ht' hreq'
      rw [ht] at ht'
      rw [← some.inj ht'] at hreq' ⊢
      rw [hreq] at hreq'
      obtain ⟨-, -, query, hquery, howner, -⟩ := hends.own _ (hnew ▸ mem_singleton_self _)
      rw [← some.inj hreq', howner]
    · intro hids
      refine ⟨fun w hw => ?_, hi'.once⟩
      rw [hnew] at hw
      obtain rfl := mem_singleton.mp hw
      have howner := hids t req ht hreq
      obtain ⟨q, hquery, -, hdue'⟩ := hi.timer t (mem_of_getElem? ht)
      rw [← howner, hq] at hquery
      refine ⟨rfl, ⟨_, req, hreq, rfl⟩, _, hq, howner.symm, ?_⟩
      rw [← some.inj hquery] at hdue'
      exact hdue' ▸ hdue

/-! ## The main result -/

/-- In every run the queries end by their own answers and their own timers, each once,
exactly as long as the packets with their ids have their names and no timer of an earlier
query fires under their ids. -/
theorem queries_end_own_iff (hosts : DnsName → Bool → Option (List DnsName))
    (events : List DnsEvent) : (dnsMachine hosts).Each EndsOwn .init events ↔
      (dnsMachine hosts).Each (fun s e _ => OwnIds s e) .init events :=
  Machine.each_congr (I := DnsInv) (fun _ _ _ hi hstep => (step_queries hi hstep).1)
    (fun _ _ _ hi hstep => endsOwn_iff hi hstep) DnsInv.init events

/-- The machine without a file of hosts. -/
abbrev plainDns : Machine Dns DnsEvent := dnsMachine fun _ _ => none

def emptyAnswer (hi lo : UInt8) : Bytes :=
  [hi, lo, 0x81, 0x80, 0, 1, 0, 0, 0, 0, 0, 0, 1, 97, 0, 0, 1, 0, 1]

theorem unpackPacket_emptyAnswer (hi lo : UInt8) :
    unpackPacket (emptyAnswer hi lo) = .ok ⟨leNat [lo, hi], ⟨[97], 1, 1⟩, []⟩ := by
  with_unfolding_all rfl

theorem reachable_step (h : plainDns.Reachable s) (hstep : s.next (fun _ _ => none) e = some s') :
    plainDns.Reachable s' :=
  Machine.Reach.step (a := e) h trivial hstep

theorem reachable_ticks (h : plainDns.Reachable s) (n : ℕ) :
    plainDns.Reachable { s with now := s.now + n } := by
  induction n with
  | zero => exact h
  | succ n ih => exact reachable_step (e := .tick) ih rfl

theorem resolve_plain (hfree : s.requestPool.get s.nextTid = none)
    (hcache : s.cache.get (qtypeA, [97]) = none) : ∃ written,
    s.next (fun _ _ => none) (.resolve [97] false true) = some ({ s with
      nextTid := if s.nextTid + 1 > 65535 then 1 else s.nextTid + 1
      written := written }.suspend s.nextTid [97] qtypeA) := by
  have hlookup : s.lookupCache [97] qtypeA false = none := by
    rw [lookupCache, hcache]
    rfl
  have hgen : s.genTid = some (s.nextTid, { s with
      nextTid := if s.nextTid + 1 > 65535 then 1 else s.nextTid + 1 }) := by
    unfold genTid
    rw [hfree]
    rfl
  have hresolve : s.next (fun _ _ => none) (.resolve [97] false true) =
      some (s.remoteResolve [97] false true).2 := by
    with_unfolding_all rfl
  refine ⟨s.written ++ [packHeader s.nextTid ++ packQuestion [97] qtypeA qclassIN], ?_⟩
  rw [hresolve, remoteResolve]
  rw [if_neg (by decide), hlookup, hgen]
  rfl

structure AfterQueries (s : Dns) (n : ℕ) : Prop where
  reachable : plainDns.Reachable s
  now : s.now = 0
  nextTid : s.nextTid = n % 65535 + 1
  free : ∀ tid, s.requestPool.get tid = none
  length : s.queries.length = n
  timers : s.timers.length = n
  first : 0 < n → s.timers[0]? = some ⟨1, dnsTimeout, 0⟩
  unknown : s.cache.get (qtypeA, [97]) = none

theorem AfterQueries.succ {n : ℕ} (h : AfterQueries s n) (hn : n < 65535) :
    ∃ s', AfterQueries s' (n + 1) := by
  have htid : s.nextTid = n + 1 := by
    rw [h.nextTid, Nat.mod_eq_of_lt hn]
  obtain ⟨written, hresolve⟩ := resolve_plain (h.free s.nextTid) h.unknown
  rw [htid] at hresolve
  generalize hs₁ : ({ s with
    nextTid := if n + 1 + 1 > 65535 then 1 else n + 1 + 1
    written := written } : Dns).suspend (n + 1) [97] qtypeA = s₁ at hresolve
  have hreach := reachable_step h.reachable hresolve
  have hget : ∀ i, s₁.requestPool.get i =
      if i = n + 1 then some ⟨[97], n + 1, qtypeA, n⟩ else none := by
    intro i
    rw [← hs₁, ← h.length, ← h.free i]
    exact Table.get_put _ _ _ _
  have hread : unpackPacket (emptyAnswer (.ofNat ((n + 1) / 256)) (.ofNat (n + 1))) =
      .ok ⟨n + 1, ⟨[97], 1, 1⟩, []⟩ := by
    have hnumber : leNat [UInt8.ofNat (n + 1), UInt8.ofNat ((n + 1) / 256)] = n + 1 := by
      simp only [leNat, UInt8.toNat_ofNat']
      omega
    rw [unpackPacket_emptyAnswer, hnumber]
  have hanswer : s₁.next (fun _ _ => none)
      (.packet (emptyAnswer (.ofNat ((n + 1) / 256)) (.ofNat (n + 1)))) =
        some (s₁.wakeup ⟨[97], n + 1, qtypeA, n⟩ (.answer ⟨n + 1, ⟨[97], 1, 1⟩, []⟩)
          ((s₁.cache.get (qtypeA, [97])).map CacheEntry.answers)) := by
    have hreceive : s₁.next (fun _ _ => none)
        (.packet (emptyAnswer (.ofNat ((n + 1) / 256)) (.ofNat (n + 1)))) = _ :=
      next_packet _ s₁ hread
    have hpool : s₁.requestPool.get (n + 1) = some ⟨[97], n + 1, qtypeA, n⟩ :=
      (hget (n + 1)).trans (if_pos rfl)
    rw [hreceive]
    simp [receive, cachePut, addresses, hpool]
  have htimers : s₁.timers = s.timers ++ [⟨n + 1, dnsTimeout, n⟩] := by
    rw [← hs₁]
    simp only [Dns.suspend, h.now, h.length, Nat.zero_add]
  refine ⟨_, reachable_step hreach hanswer, ?_, ?_, fun i => ?_, ?_, ?_, fun _ => ?_, ?_⟩
  · rw [← hs₁]
    exact h.now
  · rw [← hs₁]
    change (if n + 1 + 1 > 65535 then 1 else n + 1 + 1) = (n + 1) % 65535 + 1
    split <;> omega
  · change (s₁.requestPool.put (n + 1) none).get i = none
    rw [Table.get_put, hget]
    split <;> rfl
  · rw [← hs₁]
    change (s.queries ++ [_]).length = n + 1
    rw [length_append, h.length]
    rfl
  · change s₁.timers.length = n + 1
    rw [htimers, length_append, h.timers]
    rfl
  · change s₁.timers[0]? = _
    rw [htimers]
    rcases Nat.eq_zero_or_pos n with rfl | hpos
    · rw [length_eq_zero_iff.mp h.timers]
      rfl
    · rw [getElem?_append_left (h.timers ▸ hpos), h.first hpos]
  · rw [← hs₁]
    exact h.unknown

theorem afterQueries {n : ℕ} (hn : n ≤ 65535) : ∃ s, AfterQueries s n := by
  induction n with
  | zero =>
    refine ⟨.init, .start rfl, rfl, rfl, fun tid => Table.get_empty tid, rfl, rfl, nofun, ?_⟩
    exact Table.get_empty _
  | succ n ih =>
    obtain ⟨s, hs⟩ := ih (by omega)
    exact hs.succ (by omega)

/-- **Ends by others.** A packet with the id of the query for the host `a` that asks for the
host `b` wakes it; and when all ids have been used the next query gets the first again, and
is woken by the timer of the first query, 29 seconds after it started.
SRC: dns.lua:353-368, 439-448 -/
theorem ended_by_others :
    ¬plainDns.Each EndsOwn .init
        [.resolve [97] false true,
          .packet [0, 1, 0x81, 0x80, 0, 1, 0, 0, 0, 0, 0, 0, 1, 98, 0, 0, 1, 0, 1]] ∧
      ∃ s s', plainDns.Reachable s ∧ plainDns.next s (.timer 0) = some s' ∧
        ¬EndsOwn s (.timer 0) s' := by
  constructor
  · intro heach
    obtain ⟨written, hresolve⟩ := resolve_plain (s := .init) (Table.get_empty _) (Table.get_empty _)
    obtain ⟨-, hrest⟩ := heach _ hresolve
    have hread : unpackPacket [0, 1, 0x81, 0x80, 0, 1, 0, 0, 0, 0, 0, 0, 1, 98, 0, 0, 1, 0, 1] =
        .ok ⟨1, ⟨[98], 1, 1⟩, []⟩ := by decide
    obtain ⟨hends, -⟩ := hrest _ (next_packet (fun _ _ => none) _ hread)
    have hi := (step_queries DnsInv.init hresolve).1
    have hname := (endsOwn_iff hi (next_packet (fun _ _ => none) _ hread)).mp hends _ ⟨[97], 1, qtypeA, 0⟩ hread
      (Table.get_put_self _ _ _)
    exact absurd hname (by decide)
  · obtain ⟨s, hs⟩ := afterQueries (Nat.le_refl 65535)
    have hi : ∀ {s : Dns}, plainDns.Reachable s → DnsInv s := by
      intro s hreach
      refine Machine.Reach.invariant (I := DnsInv) ?_ ?_ hreach
      · rintro s rfl
        exact DnsInv.init
      · exact fun _ _ _ hi _ hstep => (step_queries hi hstep).1
    -- One second later the first id is given again.
    have hlater := reachable_ticks hs.reachable 100
    obtain ⟨written, hresolve⟩ :=
      resolve_plain (s := { s with now := s.now + 100 }) (hs.free s.nextTid) hs.unknown
    have hwaits := reachable_ticks (reachable_step hlater hresolve) 2900
    have hfirst : (s.timers ++ [⟨s.nextTid, s.now + 100 + dnsTimeout, s.queries.length⟩])[0]? =
        some ⟨1, dnsTimeout, 0⟩ := by
      rw [getElem?_append_left (by rw [hs.timers]; norm_num), hs.first (by norm_num)]
    have htid : s.nextTid = 1 := hs.nextTid
    generalize hs₁ : Dns.mk _ _ _ _ _ _ _ _ _ = s₁ at hwaits
    have hlate : s₁.timers[0]? = some ⟨1, dnsTimeout, 0⟩ := hs₁ ▸ hfirst
    have hdue : dnsTimeout ≤ s₁.now := by
      rw [← hs₁]
      change 3000 ≤ s.now + 100 + 2900
      omega
    have hpool : s₁.requestPool.get 1 = some ⟨[97], 1, qtypeA, 65535⟩ := by
      rw [← hs₁, ← hs.length, ← htid]
      exact Table.get_put_self _ _ _
    have hstep : s₁.next (fun _ _ => none) (.timer 0) =
        some ({ s₁ with timers := s₁.timers.eraseIdx 0 }.fire ⟨1, dnsTimeout, 0⟩) := by
      change (s₁.timers[0]?.bind _) = _
      rw [hlate, bind_some, if_pos hdue]
    refine ⟨s₁, _, hwaits, hstep, fun hends => ?_⟩
    have howner := (endsOwn_iff (hi hwaits) hstep).mp hends _ _ hlate hpool
    exact absurd howner (by decide)

end Skynet.Analysis
