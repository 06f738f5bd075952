import Skynet.Model.Redis

/-!
# What the links of a redis cluster are used for

A task keeps the calls for one node name together, whoever makes them and whatever they want.
So at most one link is open for a use; the answers are right as far as those that wait behind a
connect want its link.
-/

namespace Skynet.Analysis

open Library Model RedisCluster List Option

variable {s s' : RedisCluster} {task : OnceTask} {use : LinkUse} {node : Bytes} {i l : ℕ}
  {c : Call LinkUse (Option ℕ)}

theorem cached_setCached (s : RedisCluster) (use u : LinkUse) (v : Option ℕ) :
    (s.setCached use v).cached u = if u = use then v else s.cached u := by
  obtain ⟨object, node, kind⟩ := use
  obtain ⟨object', node', kind'⟩ := u
  cases kind with
  | ordinary =>
    cases kind' with
    | ordinary =>
      simp only [setCached, cached, cache, Function.update_apply, LinkUse.mk.injEq]
      by_cases hobject : object' = object
      · simp [hobject, Table.get_put]
      · simp [hobject]
    | watch => simp [setCached, cached, cache]
  | watch =>
    cases kind' with
    | ordinary => simp [setCached, cached, cache]
    | watch =>
      simp only [setCached, cached, cache, Function.update_apply, LinkUse.mk.injEq]
      by_cases hobject : object' = object
      · simp [hobject, Table.get_put]
      · simp [hobject]

theorem setCached_frame (s : RedisCluster) (use : LinkUse) (v : Option ℕ) :
    (s.setCached use v).tasks = s.tasks ∧ (s.setCached use v).links = s.links
      ∧ (s.setCached use v).calls = s.calls
      ∧ (s.setCached use v).maxConnections = s.maxConnections := by
  unfold setCached
  split <;> exact ⟨rfl, rfl, rfl, rfl⟩

/-! ## One link at a time -/

def onceCalls (s : RedisCluster) : List ℕ := s.tasks.flatMap OnceTask.calls

structure RedisLinkInv (s : RedisCluster) : Prop where
  accounted : Calls.Accounted s.calls (onceCalls s)
  nodes : (s.tasks.map fun task => task.use.node).Nodup
  asked : ∀ task ∈ s.tasks, ∀ i ∈ task.calls, ∃ use,
    Calls.command s.calls i = some use ∧ use.node = task.use.node
  uncached : ∀ task ∈ s.tasks, s.cached task.use = none
  links : ∀ use l, s.cached use = some l → s.links[l]? = some ⟨use, true⟩
  opened : ∀ (l : ℕ) link, s.links[l]? = some link → link.opened = true → s.cached link.use = some l

theorem RedisLinkInv.init (maxConnections : ℕ → ℕ) : RedisLinkInv (init maxConnections) where
  accounted := .nil
  nodes := .nil
  asked := nofun
  uncached := nofun
  links := by
    rintro ⟨object, node, kind⟩ l hl
    cases kind <;> simp [RedisCluster.init, cached, cache] at hl
  opened := by
    intro l link hlink
    simp [RedisCluster.init] at hlink

theorem RedisLinkInv.evict (h : RedisLinkInv s) (hcached : s.cached use = some l) :
    RedisLinkInv ((s.setCached use none).disconnect l) := by
  obtain ⟨htasks, hlinks, hcalls, -⟩ := setCached_frame s use none
  have hevicted (u : LinkUse) : ((s.setCached use none).disconnect l).cached u
      = if u = use then none else s.cached u := by
    rw [← cached_setCached]
    rfl
  have hother {j : ℕ} (hj : j ≠ l) :
      ((s.setCached use none).disconnect l).links[j]? = s.links[j]? := by
    change ((s.setCached use none).links.modify l _)[j]? = _
    rw [getElem?_modify_ne _ _ (Ne.symm hj), hlinks]
  have hlink := h.links use l hcached
  refine ⟨?_, ?_, ?_, ?_, ?_, ?_⟩
  · change Calls.Accounted (s.setCached use none).calls
      ((s.setCached use none).tasks.flatMap OnceTask.calls)
    rw [hcalls, htasks]
    exact h.accounted
  · change ((s.setCached use none).tasks.map _).Nodup
    rw [htasks]
    exact h.nodes
  · change ∀ task ∈ (s.setCached use none).tasks, ∀ i ∈ task.calls, ∃ use',
      Calls.command (s.setCached use none).calls i = some use' ∧ use'.node = task.use.node
    rw [hcalls, htasks]
    exact h.asked
  · change ∀ task ∈ (s.setCached use none).tasks, _
    rw [htasks]
    intro task hmem
    rw [hevicted]
    split
    · rfl
    · exact h.uncached task hmem
  · intro u j hu
    rw [hevicted] at hu
    split at hu
    · cases hu
    · next hne =>
      have hj : j ≠ l := by
        rintro rfl
        have heq := some.inj ((h.links u j hu).symm.trans hlink)
        exact hne (congrArg RedisLink.use heq)
      rw [hother hj]
      exact h.links u j hu
  · intro j link hj hopened
    have hjl : j ≠ l := by
      rintro rfl
      change ((s.setCached use none).links.modify j _)[j]? = _ at hj
      rw [getElem?_modify_eq, hlinks, hlink] at hj
      cases hj
      cases hopened
    rw [hother hjl] at hj
    have hlinked := h.opened j link hj hopened
    rw [hevicted, if_neg]
    · exact hlinked
    · rintro heq
      rw [heq, hcached] at hlinked
      exact hjl (some.inj hlinked).symm

theorem RedisLinkInv.prepare (h : RedisLinkInv s) (use : LinkUse) (next : Bytes) :
    RedisLinkInv (s.prepare use next) := by
  unfold RedisCluster.prepare closeExistingConnection
  split
  · split
    · split
      · next hget =>
        have hcached : s.cached ⟨use.object, next, .ordinary⟩ = some _ := hget
        exact h.evict hcached
      · exact h
    · exact h
  · exact h

theorem prepare_frame (s : RedisCluster) (use : LinkUse) (next : Bytes) :
    (s.prepare use next).tasks = s.tasks ∧ (s.prepare use next).calls = s.calls
      ∧ (s.prepare use next).maxConnections = s.maxConnections
      ∧ (∀ u, s.cached u = none → (s.prepare use next).cached u = none)
      ∧ ∀ (l : ℕ) link, s.links[l]? = some link →
        ∃ opened, (s.prepare use next).links[l]? = some ⟨link.use, opened⟩ := by
  have hsame : s.tasks = s.tasks ∧ s.calls = s.calls ∧ s.maxConnections = s.maxConnections
      ∧ (∀ u, s.cached u = none → s.cached u = none)
      ∧ ∀ (l : ℕ) link, s.links[l]? = some link → ∃ opened, s.links[l]? = some ⟨link.use, opened⟩ :=
    ⟨rfl, rfl, rfl, fun _ hnone => hnone, fun l link hlink => ⟨link.opened, hlink⟩⟩
  unfold RedisCluster.prepare closeExistingConnection
  split
  · split
    · split
      · next l hget =>
        obtain ⟨htasks, hlinks, hcalls, hmax⟩ :=
          setCached_frame s ⟨use.object, next, .ordinary⟩ none
        refine ⟨htasks, hcalls, hmax, fun u hnone => ?_, fun j link hlink => ?_⟩
        · change (s.setCached ⟨use.object, next, .ordinary⟩ none).cached u = none
          rw [cached_setCached, hnone, ite_self]
        · change ∃ opened, ((s.setCached _ none).links.modify l _)[j]? = _
          rw [hlinks]
          by_cases hj : l = j
          · subst hj
            rw [getElem?_modify_eq, hlink]
            exact ⟨false, rfl⟩
          · rw [getElem?_modify_ne _ _ hj]
            exact ⟨link.opened, hlink⟩
      · exact hsame
    · exact hsame
  · exact hsame

theorem taskOf_some (h : s.taskOf node = some task) : task ∈ s.tasks ∧ task.use.node = node :=
  ⟨mem_of_find?_eq_some h, by simpa using find?_some h⟩

theorem onceCalls_perm (hmem : task ∈ s.tasks) :
    (onceCalls s).Perm (task.calls ++ (s.tasks.erase task).flatMap OnceTask.calls) :=
  ((perm_cons_erase hmem).flatMap_right _)

theorem command_of_request (hc : s.calls[i]? = some c) :
    Calls.command s.calls i = some c.command := by
  rw [Calls.command, hc]
  rfl

theorem RedisLinkInv.join (h : RedisLinkInv s) (hc : s.calls[i]? = some c)
    (hnot : c.handled = false) (hmem : task ∈ s.tasks) (hnode : task.use.node = c.command.node) :
    RedisLinkInv
      { s with
        calls := Calls.handle s.calls i
        tasks := s.tasks.erase task ++ [{ task with calls := task.calls ++ [i] }] } := by
  have hcalls : (onceCalls s ++ [i]).Perm
      ((s.tasks.erase task ++ [{ task with calls := task.calls ++ [i] }]).flatMap
        OnceTask.calls) := by
    rw [flatMap_append, flatMap_singleton, ← append_assoc]
    exact ((onceCalls_perm hmem).trans perm_append_comm).append_right [i]
  have hnodes : ((s.tasks.erase task ++ [{ task with calls := task.calls ++ [i] }]).map
      fun t : OnceTask => t.use.node).Perm
        (s.tasks.map fun t : OnceTask => t.use.node) := by
    have hmap := ((perm_cons_erase hmem).map fun t : OnceTask => t.use.node).symm
    rw [map_append]
    exact perm_append_comm.trans hmap
  refine ⟨(h.accounted.wait hc hnot).perm hcalls, hnodes.nodup_iff.mpr h.nodes, ?_, ?_, h.links,
    h.opened⟩
  · intro t ht j hj
    rw [Calls.command_handle]
    rcases mem_append.mp ht with ht | ht
    · exact h.asked t (mem_of_mem_erase ht) j hj
    · obtain rfl := mem_singleton.mp ht
      rcases mem_append.mp hj with hj | hj
      · exact h.asked task hmem j hj
      · obtain rfl := mem_singleton.mp hj
        exact ⟨c.command, command_of_request hc, hnode.symm⟩
  · intro t ht
    rcases mem_append.mp ht with ht | ht
    · exact h.uncached t (mem_of_mem_erase ht)
    · obtain rfl := mem_singleton.mp ht
      exact h.uncached task hmem

theorem RedisLinkInv.reply (h : RedisLinkInv s) (hc : s.calls[i]? = some c)
    (hnot : c.handled = false) (a : Option ℕ) :
    RedisLinkInv { s with calls := Calls.answer (Calls.handle s.calls i) i a } := by
  refine ⟨h.accounted.reply hc hnot a, h.nodes, ?_, h.uncached, h.links, h.opened⟩
  intro t ht j hj
  rw [Calls.command_answer, Calls.command_handle]
  exact h.asked t ht j hj

theorem RedisLinkInv.begins (h : RedisLinkInv s) (hc : s.calls[i]? = some c)
    (hnot : c.handled = false) (hnode : s.taskOf c.command.node = none)
    (hcached : s.cached c.command = none) :
    RedisLinkInv
      { s with
        calls := Calls.handle s.calls i
        tasks := s.tasks ++ [⟨c.command, [i]⟩] } := by
  have hnew : c.command.node ∉ s.tasks.map fun task => task.use.node := by
    intro hmem
    obtain ⟨task, hmem, hnode'⟩ := List.mem_map.mp hmem
    simpa [hnode'] using find?_eq_none.mp hnode task hmem
  refine ⟨?_, ?_, ?_, ?_, h.links, h.opened⟩
  · have haccounted := h.accounted.wait hc hnot
    rw [onceCalls, flatMap_append, flatMap_singleton]
    exact haccounted
  · rw [map_append]
    exact h.nodes.append (nodup_singleton _) (disjoint_singleton.mpr hnew)
  · intro t ht j hj
    rw [Calls.command_handle]
    rcases mem_append.mp ht with ht | ht
    · exact h.asked t ht j hj
    · obtain rfl := mem_singleton.mp ht
      obtain rfl := mem_singleton.mp hj
      exact ⟨c.command, command_of_request hc, rfl⟩
  · intro t ht
    rcases mem_append.mp ht with ht | ht
    · exact h.uncached t ht
    · obtain rfl := mem_singleton.mp ht
      exact hcached

theorem RedisLinkInv.request (h : RedisLinkInv s) (use : LinkUse) :
    RedisLinkInv { s with calls := s.calls ++ [.new use] } := by
  refine ⟨h.accounted.new use, h.nodes, ?_, h.uncached, h.links, h.opened⟩
  intro t ht j hj
  rw [Calls.command_new (h.accounted.bounded j (mem_flatMap.mpr ⟨t, ht, hj⟩))]
  exact h.asked t ht j hj

theorem RedisLinkInv.finish (h : RedisLinkInv s) (hmem : task ∈ s.tasks) (a : Option ℕ) :
    RedisLinkInv (s.finish task a) := by
  refine ⟨?_, ?_, ?_, ?_, h.links, h.opened⟩
  · exact (h.accounted.perm (onceCalls_perm hmem)).answerAll a
  · exact h.nodes.sublist ((erase_sublist).map _)
  · intro t ht j hj
    change ∃ use', Calls.command (Calls.answerAll s.calls task.calls a) j = _ ∧ _
    rw [Calls.command_answerAll]
    exact h.asked t (mem_of_mem_erase ht) j hj
  · intro t ht
    exact h.uncached t (mem_of_mem_erase ht)

theorem finish_store (s : RedisCluster) (use : LinkUse) (task : OnceTask) (a : Option ℕ) :
    (s.store use).finish task a = (s.finish task a).store use := by
  unfold RedisCluster.store setCached RedisCluster.finish
  cases use.kind with
  | ordinary => rfl
  | watch => rfl

@[simp] theorem store_calls (s : RedisCluster) (use : LinkUse) : (s.store use).calls = s.calls :=
  (setCached_frame ..).2.2.1

@[simp] theorem store_links (s : RedisCluster) (use : LinkUse) :
    (s.store use).links = s.links ++ [⟨use, true⟩] :=
  (setCached_frame ..).2.1

@[simp] theorem store_tasks (s : RedisCluster) (use : LinkUse) : (s.store use).tasks = s.tasks :=
  (setCached_frame ..).1

theorem RedisLinkInv.store (h : RedisLinkInv s) (hcached : s.cached use = none)
    (hother : ∀ task ∈ s.tasks, task.use ≠ use) : RedisLinkInv (s.store use) := by
  have hstored (u : LinkUse) : (s.store use).cached u
      = if u = use then some s.links.length else s.cached u :=
    cached_setCached ..
  refine ⟨?_, ?_, ?_, ?_, ?_, ?_⟩
  · rw [onceCalls, store_tasks, store_calls]
    exact h.accounted
  · rw [store_tasks]
    exact h.nodes
  · rw [store_tasks, store_calls]
    exact h.asked
  · intro t ht
    rw [store_tasks] at ht
    rw [hstored, if_neg (hother t ht)]
    exact h.uncached t ht
  · intro u l hu
    rw [hstored] at hu
    rw [store_links]
    split at hu
    · next heq =>
      rw [← some.inj hu, heq]
      exact getElem?_concat_length ..
    · exact getElem?_append_left (List.getElem?_eq_some_iff.mp (h.links u l hu)).1 ▸ h.links u l hu
  · intro l link hl hopened
    rw [store_links, getElem?_append] at hl
    rw [hstored]
    split at hl
    · have hlinked := h.opened l link hl hopened
      rw [if_neg]
      · exact hlinked
      · rintro heq
        rw [heq, hcached] at hlinked
        cases hlinked
    · rw [getElem?_singleton] at hl
      obtain ⟨hzero, hlink⟩ := ite_none_right_eq_some.mp hl
      cases hlink
      rw [if_pos rfl]
      congr 1
      omega

theorem RedisLinkInv.connected (h : RedisLinkInv s) (hmem : task ∈ s.tasks) :
    RedisLinkInv ((s.finish task (some s.links.length)).store task.use) := by
  refine (h.finish hmem _).store (h.uncached task hmem) fun t ht heq => ?_
  have hnodes := (((perm_cons_erase hmem).map fun t => t.use.node).nodup_iff.mp h.nodes)
  rw [map_cons, nodup_cons] at hnodes
  exact hnodes.1 (List.mem_map.mpr ⟨t, ht, by rw [heq]⟩)

/-- The three ways that a call goes. -/
inductive OnceStep (s : RedisCluster) (i : ℕ) (use : LinkUse) (next : Bytes) :
    RedisCluster → Prop
  | join {task : OnceTask} (hmem : task ∈ s.tasks) (hnode : task.use.node = use.node) :
      OnceStep s i use next
        { s with
          calls := Calls.handle s.calls i
          tasks := s.tasks.erase task ++ [{ task with calls := task.calls ++ [i] }] }
  | reply {l : ℕ} (hcached : s.cached use = some l) :
      OnceStep s i use next
        { s with calls := Calls.answer (Calls.handle s.calls i) i (some l) }
  | begins (hnode : s.taskOf use.node = none) (hcached : s.cached use = none) :
      OnceStep s i use next
        { s.prepare use next with
          calls := Calls.handle (s.prepare use next).calls i
          tasks := (s.prepare use next).tasks ++ [⟨use, [i]⟩] }

theorem prepare_calls (s : RedisCluster) (calls : List (Call LinkUse (Option ℕ)))
    (use : LinkUse) (next : Bytes) :
    prepare { s with calls := calls } use next = { s.prepare use next with calls := calls } := by
  unfold RedisCluster.prepare closeExistingConnection
  cases use.kind with
  | watch => rfl
  | ordinary =>
    simp only
    split
    · split <;> rfl
    · rfl

theorem onceStep (s : RedisCluster) (i : ℕ) (use : LinkUse) (next : Bytes) :
    OnceStep s i use next (once { s with calls := Calls.handle s.calls i } i use next) := by
  unfold once
  split
  · next task htask =>
    obtain ⟨hmem, hnode⟩ := taskOf_some htask
    exact .join hmem hnode
  · next hnode =>
    split
    · next l hcached => exact .reply hcached
    · next hcached =>
      obtain ⟨htasks, hcalls, -⟩ := prepare_frame s use next
      have hstep := @OnceStep.begins s i use next hnode hcached
      rw [hcalls, htasks] at hstep
      rw [prepare_calls]
      exact hstep

theorem RedisLinkInv.once (h : RedisLinkInv s) (hc : s.calls[i]? = some c)
    (hnot : c.handled = false) {next : Bytes} (hstep : OnceStep s i c.command next s') :
    RedisLinkInv s' := by
  cases hstep with
  | join hmem hnode => exact h.join hc hnot hmem hnode
  | reply hcached => exact h.reply hc hnot _
  | begins hnode hcached =>
    obtain ⟨htasks, hcalls, -, hkept, -⟩ := prepare_frame s c.command next
    refine (h.prepare c.command next).begins (hcalls ▸ hc) hnot ?_ (hkept _ hcached)
    rw [taskOf, htasks]
    exact hnode

theorem getElem?_request (s : RedisCluster) (use : LinkUse) :
    (s.calls ++ [Call.new use])[s.calls.length]? = some (Call.new use : Call LinkUse (Option ℕ)) :=
  getElem?_concat_length ..

/-! ## Steps -/

theorem call_of_next {next : Bytes} (h : machine.next s (.call use next) = some s') :
    OnceStep { s with calls := s.calls ++ [.new use] } s.calls.length use next s' := by
  obtain ⟨-, h⟩ := ite_none_right_eq_some.mp h
  rw [← some.inj h]
  exact onceStep ..

theorem connected_of_next (h : machine.next s (.connected task) = some s') :
    task ∈ s.tasks ∧ s' = (s.finish task (some s.links.length)).store task.use := by
  obtain ⟨hmem, h⟩ := ite_none_right_eq_some.mp h
  rw [finish_store] at h
  exact ⟨hmem, (some.inj h).symm⟩

theorem failed_of_next (h : machine.next s (.failed task) = some s') :
    task ∈ s.tasks ∧ s' = s.finish task none := by
  obtain ⟨hmem, h⟩ := ite_none_right_eq_some.mp h
  exact ⟨hmem, (some.inj h).symm⟩

variable {a : RedisClusterAction}

/-- Every step keeps the caches in order. -/
theorem RedisLinkInv.step (h : RedisLinkInv s)
    (hstep : machine.next s a = some s') : RedisLinkInv s' := by
  cases a with
  | call use next => exact (h.request use).once (getElem?_request s use) rfl (call_of_next hstep)
  | connected task =>
    obtain ⟨hmem, rfl⟩ := connected_of_next hstep
    exact h.connected hmem
  | failed task =>
    obtain ⟨hmem, rfl⟩ := failed_of_next hstep
    exact h.finish hmem none

theorem redisLinkInv_run (h : machine.Reachable s) : RedisLinkInv s := by
  refine h.invariant ?_ ?_
  · rintro _ ⟨maxConnections, rfl⟩
    exact .init maxConnections
  · intro s a s' hinv _ hstep
    exact hinv.step hstep

/-! ## What the callers get -/

/-- No two links that are open are for one use, no call has a second answer, and whoever has none
is in the task of its node. -/
structure LinksOnce (s : RedisCluster) : Prop where
  one : ∀ (l j : ℕ) link link', s.links[l]? = some link → s.links[j]? = some link' →
    link.opened = true → link'.opened = true → link.use = link'.use → l = j
  once : ∀ (i : ℕ) c, s.calls[i]? = some c → c.answers.length ≤ 1
  waits : ∀ (i : ℕ) c, s.calls[i]? = some c → c.answers = [] →
    ∃ task ∈ s.tasks, i ∈ task.calls ∧ task.use.node = c.command.node

def ConnectReported (s : RedisCluster) (a : RedisClusterAction) (s' : RedisCluster) : Prop :=
  match a with
  | .connected task => ∀ i ∈ task.calls, ∃ c, s.calls[i]? = some c ∧ c.Waits
    ∧ s'.calls[i]? = some { c with answers := [some s.links.length] }
  | .failed task => ∀ i ∈ task.calls, ∃ c, s.calls[i]? = some c ∧ c.Waits
    ∧ s'.calls[i]? = some { c with answers := [none] }
  | .call _ _ => True

/-- Every answer is a link that was opened for the object, the node and the kind of its call, and
no object has too many in its cache. -/
structure LinksRight (s : RedisCluster) : Prop where
  belongs : ∀ (i : ℕ) c l, s.calls[i]? = some c → some l ∈ c.answers →
    ∃ opened, s.links[l]? = some ⟨c.command, opened⟩
  bounded : ∀ object, (s.connections object).size ≤ s.maxConnections object

def ConnectsWanted (s : RedisCluster) : RedisClusterAction → Prop
  | .connected task =>
    (∀ i ∈ task.calls, Calls.command s.calls i = some task.use)
    ∧ (task.use.kind = .ordinary →
      (s.connections task.use.object).size < s.maxConnections task.use.object)
  | .call _ _ => True
  | .failed _ => True

instance (s : RedisCluster) : (a : RedisClusterAction) → Decidable (ConnectsWanted s a)
  | .connected task => inferInstanceAs (Decidable
      ((∀ i ∈ task.calls, Calls.command s.calls i = some task.use)
        ∧ (task.use.kind = .ordinary →
          (s.connections task.use.object).size < s.maxConnections task.use.object)))
  | .call _ _ => inferInstanceAs (Decidable True)
  | .failed _ => inferInstanceAs (Decidable True)

theorem handled_step (h : ∀ (i : ℕ) c, s.calls[i]? = some c → c.handled = true)
    (hstep : machine.next s a = some s') :
    ∀ (i : ℕ) c, s'.calls[i]? = some c → c.handled = true := by
  have hanswered (is : List ℕ) (a : Option ℕ) :
      ∀ (i : ℕ) c, (Calls.answerAll s.calls is a)[i]? = some c → c.handled = true := by
    intro i c hc
    rw [Calls.answerAll_getElem?, map_eq_some_iff] at hc
    obtain ⟨d, hd, rfl⟩ := hc
    exact h i d hd
  cases a with
  | call use next =>
    have htaken : ∀ (i : ℕ) c, (Calls.handle (s.calls ++ [.new use]) s.calls.length)[i]? = some c →
        c.handled = true := by
      intro i c hc
      rw [Calls.handle_getElem?, map_eq_some_iff] at hc
      obtain ⟨d, hd, rfl⟩ := hc
      by_cases hi : s.calls.length = i
      · simp [hi]
      · have hlt := (List.getElem?_eq_some_iff.mp hd).1
        rw [length_append, length_singleton] at hlt
        rw [getElem?_append_left (by omega)] at hd
        simp [h i d hd]
    cases call_of_next hstep with
    | join hmem hnode => exact htaken
    | reply hcached =>
      intro i c hc
      rw [Calls.answer_getElem?, map_eq_some_iff] at hc
      obtain ⟨d, hd, rfl⟩ := hc
      exact htaken i d hd
    | begins hnode hcached =>
      rw [(prepare_frame ..).2.1]
      exact htaken
  | connected task =>
    obtain ⟨-, rfl⟩ := connected_of_next hstep
    rw [store_calls]
    exact hanswered _ _
  | failed task =>
    obtain ⟨-, rfl⟩ := failed_of_next hstep
    exact hanswered _ _

theorem handled_run (h : machine.Reachable s) :
    ∀ (i : ℕ) c, s.calls[i]? = some c → c.handled = true := by
  refine h.invariant (I := fun s => ∀ (i : ℕ) c, s.calls[i]? = some c → c.handled = true) ?_ ?_
  · rintro _ ⟨maxConnections, rfl⟩ i c hc
    simp [RedisCluster.init] at hc
  · intro s a s' hinv _ hstep
    exact handled_step hinv hstep

theorem RedisLinkInv.one (h : RedisLinkInv s) {l j : ℕ} {link link' : RedisLink}
    (hl : s.links[l]? = some link) (hj : s.links[j]? = some link') (hopened : link.opened = true)
    (hopened' : link'.opened = true) (huse : link.use = link'.use) : l = j := by
  have hlink := h.opened l link hl hopened
  rw [huse, h.opened j link' hj hopened'] at hlink
  exact (some.inj hlink).symm

theorem RedisLinkInv.reported (h : RedisLinkInv s)
    (hstep : machine.next s a = some s') : ConnectReported s a s' := by
  have hanswered {task : OnceTask} (hmem : task ∈ s.tasks) (a : Option ℕ) :
      ∀ i ∈ task.calls, ∃ c, s.calls[i]? = some c ∧ c.Waits
        ∧ (Calls.answerAll s.calls task.calls a)[i]? = some { c with answers := [a] } := by
    intro i hi
    have haccounted := h.accounted.perm (onceCalls_perm hmem)
    have hwaiting : i ∈ task.calls ++ (s.tasks.erase task).flatMap OnceTask.calls :=
      mem_append_left _ hi
    have hc := getElem?_eq_getElem (haccounted.bounded i hwaiting)
    exact ⟨_, hc, (haccounted.waits_iff hc).mpr hwaiting, haccounted.answered hc hi a⟩
  cases a with
  | call use next => trivial
  | connected task =>
    obtain ⟨hmem, rfl⟩ := connected_of_next hstep
    unfold ConnectReported
    rw [store_calls]
    exact hanswered hmem _
  | failed task =>
    obtain ⟨hmem, rfl⟩ := failed_of_next hstep
    exact hanswered hmem none

theorem linksOnce_run (h : machine.Reachable s) : LinksOnce s := by
  have hinv := redisLinkInv_run h
  refine ⟨fun l j link link' => hinv.one, fun i c hc => hinv.accounted.answers_le_one hc, ?_⟩
  intro i c hc hnil
  have hwaits := (hinv.accounted.waits_iff hc).mp ⟨handled_run h i c hc, hnil⟩
  obtain ⟨task, hmem, hi⟩ := mem_flatMap.mp hwaits
  obtain ⟨use, hcommand, hnode⟩ := hinv.asked task hmem i hi
  rw [command_of_request hc] at hcommand
  exact ⟨task, hmem, hi, some.inj hcommand ▸ hnode.symm⟩

/-! ## Runs whose connects are wanted -/

theorem LinksRight.init (maxConnections : ℕ → ℕ) : LinksRight (init maxConnections) where
  belongs := by
    intro i c l hc
    simp [RedisCluster.init] at hc
  bounded := fun object => by simp [RedisCluster.init]

theorem LinksRight.belongs_of (h : LinksRight s)
    (hlinks : ∀ (l : ℕ) link, s.links[l]? = some link →
      ∃ opened, s'.links[l]? = some ⟨link.use, opened⟩)
    (hcalls : ∀ (i : ℕ) c, s'.calls[i]? = some c → ∃ d, s.calls[i]? = some d
      ∧ d.command = c.command ∧ ∀ l, some l ∈ c.answers → some l ∈ d.answers
        ∨ ∃ opened, s'.links[l]? = some ⟨c.command, opened⟩) :
    ∀ (i : ℕ) c l, s'.calls[i]? = some c → some l ∈ c.answers →
      ∃ opened, s'.links[l]? = some ⟨c.command, opened⟩ := by
  intro i c l hc hl
  obtain ⟨d, hd, hcommand, hanswers⟩ := hcalls i c hc
  rcases hanswers l hl with hold | hnew
  · obtain ⟨opened, hlink⟩ := h.belongs i d l hd hold
    rw [← hcommand]
    exact hlinks l _ hlink
  · exact hnew

theorem setCached_connections (s : RedisCluster) (use : LinkUse) (v : Option ℕ) (object : ℕ) :
    (s.setCached use v).connections object =
      if use.kind = .ordinary ∧ object = use.object then (s.connections object).put use.node v
      else s.connections object := by
  obtain ⟨o, node, kind⟩ := use
  cases kind with
  | watch => simp [setCached]
  | ordinary =>
    by_cases hobject : object = o
    · subst hobject
      simp [setCached]
    · simp [setCached, hobject]

theorem prepare_size_le (s : RedisCluster) (use : LinkUse) (next : Bytes) (object : ℕ) :
    ((s.prepare use next).connections object).size ≤ (s.connections object).size := by
  unfold RedisCluster.prepare closeExistingConnection
  split
  · split
    · split
      · change ((s.setCached ⟨use.object, next, .ordinary⟩ none).connections object).size ≤ _
        rw [setCached_connections]
        split
        · exact Table.size_put_none_le ..
        · exact le_rfl
      · exact le_rfl
    · exact le_rfl
  · exact le_rfl

theorem links_kept (s : RedisCluster) : ∀ (l : ℕ) link, s.links[l]? = some link →
    ∃ opened, s.links[l]? = some ⟨link.use, opened⟩ :=
  fun _ link hlink => ⟨link.opened, hlink⟩

theorem LinksRight.request (h : LinksRight s) (use : LinkUse) :
    LinksRight { s with calls := s.calls ++ [.new use] } := by
  refine ⟨fun i c l hc hl => ?_, h.bounded⟩
  rw [getElem?_append] at hc
  split at hc
  · exact h.belongs i c l hc hl
  · rw [getElem?_singleton] at hc
    obtain ⟨-, hnew⟩ := ite_none_right_eq_some.mp hc
    cases hnew
    cases hl

theorem LinksRight.once (h : LinksRight s) (hinv : RedisLinkInv s) (hc : s.calls[i]? = some c)
    {next : Bytes} (hstep : OnceStep s i c.command next s') : LinksRight s' := by
  cases hstep with
  | join hmem hnode =>
    refine ⟨h.belongs_of (links_kept s) fun j d hd => ?_, h.bounded⟩
    obtain ⟨e, he, hcommand, hanswers⟩ := Calls.of_handle hd
    exact ⟨e, he, hcommand, fun l hl => .inl (hanswers ▸ hl)⟩
  | @reply l hcached =>
    refine ⟨h.belongs_of (links_kept s) fun j d hd => ?_, h.bounded⟩
    have hd : (Calls.answerAll (Calls.handle s.calls i) [i] (some l))[j]? = some d := hd
    obtain ⟨e, he, hcommand, hanswers⟩ := Calls.of_answerAll hd
    obtain ⟨e', he', hcommand', hanswers'⟩ := Calls.of_handle he
    refine ⟨e', he', hcommand'.trans hcommand, fun k hk => ?_⟩
    rcases hanswers _ hk with hold | ⟨hnew, hi⟩
    · exact .inl (hanswers' ▸ hold)
    · obtain rfl := mem_singleton.mp hi
      obtain rfl := some.inj (hc.symm.trans he')
      rw [← hcommand, ← hcommand', some.inj hnew]
      exact .inr ⟨true, hinv.links _ _ hcached⟩
  | begins hnode hcached =>
    obtain ⟨-, hcalls, hmax, -, hlinks⟩ := prepare_frame s c.command next
    refine ⟨h.belongs_of hlinks fun j d hd => ?_, fun object => ?_⟩
    · rw [hcalls] at hd
      obtain ⟨e, he, hcommand, hanswers⟩ := Calls.of_handle hd
      exact ⟨e, he, hcommand, fun l hl => .inl (hanswers ▸ hl)⟩
    · rw [hmax]
      exact Nat.le_trans (prepare_size_le ..) (h.bounded object)

theorem LinksRight.finish (h : LinksRight s) (task : OnceTask) :
    LinksRight (s.finish task none) := by
  refine ⟨h.belongs_of (links_kept s) fun j d hd => ?_, h.bounded⟩
  obtain ⟨e, he, hcommand, hanswers⟩ := Calls.of_answerAll hd
  refine ⟨e, he, hcommand, fun l hl => ?_⟩
  rcases hanswers _ hl with hold | ⟨hnew, -⟩
  · exact .inl hold
  · cases hnew

theorem connected_size (hinv : RedisLinkInv s) (hmem : task ∈ s.tasks) (object : ℕ) :
    (((s.finish task (some s.links.length)).store task.use).connections object).size =
      (s.connections object).size +
        if task.use.kind = .ordinary ∧ object = task.use.object then 1 else 0 := by
  have huncached := hinv.uncached task hmem
  rw [RedisCluster.store, setCached_connections]
  split
  · next hordinary =>
    obtain ⟨hkind, rfl⟩ := hordinary
    rw [cached, hkind] at huncached
    exact Table.size_put_new _ huncached _
  · rfl

theorem maxConnections_connected (s : RedisCluster) (task : OnceTask) (a : Option ℕ) :
    ((s.finish task a).store task.use).maxConnections = s.maxConnections :=
  (setCached_frame ..).2.2.2

theorem LinksRight.connected (h : LinksRight s) (hinv : RedisLinkInv s) (hmem : task ∈ s.tasks) :
    ConnectsWanted s (.connected task) ↔
      LinksRight ((s.finish task (some s.links.length)).store task.use) := by
  have hnew : ((s.finish task (some s.links.length)).store task.use).links[s.links.length]?
      = some ⟨task.use, true⟩ := by
    rw [store_links]
    exact getElem?_concat_length ..
  constructor
  · rintro ⟨hwanted, hroom⟩
    refine ⟨h.belongs_of (fun l link hlink => ⟨link.opened, ?_⟩) fun j d hd => ?_, fun object => ?_⟩
    · rw [store_links]
      exact getElem?_append_left (List.getElem?_eq_some_iff.mp hlink).1 ▸ hlink
    · rw [store_calls] at hd
      obtain ⟨e, he, hcommand, hanswers⟩ := Calls.of_answerAll hd
      refine ⟨e, he, hcommand, fun l hl => ?_⟩
      rcases hanswers _ hl with hold | ⟨hl, hj⟩
      · exact .inl hold
      · have huse := hwanted j hj
        rw [command_of_request he, hcommand] at huse
        rw [some.inj huse, some.inj hl]
        exact .inr ⟨true, hnew⟩
    · rw [connected_size hinv hmem, maxConnections_connected]
      have hbounded := h.bounded object
      split
      · next hordinary =>
        obtain ⟨hkind, rfl⟩ := hordinary
        exact hroom hkind
      · exact hbounded
  · intro hright
    refine ⟨fun i hi => ?_, fun hkind => ?_⟩
    · have haccounted := hinv.accounted.perm (onceCalls_perm hmem)
      have hwaiting : i ∈ task.calls ++ (s.tasks.erase task).flatMap OnceTask.calls :=
        mem_append_left _ hi
      have hc := getElem?_eq_getElem (haccounted.bounded i hwaiting)
      have hanswered : (s.finish task (some s.links.length)).calls[i]? = _ :=
        haccounted.answered hc hi (some s.links.length)
      rw [← store_calls _ task.use] at hanswered
      obtain ⟨opened, hlink⟩ := hright.belongs i _ s.links.length hanswered
        (mem_singleton_self _)
      rw [hnew] at hlink
      rw [command_of_request hc]
      exact congrArg (fun link => some link.use) (some.inj hlink).symm
    · have hbounded := hright.bounded task.use.object
      rw [connected_size hinv hmem, maxConnections_connected, if_pos ⟨hkind, rfl⟩] at hbounded
      exact hbounded

theorem LinksRight.step (h : LinksRight s) (hinv : RedisLinkInv s)
    (hstep : machine.next s a = some s') : ConnectsWanted s a ↔ LinksRight s' := by
  cases a with
  | call use next =>
    refine iff_of_true trivial ?_
    exact (h.request use).once (hinv.request use) (getElem?_request s use) (call_of_next hstep)
  | connected task =>
    obtain ⟨hmem, rfl⟩ := connected_of_next hstep
    exact h.connected hinv hmem
  | failed task =>
    obtain ⟨-, rfl⟩ := failed_of_next hstep
    exact iff_of_true trivial (h.finish task)

theorem linksRight_run (h : machine.Reach ConnectsWanted s) : LinksRight s := by
  refine h.invariant_of ?_ ?_
  · rintro _ ⟨maxConnections, rfl⟩
    exact .init maxConnections
  · intro s a s' hreach hright hok hstep
    exact (hright.step (redisLinkInv_run hreach.reachable) hstep).mp hok

/-- One link for a use is open and each connect is reported to its task; where the connects are
wanted, and only there, the answers and the sizes of the caches are right as well. -/
theorem cluster_links_right (s : RedisCluster) :
    (machine.Reachable s →
      LinksOnce s ∧ ∀ a s', machine.next s a = some s' → ConnectReported s a s')
    ∧ (machine.Reach ConnectsWanted s → LinksRight s ∧ ∀ a s', machine.next s a = some s' →
        (ConnectsWanted s a ↔ LinksRight s')) := by
  refine ⟨fun h => ⟨linksOnce_run h, fun a s' hstep => ?_⟩, fun h => ?_⟩
  · exact (redisLinkInv_run h).reported hstep
  · have hright := linksRight_run h
    exact ⟨hright, fun a s' hstep => hright.step (redisLinkInv_run h.reachable) hstep⟩

/-- Two calls of an object for a node get the link that was opened for them. -/
theorem links_right_together : ∃ s s', LinksOnce s
    ∧ ConnectReported s (.connected ⟨⟨0, [65], .ordinary⟩, [0, 1]⟩) s' ∧ LinksRight s'
    ∧ s'.calls.map Call.answers = [[some 0], [some 0]] := by
  have hrun : (machine.runOk ConnectsWanted (init fun _ => 1)
      [.call ⟨0, [65], .ordinary⟩ [], .call ⟨0, [65], .ordinary⟩ []]).map
      (fun s => (decide (ConnectsWanted s (.connected ⟨⟨0, [65], .ordinary⟩, [0, 1]⟩)),
        (machine.next s (.connected ⟨⟨0, [65], .ordinary⟩, [0, 1]⟩)).map fun s' =>
          s'.calls.map Call.answers)) = some (true, some [[some 0], [some 0]]) := by
    decide
  obtain ⟨s, hs, hstate⟩ := map_eq_some_iff.mp hrun
  simp only [Prod.mk.injEq, decide_eq_true_eq] at hstate
  obtain ⟨hok, hnext⟩ := hstate
  obtain ⟨s', hstep, hanswers⟩ := map_eq_some_iff.mp hnext
  have hreach : machine.Reach ConnectsWanted s := Machine.Reach.runOk (.start ⟨_, rfl⟩) hs
  obtain ⟨honce, hreported⟩ := (cluster_links_right s).1 hreach.reachable
  obtain ⟨-, hright⟩ := (cluster_links_right s).2 hreach
  exact ⟨s, s', honce, hreported _ _ hstep, (hright _ _ hstep).mp hok, hanswers⟩

/-- A call of a second object and one for a watch link wait for the connect of the first object,
and get its ordinary link; and two connects that are in progress together fill a cache with room
for one. -/
theorem link_of_another_object :
    (∃ s, machine.Reachable s ∧ s.links = [⟨⟨0, [65], .ordinary⟩, true⟩]
      ∧ s.calls[1]? = some ⟨⟨1, [65], .ordinary⟩, true, [some 0]⟩
      ∧ s.calls[2]? = some ⟨⟨0, [65], .watch⟩, true, [some 0]⟩ ∧ ¬ LinksRight s)
    ∧ ∃ s, machine.Reachable s ∧ s.maxConnections 0 = 1 ∧ (s.connections 0).size = 2
      ∧ ¬ LinksRight s := by
  constructor
  · have hrun : (machine.run (init fun _ => 1) [.call ⟨0, [65], .ordinary⟩ [],
        .call ⟨1, [65], .ordinary⟩ [], .call ⟨0, [65], .watch⟩ [],
        .connected ⟨⟨0, [65], .ordinary⟩, [0, 1, 2]⟩]).map
        (fun s => decide (s.links = [⟨⟨0, [65], .ordinary⟩, true⟩]
          ∧ s.calls[1]? = some ⟨⟨1, [65], .ordinary⟩, true, [some 0]⟩
          ∧ s.calls[2]? = some ⟨⟨0, [65], .watch⟩, true, [some 0]⟩)) = some true := by
      decide
    obtain ⟨s, hs, hstate⟩ := map_eq_some_iff.mp hrun
    obtain ⟨hlinks, hother, hwatch⟩ := of_decide_eq_true hstate
    refine ⟨s, Machine.Reachable.run (.start ⟨_, rfl⟩) hs, hlinks, hother, hwatch, fun hright => ?_⟩
    obtain ⟨opened, hlink⟩ := hright.belongs 1 _ 0 hother (mem_singleton_self _)
    rw [hlinks] at hlink
    cases hlink
  · have hrun : (machine.run (init fun _ => 1) [.call ⟨0, [65], .ordinary⟩ [],
        .call ⟨0, [66], .ordinary⟩ [], .connected ⟨⟨0, [65], .ordinary⟩, [0]⟩,
        .connected ⟨⟨0, [66], .ordinary⟩, [1]⟩]).map
        (fun s => (s.maxConnections 0, (s.connections 0).size)) = some (1, 2) := by
      decide
    obtain ⟨s, hs, hstate⟩ := map_eq_some_iff.mp hrun
    obtain ⟨hmax, hsize⟩ := Prod.mk.inj hstate
    refine ⟨s, Machine.Reachable.run (.start ⟨_, rfl⟩) hs, hmax, hsize, fun hright => ?_⟩
    have hbounded := hright.bounded 0
    omega

end Skynet.Analysis
