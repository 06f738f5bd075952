import Skynet.Analysis.MulticastAgreement
import Skynet.Library.ThreadSum
import Skynet.Model.MulticastPackages
import Mathlib.Algebra.BigOperators.Fin
import Mathlib.Tactic.FinCases

/-!
# Packages are freed once

Every package is in one of four stages: `multicastd` has it and nobody else; it is sent and
its counter is the number of messages and coroutines that have still to close it; one
service has taken the last reference and frees it; it is freed and nothing refers to it.
A service that exits with messages or coroutines, a message to a service that has exited,
and an error in `__unpack` each drop a reference without closing it.
-/

namespace Skynet.Analysis

open Library Model List Option

section Lists

variable {α : Type}

theorem count_map_eraseIdx {f : α → ℕ} {l : List α} {i : ℕ} {a : α} (h : l[i]? = some a) (p : ℕ) :
    (l.map f).count p = (if f a = p then 1 else 0) + ((l.eraseIdx i).map f).count p := by
  obtain ⟨hlt, hget⟩ := List.getElem?_eq_some_iff.1 h
  have hperm := (getElem_cons_eraseIdx_perm hlt).map f
  rw [hget] at hperm
  rw [← hperm.count_eq, map_cons, count_cons]
  simp only [beq_iff_eq]
  omega

theorem map_set_eq {f : α → ℕ} {l : List α} {i : ℕ} {a b : α} (h : l[i]? = some a)
    (hf : f b = f a) : (l.set i b).map f = l.map f := by
  obtain ⟨hlt, hget⟩ := List.getElem?_eq_some_iff.1 h
  rw [map_set, hf, ← hget, ← getElem_map f (h := by simpa using hlt)]
  exact set_getElem_self _

end Lists

/-! ## Stages of a package -/

/-- The stages of a package, by the requests of `multicastd` that refer to it, the messages
and coroutines of services that have still to close it, and the services that have still to
free it. -/
def PackageStage (unsent held freeing : ℕ) (pack : McPackage) : Prop :=
  (unsent = 1 ∧ held = 0 ∧ freeing = 0 ∧ pack = ⟨0, 0, 0, 0⟩) ∨
  (unsent = 0 ∧ 0 < held ∧ freeing = 0 ∧ pack.reference = held ∧
    pack.closes + held = pack.receivers ∧ pack.frees = 0) ∨
  (unsent = 0 ∧ held = 0 ∧ freeing = 1 ∧ pack.reference = 0 ∧ pack.closes = pack.receivers ∧
    pack.frees = 0) ∨
  (unsent = 0 ∧ held = 0 ∧ freeing = 0 ∧ pack.reference = 0 ∧ pack.closes = pack.receivers ∧
    pack.frees = 1)

section Stages

variable {u n f : ℕ} {pack : McPackage}

theorem PackageStage.frees_eq_zero (h : PackageStage u n f pack)
    (hpos : 0 < u + n + f) : pack.frees = 0 := by
  rcases h with ⟨-, -, -, rfl⟩ | ⟨-, -, -, -, -, hfrees⟩ | ⟨-, -, -, -, -, hfrees⟩ | h
  · rfl
  · exact hfrees
  · exact hfrees
  · omega

theorem PackageStage.of_unsent (h : PackageStage u n f pack) (hpos : 0 < u) :
    u = 1 ∧ n = 0 ∧ f = 0 ∧ pack = ⟨0, 0, 0, 0⟩ := by
  rcases h with h | h | h | h
  · exact h
  all_goals omega

theorem PackageStage.of_held (h : PackageStage u n f pack) (hpos : 0 < n) :
    u = 0 ∧ f = 0 ∧ pack.reference = n ∧ pack.closes + n = pack.receivers ∧ pack.frees = 0 := by
  rcases h with h | h | h | h <;> omega

theorem PackageStage.of_freeing (h : PackageStage u n f pack) (hpos : 0 < f) :
    u = 0 ∧ n = 0 ∧ f = 1 ∧ pack.reference = 0 ∧ pack.closes = pack.receivers ∧ pack.frees = 0 := by
  rcases h with h | h | h | h
  · omega
  · omega
  · exact h
  · omega

end Stages

section Invariant

variable {σ : Type} [Fintype σ]

def unsent (s : PackagesState σ) (p : ℕ) : ℕ :=
  (s.requests.map Prod.snd).count p + (s.publishing.map Prod.snd).count p

def held (s : PackagesState σ) (p : ℕ) : ℕ := threadSum (McService.holds p) s.service

def toFree (s : PackagesState σ) (p : ℕ) : ℕ := threadSum (McService.frees p) s.service

structure PackInv (s : PackagesState σ) : Prop where
  faults : s.faults = []
  stage : ∀ p < s.count, PackageStage (unsent s p) (held s p) (toFree s p) (s.package p)
  fresh : ∀ p, s.count ≤ p → unsent s p = 0 ∧ held s p = 0 ∧ toFree s p = 0
  counted : ∀ c, McCounted (s.channel c)

variable {s s' : PackagesState σ}

theorem PackInv.lt_count (hI : PackInv s) {p : ℕ} (hpos : 0 < unsent s p + held s p + toFree s p) :
    p < s.count := by
  by_contra hle
  have hfresh := hI.fresh p (not_lt.1 hle)
  omega

theorem PackInv.touch (hI : PackInv s) {p : ℕ} (hpos : 0 < unsent s p + held s p + toFree s p) :
    s.touch p = s :=
  if_pos ((hI.stage p (hI.lt_count hpos)).frees_eq_zero hpos)

theorem PackInv.change (hI : PackInv s) (p : ℕ) (hfaults : s'.faults = [])
    (hcount : s'.count = s.count) (hchannel : ∀ c, McCounted (s'.channel c)) (hp : p < s.count)
    (hstage : PackageStage (unsent s' p) (held s' p) (toFree s' p) (s'.package p))
    (hother : ∀ q, q ≠ p → s'.package q = s.package q ∧ unsent s' q = unsent s q ∧
      held s' q = held s q ∧ toFree s' q = toFree s q) : PackInv s' := by
  refine ⟨hfaults, fun q hq => ?_, fun q hq => ?_, hchannel⟩
  · by_cases heq : q = p
    · subst heq
      exact hstage
    · obtain ⟨hpack, hunsent, hheld, hfree⟩ := hother q heq
      rw [hpack, hunsent, hheld, hfree]
      exact hI.stage q (hcount ▸ hq)
  · have heq : q ≠ p := by omega
    obtain ⟨-, hunsent, hheld, hfree⟩ := hother q heq
    rw [hunsent, hheld, hfree]
    exact hI.fresh q (hcount ▸ hq)

theorem PackInv.same (hI : PackInv s) (hfaults : s'.faults = []) (hcount : s'.count = s.count)
    (hchannel : ∀ c, McCounted (s'.channel c)) (hpackage : s'.package = s.package)
    (hrefs : ∀ q, unsent s' q = unsent s q ∧ held s' q = held s q ∧ toFree s' q = toFree s q) :
    PackInv s' := by
  refine ⟨hfaults, fun q hq => ?_, fun q hq => ?_, hchannel⟩ <;>
    obtain ⟨hunsent, hheld, hfree⟩ := hrefs q <;> rw [hunsent, hheld, hfree]
  · rw [hpackage]
    exact hI.stage q (hcount ▸ hq)
  · exact hI.fresh q (hcount ▸ hq)

theorem PackInv.new (hI : PackInv s) (hfaults : s'.faults = []) (hcount : s'.count = s.count + 1)
    (hchannel : s'.channel = s.channel)
    (hpackage : s'.package = Function.update s.package s.count ⟨0, 0, 0, 0⟩)
    (hservice : s'.service = s.service)
    (hunsent : ∀ q, unsent s' q = unsent s q + if q = s.count then 1 else 0) : PackInv s' := by
  have hheld : ∀ q, held s' q = held s q := fun q => by rw [held, held, hservice]
  have hfree : ∀ q, toFree s' q = toFree s q := fun q => by rw [toFree, toFree, hservice]
  refine ⟨hfaults, fun q hq => ?_, fun q hq => ?_, hchannel ▸ hI.counted⟩ <;>
    rw [hunsent, hheld, hfree]
  · rw [hpackage]
    by_cases heq : q = s.count
    · subst heq
      obtain ⟨hu, hh, hf⟩ := hI.fresh s.count le_rfl
      rw [Function.update_self, if_pos rfl, hu, hh, hf]
      exact .inl ⟨rfl, rfl, rfl, rfl⟩
    · rw [Function.update_of_ne heq, if_neg heq]
      exact hI.stage q (by omega)
  · rw [if_neg (by omega)]
    exact hI.fresh q (by omega)

end Invariant

section Daemon

variable {σ : Type} [Fintype σ] [DecidableEq σ] {s : PackagesState σ}

omit [DecidableEq σ] in
theorem PackInv.freeUnsent (hI : PackInv s) (requests publishing : List (ℕ × ℕ)) {p : ℕ}
    (hunsent : ∀ q, unsent s q = (if p = q then 1 else 0) +
      unsent { s with requests := requests, publishing := publishing } q) :
    PackInv ({ s with requests := requests, publishing := publishing }.freeUnsent p) := by
  have hpos : 0 < unsent s p := by
    rw [hunsent, if_pos rfl]
    omega
  have hlt := hI.lt_count (p := p) (by omega)
  obtain ⟨hu, hh, hf, hpack⟩ := (hI.stage p hlt).of_unsent hpos
  have htouch : PackagesState.touch { s with requests := requests, publishing := publishing } p =
      { s with requests := requests, publishing := publishing } := by
    simp [PackagesState.touch, hpack]
  have hrest : unsent { s with requests := requests, publishing := publishing } p = 0 := by
    have h := hunsent p
    rw [if_pos rfl] at h
    omega
  simp only [PackagesState.freeUnsent, htouch, PackagesState.putPackage]
  refine hI.change p hI.faults rfl hI.counted hlt (.inr (.inr (.inr ?_))) fun q hq => ?_
  · refine ⟨hrest, hh, hf, ?_⟩
    simp [hpack]
  · refine ⟨by simp [hq], ?_, rfl, rfl⟩
    have h := hunsent q
    rw [if_neg (Ne.symm hq), zero_add] at h
    exact h.symm

theorem held_send (s : PackagesState σ) (c p : ℕ) {group : Finset σ}
    (halive : ∀ k ∈ group, (s.service k).alive = true) (q : ℕ) :
    threadSum (McService.holds q) (fun k =>
      if k ∈ group ∧ (s.service k).alive then
        { s.service k with queue := (s.service k).queue ++ [(c, p)] }
      else s.service k) = held s q + if p = q then group.card else 0 := by
  have hone : ∀ k, McService.holds q
      (if k ∈ group ∧ (s.service k).alive then
        { s.service k with queue := (s.service k).queue ++ [(c, p)] }
      else s.service k) =
      McService.holds q (s.service k) + if k ∈ group then (if p = q then 1 else 0) else 0 := by
    intro k
    by_cases hk : k ∈ group
    · simp only [hk, halive k hk, and_self, if_true, McService.holds, map_append,
        map_cons, map_nil, count_append, count_cons, count_nil,
        beq_iff_eq]
      omega
    · simp [hk]
  simp only [threadSum, hone, Finset.sum_add_distrib, held]
  split
  · simp
  · simp

theorem PackInv.publishLocal {publishing : List (ℕ × ℕ)} {c p : ℕ} (hI : PackInv s)
    (hunsent : ∀ q, unsent s q = (if p = q then 1 else 0) +
      unsent { s with publishing := publishing } q)
    (halive : ∀ group, (s.channel c).channel = some group →
      ∀ k ∈ group, (s.service k).alive = true) :
    PackInv ({ s with publishing := publishing }.publishLocal c p) := by
  have hfree : PackInv ({ s with publishing := publishing }.freeUnsent p) :=
    hI.freeUnsent s.requests publishing hunsent
  unfold PackagesState.publishLocal
  split
  · exact hfree
  · next group hgroup =>
    split
    · exact hfree
    · next hne =>
      have hgroup' : (s.channel c).channel = some group := hgroup
      have hcard : 0 < group.card := Finset.card_pos.2 (Finset.nonempty_iff_ne_empty.2 hne)
      have hpos : 0 < unsent s p := by
        rw [hunsent, if_pos rfl]
        omega
      have hlt := hI.lt_count (p := p) (by omega)
      obtain ⟨hu, hh, hf, hpack⟩ := (hI.stage p hlt).of_unsent hpos
      have htouch : PackagesState.touch { s with publishing := publishing } p =
          { s with publishing := publishing } := by
        simp [PackagesState.touch, hpack]
      have hcount : (s.channel c).channelN = some (group.card : ℤ) := by
        have h := hI.counted c
        rw [McCounted, hgroup'] at h
        exact h
      have hsend := held_send s c p (halive group hgroup')
      have hrest : unsent { s with publishing := publishing } p = 0 := by
        have h := hunsent p
        rw [if_pos rfl] at h
        omega
      have hfrees : ∀ q, threadSum (McService.frees q) (fun k =>
          if k ∈ group ∧ (s.service k).alive then
            { s.service k with queue := (s.service k).queue ++ [(c, p)] }
          else s.service k) = toFree s q := by
        intro q
        refine Finset.sum_congr rfl fun k _ => ?_
        simp only [McService.frees]
        split <;> rfl
      simp only [PackagesState.bindSend, htouch, hpack, ne_eq, not_true_eq_false, if_false,
        PackagesState.putPackage]
      refine hI.change p hI.faults rfl hI.counted hlt (.inr (.inl ?_)) fun q hq => ?_
      · refine ⟨hrest, ?_, (hfrees p).trans hf, ?_, ?_, ?_⟩ <;>
          simp only [held, hsend, Function.update_self, if_true, hcount, getD_some]
        · omega
        · have hzero : threadSum (McService.holds p) s.service = 0 := hh
          simp [hzero]
        · have hzero : threadSum (McService.holds p) s.service = 0 := hh
          simp [hzero]
      · refine ⟨by simp [hq], ?_, ?_, hfrees q⟩
        · have h := hunsent q
          rw [if_neg (Ne.symm hq), zero_add] at h
          exact h.symm
        · simp only [held, hsend, if_neg (Ne.symm hq), add_zero]

end Daemon

/-! ## Services -/

section Services

variable {σ : Type} [Fintype σ] [DecidableEq σ] {s : PackagesState σ}

theorem held_split (s : PackagesState σ) (k : σ) (q : ℕ) :
    ∃ rest, held s q = (s.service k).holds q + rest ∧ ∀ service : McService,
      threadSum (McService.holds q) (Function.update s.service k service) =
        service.holds q + rest :=
  threadSum_split (McService.holds q) s.service k

theorem toFree_split (s : PackagesState σ) (k : σ) (q : ℕ) :
    ∃ rest, toFree s q = (s.service k).frees q + rest ∧ ∀ service : McService,
      threadSum (McService.frees q) (Function.update s.service k service) =
        service.frees q + rest :=
  threadSum_split (McService.frees q) s.service k

variable {service : McService}

theorem PackInv.putService (hI : PackInv s) (k : σ)
    (hholds : ∀ q, service.holds q = (s.service k).holds q)
    (hfrees : service.freeing = (s.service k).freeing) : PackInv (s.putService k service) := by
  refine hI.same hI.faults rfl hI.counted rfl fun q => ⟨rfl, ?_, ?_⟩
  · obtain ⟨rest, hrest, hrest'⟩ := held_split s k q
    exact (hrest' service).trans (by rw [hrest, hholds])
  · obtain ⟨rest, hrest, hrest'⟩ := toFree_split s k q
    refine (hrest' service).trans ?_
    rw [hrest]
    simp only [McService.frees, hfrees]

theorem PackInv.change_service (hI : PackInv s) (k : σ) {p n f : ℕ}
    {pack : McPackage} (hlt : p < s.count) (hn : service.holds p = n) (hf : service.frees p = f)
    (hstage : ∀ rest others, held s p = (s.service k).holds p + rest →
      toFree s p = (s.service k).frees p + others →
      PackageStage (unsent s p) (n + rest) (f + others) pack)
    (hholds : ∀ q, q ≠ p → service.holds q = (s.service k).holds q)
    (hfrees : ∀ q, q ≠ p → service.frees q = (s.service k).frees q) :
    PackInv ((s.putPackage p pack).putService k service) := by
  refine hI.change p hI.faults rfl hI.counted hlt ?_ fun q hq => ?_
  · obtain ⟨rest, hrest, hrest'⟩ := held_split s k p
    obtain ⟨others, hothers, hothers'⟩ := toFree_split s k p
    have hheld : held ((s.putPackage p pack).putService k service) p = service.holds p + rest :=
      hrest' service
    have hfree : toFree ((s.putPackage p pack).putService k service) p =
        service.frees p + others := hothers' service
    have hpack : ((s.putPackage p pack).putService k service).package p = pack :=
      Function.update_self ..
    rw [hheld, hfree, hpack, hn, hf]
    exact hstage rest others hrest hothers
  · obtain ⟨rest, hrest, hrest'⟩ := held_split s k q
    obtain ⟨others, hothers, hothers'⟩ := toFree_split s k q
    refine ⟨Function.update_of_ne hq .., rfl, ?_, ?_⟩
    · exact (hrest' service).trans (by rw [hrest, hholds q hq])
    · exact (hothers' service).trans (by rw [hothers, hfrees q hq])

omit [DecidableEq σ] in
theorem held_pos {k : σ} {p : ℕ} (h : 0 < (s.service k).holds p) : 0 < held s p :=
  lt_of_lt_of_le h (le_threadSum (McService.holds p) s.service k)

theorem holds_task {j : ℕ} {t : McTask} (h : service.tasks[j]? = some t) :
    0 < service.holds t.pack := by
  have hcount := count_map_eraseIdx (f := McTask.pack) h t.pack
  rw [if_pos rfl] at hcount
  simp only [McService.holds]
  omega

variable {s' : PackagesState σ}

omit [Fintype σ] [DecidableEq σ] in
theorem task_eq_some {k : σ} {j : ℕ} {stage : McStage}
    {step : McService → ℕ → PackagesState σ}
    (h : s.task k j stage step = some s') :
    ∃ t, (s.service k).tasks[j]? = some t ∧ s.Runs k ∧ t.stage = stage ∧
      s' = step (s.service k) t.pack := by
  unfold PackagesState.task at h
  split at h
  · cases h
  · next t ht =>
    simp only [ite_none_right_eq_some, some.injEq] at h
    exact ⟨t, ht, h.1.1, h.1.2, h.2.symm⟩

theorem PackInv.receive (hI : PackInv s) {k : σ} (h : s.receive k = some s') : PackInv s' := by
  simp only [PackagesState.receive] at h
  split at h
  · cases h
  · next c p queue hqueue =>
    cases h
    have hpos : 0 < (s.service k).holds p := by
      simp only [McService.holds, hqueue, map_cons, count_cons_self]
      omega
    have hheld := held_pos hpos
    rw [hI.touch (p := p) (by omega)]
    refine hI.putService k (fun q => ?_) rfl
    simp only [McService.holds, hqueue, map_cons, map_append, map_nil,
      count_cons, count_append, count_nil]
    omega

theorem PackInv.close (hI : PackInv s) {k : σ} {j : ℕ}
    (h : s.close k j = some s') : PackInv s' := by
  obtain ⟨t, ht, ⟨-, hnot⟩, -, rfl⟩ := task_eq_some h
  have hheld := held_pos (holds_task ht)
  have hlt := hI.lt_count (p := t.pack) (by omega)
  obtain ⟨hu, hf, href, hcloses, hfrees⟩ := (hI.stage t.pack hlt).of_held hheld
  have hcount : ∀ q, (s.service k).holds q = (if t.pack = q then 1 else 0) +
      McService.holds q { s.service k with tasks := (s.service k).tasks.eraseIdx j } := by
    intro q
    have h := count_map_eraseIdx (f := McTask.pack) ht q
    simp only [McService.holds]
    omega
  have hself : McService.holds t.pack
      { s.service k with tasks := (s.service k).tasks.eraseIdx j } =
        (s.service k).holds t.pack - 1 := by
    have h := hcount t.pack
    rw [if_pos rfl] at h
    omega
  have hother : ∀ q, q ≠ t.pack →
      McService.holds q { s.service k with tasks := (s.service k).tasks.eraseIdx j } =
        (s.service k).holds q := by
    intro q hq
    have h := hcount q
    rw [if_neg (Ne.symm hq)] at h
    omega
  have hpos := holds_task ht
  simp only [hI.touch (p := t.pack) (by omega)]
  split
  · refine hI.change_service k (f := 1) hlt hself (if_pos rfl)
      (fun rest others hrest hothers => .inr (.inr (.inl ?_))) hother
      fun q hq => by simp [McService.frees, hnot, Ne.symm hq]
    refine ⟨hu, by omega, by omega, ?_, ?_, hfrees⟩
    · show (s.package t.pack).reference - 1 = 0
      omega
    · show (s.package t.pack).closes + 1 = (s.package t.pack).receivers
      omega
  · refine hI.change_service k hlt hself rfl (fun rest others hrest hothers => .inr (.inl ?_)) hother
      fun q hq => rfl
    refine ⟨hu, by omega, ?_, ?_, ?_, hfrees⟩
    · show (s.service k).frees t.pack + others = 0
      omega
    · show (s.package t.pack).reference - 1 = _
      omega
    · show (s.package t.pack).closes + 1 + _ = (s.package t.pack).receivers
      omega

theorem PackInv.free (hI : PackInv s) {k : σ} (h : s.free k = some s') : PackInv s' := by
  simp only [PackagesState.free] at h
  split at h
  · cases h
  · next p hp =>
    have hone : (s.service k).frees p = 1 := by simp [McService.frees, hp]
    have hpos : 0 < toFree s p := by
      have hle := le_threadSum (McService.frees p) s.service k
      simp only [toFree]
      omega
    have hlt := hI.lt_count (p := p) (by omega)
    obtain ⟨hu, hh, hf, href, hcloses, hfrees⟩ := (hI.stage p hlt).of_freeing hpos
    rw [if_neg (by omega), some.injEq, hI.touch (p := p) (by omega)] at h
    subst h
    refine hI.change_service k (n := (s.service k).holds p) (f := 0) hlt rfl (by
      simp [McService.frees]) (fun rest others hrest hothers => .inr (.inr (.inr ?_)))
      (fun q hq => rfl) fun q hq => by simp [McService.frees, hp, Ne.symm hq]
    refine ⟨hu, by omega, by omega, href, hcloses, ?_⟩
    show (s.package p).frees + 1 = 1
    omega

/-! ## Steps -/

omit [Fintype σ] in
theorem McCounted.changeTables {t : McTables σ} (h : McCounted t) (change : TableChange σ) :
    McCounted (PackagesState.changeTables t change) := by
  cases change with
  | new =>
    simp only [PackagesState.changeTables]
    split
    · rfl
    · exact h
  | sub source => exact h.join source
  | subRemote source => exact h.joinRemote source
  | usub source => exact h.leave source
  | drop => rfl

/-- **One step keeps the invariant**, where the receivers close what they get. -/
theorem PackInv.next (hI : PackInv s) {harborId : ℕ} {a : PackagesAction σ}
    (hok : ReceiversClose s a) (h : s.next harborId a = some s') : PackInv s' := by
  cases a with
  | publish k c =>
    simp only [PackagesState.next, ite_none_right_eq_some, some.injEq] at h
    obtain ⟨-, rfl⟩ := h
    refine hI.new hI.faults rfl rfl rfl rfl fun q => ?_
    simp only [unsent, PackagesState.newPackage, map_append, map_cons, map_nil,
      count_append, count_cons, count_nil, beq_iff_eq]
    simp only [eq_comm (a := q)]
    omega
  | pub i =>
    simp only [PackagesState.next] at h
    split at h
    · cases h
    · next c p hp =>
      have hcount := count_map_eraseIdx (f := Prod.snd) hp
      dsimp only at hcount
      split at h
      · cases h
        have hself := hcount p
        rw [if_pos rfl] at hself
        have hpos : 0 < unsent s p := by
          simp only [unsent]
          omega
        have hsame : PackagesState.touch { s with requests := s.requests.eraseIdx i } p =
            { s with requests := s.requests.eraseIdx i } := by
          have hlt := hI.lt_count (p := p) (by omega)
          exact if_pos ((hI.stage p hlt).frees_eq_zero (by omega))
        rw [hsame]
        refine hI.same hI.faults rfl hI.counted rfl fun q => ⟨?_, rfl, rfl⟩
        have hq := hcount q
        simp only [unsent, map_append, map_cons, map_nil, count_append,
          count_cons, count_nil, beq_iff_eq]
        omega
      · cases h
        refine hI.freeUnsent (s.requests.eraseIdx i) s.publishing fun q => ?_
        have hq := hcount q
        simp only [unsent]
        omega
  | remote c =>
    cases h
    refine hI.new hI.faults rfl rfl rfl rfl fun q => ?_
    simp only [unsent, PackagesState.newPackage, map_append, map_cons, map_nil,
      count_append, count_cons, count_nil, beq_iff_eq]
    simp only [eq_comm (a := q)]
    omega
  | «local» i =>
    simp only [PackagesState.next] at h
    split at h
    · cases h
    · next c p hp =>
      cases h
      refine hI.publishLocal (fun q => ?_) (hok c p hp)
      have hq := count_map_eraseIdx (f := Prod.snd) hp q
      dsimp only at hq
      simp only [unsent]
      omega
  | tables c change =>
    cases h
    refine hI.same hI.faults rfl (fun c' => ?_) rfl fun q => ⟨rfl, rfl, rfl⟩
    by_cases hc : c' = c
    · subst hc
      simpa using (hI.counted c').changeTables change
    · simpa [hc] using hI.counted c'
  | subscribed k c on =>
    simp only [PackagesState.next, ite_none_right_eq_some, some.injEq] at h
    obtain ⟨-, rfl⟩ := h
    exact hI.putService k (fun q => rfl) rfl
  | receive k =>
    simp only [PackagesState.next, ite_none_right_eq_some] at h
    exact hI.receive h.2
  | unpack k j ok =>
    simp only [PackagesState.next] at h
    obtain ⟨t, ht, -, -, rfl⟩ := task_eq_some h
    have hheld := held_pos (holds_task ht)
    have hok' : ok = true := hok
    subst hok'
    rw [hI.touch (p := t.pack) (by omega)]
    refine hI.putService k (fun q => ?_) rfl
    simp only [McService.holds, if_true]
    rw [map_set_eq (f := McTask.pack) (b := ⟨t.pack, .dispatch⟩) ht rfl]
  | dispatched k j =>
    simp only [PackagesState.next] at h
    obtain ⟨t, ht, -, -, rfl⟩ := task_eq_some h
    refine hI.putService k (fun q => ?_) rfl
    simp only [McService.holds]
    rw [map_set_eq (f := McTask.pack) (b := ⟨t.pack, .close⟩) ht rfl]
  | close k j => exact hI.close h
  | free k => exact hI.free h
  | exit k =>
    simp only [PackagesState.next, ite_none_right_eq_some, some.injEq] at h
    obtain ⟨-, rfl⟩ := h
    obtain ⟨hqueue, htasks⟩ := hok
    refine hI.putService k (fun q => ?_) rfl
    simp [McService.holds, hqueue, htasks]

omit [DecidableEq σ] in
theorem packageInFlight_iff (s : PackagesState σ) (p : ℕ) :
    PackageInFlight s p ↔ 0 < unsent s p + held s p + toFree s p := by
  have hheld : (∃ k, (s.service k).holds p ≠ 0) ↔ 0 < held s p := by
    constructor
    · rintro ⟨k, hk⟩
      exact held_pos (Nat.pos_of_ne_zero hk)
    · intro hpos
      by_contra hnone
      push Not at hnone
      have hzero := threadSum_eq_zero hnone
      simp only [held] at hpos
      omega
  have hfree : (∃ k, (s.service k).freeing = some p) ↔ 0 < toFree s p := by
    constructor
    · rintro ⟨k, hk⟩
      have hle := le_threadSum (McService.frees p) s.service k
      simp only [McService.frees, hk, if_true] at hle
      exact hle
    · intro hpos
      by_contra hnone
      push Not at hnone
      have hzero : threadSum (McService.frees p) s.service = 0 :=
        threadSum_eq_zero fun k => if_neg (hnone k)
      simp only [toFree] at hpos
      omega
  simp only [PackageInFlight, exists_or, hheld, hfree, unsent, ← count_pos_iff]
  omega

omit [DecidableEq σ] in
theorem PackInv.right (hI : PackInv s) : PackagesRight s := by
  refine ⟨hI.faults, fun p hp hpos => ?_, fun p hflight => ?_, fun p hp hflight => ?_⟩
  · have hstage := hI.stage p hp
    have hsum : ∑ k, (s.service k).holds p = held s p := rfl
    rcases hstage with ⟨-, -, -, hpack⟩ | h | h | h
    · rw [hpack] at hpos
      cases hpos
    all_goals omega
  · rw [packageInFlight_iff] at hflight
    exact (hI.stage p (hI.lt_count hflight)).frees_eq_zero hflight
  · rw [packageInFlight_iff] at hflight
    rcases hI.stage p hp with h | h | h | h <;> omega

end Services

/-! ## Runs -/

instance {σ : Type} (s : PackagesState σ) : ∀ a, Decidable (ReceiversClose s a)
  | .exit k => inferInstanceAs (Decidable ((s.service k).queue = [] ∧ (s.service k).tasks = []))
  | .unpack _ _ ok => inferInstanceAs (Decidable (ok = true))
  | .local i =>
    match h : s.publishing[i]? with
    | none => .isTrue (by simp [ReceiversClose, h])
    | some (c, p) =>
      match hgroup : (s.channel c).channel with
      | none => .isTrue (by simp [ReceiversClose, h, hgroup])
      | some group =>
        decidable_of_iff (∀ k ∈ group, (s.service k).alive = true)
          (by simp [ReceiversClose, h, hgroup])
  | .publish _ _ | .pub _ | .remote _ | .tables _ _ | .subscribed _ _ _ | .receive _
  | .dispatched _ _ | .close _ _ | .free _ => .isTrue trivial

end Skynet.Analysis
