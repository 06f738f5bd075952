import Skynet.Analysis.LuaSeriPack
import Skynet.Model.GlobalNames

/-!
# Nodes agree on global names

A binding is known when the master holds it, or when the master has none for the name and
the registration is on its way.  While every name is registered with one address only,
whatever a slave stores, forwards or answers with is known, and what the master sends it
holds.
-/

namespace Skynet.Analysis

open Library Model Option NamesState List Function

/-! ## Known bindings -/

section

variable {ι : Type}

def Known (s : NamesState ι) (name : GlobalName) (address : ℕ) : Prop :=
  s.globalName.get name = some address ∨
    (s.globalName.get name = none ∧ ∃ i, .register name address ∈ s.up i)

structure NamesInv (s : NamesState ι) : Prop where
  held : ∀ i name address, .register name address ∈ s.up i →
    ∀ a, s.globalName.get name = some a → a = address
  sole : ∀ i j name a b, .register name a ∈ s.up i → .register name b ∈ s.up j → a = b
  down : ∀ i name address, .name name address ∈ s.down i → s.globalName.get name = some address
  log : ∀ b ∈ s.log, Known s b.name b.address
  stored : ∀ i name address, (s.slave i).globalname.get name = some address → Known s name address

variable {s : NamesState ι}

theorem NamesInv.use (hI : NamesInv s) {bs : List (Binding ι)}
    (hbs : ∀ b ∈ bs, Known s b.name b.address) : NamesInv (s.use bs) := by
  refine ⟨hI.held, hI.sole, hI.down, fun b hb => ?_, hI.stored⟩
  rcases mem_append.1 hb with hb | hb
  · exact hbs b hb
  · exact hI.log b hb

variable [DecidableEq ι]

variable {i : ι}

theorem NamesInv.putSlave (hI : NamesInv s) {c : Cslave}
    (hc : ∀ name address, c.globalname.get name = some address → Known s name address) :
    NamesInv (s.putSlave i c) := by
  refine ⟨hI.held, hI.sole, hI.down, hI.log, fun j name address h => ?_⟩
  simp only [NamesState.putSlave, update_apply] at h
  split at h
  · exact hc name address h
  · exact hI.stored j name address h

theorem NamesInv.putSlave_same (hI : NamesInv s) {c : Cslave}
    (hc : c.globalname = (s.slave i).globalname) : NamesInv (s.putSlave i c) := by
  refine hI.putSlave fun name address h => hI.stored i name address ?_
  rwa [← hc]

variable {name : GlobalName}

theorem NamesInv.learn (hI : NamesInv s) {address : ℕ}
    (hknown : Known s name address) : NamesInv (s.learn i name address) := by
  have hput : NamesInv (s.putSlave i { s.slave i with
      globalname := (s.slave i).globalname.put name (some address)
      queryname := (s.slave i).queryname.put name none }) := by
    refine hI.putSlave fun n a h => ?_
    rw [Table.get_put] at h
    split at h
    · next heq =>
      rw [Option.some.injEq] at h
      subst heq h
      exact hknown
    · exact hI.stored i n a h
  refine hput.use fun b hb => ?_
  rcases mem_cons.1 hb with rfl | hb
  · exact hknown
  · obtain ⟨session, -, rfl⟩ := List.mem_map.1 hb
    exact hknown

variable {p : MasterPackage ι}

theorem NamesInv.sendDown (hI : NamesInv s)
    (hp : ∀ name address, p = .name name address → s.globalName.get name = some address) :
    NamesInv (s.sendDown i p) := by
  refine ⟨hI.held, hI.sole, fun j name address h => ?_, hI.log, hI.stored⟩
  simp only [NamesState.sendDown, update_apply] at h
  split at h
  · rcases mem_append.1 h with h | h
    · exact hI.down i name address h
    · exact hp name address (mem_singleton.1 h).symm
  · exact hI.down j name address h

theorem NamesInv.sendAll (hI : NamesInv s)
    (hp : ∀ name address, p = .name name address → s.globalName.get name = some address) :
    NamesInv (s.sendAll p) := by
  refine ⟨hI.held, hI.sole, fun j name address h => ?_, hI.log, hI.stored⟩
  simp only [NamesState.sendAll] at h
  split at h
  · rcases mem_append.1 h with h | h
    · exact hI.down j name address h
    · exact hp name address (mem_singleton.1 h).symm
  · exact hI.down j name address h

theorem mem_sendUp {p q : SlavePackage} {i j : ι} :
    q ∈ (s.sendUp i p).up j ↔ q ∈ s.up j ∨ (j = i ∧ q = p) := by
  simp only [NamesState.sendUp, update_apply]
  split
  · next h =>
    subst h
    simp
  · next h => simp [h]

theorem NamesInv.sendUp (hI : NamesInv s) {p : SlavePackage}
    (hp : ∀ name address, p ≠ .register name address) : NamesInv (s.sendUp i p) := by
  have hup : ∀ j name address, .register name address ∈ (s.sendUp i p).up j →
      .register name address ∈ s.up j := by
    intro j name address h
    rcases mem_sendUp.1 h with h | ⟨-, heq⟩
    · exact h
    · exact absurd heq.symm (hp name address)
  have hknown : ∀ name address, Known s name address → Known (s.sendUp i p) name address := by
    rintro name address (h | ⟨h, j, hj⟩)
    · exact .inl h
    · exact .inr ⟨h, j, mem_sendUp.2 (.inl hj)⟩
  exact ⟨fun j name address h => hI.held j name address (hup j name address h),
    fun j k name a b ha hb => hI.sole j k name a b (hup j name a ha) (hup k name b hb), hI.down,
    fun b hb => hknown _ _ (hI.log b hb), fun j name a h => hknown _ _ (hI.stored j name a h)⟩

theorem NamesInv.sendUp_register (hI : NamesInv s) {handle : ℕ}
    (hheld : ∀ a, s.globalName.get name = some a → a = handle)
    (hsole : ∀ j a, .register name a ∈ s.up j → a = handle) :
    NamesInv (s.sendUp i (.register name handle)) ∧
      Known (s.sendUp i (.register name handle)) name handle := by
  have hknown : ∀ n a, Known s n a → Known (s.sendUp i (.register name handle)) n a := by
    rintro n a (h | ⟨h, j, hj⟩)
    · exact .inl h
    · exact .inr ⟨h, j, mem_sendUp.2 (.inl hj)⟩
  have hup : ∀ j n a, .register n a ∈ (s.sendUp i (.register name handle)).up j →
      .register n a ∈ s.up j ∨ (n = name ∧ a = handle) := by
    intro j n a h
    rcases mem_sendUp.1 h with h | ⟨-, heq⟩
    · exact .inl h
    · simp only [SlavePackage.register.injEq] at heq
      exact .inr heq
  refine ⟨⟨fun j n a h b hb => ?_, fun j k n a b ha hb => ?_, hI.down,
    fun b hb => hknown _ _ (hI.log b hb), fun j n a h => hknown _ _ (hI.stored j n a h)⟩, ?_⟩
  · rcases hup j n a h with h | ⟨rfl, rfl⟩
    · exact hI.held j n a h b hb
    · exact hheld b hb
  · rcases hup j n a ha with ha' | ⟨rfl, rfl⟩ <;> rcases hup k _ b hb with hb' | ⟨hn, hbh⟩
    · exact hI.sole j k n a b ha' hb'
    · subst hn hbh
      exact hsole j a ha'
    · exact (hsole k b hb').symm
    · exact hbh.symm
  · cases hget : s.globalName.get name with
    | none => exact .inr ⟨hget, i, mem_sendUp.2 (.inr ⟨rfl, rfl⟩)⟩
    | some a =>
      refine .inl ?_
      rw [← hheld a hget]
      exact hget

/-! ## Steps -/

variable {ps : List SlavePackage}

theorem NamesInv.takeUp (hI : NamesInv s) {p : SlavePackage}
    (hup : s.up i = p :: ps) (hp : ∀ name address, p ≠ .register name address) :
    NamesInv { s with up := update s.up i ps } := by
  have hsub : ∀ j name address, .register name address ∈ update s.up i ps j ↔
        .register name address ∈ s.up j := by
    intro j name address
    rw [update_apply]
    split
    · next h =>
      subst h
      rw [hup, mem_cons]
      exact ⟨.inr, fun h => h.resolve_left fun heq => hp name address heq.symm⟩
    · exact Iff.rfl
  have hknown : ∀ name address, Known s name address →
      Known { s with up := update s.up i ps } name address := by
    rintro name address (h | ⟨h, j, hj⟩)
    · exact .inl h
    · exact .inr ⟨h, j, (hsub j name address).2 hj⟩
  exact ⟨fun j name address h => hI.held j name address ((hsub j name address).1 h),
    fun j k name a b ha hb => hI.sole j k name a b ((hsub j name a).1 ha) ((hsub k name b).1 hb),
    hI.down, fun b hb => hknown _ _ (hI.log b hb),
    fun j name a h => hknown _ _ (hI.stored j name a h)⟩

theorem NamesInv.takeRegister (hI : NamesInv s) {address : ℕ}
    (hup : s.up i = .register name address :: ps)
    {globalName : Table GlobalName ℕ}
    (hglobal : globalName = if (s.globalName.get name).isNone then
      s.globalName.put name (some address) else s.globalName) :
    NamesInv { s with up := update s.up i ps, globalName := globalName } ∧
      globalName.get name = some address := by
  have hmem : .register name address ∈ s.up i := by
    rw [hup]
    exact mem_cons_self ..
  have hsub : ∀ j n a, .register n a ∈ update s.up i ps j → .register n a ∈ s.up j := by
    intro j n a h
    rw [update_apply] at h
    split at h
    · next heq =>
      subst heq
      rw [hup]
      exact mem_cons_of_mem _ h
    · exact h
  -- the name has its address, the other names theirs
  have hself : globalName.get name = some address := by
    rw [hglobal]
    cases hget : s.globalName.get name with
    | none => simp
    | some a =>
      rw [← hI.held i name address hmem a hget]
      simpa using hget
  have hother : ∀ n, n ≠ name → globalName.get n = s.globalName.get n := by
    intro n hn
    rw [hglobal]
    split
    · rw [Table.get_put, if_neg hn]
    · rfl
  have hknown : ∀ n a, Known s n a →
      Known { s with up := update s.up i ps, globalName := globalName } n a := by
    intro n a h
    by_cases hn : n = name
    · subst hn
      refine .inl (hself.trans ?_)
      rcases h with h | ⟨-, j, hj⟩
      · rw [← hI.held i n address hmem a h]
      · rw [hI.sole i j n address a hmem hj]
    · rcases h with h | ⟨h, j, hj⟩
      · exact .inl ((hother n hn).trans h)
      · refine .inr ⟨(hother n hn).trans h, j, ?_⟩
        show .register n a ∈ update s.up i ps j
        rw [update_apply]
        split
        · next heq =>
          subst heq
          rw [hup, mem_cons] at hj
          exact hj.resolve_left fun heq => hn (SlavePackage.register.inj heq).1
        · exact hj
  refine ⟨⟨fun j n a h b hb => ?_, fun j k n a b ha hb => ?_, fun j n a h => ?_,
    fun b hb => hknown _ _ (hI.log b hb), fun j n a h => hknown _ _ (hI.stored j n a h)⟩, hself⟩
  · by_cases hn : n = name
    · subst hn
      have heq := hI.sole i j n address a hmem (hsub j n a h)
      have hb' : globalName.get n = some b := hb
      rw [hself, Option.some.injEq] at hb'
      exact hb'.symm.trans heq
    · exact hI.held j n a (hsub j n a h) b ((hother n hn).symm.trans hb)
  · exact hI.sole j k n a b (hsub j n a ha) (hsub k n b hb)
  · have hdown := hI.down j n a h
    by_cases hn : n = name
    · subst hn
      rw [hself, hI.held i n address hmem a hdown]
    · exact (hother n hn).trans hdown

variable {s' : NamesState ι}

theorem NamesInv.master (hI : NamesInv s) {p : SlavePackage}
    (hup : s.up i = p :: ps)
    (h : masterReads { s with up := update s.up i ps } i p = some s') :
    NamesInv s' := by
  unfold masterReads at h
  split at h
  · cases p with
    | handshake => cases h
    | register name address =>
      simp only [dispatchSlave, ite_none_right_eq_some, Option.some.injEq] at h
      obtain ⟨-, rfl⟩ := h
      obtain ⟨htaken, hheld⟩ := hI.takeRegister hup rfl
      refine htaken.sendAll fun n a heq => ?_
      obtain ⟨rfl, rfl⟩ := MasterPackage.name.inj heq
      exact hheld
    | query name =>
      have htaken := hI.takeUp hup (by simp)
      simp only [dispatchSlave] at h
      split at h
      · rw [Option.some.injEq] at h
        exact h ▸ htaken
      · next address hget =>
        simp only [ite_none_right_eq_some, Option.some.injEq] at h
        obtain ⟨-, rfl⟩ := h
        refine htaken.sendDown fun n a heq => ?_
        obtain ⟨rfl, rfl⟩ := MasterPackage.name.inj heq
        exact hget
  · split at h
    · next hp =>
      subst hp
      rw [Option.some.injEq] at h
      have htaken := hI.takeUp hup (by simp)
      have hsent := (htaken.sendAll (p := .connect i) (by simp)).sendDown (i := i)
        (p := .wait s.slaveNode.length) (by simp)
      rw [← h]
      exact ⟨hsent.held, hsent.sole, hsent.down, hsent.log, hsent.stored⟩
    · cases h

theorem NamesInv.slave (hI : NamesInv s)
    {ps : List (MasterPackage ι)} (hdown : s.down i = p :: ps)
    (h : slaveReads { s with down := update s.down i ps } i p = some s') :
    NamesInv s' := by
  have htaken : NamesInv { s with down := update s.down i ps } := by
    refine ⟨hI.held, hI.sole, fun j name address hmem => hI.down j name address ?_, hI.log,
      hI.stored⟩
    simp only [update_apply] at hmem
    split at hmem
    · next heq =>
      subst heq
      rw [hdown]
      exact mem_cons_of_mem _ hmem
    · exact hmem
  cases p with
  | wait n =>
    simp only [slaveReads, ite_none_right_eq_some, Option.some.injEq] at h
    obtain ⟨-, rfl⟩ := h
    exact htaken.putSlave_same rfl
  | connect j =>
    simp only [slaveReads, ite_none_left_eq_some, Option.some.injEq] at h
    exact h.2 ▸ htaken
  | name name address =>
    have hheld : s.globalName.get name = some address := by
      refine hI.down i name address ?_
      rw [hdown]
      exact mem_cons_self ..
    have hlearn : NamesInv (NamesState.learn { s with down := update s.down i ps } i name
        address) := htaken.learn (.inl hheld)
    have hforward : NamesInv ((NamesState.learn { s with down := update s.down i ps } i
        name address).use [⟨i, .forwarded, name, address⟩]) := by
      refine hlearn.use fun b hb => ?_
      rw [mem_singleton] at hb
      subst hb
      exact .inl hheld
    simp only [slaveReads] at h
    split at h
    · cases h
    · cases h
    · rw [Option.some.injEq] at h
      exact h ▸ hlearn
    · rw [Option.some.injEq] at h
      exact h ▸ hforward
    · rw [Option.some.injEq] at h
      exact h ▸ hforward

theorem NamesInv.register (hI : NamesInv s) {handle : ℕ}
    (hok : SoleRegistration s (.register i name handle)) : NamesInv (s.register i name handle) := by
  unfold NamesState.register
  split
  · exact hI
  · next hnone =>
    rw [Bool.not_eq_true, isSome_eq_false_iff, isNone_iff_eq_none] at hnone
    obtain ⟨hpacks, hheld, hsole⟩ := hok hnone
    simp only [hpacks, if_true]
    -- writing the package and storing the binding commute
    obtain ⟨hsent, hknown⟩ := hI.sendUp_register (i := i) hheld hsole
    refine (hsent.learn (i := i) hknown).use fun b hb => ?_
    rw [mem_singleton] at hb
    subst hb
    exact hknown

theorem NamesInv.queryname (hI : NamesInv s) (i : ι) (name : GlobalName) (session : ℕ) :
    NamesInv (s.queryname i name session) := by
  simp only [NamesState.queryname]
  split
  · exact hI
  · cases hget : (s.slave i).globalname.get name with
    | some address =>
      refine hI.use fun b hb => ?_
      rw [mem_singleton] at hb
      subst hb
      exact hI.stored i name address hget
    | none =>
      cases (s.slave i).queryname.get name with
      | some queue => exact hI.putSlave_same rfl
      | none =>
        simp only
        split
        · exact (hI.sendUp (by simp)).putSlave_same rfl
        · exact hI

theorem NamesInv.harborQuery (hI : NamesInv s) (i : ι) (name : GlobalName) :
    NamesInv (s.harborQuery i name) := by
  unfold NamesState.harborQuery
  split
  · next address hget =>
    refine hI.use fun b hb => ?_
    rw [mem_singleton] at hb
    subst hb
    exact hI.stored i name address hget
  · split
    · exact hI.sendUp (by simp)
    · exact hI

/-- **One step keeps the invariant**, where every name is registered with one address. -/
theorem NamesInv.next (hI : NamesInv s) {a : NamesAction ι}
    (hok : SoleRegistration s a) (h : s.next a = some s') : NamesInv s' := by
  cases a with
  | start i =>
    simp only [NamesState.next, ite_none_right_eq_some, Option.some.injEq] at h
    obtain ⟨-, rfl⟩ := h
    exact (hI.sendUp (by simp)).putSlave_same rfl
  | master i =>
    simp only [NamesState.next] at h
    split at h
    · cases h
    · next p ps hup => exact hI.master hup h
  | slave i =>
    simp only [NamesState.next] at h
    split at h
    · cases h
    · next p ps hdown => exact hI.slave hdown h
  | ready i =>
    simp only [NamesState.next, ite_none_right_eq_some, Option.some.injEq] at h
    obtain ⟨-, rfl⟩ := h
    exact hI.putSlave_same rfl
  | connected i =>
    simp only [NamesState.next, ite_none_right_eq_some, Option.some.injEq] at h
    obtain ⟨-, rfl⟩ := h
    refine NamesInv.putSlave_same (hI.use fun b hb => ?_) rfl
    obtain ⟨⟨name, address⟩, hmem, rfl⟩ := List.mem_map.1 hb
    exact hI.stored i name address (AList.mem_lookup_iff.2 hmem)
  | register i name handle =>
    simp only [NamesState.next, ite_none_left_eq_some, Option.some.injEq] at h
    exact h.2 ▸ hI.register hok
  | queryname i name session =>
    simp only [NamesState.next, ite_none_left_eq_some, Option.some.injEq] at h
    exact h.2 ▸ hI.queryname i name session
  | harborQuery i name =>
    simp only [NamesState.next, ite_none_left_eq_some, Option.some.injEq] at h
    exact h.2 ▸ hI.harborQuery i name

end

/-! ## Runs -/

/-- **All nodes agree on global names** in every run in which a slave takes a registration
only if it fits a package and every other registration of the name, held by the master or
on its way, is of the same address.
SRC: cmaster.lua:74-95, cslave.lua:80-113, 174-180 -/
theorem names_agree (ι : Type) [DecidableEq ι] (s : NamesState ι)
    (h : (namesMachine ι).Reach SoleRegistration s) : NamesAgree s := by
  have hI : NamesInv s := by
    refine h.invariant ?_ ?_
    · rintro s rfl
      constructor <;> simp [NamesState.init]
    · intro s a s' hI hok hstep
      exact hI.next hok hstep
  refine ⟨hI.log, fun hquiet i name address hget => ?_⟩
  rcases hI.stored i name address hget with hheld | ⟨-, j, hj⟩
  · exact hheld
  · rw [hquiet.1 j] at hj
    cases hj

def registers (name : GlobalName) : SlavePackage → Option ℕ
  | .register n address => if n = name then some address else none
  | _ => none

theorem registers_eq_some {name : GlobalName} {p : SlavePackage} {address : ℕ} :
    registers name p = some address ↔ p = .register name address := by
  cases p <;> simp [registers]

instance {ι : Type} [Fintype ι] (s : NamesState ι) : ∀ a, Decidable (SoleRegistration s a)
  | .register i name handle =>
    decidable_of_iff ((s.slave i).globalname.get name = none → packsName name handle = true ∧
        (s.globalName.get name).all (· = handle) ∧
        ∀ j, ∀ p ∈ s.up j, (registers name p).all (· = handle)) (by
      simp only [SoleRegistration, Option.all_eq_true, decide_eq_true_eq, registers_eq_some]
      refine imp_congr_right fun _ => and_congr_right fun _ => and_congr_right fun _ => ?_
      refine forall_congr' fun j => ⟨fun h address hmem => h _ hmem address rfl, ?_⟩
      rintro h p hmem address rfl
      exact h address hmem)
  | .start _ | .master _ | .slave _ | .ready _ | .connected _ | .queryname _ _ _
  | .harborQuery _ _ => .isTrue trivial

/-- Two slaves are connected; the first registers a name, the second waits for it and gets
the address from the master. -/
theorem names_agree_two_slaves :
    ∃ s : NamesState (Fin 2), s.log.map Binding.use = [.stored, .forwarded, .stored, .stored,
      .answered 7, .forwarded, .stored] ∧ s.Quiescent ∧ NamesAgree s := by
  have h₀ : (namesMachine (Fin 2)).Reach SoleRegistration .init := .start rfl
  have h := h₀.runOk
    (l := [.start 0, .start 1, .master 0, .master 1, .slave 0, .slave 0, .slave 1,
      .register 0 [120] 1, .queryname 1 [120] 7, .ready 0, .master 0, .master 1, .slave 1,
      .slave 0, .slave 1]) rfl
  exact ⟨_, rfl, ⟨by decide, by decide⟩, names_agree (Fin 2) _ h⟩

/-- **The second of two registrations wins at the slaves and loses at the master.**  Both
slaves are connected and register the name 'x', one with address 1 and the other with
address 2; in the end both know address 2 and the master holds address 1.
SRC: cmaster.lua:79-85 -/
theorem names_disagree :
    ¬ ∀ s : NamesState (Fin 2), (namesMachine (Fin 2)).Reachable s → NamesAgree s := by
  intro hall
  have h : (namesMachine (Fin 2)).Reachable .init := .start rfl
  have hrun := h.run
    (l := [.start 0, .start 1, .master 0, .master 1, .slave 0, .slave 0, .slave 1,
      .register 0 [120] 1, .register 1 [120] 2, .master 0, .master 1, .slave 0, .slave 0,
      .slave 1, .slave 1]) rfl
  have hquiet := (hall _ hrun).quiescent ⟨by decide, by decide⟩ 0 [120] 2 rfl
  exact absurd hquiet (by decide)

end Skynet.Analysis
