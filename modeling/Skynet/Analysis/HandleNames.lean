import Skynet.Analysis.HandleTable

/-!
# Names resolve

`skynet_handle_retire` takes the names of a handle out of the list together with the handle, and
what is in the table under its handle stays there until then.  So a name resolves as long as it was
given to a handle that was in the table.  The commands that give names do not ask.
-/

namespace Skynet.Analysis

open Library Model Function List Option

variable {γ : Type} {t t' : HandleStorage γ} {g : γ → ℕ} {ctx c : γ} {h : ℕ}
  {names : List HandleName} {name : Bytes} {i : ℕ}

/-! ## The list of names -/

def NamesSorted (names : List HandleName) : Prop :=
  names.Pairwise fun n m => compare n.name m.name = .lt

theorem strcmpAt_of_get {n : HandleName} (hn : names[i]? = some n) :
    strcmpAt names name i = compare n.name name := by
  simp only [strcmpAt, hn]

theorem NamesSorted.ascending (hs : NamesSorted names) (name : Bytes) :
    Ascending (strcmpAt names name) names.length := by
  have hget {i : ℕ} (hi : i < names.length) : ∃ n, names[i]? = some n := ⟨_, getElem?_eq_getElem hi⟩
  have hlt {i j : ℕ} {n m : HandleName} (hij : i < j) (hn : names[i]? = some n)
      (hm : names[j]? = some m) : compare n.name m.name = .lt := by
    obtain ⟨hi, rfl⟩ := List.getElem?_eq_some_iff.mp hn
    obtain ⟨hj, rfl⟩ := List.getElem?_eq_some_iff.mp hm
    exact pairwise_iff_getElem.mp hs i j hi hj hij
  constructor
  · intro i j hij hj hne
    obtain ⟨n, hn⟩ := hget (hij.trans hj)
    obtain ⟨m, hm⟩ := hget hj
    rw [strcmpAt_of_get hm] at hne
    rw [strcmpAt_of_get hn]
    cases hcmp : compare m.name name with
    | lt => exact Std.TransCmp.lt_trans (hlt hij hn hm) hcmp
    | eq => exact Std.TransCmp.lt_of_lt_of_eq (hlt hij hn hm) hcmp
    | gt => exact absurd hcmp hne
  · intro i j hij hj hne
    obtain ⟨n, hn⟩ := hget (hij.trans hj)
    obtain ⟨m, hm⟩ := hget hj
    have hgt : compare m.name n.name = .gt := Std.OrientedCmp.gt_iff_lt.mpr (hlt hij hn hm)
    rw [strcmpAt_of_get hn] at hne
    rw [strcmpAt_of_get hm]
    cases hcmp : compare n.name name with
    | lt => exact absurd hcmp hne
    | eq => exact Std.TransCmp.gt_of_gt_of_eq hgt hcmp
    | gt => exact Std.TransCmp.gt_trans hgt hcmp

theorem searchName_found (hs : searchName names name = .found i) :
    ∃ n, names[i]? = some n ∧ n.name = name := by
  obtain ⟨hcmp, hi⟩ := cmp_of_found hs
  refine ⟨_, getElem?_eq_getElem hi, ?_⟩
  rw [strcmpAt_of_get (getElem?_eq_getElem hi)] at hcmp
  exact Std.LawfulEqCmp.eq_of_compare hcmp

theorem NamesSorted.found (hs : NamesSorted names) {n : HandleName} (hn : n ∈ names) :
    ∃ i, searchName names n.name = .found i ∧ names[i]? = some n := by
  obtain ⟨i, hi⟩ := mem_iff_getElem?.mp hn
  have hlt := (List.getElem?_eq_some_iff.mp hi).1
  have heq : strcmpAt names n.name i = .eq := by
    rw [strcmpAt_of_get hi]
    exact Std.ReflCmp.compare_self
  obtain ⟨j, hj⟩ := found_of_cmp (hs.ascending n.name) hlt heq
  refine ⟨j, hj, ?_⟩
  obtain ⟨hcmp, hjlt⟩ := cmp_of_found hj
  rcases Nat.lt_trichotomy i j with hij | rfl | hji
  · rw [(hs.ascending n.name).gt i j hij hjlt (by simp [heq])] at hcmp
    cases hcmp
  · exact hi
  · rw [(hs.ascending n.name).lt j i hji hlt (by simp [heq])] at hcmp
    cases hcmp

theorem NamesSorted.findname (hs : NamesSorted t.name) {n : HandleName} (hn : n ∈ t.name) :
    skynetHandleFindname t n.name = n.handle := by
  obtain ⟨i, hfound, hget⟩ := hs.found hn
  simp only [skynetHandleFindname, hfound, hget, map_some, getD_some]

theorem NamesSorted.insert (hs : NamesSorted names) (h : ℕ)
    (hbefore : searchName names name = .before i) :
    NamesSorted (names.take i ++ ⟨name, h⟩ :: names.drop i) := by
  obtain ⟨-, hlow, hhigh⟩ := cmp_of_before (hs.ascending name) le_rfl (Nat.zero_le _)
    (by omega) (fun j hj => absurd hj (Nat.not_lt_zero j))
    (fun j hj hn => absurd hn (by omega)) hbefore
  have htake (n : HandleName) (hn : n ∈ names.take i) : compare n.name name = .lt := by
    obtain ⟨j, hj⟩ := mem_iff_getElem?.mp hn
    rw [getElem?_take] at hj
    split at hj
    · next hlt => rw [← strcmpAt_of_get hj, hlow j hlt]
    · cases hj
  have hdrop (n : HandleName) (hn : n ∈ names.drop i) : compare name n.name = .lt := by
    obtain ⟨j, hj⟩ := mem_iff_getElem?.mp hn
    rw [getElem?_drop] at hj
    have hlt := (List.getElem?_eq_some_iff.mp hj).1
    exact Std.OrientedCmp.gt_iff_lt.mp
      (by rw [← strcmpAt_of_get hj, hhigh (i + j) (by omega) hlt])
  refine pairwise_append.mpr ⟨hs.take, pairwise_cons.mpr ⟨hdrop, hs.drop⟩, ?_⟩
  intro n hn m hm
  rcases mem_cons.mp hm with rfl | hm
  · exact htake n hn
  · exact Std.TransCmp.lt_trans (htake n hn) (hdrop m hm)

/-! ## What stays in the table -/

def HandleFound (t : HandleStorage γ) (g : γ → ℕ) (h : ℕ) : Prop :=
  h ≠ 0 ∧ (skynetHandleGrab t g h).isSome

instance (t : HandleStorage γ) (g : γ → ℕ) (h : ℕ) : Decidable (HandleFound t g h) :=
  inferInstanceAs (Decidable (_ ∧ _))

theorem handleFound_iff : HandleFound t g h
    ↔ h ≠ 0 ∧ ∃ c, t.slot (h &&& (t.slotSize - 1)) = some c ∧ g c = h := by
  unfold HandleFound skynetHandleGrab
  cases t.slot (h &&& (t.slotSize - 1)) with
  | none => simp
  | some c => simp [isSome_iff_exists]

theorem rehashSlots_get {newSlot : ℕ → Option γ} (hok : rehashSlots t g i = .ok newSlot) {j : ℕ}
    (hj : j < i) {c : γ} (hc : t.slot j = some c) :
    newSlot (g c &&& (t.slotSize * 2 - 1)) = some c := by
  induction i generalizing newSlot with
  | zero => omega
  | succ i ih =>
    rw [rehashSlots] at hok
    split at hok
    · cases hok
    · next slots hslots =>
      split at hok
      · cases hok
      · next d hd =>
        split at hok
        · next hfree =>
          cases hok
          rcases Nat.lt_succ_iff_lt_or_eq.mp hj with hj | rfl
          · have hold := ih hslots hj
            rw [update_of_ne, hold]
            intro heq
            rw [← heq, hold] at hfree
            cases hfree
          · rw [hd] at hc
            cases hc
            exact update_self ..
        · cases hok

def SizeOk (t : HandleStorage γ) : Prop := ∃ k, t.slotSize = 2 ^ k

theorem SizeOk.and_lt (hs : SizeOk t) (h : ℕ) : h &&& (t.slotSize - 1) < t.slotSize := by
  obtain ⟨k, hk⟩ := hs
  rw [hk, Nat.and_two_pow_sub_one_eq_mod]
  exact Nat.mod_lt _ (Nat.two_pow_pos k)

theorem slot_of_probe {rounds start : ℕ} (hp : probe t rounds start = some h) :
    t.slot (h &&& (t.slotSize - 1)) = none := by
  induction rounds generalizing start with
  | zero => cases hp
  | succ rounds ih =>
    rw [probe] at hp
    split at hp
    · next hfree =>
      cases hp
      exact isNone_iff_eq_none.mp hfree
    · exact ih hp

theorem registerLoop_keeps {rounds handle : ℕ} (hs : SizeOk t)
    (hok : registerLoop g ctx rounds t = .ok (handle, t')) :
    SizeOk t' ∧ t'.name = t.name
      ∧ ∀ c, t.slot (g c &&& (t.slotSize - 1)) = some c →
        t'.slot (g c &&& (t'.slotSize - 1)) = some c := by
  induction rounds generalizing t with
  | zero => cases hok
  | succ rounds ih =>
    rw [registerLoop] at hok
    split at hok
    · next free hfree =>
      cases hok
      refine ⟨hs, rfl, fun c hc => ?_⟩
      have hempty := slot_of_probe hfree
      change update t.slot _ _ (g c &&& (t.slotSize - 1)) = some c
      rw [update_of_ne, hc]
      intro heq
      rw [← heq, hc] at hempty
      cases hempty
    · split at hok
      · split at hok
        · cases hok
        · next slots hslots =>
          obtain ⟨k, hk⟩ := hs
          have hdouble : SizeOk { t with slot := slots, slotSize := t.slotSize * 2 } :=
            ⟨k + 1, by rw [pow_succ]; exact congrArg (· * 2) hk⟩
          obtain ⟨hsize, hname, hkeeps⟩ := ih hdouble hok
          refine ⟨hsize, hname, fun c hc => hkeeps c ?_⟩
          exact rehashSlots_get hslots (SizeOk.and_lt ⟨k, hk⟩ _) hc
      · cases hok

theorem rehashSlots_from {newSlot : ℕ → Option γ} (hok : rehashSlots t g i = .ok newSlot) {j : ℕ}
    {c : γ} (hc : newSlot j = some c) : ∃ k, t.slot k = some c := by
  induction i generalizing newSlot with
  | zero =>
    cases hok
    cases hc
  | succ i ih =>
    rw [rehashSlots] at hok
    split at hok
    · cases hok
    · next slots hslots =>
      split at hok
      · cases hok
      · next d hd =>
        split at hok
        · cases hok
          rw [update_apply] at hc
          split at hc
          · cases hc
            exact ⟨i, hd⟩
          · exact ih hslots hc
        · cases hok

theorem registerLoop_from {rounds handle : ℕ} (hok : registerLoop g ctx rounds t = .ok (handle, t'))
    {j : ℕ} {c : γ} (hc : t'.slot j = some c) : c = ctx ∨ ∃ k, t.slot k = some c := by
  induction rounds generalizing t with
  | zero => cases hok
  | succ rounds ih =>
    rw [registerLoop] at hok
    split at hok
    · cases hok
      change update t.slot _ _ j = some c at hc
      rw [update_apply] at hc
      split at hc
      · cases hc
        exact .inl rfl
      · exact .inr ⟨j, hc⟩
    · split at hok
      · split at hok
        · cases hok
        · next slots hslots =>
          rcases ih hok with rfl | ⟨k, hk⟩
          · exact .inl rfl
          · exact .inr (rehashSlots_from hslots hk)
      · cases hok

/-! ## Names and runs -/

/-- **Every name resolves**: `skynet_handle_findname` gives a handle that `skynet_handle_grab`
finds. -/
def NamesResolve (s : NamingState γ) : Prop := ∀ n ∈ s.handles.table.name,
    (s.handles.grab (skynetHandleFindname s.handles.table n.name)).isSome

def NamesFound (s : NamingState γ) (a : NamingAction γ) : Prop :=
  ∀ p ∈ s.naming a, (∃ i, searchName s.handles.table.name p.2 = .before i) →
    HandleFound s.handles.table s.handles.ctxHandle p.1

/-- The names stand in order and belong to handles that are found, and a context that is not
published has the handle 0. -/
structure HandleNamesInv (s : NamingState γ) : Prop where
  size : SizeOk s.handles.table
  sorted : NamesSorted s.handles.table.name
  found : ∀ n ∈ s.handles.table.name, HandleFound s.handles.table s.handles.ctxHandle n.handle
  unpublished : ∀ c h, s.handles.pending c = some h → s.handles.ctxHandle c = 0
  fresh : ∀ i c, s.handles.table.slot i = some c → s.handles.born c = true

theorem HandleNamesInv.resolve {s : NamingState γ} (hs : HandleNamesInv s) : NamesResolve s := by
  intro n hn
  rw [hs.sorted.findname hn]
  exact (hs.found n hn).2

variable {s s' : NamingState γ}

theorem HandleNamesInv.namehandle (h : HandleNamesInv s) {handle : ℕ} {name : Bytes}
    (hfound : (∃ i, searchName s.handles.table.name name = .before i) →
      HandleFound s.handles.table s.handles.ctxHandle handle) :
    HandleNamesInv (s.namehandle handle name) := by
  unfold NamingState.namehandle
  cases hsearch : searchName s.handles.table.name name with
  | found i =>
    simp only [skynetHandleNamehandle, hsearch]
    exact { h with }
  | before i =>
    have hinsert (cap : ℕ) : HandleNamesInv { s with handles := { s.handles with
        table := { s.handles.table with
          name := s.handles.table.name.take i ++ ⟨name, handle⟩ :: s.handles.table.name.drop i
          nameCap := cap } } } := by
      refine ⟨h.size, h.sorted.insert handle hsearch, fun n hn => ?_, h.unpublished, h.fresh⟩
      rcases mem_append.mp hn with hn | hn
      · exact h.found n (mem_of_mem_take hn)
      · rcases mem_cons.mp hn with rfl | hn
        · exact hfound ⟨i, hsearch⟩
        · exact h.found n (mem_of_mem_drop hn)
    simp only [skynetHandleNamehandle, hsearch, insertNameBefore, shiftNames_names]
    by_cases hfull : s.handles.table.nameCap ≤ s.handles.table.name.length
    · by_cases hcap : s.handles.table.nameCap * 2 ≤ maxSlotSize
      · simp only [if_pos hfull, if_pos hcap]
        exact hinsert _
      · simp only [if_pos hfull, if_neg hcap]
        exact { h with }
    · simp only [if_neg hfull]
      exact hinsert _

variable [DecidableEq γ]

theorem handleNamesInv_start (harbor : ℕ) (hs : (namingMachine γ harbor).start s) :
    HandleNamesInv s := by
  obtain ⟨hstart, -⟩ := hs
  refine ⟨?_, ?_, ?_, ?_, ?_⟩
  all_goals rw [show s.handles = _ from hstart]
  · exact ⟨2, rfl⟩
  · exact List.Pairwise.nil
  · intro n hn
    cases hn
  · intro c h hc
    cases hc
  · intro i c hc
    cases hc

/-! ## Steps on the table -/

theorem HandleNamesInv.register (h : HandleNamesInv s) (hfresh : s.handles.born ctx = false) :
    HandleNamesInv { s with handles := registerStep s.handles ctx } := by
  have hctx (i : ℕ) (c : γ) (hc : s.handles.table.slot i = some c) : c ≠ ctx := by
    rintro rfl
    rw [h.fresh i c hc] at hfresh
    cases hfresh
  unfold registerStep
  dsimp only
  split
  · exact { h with }
  · next handle table hok =>
    obtain ⟨hsize, hname, hkeeps⟩ := registerLoop_keeps h.size hok
    refine ⟨hsize, ?_, fun n hn => ?_, fun c x hc => ?_, fun i c hc => ?_⟩
    · rw [hname]
      exact h.sorted
    · rw [hname] at hn
      obtain ⟨hne, c, hc, hg⟩ := handleFound_iff.mp (h.found n hn)
      have hg' : update s.handles.ctxHandle ctx 0 c = n.handle := by
        rw [update_of_ne (hctx _ c hc), hg]
      exact handleFound_iff.mpr ⟨hne, c, by rw [← hg']; exact hkeeps c (hg' ▸ hc), hg'⟩
    · dsimp only at hc ⊢
      rw [update_apply] at hc ⊢
      split
      · rfl
      · next hne =>
        rw [if_neg hne] at hc
        exact h.unpublished c x hc
    · dsimp only at hc ⊢
      rw [update_apply]
      split
      · rfl
      · next hne =>
        rcases registerLoop_from hok hc with heq | ⟨k, hk⟩
        · exact absurd heq hne
        · exact h.fresh k c hk

theorem HandleNamesInv.publish (h : HandleNamesInv s) {handle : ℕ}
    (hp : s.handles.pending ctx = some handle) :
    HandleNamesInv { s with handles := publishStep s.handles ctx handle } := by
  refine ⟨h.size, h.sorted, fun n hn => ?_, fun c x hc => ?_, h.fresh⟩
  · obtain ⟨hne, c, hc, hg⟩ := handleFound_iff.mp (h.found n hn)
    have hctx : c ≠ ctx := by
      rintro rfl
      rw [h.unpublished c handle hp] at hg
      exact hne hg.symm
    refine handleFound_iff.mpr ⟨hne, c, hc, ?_⟩
    exact (update_of_ne hctx ..).trans hg
  · change update s.handles.pending ctx none c = some x at hc
    change update s.handles.ctxHandle ctx handle c = 0
    rw [update_apply] at hc ⊢
    split at hc
    · cases hc
    · next hne =>
      rw [if_neg hne]
      exact h.unpublished c x hc

theorem HandleNamesInv.retire (h : HandleNamesInv s) (handle : ℕ) :
    HandleNamesInv { s with handles := retireStep s.handles handle } := by
  cases hslot : s.handles.table.slot (handle &&& (s.handles.table.slotSize - 1)) with
  | none =>
    simp only [retireStep, skynetHandleRetire, hslot]
    exact { h with }
  | some c =>
    by_cases hc : s.handles.ctxHandle c = handle
    · simp only [retireStep, skynetHandleRetire, keepNames_names, hslot, if_pos hc]
      refine ⟨h.size, h.sorted.filter _, fun n hn => ?_, h.unpublished, fun i d hd => ?_⟩
      · obtain ⟨hmem, hne⟩ := mem_filter.mp hn
        obtain ⟨hzero, d, hd, hg⟩ := handleFound_iff.mp (h.found n hmem)
        refine handleFound_iff.mpr ⟨hzero, d, ?_, hg⟩
        refine (update_of_ne ?_ ..).trans hd
        intro heq
        rw [heq, hslot] at hd
        cases hd
        simp only [ne_eq, decide_not, Bool.not_eq_true', decide_eq_false_iff_not] at hne
        exact hne (hg.symm.trans hc)
      · change update s.handles.table.slot _ none i = some d at hd
        rw [update_apply] at hd
        split at hd
        · cases hd
        · exact h.fresh i d hd
    · simp only [retireStep, skynetHandleRetire, hslot, if_neg hc]
      exact { h with }

theorem HandleNamesInv.next (h : HandleNamesInv s) {a : NamingAction γ} (hok : NamesFound s a)
    (hnext : namingNext s a = some s') : HandleNamesInv s' := by
  unfold namingNext at hnext
  split at hnext
  · cases hnext
  · split at hnext
    · next a =>
      obtain ⟨handles, hhandles, rfl⟩ := map_eq_some_iff.mp hnext
      cases a with
      | register ctx =>
        obtain ⟨⟨-, hfresh⟩, hs'⟩ := ite_none_right_eq_some.mp hhandles
        cases hs'
        exact h.register hfresh
      | publish ctx =>
        obtain ⟨-, hs'⟩ := ite_none_right_eq_some.mp hhandles
        obtain ⟨handle, hp, rfl⟩ := map_eq_some_iff.mp hs'
        exact h.publish hp
      | retire handle =>
        obtain ⟨-, hs'⟩ := ite_none_right_eq_some.mp hhandles
        cases hs'
        exact h.retire handle
      | grab handle =>
        obtain ⟨-, hs'⟩ := ite_none_right_eq_some.mp hhandles
        cases hs'
        exact h
    · obtain ⟨-, hs'⟩ := ite_none_right_eq_some.mp hnext
      split at hs'
      · cases hs'
        exact h
      · next handle name hnaming =>
        cases hs'
        exact h.namehandle fun hnew => hok (handle, name) hnaming hnew

def namingStart : NamingState ℕ :=
  ⟨⟨skynetHandleInit 0, fun _ => 0, fun _ => false, fun _ => none, fun _ => false, none⟩, false⟩

/-- A service that is killed while it handles a message gives itself a name after that. -/
example : ((namingMachine ℕ 0).run namingStart [.handle (.register 7), .handle (.publish 7),
    .handle (.retire 1), .reg 7 [46, 97]]).map (fun s =>
      (s.handles.table.name, s.handles.grab 1)) = some ([⟨[97], 1⟩], none) := by decide

end Skynet.Analysis
