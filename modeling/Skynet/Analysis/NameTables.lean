import Mathlib.Data.Set.Card
import Skynet.Analysis.HandleNames
import Skynet.Library.Refinement

/-!
# The names are a finite map

Whatever calls are made, the list of names stays sorted and has the entries of a map from names to
handles.  A retirement takes the names of its handle out, where a service has the handle; it does
nothing otherwise.
-/

namespace Skynet.Analysis

open Library Model List Option Function

variable {γ : Type} {s : NameTable γ} {name : Bytes} {handle : ℕ}

structure NameMap where
  bound : Bytes → Option ℕ
  live : ℕ → Bool

def NameMap.names (t : NameMap) : Set Bytes :=
  {name | t.bound name ≠ none}

def nameMapCall (t : NameMap) : NameTableCall γ → NameTableReturn × NameMap
  | .namehandle handle name =>
    match t.bound name with
    | none => (.named (some name), { t with bound := update t.bound name (some handle) })
    | some _ => (.named none, t)
  | .findname name => (.handle ((t.bound name).getD 0), t)
  | .retire handle =>
    if t.live handle then
      (.retired true,
        { bound := fun name => (t.bound name).filter (· ≠ handle)
          live := update t.live handle false })
    else (.retired false, t)
  | .launch slotSize _ slot ctxHandle =>
    (.launched, { t with live := fun handle =>
      (slot (handle &&& (slotSize - 1))).any (ctxHandle · = handle) })

def NameFits (t : NameMap) : NameTableCall γ → Prop
  | .namehandle _ name => t.bound name = none → t.names.ncard < maxSlotSize
  | .findname _ | .retire _ | .launch .. => True

structure NamesHold (s : NameTable γ) (t : NameMap) : Prop where
  sorted : NamesSorted s.table.name
  mem : ∀ name handle, ⟨name, handle⟩ ∈ s.table.name ↔ t.bound name = some handle
  live : ∀ handle, (skynetHandleGrab s.table s.ctxHandle handle).isSome = t.live handle
  room : s.table.name.length ≤ s.table.nameCap
  power : ∃ k ≤ 30, s.table.nameCap = 2 ^ k

namespace NamesHold

variable {t : NameMap}

theorem names_nodup (h : NamesHold s t) : (s.table.name.map HandleName.name).Nodup := by
  refine pairwise_map.mpr (h.sorted.imp fun {n m} hlt heq => ?_)
  have hself : compare m.name m.name = .eq := Std.ReflCmp.compare_self
  rw [heq, hself] at hlt
  cases hlt

theorem ncard_eq (h : NamesHold s t) : t.names.ncard = s.table.name.length := by
  have hset : t.names = ((s.table.name.map HandleName.name).toFinset : Set Bytes) := by
    ext name
    simp only [NameMap.names, Set.mem_ofPred_eq, coe_toFinset, List.mem_map,
      ne_none_iff_exists']
    constructor
    · rintro ⟨handle, hbound⟩
      exact ⟨⟨name, handle⟩, (h.mem name handle).mpr hbound, rfl⟩
    · rintro ⟨⟨_, handle⟩, hmem, rfl⟩
      exact ⟨handle, (h.mem _ handle).mp hmem⟩
  rw [hset, Set.ncard_coe_finset, toFinset_card_of_nodup h.names_nodup, length_map]

theorem search_bound (h : NamesHold s t) (hbound : t.bound name = some handle) :
    ∃ i, searchName s.table.name name = .found i ∧ s.table.name[i]? = some ⟨name, handle⟩ :=
  h.sorted.found ((h.mem name handle).mpr hbound)

theorem search_free (h : NamesHold s t) (hfree : t.bound name = none) :
    ∃ i, searchName s.table.name name = .before i := by
  cases hsearch : searchName s.table.name name with
  | before i => exact ⟨i, rfl⟩
  | found i =>
    obtain ⟨n, hn, rfl⟩ := searchName_found hsearch
    have hbound := (h.mem n.name n.handle).mp (mem_of_getElem? hn)
    rw [hfree] at hbound
    cases hbound

theorem findname_call (h : NamesHold s t) (name : Bytes) :
    skynetHandleFindname s.table name = (t.bound name).getD 0 := by
  cases hbound : t.bound name with
  | some handle =>
    obtain ⟨i, hsearch, hget⟩ := h.search_bound hbound
    simp only [skynetHandleFindname, hsearch, hget, map_some, getD_some]
  | none =>
    obtain ⟨i, hsearch⟩ := h.search_free hbound
    simp only [skynetHandleFindname, hsearch, getD_none]

theorem insert_call (h : NamesHold s t) (handle : ℕ) (hfree : t.bound name = none)
    (hfits : t.names.ncard < maxSlotSize) :
    ∃ table, skynetHandleNamehandle s.table handle name = some table
      ∧ NamesHold { s with table := table }
        { t with bound := update t.bound name (some handle) } := by
  obtain ⟨i, hsearch⟩ := h.search_free hfree
  have hsorted := h.sorted.insert handle hsearch
  have hmem (name' : Bytes) (handle' : ℕ) :
      ⟨name', handle'⟩ ∈ s.table.name.take i ++ ⟨name, handle⟩ :: s.table.name.drop i
        ↔ update t.bound name (some handle) name' = some handle' := by
    rw [mem_append, mem_cons, or_left_comm, ← mem_append, take_append_drop,
      h.mem, update_apply, HandleName.mk.injEq]
    split
    · next heq =>
      rw [heq, hfree]
      simp [eq_comm]
    · next hne => simp [hne]
  have hlen : (s.table.name.take i ++ ⟨name, handle⟩ :: s.table.name.drop i).length
      = s.table.name.length + 1 := by
    rw [length_append, length_cons, ← Nat.add_assoc, ← length_append,
      take_append_drop]
  rw [h.ncard_eq] at hfits
  obtain ⟨k, hk, hcap⟩ := h.power
  simp only [skynetHandleNamehandle, hsearch, insertNameBefore, shiftNames_names]
  by_cases hfull : s.table.nameCap ≤ s.table.name.length
  · have hlt : 2 ^ k < 2 ^ 30 := by
      rw [← hcap]
      exact Nat.lt_of_le_of_lt hfull hfits
    have hk : k + 1 ≤ 30 := (Nat.pow_lt_pow_iff_right (by decide)).mp hlt
    have hdouble : s.table.nameCap * 2 = 2 ^ (k + 1) := by rw [hcap, pow_succ]
    have hle : s.table.nameCap * 2 ≤ maxSlotSize := by
      rw [hdouble]
      exact Nat.pow_le_pow_right (by decide) hk
    rw [if_pos hfull, if_pos hle]
    refine ⟨_, rfl, hsorted, hmem, h.live, ?_, k + 1, hk, hdouble⟩
    change (_ ++ _ :: _).length ≤ s.table.nameCap * 2
    have hroom := h.room
    have hpos : 0 < 2 ^ k := Nat.two_pow_pos k
    omega
  · rw [if_neg hfull]
    refine ⟨_, rfl, hsorted, hmem, h.live, ?_, k, hk, hcap⟩
    change (_ ++ _ :: _).length ≤ s.table.nameCap
    omega

theorem retire_live {ctx : γ} (h : NamesHold s t)
    (hslot : s.table.slot (handle &&& (s.table.slotSize - 1)) = some ctx)
    (hctx : s.ctxHandle ctx = handle) (handle' : ℕ) :
    (skynetHandleGrab { s.table with
        slot := update s.table.slot (handle &&& (s.table.slotSize - 1)) none
        name := s.table.name.filter fun n => n.handle ≠ handle } s.ctxHandle handle').isSome
      = update t.live handle false handle' := by
  simp only [skynetHandleGrab, update_apply]
  by_cases heq : handle' = handle
  · rw [if_pos heq, if_pos (by rw [heq])]
    rfl
  · rw [if_neg heq, ← h.live, skynetHandleGrab]
    by_cases hindex : handle' &&& (s.table.slotSize - 1) = handle &&& (s.table.slotSize - 1)
    · rw [if_pos hindex, hindex, hslot]
      dsimp only
      rw [hctx, if_neg (Ne.symm heq)]
    · rw [if_neg hindex]

theorem retire_call (h : NamesHold s t) (handle : ℕ) :
    CallRefines nameTableCall nameMapCall NamesHold s t (.retire handle) := by
  have hlive := h.live handle
  cases hslot : s.table.slot (handle &&& (s.table.slotSize - 1)) with
  | none =>
    rw [skynetHandleGrab, hslot] at hlive
    refine ⟨s, ?_, ?_⟩
    · simp only [nameTableCall, skynetHandleRetire, hslot, nameMapCall, ← hlive]
      rfl
    · simp only [nameMapCall, ← hlive]
      exact h
  | some ctx =>
    by_cases hctx : s.ctxHandle ctx = handle
    · simp only [skynetHandleGrab, hslot, if_pos hctx, isSome_some] at hlive
      have hretire : skynetHandleRetire s.table s.ctxHandle handle = (some ctx,
          { s.table with
            slot := update s.table.slot (handle &&& (s.table.slotSize - 1)) none
            name := s.table.name.filter fun n => n.handle ≠ handle }) := by
        simp only [skynetHandleRetire, keepNames_names, hslot, if_pos hctx]
      refine ⟨{ s with table := (skynetHandleRetire s.table s.ctxHandle handle).2 }, ?_, ?_⟩
      · simp only [nameTableCall, hretire, nameMapCall, ← hlive]
        rfl
      · simp only [hretire, nameMapCall, ← hlive, if_true]
        refine ⟨h.sorted.filter _, fun name' handle' => ?_, h.retire_live hslot hctx,
          (length_filter_le ..).trans h.room, h.power⟩
        rw [mem_filter, h.mem, filter_eq_some_iff]
    · simp only [skynetHandleGrab, hslot, if_neg hctx, isSome_none] at hlive
      refine ⟨s, ?_, ?_⟩
      · simp only [nameTableCall, skynetHandleRetire, hslot, if_neg hctx, nameMapCall, ← hlive]
        rfl
      · simp only [nameMapCall, ← hlive]
        exact h

end NamesHold

theorem nameTableCall_spec {t : NameMap} (k : NameTableCall γ) (h : NamesHold s t)
    (hfits : NameFits t k) : CallRefines nameTableCall nameMapCall NamesHold s t k := by
  cases k with
  | namehandle handle name =>
    cases hbound : t.bound name with
    | some handle' =>
      obtain ⟨i, hsearch, -⟩ := h.search_bound hbound
      refine ⟨s, ?_, ?_⟩
      · simp only [nameTableCall, skynetHandleNamehandle, namehandleResult, hsearch, nameMapCall,
          hbound]
        rfl
      · simp only [nameMapCall, hbound]
        exact h
    | none =>
      obtain ⟨i, hsearch⟩ := h.search_free hbound
      obtain ⟨table, hinsert, hhold⟩ := h.insert_call handle hbound (hfits hbound)
      refine ⟨{ s with table := table }, ?_, ?_⟩
      · simp only [nameTableCall, hinsert, namehandleResult, hsearch, nameMapCall, hbound]
        rfl
      · simp only [nameMapCall, hbound]
        exact hhold
  | findname name =>
    refine ⟨s, ?_, h⟩
    rw [nameTableCall, h.findname_call]
    rfl
  | retire handle => exact h.retire_call handle
  | launch slotSize handleIndex slot ctxHandle =>
    refine ⟨_, rfl, h.sorted, h.mem, fun handle => ?_, h.room, h.power⟩
    change (skynetHandleGrab _ _ _).isSome = Option.any _ _
    simp only [skynetHandleGrab]
    cases slot (handle &&& (slotSize - 1)) with
    | none => rfl
    | some ctx =>
      dsimp only [any_some]
      by_cases hctx : ctxHandle ctx = handle
      · rw [if_pos hctx, decide_eq_true hctx, isSome_some]
      · rw [if_neg hctx, decide_eq_false hctx, isSome_none]

theorem nameTableCall_full {t : NameMap} (k : NameTableCall γ) (h : NamesHold s t)
    (hfull : ¬ NameFits t k) (s' : NameTable γ) :
    nameTableCall s k ≠ some ((nameMapCall t k).1, s') := by
  cases k with
  | namehandle handle name =>
    obtain ⟨hbound, hcount⟩ := Classical.not_imp.mp hfull
    obtain ⟨i, hsearch⟩ := h.search_free hbound
    rw [h.ncard_eq, maxSlotSize] at hcount
    have hroom := h.room
    obtain ⟨k, hk, hcap⟩ := h.power
    have hle : s.table.nameCap ≤ 2 ^ 30 := by
      rw [hcap]
      exact Nat.pow_le_pow_right (by decide) hk
    have hnone : skynetHandleNamehandle s.table handle name = none := by
      have hlast : s.table.nameCap ≤ s.table.name.length := by omega
      have hover : ¬ s.table.nameCap * 2 ≤ maxSlotSize := by
        rw [maxSlotSize]
        omega
      simp only [skynetHandleNamehandle, hsearch, insertNameBefore]
      rw [if_pos hlast, if_neg hover]
    rw [nameTableCall, hnone]
    rintro ⟨⟩
  | findname name => exact absurd trivial hfull
  | retire handle => exact absurd trivial hfull
  | launch slotSize handleIndex slot ctxHandle => exact absurd trivial hfull

def NameMap.empty : NameMap where
  bound := fun _ => none
  live := fun _ => false

theorem namesHold_init (harbor : ℕ) (ctxHandle : γ → ℕ) :
    NamesHold ⟨skynetHandleInit harbor, ctxHandle⟩ .empty where
  sorted := List.Pairwise.nil
  mem _ _ := iff_of_false not_mem_nil nofun
  live _ := rfl
  room := Nat.zero_le _
  power := ⟨1, by decide, rfl⟩

/-- From `skynet_handle_init` on, every sequence of calls returns what it returns on the map, and
leaves a sorted list with the entries of the map, if and only if no name is bound beside 2^30
others.  A name that `skynet_handle_namehandle` refuses leaves the table as it is. -/
theorem name_table_iff (harbor : ℕ) (ctxHandle : γ → ℕ) (calls : List (NameTableCall γ)) :
    ((∃ s, callAll nameTableCall ⟨skynetHandleInit harbor, ctxHandle⟩ calls
        = some ((specAll nameMapCall .empty calls).1, s)
      ∧ NamesHold s (specAll nameMapCall .empty calls).2)
        ↔ EachMeets nameMapCall NameFits .empty calls)
    ∧ ∀ (t : HandleStorage γ) (handle : ℕ) (name : Bytes),
      namehandleResult t name = none → skynetHandleNamehandle t handle name = some t := by
  have hstart := namesHold_init harbor ctxHandle
  refine ⟨⟨?_, callAll_spec (fun _ _ k h => nameTableCall_spec k h) calls hstart⟩, ?_⟩
  · rintro ⟨s, hall, -⟩
    exact (callAll_iff (fun _ _ k h => nameTableCall_spec k h)
      (fun _ _ k h => nameTableCall_full k h) calls hstart).mp ⟨s, hall⟩
  · intro t handle name hnull
    unfold namehandleResult at hnull
    cases hsearch : searchName t.name name with
    | found i => simp only [skynetHandleNamehandle, hsearch]
    | before i =>
      rw [hsearch] at hnull
      cases hnull

/-- A name that was given to a handle that no service has stays when the handle is retired. -/
theorem retire_of_nobody_keeps_name : ∃ s : NameTable Unit,
    callAll nameTableCall ⟨skynetHandleInit 0, fun _ => 0⟩ [.namehandle 5 [97], .retire 5]
        = some ([.named (some [97]), .retired false], s)
      ∧ ⟨[97], 5⟩ ∈ s.table.name := by
  refine ⟨_, rfl, ?_⟩
  decide

end Skynet.Analysis
