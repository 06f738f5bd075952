import Skynet.Model.ShareTable

/-!
# Shared tables and loads that fail

The references, the lists of the clients and the versions of the names agree whatever is asked,
so that what a client holds stays open, no matrix is closed twice, and what nobody needs is
closed.  A load closes the version of its name first if nobody holds it; if it fails then, the
name is lost, to queries and to later loads.
-/

namespace Skynet.Analysis

open Library Model ShareTable Table Finset Option List Function

variable {s : ShareTable} {exempt : ℕ → Prop} {m p source : ℕ} {ref : ShareRef} {filename : List UInt8}

/-! ## The tables agree -/

/-- What holds of a reference at the place `p`: it is that of an open matrix, which has been
loaded under its name, and its clients are those that hold the matrix. -/
structure RefAgrees (s : ShareTable) (p : ℕ) (ref : ShareRef) : Prop where
  place : s.ptr ref.matrix = some p
  count : ref.count = ref.refs.card
  held : ∀ c, c ∈ ref.refs ↔ (c, ref.matrix) ∈ s.held
  listed : ∀ c ∈ ref.refs, ∃ list, s.clients.get c = some list ∧ p ∈ list
  named : ∀ f, s.files.get f = some ref.matrix → f = ref.filename

/-- The tables of the service agree, but perhaps at an exempt place: a version that nobody holds
is that of its name, if it is open. -/
structure ShareInvBut (exempt : ℕ → Prop) (s : ShareTable) : Prop where
  refs : ∀ p ref, s.matrix.get p = some ref → RefAgrees s p ref
  held : ∀ c m, (c, m) ∈ s.held → ∃ p ref, s.matrix.get p = some ref ∧ ref.matrix = m
  lists : ∀ c list p, s.clients.get c = some list → p ∈ list →
    ∃ ref, s.matrix.get p = some ref ∧ c ∈ ref.refs
  once : ∀ c list, s.clients.get c = some list → list.Nodup
  places : ∀ m m' p, s.ptr m = some p → s.ptr m' = some p → m = m'
  files : ∀ f m, s.files.get f = some m → m < s.made
  names : ∀ f f' m, s.files.get f = some m → s.files.get f' = some m → f = f'
  fresh : ∀ m, s.made ≤ m → s.ptr m = none ∧ s.closes m = 0
  closes : ∀ m < s.made, s.closes m = if s.ptr m = none then 1 else 0
  loaded : s.loaded = s.files
  current : ∀ p ref, s.matrix.get p = some ref → ¬exempt p → ref.refs = ∅ →
    s.files.get ref.filename = some ref.matrix
  used : ∀ m p, s.ptr m = some p → ¬exempt p → (∀ f, s.files.get f ≠ some m) →
    ∃ ref, s.matrix.get p = some ref ∧ ref.refs ≠ ∅

/-- **The tables of the service agree.** -/
abbrev ShareInv : ShareTable → Prop := ShareInvBut fun _ => False

theorem shareInv_init : ShareInv init := by
  constructor <;> simp [init]

theorem ShareInvBut.lt_made (h : ShareInvBut exempt s) (hm : s.ptr m = some p) : m < s.made := by
  by_contra hge
  rw [(h.fresh m (Nat.not_lt.mp hge)).1] at hm
  nomatch hm

theorem ShareInvBut.ref_matrix (h : ShareInvBut exempt s) (hm : s.ptr m = some p)
    (href : s.matrix.get p = some ref) : ref.matrix = m :=
  h.places _ _ p (h.refs p ref href).place hm

theorem ShareInvBut.mono (h : ShareInv s) : ShareInvBut exempt s := { h with
    current := fun p ref href _ => h.current p ref href not_false
    used := fun m p hm _ => h.used m p hm not_false }

theorem ShareInvBut.closeUnused (h : ShareInvBut (· = p) s) (hm : s.ptr m = some p)
    (hunused : ∀ ref, s.matrix.get p = some ref → ref.refs = ∅) :
    ShareInv ({ s with matrix := s.matrix.put p none }.closeState m) := by
  have hclose : { s with matrix := s.matrix.put p none }.closeState m = { s with
        matrix := s.matrix.put p none
        ptr := update s.ptr m none
        closes := update s.closes m (s.closes m + 1) } := by
    rw [closeState]
    simp only [hm]
  rw [hclose]
  constructor
  · intro p' ref href
    have hagrees := h.refs p' ref (by grind)
    constructor <;> grind [RefAgrees]
  · intro c m' hc
    obtain ⟨p', ref, href, rfl⟩ := h.held c m' hc
    have hclient := ((h.refs p' ref href).held c).mpr hc
    have hne : p' ≠ p := by
      rintro rfl
      rw [hunused ref href] at hclient
      nomatch hclient
    refine ⟨p', ref, ?_, rfl⟩
    rw [get_put, if_neg hne]
    exact href
  · intro c list p' hlist hp'
    obtain ⟨ref, href, hclient⟩ := h.lists c list p' hlist hp'
    have hne : p' ≠ p := by
      rintro rfl
      rw [hunused ref href] at hclient
      nomatch hclient
    refine ⟨ref, ?_, hclient⟩
    rw [get_put, if_neg hne]
    exact href
  · exact h.once
  · grind [ShareInvBut]
  · exact h.files
  · exact h.names
  · grind [ShareInvBut]
  · grind [ShareInvBut]
  · exact h.loaded
  · intro p' ref href _ hempty
    have hne : p' ≠ p := by grind
    exact h.current p' ref (by grind) hne hempty
  · intro m' p' hplace _ hforeign
    have hne : m' ≠ m := by grind
    have hplace' : s.ptr m' = some p' := by grind
    have hp' : p' ≠ p := by
      rintro rfl
      exact hne (h.places m' m p' hplace' hm)
    obtain ⟨ref, href, hclients⟩ := h.used m' p' hplace' hp' hforeign
    refine ⟨ref, ?_, hclients⟩
    rw [get_put, if_neg hp']
    exact href

/-! ## Loading -/

def Unheld (s : ShareTable) (m : ℕ) : Prop := ∀ c, (c, m) ∉ s.held

theorem ShareInvBut.unheld_iff (h : ShareInvBut exempt s) (hm : s.ptr m = some p) :
    (s.matrix.get p).all (·.count = 0) = true ↔ Unheld s m := by
  cases href : s.matrix.get p with
  | none =>
    refine ⟨fun _ c hc => ?_, fun _ => rfl⟩
    obtain ⟨p', ref, href', rfl⟩ := h.held c m hc
    have hplace := (h.refs p' ref href').place
    rw [hm] at hplace
    cases hplace
    rw [href] at href'
    nomatch href'
  | some ref =>
    have hagrees := h.refs p ref href
    have hmatrix := h.ref_matrix hm href
    rw [all_some, decide_eq_true_iff, hagrees.count, Int.natCast_eq_zero, card_eq_zero,
      eq_empty_iff_forall_notMem]
    refine forall_congr' fun c => ?_
    rw [hagrees.held c, hmatrix]

theorem ShareInvBut.closeMatrix (h : ShareInv s) (hm : s.ptr m = some p) :
    ∃ s', s.closeMatrix (some m) = some s' ∧ ShareInv s' ∧ s'.files = s.files ∧
      s'.held = s.held ∧ s'.made = s.made ∧
      (∀ m', m' ≠ m → s'.ptr m' = s.ptr m') ∧
      (Unheld s m → s'.ptr m = none) ∧ (¬Unheld s m → s' = s) := by
  have hiff := h.unheld_iff hm
  by_cases hheld : Unheld s m
  · have hall := hiff.mpr hheld
    refine ⟨_, by simp only [ShareTable.closeMatrix, hm, hall, if_true], h.mono.closeUnused hm ?_, ?_⟩
    · intro ref href
      have hagrees := h.refs p ref href
      rw [eq_empty_iff_forall_notMem]
      intro c hc
      rw [hagrees.held c, h.ref_matrix hm href] at hc
      exact hheld c hc
    · simp +contextual [closeState, hm, hheld]
  · have hall : ¬(s.matrix.get p).all (·.count = 0) = true := fun hall => hheld (hiff.mp hall)
    refine ⟨s, by simp only [ShareTable.closeMatrix, hm, if_neg hall], h, rfl, rfl, rfl, fun _ _ => rfl, ?_, ?_⟩
    · exact fun hun => absurd hun hheld
    · exact fun _ => rfl

theorem ShareInvBut.newMatrix (h : ShareInv s) (hvacant : s.Vacant p)
    (hold : ∀ m, s.files.get filename = some m → s.ptr m = none ∨ ¬Unheld s m) :
    ShareInv (s.newMatrix filename p) := by
  have hnone := (h.fresh s.made le_rfl).1
  have hvacant' : ∀ m, s.ptr m ≠ some p := by
    intro m hm
    exact hvacant m (h.lt_made hm) hm
  unfold ShareTable.newMatrix
  constructor
  · intro p' ref href
    have hagrees := h.refs p' ref href
    constructor
    · grind [RefAgrees]
    · exact hagrees.count
    · exact hagrees.held
    · exact hagrees.listed
    · grind [RefAgrees]
  · exact h.held
  · exact h.lists
  · exact h.once
  · grind [ShareInvBut]
  · grind [ShareInvBut]
  · grind [ShareInvBut]
  · grind [ShareInvBut]
  · grind [ShareInvBut]
  · rw [h.loaded]
  · intro p' ref href hin hempty
    have hagrees := h.refs p' ref href
    have hcurrent := h.current p' ref href hin hempty
    have hunheld : Unheld s ref.matrix := by
      intro c hc
      rw [← hagrees.held c, hempty] at hc
      nomatch hc
    have hname : ref.filename ≠ filename := by
      rintro heq
      rcases hold ref.matrix (heq ▸ hcurrent) with hclosed | hheld
      · rw [hagrees.place] at hclosed
        nomatch hclosed
      · exact hheld hunheld
    rw [get_put, if_neg hname]
    exact hcurrent
  · intro m p' hm hin hforeign
    have hmade : m ≠ s.made := by
      rintro rfl
      exact hforeign filename (get_put_self _ _ _)
    have hm' : s.ptr m = some p' := by grind
    by_cases hcurrent : s.files.get filename = some m
    · rcases hold m hcurrent with hclosed | hheld
      · rw [hm'] at hclosed
        nomatch hclosed
      · obtain ⟨c, hc⟩ := not_forall_not.mp hheld
        obtain ⟨p'', ref, href, rfl⟩ := h.held c m hc
        have hagrees := h.refs p'' ref href
        obtain rfl := some.inj (hagrees.place.symm.trans hm')
        refine ⟨ref, href, fun hempty => ?_⟩
        rw [← hagrees.held c, hempty] at hc
        nomatch hc
    · refine h.used m p' hm' hin fun f hf => ?_
      have hne : f ≠ filename := by
        rintro rfl
        exact hcurrent hf
      refine hforeign f ?_
      rw [get_put, if_neg hne]
      exact hf

theorem ShareInvBut.join (h : ShareInv s) (hagrees : RefAgrees s p ref)
    (honly : ∀ ref', s.matrix.get p = some ref' → ref' = ref) (hnew : source ∉ ref.refs) :
    ShareInv { s with
      matrix := s.matrix.put p
        (some { ref with refs := insert source ref.refs, count := ref.count + 1 })
      clients := s.clients.put source (some ((s.clients.get source).getD [] ++ [p]))
      held := insert (source, ref.matrix) s.held } := by
  have hnotin : p ∉ (s.clients.get source).getD [] := by
    intro hp
    cases hlist : s.clients.get source with
    | none =>
      rw [hlist] at hp
      nomatch hp
    | some list =>
      rw [hlist] at hp
      obtain ⟨ref', href', hclient⟩ := h.lists source list p hlist hp
      exact hnew (honly ref' href' ▸ hclient)
  constructor
  · intro p' ref' href'
    rw [get_put] at href'
    split at href'
    · next heq =>
      obtain rfl := some.inj href'
      obtain rfl := heq
      constructor
      · exact hagrees.place
      · rw [hagrees.count, card_insert_of_notMem hnew]
        rfl
      · grind [RefAgrees]
      · intro c hc
        by_cases hcs : c = source
        · obtain rfl := hcs
          exact ⟨_, get_put_self _ _ _, mem_append_right _ (List.mem_singleton_self _)⟩
        · obtain ⟨list, hlist, hp⟩ := hagrees.listed c (mem_of_mem_insert_of_ne hc hcs)
          refine ⟨list, ?_, hp⟩
          rw [get_put, if_neg hcs]
          exact hlist
      · exact hagrees.named
    · have hagrees' := h.refs p' ref' href'
      constructor
      · exact hagrees'.place
      · exact hagrees'.count
      · grind [RefAgrees]
      · intro c hc
        obtain ⟨list, hlist, hp⟩ := hagrees'.listed c hc
        by_cases hcs : c = source
        · obtain rfl := hcs
          refine ⟨_, get_put_self _ _ _, ?_⟩
          rw [hlist]
          exact mem_append_left _ hp
        · refine ⟨list, ?_, hp⟩
          rw [get_put, if_neg hcs]
          exact hlist
      · exact hagrees'.named
  · intro c m' hc
    rcases mem_insert.mp hc with heq | hc
    · cases heq
      exact ⟨p, _, get_put_self _ _ _, rfl⟩
    · obtain ⟨p', ref', href', rfl⟩ := h.held c m' hc
      by_cases hp : p' = p
      · obtain rfl := hp
        refine ⟨p', _, get_put_self _ _ _, ?_⟩
        rw [honly ref' href']
      · refine ⟨p', ref', ?_, rfl⟩
        rw [get_put, if_neg hp]
        exact href'
  · intro c list p' hlist hp'
    rw [get_put] at hlist
    have hold : (∃ ref', s.matrix.get p' = some ref' ∧ c ∈ ref'.refs) →
        ∃ ref', (s.matrix.put p (some { ref with
          refs := insert source ref.refs, count := ref.count + 1 })).get p' = some ref' ∧
            c ∈ ref'.refs := by
      rintro ⟨ref', href', hclient⟩
      by_cases hp : p' = p
      · obtain rfl := hp
        refine ⟨_, get_put_self _ _ _, ?_⟩
        exact Finset.mem_insert_of_mem (honly ref' href' ▸ hclient)
      · refine ⟨ref', ?_, hclient⟩
        rw [get_put, if_neg hp]
        exact href'
    split at hlist
    · next hcs =>
      obtain rfl := hcs
      cases hlist
      rcases mem_append.mp hp' with hp' | hp'
      · cases hlist' : s.clients.get c with
        | none =>
          rw [hlist'] at hp'
          nomatch hp'
        | some list =>
          rw [hlist'] at hp'
          exact hold (h.lists c list p' hlist' hp')
      · obtain rfl := List.mem_singleton.mp hp'
        exact ⟨_, get_put_self _ _ _, Finset.mem_insert_self _ _⟩
    · exact hold (h.lists c list p' hlist hp')
  · intro c list hlist
    rw [get_put] at hlist
    split at hlist
    · cases hlist
      have hnodup : ((s.clients.get source).getD []).Nodup := by
        cases hlist' : s.clients.get source with
        | none => exact nodup_nil
        | some list => exact h.once source list hlist'
      exact nodup_append.mpr ⟨hnodup, nodup_singleton p, by grind⟩
    · exact h.once c list hlist
  · exact h.places
  · exact h.files
  · exact h.names
  · exact h.fresh
  · exact h.closes
  · exact h.loaded
  · intro p' ref' href' hin hempty
    rw [get_put] at href'
    split at href'
    · obtain rfl := some.inj href'
      exact absurd hempty (insert_ne_empty _ _)
    · exact h.current p' ref' href' hin hempty
  · intro m' p' hm' hin hforeign
    obtain ⟨ref', href', hclients⟩ := h.used m' p' hm' hin hforeign
    by_cases hp : p' = p
    · obtain rfl := hp
      exact ⟨_, get_put_self _ _ _, insert_ne_empty _ _⟩
    · refine ⟨ref', ?_, hclients⟩
      rw [get_put, if_neg hp]
      exact href'

theorem ShareInvBut.queryFile (h : ShareInv s) (hfile : s.files.get filename = some m)
    (hm : s.ptr m = some p) : ShareInv (s.queryFile source filename m p) := by
  unfold ShareTable.queryFile
  cases href : s.matrix.get p with
  | none =>
    have hunheld : Unheld s m := (h.unheld_iff hm).mp (by rw [href]; rfl)
    have hagrees : RefAgrees s p ⟨filename, 0, m, ∅⟩ := by
      constructor
      · exact hm
      · rfl
      · exact fun c => ⟨fun hc => absurd hc (notMem_empty c), fun hc => absurd hc (hunheld c)⟩
      · exact fun c hc => absurd hc (notMem_empty c)
      · exact fun f hf => h.names f filename m hf hfile
    refine h.join hagrees (fun ref' href' => ?_) (notMem_empty source)
    rw [href] at href'
    nomatch href'
  | some ref =>
    have hagrees := h.refs p ref href
    obtain rfl := h.ref_matrix hm href
    simp only [getD_some]
    by_cases hc : source ∈ ref.refs
    · have hheld := (hagrees.held source).mp hc
      rw [if_pos hc, insert_eq_of_mem hheld]
      exact h
    · rw [if_neg hc]
      refine h.join hagrees (fun ref' href' => ?_) hc
      exact some.inj (href'.symm.trans href)

/-! ## Clients that close -/

def withList (s : ShareTable) (source : ℕ) (list : Option (List ℕ)) : ShareTable :=
  { s with clients := s.clients.put source list }

@[simp] theorem withList_withList (s : ShareTable) (source : ℕ) (l l' : Option (List ℕ)) :
    withList (withList s source l) source l' = withList s source l' := by
  simp only [withList, put_put]

theorem ShareInvBut.relist {l : Option (List ℕ)} (h : ShareInvBut exempt s)
    (hmem : ∀ p, p ∈ (s.clients.get source).getD [] ↔ p ∈ l.getD [])
    (hnodup : (l.getD []).Nodup) : ShareInvBut exempt (withList s source l) := by
  have hget : ∀ c, (withList s source l).clients.get c =
      if c = source then l else s.clients.get c := fun c => get_put _ _ _ _
  constructor
  · intro p ref href
    have hagrees := h.refs p ref href
    constructor
    · exact hagrees.place
    · exact hagrees.count
    · exact hagrees.held
    · intro c hc
      obtain ⟨list, hlist, hp⟩ := hagrees.listed c hc
      rw [hget]
      split
      · next heq =>
        obtain rfl := heq
        have hin : p ∈ l.getD [] := (hmem p).mp (by rw [hlist]; exact hp)
        cases l with
        | none => nomatch hin
        | some list' => exact ⟨list', rfl, hin⟩
      · exact ⟨list, hlist, hp⟩
    · exact hagrees.named
  · exact h.held
  · intro c list p hlist hp
    rw [hget] at hlist
    split at hlist
    · next heq =>
      obtain rfl := heq
      have hin : p ∈ (s.clients.get c).getD [] := (hmem p).mpr (by rw [hlist]; exact hp)
      cases hlist' : s.clients.get c with
      | none =>
        rw [hlist'] at hin
        nomatch hin
      | some list' =>
        rw [hlist'] at hin
        exact h.lists c list' p hlist' hin
    · exact h.lists c list p hlist hp
  · intro c list hlist
    rw [hget] at hlist
    split at hlist
    · rw [hlist] at hnodup
      exact hnodup
    · exact h.once c list hlist
  · exact h.places
  · exact h.files
  · exact h.names
  · exact h.fresh
  · exact h.closes
  · exact h.loaded
  · exact h.current
  · exact h.used

variable {list : List ℕ}

theorem ShareInvBut.leave (h : ShareInv (withList s source (some (p :: list))))
    (href : s.matrix.get p = some ref) :
    ShareInvBut (· = p) (withList { s with
      matrix := s.matrix.put p
        (some { ref with refs := ref.refs.erase source, count := ref.count - 1 })
      held := s.held.erase (source, ref.matrix) } source (some list)) := by
  have hself : (withList s source (some (p :: list))).clients.get source = some (p :: list) :=
    get_put_self _ _ _
  have hget : ∀ c, c ≠ source →
      (withList s source (some (p :: list))).clients.get c = s.clients.get c := fun c hc => by
    rw [withList, get_put, if_neg hc]
  have hagrees := h.refs p ref href
  obtain ⟨hnotin, hnodup⟩ := nodup_cons.mp (h.once source _ hself)
  have hc : source ∈ ref.refs := by
    obtain ⟨ref', href', hclient⟩ := h.lists source _ p hself List.mem_cons_self
    exact some.inj (href'.symm.trans href) ▸ hclient
  have hleft : ∀ c, (withList s source (some list)).clients.get c =
      if c = source then some list else s.clients.get c := fun c => get_put _ _ _ _
  constructor
  · intro p' ref' href'
    change (s.matrix.put p _).get p' = some ref' at href'
    rw [get_put] at href'
    split at href'
    · next heq =>
      obtain rfl := heq
      obtain rfl := some.inj href'
      constructor
      · exact hagrees.place
      · change ref.count - 1 = _
        have hpos := card_pos.mpr ⟨source, hc⟩
        rw [hagrees.count, card_erase_of_mem hc]
        omega
      · intro c
        change c ∈ ref.refs.erase source ↔ (c, ref.matrix) ∈ s.held.erase (source, ref.matrix)
        have hheld : c ∈ ref.refs ↔ (c, ref.matrix) ∈ s.held := hagrees.held c
        simp only [mem_erase, hheld, ne_eq, Prod.mk.injEq, and_true]
      · intro c hc'
        obtain ⟨hne, hc'⟩ := mem_erase.mp hc'
        obtain ⟨list', hlist', hp⟩ := hagrees.listed c hc'
        refine ⟨list', ?_, hp⟩
        rw [hget c hne] at hlist'
        exact (hleft c).trans ((if_neg hne).trans hlist')
      · exact hagrees.named
    · next hne =>
      have hagrees' := h.refs p' ref' href'
      have hmatrix : ref'.matrix ≠ ref.matrix := by
        intro heq
        have hplace := hagrees'.place
        rw [heq, hagrees.place] at hplace
        exact hne (some.inj hplace).symm
      constructor
      · exact hagrees'.place
      · exact hagrees'.count
      · intro c
        change c ∈ ref'.refs ↔ (c, ref'.matrix) ∈ s.held.erase (source, ref.matrix)
        have hheld : c ∈ ref'.refs ↔ (c, ref'.matrix) ∈ s.held := hagrees'.held c
        simp only [mem_erase, hheld, ne_eq, Prod.mk.injEq, hmatrix, and_false,
          not_false_eq_true, true_and]
      · intro c hc'
        obtain ⟨list', hlist', hp⟩ := hagrees'.listed c hc'
        by_cases hcs : c = source
        · obtain rfl := hcs
          obtain rfl := some.inj (hself.symm.trans hlist')
          refine ⟨list, (hleft c).trans (if_pos rfl), ?_⟩
          exact (List.mem_cons.mp hp).resolve_left hne
        · rw [hget c hcs] at hlist'
          exact ⟨list', (hleft c).trans ((if_neg hcs).trans hlist'), hp⟩
      · exact hagrees'.named
  · intro c m' hc'
    obtain ⟨-, hc'⟩ := mem_erase.mp hc'
    obtain ⟨p', ref', href', rfl⟩ := h.held c m' hc'
    by_cases hp : p' = p
    · obtain rfl := hp
      obtain rfl := some.inj (href.symm.trans href')
      exact ⟨p', _, get_put_self _ _ _, rfl⟩
    · refine ⟨p', ref', ?_, rfl⟩
      exact (get_put _ _ _ _).trans ((if_neg hp).trans href')
  · intro c list' p' hlist' hp'
    replace hlist' := (hleft c).symm.trans hlist'
    have hold : ∃ ref', s.matrix.get p' = some ref' ∧ c ∈ ref'.refs ∧ (c = source → p' ≠ p) := by
      split at hlist'
      · next heq =>
        obtain rfl := heq
        obtain rfl := some.inj hlist'
        obtain ⟨ref', href', hclient⟩ := h.lists c _ p' hself (List.mem_cons_of_mem p hp')
        exact ⟨ref', href', hclient, fun _ heq => hnotin (heq ▸ hp')⟩
      · next hne =>
        rw [← hget c hne] at hlist'
        obtain ⟨ref', href', hclient⟩ := h.lists c list' p' hlist' hp'
        exact ⟨ref', href', hclient, fun heq => absurd heq hne⟩
    obtain ⟨ref', href', hclient, hother⟩ := hold
    by_cases hp : p' = p
    · obtain rfl := hp
      obtain rfl := some.inj (href.symm.trans href')
      refine ⟨_, get_put_self _ _ _, mem_erase.mpr ⟨?_, hclient⟩⟩
      exact fun heq => hother heq rfl
    · exact ⟨ref', (get_put _ _ _ _).trans ((if_neg hp).trans href'), hclient⟩
  · intro c list' hlist'
    replace hlist' := (hleft c).symm.trans hlist'
    split at hlist'
    · obtain rfl := some.inj hlist'
      exact hnodup
    · next hne =>
      rw [← hget c hne] at hlist'
      exact h.once c list' hlist'
  · exact h.places
  · exact h.files
  · exact h.names
  · exact h.fresh
  · exact h.closes
  · exact h.loaded
  · intro p' ref' href' hne hempty
    have href'' : s.matrix.get p' = some ref' := by
      rw [← href']
      exact ((get_put _ _ _ _).trans (if_neg hne)).symm
    exact h.current p' ref' href'' not_false hempty
  · intro m' p' hm' hne hforeign
    obtain ⟨ref', href', hclients⟩ := h.used m' p' hm' not_false hforeign
    exact ⟨ref', (get_put _ _ _ _).trans ((if_neg hne).trans href'), hclients⟩

theorem ShareInvBut.closeRef (h : ShareInv (withList s source (some (p :: list)))) : ShareInv
    (withList (s.closeRef source p) source (some list)) := by
  have hself : (withList s source (some (p :: list))).clients.get source = some (p :: list) :=
    get_put_self _ _ _
  obtain ⟨ref, href, hc⟩ := h.lists source _ p hself List.mem_cons_self
  change s.matrix.get p = some ref at href
  have hagrees := h.refs p ref href
  have hleave := h.leave href
  have hcount : ref.count - 1 = 0 ↔ ref.refs.erase source = ∅ := by
    have hpos := card_pos.mpr ⟨source, hc⟩
    rw [← card_eq_zero, card_erase_of_mem hc, hagrees.count]
    omega
  have hplace : s.ptr ref.matrix = some p := hagrees.place
  unfold ShareTable.closeRef
  simp only [href, if_pos hc]
  split
  · next hgone =>
    have hclosed := hleave.closeUnused hplace (fun ref' href' => by
      obtain rfl := some.inj ((get_put_self _ _ _).symm.trans href')
      exact hcount.mp hgone.1)
    simp only [closeState, withList, hplace] at hclosed ⊢
    exact hclosed
  · next hkept =>
    refine { hleave with current := fun p' ref' href' _ hempty => ?_, used := ?_ }
    · by_cases hp : p' = p
      · obtain rfl := hp
        obtain rfl := some.inj ((get_put_self _ _ _).symm.trans href')
        by_contra hne
        exact hkept ⟨hcount.mpr hempty, hne⟩
      · exact hleave.current p' ref' href' hp hempty
    · intro m' p' hm' _ hforeign
      by_cases hp : p' = p
      · obtain rfl := hp
        obtain rfl := h.places m' ref.matrix p' hm' hplace
        refine ⟨_, get_put_self _ _ _, fun hempty => ?_⟩
        exact hkept ⟨hcount.mpr hempty, hforeign ref.filename⟩
      · exact hleave.used m' p' hm' hp hforeign

theorem ShareInvBut.closeRef_current
    (h : ShareInv (withList s source (some (p :: list)))) :
    (s.closeRef source p).files = s.files ∧ (s.closeRef source p).loaded = s.loaded ∧
      ∀ f m, s.files.get f = some m → (s.closeRef source p).ptr m = s.ptr m := by
  have hself : (withList s source (some (p :: list))).clients.get source = some (p :: list) :=
    get_put_self _ _ _
  obtain ⟨ref, href, hc⟩ := h.lists source _ p hself List.mem_cons_self
  have hagrees := h.refs p ref href
  have hplace : s.ptr ref.matrix = some p := hagrees.place
  change s.matrix.get p = some ref at href
  unfold ShareTable.closeRef
  simp only [href, if_pos hc]
  split
  · next hgone =>
    simp only [closeState, hplace]
    refine ⟨trivial, trivial, fun f m hf => ?_⟩
    have hne : m ≠ ref.matrix := by
      rintro rfl
      exact hgone.2 (hagrees.named f hf ▸ hf)
    rw [update_of_ne hne]
  · exact ⟨rfl, rfl, fun _ _ _ => rfl⟩

theorem ShareInvBut.closeRun (h : ShareInv (withList s source (some list))) :
    ∃ s', list.foldl (fun s p => s.closeRef source p) s = s' ∧
      ShareInv (withList s' source (some [])) ∧ s'.files = s.files ∧ s'.loaded = s.loaded ∧
      ∀ f m, s.files.get f = some m → s'.ptr m = s.ptr m := by
  induction list generalizing s with
  | nil => exact ⟨s, rfl, h, rfl, rfl, fun _ _ _ => rfl⟩
  | cons p list ih =>
    obtain ⟨hfiles, hloaded, hptr⟩ := h.closeRef_current
    obtain ⟨s', hrun, hs', hfiles', hloaded', hptr'⟩ := ih h.closeRef
    refine ⟨s', hrun, hs', hfiles'.trans hfiles, hloaded'.trans hloaded, fun f m hf => ?_⟩
    rw [hptr' f m (hfiles ▸ hf), hptr f m hf]

theorem ShareInvBut.close (h : ShareInv s) (source : ℕ) :
    ShareInv (s.close source) ∧ (s.close source).loaded = s.loaded ∧
      ∀ f m, s.files.get f = some m → (s.close source).ptr m = s.ptr m := by
  unfold ShareTable.close
  cases hlist : s.clients.get source with
  | none => exact ⟨h, rfl, fun _ _ _ => rfl⟩
  | some list =>
    have hstart : ShareInv (withList s source (some list)) :=
      h.relist (fun p => by rw [hlist]) (h.once source list hlist)
    obtain ⟨s', hrun, hs', -, hloaded, hptr⟩ := hstart.closeRun
    have hend : ShareInv (withList (withList s' source (some [])) source none) :=
      hs'.relist (fun p => by rw [withList, get_put_self]; exact Iff.rfl) nodup_nil
    rw [withList_withList] at hend
    simp only [hrun]
    exact ⟨hend, hloaded, hptr⟩

/-! ## Every run -/

def CurrentOpen (s : ShareTable) : Prop := ∀ f m, s.loaded.get f = some m → s.ptr m ≠ none

/-- **What the store promises** in a state: what a client holds is not closed, no matrix is
closed twice, and those that nobody holds are, but for the versions of the names; a query of a
name that was loaded gives the version that was loaded last; and what can be loaded is, and is
the version of its name. -/
structure StoreSurvives (s : ShareTable) : Prop where
  held : ∀ c m, (c, m) ∈ s.held → s.ptr m ≠ none
  once : ∀ m, s.closes m ≤ 1
  old : ∀ m < s.made, (∀ f, s.loaded.get f ≠ some m) → Unheld s m → s.closes m = 1
  query : ∀ c f m, s.loaded.get f = some m → ∃ p, s.ptr m = some p ∧ (s.query c f).1 = .pointer p
  reload : ∀ f p s', s.next (.load f (some p)) = some s' →
    (s.load f (some p)).1 = .done ∧ s'.loaded.get f = some s.made ∧ s'.ptr s.made = some p

def LoadsSafely (s : ShareTable) : ShareAction → Prop
  | .load f none => ∀ m, s.loaded.get f = some m → ¬Unheld s m
  | _ => True

theorem load_some {s' : ShareTable} (hclose : s.closeMatrix (s.files.get filename) = some s')
    (result : Option ℕ) :
    s.load filename result = match result with
      | none => (.error, s')
      | some p => (.done, s'.newMatrix filename p) := by
  cases result <;> simp only [ShareTable.load, hclose]

/-- A load, of a name whose version is open: what is closed before it, and what becomes of the
version. -/
theorem ShareInvBut.closeCurrent (h : ShareInv s)
    (hopen : ∀ m, s.files.get filename = some m → s.ptr m ≠ none) :
    ∃ s', s.closeMatrix (s.files.get filename) = some s' ∧ ShareInv s' ∧
      s'.files = s.files ∧ s'.made = s.made ∧
      (∀ m, s.files.get filename ≠ some m → s'.ptr m = s.ptr m) ∧
      (∀ m, s.files.get filename = some m → Unheld s m → s'.ptr m = none) ∧
      ((∀ m, s.files.get filename = some m → ¬Unheld s m) → s' = s) ∧
      ∀ m, s'.files.get filename = some m → s'.ptr m = none ∨ ¬Unheld s' m := by
  cases hfile : s.files.get filename with
  | none =>
    refine ⟨s, rfl, h, rfl, rfl, fun _ _ => rfl, nofun, fun _ => rfl, ?_⟩
    intro m hm
    rw [hfile] at hm
    nomatch hm
  | some m =>
    cases hm : s.ptr m with
    | none => exact absurd hm (hopen m hfile)
    | some p =>
      obtain ⟨s', hclose, hs', hfiles, hheld, hmade, hother, hunheld, hkept⟩ := h.closeMatrix hm
      refine ⟨s', hclose, hs', hfiles, hmade, ?_, ?_, ?_, ?_⟩
      · intro m' hm'
        exact hother m' fun heq => hm' (congrArg some heq.symm)
      · rintro _ ⟨⟩ hun
        exact hunheld hun
      · exact fun hall => hkept (hall m rfl)
      · intro m' hm'
        rw [hfiles, hfile] at hm'
        obtain rfl := some.inj hm'
        by_cases hun : Unheld s m
        · exact .inl (hunheld hun)
        · right
          rw [hkept hun]
          exact hun

theorem shareInv_step {s' : ShareTable} {a : ShareAction} (h : ShareInv s)
    (hnext : s.next a = some s') : ShareInv s' := by
  cases a with
  | load f result =>
    obtain ⟨hvacant, hnext⟩ := ite_none_right_eq_some.mp hnext
    cases hnext
    by_cases hopen : ∀ m, s.files.get f = some m → s.ptr m ≠ none
    · obtain ⟨s', hclose, hs', -, -, -, -, -, hold⟩ := h.closeCurrent hopen
      rw [load_some hclose]
      cases result with
      | none => exact hs'
      | some p =>
        rw [hclose] at hvacant
        exact hs'.newMatrix (hvacant p rfl) hold
    · simp only [not_forall, not_not] at hopen
      obtain ⟨m, hfile, hm⟩ := hopen
      have hfail : s.load f result = (.error, s) := by
        simp only [ShareTable.load, hfile, ShareTable.closeMatrix, hm]
      rw [hfail]
      exact h
  | query c f =>
    cases hnext
    unfold ShareTable.query
    cases hfile : s.files.get f with
    | none => exact h
    | some m =>
      cases hm : s.ptr m with
      | none =>
        simp only [hm]
        exact h
      | some p =>
        simp only [hm]
        exact h.queryFile hfile hm
  | close c =>
    cases hnext
    exact (h.close c).1

theorem storeSurvives_iff (h : ShareInv s) : StoreSurvives s ↔ CurrentOpen s := by
  constructor
  · intro hs f m hm
    obtain ⟨p, hp, -⟩ := hs.query 0 f m hm
    rw [hp]
    exact some_ne_none p
  · intro hopen
    rw [CurrentOpen, h.loaded] at hopen
    constructor
    · intro c m hc
      obtain ⟨p, ref, href, rfl⟩ := h.held c m hc
      rw [(h.refs p ref href).place]
      exact some_ne_none p
    · intro m
      by_cases hm : m < s.made
      · rw [h.closes m hm]
        split <;> omega
      · rw [(h.fresh m (Nat.not_lt.mp hm)).2]
        exact Nat.zero_le 1
    · intro m hm hforeign hunheld
      rw [h.loaded] at hforeign
      rw [h.closes m hm, if_pos]
      by_contra hne
      obtain ⟨p, hp⟩ := ne_none_iff_exists'.mp hne
      obtain ⟨ref, href, hclients⟩ := h.used m p hp not_false hforeign
      obtain ⟨c, hc⟩ := nonempty_iff_ne_empty.mpr hclients
      rw [(h.refs p ref href).held c, h.ref_matrix hp href] at hc
      exact hunheld c hc
    · intro c f m hm
      rw [h.loaded] at hm
      obtain ⟨p, hp⟩ := ne_none_iff_exists'.mp (hopen f m hm)
      refine ⟨p, hp, ?_⟩
      simp only [ShareTable.query, hm, hp]
    · intro f p s' hnext
      obtain ⟨-, hnext⟩ := ite_none_right_eq_some.mp hnext
      cases hnext
      obtain ⟨s', hclose, -, -, hmade, -⟩ := h.closeCurrent (hopen f)
      rw [load_some hclose, ← hmade]
      exact ⟨rfl, get_put_self _ _ _, update_self _ _ _⟩

theorem currentOpen_step {s' : ShareTable} {a : ShareAction} (h : ShareInv s)
    (hopen : CurrentOpen s) (hnext : s.next a = some s') : CurrentOpen s' ↔ LoadsSafely s a := by
  cases a with
  | load f result =>
    obtain ⟨-, hnext⟩ := ite_none_right_eq_some.mp hnext
    cases hnext
    have hopen' := hopen
    rw [CurrentOpen, h.loaded] at hopen'
    obtain ⟨s₁, hclose, hs₁, hfiles, hmade, hother, hunheld, hkept, -⟩ := h.closeCurrent (hopen' f)
    rw [load_some hclose]
    cases result with
    | none =>
      constructor
      · intro hs' m hm hun
        rw [h.loaded] at hm
        refine hs' f m ?_ (hunheld m hm hun)
        rw [hs₁.loaded, hfiles]
        exact hm
      · intro hkeeps
        rw [LoadsSafely, h.loaded] at hkeeps
        rw [hkept hkeeps]
        exact hopen
    | some p =>
      refine ⟨fun _ => trivial, fun _ f' m hm => ?_⟩
      change (s₁.loaded.put f (some s₁.made)).get f' = some m at hm
      change update s₁.ptr s₁.made (some p) m ≠ none
      rw [get_put] at hm
      split at hm
      · cases hm
        rw [update_self]
        exact some_ne_none p
      · next hne =>
        rw [hs₁.loaded] at hm
        have hlt := hs₁.files f' m hm
        rw [hfiles] at hm
        have hforeign : s.files.get f ≠ some m := fun heq => hne (h.names f' f m hm heq)
        rw [update_of_ne (Nat.ne_of_lt hlt), hother m hforeign]
        exact hopen' f' m hm
  | query c f =>
    cases hnext
    refine ⟨fun _ => trivial, fun _ => ?_⟩
    unfold ShareTable.query
    cases s.files.get f with
    | none => exact hopen
    | some m =>
      cases hm : s.ptr m with
      | none =>
        simp only [hm]
        exact hopen
      | some p =>
        simp only [hm, ShareTable.queryFile]
        split <;> exact hopen
  | close c =>
    cases hnext
    obtain ⟨-, hloaded, hptr⟩ := h.close c
    refine ⟨fun _ => trivial, fun _ f m hm => ?_⟩
    rw [hloaded] at hm
    have hm' := hm
    rw [h.loaded] at hm'
    rw [hptr f m hm']
    exact hopen f m hm

/-- **The store survives failed loads**, in all states of a run, exactly if in the run no load
of a name fails while nobody holds the version of the name. -/
theorem store_survives_iff (requests : List ShareAction) :
    machine.Each (fun _ _ s' => StoreSurvives s') init requests ↔
      machine.Each (fun s a _ => LoadsSafely s a) init requests := by
  refine Machine.each_iff_of_good (I := ShareInv) (G := CurrentOpen)
    (fun s a s' hs hnext => shareInv_step hs hnext) ?_ ?_ shareInv_init nofun requests
  · intro s a s' hs f m hm
    obtain ⟨p, hp, -⟩ := hs.query 0 f m hm
    rw [hp]
    exact some_ne_none p
  · intro s a s' hs hopen hnext
    rw [storeSurvives_iff (shareInv_step hs hnext)]
    exact currentOpen_step hs hopen hnext

/-- A name is loaded, and a load of it fails: a query fails, and so does a load that could be
done. -/
theorem failed_load_breaks_name :
    ∃ s, machine.Reachable s ∧ s.loaded.get [] = some 0 ∧ (s.query 7 []).1 = .error ∧
      (s.load [] (some 5)).1 = .error := by
  refine ⟨_, Machine.Reachable.run (s := init) (.start rfl)
    (l := [.load [] (some 3), .load [] none]) rfl, rfl, rfl, rfl⟩

end Skynet.Analysis
