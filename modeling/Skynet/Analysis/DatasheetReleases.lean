import Skynet.Analysis.Datasheets

/-!
# Datasheets that are released

Releases of a client, of a client that exits, and of the builder.  They differ in what the tables
hold before; the counts and the handles that go are one lemma.
-/

namespace Skynet.Analysis

open Library Model Datasheet List Or Function

variable {s s' : Datasheet} {owner c : ℕ} {n : Bytes} {x : ℕ}

/-! ## Releases -/

theorem released_eq_some {info info' : SheetHandle} (h : released info = some info') :
    info' = { info with ref := info.ref - 1 } ∧ (info'.collect = true → info'.ref ≠ 0) := by
  unfold released at h
  split at h
  · nomatch h
  · next hnot =>
    cases h
    exact ⟨rfl, fun hcollect href => hnot ⟨href, hcollect⟩⟩

theorem released_ne_none {info : SheetHandle} (h : info.ref - 1 ≠ 0 ∨ info.collect = false) :
    released info = some { info with ref := info.ref - 1 } := by
  unfold released
  rw [if_neg]
  rintro ⟨href, hcollect⟩
  rcases h with h | h
  · exact h href
  · rw [h] at hcollect
    nomatch hcollect

theorem SheetInv.drop {handles : Table ℕ SheetHandle} {cache : Finset ℕ} {l : List ℕ}
    (hb : BuilderInv s) (hc : ∀ d, ClientInv owner s d)
    (hrefs : ∀ y info, s.handles.get y = some info →
      info.ref = holders s info.name y + if y ∈ l then 1 else 0)
    (hunanswered : ∀ y info, s.handles.get y = some info → info.collect = true → info.ref ≠ 0)
    (hhandles : ∀ y, handles.get y =
      if y ∈ l then (s.handles.get y).bind released else s.handles.get y)
    (hcache : ∀ y ∈ s.cache, handles.get y ≠ none → y ∈ cache) :
    SheetInv owner { s with handles := handles, cache := cache } := by
  set s' := { s with handles := handles, cache := cache } with hs'
  have hback : ∀ y info', handles.get y = some info' → ∃ info, s.handles.get y = some info ∧
      info.name = info'.name ∧ info.collect = info'.collect ∧
      info'.ref = holders s info'.name y ∧ (info'.collect = true → info'.ref ≠ 0) := by
    intro y info' hy
    rw [hhandles] at hy
    split at hy
    · next hl =>
      obtain ⟨info, hinfo, hrel⟩ := Option.bind_eq_some_iff.mp hy
      obtain ⟨rfl, hne⟩ := released_eq_some hrel
      have href := hrefs y info hinfo
      rw [if_pos hl] at href
      exact ⟨info, hinfo, rfl, rfl, by simp only; omega, hne⟩
    · next hl =>
      have href := hrefs y info' hy
      rw [if_neg hl, add_zero] at href
      exact ⟨info', hy, rfl, rfl, href, hunanswered y info' hy⟩
  have hsurvives : ∀ y info, s.handles.get y = some info →
      holders s info.name y ≠ 0 ∨ info.collect = false →
      ∃ info', handles.get y = some info' ∧ info'.name = info.name ∧
        info'.collect = info.collect := by
    intro y info hinfo hkeep
    rw [hhandles]
    split
    · next hl =>
      have href := hrefs y info hinfo
      rw [if_pos hl] at href
      have hkeep' : info.ref - 1 ≠ 0 ∨ info.collect = false := hkeep.imp_left (by omega)
      refine ⟨{ info with ref := info.ref - 1 }, ?_, rfl, rfl⟩
      rw [hinfo]
      exact released_ne_none hkeep'
    · exact ⟨info, hinfo, rfl, rfl⟩
  have hkept : ∀ m y, Kept s m y → holders s m y ≠ 0 → Kept s' m y := by
    rintro m y ⟨info, hinfo, rfl⟩ hne
    obtain ⟨info', hinfo', hname, -⟩ := hsurvives y info hinfo (inl hne)
    exact ⟨info', hinfo', hname⟩
  have hkept' : ∀ m y, Kept s' m y → Kept s m y := by
    rintro m y ⟨info', hinfo', rfl⟩
    obtain ⟨info, hinfo, hname, -⟩ := hback y info' hinfo'
    exact ⟨info, hinfo, hname⟩
  have hunasked : ∀ m y, Unasked s' m y ↔ Unasked s m y := by
    intro m y
    constructor
    · rintro ⟨info', hinfo', rfl, hcollect⟩
      obtain ⟨info, hinfo, hname, hsame, -⟩ := hback y info' hinfo'
      exact ⟨info, hinfo, hname, hsame.trans hcollect⟩
    · rintro ⟨info, hinfo, rfl, hcollect⟩
      obtain ⟨info', hinfo', hname, hsame⟩ := hsurvives y info hinfo (inr hcollect)
      exact ⟨info', hinfo', hname, hsame.trans hcollect⟩
  refine ⟨?_, fun d => ?_, ?_, ?_⟩
  · constructor
    · exact fun m y hy => hkept m y (hb.current m y hy) (holders_of_builder (inl hy))
    · intro m b hm
      refine hkept m _ (hb.version m b hm) (holders_of_builder (inr ?_))
      rw [hm]
      rfl
    · exact fun m y hy => hb.named m y (hkept' m y hy)
    · exact hb.made
    · exact hb.newest
    · exact hb.newer
    · rintro m y hy
      refine hcache y (hb.cache m y (hkept' m y hy)) ?_
      obtain ⟨info', hinfo', -⟩ := hy
      exact Option.ne_none_iff_exists'.mpr ⟨info', hinfo'⟩
    · intro y hy
      obtain ⟨m, hm⟩ := hb.collects y hy
      exact ⟨m, (hunasked m y).mpr hm⟩
    · exact fun m y hy => hb.asked m y ((hunasked m y).mp hy)
    · intro m b y hm hans
      rw [hunasked]
      exact hb.unsent m b y hm hans
  · have hd := hc d
    refine { hd with held := fun m y hy => hkept m y (hd.held m y hy) ?_ }
    have hact : Active s d m := ne_nil_of_mem hy
    exact holders_of_client (hd.clients m hact).1 (inl hy)
  · intro y info' hinfo'
    obtain ⟨-, -, -, -, href, -⟩ := hback y info' hinfo'
    exact href
  · intro y info' hinfo'
    obtain ⟨-, -, -, -, -, hne⟩ := hback y info' hinfo'
    exact hne

structure Released (s s' : Datasheet) (c : ℕ) (l : List ℕ) : Prop where
  handles : ∀ y, s'.handles.get y =
    if y ∈ l then (s.handles.get y).bind released else s.handles.get y
  cache : ∀ y ∈ s.cache, s'.handles.get y ≠ none → y ∈ s'.cache
  dataset : ∀ m t', s'.dataset.get m = some t' → ∃ t, s.dataset.get m = some t ∧
    t'.handle = t.handle ∧ ∀ d, (d ∈ t'.monitor ↔ d ∈ t.monitor ∧ (d = c → ∀ y ∈ l, ¬Kept s m y))
  current : s'.current = s.current
  rest : s' = { s with handles := s'.handles, cache := s'.cache, dataset := s'.dataset }

theorem releasehandle_released {info : SheetHandle} (hinfo : s.handles.get x = some info) :
    ∃ s', s.releasehandle c x = some s' ∧ Released s s' c [x] := by
  unfold Datasheet.releasehandle
  simp only [hinfo, Option.some.injEq, exists_eq_left']
  have hkept : ∀ m, Kept s m x ↔ info.name = m := by
    simp [Kept, hinfo]
  have hdataset : ∀ m t', (s.dataset.put info.name ((s.dataset.get info.name).map fun t =>
      { t with monitor := t.monitor.erase c })).get m = some t' → ∃ t, s.dataset.get m = some t ∧
      t'.handle = t.handle ∧
        ∀ d, (d ∈ t'.monitor ↔ d ∈ t.monitor ∧ (d = c → ∀ y ∈ [x], ¬Kept s m y)) := by
    intro m t' ht'
    rw [Table.get_put] at ht'
    split at ht'
    · next hm =>
      obtain ⟨t, ht, rfl⟩ := Option.map_eq_some_iff.mp ht'
      refine ⟨t, hm ▸ ht, rfl, fun d => ?_⟩
      simp [hkept, hm, and_comm]
    · next hm =>
      refine ⟨t', ht', rfl, fun d => ?_⟩
      simp [hkept, Ne.symm hm]
  have hcurrent : (fun m => ((s.dataset.put info.name ((s.dataset.get info.name).map fun t =>
      { t with monitor := t.monitor.erase c })).get m).map (·.handle)) = s.current := by
    funext m
    rw [Table.get_put, Datasheet.current]
    split
    · next hm => rw [hm, Option.map_map]; rfl
    · rfl
  cases hrel : released info with
  | none =>
    refine ⟨fun y => ?_, fun y hy hne => ?_, hdataset, hcurrent, rfl⟩
    · simp only [collected, Table.get_put, mem_singleton]
      split
      · next heq => rw [heq, hinfo]; exact hrel.symm
      · rfl
    · simp only [collected, Table.get_put] at hne ⊢
      refine Finset.mem_erase.mpr ⟨?_, hy⟩
      rintro rfl
      simp at hne
  | some info' =>
    refine ⟨fun y => ?_, fun y hy _ => hy, hdataset, hcurrent, rfl⟩
    simp only [Table.get_put, mem_singleton]
    split
    · next heq => rw [heq, hinfo]; exact hrel.symm
    · rfl

theorem Released.trans {s₁ s₂ : Datasheet} {l : List ℕ} (h₁ : Released s s₁ c [x])
    (h₂ : Released s₁ s₂ c l) (hx : x ∉ l) : Released s s₂ c (x :: l) := by
  have hget : ∀ y, y ≠ x → s₁.handles.get y = s.handles.get y := by
    intro y hy
    rw [h₁.handles, if_neg (by simpa using hy)]
  have hkept : ∀ m, ∀ y ∈ l, Kept s₁ m y ↔ Kept s m y := by
    intro m y hy
    have hne : y ≠ x := fun heq => hx (heq ▸ hy)
    rw [Kept, Kept, hget y hne]
  refine ⟨fun y => ?_, fun y hy hne => ?_, fun m t₂ ht₂ => ?_, h₂.current.trans h₁.current, ?_⟩
  · rw [h₂.handles]
    by_cases hyx : y = x
    · rw [hyx, if_neg hx, h₁.handles]
      simp
    · rw [hget y hyx]
      simp [hyx]
  · refine h₂.cache y (h₁.cache y hy fun hnone => hne ?_) hne
    rw [h₂.handles, hnone]
    simp
  · obtain ⟨t₁, ht₁, hhandle₂, hmonitor₂⟩ := h₂.dataset m t₂ ht₂
    obtain ⟨t, ht, hhandle₁, hmonitor₁⟩ := h₁.dataset m t₁ ht₁
    refine ⟨t, ht, hhandle₂.trans hhandle₁, fun d => ?_⟩
    rw [hmonitor₂, hmonitor₁, forall_mem_singleton, forall_mem_cons,
      forall₂_congr fun y hy => not_congr (hkept m y hy)]
    tauto
  · exact h₂.rest.trans (by rw [h₁.rest])

theorem releaseAll_released (l : List ℕ) (hl : l.Nodup)
    (hin : ∀ y ∈ l, s.handles.get y ≠ none) :
    ∃ s', Released s s' c l ∧
      s.releaseAll c l = { s' with customers := update s'.customers c [] } := by
  induction l generalizing s with
  | nil =>
    refine ⟨s, ⟨by simp, fun _ hy _ => hy, fun m t ht => ⟨t, ht, rfl, by simp⟩, rfl, rfl⟩, rfl⟩
  | cons x l ih =>
    obtain ⟨hx, hl⟩ := nodup_cons.mp hl
    obtain ⟨info, hinfo⟩ := Option.ne_none_iff_exists'.mp (hin x mem_cons_self)
    obtain ⟨s₁, hrun, h₁⟩ := releasehandle_released (c := c) hinfo
    have hin₁ : ∀ y ∈ l, s₁.handles.get y ≠ none := by
      intro y hy
      have hne : y ≠ x := fun heq => hx (heq ▸ hy)
      rw [h₁.handles, if_neg (by simpa using hne)]
      exact hin y (mem_cons_of_mem x hy)
    obtain ⟨s₂, h₂, hrest⟩ := ih hl hin₁
    refine ⟨s₂, h₁.trans h₂ hx, ?_⟩
    rw [Datasheet.releaseAll, hrun]
    exact hrest

theorem SheetInv.client_drop {handles : Table ℕ SheetHandle} {cache : Finset ℕ} {l : List ℕ}
    (h : SheetInv owner s) (hf : ClientFrame s s' c) (hh : HandlesFrame s s')
    (hsame : s'.handles = s.handles) (hc : ClientInv owner s' c)
    (huses : ∀ m y, Kept s m y → (Uses s c m y ↔ Uses s' c m y ∨ y ∈ l))
    (hgiven : ∀ m y, Kept s m y → Uses s' c m y → y ∉ l)
    (hhandles : ∀ y, handles.get y =
      if y ∈ l then (s.handles.get y).bind released else s.handles.get y)
    (hcache : ∀ y ∈ s.cache, handles.get y ≠ none → y ∈ cache) :
    SheetInv owner { s' with handles := handles, cache := cache } := by
  have hclient : ∀ d, ClientInv owner s' d := by
    intro d
    by_cases hd : d = c
    · exact hd ▸ hc
    · exact hf.client hd (h.client d) fun m y _ hkept => (hh.kept m y).mpr hkept
  refine SheetInv.drop (h.builder.frame hf hh) hclient ?_ ?_ ?_ ?_ (l := l)
  · intro y info hinfo
    rw [hsame] at hinfo
    have hkept : Kept s info.name y := ⟨info, hinfo, rfl⟩
    have hholders := hf.holders (n := info.name) (x := y) h.client hclient
    have hiff := huses _ y hkept
    have hnot := hgiven _ y hkept
    rw [h.refs y info hinfo]
    by_cases hl : y ∈ l
    · have hno : ¬Uses s' c info.name y := fun hu => hnot hu hl
      rw [if_neg hno, if_pos (hiff.mpr (inr hl))] at hholders
      rw [if_pos hl]
      omega
    · simp only [hiff, hl, or_false] at hholders
      rw [if_neg hl]
      omega
  · intro y info hinfo
    rw [hsame] at hinfo
    exact h.unanswered y info hinfo
  · rw [hsame]
    exact hhandles
  · rw [hh.cache]
    exact hcache

theorem SheetInv.release {v : ℕ} (h : SheetInv owner s) (hx : s.sheets c n = .moving x v) :
    SheetInv owner (s.release c n x v) := by
  have hc := h.client c
  obtain ⟨hne, hcur⟩ := hc.moving n x v hx
  have hmem : ∀ y, y ∈ (s.sheets c n).handles ↔ y = x ∨ y = v := by
    rw [hx]
    simp [ClientSheet.handles]
  have hact : Active s c n := ne_nil_of_mem ((hmem x).mpr (inl rfl))
  have hkept := hc.held n x ((hmem x).mpr (inl rfl))
  have honly : ∀ m, Kept s m x → m = n := fun m hm => hkept.name_eq hm
  obtain ⟨info, hinfo, hname⟩ := hkept
  set s₀ := (s.setSheet c n (.reading v)).eraseCustomer c x with hs₀
  obtain ⟨s', hrun, hrel⟩ := releasehandle_released (s := s₀) (c := c) hinfo
  have hrelease : s.release c n x v = s' := by
    change (s₀.releasehandle c x).getD s₀ = s'
    rw [hrun]
    rfl
  rw [hrelease]
  set s₁ : Datasheet := { s' with handles := s.handles, cache := s.cache } with hs₁
  have hsheets : ∀ d m, s₁.sheets d m = if d = c ∧ m = n then .reading v else s.sheets d m := by
    intro d m
    rw [hs₁, hrel.rest]
    rfl
  have hsheets' : ∀ m, s₁.sheets c m = if m = n then .reading v else s.sheets c m := by
    intro m
    rw [hsheets]
    simp only [true_and]
  have hcustomers : ∀ d, s₁.customers d =
      if d = c then (s.customers d).erase x else s.customers d := by
    intro d
    rw [hs₁, hrel.rest]
    simp only [hs₀, eraseCustomer, setSheet, update_apply]
    grind
  have hmonitor : ∀ m t', s₁.dataset.get m = some t' → ∃ t, s.dataset.get m = some t ∧
      t'.handle = t.handle ∧ ∀ d, (d ∈ t'.monitor ↔ d ∈ t.monitor) := by
    intro m t' ht'
    obtain ⟨t, ht, hhandle, hiff⟩ := hrel.dataset m t' ht'
    refine ⟨t, ht, hhandle, fun d => (hiff d).trans (and_iff_left_of_imp ?_)⟩
    rintro hd rfl y hy hkept
    obtain rfl := mem_singleton.mp hy
    have hwait := (hc.monitor m t ht).mp hd
    rw [honly m hkept, hx] at hwait
    cases hwait
  have hclients : s₁.clients = s.clients ∧ s₁.closed = s.closed ∧ s₁.builder = s.builder ∧
      s₁.collects = s.collects := by
    rw [hs₁, hrel.rest]
    exact ⟨rfl, rfl, rfl, rfl⟩
  have hf : ClientFrame s s₁ c := by
    refine ⟨hrel.current, hclients.2.2.1, fun d hd => ?_, fun d hd => ?_, ?_, fun d _ => ?_⟩
    · funext m
      rw [hsheets, if_neg fun heq => hd heq.1]
    · rw [hcustomers, if_neg hd]
    · intro d _ m t t' ht ht'
      obtain ⟨t₀, ht₀, -, hiff⟩ := hmonitor m t' ht'
      obtain rfl := Option.some.inj (ht.symm.trans ht₀)
      exact hiff d
    · rw [hclients.1, hclients.2.1]
      exact ⟨Iff.rfl, Iff.rfl⟩
  have hmem' : ∀ m y, Kept s m y →
      (y ∈ (s₁.sheets c m).handles ↔ y ∈ (s.sheets c m).handles ∧ y ≠ x) := by
    intro m y hkept
    rw [hsheets']
    split
    · next hm =>
      simp only [ClientSheet.handles, mem_singleton]
      grind
    · next hm =>
      refine (and_iff_left_of_imp fun _ heq => hm ?_).symm
      exact honly m (heq ▸ hkept)
  have hin : ∀ m y, y ∈ (s₁.sheets c m).handles → y ∈ (s.sheets c m).handles := by
    intro m y hy
    rw [hsheets'] at hy
    split at hy
    · next hm =>
      rw [hm, hmem]
      exact inr (mem_singleton.mp hy)
    · exact hy
  have hact' : ∀ m, Active s₁ c m ↔ Active s c m := by
    intro m
    rw [Active, hsheets']
    split
    · next hm => exact iff_of_true (cons_ne_nil _ _) (hm ▸ hact)
    · exact Iff.rfl
  have hcurrent : s₁.current = s.current := hrel.current
  have hc' : ClientInv owner s₁ c := by
    constructor
    · exact fun m y hy => hc.held m y (hin m y hy)
    · intro hne y
      rw [hcustomers, if_pos rfl, (hc.once hne).mem_erase_iff, hc.customers hne]
      constructor
      · rintro ⟨hyx, m, hm⟩
        exact ⟨m, (hmem' m y (hc.held m y hm)).mpr ⟨hm, hyx⟩⟩
      · rintro ⟨m, hm⟩
        obtain ⟨hm', hyx⟩ := (hmem' m y (hc.held m y (hin m y hm))).mp hm
        exact ⟨hyx, m, hm'⟩
    · intro hne
      rw [hcustomers, if_pos rfl]
      exact (hc.once hne).erase x
    · intro m t' ht'
      obtain ⟨t, ht, hhandle, hiff⟩ := hmonitor m t' ht'
      rw [hiff, hc.monitor m t ht, hsheets', hhandle]
      split
      · next hm => rw [hm, hx]; exact iff_of_false (by rintro ⟨⟩) (by rintro ⟨⟩)
      · exact Iff.rfl
    · intro m y hy
      rw [hsheets'] at hy
      rw [hcurrent]
      split at hy
      · cases hy
      · exact hc.waiting m y hy
    · intro m y y' hy
      rw [hsheets'] at hy
      rw [hcurrent]
      split at hy
      · cases hy
      · exact hc.moving m y y' hy
    · intro m hm
      rw [hclients.1, hclients.2.1]
      exact hc.clients m ((hact' m).mp hm)
  have huses : ∀ m y, Kept s m y → (Uses s c m y ↔ Uses s₁ c m y ∨ y ∈ [x]) := by
    intro m y hkept
    rw [Uses, Uses, hmem' m y hkept, hact', hcurrent, mem_singleton]
    by_cases hyx : y = x
    · obtain rfl := hyx
      obtain rfl := honly m hkept
      simp [hmem]
    · simp [hyx]
  have hgiven : ∀ m y, Kept s m y → Uses s₁ c m y → y ∉ [x] := by
    rintro m y hkept hu hy
    obtain rfl := mem_singleton.mp hy
    rw [honly m hkept] at hu hkept
    rcases hu with hu | ⟨hu, -⟩
    · exact ((hmem' n y hkept).mp hu).2 rfl
    · rw [hcurrent] at hu
      exact hcur hu
  have hend : SheetInv owner { s₁ with handles := s'.handles, cache := s'.cache } :=
    h.client_drop hf ⟨fun _ _ => Iff.rfl, fun _ _ => Iff.rfl, rfl, hclients.2.2.2⟩ rfl hc'
      huses hgiven hrel.handles hrel.cache
  exact hend

theorem SheetInv.mem_keys (h : SheetInv owner s) (hact : Active s c n) : n ∈ s.dataset.keys := by
  obtain ⟨y, hy⟩ := exists_mem_of_ne_nil _ hact
  have hnamed := h.builder.named n y ((h.client c).held n y hy)
  rw [← AList.mem_keys, ← AList.lookup_isSome, ← Option.ne_none_iff_isSome]
  intro hnone
  refine hnamed ?_
  rw [Datasheet.current, Table.get, hnone]
  rfl

theorem SheetInv.close (h : SheetInv owner s) (hc₀ : c ≠ owner)
    (hbehind : ∀ n ∈ s.dataset.keys, CaughtUp s c n) : SheetInv owner (s.close c) := by
  have hc := h.client c
  have hin : ∀ y ∈ s.customers c, s.handles.get y ≠ none := by
    intro y hy
    obtain ⟨m, hm⟩ := (hc.customers hc₀ y).mp hy
    obtain ⟨info, hinfo, -⟩ := hc.held m y hm
    exact Option.ne_none_iff_exists'.mpr ⟨info, hinfo⟩
  obtain ⟨s', hrel, hrun⟩ := releaseAll_released (c := c) (s.customers c) (hc.once hc₀) hin
  set s₁ : Datasheet := { s' with
    handles := s.handles
    cache := s.cache
    customers := update s'.customers c []
    sheets := update s'.sheets c fun _ => .unused
    closed := insert c s'.closed } with hs₁
  have hsheets : ∀ m, s₁.sheets c m = .unused := by
    simp [hs₁]
  have hcurrent : s₁.current = s.current := hrel.current
  have hrest : s'.sheets = s.sheets ∧ s'.customers = s.customers ∧ s'.clients = s.clients ∧
      s'.closed = s.closed ∧ s'.builder = s.builder ∧ s'.collects = s.collects := by
    rw [hrel.rest]
    exact ⟨rfl, rfl, rfl, rfl, rfl, rfl⟩
  obtain ⟨hrsheets, hrcustomers, hrclients, hrclosed, hrbuilder, hrcollects⟩ := hrest
  have hf : ClientFrame s s₁ c := by
    refine ⟨hcurrent, hrbuilder, fun d hd => ?_, fun d hd => ?_, ?_, fun d hd => ?_⟩
    · simp [hs₁, hrsheets, update_of_ne hd]
    · simp [hs₁, hrcustomers, update_of_ne hd]
    · intro d hd m t t' ht ht'
      obtain ⟨t₀, ht₀, -, hiff⟩ := hrel.dataset m t' ht'
      obtain rfl := Option.some.inj (ht.symm.trans ht₀)
      rw [hiff]
      exact and_iff_left fun heq => absurd heq hd
    · simp [hs₁, hrclients, hrclosed, hd]
  have hinactive : ∀ m, ¬Active s₁ c m := by
    intro m hact
    rw [Active, hsheets] at hact
    exact hact rfl
  have hc' : ClientInv owner s₁ c := by
    constructor
    · intro m y hy
      exact absurd (ne_nil_of_mem hy) (hinactive m)
    · intro _ y
      refine iff_of_false (by simp [hs₁]) ?_
      rintro ⟨m, hm⟩
      exact hinactive m (ne_nil_of_mem hm)
    · simp [hs₁]
    · intro m t' ht'
      obtain ⟨t, ht, -, hiff⟩ := hrel.dataset m t' ht'
      rw [hiff, hsheets]
      refine iff_of_false ?_ (by rintro ⟨⟩)
      rintro ⟨hmem, hnone⟩
      have hwait := (hc.monitor m t ht).mp hmem
      have hhandle : t.handle ∈ (s.sheets c m).handles := by
        rw [hwait]
        exact mem_singleton_self _
      exact hnone rfl _ ((hc.customers hc₀ _).mpr ⟨m, hhandle⟩) (hc.held m _ hhandle)
    · intro m y hy
      rw [hsheets] at hy
      cases hy
    · intro m y y' hy
      rw [hsheets] at hy
      cases hy
    · exact fun m hact => absurd hact (hinactive m)
  have huses : ∀ m y, Kept s m y → (Uses s c m y ↔ Uses s₁ c m y ∨ y ∈ s.customers c) := by
    intro m y hkept
    rw [or_iff_right fun hu => hinactive m hu.active, hc.customers hc₀]
    constructor
    · rintro (hmem | ⟨hcur, hact⟩)
      · exact ⟨m, hmem⟩
      · exact ⟨m, hbehind m (h.mem_keys hact) hact y hcur⟩
    · rintro ⟨m', hm'⟩
      rw [hkept.name_eq (hc.held m' y hm')] at hm'
      exact inl hm'
  have hend : SheetInv owner { s₁ with handles := s'.handles, cache := s'.cache } :=
    h.client_drop hf ⟨fun _ _ => Iff.rfl, fun _ _ => Iff.rfl, rfl, hrcollects⟩ rfl hc' huses
      (fun m _ _ hu => absurd hu.active (hinactive m)) hrel.handles hrel.cache
  have hclose : s.close c = { s₁ with handles := s'.handles, cache := s'.cache } := by
    unfold Datasheet.close
    rw [hrun]
  rw [hclose]
  exact hend

theorem SheetInv.finish {p : ℕ} (h : SheetInv owner s) (hb : s.builder.get n = some ⟨x, some p⟩)
    (hwait : ∀ t ∈ s.dataset.get n, owner ∉ t.monitor) : SheetInv owner (s.finish owner n x p) := by
  have hkept := h.builder.version n _ hb
  have honly : ∀ m, Kept s m x → m = n := fun m hm => hkept.name_eq hm
  have hcur := h.builder.newest n _ hb
  have honlyp : ∀ m, Kept s m p → m = n := fun m hm => (h.builder.current n p hcur).name_eq hm
  have hne : p ≠ x := fun heq => h.builder.newer n _ hb (congrArg some heq)
  have hcache := h.builder.cache n x hkept
  obtain ⟨info, hinfo, hname⟩ := hkept
  set s₀ := s.eraseCustomer owner x with hs₀
  obtain ⟨s', hrun, hrel⟩ := releasehandle_released (s := s₀) (c := owner) hinfo
  have hfinish : s.finish owner n x p = { s' with
      builder := s'.builder.put n (some ⟨p, none⟩)
      collects := insert p s'.collects } := by
    unfold Datasheet.finish
    simp only [hcache, if_true]
    rw [← hs₀, hrun, Option.getD_some]
  rw [hfinish]
  set s₁ : Datasheet := { s' with
      handles := s.handles
      cache := s.cache
      builder := s'.builder.put n (some ⟨p, none⟩)
      collects := insert p s'.collects } with hs₁
  have hrest : s'.sheets = s.sheets ∧ (∀ d, d ≠ owner → s'.customers d = s.customers d) ∧
      s'.clients = s.clients ∧ s'.closed = s.closed ∧ s'.builder = s.builder ∧
      s'.collects = s.collects := by
    rw [hrel.rest]
    exact ⟨rfl, fun d hd => update_of_ne hd _ _, rfl, rfl, rfl, rfl⟩
  obtain ⟨hrsheets, hrcustomers, hrclients, hrclosed, hrbuilder, hrcollects⟩ := hrest
  have hcurrent : s₁.current = s.current := hrel.current
  have hcurn : s.current n = some p := hcur
  have hbuilder : ∀ m, s₁.builder.get m = if m = n then some ⟨p, none⟩ else s.builder.get m := by
    intro m
    simp only [hs₁, hrbuilder, Table.get_put]
  have hclient : ∀ d, ClientInv owner s₁ d := by
    intro d
    refine (h.client d).frame hcurrent (by rw [← hrsheets]) (hrcustomers d) ?_
      (by rw [← hrclients, ← hrclosed]; exact ⟨Iff.rfl, Iff.rfl⟩) fun _ _ _ hy => hy
    intro m t t' ht ht'
    obtain ⟨t₀, ht₀, -, hiff⟩ := hrel.dataset m t' ht'
    obtain rfl := Option.some.inj (ht.symm.trans ht₀)
    refine (hiff d).trans (and_iff_left_of_imp ?_)
    rintro hd rfl y hy hkept
    obtain rfl := mem_singleton.mp hy
    rw [honly m hkept] at ht
    exact hwait t ht hd
  have hbuilderInv : BuilderInv s₁ := by
    have hb' := h.builder
    constructor
    · rw [hcurrent]
      exact hb'.current
    · intro m b hm
      rw [hbuilder] at hm
      split at hm
      · next heq =>
        cases hm
        exact heq ▸ hb'.current n p hcurn
      · exact hb'.version m b hm
    · rw [hcurrent]
      exact hb'.named
    · intro m
      rw [hbuilder, hcurrent]
      split
      · next heq => simp [heq, hcurn]
      · exact hb'.made m
    · intro m b hm
      rw [hbuilder] at hm
      rw [hcurrent]
      split at hm
      · next heq =>
        cases hm
        exact heq ▸ hcurn
      · exact hb'.newest m b hm
    · intro m b hm
      rw [hbuilder] at hm
      split at hm
      · cases hm
        nofun
      · exact hb'.newer m b hm
    · exact hb'.cache
    · intro y hy
      simp only [hs₁, hrcollects, Finset.mem_insert] at hy
      rcases hy with rfl | hy
      · exact ⟨n, (hb'.unsent n _ y hb rfl).1⟩
      · exact hb'.collects y hy
    · intro m y hy
      simp only [hs₁, hrcollects, Finset.mem_insert]
      rcases hb'.asked m y hy with hin | ⟨b, hm, hans⟩
      · exact inl (inr hin)
      · by_cases heq : m = n
        · rw [heq, hb] at hm
          cases hm
          exact inl (inl (Option.some.inj hans).symm)
        · refine inr ⟨b, ?_, hans⟩
          exact (hbuilder m).trans ((if_neg heq).trans hm)
    · intro m b y hm hans
      rw [hbuilder] at hm
      split at hm
      · cases hm
        nomatch hans
      · next heq =>
        obtain ⟨hun, hnot⟩ := hb'.unsent m b y hm hans
        refine ⟨hun, ?_⟩
        simp only [hs₁, hrcollects, Finset.mem_insert]
        rintro (rfl | hin)
        · exact heq (honlyp m ⟨_, hun.choose_spec.1, hun.choose_spec.2.1⟩)
        · exact hnot hin
  have hholds : ∀ m y, BuilderHolds s m y ↔ BuilderHolds s₁ m y ∨ m = n ∧ y = x := by
    intro m y
    rw [BuilderHolds, BuilderHolds, hcurrent, hbuilder]
    split
    · next heq =>
      rw [heq, hcurn, hb]
      simp [eq_comm]
    · next heq => simp [heq]
  have hgone : ¬BuilderHolds s₁ n x := by
    rw [BuilderHolds, hcurrent, hbuilder, if_pos rfl, hcurn]
    simp [hne]
  have hend : SheetInv owner { s₁ with handles := s'.handles, cache := s'.cache } := by
    refine SheetInv.drop hbuilderInv hclient ?_ h.unanswered hrel.handles hrel.cache (l := [x])
    intro y info' hinfo'
    have hmove : holders s info'.name y + (if BuilderHolds s₁ info'.name y then 1 else 0) +
        (if Uses s₁ 0 info'.name y then 1 else 0) =
      holders s₁ info'.name y + (if BuilderHolds s info'.name y then 1 else 0) +
        (if Uses s 0 info'.name y then 1 else 0) := holders_move 0
      (fun d hd => ((h.client d).clients _ hd).1) (fun d hd => ((hclient d).clients _ hd).1)
      (fun d _ => by rw [Uses, Uses, Active, Active, hcurrent, hs₁, hrsheets])
    have huses : Uses s₁ 0 info'.name y ↔ Uses s 0 info'.name y := by
      rw [Uses, Uses, Active, Active, hcurrent, hs₁, hrsheets]
    rw [h.refs y info' hinfo']
    simp only [huses, mem_singleton] at hmove ⊢
    by_cases hyx : y = x
    · have hm : info'.name = n := honly _ ⟨info', hyx ▸ hinfo', rfl⟩
      rw [hm, hyx, if_neg hgone, if_pos ((hholds n x).mpr (inr ⟨rfl, rfl⟩))] at hmove
      rw [hm, hyx, if_pos rfl]
      omega
    · have hiff : BuilderHolds s₁ info'.name y ↔ BuilderHolds s info'.name y := by
        rw [hholds]
        simp [hyx]
      simp only [hiff] at hmove
      omega
  exact hend

end Skynet.Analysis
