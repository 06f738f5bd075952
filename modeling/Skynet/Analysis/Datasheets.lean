import Skynet.Library.ThreadSum
import Skynet.Model.Datasheet

/-!
# Datasheets and who holds them

A handle is held by the builder, if it is the current version or the one before and not released
yet, and by the clients that use it or are about to.  Every client that has a name is about to use
its current version; the count of a new version is that of the version before for this reason.
-/

namespace Skynet.Analysis

open Library Model Datasheet Option Finset Function

variable {s s' : Datasheet} {owner c : ℕ} {n : Bytes} {x : ℕ}

/-! ## Holders -/

def Active (s : Datasheet) (c : ℕ) (name : Bytes) : Prop := (s.sheets c name).handles ≠ []

/-- The client uses the handle, or is about to: every client that has the name is about to use
the current version. -/
def Uses (s : Datasheet) (c : ℕ) (name : Bytes) (h : ℕ) : Prop :=
  h ∈ (s.sheets c name).handles ∨ s.current name = some h ∧ Active s c name

def BuilderHolds (s : Datasheet) (name : Bytes) (h : ℕ) : Prop :=
  s.current name = some h ∨ (s.builder.get name).map (·.version) = some h

instance (s : Datasheet) (c : ℕ) (name : Bytes) : Decidable (Active s c name) :=
  inferInstanceAs (Decidable (_ ≠ _))

instance (s : Datasheet) (c : ℕ) (name : Bytes) (h : ℕ) : Decidable (Uses s c name h) :=
  inferInstanceAs (Decidable (_ ∨ _ ∧ _))

instance (s : Datasheet) (name : Bytes) (h : ℕ) : Decidable (BuilderHolds s name h) :=
  inferInstanceAs (Decidable (_ ∨ _))

def holders (s : Datasheet) (name : Bytes) (h : ℕ) : ℕ :=
  (if BuilderHolds s name h then 1 else 0) + (s.clients.filter (Uses s · name h)).card

/-- **What the service promises** in a state: the counts are those of the holders, what somebody
holds is not collected, and what nobody holds is collected as soon as the builder's request for
it is there. -/
structure SheetsCounted (s : Datasheet) : Prop where
  refs : ∀ h info, s.handles.get h = some info → info.ref = holders s info.name h
  kept : ∀ name h, holders s name h ≠ 0 → ∃ info, s.handles.get h = some info ∧ info.name = name
  gone : ∀ h info, s.handles.get h = some info → holders s info.name h = 0 → h ∈ s.collects

def CaughtUp (s : Datasheet) (c : ℕ) (name : Bytes) : Prop :=
  Active s c name → ∀ h ∈ s.current name, h ∈ (s.sheets c name).handles

instance (s : Datasheet) (c : ℕ) (name : Bytes) : Decidable (CaughtUp s c name) :=
  inferInstanceAs (Decidable (_ → ∀ h ∈ s.current name, _))

/-- No client is behind when a new version comes or when it exits, and the service of the builder
does not itself wait for changes of the name when it releases a version. -/
def InTime (owner : ℕ) (s : Datasheet) : DatasheetAction → Prop
  | .update name _ => ∀ c ∈ s.clients, CaughtUp s c name
  | .close c => ∀ name ∈ s.dataset.keys, CaughtUp s c name
  | .finish name => ∀ t ∈ s.dataset.get name, owner ∉ t.monitor
  | _ => True

instance (owner : ℕ) (s : Datasheet) : (a : DatasheetAction) → Decidable (InTime owner s a)
  | .update name _ => inferInstanceAs (Decidable (∀ c ∈ s.clients, CaughtUp s c name))
  | .close c => inferInstanceAs (Decidable (∀ name ∈ s.dataset.keys, CaughtUp s c name))
  | .finish name => inferInstanceAs (Decidable (∀ t ∈ s.dataset.get name, owner ∉ t.monitor))
  | .collect _ => inferInstanceAs (Decidable True)
  | .query .. => inferInstanceAs (Decidable True)
  | .monitor .. => inferInstanceAs (Decidable True)
  | .release .. => inferInstanceAs (Decidable True)

/-! ## The tables agree -/

def Kept (s : Datasheet) (n : Bytes) (h : ℕ) : Prop :=
  ∃ info, s.handles.get h = some info ∧ info.name = n

def Unasked (s : Datasheet) (n : Bytes) (h : ℕ) : Prop :=
  ∃ info, s.handles.get h = some info ∧ info.name = n ∧ info.collect = false

/-- The tables of the service agree with those of the builder. -/
structure BuilderInv (s : Datasheet) : Prop where
  current : ∀ n h, s.current n = some h → Kept s n h
  version : ∀ n b, s.builder.get n = some b → Kept s n b.version
  named : ∀ n h, Kept s n h → s.current n ≠ none
  made : ∀ n, s.builder.get n = none ↔ s.current n = none
  newest : ∀ n b, s.builder.get n = some b → s.current n = some (b.answered.getD b.version)
  newer : ∀ n b, s.builder.get n = some b → b.answered ≠ some b.version
  cache : ∀ n h, Kept s n h → h ∈ s.cache
  collects : ∀ h ∈ s.collects, ∃ n, Unasked s n h
  asked : ∀ n h, Unasked s n h →
    h ∈ s.collects ∨ ∃ b, s.builder.get n = some b ∧ b.answered = some h
  unsent : ∀ n b h, s.builder.get n = some b → b.answered = some h → Unasked s n h ∧ h ∉ s.collects

structure ClientInv (owner : ℕ) (s : Datasheet) (c : ℕ) : Prop where
  held : ∀ n, ∀ h ∈ (s.sheets c n).handles, Kept s n h
  customers : c ≠ owner → ∀ h, h ∈ s.customers c ↔ ∃ n, h ∈ (s.sheets c n).handles
  once : c ≠ owner → (s.customers c).Nodup
  monitor : ∀ n t, s.dataset.get n = some t → (c ∈ t.monitor ↔ s.sheets c n = .waiting t.handle)
  waiting : ∀ n h, s.sheets c n = .waiting h → s.current n = some h
  moving : ∀ n h h', s.sheets c n = .moving h h' → h ≠ h' ∧ s.current n ≠ some h
  clients : ∀ n, Active s c n → c ∈ s.clients ∧ c ∉ s.closed

structure SheetInv (owner : ℕ) (s : Datasheet) : Prop where
  builder : BuilderInv s
  client : ∀ c, ClientInv owner s c
  refs : ∀ h info, s.handles.get h = some info → info.ref = holders s info.name h
  unanswered : ∀ h info, s.handles.get h = some info → info.collect = true → info.ref ≠ 0

theorem sheetInv_init : SheetInv owner init := by
  refine ⟨?_, fun c => ?_, ?_, ?_⟩
  · constructor <;> simp [init, current, Kept, Unasked]
  · constructor <;> simp [init, Active, ClientSheet.handles]
  · simp [init]
  · simp [init]

theorem Uses.active (h : Uses s c n x) : Active s c n := by
  rcases h with hmem | ⟨-, hact⟩
  · exact List.ne_nil_of_mem hmem
  · exact hact

theorem SheetInv.kept (h : SheetInv owner s) (hx : holders s n x ≠ 0) : Kept s n x := by
  by_cases hb : BuilderHolds s n x
  · rcases hb with hcur | hver
    · exact h.builder.current n x hcur
    · obtain ⟨b, hb, rfl⟩ := map_eq_some_iff.mp hver
      exact h.builder.version n b hb
  · rw [holders, if_neg hb, zero_add, card_ne_zero] at hx
    obtain ⟨c, hc⟩ := hx
    rcases (mem_filter.mp hc).2 with hmem | ⟨hcur, -⟩
    · exact (h.client c).held n x hmem
    · exact h.builder.current n x hcur

theorem Kept.name_eq {m : Bytes} (h : Kept s n x) (h' : Kept s m x) : m = n := by
  obtain ⟨info, hinfo, rfl⟩ := h
  obtain ⟨info', hinfo', rfl⟩ := h'
  rw [some.inj (hinfo.symm.trans hinfo')]

theorem holders_of_builder (h : BuilderHolds s n x) : holders s n x ≠ 0 := by
  rw [holders, if_pos h]
  omega

theorem holders_of_client (hc : c ∈ s.clients) (h : Uses s c n x) : holders s n x ≠ 0 := by
  have hmem : c ∈ s.clients.filter (Uses s · n x) := mem_filter.mpr ⟨hc, h⟩
  have hpos := card_pos.mpr ⟨c, hmem⟩
  rw [holders]
  omega

theorem SheetInv.counted (h : SheetInv owner s) : SheetsCounted s := by
  refine ⟨h.refs, fun n x hx => h.kept hx, fun x info hx hzero => ?_⟩
  have hcollect : info.collect = false := by
    rw [← Bool.not_eq_true]
    intro htrue
    have href := h.refs x info hx
    rw [hzero] at href
    exact h.unanswered x info hx htrue href
  rcases h.builder.asked _ x ⟨info, hx, rfl, hcollect⟩ with hin | ⟨b, hb, hans⟩
  · exact hin
  · have hcur := h.builder.newest _ b hb
    rw [hans] at hcur
    exact absurd hzero (holders_of_builder (Or.inl hcur))

theorem holders_move (c : ℕ) (hs : ∀ d, Active s d n → d ∈ s.clients)
    (hs' : ∀ d, Active s' d n → d ∈ s'.clients)
    (hother : ∀ d, d ≠ c → (Uses s d n x ↔ Uses s' d n x)) :
    holders s n x + (if BuilderHolds s' n x then 1 else 0) + (if Uses s' c n x then 1 else 0) =
      holders s' n x + (if BuilderHolds s n x then 1 else 0) + (if Uses s c n x then 1 else 0) := by
  have hmove : (s.clients.filter (Uses s · n x)).card +
        (if c ∈ s'.clients ∧ Uses s' c n x then 1 else 0) =
      (s'.clients.filter (Uses s' · n x)).card + (if c ∈ s.clients ∧ Uses s c n x then 1 else 0) :=
    card_filter_move c fun d hd =>
      ⟨fun ⟨_, hu⟩ => ⟨hs' d ((hother d hd).mp hu).active, (hother d hd).mp hu⟩,
        fun ⟨_, hu⟩ => ⟨hs d ((hother d hd).mpr hu).active, (hother d hd).mpr hu⟩⟩
  have hin : (c ∈ s.clients ∧ Uses s c n x) ↔ Uses s c n x :=
    and_iff_right_of_imp fun hu => hs c hu.active
  have hin' : (c ∈ s'.clients ∧ Uses s' c n x) ↔ Uses s' c n x :=
    and_iff_right_of_imp fun hu => hs' c hu.active
  simp only [hin, hin'] at hmove
  unfold holders
  omega

/-! ## Steps of one client -/

structure ClientFrame (s s' : Datasheet) (c : ℕ) : Prop where
  current : s'.current = s.current
  builder : s'.builder = s.builder
  sheets : ∀ d, d ≠ c → s'.sheets d = s.sheets d
  customers : ∀ d, d ≠ c → s'.customers d = s.customers d
  monitor : ∀ d, d ≠ c → ∀ n t t', s.dataset.get n = some t → s'.dataset.get n = some t' →
    (d ∈ t'.monitor ↔ d ∈ t.monitor)
  clients : ∀ d, d ≠ c → (d ∈ s'.clients ↔ d ∈ s.clients) ∧ (d ∈ s'.closed ↔ d ∈ s.closed)

theorem current_eq {t : SheetVersion} (ht : s.dataset.get n = some t) :
    s.current n = some t.handle := by
  rw [Datasheet.current, ht]
  rfl

theorem exists_of_current (h : s.current n = some x) :
    ∃ t, s.dataset.get n = some t ∧ t.handle = x :=
  map_eq_some_iff.mp h

theorem ClientInv.frame (h : ClientInv owner s c) (hcurrent : s'.current = s.current)
    (hsheets : s'.sheets c = s.sheets c)
    (hcustomers : c ≠ owner → s'.customers c = s.customers c)
    (hmonitor : ∀ n t t', s.dataset.get n = some t → s'.dataset.get n = some t' →
      (c ∈ t'.monitor ↔ c ∈ t.monitor))
    (hclients : (c ∈ s'.clients ↔ c ∈ s.clients) ∧ (c ∈ s'.closed ↔ c ∈ s.closed))
    (hkept : ∀ n, ∀ y ∈ (s.sheets c n).handles, Kept s n y → Kept s' n y) :
    ClientInv owner s' c := by
  constructor
  · intro m y hy
    rw [hsheets] at hy
    exact hkept m y hy (h.held m y hy)
  · intro hne y
    rw [hcustomers hne, hsheets]
    exact h.customers hne y
  · intro hne
    rw [hcustomers hne]
    exact h.once hne
  · intro m t' ht'
    obtain ⟨t, ht, hhandle⟩ := exists_of_current ((congrFun hcurrent m).symm.trans (current_eq ht'))
    rw [hmonitor m t t' ht ht', h.monitor m t ht, hsheets, hhandle]
  · intro m y hy
    rw [hsheets] at hy
    rw [hcurrent]
    exact h.waiting m y hy
  · intro m y y' hy
    rw [hsheets] at hy
    rw [hcurrent]
    exact h.moving m y y' hy
  · intro m hact
    rw [Active, hsheets] at hact
    rw [hclients.1, hclients.2]
    exact h.clients m hact

theorem ClientFrame.client {d : ℕ} (hf : ClientFrame s s' c) (hd : d ≠ c) (h : ClientInv owner s d)
    (hkept : ∀ n, ∀ y ∈ (s.sheets d n).handles, Kept s n y → Kept s' n y) : ClientInv owner s' d :=
  h.frame hf.current (hf.sheets d hd) (fun _ => hf.customers d hd) (hf.monitor d hd)
    (hf.clients d hd) hkept

theorem ClientFrame.uses {d : ℕ} (hf : ClientFrame s s' c) (hd : d ≠ c) :
    Uses s d n x ↔ Uses s' d n x := by
  rw [Uses, Uses, Active, Active, hf.sheets d hd, hf.current]

theorem ClientFrame.builderHolds (hf : ClientFrame s s' c) :
    BuilderHolds s' n x ↔ BuilderHolds s n x := by
  rw [BuilderHolds, BuilderHolds, hf.current, hf.builder]

theorem ClientFrame.holders (hf : ClientFrame s s' c) (h : ∀ d, ClientInv owner s d)
    (h' : ∀ d, ClientInv owner s' d) :
    holders s n x + (if Uses s' c n x then 1 else 0) =
      holders s' n x + (if Uses s c n x then 1 else 0) := by
  have hmove := holders_move (x := x) c (fun d hd => ((h d).clients n hd).1)
    (fun d hd => ((h' d).clients n hd).1) (fun d hd => hf.uses hd)
  simp only [hf.builderHolds] at hmove
  omega

structure HandlesFrame (s s' : Datasheet) : Prop where
  kept : ∀ n h, Kept s' n h ↔ Kept s n h
  unasked : ∀ n h, Unasked s' n h ↔ Unasked s n h
  cache : s'.cache = s.cache
  collects : s'.collects = s.collects

theorem BuilderInv.frame (h : BuilderInv s) (hf : ClientFrame s s' c) (hh : HandlesFrame s s') :
    BuilderInv s' := by
  obtain ⟨hkept, hunasked, hcache, hcollects⟩ := hh
  constructor
  all_goals simp only [hkept, hunasked, hcache, hcollects, hf.current, hf.builder]
  · exact h.current
  · exact h.version
  · exact h.named
  · exact h.made
  · exact h.newest
  · exact h.newer
  · exact h.cache
  · exact h.collects
  · exact h.asked
  · exact h.unsent

/-- The step of a client that leaves the handles, and the counts that it changes with the
holders. -/
theorem SheetInv.client_step (h : SheetInv owner s) (hf : ClientFrame s s' c)
    (hh : HandlesFrame s s') (hc : ClientInv owner s' c)
    (hrefs : ∀ y info', s'.handles.get y = some info' → ∃ info, s.handles.get y = some info ∧
      info.name = info'.name ∧ (info'.collect = true → info.collect = true) ∧
      info'.ref + (if Uses s c info.name y then 1 else 0) =
        info.ref + (if Uses s' c info.name y then 1 else 0) ∧ info.ref ≤ info'.ref) :
    SheetInv owner s' := by
  have hclient : ∀ d, ClientInv owner s' d := by
    intro d
    by_cases hd : d = c
    · exact hd ▸ hc
    · exact hf.client hd (h.client d) fun m y _ hkept => (hh.kept m y).mpr hkept
  refine ⟨h.builder.frame hf hh, hclient, fun y info' hy => ?_, fun y info' hy htrue => ?_⟩
  · obtain ⟨info, hinfo, hname, -, hcount, -⟩ := hrefs y info' hy
    have hholders := hf.holders (n := info.name) (x := y) h.client hclient
    have href := h.refs y info hinfo
    rw [← hname]
    by_cases hu : Uses s c info.name y
    · by_cases hu' : Uses s' c info.name y
      · simp only [hu, hu', if_true] at hcount hholders
        omega
      · simp only [hu, hu', if_true, if_false] at hcount hholders
        omega
    · by_cases hu' : Uses s' c info.name y
      · simp only [hu, hu', if_true, if_false] at hcount hholders
        omega
      · simp only [hu, hu', if_false] at hcount hholders
        omega
  · obtain ⟨info, hinfo, hname, hcollect, -, hle⟩ := hrefs y info' hy
    have href := h.refs y info hinfo
    have hne := h.unanswered y info hinfo (hcollect htrue)
    omega

theorem sheets_setSheet (s : Datasheet) (c : ℕ) (n : Bytes) (sheet : ClientSheet) (d : ℕ)
    (m : Bytes) : (s.setSheet c n sheet).sheets d m =
      if d = c ∧ m = n then sheet else s.sheets d m := rfl

theorem SheetInv.fail (h : SheetInv owner s) (hx : s.sheets c n = .unused) :
    SheetInv owner (s.setSheet c n .failed) := by
  have hc := h.client c
  have hhandles : ∀ m, ((s.setSheet c n .failed).sheets c m).handles = (s.sheets c m).handles := by
    intro m
    rw [sheets_setSheet]
    split
    · next hm => rw [hm.2, hx]; rfl
    · rfl
  have hf : ClientFrame s (s.setSheet c n .failed) c := by
    constructor
    · rfl
    · rfl
    · intro d hd
      funext m
      rw [sheets_setSheet, if_neg fun heq => hd heq.1]
    · exact fun _ _ => rfl
    · intro d _ m t t' ht ht'
      rw [some.inj (ht.symm.trans ht')]
    · exact fun _ _ => ⟨Iff.rfl, Iff.rfl⟩
  refine h.client_step hf ⟨fun _ _ => Iff.rfl, fun _ _ => Iff.rfl, rfl, rfl⟩ ?_ ?_
  · constructor
    · intro m y hy
      rw [hhandles] at hy
      exact hc.held m y hy
    · simp only [hhandles]
      exact hc.customers
    · exact hc.once
    · intro m t ht
      rw [hc.monitor m t ht, sheets_setSheet]
      grind
    · intro m y hy
      rw [sheets_setSheet] at hy
      exact hc.waiting m y (by grind)
    · intro m y y' hy
      rw [sheets_setSheet] at hy
      exact hc.moving m y y' (by grind)
    · intro m hact
      rw [Active, hhandles] at hact
      exact hc.clients m hact
  · intro y info hy
    refine ⟨info, hy, rfl, id, ?_, le_rfl⟩
    have huses : Uses (s.setSheet c n .failed) c info.name y ↔ Uses s c info.name y := by
      rw [Uses, Uses, Active, Active, hhandles]
      exact Iff.rfl
    simp only [huses]

structure Joins (owner : ℕ) (s s' : Datasheet) (c : ℕ) (n : Bytes) (sheet : ClientSheet)
    (v : ℕ) : Prop where
  sheets : ∀ d m, s'.sheets d m = if d = c ∧ m = n then sheet else s.sheets d m
  handles : ∀ y, y ∈ sheet.handles ↔ y ∈ (s.sheets c n).handles ∨ y = v
  customers : c ≠ owner → s'.customers c = (s.customers c).insert v
  others : ∀ d, d ≠ c → s'.customers d = s.customers d
  current : s'.current = s.current
  builder : s'.builder = s.builder
  monitor : ∀ m t t', s.dataset.get m = some t → s'.dataset.get m = some t' →
    ∀ d, (d ∈ t'.monitor ↔ d ∈ t.monitor ∨ d = c ∧ m = n ∧ sheet = .waiting v)
  clients : s'.clients = insert c s.clients
  closed : s'.closed = s.closed

variable {sheet : ClientSheet}

theorem Joins.frame {v : ℕ} (hj : Joins owner s s' c n sheet v) : ClientFrame s s' c := by
  constructor
  · exact hj.current
  · exact hj.builder
  · intro d hd
    funext m
    rw [hj.sheets, if_neg fun heq => hd heq.1]
  · intro d hd
    exact hj.others d hd
  · intro d hd m t t' ht ht'
    rw [hj.monitor m t t' ht ht']
    exact or_iff_left fun heq => hd heq.1
  · intro d hd
    rw [hj.clients, hj.closed]
    exact ⟨mem_insert.trans (or_iff_right hd), Iff.rfl⟩

theorem ClientInv.join {v : ℕ} (h : ClientInv owner s c)
    (hj : Joins owner s s' c n sheet v) (hh : HandlesFrame s s') (hv : s.current n = some v)
    (hkept : Kept s n v) (hclosed : c ∉ s.closed)
    (hold : ∀ y, s.sheets c n ≠ .waiting y) (hwait : ∀ y, sheet = .waiting y → y = v)
    (hmove : ∀ y y', sheet = .moving y y' → y ≠ y' ∧ y ≠ v) : ClientInv owner s' c := by
  have hsheets : ∀ m, s'.sheets c m = if m = n then sheet else s.sheets c m := by
    intro m
    rw [hj.sheets]
    simp only [true_and]
  have hmem : ∀ m y, y ∈ (s'.sheets c m).handles ↔ y ∈ (s.sheets c m).handles ∨ m = n ∧ y = v := by
    intro m y
    rw [hsheets]
    split
    · next hm => rw [hj.handles, hm]; simp
    · next hm => simp [hm]
  constructor
  · intro m y hy
    rw [hh.kept]
    rcases (hmem m y).mp hy with hy | ⟨rfl, rfl⟩
    · exact h.held m y hy
    · exact hkept
  · intro hne y
    rw [hj.customers hne, List.mem_insert_iff, h.customers hne]
    simp only [hmem]
    constructor
    · rintro (rfl | ⟨m, hm⟩)
      · exact ⟨n, Or.inr ⟨rfl, rfl⟩⟩
      · exact ⟨m, Or.inl hm⟩
    · rintro ⟨m, hm | ⟨rfl, rfl⟩⟩
      · exact Or.inr ⟨m, hm⟩
      · exact Or.inl rfl
  · intro hne
    rw [hj.customers hne]
    exact (h.once hne).insert
  · intro m t' ht'
    obtain ⟨t, ht, hhandle⟩ :=
      exists_of_current ((congrFun hj.current m).symm.trans (current_eq ht'))
    have hmonitor := h.monitor m t ht
    rw [hj.monitor m t t' ht ht', hmonitor, hsheets, ← hhandle]
    by_cases hm : m = n
    · obtain rfl := hm
      have htv : t.handle = v := some.inj ((current_eq ht).symm.trans hv)
      simp [hold, htv]
    · simp [hm]
  · intro m y hy
    rw [hsheets] at hy
    rw [hj.current]
    split at hy
    · next hm => rw [hm, hwait y hy]; exact hv
    · exact h.waiting m y hy
  · intro m y y' hy
    rw [hsheets] at hy
    rw [hj.current]
    split at hy
    · next hm =>
      obtain ⟨hne, hnv⟩ := hmove y y' hy
      refine ⟨hne, fun heq => hnv ?_⟩
      rw [hm, hv] at heq
      exact (some.inj heq).symm
    · exact h.moving m y y' hy
  · intro m _
    rw [hj.clients, hj.closed]
    exact ⟨mem_insert_self _ _, hclosed⟩

theorem Joins.uses {v y : ℕ} {m : Bytes} (hj : Joins owner s s' c n sheet v)
    (hv : s.current n = some v) : Uses s' c m y ↔ Uses s c m y ∨ m = n ∧ y = v := by
  have hsheets : s'.sheets c m = if m = n then sheet else s.sheets c m := by
    rw [hj.sheets]
    simp only [true_and]
  rw [Uses, Uses, Active, Active, hj.current, hsheets]
  split
  · next hm =>
    obtain rfl := hm
    rw [hj.handles, hv, some.injEq, eq_comm (a := v)]
    tauto
  · next hm => simp [hm]

theorem HandlesFrame.put {v : ℕ} {info : SheetHandle} {ref : ℤ}
    (hinfo : s.handles.get v = some info)
    (hhandles : s'.handles = s.handles.put v (some { info with ref := ref }))
    (hcache : s'.cache = s.cache) (hcollects : s'.collects = s.collects) : HandlesFrame s s' := by
  constructor
  · intro m y
    rw [Kept, Kept, hhandles, Table.get_put]
    split
    · next heq => simp [heq, hinfo]
    · exact Iff.rfl
  · intro m y
    rw [Unasked, Unasked, hhandles, Table.get_put]
    split
    · next heq => simp [heq, hinfo]
    · exact Iff.rfl
  · exact hcache
  · exact hcollects

theorem SheetInv.query (h : SheetInv owner s) (hclosed : c ∉ s.closed)
    (hx : s.sheets c n = .unused) : SheetInv owner (s.query c n) := by
  unfold Datasheet.query
  cases ht : s.dataset.get n with
  | none => exact h.fail hx
  | some t =>
    have hv := current_eq ht
    have hkept := h.builder.current n t.handle hv
    obtain ⟨info, hinfo, hname⟩ := h.builder.current n t.handle hv
    simp only [hinfo]
    have hj : Joins owner s { (s.setSheet c n (.reading t.handle)).addCustomer c t.handle with
        handles := s.handles.put t.handle (some { info with ref := info.ref + 1 })
        clients := insert c s.clients } c n (.reading t.handle) t.handle := by
      refine ⟨fun _ _ => rfl, fun y => ?_, fun _ => update_self _ _ _,
        fun d hd => update_of_ne hd _ _, rfl, rfl, fun m t t' ht ht' d => ?_, rfl, rfl⟩
      · simp [hx, ClientSheet.handles]
      · rw [some.inj (ht.symm.trans ht')]
        simp
    have hh : HandlesFrame s { (s.setSheet c n (.reading t.handle)).addCustomer c t.handle with
        handles := s.handles.put t.handle (some { info with ref := info.ref + 1 })
        clients := insert c s.clients } := .put hinfo rfl rfl rfl
    refine h.client_step hj.frame hh ?_ fun y info' hy => ?_
    · refine (h.client c).join hj hh hv hkept hclosed ?_ ?_ ?_
      · rw [hx]
        nofun
      · nofun
      · nofun
    · have hunused : ¬Uses s c n y := fun hu => hu.active (by rw [hx]; rfl)
      have huses := hj.uses (y := y) (m := info'.name) hv
      rw [Table.get_put] at hy
      split at hy
      · next heq =>
        cases hy
        obtain rfl := heq
        refine ⟨info, hinfo, rfl, id, ?_, by simp⟩
        rw [hname] at huses ⊢
        rw [if_neg hunused, if_pos (huses.mpr (Or.inr ⟨rfl, rfl⟩)), add_zero]
      · next hne =>
        refine ⟨info', hy, rfl, id, ?_, le_rfl⟩
        simp only [huses, hne, and_false, or_false]

theorem SheetInv.monitor (h : SheetInv owner s) (hx : s.sheets c n = .reading x) :
    SheetInv owner (s.monitor c n x) := by
  have hc := h.client c
  have hact : Active s c n := by
    rw [Active, hx]
    nofun
  obtain ⟨hin, hclosed⟩ := hc.clients n hact
  have hmem : x ∈ (s.sheets c n).handles := by
    rw [hx]
    exact List.mem_singleton_self x
  obtain ⟨info, hinfo, hname⟩ := hc.held n x hmem
  obtain ⟨v, hv⟩ := ne_none_iff_exists'.mp (h.builder.named n x ⟨info, hinfo, hname⟩)
  obtain ⟨t, ht, rfl⟩ := exists_of_current hv
  have hkept := h.builder.current n t.handle hv
  have hinsert : s.clients = insert c s.clients := (insert_eq_of_mem hin).symm
  unfold Datasheet.monitor
  simp only [hinfo, hname, ht]
  -- the client has the name, so that the current version counts it already
  have hstep : ∀ s' sheet, Joins owner s s' c n sheet t.handle → s'.handles = s.handles →
      s'.cache = s.cache → s'.collects = s.collects → (∀ y, sheet = .waiting y → y = t.handle) →
      (∀ y y', sheet = .moving y y' → y ≠ y' ∧ y ≠ t.handle) → SheetInv owner s' := by
    intro s' sheet hj hhandles hcache hcollects hwait hmove
    have hh : HandlesFrame s s' := by
      constructor
      · simp [Kept, hhandles]
      · simp [Unasked, hhandles]
      · exact hcache
      · exact hcollects
    refine h.client_step hj.frame hh (hc.join hj hh hv hkept hclosed ?_ hwait hmove) ?_
    · rw [hx]
      nofun
    · intro y info' hy
      rw [hhandles] at hy
      refine ⟨info', hy, rfl, id, ?_, le_rfl⟩
      have huses : Uses s' c info'.name y ↔ Uses s c info'.name y := by
        rw [hj.uses hv]
        refine or_iff_left_of_imp ?_
        rintro ⟨hm, rfl⟩
        rw [hm]
        exact Or.inr ⟨hv, hact⟩
      simp only [huses]
  split
  · next hne =>
    refine hstep _ (.moving x t.handle) ?_ rfl rfl rfl (by nofun) ?_
    · refine ⟨fun _ _ => rfl, fun y => ?_, fun _ => update_self _ _ _,
        fun d hd => update_of_ne hd _ _, rfl, rfl, fun m t t' ht ht' d => ?_, hinsert, rfl⟩
      · simp [hx, ClientSheet.handles]
      · rw [some.inj (ht.symm.trans ht')]
        simp
    · rintro y y' ⟨⟩
      exact ⟨Ne.symm hne, Ne.symm hne⟩
  · next heq =>
    rw [not_not] at heq
    have hnot : c ∉ t.monitor := by
      rw [hc.monitor n t ht, hx]
      nofun
    rw [if_neg hnot]
    refine hstep _ (.waiting x) ?_ rfl rfl rfl ?_ (by nofun)
    · refine ⟨fun _ _ => rfl, fun y => ?_, fun hne => ?_, fun _ _ => rfl, ?_, rfl,
        fun m t₁ t' ht₁ ht' d => ?_, hinsert, rfl⟩
      · simp [hx, heq, ClientSheet.handles]
      · rw [heq, List.insert_of_mem ((hc.customers hne x).mpr ⟨n, hmem⟩)]
        rfl
      · funext m
        simp only [Datasheet.current, Table.get_put]
        split
        · next hm => rw [hm, ht]; rfl
        · rfl
      · rw [Table.get_put] at ht'
        split at ht'
        · next hm =>
          obtain rfl := some.inj ht'
          rw [hm, ht] at ht₁
          cases ht₁
          simp [hm, heq, or_comm]
        · next hm =>
          rw [some.inj (ht₁.symm.trans ht')]
          simp [hm]
    · rintro y ⟨⟩
      exact heq.symm

end Skynet.Analysis
