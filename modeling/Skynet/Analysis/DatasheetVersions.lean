import Skynet.Analysis.DatasheetReleases

/-!
# Versions of datasheets

New versions, requests for collection, and the runs.  A version that comes while a client is
behind is inherited by the next one with the client, who will never come by.
-/

namespace Skynet.Analysis

open Library Model Datasheet Or Option Finset

variable {s s' : Datasheet} {owner c : ℕ} {n : Bytes} {x : ℕ}

/-! ## New versions -/

theorem holders_congr {m m' : Bytes} {y y' : ℕ}
    (hb : BuilderHolds s m y ↔ BuilderHolds s' m' y') (hclients : s.clients = s'.clients)
    (hu : ∀ d, Uses s d m y ↔ Uses s' d m' y') : holders s m y = holders s' m' y' := by
  unfold holders
  simp only [hb, hclients, hu]

def told (p : ℕ) : ClientSheet → ClientSheet
  | .waiting handle => .moving handle p
  | sheet => sheet

theorem mem_told (p : ℕ) (sheet : ClientSheet) (y : ℕ) :
    y ∈ (told p sheet).handles ↔ y ∈ sheet.handles ∨ y = p ∧ ∃ v, sheet = .waiting v := by
  cases sheet <;> simp [told, ClientSheet.handles]

theorem told_ne_waiting (p : ℕ) (sheet : ClientSheet) (y : ℕ) : told p sheet ≠ .waiting y := by
  cases sheet <;> simp [told]

theorem told_eq_moving {p y y' : ℕ} {sheet : ClientSheet} (h : told p sheet = .moving y y') :
    sheet = .moving y y' ∨ sheet = .waiting y ∧ y' = p := by
  cases sheet <;> simp_all [told]

structure Publishes (s s' : Datasheet) (n : Bytes) (p : ℕ) (ref : ℤ) (b : BuilderSheet) :
    Prop where
  handles : s'.handles = s.handles.put p (some ⟨ref, n, false⟩)
  dataset : s'.dataset = s.dataset.put n (some ⟨p, ∅⟩)
  builder : s'.builder = s.builder.put n (some b)
  cache : s'.cache = insert p s.cache
  collects : s'.collects = if b.answered = none then insert p s.collects else s.collects
  sheets : ∀ d m, s'.sheets d m = if m = n then told p (s.sheets d n) else s.sheets d m
  customers : ∀ d y, y ∈ s'.customers d ↔ y ∈ s.customers d ∨ y = p ∧ ∃ v, s.sheets d n = .waiting v
  once : ∀ d, (s.customers d).Nodup → (s'.customers d).Nodup
  clients : s'.clients = s.clients ∧ s'.closed = s.closed

section Publish

variable {p : ℕ} {ref : ℤ} {b : BuilderSheet}

theorem Publishes.current (hpub : Publishes s s' n p ref b) (m : Bytes) :
    s'.current m = if m = n then some p else s.current m := by
  rw [Datasheet.current, hpub.dataset, Table.get_put, apply_ite (Option.map _)]
  rfl

theorem BuilderInv.fresh (h : BuilderInv s) (hp : p ∉ s.cache) : s.handles.get p = none := by
  by_contra hne
  obtain ⟨info, hinfo⟩ := ne_none_iff_exists'.mp hne
  exact hp (h.cache info.name p ⟨info, hinfo, rfl⟩)

theorem Publishes.kept (hpub : Publishes s s' n p ref b) (hp : s.handles.get p = none)
    (m : Bytes) (y : ℕ) : Kept s' m y ↔ Kept s m y ∨ m = n ∧ y = p := by
  rw [Kept, Kept, hpub.handles, Table.get_put]
  split
  · next heq =>
    simp only [heq, hp, some.injEq, exists_eq_left', reduceCtorEq, false_and, exists_false,
      false_or, and_true]
    exact eq_comm
  · next heq => simp [heq]

theorem Publishes.unasked (hpub : Publishes s s' n p ref b) (hp : s.handles.get p = none)
    (m : Bytes) (y : ℕ) : Unasked s' m y ↔ Unasked s m y ∨ m = n ∧ y = p := by
  rw [Unasked, Unasked, hpub.handles, Table.get_put]
  split
  · next heq =>
    simp only [heq, hp, some.injEq, exists_eq_left', reduceCtorEq, false_and, exists_false,
      false_or, and_true]
    exact eq_comm
  · next heq => simp [heq]

theorem BuilderInv.publish (h : BuilderInv s) (hp : p ∉ s.cache)
    (hpub : Publishes s s' n p ref b) (hnewest : b.answered.getD b.version = p)
    (hnewer : b.answered ≠ some b.version) (hversion : Kept s' n b.version)
    (hidle : ∀ b₀, s.builder.get n = some b₀ → b₀.answered = none) : BuilderInv s' := by
  have hget := h.fresh hp
  have hkept := hpub.kept hget
  have hunasked := hpub.unasked hget
  have hcurrent := hpub.current
  have hbuilder : ∀ m, s'.builder.get m = if m = n then some b else s.builder.get m := by
    intro m
    rw [hpub.builder, Table.get_put]
  have hcollects : ∀ y, y ∈ s'.collects ↔ y ∈ s.collects ∨ y = p ∧ b.answered = none := by
    rw [hpub.collects]
    split
    · next hans => simp [hans, or_comm]
    · next hans => simp [hans]
  have hnot : ∀ m, ¬Unasked s m p := by
    rintro m ⟨info, hinfo, -⟩
    rw [hget] at hinfo
    nomatch hinfo
  constructor
  · intro m y hy
    rw [hkept]
    rw [hcurrent] at hy
    split at hy
    · next heq => exact inr ⟨heq, (some.inj hy).symm⟩
    · exact inl (h.current m y hy)
  · intro m b₀ hm
    rw [hbuilder] at hm
    split at hm
    · next heq =>
      cases hm
      exact heq ▸ hversion
    · rw [hkept]
      exact inl (h.version m b₀ hm)
  · intro m y hy
    rw [hcurrent]
    split
    · nofun
    · next heq =>
      rcases (hkept m y).mp hy with hy | ⟨hm, -⟩
      · exact h.named m y hy
      · exact absurd hm heq
  · intro m
    rw [hbuilder, hcurrent]
    split
    · exact iff_of_false (by nofun) (by nofun)
    · exact h.made m
  · intro m b₀ hm
    rw [hbuilder] at hm
    rw [hcurrent]
    split at hm
    · next heq =>
      cases hm
      rw [if_pos heq, hnewest]
    · next heq =>
      rw [if_neg heq]
      exact h.newest m b₀ hm
  · intro m b₀ hm
    rw [hbuilder] at hm
    split at hm
    · cases hm
      exact hnewer
    · exact h.newer m b₀ hm
  · intro m y hy
    rw [hpub.cache, mem_insert]
    rcases (hkept m y).mp hy with hy | ⟨-, hy⟩
    · exact inr (h.cache m y hy)
    · exact inl hy
  · intro y hy
    rcases (hcollects y).mp hy with hy | ⟨rfl, -⟩
    · obtain ⟨m, hm⟩ := h.collects y hy
      exact ⟨m, (hunasked m y).mpr (inl hm)⟩
    · exact ⟨n, (hunasked n y).mpr (inr ⟨rfl, rfl⟩)⟩
  · intro m y hy
    rw [hcollects, hbuilder]
    rcases (hunasked m y).mp hy with hy | ⟨rfl, rfl⟩
    · rcases h.asked m y hy with hin | ⟨b₀, hb₀, hans⟩
      · exact inl (inl hin)
      · refine inr ⟨b₀, ?_, hans⟩
        split
        · next heq =>
          rw [heq] at hb₀
          rw [hidle b₀ hb₀] at hans
          nomatch hans
        · exact hb₀
    · cases hans : b.answered with
      | none => exact inl (inr ⟨rfl, rfl⟩)
      | some p' =>
        rw [hans] at hnewest
        exact inr ⟨b, if_pos rfl, hans.trans (congrArg some hnewest)⟩
  · intro m b₀ y hm hans
    rw [hbuilder] at hm
    rw [hcollects, hunasked]
    split at hm
    · next heq =>
      cases hm
      rw [hans] at hnewest
      obtain rfl : y = p := hnewest
      refine ⟨inr ⟨heq, rfl⟩, ?_⟩
      rintro (hin | ⟨-, hnone⟩)
      · obtain ⟨m', hm'⟩ := h.collects y hin
        exact hnot m' hm'
      · rw [hnone] at hans
        nomatch hans
    · obtain ⟨hun, hout⟩ := h.unsent m b₀ y hm hans
      refine ⟨inl hun, ?_⟩
      rintro (hin | ⟨rfl, -⟩)
      · exact hout hin
      · exact hnot m hun

theorem ClientInv.publish (h : ClientInv owner s c) (hp : s.handles.get p = none)
    (hpub : Publishes s s' n p ref b) : ClientInv owner s' c := by
  have hkept := hpub.kept hp
  have hcurrent := hpub.current
  have hsheets := hpub.sheets c
  have hnew : ∀ m y, y ∈ (s.sheets c m).handles → y ≠ p := by
    rintro m y hy rfl
    obtain ⟨info, hinfo, -⟩ := h.held m y hy
    rw [hp] at hinfo
    nomatch hinfo
  have hmem : ∀ m y, y ∈ (s'.sheets c m).handles ↔
      y ∈ (s.sheets c m).handles ∨ m = n ∧ y = p ∧ ∃ v, s.sheets c n = .waiting v := by
    intro m y
    rw [hsheets]
    split
    · next heq => rw [mem_told, heq]; simp
    · next heq => simp [heq]
  constructor
  · intro m y hy
    rw [hkept]
    rcases (hmem m y).mp hy with hy | ⟨hm, hy, -⟩
    · exact inl (h.held m y hy)
    · exact inr ⟨hm, hy⟩
  · intro hne y
    rw [hpub.customers, h.customers hne]
    simp only [hmem]
    constructor
    · rintro (⟨m, hm⟩ | hy)
      · exact ⟨m, inl hm⟩
      · exact ⟨n, inr ⟨rfl, hy⟩⟩
    · rintro ⟨m, hm | ⟨-, hy⟩⟩
      · exact inl ⟨m, hm⟩
      · exact inr hy
  · exact fun hne => hpub.once c (h.once hne)
  · intro m t' ht'
    rw [hpub.dataset, Table.get_put] at ht'
    rw [hsheets]
    split at ht'
    · next heq =>
      obtain rfl := some.inj ht'
      rw [if_pos heq]
      exact iff_of_false (notMem_empty _) (told_ne_waiting _ _ _)
    · next heq =>
      rw [if_neg heq]
      exact h.monitor m t' ht'
  · intro m y hy
    rw [hsheets] at hy
    rw [hcurrent]
    split at hy
    · exact absurd hy (told_ne_waiting _ _ _)
    · next heq =>
      rw [if_neg heq]
      exact h.waiting m y hy
  · intro m y y' hy
    have hin : y ∈ (s.sheets c m).handles → ¬some p = some y := by
      intro hy heq
      exact hnew m y hy (some.inj heq).symm
    rw [hsheets] at hy
    rw [hcurrent]
    split at hy
    · next heq =>
      rw [if_pos heq]
      rcases told_eq_moving hy with hold | ⟨hold, rfl⟩
      · have hy' : y ∈ (s.sheets c m).handles := by
          rw [heq, hold]
          exact List.mem_cons_self
        exact ⟨(h.moving n y y' hold).1, hin hy'⟩
      · have hy' : y ∈ (s.sheets c m).handles := by
          rw [heq, hold]
          exact List.mem_cons_self
        exact ⟨hnew m y hy', hin hy'⟩
    · next heq =>
      rw [if_neg heq]
      exact h.moving m y y' hy
  · intro m hact
    rw [hpub.clients.1, hpub.clients.2]
    refine h.clients m fun hnil => ?_
    obtain ⟨y, hy⟩ := List.exists_mem_of_ne_nil _ hact
    rcases (hmem m y).mp hy with hy | ⟨rfl, -, v, hv⟩
    · rw [hnil] at hy
      nomatch hy
    · rw [hv] at hnil
      nomatch hnil

theorem Publishes.active (hpub : Publishes s s' n p ref b) (d : ℕ) (m : Bytes) :
    Active s' d m ↔ Active s d m := by
  rw [Active, Active, hpub.sheets]
  split
  · next heq => rw [heq]; cases s.sheets d n <;> simp [told, ClientSheet.handles]
  · exact Iff.rfl

theorem Publishes.mem_handles (hpub : Publishes s s' n p ref b) {d y : ℕ} {m : Bytes}
    (hy : y ≠ p) : y ∈ (s'.sheets d m).handles ↔ y ∈ (s.sheets d m).handles := by
  rw [hpub.sheets]
  split
  · next heq => rw [mem_told, heq]; simp [hy]
  · exact Iff.rfl

theorem SheetInv.publish (h : SheetInv owner s) (hp : p ∉ s.cache) (hpub : Publishes s s' n p ref b)
    (hnewest : b.answered.getD b.version = p) (hnewer : b.answered ≠ some b.version)
    (hversion : Kept s' n b.version) (hidle : ∀ b₀, s.builder.get n = some b₀ → b₀.answered = none)
    (href : ref = holders s' n p) (hothers : ∀ m y, Kept s m y → holders s' m y = holders s m y) :
    SheetInv owner s' := by
  have hget := h.builder.fresh hp
  have hback : ∀ y info, s'.handles.get y = some info →
      y = p ∧ info = ⟨ref, n, false⟩ ∨ s.handles.get y = some info := by
    intro y info hinfo
    rw [hpub.handles, Table.get_put] at hinfo
    split at hinfo
    · next heq => exact inl ⟨heq, (some.inj hinfo).symm⟩
    · exact inr hinfo
  refine ⟨h.builder.publish hp hpub hnewest hnewer hversion hidle,
    fun d => (h.client d).publish hget hpub, fun y info hinfo => ?_, fun y info hinfo htrue => ?_⟩
  · rcases hback y info hinfo with ⟨rfl, rfl⟩ | hold
    · exact href
    · rw [hothers _ y ⟨info, hold, rfl⟩]
      exact h.refs y info hold
  · rcases hback y info hinfo with ⟨rfl, rfl⟩ | hold
    · nomatch htrue
    · exact h.unanswered y info hold htrue

end Publish

theorem SheetInv.updateNew {p : ℕ} (h : SheetInv owner s) (hp : p ∉ s.cache)
    (hn : s.dataset.get n = none) : SheetInv owner (s.update n p) := by
  have hcur : s.current n = none := by
    rw [Datasheet.current, hn]
    rfl
  have hb : s.builder.get n = none := (h.builder.made n).mpr hcur
  have hnamed : ∀ y, ¬Kept s n y := fun y hy => h.builder.named n y hy hcur
  have hinactive : ∀ d, ¬Active s d n := by
    intro d hact
    obtain ⟨y, hy⟩ := List.exists_mem_of_ne_nil _ hact
    exact hnamed y ((h.client d).held n y hy)
  have hwaiting : ∀ d v, s.sheets d n ≠ .waiting v := by
    intro d v hv
    refine hinactive d ?_
    rw [Active, hv]
    rintro ⟨⟩
  have hupdate : s.update n p = { s with
      handles := s.handles.put p (some ⟨1, n, false⟩)
      dataset := s.dataset.put n (some ⟨p, ∅⟩)
      builder := s.builder.put n (some ⟨p, none⟩)
      cache := insert p s.cache
      collects := insert p s.collects } := by
    unfold Datasheet.update Datasheet.updateVersion
    simp only [hn, hb]
  have hpub : Publishes s (s.update n p) n p 1 ⟨p, none⟩ := by
    rw [hupdate]
    refine ⟨rfl, rfl, rfl, rfl, rfl, fun d m => ?_, fun d y => ?_, fun d hd => hd, rfl, rfl⟩
    · split
      · next heq =>
        have hwait := hwaiting d
        rw [heq]
        cases hsheet : s.sheets d n with
        | waiting v => exact absurd hsheet (hwait v)
        | unused => rfl
        | failed => rfl
        | reading v => rfl
        | moving v w => rfl
      · rfl
    · simp [hwaiting]
  refine h.publish hp hpub rfl (by rintro ⟨⟩) ?_ ?_ ?_ ?_
  · exact (hpub.kept (h.builder.fresh hp) n p).mpr (inr ⟨rfl, rfl⟩)
  · intro b₀ hb₀
    rw [hb] at hb₀
    cases hb₀
  · have hholds : BuilderHolds (s.update n p) n p := inl (by rw [hpub.current, if_pos rfl])
    rw [holders, if_pos hholds, card_eq_zero.mpr]
    · rfl
    · refine filter_eq_empty_iff.mpr fun d _ hu => ?_
      exact hinactive d ((hpub.active d n).mp hu.active)
  · intro m y hkept
    have hm : m ≠ n := by
      rintro rfl
      exact hnamed y hkept
    refine holders_congr ?_ hpub.clients.1 fun d => ?_
    · rw [BuilderHolds, BuilderHolds, hpub.current, hpub.builder, Table.get_put, if_neg hm,
        if_neg hm]
    · rw [Uses, Uses, hpub.active, hpub.current, hpub.sheets, if_neg hm, if_neg hm]

theorem SheetInv.updateOld {p : ℕ} {t : SheetVersion} (h : SheetInv owner s) (hp : p ∉ s.cache)
    (ht : s.dataset.get n = some t) (hidle : ∀ b₀, s.builder.get n = some b₀ → b₀.answered = none)
    (hbehind : ∀ d ∈ s.clients, CaughtUp s d n) : SheetInv owner (s.update n p) := by
  have hcur := current_eq ht
  obtain ⟨b, hb⟩ := ne_none_iff_exists'.mp fun hnone => by
    rw [(h.builder.made n).mp hnone] at hcur
    cases hcur
  have hversion : b.version = t.handle := by
    have hnewest := h.builder.newest n b hb
    rw [hidle b hb, hcur] at hnewest
    exact (some.inj hnewest).symm
  obtain ⟨info, hinfo, hname⟩ := h.builder.current n t.handle hcur
  have hget := h.builder.fresh hp
  have hne : t.handle ≠ p := by
    intro heq
    rw [heq, hget] at hinfo
    cases hinfo
  have hwaiting : ∀ d v, s.sheets d n = .waiting v ↔ d ∈ t.monitor ∧ v = t.handle := by
    intro d v
    rw [(h.client d).monitor n t ht]
    constructor
    · intro hv
      have heq := (h.client d).waiting n v hv
      rw [hcur] at heq
      cases heq
      exact ⟨hv, rfl⟩
    · rintro ⟨hv, rfl⟩
      exact hv
  have hupdate : s.update n p = { s.report n t info.ref p with
      builder := s.builder.put n (some ⟨t.handle, some p⟩)
      cache := insert p s.cache } := by
    unfold Datasheet.update Datasheet.updateVersion
    simp only [ht, hinfo, map_some]
    have hbuilder : (s.report n t info.ref p).builder.get n = some b := hb
    simp only [hbuilder, ← hversion]
    rfl
  have hpub : Publishes s (s.update n p) n p info.ref ⟨t.handle, some p⟩ := by
    rw [hupdate]
    refine ⟨rfl, rfl, rfl, rfl, rfl, fun d m => ?_, fun d y => ?_, fun d hd => ?_, rfl, rfl⟩
    · simp only [report]
      by_cases hm : m = n
      · rw [hm, if_pos rfl]
        have hwait := hwaiting d
        cases hsheet : s.sheets d n with
        | waiting v =>
          obtain ⟨hin, rfl⟩ := (hwait v).mp hsheet
          simp [hin, told]
        | unused => simp [told]
        | failed => simp [told]
        | reading v => simp [told]
        | moving v w => simp [told]
      · simp [hm]
    · simp only [report, hwaiting]
      split
      · next hin => simp [hin, or_comm]
      · next hin => simp [hin]
    · simp only [report]
      split
      · exact hd.insert
      · exact hd
  refine h.publish hp hpub rfl ?_ ?_ hidle ?_ ?_
  · exact fun heq => hne (some.inj heq).symm
  · exact (hpub.kept hget n t.handle).mpr (inl ⟨info, hinfo, hname⟩)
  -- the count of the version before is inherited, and every client will come by
  · rw [h.refs t.handle info hinfo, hname, Int.natCast_inj]
    refine holders_congr ?_ hpub.clients.1.symm fun d => ?_
    · exact iff_of_true (inl hcur) (inl (by rw [hpub.current, if_pos rfl]))
    · constructor
      · intro hu
        exact inr ⟨by rw [hpub.current, if_pos rfl], (hpub.active d n).mpr hu.active⟩
      · intro hu
        exact inr ⟨hcur, (hpub.active d n).mp hu.active⟩
  · intro m y hkept
    have hy : y ≠ p := by
      rintro rfl
      obtain ⟨info', hinfo', -⟩ := hkept
      rw [hget] at hinfo'
      cases hinfo'
    refine holders_congr ?_ hpub.clients.1 fun d => ?_
    · rw [BuilderHolds, BuilderHolds, hpub.current, hpub.builder, Table.get_put]
      split
      · next heq =>
        rw [heq, hcur, hb]
        simp [hversion, Ne.symm hy]
      · exact Iff.rfl
    · rw [Uses, Uses, hpub.active, hpub.current, hpub.mem_handles hy]
      split
      · next heq =>
        rw [heq]
        constructor
        · rintro (hmem | ⟨heq, -⟩)
          · exact inl hmem
          · exact absurd (some.inj heq).symm hy
        · rintro (hmem | ⟨hcur', hact⟩)
          · exact inl hmem
          · exact inl (hbehind d ((h.client d).clients n hact).1 hact y hcur')
      · exact Iff.rfl

theorem BuilderInv.collect (h : BuilderInv s) (hx : x ∈ s.collects)
    (hcurrent : s'.current = s.current) (hbuilder : s'.builder = s.builder)
    (hcollects : s'.collects = s.collects.erase x) (hback : ∀ m y, Kept s' m y → Kept s m y)
    (hstays : ∀ m y, Kept s m y → BuilderHolds s m y → Kept s' m y)
    (hunasked : ∀ m y, Unasked s' m y ↔ Unasked s m y ∧ y ≠ x)
    (hcache : ∀ m y, Kept s' m y → y ∈ s'.cache) : BuilderInv s' := by
  constructor
  case cache => exact hcache
  all_goals simp only [hcurrent, hbuilder, hcollects, hunasked, mem_erase]
  · exact fun m y hy => hstays m y (h.current m y hy) (inl hy)
  · intro m b hm
    refine hstays m _ (h.version m b hm) (inr ?_)
    rw [hm]
    rfl
  · exact fun m y hy => h.named m y (hback m y hy)
  · exact h.made
  · exact h.newest
  · exact h.newer
  · rintro y ⟨hne, hy⟩
    obtain ⟨m, hm⟩ := h.collects y hy
    exact ⟨m, hm, hne⟩
  · rintro m y ⟨hy, hne⟩
    exact (h.asked m y hy).imp_left fun hin => ⟨hne, hin⟩
  · intro m b y hm hans
    obtain ⟨hold, hout⟩ := h.unsent m b y hm hans
    refine ⟨⟨hold, ?_⟩, fun hin => hout hin.2⟩
    rintro rfl
    exact hout hx

theorem SheetInv.collect (h : SheetInv owner s) (hx : x ∈ s.collects) :
    SheetInv owner (s.collect x) := by
  obtain ⟨n, info, hinfo, rfl, hasked⟩ := h.builder.collects x hx
  have hkept : Kept s info.name x := ⟨info, hinfo, rfl⟩
  unfold Datasheet.collect
  simp only [hinfo]
  split
  · next hzero =>
    have hnobody : holders s info.name x = 0 := by
      have href := h.refs x info hinfo
      rw [hzero] at href
      exact Int.natCast_eq_zero.mp href.symm
    set s' := { s with collects := s.collects.erase x }.collected x with hs'
    have hget : ∀ y, s'.handles.get y = if y = x then none else s.handles.get y :=
      fun y => Table.get_put _ _ _ _
    have hk : ∀ m y, Kept s' m y ↔ Kept s m y ∧ y ≠ x := by
      intro m y
      rw [Kept, Kept, hget]
      split
      · next heq => simp [heq]
      · next heq => simp [heq]
    have hu : ∀ m y, Unasked s' m y ↔ Unasked s m y ∧ y ≠ x := by
      intro m y
      rw [Unasked, Unasked, hget]
      split
      · next heq => simp [heq]
      · next heq => simp [heq]
    have hstays : ∀ m y, Kept s m y → holders s m y ≠ 0 → Kept s' m y := by
      intro m y hy hne
      refine (hk m y).mpr ⟨hy, ?_⟩
      rintro rfl
      rw [hkept.name_eq hy] at hne
      exact hne hnobody
    have hsome : ∀ y info', s'.handles.get y = some info' → s.handles.get y = some info' := by
      intro y info' hy
      rw [hget] at hy
      split at hy
      · cases hy
      · exact hy
    refine ⟨?_, fun d => ?_, ?_, ?_⟩
    · refine h.builder.collect hx rfl rfl rfl (fun m y hy => ((hk m y).mp hy).1)
        (fun m y hy hb => hstays m y hy (holders_of_builder hb)) hu fun m y hy => ?_
      obtain ⟨hold, hne⟩ := (hk m y).mp hy
      exact mem_erase.mpr ⟨hne, h.builder.cache m y hold⟩
    · have hd := h.client d
      refine { hd with held := fun m y hy => hstays m y (hd.held m y hy) ?_ }
      have hact : Active s d m := List.ne_nil_of_mem hy
      exact holders_of_client (hd.clients m hact).1 (inl hy)
    · exact fun y info' hy => h.refs y info' (hsome y info' hy)
    · exact fun y info' hy => h.unanswered y info' (hsome y info' hy)
  · next hne =>
    set s' : Datasheet := { s with
      collects := s.collects.erase x
      handles := s.handles.put x (some { info with collect := true }) } with hs'
    have hget : ∀ y, s'.handles.get y =
        if y = x then some { info with collect := true } else s.handles.get y :=
      fun y => Table.get_put _ _ _ _
    have hk : ∀ m y, Kept s' m y ↔ Kept s m y := by
      intro m y
      rw [Kept, Kept, hget]
      split
      · next heq => simp [heq, hinfo]
      · exact Iff.rfl
    have hu : ∀ m y, Unasked s' m y ↔ Unasked s m y ∧ y ≠ x := by
      intro m y
      rw [Unasked, Unasked, hget]
      split
      · next heq => simp [heq]
      · next heq => simp [heq]
    have hback : ∀ y info', s'.handles.get y = some info' →
        y = x ∧ info' = { info with collect := true } ∨ s.handles.get y = some info' := by
      intro y info' hy
      rw [hget] at hy
      split at hy
      · next heq => exact inl ⟨heq, (some.inj hy).symm⟩
      · exact inr hy
    refine ⟨?_, fun d => ?_, fun y info' hy => ?_, fun y info' hy htrue => ?_⟩
    · exact h.builder.collect hx rfl rfl rfl (fun m y hy => (hk m y).mp hy)
        (fun m y hy _ => (hk m y).mpr hy) hu fun m y hy => h.builder.cache m y ((hk m y).mp hy)
    · have hd := h.client d
      exact { hd with held := fun m y hy => (hk m y).mpr (hd.held m y hy) }
    · rcases hback y info' hy with ⟨rfl, rfl⟩ | hold
      · exact h.refs y info hinfo
      · exact h.refs y info' hold
    · rcases hback y info' hy with ⟨rfl, rfl⟩ | hold
      · exact hne
      · exact h.unanswered y info' hold htrue

/-! ## Every run -/

/-- Every command and answer keeps the counts. -/
theorem SheetInv.next {a : DatasheetAction} (h : SheetInv owner s) (hok : InTime owner s a)
    (hs' : Datasheet.next owner s a = some s') : SheetInv owner s' := by
  cases a with
  | update name pointer =>
    simp only [Datasheet.next, ite_none_right_eq_some] at hs'
    obtain ⟨⟨hp, hidle⟩, hs'⟩ := hs'
    obtain rfl := some.inj hs'
    cases hn : s.dataset.get name with
    | none => exact h.updateNew hp hn
    | some t => exact h.updateOld hp hn hidle hok
  | finish name =>
    simp only [Datasheet.next] at hs'
    split at hs'
    · next version pointer hb =>
      obtain rfl := some.inj hs'
      exact h.finish hb hok
    · nomatch hs'
  | collect pointer =>
    simp only [Datasheet.next, ite_none_right_eq_some] at hs'
    obtain ⟨hin, hs'⟩ := hs'
    obtain rfl := some.inj hs'
    exact h.collect hin
  | query source name =>
    simp only [Datasheet.next, ite_none_right_eq_some] at hs'
    obtain ⟨⟨hclosed, hunused⟩, hs'⟩ := hs'
    obtain rfl := some.inj hs'
    exact h.query hclosed hunused
  | monitor source name =>
    simp only [Datasheet.next] at hs'
    split at hs'
    · next handle hreading =>
      obtain rfl := some.inj hs'
      exact h.monitor hreading
    · nomatch hs'
  | release source name =>
    simp only [Datasheet.next] at hs'
    split at hs'
    · next handle newhandle hmoving =>
      obtain rfl := some.inj hs'
      exact h.release hmoving
    · nomatch hs'
  | close source =>
    simp only [Datasheet.next, ite_none_right_eq_some] at hs'
    obtain ⟨⟨-, howner⟩, hs'⟩ := hs'
    obtain rfl := some.inj hs'
    exact h.close howner hok

/-- **In every run in which the clients keep up**, every handle is counted, kept and collected as
promised. -/
theorem sheets_counted_in_time (h : (machine owner).Reach (InTime owner) s) : SheetsCounted s := by
  refine SheetInv.counted (h.invariant (I := SheetInv owner) ?_ ?_)
  · rintro s rfl
    exact sheetInv_init
  · exact fun s a s' hs hok hnext => hs.next hok hnext

/-- A client that reads the first version while two more come goes from the first to the third.
Nobody holds the second one any more, and it is counted still. -/
theorem skipped_version_stays : ∃ s, (machine 0).Reachable s ∧ ¬SheetsCounted s := by
  have hrun : ((machine 0).run init [.update [] 1, .query 1 [], .update [] 2, .finish [],
      .update [] 3, .finish [], .monitor 1 [], .release 1 [], .collect 2]).map
      (fun s => (s.handles.get 2, holders s [] 2)) = some (some ⟨1, [], true⟩, 0) := by
    decide
  obtain ⟨s, hs, hstate⟩ := map_eq_some_iff.mp hrun
  obtain ⟨hhandle, hholders⟩ := Prod.mk.inj hstate
  refine ⟨s, Machine.Reachable.run (.start rfl) hs, fun h => ?_⟩
  have href := h.refs 2 _ hhandle
  rw [hholders] at href
  nomatch href

/-- A client that keeps up: the first version is collected when it has been released. -/
theorem sheets_counted_kept_up : ∃ s, SheetsCounted s ∧
    s.handles.get 1 = none ∧ s.handles.get 2 = some ⟨2, [], false⟩ := by
  have hrun : ((machine 0).runOk (InTime 0) init [.update [] 1, .query 1 [], .monitor 1 [],
      .update [] 2, .finish [], .collect 1, .release 1 []]).map
      (fun s => (s.handles.get 1, s.handles.get 2)) = some (none, some ⟨2, [], false⟩) := by
    decide
  obtain ⟨s, hs, hstate⟩ := map_eq_some_iff.mp hrun
  obtain ⟨h₁, h₂⟩ := Prod.mk.inj hstate
  exact ⟨s, sheets_counted_in_time (Machine.Reach.runOk (.start rfl) hs), h₁, h₂⟩

end Skynet.Analysis
