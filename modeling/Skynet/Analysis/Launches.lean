import Skynet.Model.Launcher

/-!
# What becomes of a launch

A service that is gone, or about to go, has a message on its way that takes it off the lists of
the launcher, or is off them.  A service that is killed by its address string sends none.
-/

namespace Skynet.Analysis

open Library Model Launcher List Function Option

variable {s s' : Launcher} {h j : ℕ} {v w : LaunchedService} {m : LauncherMessage}

def aboutService : LauncherMessage → ℕ
  | .launchok h => h
  | .error h => h
  | .remove h _ => h
  | .kill h => h
  | .killName h => h

def RemovesService (h : ℕ) (m : LauncherMessage) : Prop := m = .error h ∨ ∃ kill, m = .remove h kill

/-! ## Invariant -/

def Going (v : LaunchedService) : Prop :=
  v.alive = false ∨ v.stage = .raised ∨ v.stage = .exiting ∨ v.stage = .ended

def Removing (s : Launcher) (h : ℕ) : Prop := ∃ m ∈ s.queue, RemovesService h m

/-- A launched service and its entries at the launcher. -/
structure LaunchInv (s : Launcher) (h : ℕ) (v : LaunchedService) : Prop where
  session : s.launchSession h = s.instances h
  answered : s.instances h = some v.request ∧ s.requests[v.request]? = some []
    ∨ s.instances h = none ∧ ∃ a, s.requests[v.request]? = some [a]
      ∧ ∀ k, a = .address k → k = h ∧ v.returned = true
  started : v.stage = .started → s.instances h ≠ none → .launchok h ∈ s.queue
  returned : .launchok h ∈ s.queue → v.returned = true
  ended : v.stage = .ended → v.alive = false
  gone : Going v → Removing s h ∨ .kill h ∈ s.queue ∨ s.instances h = none ∧ s.services h = false
  leaving : s.services h = false ∨ Removing s h → Going v ∨ h ∈ s.kills
  listed : s.instances h ≠ none → s.services h = true ∨ Removing s h
  killing : h ∈ s.kills → Removing s h ∨ s.instances h = none ∧ s.services h = false

structure LauncherInv (s : Launcher) : Prop where
  each : ∀ (h : ℕ) v, s.launched[h]? = some v → LaunchInv s h v
  distinct : ∀ (h k : ℕ) v w, s.launched[h]? = some v → s.launched[k]? = some w →
    v.request = w.request → h = k
  fresh : ∀ h : ℕ, s.launched[h]? = none →
    s.services h = false ∧ s.instances h = none ∧ s.launchSession h = none
  messages : ∀ m ∈ s.queue, s.launched[aboutService m]? ≠ none
  doomed : ∀ h ∈ s.kills, s.launched[h]? ≠ none
  owned : ∀ (i : ℕ) l, s.requests[i]? = some l → l = [.error]
    ∨ ∃ (h : ℕ) (v : LaunchedService), s.launched[h]? = some v ∧ v.request = i

theorem LauncherInv.init : LauncherInv init where
  each := fun h v hv => by simp [Launcher.init] at hv
  distinct := fun h k v w hv => by simp [Launcher.init] at hv
  fresh := fun h _ => ⟨rfl, rfl, rfl⟩
  messages := nofun
  doomed := nofun
  owned := fun i l hl => by simp [Launcher.init] at hl

theorem aboutService_of_removes (hm : RemovesService h m) : aboutService m = h := by
  rcases hm with rfl | ⟨kill, rfl⟩
  · rfl
  · rfl

theorem LaunchInv.other (hw : LaunchInv s j w) (hservices : s'.services j = s.services j)
    (hinstances : s'.instances j = s.instances j)
    (hsession : s'.launchSession j = s.launchSession j)
    (hrequests : s'.requests[w.request]? = s.requests[w.request]?)
    (hqueue : ∀ m, aboutService m = j → m ≠ .killName j → (m ∈ s'.queue ↔ m ∈ s.queue))
    (hkills : j ∈ s'.kills ↔ j ∈ s.kills) : LaunchInv s' j w := by
  have hremoves {m : LauncherMessage} (hm : RemovesService j m) : m ≠ .killName j := by
    rintro rfl
    rcases hm with hm | ⟨kill, hm⟩ <;> cases hm
  have hremoving : Removing s' j ↔ Removing s j := by
    constructor
    · rintro ⟨m, hmem, hm⟩
      exact ⟨m, (hqueue m (aboutService_of_removes hm) (hremoves hm)).mp hmem, hm⟩
    · rintro ⟨m, hmem, hm⟩
      exact ⟨m, (hqueue m (aboutService_of_removes hm) (hremoves hm)).mpr hmem, hm⟩
  refine ⟨?_, ?_, ?_, ?_, hw.ended, ?_, ?_, ?_, ?_⟩
  · rw [hsession, hinstances]
    exact hw.session
  · rw [hinstances, hrequests]
    exact hw.answered
  · rw [hinstances, hqueue (.launchok j) rfl nofun]
    exact hw.started
  · rw [hqueue (.launchok j) rfl nofun]
    exact hw.returned
  · rw [hremoving, hqueue (.kill j) rfl nofun, hinstances, hservices]
    exact hw.gone
  · rw [hremoving, hservices, hkills]
    exact hw.leaving
  · rw [hremoving, hinstances, hservices]
    exact hw.listed
  · rw [hremoving, hinstances, hservices, hkills]
    exact hw.killing

theorem LauncherInv.update (hinv : LauncherInv s) (hv : s.launched[h]? = some v)
    (hlaunched : ∀ k : ℕ, s'.launched[k]? = if k = h then some w else s.launched[k]?)
    (hrequest : w.request = v.request)
    (hothers : ∀ k, k ≠ h → s'.services k = s.services k ∧ s'.instances k = s.instances k
      ∧ s'.launchSession k = s.launchSession k)
    (hrequests : ∀ i : ℕ, i ≠ v.request → s'.requests[i]? = s.requests[i]?)
    (hqueue : ∀ m, aboutService m ≠ h → (m ∈ s'.queue ↔ m ∈ s.queue))
    (hkills : ∀ k, k ≠ h → (k ∈ s'.kills ↔ k ∈ s.kills)) (hown : LaunchInv s' h w) :
    LauncherInv s' := by
  have hcases {k : ℕ} {u : LaunchedService} (hu : s'.launched[k]? = some u) :
      k = h ∧ u = w ∨ k ≠ h ∧ s.launched[k]? = some u := by
    rw [hlaunched] at hu
    split at hu
    · next heq => exact .inl ⟨heq, (some.inj hu).symm⟩
    · next hne => exact .inr ⟨hne, hu⟩
  have hold {k : ℕ} {u : LaunchedService} (hu : s'.launched[k]? = some u) :
      ∃ u', s.launched[k]? = some u' ∧ u'.request = u.request := by
    rcases hcases hu with ⟨rfl, rfl⟩ | ⟨-, hu⟩
    · exact ⟨v, hv, hrequest.symm⟩
    · exact ⟨u, hu, rfl⟩
  refine ⟨fun k u hu => ?_, fun k k' u u' hu hu' heq => ?_, fun k hk => ?_, fun m hm => ?_,
    fun k hk => ?_, fun i l hl => ?_⟩
  · rcases hcases hu with ⟨rfl, rfl⟩ | ⟨hne, hu⟩
    · exact hown
    · obtain ⟨hservices, hinstances, hsession⟩ := hothers k hne
      refine (hinv.each k u hu).other hservices hinstances hsession (hrequests _ fun heq => ?_)
        (fun m hm _ => hqueue m (hm ▸ hne)) (hkills k hne)
      exact hne (hinv.distinct k h u v hu hv heq)
  · obtain ⟨x, hx, hxu⟩ := hold hu
    obtain ⟨x', hx', hxu'⟩ := hold hu'
    exact hinv.distinct k k' x x' hx hx' (hxu.trans (heq.trans hxu'.symm))
  · rw [hlaunched] at hk
    split at hk
    · cases hk
    · next hne =>
      obtain ⟨hservices, hinstances, hsession⟩ := hothers k hne
      obtain ⟨gservices, ginstances, gsession⟩ := hinv.fresh k hk
      exact ⟨hservices.trans gservices, hinstances.trans ginstances, hsession.trans gsession⟩
  · rw [hlaunched]
    split
    · nofun
    · next hne => exact hinv.messages m ((hqueue m hne).mp hm)
  · rw [hlaunched]
    split
    · nofun
    · next hne => exact hinv.doomed k ((hkills k hne).mp hk)
  · by_cases hi : i = v.request
    · refine .inr ⟨h, w, ?_, hrequest.trans hi.symm⟩
      rw [hlaunched, if_pos rfl]
    · rw [hrequests i hi] at hl
      rcases hinv.owned i l hl with herror | ⟨k, u, hu, hreq⟩
      · exact .inl herror
      · refine .inr ⟨k, u, ?_, hreq⟩
        rw [hlaunched, if_neg]
        · exact hu
        · rintro rfl
          rw [hv, some.injEq] at hu
          exact hi (hreq.symm.trans (hu ▸ rfl))

/-! ## The services -/

theorem launched_set (hv : s.launched[h]? = some v) (k : ℕ) :
    (s.launched.set h w)[k]? = if k = h then some w else s.launched[k]? := by
  have hlt := (List.getElem?_eq_some_iff.mp hv).1
  by_cases hk : h = k
  · simp [hk, hk ▸ hlt]
  · simp [hk, Ne.symm hk]

variable {ms : List LauncherMessage}

theorem LauncherInv.go (hinv : LauncherInv s) (hv : s.launched[h]? = some v)
    (hms : ∀ m ∈ ms, aboutService m = h)
    (hrequest : w.request = v.request)
    (hown : LaunchInv { s with launched := s.launched.set h w, queue := s.queue ++ ms } h w) :
    LauncherInv { s with launched := s.launched.set h w, queue := s.queue ++ ms } := by
  refine hinv.update hv (launched_set hv) hrequest (fun _ _ => ⟨rfl, rfl, rfl⟩) (fun _ _ => rfl)
    (fun m hne => ?_) (fun _ _ => Iff.rfl) hown
  rw [mem_append]
  exact or_iff_left fun hmem => hne (hms m hmem)

theorem Removing.append (hr : Removing s h) {t : Launcher}
    (ht : t.queue = s.queue ++ ms) : Removing t h := by
  obtain ⟨m, hmem, hm⟩ := hr
  exact ⟨m, ht ▸ mem_append_left _ hmem, hm⟩

/-- A service that goes on: its message for the lists is sent when it is about to end, and the one
for the answer when its start function has returned. -/
theorem LaunchInv.go (hv : LaunchInv s h v)
    (hrequest : w.request = v.request) (hreturned : v.returned = true → w.returned = true)
    (hstarted : w.stage = .started → .launchok h ∈ ms) (hok : .launchok h ∈ ms → w.returned = true)
    (hended : w.stage = .ended → w.alive = false) (hgoing : Going v → Going w)
    (hgone : Going w → Going v ∨ ∃ m ∈ ms, RemovesService h m)
    (hms : ∀ m ∈ ms, RemovesService h m → Going w) :
    LaunchInv { s with launched := s.launched.set h w, queue := s.queue ++ ms } h w := by
  have hremoving (hr : Removing s h) :
      Removing { s with launched := s.launched.set h w, queue := s.queue ++ ms } h :=
    hr.append rfl
  refine ⟨hv.session, ?_, fun hs _ => mem_append_right _ (hstarted hs), fun hmem => ?_, hended,
    fun hg => ?_, fun hor => ?_, fun hne => (hv.listed hne).imp id hremoving,
    fun hmem => (hv.killing hmem).imp hremoving id⟩
  · rw [hrequest]
    refine hv.answered.imp id fun ⟨hnone, a, ha, haddress⟩ => ⟨hnone, a, ha, fun k hk => ?_⟩
    obtain ⟨heq, hret⟩ := haddress k hk
    exact ⟨heq, hreturned hret⟩
  · rcases mem_append.mp hmem with hmem | hmem
    · exact hreturned (hv.returned hmem)
    · exact hok hmem
  · rcases hgone hg with hg | ⟨m, hmem, hm⟩
    · rcases hv.gone hg with hr | hkill | hclean
      · exact .inl (hremoving hr)
      · exact .inr (.inl (mem_append_left _ hkill))
      · exact .inr (.inr hclean)
    · exact .inl ⟨m, mem_append_right _ hmem, hm⟩
  · rcases hor with hservices | ⟨m, hmem, hm⟩
    · exact (hv.leaving (.inl hservices)).imp hgoing id
    · rcases mem_append.mp hmem with hmem | hmem
      · exact (hv.leaving (.inr ⟨m, hmem, hm⟩)).imp hgoing id
      · exact .inl (hms m hmem hm)

theorem LaunchInv.retired (hv : LaunchInv s h v) (launched : List LaunchedService)
    (hgone : Removing s h ∨ .kill h ∈ s.queue ∨ s.instances h = none ∧ s.services h = false) :
    LaunchInv { s with launched := launched } h { v with alive := false } :=
  ⟨hv.session, hv.answered, hv.started, hv.returned, fun _ => rfl, fun _ => hgone,
    fun _ => .inl (.inl rfl), hv.listed, hv.killing⟩

theorem retire_eq (hv : s.launched[h]? = some v) :
    s.retire h = { s with launched := s.launched.set h { v with alive := false } } := by
  rw [retire]
  congr 1
  refine ext_getElem? fun k => ?_
  rw [launched_set hv]
  by_cases hk : h = k
  · subst hk
    rw [getElem?_modify_eq, hv, if_pos rfl]
    rfl
  · rw [getElem?_modify_ne _ _ hk, if_neg (Ne.symm hk)]

theorem LauncherInv.retire (hinv : LauncherInv s) (hv : s.launched[h]? = some v)
    (hgone : Removing s h ∨ .kill h ∈ s.queue ∨ s.instances h = none ∧ s.services h = false) :
    LauncherInv (s.retire h) := by
  rw [retire_eq hv]
  exact hinv.update hv (launched_set hv) rfl (fun _ _ => ⟨rfl, rfl, rfl⟩) (fun _ _ => rfl)
    (fun _ _ => Iff.rfl) (fun _ _ => Iff.rfl) ((hinv.each h v hv).retired _ hgone)

theorem proceed_some {stages : List ServiceStage} {f : LaunchedService → LaunchedService}
    (hstep : s.proceed h stages f ms = some s') :
    ∃ v, s.launched[h]? = some v ∧ v.stage ∈ stages
      ∧ s' = { s with launched := s.launched.set h (f v), queue := s.queue ++ ms } := by
  obtain ⟨v, hv, hstep⟩ := bind_eq_some_iff.mp hstep
  obtain ⟨hstage, hstep⟩ := ite_none_right_eq_some.mp hstep
  exact ⟨v, hv, hstage, (some.inj hstep).symm⟩

theorem LaunchInv.quiet (hv : LaunchInv s h v) (hrequest : w.request = v.request)
    (hreturned : w.returned = v.returned) (hstarted : w.stage ≠ .started)
    (hended : w.stage = .ended → w.alive = false) (hgoing : Going w ↔ Going v) :
    LaunchInv { s with launched := s.launched.set h w, queue := s.queue ++ [] } h w :=
  hv.go hrequest (fun hr => hreturned.trans hr) (fun hs => absurd hs hstarted) nofun hended
    hgoing.mpr (fun hg => .inl (hgoing.mp hg)) nofun

theorem LaunchInv.leaves (hv : LaunchInv s h v) (hm : RemovesService h m) {stage : ServiceStage}
    (hstage : stage = .raised ∨ stage = .exiting) :
    LaunchInv
      { s with launched := s.launched.set h { v with stage := stage }, queue := s.queue ++ [m] } h
      { v with stage := stage } := by
  have hgoing : Going { v with stage := stage } := by
    rcases hstage with rfl | rfl
    · exact .inr (.inl rfl)
    · exact .inr (.inr (.inl rfl))
  refine hv.go rfl id (fun hs => ?_) (fun hmem => ?_) (fun hs => ?_) (fun _ => hgoing)
    (fun _ => .inr ⟨m, mem_singleton_self m, hm⟩) (fun _ _ _ => hgoing)
  · rcases hstage with rfl | rfl <;> cases hs
  · rw [← mem_singleton.mp hmem] at hm
    rcases hm with hm | ⟨kill, hm⟩ <;> cases hm
  · rcases hstage with rfl | rfl <;> cases hs

/-! ## The launcher -/

theorem confirm_spec (hanswered : s.instances h = some v.request ∧ s.requests[v.request]? = some []
      ∨ s.instances h = none ∧ ∃ a, s.requests[v.request]? = some [a]
        ∧ ∀ k, a = .address k → k = h ∧ v.returned = true) (a : LaunchAnswer)
    (ha : ∀ k, a = .address k → k = h ∧ v.returned = true)
    (hsession : s.launchSession h = s.instances h) :
    (s.confirm h a).instances h = none ∧ (s.confirm h a).launchSession h = none
      ∧ (∃ b, (s.confirm h a).requests[v.request]? = some [b]
        ∧ ∀ k, b = .address k → k = h ∧ v.returned = true)
      ∧ (∀ k, k ≠ h → (s.confirm h a).instances k = s.instances k
        ∧ (s.confirm h a).launchSession k = s.launchSession k)
      ∧ ∀ i : ℕ, i ≠ v.request → (s.confirm h a).requests[i]? = s.requests[i]? := by
  unfold confirm
  rcases hanswered with ⟨hsome, hnil⟩ | ⟨hnone, b, hb, haddress⟩
  · rw [hsome]
    refine ⟨update_self .., update_self .., ⟨a, ?_, ha⟩, fun k hk => ?_, fun i hi => ?_⟩
    · change (s.requests.modify v.request _)[v.request]? = _
      rw [getElem?_modify_eq, hnil]
      rfl
    · exact ⟨update_of_ne hk .., update_of_ne hk ..⟩
    · exact getElem?_modify_ne _ _ (Ne.symm hi)
  · rw [hnone]
    exact ⟨hnone, hsession.trans hnone, ⟨b, hb, haddress⟩, fun _ _ => ⟨rfl, rfl⟩, fun _ _ => rfl⟩

theorem confirm_frame (s : Launcher) (h : ℕ) (a : LaunchAnswer) :
    (s.confirm h a).services = s.services ∧ (s.confirm h a).launched = s.launched
      ∧ (s.confirm h a).queue = s.queue ∧ (s.confirm h a).kills = s.kills := by
  unfold confirm
  split <;> exact ⟨rfl, rfl, rfl, rfl⟩

variable {rest : List LauncherMessage}

theorem mem_rest (hqueue : s.queue = m :: rest) (hm : aboutService m = h) (m' : LauncherMessage)
    (hne : aboutService m' ≠ h) : m' ∈ rest ↔ m' ∈ s.queue := by
  rw [hqueue, mem_cons]
  refine (or_iff_right ?_).symm
  rintro rfl
  exact hne hm

theorem launched_same (hv : s.launched[h]? = some v) (k : ℕ) :
    s.launched[k]? = if k = h then some v else s.launched[k]? := by
  split
  · next heq => rw [heq, hv]
  · rfl

/-- The response for the service of a message, with its entry in `services` removed where the
message says that it goes. -/
theorem LauncherInv.confirmed (hinv : LauncherInv s) (hqueue : s.queue = m :: rest)
    (hm : aboutService m = h) (hv : s.launched[h]? = some v) (a : LaunchAnswer)
    (ha : ∀ k, a = .address k → k = h ∧ v.returned = true) (t : Launcher)
    (hsame : t.launched = s.launched ∧ t.queue = rest ∧ t.kills = s.kills)
    (hconfirm : t.instances = (s.confirm h a).instances
      ∧ t.launchSession = (s.confirm h a).launchSession ∧ t.requests = (s.confirm h a).requests)
    (hservices : ∀ k, k ≠ h → t.services k = s.services k)
    (hown : t.services h = false ∧ RemovesService h m
      ∨ t.services h = s.services h ∧ ¬ RemovesService h m ∧ m ≠ .kill h) : LauncherInv t := by
  have hinvv := hinv.each h v hv
  obtain ⟨hnone, hsession, hanswer, hothers, hrequests⟩ :=
    confirm_spec hinvv.answered a ha hinvv.session
  obtain ⟨hlaunched, hrest, hkills⟩ := hsame
  obtain ⟨hinstances', hsession', hrequests'⟩ := hconfirm
  have hremoving (hr : Removing t h) : Removing s h := by
    obtain ⟨m', hmem, hm'⟩ := hr
    exact ⟨m', hqueue ▸ mem_cons_of_mem _ (hrest ▸ hmem), hm'⟩
  have hnone : t.instances h = none := (congrFun hinstances' h).trans hnone
  refine hinv.update (w := v) hv (fun k => ?_) rfl (fun k hk => ⟨hservices k hk, ?_, ?_⟩)
    (fun i hi => ?_) (fun m' hm' => ?_) (fun k _ => by rw [hkills]) ?_
  · rw [hlaunched]
    exact launched_same hv k
  · exact (congrFun hinstances' k).trans (hothers k hk).1
  · exact (congrFun hsession' k).trans (hothers k hk).2
  · rw [hrequests']
    exact hrequests i hi
  · rw [hrest]
    exact mem_rest hqueue hm m' hm'
  · have hkept (hnot : ¬ RemovesService h m) (hr : Removing s h) : Removing t h := by
      obtain ⟨m', hmem, hm'⟩ := hr
      rw [hqueue] at hmem
      rcases mem_cons.mp hmem with rfl | hmem
      · exact absurd hm' hnot
      · exact ⟨m', hrest ▸ hmem, hm'⟩
    refine ⟨((congrFun hsession' h).trans hsession).trans hnone.symm,
      .inr ⟨hnone, hrequests' ▸ hanswer⟩, fun _ hne => absurd hnone hne, fun hmem => ?_,
      hinvv.ended, fun hg => ?_, fun hor => ?_, fun hne => absurd hnone hne, fun hmem => ?_⟩
    · exact hinvv.returned (hqueue ▸ mem_cons_of_mem _ (hrest ▸ hmem))
    · rcases hown with ⟨hfalse, -⟩ | ⟨hserv, hnot, hkill⟩
      · exact .inr (.inr ⟨hnone, hfalse⟩)
      · rcases hinvv.gone hg with hr | hmem | ⟨-, hfalse⟩
        · exact .inl (hkept hnot hr)
        · rw [hqueue] at hmem
          exact .inr (.inl (hrest ▸ (mem_cons.mp hmem).resolve_left hkill.symm))
        · exact .inr (.inr ⟨hnone, hserv.trans hfalse⟩)
    · rw [hkills]
      rcases hown with ⟨-, hremoves⟩ | ⟨hserv, -, -⟩
      · exact hinvv.leaving (.inr ⟨m, hqueue ▸ mem_cons_self, hremoves⟩)
      · rw [hserv] at hor
        exact hinvv.leaving (hor.imp id hremoving)
    · rcases hown with ⟨hfalse, -⟩ | ⟨hserv, hnot, -⟩
      · exact .inr ⟨hnone, hfalse⟩
      · rw [hkills] at hmem
        rcases hinvv.killing hmem with hr | ⟨-, hfalse⟩
        · exact .inl (hkept hnot hr)
        · exact .inr ⟨hnone, hserv.trans hfalse⟩

theorem confirm_queue (s : Launcher) (queue : List LauncherMessage) (h : ℕ) (a : LaunchAnswer) :
    ({ s with queue := queue }.confirm h a) = { s.confirm h a with queue := queue } := by
  unfold confirm
  cases s.instances h with
  | none => rfl
  | some request => rfl

theorem confirm_forget (s : Launcher) (h : ℕ) (a : LaunchAnswer) :
    (s.forget h).confirm h a = (s.confirm h a).forget h := by
  unfold confirm Launcher.forget
  cases s.instances h with
  | none => rfl
  | some request => rfl

theorem LauncherInv.removed (hinv : LauncherInv s) (hqueue : s.queue = m :: rest)
    (hm : RemovesService h m) (hv : s.launched[h]? = some v) (a : LaunchAnswer)
    (ha : ∀ k, a ≠ .address k) : LauncherInv (({ s with queue := rest }.confirm h a).forget h) := by
  obtain ⟨hservices, hlaunched, -, hkills⟩ := confirm_frame s h a
  rw [confirm_queue]
  refine hinv.confirmed hqueue (aboutService_of_removes hm) hv a (fun k hk => absurd hk (ha k)) _
    ⟨hlaunched, rfl, hkills⟩ ⟨rfl, rfl, rfl⟩ (fun k hk => ?_)
    (.inl ⟨update_self .., hm⟩)
  exact (update_of_ne hk ..).trans (congrFun hservices k)

def KillReported (s : Launcher) (h : ℕ) : Prop :=
  s.services h = false ∨ Removing s h ∨ .kill h ∈ s.queue

def MessageReported (s : Launcher) : LauncherMessage → Prop
  | .killName h => KillReported s h
  | _ => True

/-- No service is killed by its address string that is on the lists and has no message on its way
that takes it off. -/
def NamedKillsReported (s : Launcher) : LauncherAction → Prop
  | .killName h => KillReported s h
  | .handle => ∀ m ∈ s.queue.head?, MessageReported s m
  | _ => True

instance : Decidable (RemovesService h m) :=
  decidable_of_iff (m = .error h ∨ m = .remove h true ∨ m = .remove h false) (by
    simp [RemovesService, or_comm])

instance : Decidable (KillReported s h) :=
  inferInstanceAs (Decidable (_ ∨ (∃ m ∈ s.queue, RemovesService h m) ∨ _))

instance : ∀ (s : Launcher) m, Decidable (MessageReported s m)
  | s, .killName h => inferInstanceAs (Decidable (KillReported s h))
  | _, .launchok _ | _, .error _ | _, .remove _ _ | _, .kill _ => isTrue trivial

instance : ∀ (s : Launcher) a, Decidable (NamedKillsReported s a)
  | s, .killName h => inferInstanceAs (Decidable (KillReported s h))
  | s, .handle => inferInstanceAs (Decidable (∀ m ∈ s.queue.head?, MessageReported s m))
  | _, .launch _ | _, .load _ | _, .loadFailed _ | _, .returned _ | _, .raised _ | _, .exit _
  | _, .exited _ | _, .vanished _ | _, .kill _ | _, .killed _ | _, .killCommand _
  | _, .killNameCommand _ => isTrue trivial

theorem LaunchInv.reported (hv : LaunchInv s h v) (hok : KillReported s h) : Removing s h ∨ .kill h
    ∈ s.queue ∨ s.instances h = none ∧ s.services h = false := by
  rcases hok with hfalse | hr | hkill
  · by_cases hnone : s.instances h = none
    · exact .inr (.inr ⟨hnone, hfalse⟩)
    · rcases hv.listed hnone with htrue | hr
      · rw [hfalse] at htrue
        cases htrue
      · exact .inl hr
  · exact .inl hr
  · exact .inr (.inl hkill)

theorem LauncherInv.killed (hinv : LauncherInv s) (hqueue : s.queue = .kill h :: rest)
    (hv : s.launched[h]? = some v) : LauncherInv (dispatch { s with queue := rest } (.kill h)) := by
  have hinvv := hinv.each h v hv
  have hv' : (Launcher.send { s with queue := rest } (.remove h true)).launched[h]? = some v := hv
  rw [dispatch, retire_eq hv']
  refine hinv.update hv (launched_set hv) rfl (fun k hk => ⟨update_of_ne hk .., rfl, rfl⟩)
    (fun _ _ => rfl) (fun m' hm' => ?_) (fun _ _ => Iff.rfl) ?_
  · rw [← mem_rest hqueue rfl m' hm']
    change m' ∈ rest ++ [.remove h true] ↔ _
    rw [mem_append, mem_singleton]
    refine or_iff_left ?_
    rintro rfl
    exact hm' rfl
  · have hr : Removing ((({ s with queue := rest }.send (.remove h true)).retire h).forget h) h :=
      ⟨.remove h true, mem_append_right _ (mem_singleton_self _), .inr ⟨true, rfl⟩⟩
    have hmem (hok : .launchok h ∈ s.queue) : .launchok h ∈ rest ++ [.remove h true] := by
      rw [hqueue] at hok
      exact mem_append_left _ ((mem_cons.mp hok).resolve_left nofun)
    refine ⟨hinvv.session, hinvv.answered, fun hs hne => hmem (hinvv.started hs hne), fun hok => ?_,
      fun _ => rfl, fun _ => .inl hr, fun _ => .inl (.inl rfl), fun _ => .inr hr, fun _ => .inl hr⟩
    refine hinvv.returned (hqueue ▸ mem_cons_of_mem _ ?_)
    exact (mem_append.mp hok).resolve_right (by simp)

theorem LauncherInv.pop (hinv : LauncherInv s) (hqueue : s.queue = .killName h :: rest)
    (hv : s.launched[h]? = some v) : LauncherInv { s with queue := rest } := by
  refine hinv.update (w := v) hv (launched_same hv) rfl (fun _ _ => ⟨rfl, rfl, rfl⟩)
    (fun _ _ => rfl) (fun m' hm' => mem_rest hqueue rfl m' hm') (fun _ _ => Iff.rfl) ?_
  refine (hinv.each h v hv).other rfl rfl rfl rfl (fun m' _ hne => ?_) Iff.rfl
  rw [hqueue, mem_cons]
  exact (or_iff_right hne).symm

theorem LauncherInv.handle (hinv : LauncherInv s) (hqueue : s.queue = m :: rest)
    (hok : NamedKillsReported s .handle) : LauncherInv (dispatch { s with queue := rest } m) := by
  obtain ⟨v, hv⟩ := ne_none_iff_exists'.mp (hinv.messages m (hqueue ▸ mem_cons_self))
  cases m with
  | launchok h =>
    have hreturned := (hinv.each h v hv).returned (hqueue ▸ mem_cons_self)
    obtain ⟨hservices, hlaunched, -, hkills⟩ := confirm_frame s h (.address h)
    rw [dispatch, confirm_queue]
    refine hinv.confirmed hqueue rfl hv (.address h)
      (fun k hk => ⟨(LaunchAnswer.address.inj hk).symm, hreturned⟩) _ ⟨hlaunched, rfl, hkills⟩
      ⟨rfl, rfl, rfl⟩ (fun k _ => congrFun hservices k) (.inr ⟨congrFun hservices h, ?_, nofun⟩)
    rintro (hm | ⟨kill, hm⟩) <;> cases hm
  | error h => exact hinv.removed hqueue (.inl rfl) hv .error nofun
  | remove h kill =>
    rw [dispatch, confirm_forget]
    refine hinv.removed hqueue (.inr ⟨kill, rfl⟩) hv _ fun k => ?_
    cases kill <;> nofun
  | kill h => exact hinv.killed hqueue hv
  | killName h =>
    have hpop := hinv.pop hqueue hv
    refine hpop.retire hv ?_
    have hreported := (hinv.each h v hv).reported (hok (.killName h) (hqueue ▸ rfl))
    have hrest (m' : LauncherMessage) (hne : m' ≠ .killName h) (hmem : m' ∈ s.queue) :
        m' ∈ rest := by
      rw [hqueue] at hmem
      exact (mem_cons.mp hmem).resolve_left hne
    refine hreported.imp (fun ⟨m', hmem, hm'⟩ => ⟨m', hrest m' ?_ hmem, hm'⟩)
      (Or.imp (hrest _ nofun) id)
    rintro rfl
    rcases hm' with hm' | ⟨kill, hm'⟩ <;> cases hm'

theorem LauncherInv.launch (hinv : LauncherInv s) (ok : Bool) : LauncherInv (s.launch ok) := by
  have hrequests (l : List LaunchAnswer) {i : ℕ} {l' : List LaunchAnswer}
      (hl : (s.requests ++ [l])[i]? = some l') :
      s.requests[i]? = some l' ∨ i = s.requests.length ∧ l' = l := by
    rw [getElem?_append] at hl
    split at hl
    · exact .inl hl
    · next hlt =>
      rw [getElem?_singleton] at hl
      obtain ⟨hzero, heq⟩ := ite_none_right_eq_some.mp hl
      exact .inr ⟨by omega, (some.inj heq).symm⟩
  have hlt {h : ℕ} {v : LaunchedService} (hv : s.launched[h]? = some v) :
      v.request < s.requests.length := by
    rcases (hinv.each h v hv).answered with ⟨-, hl⟩ | ⟨-, a, hl, -⟩
    · exact (List.getElem?_eq_some_iff.mp hl).1
    · exact (List.getElem?_eq_some_iff.mp hl).1
  unfold Launcher.launch
  split
  · have hnone : s.launched[s.launched.length]? = none := getElem?_eq_none (Nat.le_refl _)
    have hcases {k : ℕ} {u : LaunchedService}
        (hu : (s.launched ++ [⟨s.requests.length, .created, true, false⟩])[k]? = some u) :
        s.launched[k]? = some u ∧ k ≠ s.launched.length
          ∨ k = s.launched.length ∧ u = ⟨s.requests.length, .created, true, false⟩ := by
      rw [getElem?_append] at hu
      split at hu
      · next hlt => exact .inl ⟨hu, Nat.ne_of_lt hlt⟩
      · rw [getElem?_singleton] at hu
        obtain ⟨hzero, heq⟩ := ite_none_right_eq_some.mp hu
        exact .inr ⟨by omega, (some.inj heq).symm⟩
    have hqueue (m : LauncherMessage) (hm : aboutService m = s.launched.length) :
        m ∉ s.queue := fun hmem => hinv.messages m hmem (hm ▸ hnone)
    have hkept {k : ℕ} (hk : s.launched[k]? ≠ none) :
        (s.launched ++ [⟨s.requests.length, .created, true, false⟩])[k]? ≠ none := by
      obtain ⟨v, hv⟩ := ne_none_iff_exists'.mp hk
      rw [getElem?_append_left (List.getElem?_eq_some_iff.mp hv).1]
      exact hk
    refine ⟨fun k u hu => ?_, fun k k' u u' hu hu' heq => ?_, fun k hk => ?_,
      fun m hm => hkept (hinv.messages m hm), fun k hk => hkept (hinv.doomed k hk),
      fun i l hl => ?_⟩
    · rcases hcases hu with ⟨hu, hne⟩ | ⟨rfl, rfl⟩
      · exact (hinv.each k u hu).other (update_of_ne hne ..)
          (update_of_ne hne ..) (update_of_ne hne ..)
          (getElem?_append_left (hlt hu)) (fun _ _ _ => Iff.rfl) Iff.rfl
      · have hnot : ¬ Removing s s.launched.length := fun ⟨m, hmem, hm⟩ =>
          hqueue m (aboutService_of_removes hm) hmem
        refine ⟨?_, .inl ⟨update_self .., getElem?_concat_length ..⟩, nofun,
          fun hmem => absurd hmem (hqueue _ rfl), nofun, fun hg => ?_, fun hor => ?_,
          fun _ => .inl (update_self ..), fun hmem => ?_⟩
        · change Function.update _ _ _ _ = Function.update _ _ _ _
          rw [update_self, update_self]
        · rcases hg with hg | hg | hg | hg <;> cases hg
        · rcases hor with hfalse | hr
          · exact absurd ((update_self ..).symm.trans hfalse) (by decide)
          · exact absurd hr hnot
        · exact absurd hnone (hinv.doomed _ hmem)
    · rcases hcases hu with ⟨hu, hne⟩ | ⟨rfl, rfl⟩
      · rcases hcases hu' with ⟨hu', -⟩ | ⟨-, rfl⟩
        · exact hinv.distinct k k' u u' hu hu' heq
        · exact absurd heq (Nat.ne_of_lt (hlt hu))
      · rcases hcases hu' with ⟨hu', -⟩ | ⟨rfl, -⟩
        · exact absurd heq.symm (Nat.ne_of_lt (hlt hu'))
        · rfl
    · have hne : k ≠ s.launched.length := by
        rintro rfl
        simp at hk
      obtain ⟨hservices, hinstances, hsession⟩ := hinv.fresh k (by
        rw [List.getElem?_eq_none_iff] at hk ⊢
        rw [length_append] at hk
        omega)
      exact ⟨(update_of_ne hne ..).trans hservices, (update_of_ne hne ..).trans hinstances,
        (update_of_ne hne ..).trans hsession⟩
    · rcases hrequests [] hl with hl | ⟨rfl, -⟩
      · refine (hinv.owned i l hl).imp id fun ⟨k, u, hu, hreq⟩ => ⟨k, u, ?_, hreq⟩
        exact getElem?_append_left (List.getElem?_eq_some_iff.mp hu).1 ▸ hu
      · exact .inr ⟨s.launched.length, _, getElem?_concat_length .., rfl⟩
  · refine ⟨fun k u hu => ?_, hinv.distinct, hinv.fresh, hinv.messages, hinv.doomed,
      fun i l hl => ?_⟩
    · exact (hinv.each k u hu).other rfl rfl rfl (getElem?_append_left (hlt hu))
        (fun _ _ _ => Iff.rfl) Iff.rfl
    · rcases hrequests [.error] hl with hl | ⟨-, rfl⟩
      · exact hinv.owned i l hl
      · exact .inl rfl

/-! ## Kills -/

theorem LauncherInv.kill (hinv : LauncherInv s) (hv : s.launched[h]? = some v) :
    LauncherInv { s.send (.remove h true) with kills := s.kills ++ [h] } := by
  have hinvv := hinv.each h v hv
  have hr : Removing { s.send (.remove h true) with kills := s.kills ++ [h] } h :=
    ⟨.remove h true, mem_append_right _ (mem_singleton_self _), .inr ⟨true, rfl⟩⟩
  refine hinv.update (w := v) hv (launched_same hv) rfl (fun _ _ => ⟨rfl, rfl, rfl⟩)
    (fun _ _ => rfl) (fun m hm => ?_) (fun k hk => ?_) ?_
  · change m ∈ s.queue ++ [.remove h true] ↔ _
    rw [mem_append, mem_singleton]
    refine or_iff_left ?_
    rintro rfl
    exact hm rfl
  · rw [mem_append, mem_singleton]
    exact or_iff_left hk
  · refine ⟨hinvv.session, hinvv.answered,
      fun hs hne => mem_append_left _ (hinvv.started hs hne), fun hok => ?_, hinvv.ended,
      fun _ => .inl hr, fun _ => .inr (mem_append_right _ (mem_singleton_self h)),
      fun _ => .inr hr, fun _ => .inl hr⟩
    exact hinvv.returned ((mem_append.mp hok).resolve_right (by simp))

theorem LauncherInv.dead (hinv : LauncherInv s) (hv : s.launched[h]? = some v)
    (hkill : h ∈ s.kills) : LauncherInv { s.retire h with kills := s.kills.erase h } := by
  have hinvv := hinv.each h v hv
  have hgone := hinvv.killing hkill
  rw [retire_eq hv]
  refine hinv.update hv (launched_set hv) rfl (fun _ _ => ⟨rfl, rfl, rfl⟩) (fun _ _ => rfl)
    (fun _ _ => Iff.rfl) (fun k hk => mem_erase_of_ne hk) ?_
  exact ⟨hinvv.session, hinvv.answered, hinvv.started, hinvv.returned, fun _ => rfl,
    fun _ => hgone.imp id .inr, fun _ => .inl (.inl rfl), hinvv.listed, fun _ => hgone⟩

theorem LauncherInv.killCommand (hinv : LauncherInv s) (hv : s.launched[h]? = some v) :
    LauncherInv (s.send (.kill h)) := by
  have hinvv := hinv.each h v hv
  have hmem {m : LauncherMessage} (hm : m ∈ s.queue ++ [.kill h]) : m = .kill h ∨ m ∈ s.queue :=
    (mem_append.mp hm).symm.imp mem_singleton.mp id
  refine hinv.update (w := v) hv (launched_same hv) rfl (fun _ _ => ⟨rfl, rfl, rfl⟩)
    (fun _ _ => rfl) (fun m hm => ⟨fun hsent => ?_, mem_append_left _⟩)
    (fun _ _ => Iff.rfl) ?_
  · refine (hmem hsent).resolve_left ?_
    rintro rfl
    exact hm rfl
  · have hremoving : Removing (s.send (.kill h)) h → Removing s h := by
      rintro ⟨m, hsent, hm⟩
      refine ⟨m, (hmem hsent).resolve_left ?_, hm⟩
      rintro rfl
      rcases hm with hm | ⟨kill, hm⟩ <;> cases hm
    have hkept (hr : Removing s h) : Removing (s.send (.kill h)) h := hr.append rfl
    exact ⟨hinvv.session, hinvv.answered, fun hs hne => mem_append_left _ (hinvv.started hs hne),
      fun hok => hinvv.returned ((hmem hok).resolve_left nofun), hinvv.ended,
      fun hg => (hinvv.gone hg).imp hkept (Or.imp (mem_append_left _) id),
      fun hor => hinvv.leaving (hor.imp id hremoving), fun hne => (hinvv.listed hne).imp id hkept,
      fun hkill => (hinvv.killing hkill).imp hkept id⟩

theorem LauncherInv.killNameCommand (hinv : LauncherInv s) (hv : s.launched[h]? = some v) :
    LauncherInv (s.send (.killName h)) := by
  have hmem {m : LauncherMessage} (hne : m ≠ .killName h) :
      m ∈ s.queue ++ [.killName h] ↔ m ∈ s.queue := by
    rw [mem_append, mem_singleton]
    exact or_iff_left hne
  refine hinv.update (w := v) hv (launched_same hv) rfl (fun _ _ => ⟨rfl, rfl, rfl⟩)
    (fun _ _ => rfl) (fun m hm => hmem ?_) (fun _ _ => Iff.rfl) ?_
  · rintro rfl
    exact hm rfl
  · exact (hinv.each h v hv).other rfl rfl rfl rfl (fun m _ hne => hmem hne) Iff.rfl

/-! ## Runs -/

/-- Every command keeps the invariant. -/
theorem LauncherInv.step {a : LauncherAction} (hinv : LauncherInv s)
    (hok : NamedKillsReported s a) (hstep : next s a = some s') : LauncherInv s' := by
  have hlaunched {h : ℕ} {t : Launcher} (hstep : (if h < s.launched.length then some t else none)
      = some s') : (∃ v, s.launched[h]? = some v) ∧ t = s' := by
    obtain ⟨hlt, hstep⟩ := ite_none_right_eq_some.mp hstep
    exact ⟨⟨_, getElem?_eq_getElem hlt⟩, some.inj hstep⟩
  cases a with
  | launch ok =>
    cases hstep
    exact hinv.launch ok
  | handle =>
    cases hqueue : s.queue with
    | nil => simp [Launcher.next, hqueue] at hstep
    | cons m rest =>
      simp only [Launcher.next, hqueue, some.injEq] at hstep
      subst hstep
      exact hinv.handle hqueue hok
  | load h =>
    obtain ⟨v, hv, hstage, rfl⟩ := proceed_some hstep
    have hstage := mem_singleton.mp hstage
    refine hinv.go hv nofun rfl ((hinv.each h v hv).quiet rfl rfl nofun nofun ?_)
    simp [Going, hstage]
  | loadFailed h =>
    obtain ⟨v, hv, -, rfl⟩ := proceed_some hstep
    exact hinv.go hv (by simp [aboutService]) rfl
      ((hinv.each h v hv).leaves (.inl rfl) (.inr rfl))
  | returned h =>
    obtain ⟨v, hv, hstage, rfl⟩ := proceed_some hstep
    have hstage := mem_singleton.mp hstage
    refine hinv.go hv (by simp [aboutService]) rfl ((hinv.each h v hv).go rfl (fun _ => rfl)
      (fun _ => mem_singleton_self _) (fun _ => rfl) nofun (fun hg => ?_) (fun hg => .inl ?_)
      ?_)
    · simpa [Going, hstage] using hg
    · simpa [Going, hstage] using hg
    · simp [RemovesService]
  | raised h =>
    obtain ⟨v, hv, -, rfl⟩ := proceed_some hstep
    exact hinv.go hv (by simp [aboutService]) rfl
      ((hinv.each h v hv).leaves (.inl rfl) (.inl rfl))
  | exit h =>
    obtain ⟨v, hv, -, rfl⟩ := proceed_some hstep
    exact hinv.go hv (by simp [aboutService]) rfl
      ((hinv.each h v hv).leaves (.inr ⟨false, rfl⟩) (.inr rfl))
  | exited h =>
    obtain ⟨v, hv, hstage, rfl⟩ := proceed_some hstep
    have hstage := mem_singleton.mp hstage
    refine hinv.go hv nofun rfl ((hinv.each h v hv).quiet rfl rfl nofun (fun _ => rfl) ?_)
    simp [Going, hstage]
  | vanished h =>
    obtain ⟨v, hv, hstep⟩ := bind_eq_some_iff.mp hstep
    obtain ⟨halive, hstep⟩ := ite_none_left_eq_some.mp hstep
    obtain ⟨v', hv', -, rfl⟩ := proceed_some hstep
    obtain rfl : v = v' := some.inj (hv.symm.trans hv')
    have hdead : v.alive = false := Bool.eq_false_iff.mpr halive
    refine hinv.go hv nofun rfl ((hinv.each h v hv).quiet rfl rfl nofun (fun _ => hdead) ?_)
    simp [Going, hdead]
  | kill h =>
    obtain ⟨⟨v, hv⟩, rfl⟩ := hlaunched hstep
    exact hinv.kill hv
  | killed h =>
    obtain ⟨hmem, hstep⟩ := ite_none_right_eq_some.mp hstep
    cases hstep
    obtain ⟨v, hv⟩ := ne_none_iff_exists'.mp (hinv.doomed h hmem)
    exact hinv.dead hv hmem
  | killName h =>
    obtain ⟨⟨v, hv⟩, rfl⟩ := hlaunched hstep
    exact hinv.retire hv ((hinv.each h v hv).reported hok)
  | killCommand h =>
    obtain ⟨⟨v, hv⟩, rfl⟩ := hlaunched hstep
    exact hinv.killCommand hv
  | killNameCommand h =>
    obtain ⟨⟨v, hv⟩, rfl⟩ := hlaunched hstep
    exact hinv.killNameCommand hv

theorem launcherInv_run (h : machine.Reach NamedKillsReported s) : LauncherInv s := by
  refine h.invariant ?_ fun _ _ _ hinv hok hstep => hinv.step hok hstep
  rintro s rfl
  exact .init

def LauncherQuiet (s : Launcher) : Prop := s.queue = [] ∧ s.kills = []

/-- The answers of the requests and, once all messages are handled, the lists. -/
structure LaunchesAnswered (s : Launcher) : Prop where
  once : ∀ (i : ℕ) l, s.requests[i]? = some l → l.length ≤ 1
  address : ∀ (i : ℕ) l h, s.requests[i]? = some l → .address h ∈ l →
    ∃ v, s.launched[h]? = some v ∧ v.request = i ∧ v.returned = true
  notLaunched : ∀ (i : ℕ) l, s.requests[i]? = some l → (∀ v ∈ s.launched, v.request ≠ i) →
    l = [.error]
  settled : LauncherQuiet s → ∀ (h : ℕ) v, s.launched[h]? = some v →
    (v.stage ≠ .created ∧ v.stage ≠ .starting) ∨ v.alive = false →
    (∃ a, s.requests[v.request]? = some [a]) ∧ s.instances h = none ∧ s.launchSession h = none
  listed : LauncherQuiet s → (∀ v ∈ s.launched, v.stage ≠ .raised ∧ v.stage ≠ .exiting) →
    ∀ h : ℕ, s.services h = true ↔ ∃ v, s.launched[h]? = some v ∧ v.alive = true

theorem LaunchInv.settled (hv : LaunchInv s h v) (hquiet : LauncherQuiet s)
    (hstage : (v.stage ≠ .created ∧ v.stage ≠ .starting) ∨ v.alive = false) :
    s.instances h = none := by
  obtain ⟨hqueue, -⟩ := hquiet
  have hgone (hg : Going v) : s.instances h = none := by
    rcases hv.gone hg with ⟨m, hmem, -⟩ | hmem | ⟨hnone, -⟩
    · exact absurd hmem (hqueue ▸ not_mem_nil)
    · exact absurd hmem (hqueue ▸ not_mem_nil)
    · exact hnone
  rcases hstage with ⟨hcreated, hstarting⟩ | halive
  · cases hstage : v.stage with
    | created => exact absurd hstage hcreated
    | starting => exact absurd hstage hstarting
    | raised => exact hgone (.inr (.inl hstage))
    | exiting => exact hgone (.inr (.inr (.inl hstage)))
    | ended => exact hgone (.inr (.inr (.inr hstage)))
    | started =>
      by_contra hne
      exact absurd (hv.started hstage hne) (hqueue ▸ not_mem_nil)
  · exact hgone (.inl halive)

theorem LaunchInv.listed_iff (hv : LaunchInv s h v) (hquiet : LauncherQuiet s)
    (hstage : v.stage ≠ .raised ∧ v.stage ≠ .exiting) : s.services h = true ↔ v.alive = true := by
  obtain ⟨hqueue, hkills⟩ := hquiet
  constructor
  · intro htrue
    by_contra halive
    rcases hv.gone (.inl (Bool.eq_false_iff.mpr halive)) with ⟨m, hmem, -⟩ | hmem | ⟨-, hfalse⟩
    · exact absurd hmem (hqueue ▸ not_mem_nil)
    · exact absurd hmem (hqueue ▸ not_mem_nil)
    · rw [htrue] at hfalse
      cases hfalse
  · intro halive
    by_contra hfalse
    rcases hv.leaving (.inl (Bool.eq_false_iff.mpr hfalse)) with hg | hmem
    · rcases hg with hdead | hraised | hexiting | hended
      · rw [hdead] at halive
        cases halive
      · exact hstage.1 hraised
      · exact hstage.2 hexiting
      · rw [hv.ended hended] at halive
        cases halive
    · exact absurd hmem (hkills ▸ not_mem_nil)

theorem LauncherInv.answered (hinv : LauncherInv s) : LaunchesAnswered s where
  once := fun i l hl => by
    rcases hinv.owned i l hl with rfl | ⟨h, v, hv, rfl⟩
    · exact Nat.le_refl _
    · rcases (hinv.each h v hv).answered with ⟨-, hnil⟩ | ⟨-, a, ha, -⟩
      · rw [some.inj (hl.symm.trans hnil)]
        exact Nat.zero_le _
      · rw [some.inj (hl.symm.trans ha)]
        exact Nat.le_refl _
  address := fun i l k hl hmem => by
    rcases hinv.owned i l hl with rfl | ⟨h, v, hv, rfl⟩
    · cases mem_singleton.mp hmem
    · rcases (hinv.each h v hv).answered with ⟨-, hnil⟩ | ⟨-, a, ha, haddress⟩
      · rw [some.inj (hl.symm.trans hnil)] at hmem
        cases hmem
      · rw [some.inj (hl.symm.trans ha)] at hmem
        obtain ⟨rfl, hreturned⟩ := haddress k (mem_singleton.mp hmem).symm
        exact ⟨v, hv, rfl, hreturned⟩
  notLaunched := fun i l hl hnot => by
    refine (hinv.owned i l hl).resolve_right fun ⟨h, v, hv, hreq⟩ => ?_
    exact hnot v (mem_of_getElem? hv) hreq
  settled := fun hquiet h v hv hstage => by
    have hinvv := hinv.each h v hv
    have hnone := hinvv.settled hquiet hstage
    rcases hinvv.answered with ⟨hsome, -⟩ | ⟨-, a, ha, -⟩
    · rw [hnone] at hsome
      cases hsome
    · exact ⟨⟨a, ha⟩, hnone, hinvv.session.trans hnone⟩
  listed := fun hquiet hstages h => by
    cases hv : s.launched[h]? with
    | none => simp [(hinv.fresh h hv).1]
    | some v =>
      rw [(hinv.each h v hv).listed_iff hquiet (hstages v (mem_of_getElem? hv))]
      simp

/-- Each request has at most one answer, and one once the service has finished its initialisation
or is dead; then the launcher has only the services that are alive. -/
theorem launch_answered_once (s : Launcher) :
    machine.Reach NamedKillsReported s → LaunchesAnswered s :=
  fun h => (launcherInv_run h).answered

/-- Two launches; the first service starts, the second one is killed by its number while its start
function runs, and once more by its address string. -/
theorem launches_answered : ∃ s, LaunchesAnswered s ∧ LauncherQuiet s
    ∧ s.requests = [[.address 0], [.error]] ∧ s.services 0 = true ∧ s.services 1 = false := by
  have hrun : (machine.runOk NamedKillsReported init [.launch true, .load 0, .launch true,
      .returned 0, .load 1, .kill 1, .handle, .killName 1, .handle, .killed 1, .vanished 1]).map
      (fun s => decide ((s.queue = [] ∧ s.kills = []) ∧ s.requests = [[.address 0], [.error]]
        ∧ s.services 0 = true ∧ s.services 1 = false)) = some true := by
    decide
  obtain ⟨s, hs, hstate⟩ := map_eq_some_iff.mp hrun
  obtain ⟨hquiet, hrest⟩ := of_decide_eq_true hstate
  exact ⟨s, launch_answered_once s (.runOk (.start rfl) hs), hquiet, hrest⟩

/-- A service is killed by its address string while its start function runs: nobody tells the
launcher, and the request is never answered. -/
theorem launch_unanswered : ∃ s v, machine.Reachable s ∧ LauncherQuiet s
    ∧ s.launched[0]? = some v ∧ v.alive = false ∧ s.requests = [[]] ∧ s.instances 0 = some 0
    ∧ s.launchSession 0 = some 0 ∧ s.services 0 = true ∧ ¬ LaunchesAnswered s := by
  have hrun : (machine.run init [.launch true, .load 0, .killName 0, .vanished 0]).map
      (fun s => decide ((s.queue = [] ∧ s.kills = [])
        ∧ s.launched[0]? = some ⟨0, .ended, false, false⟩ ∧ s.requests = [[]]
        ∧ s.instances 0 = some 0 ∧ s.launchSession 0 = some 0 ∧ s.services 0 = true))
      = some true := by
    decide
  obtain ⟨s, hs, hstate⟩ := map_eq_some_iff.mp hrun
  obtain ⟨hquiet, hv, hrequests, hinstances, hsession, hservices⟩ := of_decide_eq_true hstate
  refine ⟨s, _, Machine.Reachable.run (.start rfl) hs, hquiet, hv, rfl, hrequests, hinstances,
    hsession, hservices, fun hanswered => ?_⟩
  have hnone := (hanswered.settled hquiet 0 _ hv (.inr rfl)).2.1
  exact nomatch hinstances.symm.trans hnone

end Skynet.Analysis
