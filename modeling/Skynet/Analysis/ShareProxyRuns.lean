import Skynet.Analysis.ShareProxies

/-!
# Runs of proxies of shared data

A run that takes the root forward keeps all attached proxies on one version, the newest or one
that leads to it; every read in it is right.  A read of a proxy that has left the cache of its
parent may take the root back, and then neither this proxy nor the root follows.
-/

namespace Skynet.Analysis

open Library Model ShareProxies Option

variable {s s' : ShareProxies} {x y j : ℕ} {v : Conf} {key : Scalar} {r : ProxyRead}

/-! ## Runs that take the root forward -/

structure KeepsAttached (s s' : ShareProxies) : Prop where
  forward : ProxyForward s'
  attached : ∀ y, Attached s.proxies y → (newestTable s' y).isSome → Attached s'.proxies y

theorem ProxyForward.newest (hf : ProxyForward s) (hx : Attached s.proxies x)
    (hnone : s.update (s.proxies x).gcobj = none) : (s.proxies x).gcobj = newestVersion s := by
  rw [hf.same x hx] at hnone ⊢
  rcases hf.near with hnear | hnear
  · exact hnear
  · rw [hnone] at hnear
    cases hnear

/-- An update of the root to the newest version. -/
theorem ProxyForward.updated (h : ProxyInv s) {qs : ℕ → ShareProxy}
    (hv : s.versions[newestVersion s]? = some v)
    (hdone : UpdateDone v (newestVersion s) s.proxies 0 qs) :
    KeepsAttached s { s with proxies := qs } := by
  have htable (p : List Scalar) : s.table (newestVersion s, p) = v.sub p := by
    simp only [ShareProxies.table, hv, bind_some]
  have hgcobj {y : ℕ} (hy : Attached qs y) : (qs y).gcobj = newestVersion s := by
    rw [hdone.reached y ((attached_updated hdone).mp hy)]
    rfl
  have hpath (y : ℕ) : (qs y).obj.2 = proxyPath s y := (hdone.same y).2
  refine ⟨⟨.inl (hgcobj .root), fun y hy => ?_, fun y hy => ?_⟩, fun y hy htab => ?_⟩
  · exact (hgcobj hy).trans (hgcobj .root).symm
  · change (s.table ((qs 0).gcobj, (qs y).obj.2)).isSome
    rw [hgcobj .root, hpath, htable]
    exact ((updateReaches_iff h).mp ((attached_updated hdone).mp hy)).2
  · refine (attached_updated hdone).mpr ((updateReaches_iff h).mpr ⟨hy, ?_⟩)
    rw [← htable]
    change (s.table (newestVersion s, (qs y).obj.2)).isSome at htab
    rwa [hpath] at htab

/-- A proxy that is read forward and leads to a version leads to the newest. -/
theorem ProxyForward.link (h : ProxyInv s) (hf : ProxyForward s) (hforward : ReadsForward s x)
    (hlink : s.update (s.proxies x).gcobj = some j) : j = newestVersion s := by
  obtain hatt | ⟨-, hnewest⟩ := hforward
  · rcases hf.near with hnear | hnear
    · have hlt := h.update _ _ hlink
      rw [hf.same x hatt, hnear, newestVersion] at hlt
      omega
    · rw [hf.same x hatt, hnear] at hlink
      exact (some.inj hlink).symm
  · exact some.inj (hlink.symm.trans hnewest)

theorem ProxyForward.getcobj (h : ProxyInv s) (hf : ProxyForward s) (hx : x < s.count)
    (hforward : ReadsForward s x) : KeepsAttached s (s.getcobj x).1
      ∧ (newestTable s x = none → (s.getcobj x).2 = none)
      ∧ ((newestTable s x).isSome → (s.getcobj x).2 = some (newestVersion s, proxyPath s x)
        ∧ Attached (s.getcobj x).1.proxies x) := by
  cases hlink : s.update (s.proxies x).gcobj with
  | none =>
    rw [getcobj_current fun _ => hlink]
    rcases hforward with hatt | ⟨-, hnewest⟩
    · have hnewest := hf.newest hatt hlink
      have hobj : (s.proxies x).obj = (newestVersion s, proxyPath s x) :=
        Prod.ext ((h.obj x hx).trans hnewest) rfl
      refine ⟨⟨hf, fun y hy _ => hy⟩, fun hnone => ?_, fun _ => ⟨congrArg some hobj, hatt⟩⟩
      have htable := hf.table x hatt
      rw [← hf.same x hatt, hnewest] at htable
      rw [newestTable] at hnone
      rw [hnone] at htable
      cases htable
    · rw [hlink] at hnewest
      cases hnewest
  | some j =>
    obtain rfl := hf.link h hforward hlink
    obtain ⟨v, qs, hv, hdone, hreach, hmiss⟩ := h.getcobj_update hx hlink
    have htable : newestTable s x = v.sub (proxyPath s x) := by
      simp only [newestTable, ShareProxies.table, hv, bind_some]
    have hkeeps := ProxyForward.updated h hv hdone
    by_cases hatt : Attached s.proxies x
    · rw [htable]
      by_cases hr : UpdateReaches v s.proxies 0 x
      · rw [hreach hr]
        have hsome := ((updateReaches_iff h).mp hr).2
        refine ⟨hkeeps, fun hnone => ?_, fun _ => ⟨rfl, (attached_updated hdone).mpr hr⟩⟩
        rw [hnone] at hsome
        cases hsome
      · rw [hmiss hr]
        exact ⟨hkeeps, fun _ => rfl, fun hsome =>
          absurd ((updateReaches_iff h).mpr ⟨hatt, hsome⟩) hr⟩
    · have hr : ¬ UpdateReaches v s.proxies 0 x := fun hr =>
        hatt ((updateReaches_iff h).mp hr).1
      rw [hmiss hr]
      refine ⟨hkeeps, fun _ => rfl, fun hsome => ?_⟩
      rcases hforward with hatt' | ⟨hnone, -⟩
      · exact absurd hatt' hatt
      · rw [hnone] at hsome
        cases hsome

theorem ProxyForward.newChild (h : ProxyInv s) (hf : ProxyForward s) (hatt : Attached s.proxies x)
    {key : Scalar} (htable : (s.table ((s.proxies x).gcobj, proxyPath s x ++ [key])).isSome) :
    KeepsAttached s (newChild s x key) := by
  have hx := hatt.lt h
  have hroot := newChild_same s x key h.root.1
  refine ⟨⟨?_, fun y hy => ?_, fun y hy => ?_⟩, fun y hy _ => attached_newChild h x key hy⟩
  · rw [hroot.2.2]
    exact hf.near
  · rw [hroot.2.2]
    rcases attached_of_newChild h key hy with hold | ⟨rfl, -⟩
    · rw [(newChild_same s x key (hold.lt h)).2.2]
      exact hf.same y hold
    · rw [newChild_new hx]
      exact hf.same x hatt
  · rw [hroot.2.2]
    rcases attached_of_newChild h key hy with hold | ⟨rfl, -⟩
    · rw [proxyPath, (newChild_same s x key (hold.lt h)).2.1]
      exact hf.table y hold
    · rw [proxyPath, newChild_new hx, ← hf.same x hatt]
      exact htable

theorem ProxyForward.indexTable (h : ProxyInv s) (hf : ProxyForward s)
    (hatt : Attached s.proxies x) (hobj : (s.proxies x).obj = (newestVersion s, proxyPath s x))
    {c : Conf} (hc : newestTable s x = some c) (key : Scalar) :
    KeepsAttached s (s.indexTable x key (s.proxies x).obj).1
      ∧ IndexRight (s.indexTable x key (s.proxies x).obj).1 (proxyPath s x) c key
        (s.indexTable x key (s.proxies x).obj).2 := by
  have htable : s.table (s.proxies x).obj = some c := hobj ▸ hc
  have hsame : KeepsAttached s s := ⟨hf, fun y hy _ => hy⟩
  unfold ShareProxies.indexTable IndexRight
  simp only [htable]
  cases hindex : lindexconf c key with
  | error e => exact ⟨hsame, rfl⟩
  | ok res =>
    cases res with
    | scalar v => exact ⟨hsame, rfl⟩
    | table tbl =>
      rcases child_cases s x key with ⟨y, hy, hchild⟩ | hchild
      · rw [hchild]
        exact ⟨hsame, y, rfl, hatt.child hy, h.tree.path x _ hy⟩
      rw [hchild]
      have hsub : s.table ((s.proxies x).gcobj, proxyPath s x ++ [key])
          = some ⟨tbl, c.strings⟩ := by
        rw [← h.obj x (hatt.lt h), ShareProxies.table]
        cases hv : s.versions[(s.proxies x).obj.1]? with
        | none =>
          rw [ShareProxies.table, hv] at htable
          cases htable
        | some v =>
          rw [ShareProxies.table, hv] at htable
          change v.sub (proxyPath s x) = some c at htable
          simp only [bind_some, sub_append, htable, Conf.sub, hindex]
      refine ⟨hf.newChild h hatt (by rw [hsub]; rfl), s.count, rfl, ?_, ?_⟩
      · exact (attached_newChild h x key hatt).child
          ((newChild_children h x key).mpr (.inr ⟨rfl, rfl⟩))
      · rw [proxyPath, newChild_new (hatt.lt h)]

theorem ProxyForward.index (h : ProxyInv s) (hf : ProxyForward s) (hx : x < s.count)
    (hdead : x ∉ s.dead) (hforward : ReadsForward s x) {key : Scalar}
    (hown : (s.proxies x).ownField key = false) : KeepsAttached s (s.index x key).1
      ∧ (newestTable s x = none → (s.index x key).2 = .error .missing)
      ∧ ∀ c ∈ newestTable s x,
        IndexRight (s.index x key).1 (proxyPath s x) c key (s.index x key).2 := by
  obtain ⟨hinv, hframe, hobj⟩ := h.getcobj hx hdead
  obtain ⟨hkeeps, hnone, hsome⟩ := hf.getcobj h hx hforward
  unfold ShareProxies.index
  rw [hown, if_neg Bool.false_ne_true]
  split
  · next s' hget =>
    rw [hget] at hkeeps
    refine ⟨hkeeps, fun _ => rfl, fun c hc => ?_⟩
    have := (hsome (by rw [hc]; rfl)).1
    rw [hget] at this
    cases this
  · next s' obj hget =>
    rw [hget] at hkeeps hinv hframe hobj hnone hsome
    have hnewest : newestTable s' x = newestTable s x := hframe.newest hx
    cases hc : newestTable s x with
    | none => exact absurd (hnone hc) (by simp)
    | some c =>
      obtain ⟨hpointer, hatt⟩ := hsome (by rw [hc]; rfl)
      have hobj' := hobj obj rfl
      have hat : (s'.proxies x).obj = (newestVersion s', proxyPath s' x) := by
        rw [← hobj', some.inj hpointer, newestVersion, newestVersion, hframe.versions,
          hframe.path x hx]
      obtain ⟨hkeeps', hright⟩ := hkeeps.forward.indexTable hinv hatt hat (hnewest.trans hc) key
      rw [hobj']
      rw [hframe.path x hx] at hright
      refine ⟨⟨hkeeps'.forward, fun y hy htab => ?_⟩, (fun hno => by cases hno), fun c' hc' => ?_⟩
      · have hy' := hy.lt h
        refine hkeeps'.attached y (hkeeps.attached y hy ?_) htab
        obtain ⟨-, hframe'⟩ := hinv.indexTable (hx.trans_le hframe.count) (hframe.dead ▸ hdead) key
        rwa [hframe'.newest (hy'.trans_le hframe.count)] at htab
      · exact some.inj hc' ▸ hright

theorem ownField_updatedProxy (p : ShareProxy) (key : Scalar) :
    (updatedProxy v j p).ownField key = p.ownField key := by
  unfold ShareProxy.ownField updatedProxy
  all_goals simp

theorem ProxyInv.getcobj_ownField (h : ProxyInv s) (hx : x < s.count) (key : Scalar) :
    ((s.getcobj x).1.proxies x).ownField key = (s.proxies x).ownField key := by
  cases hlink : s.update (s.proxies x).gcobj with
  | none => rw [getcobj_current fun _ => hlink]
  | some j =>
    obtain ⟨v, qs, -, hdone, hreach, hmiss⟩ := h.getcobj_update hx hlink
    by_cases hr : UpdateReaches v s.proxies 0 x
    · rw [hreach hr]
      change (qs x).ownField key = _
      rw [hdone.reached x hr, ownField_updatedProxy]
    · rw [hmiss hr]
      change (qs x).ownField key = _
      rw [hdone.untouched x hr]

theorem ProxyForward.read (h : ProxyInv s) (hf : ProxyForward s) (hx : x < s.count)
    (hdead : x ∉ s.dead) (hdata : ReadsData s x r) (hforward : ReadsForward s x) :
    KeepsAttached s (s.read x r).1 ∧ ProxyReadRight s x r := by
  obtain ⟨hinv, hframe, hobj⟩ := h.getcobj hx hdead
  obtain ⟨hkeeps, hnone, hsome⟩ := hf.getcobj h hx hforward
  have hpointer {c : Conf} (hc : newestTable s x = some c) :
      (s.getcobj x).2 = some (newestVersion s, proxyPath s x)
        ∧ (s.getcobj x).1.table (newestVersion s, proxyPath s x) = some c := by
    refine ⟨(hsome (by rw [hc]; rfl)).1, ?_⟩
    rw [← hc, newestTable, ShareProxies.table, ShareProxies.table, hframe.versions]
  have hgetcobj : s.getcobj x = ((s.getcobj x).1, (s.getcobj x).2) := rfl
  cases r with
  | index key =>
    obtain ⟨hkeeps', hmissing, hright⟩ := hf.index h hx hdead hforward hdata
    refine ⟨hkeeps', ?_⟩
    unfold ProxyReadRight
    cases hc : newestTable s x with
    | none =>
      simp only [ShareProxies.read, hmissing hc]
      rfl
    | some c => exact ⟨_, hright c hc, rfl⟩
  | len =>
    unfold ProxyReadRight
    simp only [ShareProxies.read, ShareProxies.len]
    cases hc : newestTable s x with
    | none =>
      rw [hgetcobj, hnone hc]
      exact ⟨hkeeps, rfl⟩
    | some c =>
      obtain ⟨hget, htable⟩ := hpointer hc
      rw [hgetcobj, hget]
      simp only [htable]
      exact ⟨hkeeps, trivial⟩
  | next key =>
    unfold ProxyReadRight
    simp only [ShareProxies.read, nextItem]
    cases hc : newestTable s x with
    | none =>
      rw [hgetcobj, hnone hc]
      exact ⟨hkeeps, rfl⟩
    | some c =>
      obtain ⟨hget, htable⟩ := hpointer hc
      rw [hgetcobj, hget]
      simp only [htable]
      cases hkey : lnextkey c key with
      | error e => exact ⟨hkeeps, rfl⟩
      | ok nextkey =>
        cases nextkey with
        | none => exact ⟨hkeeps, rfl⟩
        | some k =>
          have hatt := (hsome (by rw [hc]; rfl)).2
          have hown : ((s.getcobj x).1.proxies x).ownField k = false := by
            rw [h.getcobj_ownField hx]
            exact hdata c hc k hkey
          have hnewest := hframe.newest hx
          obtain ⟨hkeeps', -, hright⟩ := hkeeps.forward.index hinv
            (hx.trans_le hframe.count) (hframe.dead ▸ hdead) (.inl hatt) hown
          obtain ⟨-, hframe'⟩ := hinv.index (hx.trans_le hframe.count) (hframe.dead ▸ hdead) k
          refine ⟨⟨hkeeps'.forward, fun y hy htab => ?_⟩, _, ?_, rfl⟩
          · refine hkeeps'.attached y (hkeeps.attached y hy ?_) htab
            rwa [hframe'.newest ((hy.lt h).trans_le hframe.count)] at htab
          · rw [← hframe.path x hx]
            exact hright c (hnewest.trans hc)
  | flush =>
    unfold ProxyReadRight
    simp only [ShareProxies.read, ShareProxies.flush]
    cases hc : newestTable s x with
    | none =>
      rw [hgetcobj, hnone hc]
      exact ⟨hkeeps, rfl⟩
    | some c =>
      obtain ⟨hget, -⟩ := hpointer hc
      rw [hgetcobj, hget]
      exact ⟨hkeeps, rfl⟩

theorem ProxyForward.arrive (h : ProxyInv s) (hf : ProxyForward s) (v : Conf) :
    KeepsAttached s (s.arrive v) := by
  have hroot := h.arrived 0 h.root.1
  have hnewest : newestVersion (s.arrive v) = s.versions.length := by
    simp [newestVersion, ShareProxies.arrive]
  refine ⟨⟨.inr ?_, hf.same, fun x hx => ?_⟩, fun y hy _ => hy⟩
  · rw [hnewest]
    exact Function.update_self ..
  · have htable := hf.table x hx
    change ((s.versions ++ [v])[(s.proxies 0).gcobj]?.bind _).isSome
    rwa [List.getElem?_append_left hroot]

theorem ProxyForward.next (h : ProxyInv s) (hf : ProxyForward s) {a : ProxyAction}
    (hok : StepsForward s a) (hnext : s.next a = some s') : KeepsAttached s s' := by
  cases a with
  | markdirty =>
    cases hnext
    exact ⟨{ hf with }, fun y hy _ => hy⟩
  | update v =>
    obtain ⟨-, hs'⟩ := ite_none_right_eq_some.mp hnext
    cases hs'
    exact hf.arrive h v
  | read x r =>
    obtain ⟨⟨hx, hdead⟩, hs'⟩ := ite_none_right_eq_some.mp hnext
    cases hs'
    exact (hf.read h hx hdead hok.2.1 hok.2.2).1
  | forget xs =>
    obtain ⟨-, hs'⟩ := ite_none_right_eq_some.mp hnext
    cases hs'
    exact ⟨{ hf with }, fun y hy _ => hy⟩
  | release box =>
    obtain ⟨⟨-, -, hproxies, -⟩, hs'⟩ := ite_none_right_eq_some.mp hnext
    cases hs'
    have hne := hproxies 0 (List.mem_range.mpr h.root.1) h.rootLive
    refine ⟨⟨?_, hf.same, hf.table⟩, fun y hy _ => hy⟩
    exact hf.near.imp_right fun hlink => (Function.update_of_ne hne ..).trans hlink

/-! ## Runs -/

theorem proxyForward_run (hs : machine.Reach StepsForward s) : ProxyInv s ∧ ProxyForward s := by
  refine hs.invariant (I := fun s => ProxyInv s ∧ ProxyForward s) (fun s h => ?_)
    fun s a s' h hok hnext => ?_
  · obtain ⟨v, rfl⟩ := h
    exact ⟨proxyInv_init v, proxyForward_init v⟩
  · exact ⟨h.1.next hnext, (h.2.next h.1 hok hnext).forward⟩

theorem attached_steps {t : ShareProxies} (hs : machine.Reach StepsForward s)
    (hx : Attached s.proxies x)
    (hsteps : machine.Steps (fun t a => StepsForward t a ∧ (newestTable t x).isSome) s t)
    (htable : (newestTable t x).isSome) : machine.Reach StepsForward t ∧ Attached t.proxies x := by
  induction hsteps with
  | refl => exact ⟨hs, hx⟩
  | tail _ hstep ih =>
    obtain ⟨a, ⟨hok, hold⟩, hnext⟩ := hstep
    obtain ⟨hreach, hatt⟩ := ih hold
    obtain ⟨hinv, hforward⟩ := proxyForward_run hreach
    exact ⟨hreach.step hok hnext, (hforward.next hinv hok hnext).attached x hatt htable⟩

/-- **Proxies follow the updates.**  In a run that never takes the root back, what a read touches
has its box, every read is right, and a proxy that is attached, as each is that a read returns,
stays right as long as it has a table in the versions that arrive. -/
theorem proxies_follow_updates (s : ShareProxies) (hs : machine.Reach StepsForward s) :
    (∀ x < s.count, x ∉ s.dead →
      (s.proxies x).obj.1 ∉ s.released ∧ ∀ j ∈ s.update (s.proxies x).gcobj, j ∉ s.released)
    ∧ (∀ x < s.count, x ∉ s.dead → ∀ r, StepsForward s (.read x r) → ProxyReadRight s x r)
    ∧ ∀ x t, Attached s.proxies x →
      machine.Steps (fun t a => StepsForward t a ∧ (newestTable t x).isSome) s t →
      (newestTable t x).isSome → x ∉ t.dead →
        ∀ r, NoCacheKey t → ReadsData t x r → ProxyReadRight t x r := by
  obtain ⟨hinv, hforward⟩ := proxyForward_run hs
  refine ⟨fun x hx hdead => ?_, fun x hx hdead r hok => ?_, ?_⟩
  · have hbox := hinv.boxed x hx hdead
    rw [hinv.obj x hx]
    exact ⟨hbox, fun j hj => hinv.linked _ hbox j hj⟩
  · exact (hforward.read hinv hx hdead hok.2.1 hok.2.2).2
  · intro x t hx hsteps htable hdead r _ hdata
    obtain ⟨hreach, hatt⟩ := attached_steps hs hx hsteps htable
    obtain ⟨hinv, hforward⟩ := proxyForward_run hreach
    exact (hforward.read hinv (hatt.lt hinv) hdead hdata (.inl hatt)).2

/-- What an array part has at a key is one of its values, or `nil`. -/
theorem lindexconf_array {array : List ConfValue} {tbl : ConfTable}
    (h : lindexconf ⟨⟨array, []⟩, []⟩ key = .ok (.table tbl)) : tbl.value ∈ array := by
  cases key with
  | integer n =>
    simp only [lindexconf] at h
    split at h
    · next hrange =>
      have hlt : (toInt32 n.toInt - 1).toNat < array.length := by omega
      have hmem : array.getD (toInt32 n.toInt - 1).toNat .nil ∈ array := by
        rw [List.getD_eq_getElem _ _ hlt]
        exact List.getElem_mem hlt
      cases hv : array.getD (toInt32 n.toInt - 1).toNat .nil with
      | table a b =>
        rw [hv] at h hmem
        simp only [pushvalue, Except.ok.injEq, ConfRead.table.injEq] at h
        rw [← h]
        exact hmem
      | nil | real | string | boolean | integer =>
        rw [hv] at h
        simp [pushvalue] at h
    · simp [lookupKey, valueOfSlot, Except.map] at h
  | nil | boolean | real | lightuserdata => simp [lindexconf] at h
  | string str => simp [lindexconf, lookupKey, valueOfSlot, Except.map] at h

/-- A version with a table of truth values at 1. -/
def bitsAtOne (bits : List Bool) : Conf := ⟨⟨[.table (bits.map .boolean) []], []⟩, []⟩

theorem sub_bitsAtOne {bits : List Bool} {path : List Scalar} {c : Conf}
    (h : (bitsAtOne bits).sub path = some c) : c.root.hash = [] := by
  cases path with
  | nil => exact some.inj h ▸ rfl
  | cons key path =>
    rw [Conf.sub] at h
    split at h
    · next tbl hinner =>
      have htbl := List.mem_singleton.mp (lindexconf_array hinner)
      obtain rfl : tbl = ⟨bits.map .boolean, []⟩ := by
        cases tbl
        simpa [ConfTable.value] using htbl
      cases path with
      | nil => exact some.inj h ▸ rfl
      | cons key path =>
        rw [Conf.sub] at h
        split at h
        · next tbl hleaf =>
          have hmem : tbl.value ∈ bits.map ConfValue.boolean := lindexconf_array hleaf
          simp [ConfTable.value] at hmem
        · cases h
    · cases h

theorem noCacheKey_bitsAtOne (h : ∀ v ∈ s.versions, ∃ bits, v = bitsAtOne bits) :
    NoCacheKey s := by
  intro v hv path c hc
  obtain ⟨bits, rfl⟩ := h v hv
  simp [lindexconf, lookupKey, sub_bitsAtOne hc, valueOfSlot, Except.map]

/-- A proxy of the first version shows the table of the second. -/
theorem proxy_follows_update : ∃ s, ProxyReadRight s 1 .len ∧ (s.read 1 .len).2 = .ok (.len 2) := by
  have hread : StepsForward (init (bitsAtOne [])) (.read 0 (.index (.integer 1))) :=
    ⟨noCacheKey_bitsAtOne (by simp [init]), rfl, .inl .root⟩
  obtain ⟨s₁, hs₁, hversions₁⟩ : ∃ s₁, (init (bitsAtOne [])).next (.read 0 (.index (.integer 1))) =
      some s₁ ∧ s₁.versions = [bitsAtOne []] :=
    ⟨_, rfl, ((proxyInv_init (bitsAtOne [])).read (by decide) (by decide) _).2.versions⟩
  obtain ⟨s₂, hs₂, hversions₂⟩ : ∃ s₂, s₁.next .markdirty = some s₂ ∧ s₂.versions = s₁.versions :=
    ⟨_, rfl, rfl⟩
  obtain ⟨s₃, hs₃, hversions₃⟩ : ∃ s₃, s₂.next (.update (bitsAtOne [true, false])) = some s₃ ∧
      s₃.versions = s₂.versions ++ [bitsAtOne [true, false]] := by
    cases hs₂
    exact ⟨_, rfl, rfl⟩
  have hdirty : StepsForward s₁ .markdirty := trivial
  have hupdate : StepsForward s₂ (.update (bitsAtOne [true, false])) := trivial
  have hreach : machine.Reach StepsForward s₃ :=
    .step (.step (.step (.start ⟨_, rfl⟩) hread hs₁) hdirty hs₂) hupdate hs₃
  have hnone : NoCacheKey s₃ := noCacheKey_bitsAtOne fun v hv => by
    rw [hversions₃, hversions₂, hversions₁] at hv
    obtain rfl | rfl := by simpa using hv
    · exact ⟨_, rfl⟩
    · exact ⟨_, rfl⟩
  obtain ⟨hcount, hdead, hchild, hlen⟩ : 1 < s₃.count ∧ 1 ∉ s₃.dead ∧
      (Scalar.integer 1, 1) ∈ (s₃.proxies 0).children ∧ (s₃.read 1 .len).2 = .ok (.len 2) := by
    cases hs₁
    cases hs₂
    cases hs₃
    decide +kernel
  exact ⟨s₃, (proxies_follow_updates s₃ hreach).2.1 1 hcount hdead .len
    ⟨hnone, trivial, .inl (.child .root hchild)⟩, hlen⟩

def tableAtOne : Conf := ⟨⟨[.table [] []], []⟩, []⟩

def emptyConf : Conf := ⟨⟨[], []⟩, []⟩

/-- A proxy that has left the cache of the root is read when its key is back: the read is an
error, and the root is on the version without the key. -/
theorem dropped_proxy_missing : ∃ s x r, machine.Reachable s ∧ x < s.count ∧ x ∉ s.dead
    ∧ ReadsData s x r ∧ (newestTable s x).isSome ∧ (s.read x r).2 = .error .missing
    ∧ ¬ ProxyReadRight s x r := by
  have hrun : (machine.run (init tableAtOne) [.read 0 (.index (.integer 1)), .markdirty,
      .update emptyConf, .read 0 .len, .markdirty, .update tableAtOne, .read 0 .len]).map
      (fun s => (s.count, decide (1 ∈ s.dead), (newestTable s 1).isSome, (s.read 1 .len).2)) =
        some (2, false, true, .error .missing) := by
    decide +kernel
  obtain ⟨s, hs, hstate⟩ := map_eq_some_iff.mp hrun
  simp only [Prod.mk.injEq, decide_eq_false_iff_not] at hstate
  obtain ⟨hcount, hdead, htable, hmissing⟩ := hstate
  refine ⟨s, 1, .len, Machine.Reachable.run (.start ⟨_, rfl⟩) hs, by omega, hdead, trivial,
    htable, hmissing, fun hright => ?_⟩
  unfold ProxyReadRight at hright
  cases hc : newestTable s 1 with
  | none => simp [hc] at htable
  | some c =>
    rw [hc] at hright
    simp only [hmissing] at hright
    cases hright

end Skynet.Analysis
