import Skynet.Analysis.ShareProxyUpdates

/-!
# Proxies of shared data follow the updates

A proxy is attached as long as the caches lead to it from the root.  All attached proxies are on
one version, the newest one that has arrived or the one that leads to it, and a read of one of
them takes all to the newest.

A proxy that has left the cache of its parent leads to the version after its own.  A read of it
takes the root there: this does no harm as long as this version is the newest.
-/

namespace Skynet.Analysis

open Library Model ShareProxies List Option

variable {s s' : ShareProxies} {x y j : ℕ} {v : Conf} {key : Scalar} {r : ProxyRead}

def newestVersion (s : ShareProxies) : ℕ := s.versions.length - 1

def proxyPath (s : ShareProxies) (x : ℕ) : List Scalar := (s.proxies x).obj.2

def newestTable (s : ShareProxies) (x : ℕ) : Option Conf := s.table (newestVersion s, proxyPath s x)

inductive Attached (ps : ℕ → ShareProxy) : ℕ → Prop
  | root : Attached ps 0
  | child {x : ℕ} {e : Scalar × ℕ} (hx : Attached ps x) (he : e ∈ (ps x).children) :
      Attached ps e.2

/-! ## Reads that are right -/

def IndexRight (s' : ShareProxies) (path : List Scalar) (c : Conf) (key : Scalar)
    (res : Except ProxyError ProxyItem) : Prop :=
  match lindexconf c key with
  | .error e => res = .error (.core e)
  | .ok (.scalar v) => res = .ok (.scalar v)
  | .ok (.table _) =>
    ∃ y, res = .ok (.proxy y) ∧ Attached s'.proxies y ∧ proxyPath s' y = path ++ [key]

/-- **A read gives what the newest version has** at the path of the proxy, and the error for a
missing key exactly if there is no table. -/
def ProxyReadRight (s : ShareProxies) (x : ℕ) (r : ProxyRead) : Prop :=
  match newestTable s x, r with
  | none, _ => (s.read x r).2 = .error .missing
  | some c, .index key => ∃ res, IndexRight (s.read x r).1 (proxyPath s x) c key res
      ∧ (s.read x r).2 = res.map .item
  | some c, .len => (s.read x r).2 = .ok (.len c.root.array.length)
  | some c, .next key =>
    match lnextkey c key with
    | .error e => (s.read x r).2 = .error (.core e)
    | .ok none => (s.read x r).2 = .ok .last
    | .ok (some k) => ∃ res, IndexRight (s.read x r).1 (proxyPath s x) c k res
        ∧ (s.read x r).2 = res.map (.next k)
  | some _, .flush => (s.read x r).2 = .ok .flushed

def ReadsData (s : ShareProxies) (x : ℕ) : ProxyRead → Prop
  | .index key => (s.proxies x).ownField key = false
  | .next key => ∀ c ∈ newestTable s x, ∀ k, lnextkey c key = .ok (some k) →
      (s.proxies x).ownField k = false
  | _ => True

/-- **The read does not take the root back**: the proxy is attached, or it has no table in the
newest version and leads to that. -/
def ReadsForward (s : ShareProxies) (x : ℕ) : Prop :=
  Attached s.proxies x ∨
    newestTable s x = none ∧ s.update (s.proxies x).gcobj = some (newestVersion s)

/-- No table has the key `__cache`, for which Lua looks in the data where a proxy has no cache. -/
def NoCacheKey (s : ShareProxies) : Prop := ∀ v ∈ s.versions, ∀ path c, v.sub path = some c →
  lindexconf c (.string "__cache".toUTF8.toList) = .ok (.scalar .nil)

def StepsForward (s : ShareProxies) : ProxyAction → Prop
  | .read x r => NoCacheKey s ∧ ReadsData s x r ∧ ReadsForward s x
  | _ => True

/-! ## Invariants -/

/-- **The proxies and the boxes** in every run: what is left of the proxies has its box, and a box
that is left has the box it leads to. -/
structure ProxyInv (s : ShareProxies) : Prop where
  root : 0 < s.count ∧ proxyPath s 0 = [] ∧ (s.proxies 0).parent = none
  rootLive : 0 ∉ s.dead
  tree : CacheTree s.count s.proxies
  parent : ∀ x < s.count, x ≠ 0 → ∃ p < x, (s.proxies x).parent = some p
  obj : ∀ x < s.count, (s.proxies x).obj.1 = (s.proxies x).gcobj
  arrived : ∀ x < s.count, (s.proxies x).gcobj < s.versions.length
  update : ∀ k j, s.update k = some j → k < j ∧ j < s.versions.length
  fresh : ∀ x, s.count ≤ x → (s.proxies x).children = []
  old : ∀ k ∈ s.released, k < s.versions.length
  boxed : ∀ x < s.count, x ∉ s.dead → (s.proxies x).gcobj ∉ s.released
  linked : ∀ k ∉ s.released, ∀ j, s.update k = some j → j ∉ s.released

/-- **The attached proxies** in a run that takes the root forward: they are all on one version,
the newest or one that leads to it. -/
structure ProxyForward (s : ShareProxies) : Prop where
  near : (s.proxies 0).gcobj = newestVersion s
    ∨ s.update (s.proxies 0).gcobj = some (newestVersion s)
  same : ∀ x, Attached s.proxies x → (s.proxies x).gcobj = (s.proxies 0).gcobj
  table : ∀ x, Attached s.proxies x → (s.table ((s.proxies 0).gcobj, proxyPath s x)).isSome

theorem proxyInv_init (v : Conf) : ProxyInv (init v) := by
  refine ⟨⟨?_, rfl, rfl⟩, ?_, ⟨?_, ?_, ?_⟩, ?_, ?_, ?_, ?_, ?_, ?_, ?_, ?_⟩
  all_goals simp [init, ShareProxy.children]

theorem attached_init (v : Conf) (h : Attached (init v).proxies x) : x = 0 := by
  cases h with
  | root => rfl
  | child _ he => cases he

theorem proxyForward_init (v : Conf) : ProxyForward (init v) := by
  refine ⟨.inl rfl, fun x hx => ?_, fun x hx => ?_⟩
  · rw [attached_init v hx]
  · rfl

theorem Attached.lt (h : ProxyInv s) (hx : Attached s.proxies x) : x < s.count := by
  cases hx with
  | root => exact h.root.1
  | child _ he => exact (h.tree.later _ _ he).2

theorem ProxyInv.findroot (h : ProxyInv s) {calls : ℕ} (hx : x < s.count) (hcalls : x ≤ calls) :
    findroot s.proxies calls x = 0 := by
  induction calls generalizing x with
  | zero =>
    rw [ShareProxies.findroot]
    omega
  | succ calls ih =>
    by_cases hzero : x = 0
    · subst hzero
      rw [ShareProxies.findroot, h.root.2.2]
    · obtain ⟨p, hp, hparent⟩ := h.parent x hx hzero
      rw [ShareProxies.findroot, hparent]
      exact ih (by omega) (by omega)

/-! ## The update of the root -/

theorem updateReaches_iff (h : ProxyInv s) :
    UpdateReaches v s.proxies 0 x
      ↔ Attached s.proxies x ∧ (v.sub (proxyPath s x)).isSome := by
  constructor
  · intro hx
    induction hx with
    | self => exact ⟨.root, by rw [h.root.2.1]; rfl⟩
    | child _ he htable ih => exact ⟨ih.1.child he, by rwa [proxyPath, h.tree.path _ _ he]⟩
  · rintro ⟨hx, htable⟩
    induction hx with
    | root => exact .self
    | child _ he ih =>
      rw [proxyPath, h.tree.path _ _ he] at htable
      exact (ih (sub_inner htable)).child he htable

variable {ps qs : ℕ → ShareProxy}

theorem attached_updated (hdone : UpdateDone v j ps 0 qs) :
    Attached qs x ↔ UpdateReaches v ps 0 x := by
  constructor
  · intro hx
    induction hx with
    | root => exact .self
    | child _ he ih =>
      rw [hdone.reached _ ih, updatedProxy_children] at he
      obtain ⟨hmem, htable⟩ := mem_filter.mp he
      exact ih.child hmem htable
  · intro hx
    induction hx with
    | self => exact .root
    | child hy he htable ih =>
      refine ih.child ?_
      rw [hdone.reached _ hy, updatedProxy_children]
      exact mem_filter.mpr ⟨he, htable⟩

theorem UpdateDone.cases (hdone : UpdateDone v j ps 0 qs) (x : ℕ) :
    qs x = updatedProxy v j (ps x) ∨ qs x = ps x := by
  by_cases hx : UpdateReaches v ps 0 x
  · exact .inl (hdone.reached x hx)
  · exact .inr (hdone.untouched x hx)

theorem UpdateDone.children (hdone : UpdateDone v j ps 0 qs) {x : ℕ}
    {e : Scalar × ℕ} (he : e ∈ (qs x).children) : e ∈ (ps x).children := by
  rcases hdone.cases x with heq | heq
  · rw [heq, updatedProxy_children] at he
    exact (mem_filter.mp he).1
  · rwa [heq] at he

theorem UpdateDone.same (hdone : UpdateDone v j ps 0 qs) (x : ℕ) :
    (qs x).parent = (ps x).parent ∧ (qs x).obj.2 = (ps x).obj.2 := by
  rcases hdone.cases x with heq | heq
  · rw [heq]
    exact ⟨rfl, rfl⟩
  · rw [heq]
    exact ⟨rfl, rfl⟩

theorem ProxyInv.updated (h : ProxyInv s) {qs : ℕ → ShareProxy}
    (hdone : UpdateDone v j s.proxies 0 qs) (hj : j < s.versions.length) (hbox : j ∉ s.released) :
    ProxyInv { s with proxies := qs } := by
  have hsame := hdone.same
  refine ⟨⟨h.root.1, ?_, ?_⟩, h.rootLive, ⟨?_, ?_, ?_⟩, ?_, ?_, ?_, h.update, ?_, h.old, ?_,
    h.linked⟩
  · exact (hsame 0).2.trans h.root.2.1
  · exact (hsame 0).1.trans h.root.2.2
  · exact fun x e he => h.tree.later x e (hdone.children he)
  · exact fun x e he => (hsame e.2).1.trans (h.tree.parent x e (hdone.children he))
  · intro x e he
    rw [(hsame e.2).2, (hsame x).2]
    exact h.tree.path x e (hdone.children he)
  · intro x hx hzero
    obtain ⟨p, hp, hparent⟩ := h.parent x hx hzero
    exact ⟨p, hp, (hsame x).1.trans hparent⟩
  · intro x hx
    change (qs x).obj.1 = (qs x).gcobj
    rcases hdone.cases x with heq | heq
    · rw [heq]
      rfl
    · rw [heq]
      exact h.obj x hx
  · intro x hx
    change (qs x).gcobj < _
    rcases hdone.cases x with heq | heq
    · rw [heq]
      exact hj
    · rw [heq]
      exact h.arrived x hx
  · intro x hx
    refine eq_nil_iff_forall_not_mem.mpr fun e he => ?_
    have hmem := hdone.children he
    rw [h.fresh x hx] at hmem
    cases hmem
  · intro x hx hdead
    change (qs x).gcobj ∉ _
    rcases hdone.cases x with heq | heq
    · rw [heq]
      exact hbox
    · rw [heq]
      exact h.boxed x hx hdead

theorem getcobj_current
    (h : s.isdirty (s.proxies x).obj = true → s.update (s.proxies x).gcobj = none) :
    s.getcobj x = (s, some (s.proxies x).obj) := by
  by_cases hdirty : s.isdirty (s.proxies x).obj = true
  · simp only [getcobj, hdirty, if_true, h hdirty]
  · simp only [getcobj, if_neg hdirty]

theorem ProxyInv.getcobj_update (h : ProxyInv s) (hx : x < s.count)
    (hj : s.update (s.proxies x).gcobj = some j) :
    ∃ v qs, s.versions[j]? = some v ∧ UpdateDone v j s.proxies 0 qs
      ∧ (UpdateReaches v s.proxies 0 x →
          s.getcobj x = ({ s with proxies := qs }, some (j, proxyPath s x)))
      ∧ (¬ UpdateReaches v s.proxies 0 x → s.getcobj x = ({ s with proxies := qs }, none)) := by
  obtain ⟨hlt, hlen⟩ := h.update _ _ hj
  have hobj := h.obj x hx
  have hdirty : s.isdirty (s.proxies x).obj = true := by
    simp only [isdirty, Bool.or_eq_true, decide_eq_true_eq]
    exact .inl (by omega)
  obtain ⟨v, hv⟩ : ∃ v, s.versions[j]? = some v := ⟨_, getElem?_eq_getElem hlen⟩
  have hdone : UpdateDone v j s.proxies 0 (updateProxy v j s.count s.proxies 0 []) := by
    have hspec : UpdateDone v j s.proxies 0
        (updateProxy v j s.count s.proxies 0 (s.proxies 0).obj.2) :=
      updateProxy_done h.tree h.root.1 (Nat.le_add_right s.count 0)
    rwa [show (s.proxies 0).obj.2 = [] from h.root.2.1] at hspec
  have hget : s.getcobj x =
      if (updateProxy v j s.count s.proxies 0 [] x).obj = (s.proxies x).obj then
        ({ s with proxies := updateProxy v j s.count s.proxies 0 [] }, none)
      else ({ s with proxies := updateProxy v j s.count s.proxies 0 [] },
        some (updateProxy v j s.count s.proxies 0 [] x).obj) := by
    unfold getcobj
    simp only [hdirty, if_true, hj, h.findroot hx hx.le, updateRoot, hv]
  refine ⟨v, _, hv, hdone, fun hreach => ?_, fun hreach => ?_⟩
  · have hnew : (updateProxy v j s.count s.proxies 0 [] x).obj = (j, proxyPath s x) := by
      rw [hdone.reached x hreach]
      rfl
    rw [hget, hnew, if_neg]
    intro heq
    have : j = (s.proxies x).obj.1 := congrArg Prod.fst heq
    omega
  · rw [hget, if_pos (congrArg ShareProxy.obj (hdone.untouched x hreach))]

/-! ## Children -/

def newChild (s : ShareProxies) (x : ℕ) (key : Scalar) : ShareProxies := { s with
    proxies := Function.update (Function.update s.proxies s.count
      ⟨some x, key, ((s.proxies x).obj.1, proxyPath s x ++ [key]), (s.proxies x).gcobj, none⟩) x
      ((s.proxies x).addChild key s.count)
    count := s.count + 1 }

theorem child_cases (s : ShareProxies) (x : ℕ) (key : Scalar) :
    (∃ y, (key, y) ∈ (s.proxies x).children ∧ s.child x key (s.proxies x).obj = (s, y))
      ∨ s.child x key (s.proxies x).obj = (newChild s x key, s.count) := by
  unfold child
  split
  · next y hy =>
    obtain ⟨l, l', hl, -⟩ := lookup_eq_some_iff.mp hy
    exact .inl ⟨y, hl ▸ mem_append_right l mem_cons_self, rfl⟩
  · exact .inr rfl

theorem newChild_proxies (s : ShareProxies) (x : ℕ) (key : Scalar) (y : ℕ) :
    (newChild s x key).proxies y =
      if y = x then (s.proxies x).addChild key s.count
      else if y = s.count then
        ⟨some x, key, ((s.proxies x).obj.1, proxyPath s x ++ [key]), (s.proxies x).gcobj, none⟩
      else s.proxies y := by
  simp only [newChild, Function.update_apply]

theorem newChild_same (s : ShareProxies) (x : ℕ) (key : Scalar) {y : ℕ}
    (hy : y < s.count) : ((newChild s x key).proxies y).parent = (s.proxies y).parent
      ∧ ((newChild s x key).proxies y).obj = (s.proxies y).obj
      ∧ ((newChild s x key).proxies y).gcobj = (s.proxies y).gcobj := by
  rw [newChild_proxies, if_neg (by omega : y ≠ s.count)]
  split
  · next heq =>
    subst heq
    exact ⟨rfl, rfl, rfl⟩
  · exact ⟨rfl, rfl, rfl⟩

theorem newChild_new (hx : x < s.count) (key : Scalar) :
    (newChild s x key).proxies s.count =
      ⟨some x, key, ((s.proxies x).obj.1, proxyPath s x ++ [key]), (s.proxies x).gcobj, none⟩ := by
  rw [newChild_proxies, if_neg (by omega), if_pos rfl]

theorem newChild_children (h : ProxyInv s) (x : ℕ) (key : Scalar) {y : ℕ}
    {e : Scalar × ℕ} : e ∈ ((newChild s x key).proxies y).children
      ↔ e ∈ (s.proxies y).children ∨ y = x ∧ e = (key, s.count) := by
  rw [newChild_proxies]
  by_cases hyx : y = x
  · subst hyx
    rw [if_pos rfl]
    simp only [ShareProxy.addChild, ShareProxy.children, getD_some, mem_cons, true_and]
    exact or_comm
  · rw [if_neg hyx]
    simp only [hyx, false_and, or_false]
    split
    · next heq =>
      rw [heq, h.fresh s.count le_rfl]
      simp [ShareProxy.children]
    · exact Iff.rfl

theorem ProxyInv.newChild (h : ProxyInv s) (hx : x < s.count) (hdead : x ∉ s.dead)
    (key : Scalar) : ProxyInv (newChild s x key) := by
  have hsame {y : ℕ} (hy : y < s.count) := newChild_same s x key hy
  have hnewest := newChild_new hx key
  have hcount : (Analysis.newChild s x key).count = s.count + 1 := rfl
  refine ⟨⟨?_, ?_, ?_⟩, h.rootLive, ⟨?_, ?_, ?_⟩, ?_, ?_, ?_, h.update, ?_, h.old, ?_, h.linked⟩
  · omega
  · rw [proxyPath, (hsame h.root.1).2.1]
    exact h.root.2.1
  · rw [(hsame h.root.1).1]
    exact h.root.2.2
  · intro y e he
    rcases (newChild_children h x key).mp he with hold | ⟨rfl, rfl⟩
    · have := h.tree.later y e hold
      omega
    · omega
  · intro y e he
    rcases (newChild_children h x key).mp he with hold | ⟨rfl, rfl⟩
    · rw [(hsame (h.tree.later y e hold).2).1]
      exact h.tree.parent y e hold
    · rw [hnewest]
  · intro y e he
    rcases (newChild_children h x key).mp he with hold | ⟨rfl, rfl⟩
    · have hlater := h.tree.later y e hold
      rw [(hsame hlater.2).2.1, (hsame (by omega : y < s.count)).2.1]
      exact h.tree.path y e hold
    · rw [hnewest, (hsame hx).2.1]
      rfl
  · intro y hy hzero
    by_cases heq : y = s.count
    · subst heq
      exact ⟨x, hx, by rw [hnewest]⟩
    · obtain ⟨p, hp, hparent⟩ := h.parent y (by omega) hzero
      exact ⟨p, hp, by rw [(hsame (by omega)).1, hparent]⟩
  · intro y hy
    by_cases heq : y = s.count
    · subst heq
      rw [hnewest]
      exact h.obj x hx
    · rw [(hsame (by omega)).2.1, (hsame (by omega)).2.2]
      exact h.obj y (by omega)
  · intro y hy
    by_cases heq : y = s.count
    · subst heq
      rw [hnewest]
      exact h.arrived x hx
    · rw [(hsame (by omega)).2.2]
      exact h.arrived y (by omega)
  · intro y hy
    refine eq_nil_iff_forall_not_mem.mpr fun e he => ?_
    rcases (newChild_children h x key).mp he with hold | ⟨rfl, -⟩
    · rw [h.fresh y (by omega)] at hold
      cases hold
    · omega
  · intro y hy hdead'
    by_cases heq : y = s.count
    · subst heq
      rw [hnewest]
      exact h.boxed x hx hdead
    · rw [(hsame (by omega)).2.2]
      exact h.boxed y (by omega) hdead'

theorem attached_newChild (h : ProxyInv s) (x : ℕ) (key : Scalar)
    (hy : Attached s.proxies y) : Attached (newChild s x key).proxies y := by
  induction hy with
  | root => exact .root
  | child _ he ih => exact ih.child ((newChild_children h x key).mpr (.inl he))

theorem attached_of_newChild (h : ProxyInv s) (key : Scalar)
    (hy : Attached (newChild s x key).proxies y) :
    Attached s.proxies y ∨ y = s.count ∧ Attached s.proxies x := by
  induction hy with
  | root => exact .inl .root
  | child _ he ih =>
    rcases (newChild_children h x key).mp he with hold | ⟨rfl, rfl⟩
    · rcases ih with hatt | ⟨rfl, -⟩
      · exact .inl (hatt.child hold)
      · rw [h.fresh s.count le_rfl] at hold
        cases hold
    · rcases ih with hatt | ⟨rfl, hatt⟩
      · exact .inr ⟨rfl, hatt⟩
      · exact .inr ⟨rfl, hatt⟩

/-! ## Reads -/

structure ReadFrame (s s' : ShareProxies) : Prop where
  versions : s'.versions = s.versions
  dead : s'.dead = s.dead
  count : s.count ≤ s'.count
  path : ∀ y < s.count, proxyPath s' y = proxyPath s y

theorem ReadFrame.refl (s : ShareProxies) : ReadFrame s s := ⟨rfl, rfl, le_rfl, fun _ _ => rfl⟩

theorem ReadFrame.trans {s'' : ShareProxies} (h : ReadFrame s s') (h' : ReadFrame s' s'') :
    ReadFrame s s'' := by
  refine ⟨h'.versions.trans h.versions, h'.dead.trans h.dead, h.count.trans h'.count,
    fun y hy => ?_⟩
  rw [h'.path y (hy.trans_le h.count), h.path y hy]

theorem ReadFrame.newest (h : ReadFrame s s') (hy : y < s.count) :
    newestTable s' y = newestTable s y := by
  rw [newestTable, newestTable, h.path y hy, newestVersion, newestVersion, table, table, h.versions]

theorem ProxyInv.getcobj (h : ProxyInv s) (hx : x < s.count) (hdead : x ∉ s.dead) :
    ProxyInv (s.getcobj x).1 ∧ ReadFrame s (s.getcobj x).1
      ∧ ∀ obj ∈ (s.getcobj x).2, obj = ((s.getcobj x).1.proxies x).obj := by
  cases hlink : s.update (s.proxies x).gcobj with
  | none =>
    rw [getcobj_current fun _ => hlink]
    exact ⟨h, .refl s, fun obj hobj => (some.inj hobj).symm⟩
  | some j =>
    obtain ⟨v, qs, -, hdone, hreach, hmiss⟩ := h.getcobj_update hx hlink
    have hinv : ProxyInv { s with proxies := qs } :=
      h.updated hdone (h.update _ _ hlink).2 (h.linked _ (h.boxed x hx hdead) _ hlink)
    have hframe : ReadFrame s { s with proxies := qs } :=
      ⟨rfl, rfl, le_rfl, fun y _ => (hdone.same y).2⟩
    by_cases hr : UpdateReaches v s.proxies 0 x
    · rw [hreach hr]
      refine ⟨hinv, hframe, fun obj hobj => ?_⟩
      rw [← some.inj hobj]
      change _ = (qs x).obj
      rw [hdone.reached x hr]
      rfl
    · rw [hmiss hr]
      exact ⟨hinv, hframe, fun obj hobj => nomatch hobj⟩

theorem readFrame_newChild (s : ShareProxies) (x : ℕ) (key : Scalar) :
    ReadFrame s (newChild s x key) :=
  ⟨rfl, rfl, Nat.le_succ _, fun _ hy => congrArg Prod.snd (newChild_same s x key hy).2.1⟩

theorem ProxyInv.indexTable (h : ProxyInv s) (hx : x < s.count) (hdead : x ∉ s.dead)
    (key : Scalar) : ProxyInv (s.indexTable x key (s.proxies x).obj).1
      ∧ ReadFrame s (s.indexTable x key (s.proxies x).obj).1 := by
  unfold ShareProxies.indexTable
  split
  · exact ⟨h, .refl s⟩
  · split
    · exact ⟨h, .refl s⟩
    · exact ⟨h, .refl s⟩
    · rcases child_cases s x key with ⟨y, -, hchild⟩ | hchild
      · rw [hchild]
        exact ⟨h, .refl s⟩
      · rw [hchild]
        exact ⟨h.newChild hx hdead key, readFrame_newChild s x key⟩

theorem ProxyInv.index (h : ProxyInv s) (hx : x < s.count) (hdead : x ∉ s.dead) (key : Scalar) :
    ProxyInv (s.index x key).1 ∧ ReadFrame s (s.index x key).1 := by
  obtain ⟨hinv, hframe, hobj⟩ := h.getcobj hx hdead
  unfold ShareProxies.index
  split
  · exact ⟨h, .refl s⟩
  · split
    · next s' hget =>
      rw [hget] at hinv hframe
      exact ⟨hinv, hframe⟩
    · next s' obj hget =>
      rw [hget] at hinv hframe hobj
      obtain ⟨hinv', hframe'⟩ :=
        hinv.indexTable (hx.trans_le hframe.count) (hframe.dead ▸ hdead) key
      rw [hobj obj rfl]
      exact ⟨hinv', hframe.trans hframe'⟩

theorem ProxyInv.read (h : ProxyInv s) (hx : x < s.count) (hdead : x ∉ s.dead) (r : ProxyRead) :
    ProxyInv (s.read x r).1 ∧ ReadFrame s (s.read x r).1 := by
  obtain ⟨hinv, hframe, -⟩ := h.getcobj hx hdead
  cases r with
  | index key => exact h.index hx hdead key
  | len =>
    simp only [ShareProxies.read, ShareProxies.len]
    split
    · next s' hget =>
      rw [hget] at hinv hframe
      exact ⟨hinv, hframe⟩
    · next s' obj hget =>
      rw [hget] at hinv hframe
      split
      · exact ⟨hinv, hframe⟩
      · exact ⟨hinv, hframe⟩
  | next key =>
    simp only [ShareProxies.read, nextItem]
    split
    · next s' hget =>
      rw [hget] at hinv hframe
      exact ⟨hinv, hframe⟩
    · next s' obj hget =>
      rw [hget] at hinv hframe
      split
      · exact ⟨hinv, hframe⟩
      · split
        · exact ⟨hinv, hframe⟩
        · exact ⟨hinv, hframe⟩
        · next nextkey _ =>
          obtain ⟨hinv', hframe'⟩ :=
            hinv.index (hx.trans_le hframe.count) (hframe.dead ▸ hdead) nextkey
          exact ⟨hinv', hframe.trans hframe'⟩
  | flush =>
    simp only [ShareProxies.read, ShareProxies.flush]
    split
    · next s' hget =>
      rw [hget] at hinv hframe
      exact ⟨hinv, hframe⟩
    · next s' obj hget =>
      rw [hget] at hinv hframe
      exact ⟨hinv, hframe⟩

theorem ProxyInv.arrive (h : ProxyInv s) (v : Conf) : ProxyInv (s.arrive v) := by
  have hlen : (s.arrive v).versions.length = s.versions.length + 1 := by
    simp [ShareProxies.arrive]
  have hupdate {k j : ℕ} (hk : (s.arrive v).update k = some j) :
      k = (s.proxies 0).gcobj ∧ j = s.versions.length ∨ s.update k = some j := by
    simp only [ShareProxies.arrive, Function.update_apply] at hk
    split at hk
    · next heq => exact .inl ⟨heq, (some.inj hk).symm⟩
    · exact .inr hk
  have hroot := h.arrived 0 h.root.1
  refine ⟨h.root, h.rootLive, h.tree, h.parent, h.obj, fun x hx => ?_, fun k j hk => ?_, h.fresh,
    fun k hk => ?_, h.boxed, fun k hk j hj hmem => ?_⟩
  · have := h.arrived x hx
    change (s.proxies x).gcobj < _
    omega
  · rcases hupdate hk with ⟨rfl, rfl⟩ | hold
    · omega
    · have := h.update k j hold
      omega
  · have := h.old k hk
    omega
  · rcases hupdate hj with ⟨rfl, rfl⟩ | hold
    · have := h.old _ hmem
      omega
    · exact h.linked k hk j hold hmem

theorem ProxyInv.release (h : ProxyInv s) {box : ℕ} (hbox : s.unboxed box) :
    ProxyInv { s with
      released := insert box s.released
      update := Function.update s.update box none } := by
  obtain ⟨hlt, -, hproxies, hboxes⟩ := hbox
  have hupdate {k j : ℕ} (hk : Function.update s.update box none k = some j) :
      k ≠ box ∧ s.update k = some j := by
    rw [Function.update_apply] at hk
    split at hk
    · cases hk
    · next hne => exact ⟨hne, hk⟩
  refine ⟨h.root, h.rootLive, h.tree, h.parent, h.obj, h.arrived,
    fun k j hk => h.update k j (hupdate hk).2, h.fresh, fun k hk => ?_,
    fun x hx hdead hmem => ?_, fun k hk j hj hmem => ?_⟩
  · rcases Finset.mem_insert.mp hk with rfl | hk
    · exact hlt
    · exact h.old k hk
  · rcases Finset.mem_insert.mp hmem with heq | hmem
    · exact hproxies x (mem_range.mpr hx) hdead heq
    · exact h.boxed x hx hdead hmem
  · obtain ⟨-, hlink⟩ := hupdate hj
    have hunreleased : k ∉ s.released := fun hmem' => hk (Finset.mem_insert_of_mem hmem')
    rcases Finset.mem_insert.mp hmem with heq | hmem
    · have := h.update k j hlink
      exact hboxes k (mem_range.mpr (by omega)) hunreleased (heq ▸ hlink)
    · exact h.linked k hunreleased j hlink hmem

/-- Every read and arrival keeps the invariant. -/
theorem ProxyInv.next (h : ProxyInv s) {a : ProxyAction} (hnext : s.next a = some s') :
    ProxyInv s' := by
  cases a with
  | markdirty =>
    cases hnext
    exact { h with }
  | update v =>
    obtain ⟨-, hs'⟩ := ite_none_right_eq_some.mp hnext
    cases hs'
    exact h.arrive v
  | read x r =>
    obtain ⟨⟨hx, hdead⟩, hs'⟩ := ite_none_right_eq_some.mp hnext
    cases hs'
    exact (h.read hx hdead r).1
  | forget xs =>
    obtain ⟨⟨hroot, -⟩, hs'⟩ := ite_none_right_eq_some.mp hnext
    cases hs'
    have hrootLive : 0 ∉ s.dead ∪ xs := fun hmem =>
      (Finset.mem_union.mp hmem).elim h.rootLive hroot
    have hboxed (x : ℕ) (hx : x < s.count) (hdead : x ∉ s.dead ∪ xs) :
        (s.proxies x).gcobj ∉ s.released :=
      h.boxed x hx fun hmem => hdead (Finset.mem_union_left xs hmem)
    exact { h with
      rootLive := hrootLive
      boxed := hboxed }
  | release box =>
    obtain ⟨hbox, hs'⟩ := ite_none_right_eq_some.mp hnext
    cases hs'
    exact h.release hbox

end Skynet.Analysis
