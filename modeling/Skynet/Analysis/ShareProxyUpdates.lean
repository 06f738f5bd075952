import Skynet.Model.ShareProxies

/-!
# The update of a tree of proxies

`update` walks from a proxy through the caches, and puts every proxy that it reaches on the table
of the new version; an entry whose key has no table there leaves its cache.  The proxies that it
does not reach stay as they are.
-/

namespace Skynet.Analysis

open Library Model ShareProxies Function List

variable {ps qs : ℕ → ShareProxy} {v : Conf} {count gcobj x y : ℕ}

theorem sub_append (c : Conf) (p q : List Scalar) :
    c.sub (p ++ q) = (c.sub p).bind fun c => c.sub q := by
  induction p generalizing c with
  | nil => rfl
  | cons key p ih =>
    simp only [cons_append, Conf.sub]
    split
    · exact ih _
    · rfl

theorem sub_inner {c : Conf} {p q : List Scalar} (h : (c.sub (p ++ q)).isSome) :
    (c.sub p).isSome := by
  rw [sub_append] at h
  cases hp : c.sub p with
  | none => simp [hp] at h
  | some _ => rfl

/-! ## The caches are a tree -/

/-- What is in a cache is a later proxy, which has the other one as its parent and its own key
behind the keys of this one. -/
structure CacheTree (count : ℕ) (ps : ℕ → ShareProxy) : Prop where
  later : ∀ x e, e ∈ (ps x).children → x < e.2 ∧ e.2 < count
  parent : ∀ x e, e ∈ (ps x).children → (ps e.2).parent = some x
  path : ∀ x e, e ∈ (ps x).children → (ps e.2).obj.2 = (ps x).obj.2 ++ [e.1]

inductive UpdateReaches (v : Conf) (ps : ℕ → ShareProxy) (x : ℕ) : ℕ → Prop
  | self : UpdateReaches v ps x x
  | child {y : ℕ} {e : Scalar × ℕ} (hy : UpdateReaches v ps x y) (he : e ∈ (ps y).children)
      (htable : (v.sub ((ps y).obj.2 ++ [e.1])).isSome) : UpdateReaches v ps x e.2

def updatedProxy (v : Conf) (gcobj : ℕ) (p : ShareProxy) : ShareProxy := { p with
    obj := (gcobj, p.obj.2)
    gcobj := gcobj
    cache := p.cache.map (·.filter fun e => (v.sub (p.obj.2 ++ [e.1])).isSome) }

theorem updatedProxy_children (p : ShareProxy) : (updatedProxy v gcobj p).children
    = p.children.filter fun e => (v.sub (p.obj.2 ++ [e.1])).isSome := by
  unfold ShareProxy.children updatedProxy
  cases p.cache with
  | none => rfl
  | some l => rfl

theorem dropChild_children (p : ShareProxy) (k : Scalar) :
    (p.dropChild k).children = p.children.filter (·.1 ≠ k) := by
  unfold ShareProxy.children ShareProxy.dropChild
  cases p.cache with
  | none => rfl
  | some l => rfl

def SameUpdate (v : Conf) (gcobj : ℕ) (ps qs : ℕ → ShareProxy) : Prop :=
  ∀ y, updatedProxy v gcobj (qs y) = updatedProxy v gcobj (ps y)

theorem SameUpdate.path (h : SameUpdate v gcobj ps qs) (y : ℕ) : (qs y).obj.2 = (ps y).obj.2 :=
  congrArg (fun p => p.obj.2) (h y)

theorem SameUpdate.parent (h : SameUpdate v gcobj ps qs) (y : ℕ) : (qs y).parent = (ps y).parent :=
  congrArg (fun p => p.parent) (h y)

theorem SameUpdate.symm (h : SameUpdate v gcobj ps qs) : SameUpdate v gcobj qs ps :=
  fun y => (h y).symm

variable {e : Scalar × ℕ}

theorem SameUpdate.mem (h : SameUpdate v gcobj ps qs) (he : e ∈ (ps y).children)
    (htable : (v.sub ((ps y).obj.2 ++ [e.1])).isSome) : e ∈ (qs y).children := by
  have hmem : e ∈ (updatedProxy v gcobj (qs y)).children := by
    rw [h y, updatedProxy_children]
    exact mem_filter.mpr ⟨he, htable⟩
  rw [updatedProxy_children] at hmem
  exact (mem_filter.mp hmem).1

theorem SameUpdate.reaches (h : SameUpdate v gcobj ps qs) (hy : UpdateReaches v ps x y) :
    UpdateReaches v qs x y := by
  induction hy with
  | self => exact .self
  | child _ he htable ih => exact .child ih (h.mem he htable) (h.path _ ▸ htable)

theorem updatedProxy_idem (p : ShareProxy) :
    updatedProxy v gcobj (updatedProxy v gcobj p) = updatedProxy v gcobj p := by
  obtain ⟨parent, key, obj, g, cache⟩ := p
  cases cache with
  | none => rfl
  | some l =>
    simp only [updatedProxy, Option.map_some, filter_filter, Bool.and_self]

theorem UpdateReaches.le (htree : CacheTree count ps) (h : UpdateReaches v ps x y) : x ≤ y := by
  induction h with
  | self => exact le_rfl
  | child _ he _ ih => exact ih.trans (htree.later _ _ he).1.le

theorem UpdateReaches.cases_self (h : UpdateReaches v ps x y) : y = x ∨
    ∃ e ∈ (ps x).children, (v.sub ((ps x).obj.2 ++ [e.1])).isSome ∧ UpdateReaches v ps e.2 y := by
  induction h with
  | self => exact .inl rfl
  | child _ he htable ih =>
    rcases ih with rfl | ⟨e, hmem, htab, hreach⟩
    · exact .inr ⟨_, he, htable, .self⟩
    · exact .inr ⟨e, hmem, htab, hreach.child he htable⟩

theorem UpdateReaches.head (he : e ∈ (ps x).children)
    (htable : (v.sub ((ps x).obj.2 ++ [e.1])).isSome) (h : UpdateReaches v ps e.2 y) :
    UpdateReaches v ps x y := by
  induction h with
  | self => exact .child .self he htable
  | child _ he' htable' ih => exact ih.child he' htable'

theorem SameUpdate.tree (h : SameUpdate v gcobj ps qs) (htree : CacheTree count ps)
    (hsub : ∀ y, ∀ e ∈ (qs y).children, e ∈ (ps y).children) : CacheTree count qs := by
  refine ⟨fun y e he => htree.later y e (hsub y e he), fun y e he => ?_, fun y e he => ?_⟩
  · rw [h.parent]
    exact htree.parent y e (hsub y e he)
  · rw [h.path, h.path]
    exact htree.path y e (hsub y e he)

/-! ## The loop over the children -/

structure UpdateLoop (v : Conf) (gcobj : ℕ) (ps : ℕ → ShareProxy) (x : ℕ)
    (left : List (Scalar × ℕ)) (qs : ℕ → ShareProxy) : Prop where
  same : SameUpdate v gcobj ps qs
  caches : ∀ y, ∀ e ∈ (qs y).children, e ∈ (ps y).children
  obj : (qs x).obj.1 = gcobj ∧ (qs x).gcobj = gcobj
  cache : ∀ e ∈ (qs x).children, (v.sub ((ps x).obj.2 ++ [e.1])).isSome ∨ e ∈ left
  untouched : ∀ y, ¬ UpdateReaches v ps x y → qs y = ps y
  done : ∀ e ∈ (ps x).children, e ∉ left → (v.sub ((ps x).obj.2 ++ [e.1])).isSome →
    ∀ y, UpdateReaches v ps e.2 y → qs y = updatedProxy v gcobj (ps y)

structure UpdateDone (v : Conf) (gcobj : ℕ) (ps : ℕ → ShareProxy) (x : ℕ)
    (qs : ℕ → ShareProxy) : Prop where
  reached : ∀ y, UpdateReaches v ps x y → qs y = updatedProxy v gcobj (ps y)
  untouched : ∀ y, ¬ UpdateReaches v ps x y → qs y = ps y

theorem updateLoop_start (v : Conf) (gcobj : ℕ) (ps : ℕ → ShareProxy) (x : ℕ) :
    UpdateLoop v gcobj ps x (ps x).children
      (update ps x { ps x with obj := (gcobj, (ps x).obj.2), gcobj := gcobj }) := by
  have hchildren (y : ℕ) : (update ps x
      { ps x with obj := (gcobj, (ps x).obj.2), gcobj := gcobj } y).children
        = (ps y).children := by
    by_cases hy : y = x
    · subst hy
      rw [update_self]
      rfl
    · rw [update_of_ne hy]
  refine ⟨fun y => ?_, fun y e he => ?_, ?_, fun e he => .inr ?_, fun y hy => ?_, ?_⟩
  · by_cases hy : y = x
    · subst hy
      rw [update_self]
      rfl
    · rw [update_of_ne hy]
  · rwa [hchildren] at he
  · rw [update_self]
    exact ⟨rfl, rfl⟩
  · rwa [hchildren] at he
  · refine update_of_ne ?_ _ _
    rintro rfl
    exact hy .self
  · exact fun e he hleft => absurd he hleft

theorem UpdateLoop.descend {left : List (Scalar × ℕ)} {rs : ℕ → ShareProxy}
    (h : UpdateLoop v gcobj ps x (e :: left) qs) (htree : CacheTree count ps)
    (he : e ∈ (ps x).children) (htable : (v.sub ((ps x).obj.2 ++ [e.1])).isSome)
    (hdone : UpdateDone v gcobj qs e.2 rs) : UpdateLoop v gcobj ps x left rs := by
  have hreached {y : ℕ} (hy : UpdateReaches v ps e.2 y) : rs y = updatedProxy v gcobj (ps y) := by
    rw [hdone.reached y (h.same.reaches hy), h.same]
  have hstays {y : ℕ} (hy : ¬ UpdateReaches v ps e.2 y) : rs y = qs y :=
    hdone.untouched y fun hq => hy (h.same.symm.reaches hq)
  have hx : ¬ UpdateReaches v ps e.2 x := by
    intro hx
    have := hx.le htree
    have := (htree.later x e he).1
    omega
  refine ⟨fun y => ?_, fun y e' he' => ?_, ?_, fun e' he' => ?_, fun y hy => ?_,
    fun e' he' hleft htable' y hy => ?_⟩
  · by_cases hy : UpdateReaches v ps e.2 y
    · rw [hreached hy, updatedProxy_idem]
    · rw [hstays hy, h.same]
  · by_cases hy : UpdateReaches v ps e.2 y
    · rw [hreached hy, updatedProxy_children] at he'
      exact (mem_filter.mp he').1
    · rw [hstays hy] at he'
      exact h.caches y e' he'
  · rw [hstays hx]
    exact h.obj
  · rw [hstays hx] at he'
    rcases h.cache e' he' with htab | hmem
    · exact .inl htab
    · rcases mem_cons.mp hmem with rfl | hmem
      · exact .inl htable
      · exact .inr hmem
  · rw [hstays fun hy' => hy (hy'.head he htable), h.untouched y hy]
  · by_cases hye : UpdateReaches v ps e.2 y
    · exact hreached hye
    · rw [hstays hye]
      refine h.done e' he' (fun hmem => ?_) htable' y hy
      rcases mem_cons.mp hmem with rfl | hmem
      · exact hye hy
      · exact hleft hmem

theorem UpdateLoop.drop {left : List (Scalar × ℕ)} (h : UpdateLoop v gcobj ps x (e :: left) qs)
    (htree : CacheTree count ps) (hnone : ¬ (v.sub ((ps x).obj.2 ++ [e.1])).isSome) : UpdateLoop v
    gcobj ps x left (update qs x ((qs x).dropChild e.1)) := by
  have hchildren {y : ℕ} {e' : Scalar × ℕ}
      (he' : e' ∈ (update qs x ((qs x).dropChild e.1) y).children) :
      e' ∈ (qs y).children ∧ (y = x → e'.1 ≠ e.1) := by
    by_cases hy : y = x
    · subst hy
      rw [update_self, dropChild_children] at he'
      obtain ⟨hmem, hne⟩ := mem_filter.mp he'
      exact ⟨hmem, fun _ => by simpa using hne⟩
    · rw [update_of_ne hy] at he'
      exact ⟨he', fun heq => absurd heq hy⟩
  refine ⟨fun y => ?_, fun y e' he' => h.caches y e' (hchildren he').1, ?_, fun e' he' => ?_,
    fun y hy => ?_, fun e' he' hleft htable y hy => ?_⟩
  · by_cases hy : y = x
    · subst hy
      rw [update_self, ← h.same]
      have hpath := h.same.path y
      revert hpath
      generalize qs y = p
      intro hpath
      obtain ⟨parent, key, obj, g, cache⟩ := p
      cases cache with
      | none => rfl
      | some l =>
        simp only [updatedProxy, ShareProxy.dropChild, Option.map_some, filter_filter]
        congr 2
        refine filter_congr fun e' _ => ?_
        by_cases heq : e'.1 = e.1
        · rw [heq]
          rw [hpath]
          simpa using hnone
        · simp [heq]
    · rw [update_of_ne hy, h.same]
  · rw [update_self]
    exact h.obj
  · obtain ⟨hmem, hne⟩ := hchildren he'
    rcases h.cache e' hmem with htab | hin
    · exact .inl htab
    · rcases mem_cons.mp hin with rfl | hin
      · exact absurd rfl (hne rfl)
      · exact .inr hin
  · rw [update_of_ne]
    · exact h.untouched y hy
    · rintro rfl
      exact hy .self
  · have hle := hy.le htree
    have hlt := (htree.later x e' he').1
    rw [update_of_ne (by omega)]
    refine h.done e' he' (fun hmem => ?_) htable y hy
    rcases mem_cons.mp hmem with rfl | hmem
    · exact hnone htable
    · exact hleft hmem

theorem UpdateLoop.finish (h : UpdateLoop v gcobj ps x [] qs) : UpdateDone v gcobj ps x qs := by
  refine ⟨fun y hy => ?_, h.untouched⟩
  rcases hy.cases_self with rfl | ⟨e, he, htable, hreach⟩
  · rw [← h.same y]
    have hpath := h.same.path y
    have hcache := h.cache
    obtain ⟨hobj, hg⟩ := h.obj
    revert hpath hcache hobj hg
    generalize qs y = p
    intro hpath hcache hobj hg
    obtain ⟨parent, key, obj, g, cache⟩ := p
    simp only at hpath hobj hg
    subst hg hobj
    cases cache with
    | none => rfl
    | some l =>
      simp only [updatedProxy, Option.map_some, ShareProxy.mk.injEq, true_and, Option.some.injEq]
      refine (filter_eq_self.mpr fun e he => ?_).symm
      rcases hcache e he with htab | hmem
      · exact hpath ▸ htab
      · exact absurd hmem not_mem_nil
  · exact h.done e he not_mem_nil htable y hreach

theorem updateProxy_done {calls : ℕ} (htree : CacheTree count ps) (hx : x < count)
    (hcalls : count ≤ calls + x) :
    UpdateDone v gcobj ps x (updateProxy v gcobj calls ps x (ps x).obj.2) := by
  induction calls generalizing ps x with
  | zero => omega
  | succ calls ih =>
    have hloop (left : List (Scalar × ℕ)) (hleft : ∀ e ∈ left, e ∈ (ps x).children)
        (qs : ℕ → ShareProxy) (hqs : UpdateLoop v gcobj ps x left qs) :
        UpdateLoop v gcobj ps x [] (left.foldl (fun qs e =>
          if (v.sub ((ps x).obj.2 ++ [e.1])).isSome then
            updateProxy v gcobj calls qs e.2 ((ps x).obj.2 ++ [e.1])
          else update qs x ((qs x).dropChild e.1)) qs) := by
      induction left generalizing qs with
      | nil => exact hqs
      | cons e left ihleft =>
        have he := hleft e mem_cons_self
        rw [foldl_cons]
        refine ihleft (fun e' he' => hleft e' (mem_cons_of_mem _ he')) _ ?_
        split
        · next htable =>
          have hlater := htree.later x e he
          have hpath : (ps x).obj.2 ++ [e.1] = (qs e.2).obj.2 := by
            rw [hqs.same.path, htree.path x e he]
          rw [hpath]
          exact hqs.descend htree he htable
            (ih (hqs.same.tree htree hqs.caches) hlater.2 (by omega))
        · next hnone => exact hqs.drop htree hnone
    exact (hloop _ (fun _ he => he) _ (updateLoop_start v gcobj ps x)).finish

end Skynet.Analysis
