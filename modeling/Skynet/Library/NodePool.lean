import Mathlib.Data.List.Perm.Subperm
import Skynet.Library.SharedList

/-!
# Lists that take their nodes from a pool

The nodes of several linked lists come from one pool: a node is taken from the list of
free nodes, filled and appended to a list, and when it is taken off the head of its list
it goes back to the free nodes.  `Holds p q contents` says that the pool `p` and the lists
`q` hold these contents, with every node free or in one list, and once there; `Shows`
says what a walk along one list reads.
-/

namespace Library

open Function List

/-- Nodes that are numbered as they are allocated.  `taken` and `returned` count how often
each was taken from the free nodes and returned to them. -/
structure NodePool (β : Type*) where
  count : ℕ
  next : ℕ → Option ℕ
  content : ℕ → Option β
  free : Option ℕ
  taken : ℕ → ℕ
  returned : ℕ → ℕ

namespace NodePool

variable {β ι : Type*}

def empty : NodePool β where
  count := 0
  next := fun _ => none
  content := fun _ => none
  free := none
  taken := fun _ => 0
  returned := fun _ => 0

/-- A page of `k` new nodes, linked in their order, where no node is free. -/
def newPage (p : NodePool β) (k : ℕ) : NodePool β := { p with
    count := p.count + k
    next := fun a =>
      if a < p.count then p.next a else if a + 1 < p.count + k then some (a + 1) else none
    content := fun a => if a < p.count then p.content a else none
    free := some p.count }

def take (p : NodePool β) (a : ℕ) (b : β) : NodePool β := { p with
    next := update p.next a none
    content := update p.content a (some b)
    free := p.next a
    taken := update p.taken a (p.taken a + 1) }

/-- The node `a` is put behind the last one of a list; head and tail have to agree on
whether there is one. -/
def append (p : NodePool β) (q : HeadTail ℕ) (a : ℕ) : Option (NodePool β × HeadTail ℕ) :=
  match q.head, q.tail with
  | none, none => some (p, ⟨some a, some a⟩)
  | some h, some t => some ({ p with next := update p.next t (some a) }, ⟨some h, some a⟩)
  | _, _ => none

def release (p : NodePool β) (a : ℕ) : NodePool β := { p with
    next := update p.next a p.free
    content := update p.content a none
    free := some a
    returned := update p.returned a (p.returned a + 1) }

/-- Where the nodes are: `nodes i` in the list `i`, the others in `free`. -/
structure Places (p : NodePool β) (nodes : ι → List ℕ) (free : List ℕ) : Prop where
  nodup : ∀ i, (nodes i).Nodup
  free_nodup : free.Nodup
  not_free : ∀ i, ∀ a ∈ nodes i, a ∉ free
  apart : ∀ i j, ∀ a ∈ nodes i, a ∈ nodes j → i = j
  all : ∀ a, a < p.count ↔ a ∈ free ∨ ∃ i, a ∈ nodes i
  used : ∀ i, ∀ a ∈ nodes i, p.taken a = p.returned a + 1
  unused : ∀ a, (∀ i, a ∉ nodes i) → p.taken a = p.returned a

structure Consists (p : NodePool β) (q : ι → HeadTail ℕ) (contents : ι → List β)
    (nodes : ι → List ℕ) (free : List ℕ) : Prop where
  places : p.Places nodes free
  free_list : Spells p.next p.free free
  lists : ∀ i, (q i).Holds p.next (nodes i)
  filled : ∀ i, (nodes i).map p.content = (contents i).map some

def Holds (p : NodePool β) (q : ι → HeadTail ℕ) (contents : ι → List β) : Prop :=
  ∃ nodes free, p.Consists q contents nodes free

def Shows (p : NodePool β) : Option ℕ → List β → Prop
  | ptr, [] => ptr = none
  | ptr, b :: bs => ∃ a, ptr = some a ∧ p.content a = some b ∧ p.Shows (p.next a) bs

theorem shows_of_spells {p : NodePool β} {ptr : Option ℕ} {l : List ℕ} {bs : List β}
    (h : Spells p.next ptr l) (hfilled : l.map p.content = bs.map some) : p.Shows ptr bs := by
  induction l generalizing ptr bs with
  | nil =>
    cases bs with
    | nil => exact h
    | cons b bs => cases hfilled
  | cons a l ih =>
    cases bs with
    | nil => cases hfilled
    | cons b bs =>
      rw [map_cons, map_cons, List.cons.injEq] at hfilled
      exact ⟨a, h.1, hfilled.1, ih h.2 hfilled.2⟩

theorem holds_empty : (empty : NodePool β).Holds (fun _ : ι => HeadTail.empty) fun _ => [] := by
  refine ⟨fun _ => [], [], ⟨fun _ => nodup_nil, nodup_nil, by simp, by simp, ?_, by simp,
    fun _ _ => rfl⟩, rfl, fun _ => HeadTail.holds_empty _, fun _ => rfl⟩
  simp [empty]

namespace Holds

variable {p : NodePool β} {q : ι → HeadTail ℕ} {contents : ι → List β}

theorem shows (h : p.Holds q contents) (i : ι) : p.Shows (q i).head (contents i) := by
  obtain ⟨nodes, free, hc⟩ := h
  exact shows_of_spells (hc.lists i).head (hc.filled i)

theorem length_le (h : p.Holds q contents) (i : ι) : (contents i).length ≤ p.count := by
  obtain ⟨nodes, free, hc⟩ := h
  have hlen : (nodes i).length = (contents i).length := by
    simpa using congrArg List.length (hc.filled i)
  have hsub : nodes i ⊆ range p.count := by
    intro a ha
    exact mem_range.mpr ((hc.places.all a).mpr (.inr ⟨i, ha⟩))
  have hle := (subperm_of_subset (hc.places.nodup i) hsub).length_le
  rw [length_range] at hle
  omega

theorem spells_newPage (p : NodePool β) (k : ℕ) (n : ℕ) (hn : n ≤ k) :
    Spells (p.newPage k).next (if n = 0 then none else some (p.count + k - n))
      (range' (p.count + k - n) n) := by
  induction n with
  | zero => rfl
  | succ n ih =>
    refine ⟨rfl, ?_⟩
    have hnext : (p.newPage k).next (p.count + k - (n + 1)) =
        if n = 0 then none else some (p.count + k - n) := by
      simp only [newPage]
      rw [if_neg (by omega)]
      by_cases h0 : n = 0
      · rw [if_pos h0, if_neg (by omega)]
      · rw [if_neg h0, if_pos (by omega)]
        congr 1
        omega
    rw [hnext, show p.count + k - (n + 1) + 1 = p.count + k - n by omega]
    exact ih (by omega)

theorem newPage (h : p.Holds q contents) (hfree : p.free = none) {k : ℕ} (hk : 0 < k) :
    (p.newPage k).Holds q contents := by
  obtain ⟨nodes, free, hc⟩ := h
  have hnil : free = [] := by
    have := hc.free_list.eq_head?
    rw [hfree] at this
    exact head?_eq_none_iff.mp this.symm
  subst hnil
  have hlt : ∀ i, ∀ a ∈ nodes i, a < p.count := fun i a ha => (hc.places.all a).mpr (.inr ⟨i, ha⟩)
  have hsame : ∀ a, a < p.count → (p.newPage k).next a = p.next a := fun a ha => if_pos ha
  refine ⟨nodes, range' p.count k, ⟨hc.places.nodup, nodup_range', ?_, hc.places.apart,
    ?_, hc.places.used, hc.places.unused⟩, ?_, ?_, ?_⟩
  · intro i a ha hmem
    have := hlt i a ha
    rw [mem_range'_1] at hmem
    omega
  · intro a
    rw [mem_range'_1]
    have hall := hc.places.all a
    simp only [not_mem_nil, false_or] at hall
    rw [← hall]
    simp only [NodePool.newPage]
    omega
  · have hspells := spells_newPage p k k k.le_refl
    rwa [if_neg (by omega), Nat.add_sub_cancel] at hspells
  · intro i
    exact (hc.lists i).congr fun a ha => hsame a (hlt i a ha)
  · intro i
    rw [← hc.filled i]
    apply map_congr_left
    intro a ha
    exact if_pos (hlt i a ha)

end Holds

namespace Places

variable [DecidableEq ι] {p p' : NodePool β} {nodes : ι → List ℕ} {free : List ℕ} {a : ℕ} {i : ι}

theorem mem_update {l : List ℕ} {j : ι} {x : ℕ} :
    x ∈ update nodes i l j ↔ j = i ∧ x ∈ l ∨ j ≠ i ∧ x ∈ nodes j := by
  by_cases h : j = i
  · subst h
    simp
  · simp [h]

/-- A node goes from the free ones to a list. -/
theorem push (h : p.Places nodes (a :: free)) (hcount : p'.count = p.count)
    (htaken : p'.taken = update p.taken a (p.taken a + 1))
    (hreturned : p'.returned = p.returned) :
    p'.Places (update nodes i (nodes i ++ [a])) free := by
  obtain ⟨ha, hfree⟩ := nodup_cons.mp h.free_nodup
  have hout : ∀ j, a ∉ nodes j := fun j hj => h.not_free j a hj mem_cons_self
  refine ⟨?_, hfree, ?_, ?_, ?_, ?_, ?_⟩
  · intro j
    by_cases hj : j = i
    · subst hj
      rw [update_self]
      exact nodup_append.mpr ⟨h.nodup j, by simp, by
        intro x hx y hy
        rw [mem_singleton] at hy
        subst hy
        rintro rfl
        exact hout j hx⟩
    · rw [update_of_ne hj]
      exact h.nodup j
  · intro j x hx
    rcases mem_update.mp hx with ⟨rfl, hx⟩ | ⟨-, hx⟩
    · rcases mem_append.mp hx with hx | hx
      · exact fun hmem => h.not_free j x hx (mem_cons_of_mem a hmem)
      · rw [mem_singleton] at hx
        exact hx ▸ ha
    · exact fun hmem => h.not_free j x hx (mem_cons_of_mem a hmem)
  · intro j k x hj hk
    simp only [mem_update, mem_append, mem_singleton] at hj hk
    by_cases hx : x = a
    · subst hx
      have hji : j = i := by
        by_contra hne
        rcases hj with ⟨hji, -⟩ | ⟨-, hj⟩
        · exact hne hji
        · exact hout j hj
      have hki : k = i := by
        by_contra hne
        rcases hk with ⟨hki, -⟩ | ⟨-, hk⟩
        · exact hne hki
        · exact hout k hk
      rw [hji, hki]
    · have hxj : x ∈ nodes j := by
        rcases hj with ⟨rfl, hj | hj⟩ | ⟨-, hj⟩
        · exact hj
        · exact absurd hj hx
        · exact hj
      have hxk : x ∈ nodes k := by
        rcases hk with ⟨rfl, hk | hk⟩ | ⟨-, hk⟩
        · exact hk
        · exact absurd hk hx
        · exact hk
      exact h.apart j k x hxj hxk
  · intro x
    rw [hcount, h.all x, mem_cons]
    constructor
    · rintro ((rfl | hx) | ⟨j, hx⟩)
      · exact .inr ⟨i, mem_update.mpr (.inl ⟨rfl, by simp⟩)⟩
      · exact .inl hx
      · by_cases hj : j = i
        · subst hj
          exact .inr ⟨j, mem_update.mpr (.inl ⟨rfl, mem_append_left _ hx⟩)⟩
        · exact .inr ⟨j, mem_update.mpr (.inr ⟨hj, hx⟩)⟩
    · rintro (hx | ⟨j, hx⟩)
      · exact .inl (.inr hx)
      · rcases mem_update.mp hx with ⟨rfl, hx⟩ | ⟨-, hx⟩
        · rcases mem_append.mp hx with hx | hx
          · exact .inr ⟨j, hx⟩
          · exact .inl (.inl (mem_singleton.mp hx))
        · exact .inr ⟨j, hx⟩
  · intro j x hx
    rw [htaken, hreturned]
    by_cases hxa : x = a
    · subst hxa
      rw [update_self, h.unused x hout]
    · rw [update_of_ne hxa]
      rcases mem_update.mp hx with ⟨rfl, hx⟩ | ⟨-, hx⟩
      · rcases mem_append.mp hx with hx | hx
        · exact h.used j x hx
        · exact absurd (mem_singleton.mp hx) hxa
      · exact h.used j x hx
  · intro x hx
    have hxa : x ≠ a := by
      rintro rfl
      exact hx i (mem_update.mpr (.inl ⟨rfl, by simp⟩))
    rw [htaken, hreturned, update_of_ne hxa]
    apply h.unused x
    intro j hj
    by_cases hji : j = i
    · subst hji
      exact hx j (mem_update.mpr (.inl ⟨rfl, mem_append_left _ hj⟩))
    · exact hx j (mem_update.mpr (.inr ⟨hji, hj⟩))

/-- The first node of a list becomes free. -/
theorem pop (h : p.Places nodes free) {l : List ℕ} (hi : nodes i = a :: l)
    (hcount : p'.count = p.count) (htaken : p'.taken = p.taken)
    (hreturned : p'.returned = update p.returned a (p.returned a + 1)) :
    p'.Places (update nodes i l) (a :: free) := by
  have hnodup := h.nodup i
  rw [hi] at hnodup
  obtain ⟨hal, hl⟩ := nodup_cons.mp hnodup
  have hai : a ∈ nodes i := hi ▸ mem_cons_self
  have hsub : ∀ x ∈ l, x ∈ nodes i := fun x hx => hi ▸ mem_cons_of_mem a hx
  -- What is in a list after the step was there before, and is not the node taken.
  have hold : ∀ j x, x ∈ update nodes i l j → x ∈ nodes j ∧ x ≠ a := by
    intro j x hx
    rcases mem_update.mp hx with ⟨rfl, hxl⟩ | ⟨hj, hxj⟩
    · exact ⟨hsub x hxl, fun hxa => hal (hxa ▸ hxl)⟩
    · exact ⟨hxj, fun hxa => hj (h.apart j i a (hxa ▸ hxj) hai)⟩
  have hnew : ∀ j x, x ∈ nodes j → x ≠ a → x ∈ update nodes i l j := by
    intro j x hx hxa
    by_cases hj : j = i
    · subst hj
      rw [hi] at hx
      exact mem_update.mpr (.inl ⟨rfl, (mem_cons.mp hx).resolve_left hxa⟩)
    · exact mem_update.mpr (.inr ⟨hj, hx⟩)
  refine ⟨?_, nodup_cons.mpr ⟨h.not_free i a hai, h.free_nodup⟩, ?_, ?_, ?_, ?_, ?_⟩
  · intro j
    by_cases hj : j = i
    · subst hj
      rw [update_self]
      exact hl
    · rw [update_of_ne hj]
      exact h.nodup j
  · intro j x hx hmem
    obtain ⟨hxj, hxa⟩ := hold j x hx
    exact h.not_free j x hxj ((mem_cons.mp hmem).resolve_left hxa)
  · intro j k x hj hk
    exact h.apart j k x (hold j x hj).1 (hold k x hk).1
  · intro x
    rw [hcount, h.all x, mem_cons]
    constructor
    · rintro (hx | ⟨j, hx⟩)
      · exact .inl (.inr hx)
      · by_cases hxa : x = a
        · exact .inl (.inl hxa)
        · exact .inr ⟨j, hnew j x hx hxa⟩
    · rintro ((rfl | hx) | ⟨j, hx⟩)
      · exact .inr ⟨i, hai⟩
      · exact .inl hx
      · exact .inr ⟨j, (hold j x hx).1⟩
  · intro j x hx
    obtain ⟨hxj, hxa⟩ := hold j x hx
    rw [htaken, hreturned, update_of_ne hxa]
    exact h.used j x hxj
  · intro x hx
    rw [htaken, hreturned]
    by_cases hxa : x = a
    · subst hxa
      rw [update_self]
      exact h.used i x hai
    · rw [update_of_ne hxa]
      exact h.unused x fun j hj => hx j (hnew j x hj hxa)

end Places

namespace Holds

variable [DecidableEq ι] {p : NodePool β} {q : ι → HeadTail ℕ} {contents : ι → List β}

/-- The first free node is filled and put at the end of a list. -/
theorem push (h : p.Holds q contents) {a : ℕ} (hfree : p.free = some a) (i : ι) (b : β) :
    ∃ p' q', (p.take a b).append (q i) a = some (p', q') ∧
      p'.Holds (update q i q') (update contents i (contents i ++ [b])) := by
  obtain ⟨nodes, free, hc⟩ := h
  obtain ⟨rest, rfl, hrest⟩ : ∃ rest, free = a :: rest ∧ Spells p.next (p.next a) rest := by
    have hspells := hc.free_list
    rw [hfree] at hspells
    cases free with
    | nil => cases hspells
    | cons c rest =>
      obtain ⟨hac, hrest⟩ := hspells
      cases hac
      exact ⟨rest, rfl, hrest⟩
  have hout : ∀ j, a ∉ nodes j := fun j hj => hc.places.not_free j a hj mem_cons_self
  have harest : a ∉ rest := (nodup_cons.mp hc.places.free_nodup).1
  have hnone : (p.take a b).next a = none := update_self ..
  have hlists : ∀ j, (q j).Holds (p.take a b).next (nodes j) :=
    fun j => (hc.lists j).update (hout j) none
  have hfree' : Spells (p.take a b).next (p.take a b).free rest := hrest.update harest none
  -- The contents are the same whichever way the node is linked.
  have hfilled : ∀ j, (update nodes i (nodes i ++ [a]) j).map (p.take a b).content =
      (update contents i (contents i ++ [b]) j).map some := by
    have hsame : ∀ j, (nodes j).map (p.take a b).content = (contents j).map some := by
      intro j
      rw [← hc.filled j]
      apply map_congr_left
      intro x hx
      exact update_of_ne (fun hxa => hout j (by rw [← hxa]; exact hx)) _ _
    intro j
    by_cases hj : j = i
    · subst hj
      rw [update_self, update_self, map_append, map_append, hsame]
      simp [NodePool.take]
    · rw [update_of_ne hj, update_of_ne hj, hsame]
  cases hnodes : nodes i with
  | nil =>
    have hq := hlists i
    rw [hnodes] at hq
    have hhead : (q i).head = none := hq.head
    have htail : (q i).tail = none := hq.tail
    refine ⟨p.take a b, ⟨some a, some a⟩, by rw [append, hhead, htail], _, rest,
      hc.places.push (i := i) rfl rfl rfl, hfree', ?_, hfilled⟩
    intro j
    by_cases hj : j = i
    · subst hj
      rw [update_self, update_self, hnodes]
      exact HeadTail.Holds.single hnone
    · rw [update_of_ne hj, update_of_ne hj]
      exact hlists j
  | cons c l =>
    have hq := hlists i
    obtain ⟨t, ht⟩ : ∃ t, (nodes i).getLast? = some t := by
      rw [hnodes]
      exact ⟨_, getLast?_eq_some_getLast (cons_ne_nil c l)⟩
    have htail : (q i).tail = some t := hq.tail.trans ht
    have hhead : (q i).head = some c := by
      rw [hq.head.eq_head?, hnodes]
      rfl
    have hti : t ∈ nodes i := mem_of_getLast? ht
    refine ⟨{ p.take a b with next := update (p.take a b).next t (some a) },
      ⟨some c, some a⟩, by rw [append, hhead, htail], _, rest,
      hc.places.push (i := i) rfl rfl rfl, ?_, ?_, hfilled⟩
    · exact hfree'.update (fun htr => hc.places.not_free i t hti (mem_cons_of_mem a htr)) _
    · intro j
      by_cases hj : j = i
      · subst hj
        rw [update_self, update_self]
        have happend := hq.append (hc.places.nodup j) htail (hout j) hnone
        rwa [hhead] at happend
      · rw [update_of_ne hj, update_of_ne hj]
        exact (hlists j).update (fun htj => hj (hc.places.apart j i t htj hti)) _

/-- The first node of a list is returned. -/
theorem pop (h : p.Holds q contents) {i : ι} {b : β} {bs : List β} (hi : contents i = b :: bs) :
    ∃ a, (q i).head = some a ∧ p.content a = some b ∧
      (p.next a = none → (q i).tail = some a) ∧ p.Shows (p.next a) bs ∧
      (p.release a).Holds
        (update q i ⟨p.next a, if p.next a = none then none else (q i).tail⟩)
        (update contents i bs) := by
  obtain ⟨nodes, free, hc⟩ := h
  obtain ⟨a, l, hnodes, hcontent, hl⟩ : ∃ a l, nodes i = a :: l ∧ p.content a = some b ∧
      l.map p.content = bs.map some := by
    have hmap := hc.filled i
    rw [hi] at hmap
    cases hnodes : nodes i with
    | nil =>
      rw [hnodes] at hmap
      cases hmap
    | cons a l =>
      rw [hnodes, map_cons, map_cons, List.cons.injEq] at hmap
      exact ⟨a, l, rfl, hmap.1, hmap.2⟩
  have hq := hc.lists i
  rw [hnodes] at hq
  have hai : a ∈ nodes i := hnodes ▸ mem_cons_self
  have hplaces : (p.release a).Places (update nodes i l) (a :: free) :=
    hc.places.pop hnodes rfl rfl rfl
  have hout : ∀ j, a ∉ update nodes i l j :=
    fun j hj => hplaces.not_free j a hj mem_cons_self
  refine ⟨a, hq.head.1, hcontent, ?_, shows_of_spells hq.head.2 hl, _, a :: free, hplaces, ?_, ?_,
    ?_⟩
  · intro hnext
    have hempty : l = [] := by
      have := hq.head.2.eq_head?
      rw [hnext] at this
      exact head?_eq_none_iff.mp this.symm
    rw [hq.tail, hempty]
    rfl
  · refine ⟨rfl, ?_⟩
    have hnext : (p.release a).next a = p.free := update_self ..
    rw [hnext]
    exact hc.free_list.update (hc.places.not_free i a hai) _
  · intro j
    by_cases hj : j = i
    · subst hj
      have hlj := hout j
      rw [update_self] at hlj
      rw [update_self, update_self]
      exact hq.drop.update hlj _
    · have hlj := hout j
      rw [update_of_ne hj] at hlj
      rw [update_of_ne hj, update_of_ne hj]
      exact (hc.lists j).update hlj _
  · intro j
    have hsame : ∀ x ∈ update nodes i l j, (p.release a).content x = p.content x := by
      intro x hx
      exact update_of_ne (fun hxa => hout j (by rw [← hxa]; exact hx)) _ _
    rw [map_congr_left hsame]
    by_cases hj : j = i
    · subst hj
      rw [update_self, update_self, hl]
    · rw [update_of_ne hj, update_of_ne hj, hc.filled j]

end Holds

end NodePool

end Library
