import Mathlib.Data.List.Basic
import Mathlib.Data.List.Pairwise

/-!
# Interleaved streams

Several senders share one connection: the receiver sees a merge of their streams, in
which only the order inside each stream is kept.  `Separate` states what the receiver
owes to one stream at a time: the stages a stream goes through, that a message moves its
own stream one stage on, and that it leaves the stages of the streams apart from it.
-/

namespace Library

open List

variable {α ω σ κ : Type*}

/-- `Interleaves streams l`: `l` is a merge of the streams that keeps the order in each. -/
inductive Interleaves : List (List α) → List α → Prop
  | nil {streams : List (List α)} (h : ∀ s ∈ streams, s = []) : Interleaves streams []
  | cons {before after : List (List α)} {a : α} {rest l : List α}
      (h : Interleaves (before ++ rest :: after) l) :
      Interleaves (before ++ (a :: rest) :: after) (a :: l)

theorem interleaves_flatten (streams : List (List α)) : Interleaves streams streams.flatten := by
  have hgeneral : ∀ (done : ℕ) (streams : List (List α)),
      Interleaves (replicate done [] ++ streams) streams.flatten := by
    intro done streams
    induction streams generalizing done with
    | nil =>
      apply Interleaves.nil
      intro s hs
      rw [append_nil] at hs
      exact eq_of_mem_replicate hs
    | cons stream streams ih =>
      induction stream with
      | nil =>
        have hmore := ih (done + 1)
        rw [replicate_succ', append_assoc] at hmore
        exact hmore
      | cons a rest ihs => exact Interleaves.cons ihs
  exact hgeneral 0 streams

/-- Messages handled one after the other: the last state and all that was put out. -/
def handleAll (step : σ → α → σ × List ω) : σ → List α → σ × List ω
  | s, [] => (s, [])
  | s, a :: l =>
    ((handleAll step (step s a).1 l).1, (step s a).2 ++ (handleAll step (step s a).1 l).2)

/-- One stream: whose it is, the messages still to come, and what is still to be put out. -/
structure Stream (κ α ω : Type*) where
  key : κ
  rest : List α
  due : List ω

/-- The stages of single streams under a receiver: a stream at its end owes nothing, its
own message moves it one stage on, and the messages of a stream apart from it leave its
stage. -/
structure Separate (step : σ → α → σ × List ω) (Apart : κ → κ → Prop)
    (Stage : σ → Stream κ α ω → Prop) : Prop where
  ended : ∀ {s k due}, Stage s ⟨k, [], due⟩ → due = []
  moved : ∀ {s k a rest due}, Stage s ⟨k, a :: rest, due⟩ →
    ∃ later, due = (step s a).2 ++ later ∧ Stage (step s a).1 ⟨k, rest, later⟩
  kept : ∀ {s k a rest due t}, Apart k t.key → Stage s ⟨k, a :: rest, due⟩ → Stage s t →
    Stage (step s a).1 t

/-- **Every stream is handled as if it were alone.**  Whatever the merge of streams that
are apart, what the receiver puts out is, up to order, what they were to put out; every
stream is at its end after it, and a stream apart from all of them is where it was. -/
theorem Separate.handled {step : σ → α → σ × List ω} {Apart : κ → κ → Prop}
    {Stage : σ → Stream κ α ω → Prop} (hsep : Separate step Apart Stage)
    (hsym : ∀ {k k'}, Apart k k' → Apart k' k) {l : List α} {streams : List (Stream κ α ω)} {s : σ}
    (hinter : Interleaves (streams.map Stream.rest) l)
    (hapart : streams.Pairwise fun t t' => Apart t.key t'.key)
    (hstage : ∀ t ∈ streams, Stage s t) :
    (handleAll step s l).2.Perm (streams.flatMap Stream.due) ∧
      (∀ t ∈ streams, Stage (handleAll step s l).1 ⟨t.key, [], []⟩) ∧
      ∀ t, (∀ u ∈ streams, Apart u.key t.key) → Stage s t → Stage (handleAll step s l).1 t := by
  generalize hrests : streams.map Stream.rest = rests at hinter
  induction hinter generalizing streams s with
  | nil hempty =>
    have hrest : ∀ t ∈ streams, t.rest = [] := by
      intro t ht
      apply hempty
      rw [← hrests]
      exact mem_map_of_mem ht
    have hdue : ∀ t ∈ streams, t.due = [] ∧ Stage s ⟨t.key, [], []⟩ := by
      intro t ht
      have hs := hstage t ht
      have hr := hrest t ht
      cases t with
      | mk k rest due =>
        subst hr
        have hd : due = [] := hsep.ended hs
        subst hd
        exact ⟨rfl, hs⟩
    refine ⟨?_, fun t ht => (hdue t ht).2, fun t _ ht => ht⟩
    have hflat : streams.flatMap Stream.due = [] := flatMap_eq_nil_iff.2 fun t ht => (hdue t ht).1
    rw [hflat]
    exact Perm.nil
  | @cons before after a rest l _ ih =>
    -- the stream whose message comes next, between the others
    obtain ⟨tb, tail, rfl, hb, htail⟩ := map_eq_append_iff.1 hrests
    obtain ⟨t, ta, rfl, ht, ha⟩ := map_eq_cons_iff.1 htail
    cases t with
    | mk k mine due =>
      subst ht
      have hmine : Stage s ⟨k, a :: rest, due⟩ := hstage _ (by simp)
      obtain ⟨later, hdue, hnext⟩ := hsep.moved hmine
      have hpair := pairwise_append.1 hapart
      have hpair' := pairwise_cons.1 hpair.2.1
      have hothers : ∀ u ∈ tb ++ ta, Apart k u.key := by
        intro u hu
        rcases mem_append.1 hu with hu | hu
        · exact hsym (hpair.2.2 u hu _ (mem_cons_self ..))
        · exact hpair'.1 u hu
      have hstage' : ∀ u ∈ tb ++ ⟨k, rest, later⟩ :: ta, Stage (step s a).1 u := by
        intro u hu
        simp only [mem_append, mem_cons] at hu
        rcases hu with hu | rfl | hu
        · exact hsep.kept (hothers u (by simp [hu])) hmine (hstage u (by simp [hu]))
        · exact hnext
        · exact hsep.kept (hothers u (by simp [hu])) hmine (hstage u (by simp [hu]))
      have hapart' : (tb ++ (⟨k, rest, later⟩ : Stream κ α ω) :: ta).Pairwise
          fun t t' => Apart t.key t'.key := by
        refine pairwise_append.2 ⟨hpair.1, pairwise_cons.2 ⟨hpair'.1, hpair'.2⟩, ?_⟩
        intro u hu v hv
        rcases mem_cons.1 hv with rfl | hv
        · exact hpair.2.2 u hu ⟨k, a :: rest, due⟩ (by simp)
        · exact hpair.2.2 u hu v (mem_cons_of_mem _ hv)
      obtain ⟨hperm, hends, hkept⟩ := ih hapart' hstage' (by simp [hb, ha])
      refine ⟨?_, ?_, ?_⟩
      · have hfirst : (handleAll step s (a :: l)).2 =
            (step s a).2 ++ (handleAll step (step s a).1 l).2 := by
          simp [handleAll]
        rw [hfirst, hdue]
        refine (hperm.append_left _).trans ?_
        simp only [flatMap_append, flatMap_cons, append_assoc]
        exact perm_append_comm_assoc ..
      · intro u hu
        simp only [mem_append, mem_cons] at hu
        rcases hu with hu | rfl | hu
        · exact hends u (by simp [hu])
        · exact hends ⟨k, rest, later⟩ (by simp)
        · exact hends u (by simp [hu])
      · intro u hu hs
        refine hkept u ?_ (hsep.kept (hu ⟨k, a :: rest, due⟩ (by simp)) hmine hs)
        intro v hv
        simp only [mem_append, mem_cons] at hv
        rcases hv with hv | rfl | hv
        · exact hu v (by simp [hv])
        · exact hu ⟨k, a :: rest, due⟩ (by simp)
        · exact hu v (by simp [hv])

end Library
