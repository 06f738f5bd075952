import Skynet.Model.Multicast

/-!
# The owner of a channel and its subscribers agree

While the owner has the channel, a node that has a group, or will get one from an answer on
its way, is in `channel_remote` and has no USUBR on its way; and a node in
`channel_remote` has a group, or an answer that makes one or a USUBR is on its way.  Once
the channel is deleted, a group that is left, or that an answer on its way will make, has a
DELR behind it.

A node breaks this when it drops its group while a SUB waits: its USUBR takes it out of
`channel_remote`, and the answer that comes then makes a group the owner knows nothing of.
-/

namespace Skynet.Analysis

open Library Model List Function Finset Option

/-! ## Tables -/

section Tables

variable {σ : Type} [DecidableEq σ]

def McCounted (t : McTables σ) : Prop := t.channelN = t.channel.map fun group => (group.card : ℤ)

variable {t : McTables σ}

theorem McCounted.join (h : McCounted t) (source : σ) : McCounted (t.join source) := by
  unfold McTables.join
  split
  · exact h
  · next group hgroup =>
    split
    · exact h
    · next hnew =>
      simp only [McCounted, hgroup, map_some] at h ⊢
      simp [h, card_insert_of_notMem hnew]

theorem McCounted.joinRemote (h : McCounted t) (source : σ) : McCounted (t.joinRemote source) := by
  unfold McTables.joinRemote
  split
  · exact McCounted.join (t := ⟨some ∅, some 0⟩) rfl source
  · exact h.join source

theorem McCounted.leave (h : McCounted t) (source : σ) : McCounted (t.leave source) := by
  unfold McTables.leave
  split
  · exact h
  · next group hgroup =>
    split
    · next hmem =>
      have hpos : 0 < group.card := card_pos.2 ⟨source, hmem⟩
      simp only [McCounted, hgroup, map_some] at h ⊢
      simp only [h, map_some, card_erase_of_mem hmem, some.injEq]
      omega
    · exact h

theorem join_channel {source : σ} {group : Finset σ} (h : (t.join source).channel = some group)
    (hne : ∀ g, t.channel = some g → g.Nonempty) : group.Nonempty := by
  unfold McTables.join at h
  split at h
  · next hnone =>
    rw [hnone] at h
    cases h
  · split at h
    · exact hne group h
    · cases h
      exact insert_nonempty _ _

theorem joinRemote_channel (t : McTables σ) (source : σ) :
    ∃ group, (t.joinRemote source).channel = some group ∧ group.Nonempty := by
  unfold McTables.joinRemote
  split
  · exact ⟨insert source ∅, rfl, insert_nonempty _ _⟩
  · next hsome =>
    cases hchannel : t.channel with
    | none => simp [hchannel] at hsome
    | some g =>
      have hgroup : (t.join source).channel = some (insert source g) := by
        simp only [McTables.join, hchannel]
        split
        · next hmem => rw [hchannel, insert_eq_of_mem hmem]
        · rfl
      exact ⟨_, hgroup, insert_nonempty _ _⟩

theorem leave_channel {source : σ} {group : Finset σ} (hcount : McCounted t)
    (hmore : ¬ t.Empties source) (h : (t.leave source).channel = some group)
    (hne : ∀ g, t.channel = some g → g.Nonempty) : group.Nonempty := by
  unfold McTables.leave at h
  split at h
  · next hnone =>
    rw [hnone] at h
    cases h
  · next g hg =>
    split at h
    · next hmem =>
      cases h
      have hcard : g.card ≠ 1 := by
        intro hone
        refine hmore ⟨⟨g, hg, hmem⟩, ?_⟩
        rw [hcount, hg]
        simp [hone]
      have hpos := card_pos.2 ⟨source, hmem⟩
      rw [← card_pos, card_erase_of_mem hmem]
      omega
    · exact hne group h

theorem leave_isSome (t : McTables σ) (source : σ) :
    (t.leave source).channel.isSome = t.channel.isSome := by
  unfold McTables.leave
  split
  · rfl
  · next g hg =>
    split
    · simp [hg]
    · rfl

theorem join_isSome (t : McTables σ) (source : σ) :
    (t.join source).channel.isSome = t.channel.isSome := by
  unfold McTables.join
  split
  · rfl
  · next g hg =>
    split
    · rfl
    · simp [hg]

end Tables

/-! ## What is on its way to a node -/

section Messages

variable {σ : Type}

def AnswersCovered : List (DownMessage σ) → Prop
  | [] => True
  | .answer _ false :: d => .delr ∈ d ∧ AnswersCovered d
  | _ :: d => AnswersCovered d

theorem AnswersCovered.tail {m : DownMessage σ} {d : List (DownMessage σ)}
    (h : AnswersCovered (m :: d)) : AnswersCovered d := by
  cases m with
  | delr => exact h
  | answer source missing =>
    cases missing
    · exact h.2
    · exact h

theorem AnswersCovered.append {d : List (DownMessage σ)} (h : AnswersCovered d) (source : σ) :
    AnswersCovered (d ++ [.answer source true]) := by
  induction d with
  | nil => exact trivial
  | cons m d ih =>
    cases m with
    | delr => exact ih h
    | answer source missing =>
      cases missing
      · exact ⟨mem_append_left _ h.1, ih h.2⟩
      · exact ih h

theorem answersCovered_delr (d : List (DownMessage σ)) : AnswersCovered (d ++ [.delr]) := by
  induction d with
  | nil => exact trivial
  | cons m d ih =>
    cases m with
    | delr => exact ih
    | answer source missing =>
      cases missing
      · exact ⟨by simp, ih⟩
      · exact ih

theorem AnswersCovered.erase {l l' : List (DownMessage σ)} {m : DownMessage σ}
    (h : AnswersCovered (l ++ m :: l')) (hm : m ≠ .delr) : AnswersCovered (l ++ l') := by
  induction l with
  | nil => exact h.tail
  | cons a l ih =>
    cases a with
    | delr => exact ih h
    | answer source missing =>
      cases missing
      · refine ⟨?_, ih h.2⟩
        have hmem : DownMessage.delr ∈ l ++ m :: l' := h.1
        rcases mem_append.1 hmem with hmem | hmem
        · exact mem_append_left _ hmem
        · rcases List.mem_cons.1 hmem with rfl | hmem
          · exact absurd rfl hm
          · exact mem_append_right _ hmem
      · exact ih h

theorem AnswersCovered.mem_of_answer {l l' : List (DownMessage σ)} {source : σ}
    (h : AnswersCovered (l ++ .answer source false :: l')) : .delr ∈ l' := by
  induction l with
  | nil => exact h.1
  | cons a l ih => exact ih h.tail

end Messages

/-! ## The invariant -/

section Invariant

variable {σ : Type}

/-- A node while the owner has the channel, by its place in `channel_remote`, its tables and
the messages on their way to and from it. -/
structure AliveNode (member : Prop) (t : McTables σ) (up : List (UpMessage σ))
    (down : List (DownMessage σ)) : Prop where
  joined : t.channel.isSome ∨ down ≠ [] → member ∧ .usubr ∉ up
  ordered : up.Pairwise fun a b => (∃ source, a = .subr source) → b ≠ .usubr
  answers : ∀ m ∈ down, ∃ source, m = .answer source false
  member_why : member → t.channel.isSome ∨ .usubr ∈ up ∨ down ≠ []

/-- A node when the owner has deleted the channel; `deleting` says that it will still be
sent DELR. -/
structure DeadNode (deleting : Prop) (t : McTables σ) (down : List (DownMessage σ)) :
    Prop where
  behind : t.channel.isSome → .delr ∈ down ∨ deleting
  covered : ¬ deleting → AnswersCovered down

variable {member : Prop} {t t' : McTables σ} {up : List (UpMessage σ)}
  {down : List (DownMessage σ)}

theorem AliveNode.congr (h : AliveNode member t up down)
    (ht : t'.channel.isSome = t.channel.isSome) : AliveNode member t' up down :=
  ⟨fun hor => h.joined (ht ▸ hor), h.ordered, h.answers, fun hm => ht ▸ h.member_why hm⟩

variable {deleting : Prop}

theorem DeadNode.congr (h : DeadNode deleting t down)
    (ht : t'.channel.isSome → t.channel.isSome) : DeadNode deleting t' down :=
  ⟨fun hsome => h.behind (ht hsome), h.covered⟩

theorem AliveNode.send (h : AliveNode member t up down) {m : UpMessage σ} (hm : m ≠ .usubr) :
    AliveNode member t (up ++ [m]) down := by
  refine ⟨fun hor => ?_, ?_, h.answers, fun hmem => ?_⟩
  · obtain ⟨hmember, hup⟩ := h.joined hor
    refine ⟨hmember, fun hmem => ?_⟩
    rcases mem_append.1 hmem with hmem | hmem
    · exact hup hmem
    · exact hm (List.mem_singleton.1 hmem).symm
  · refine pairwise_append.2 ⟨h.ordered, pairwise_singleton _ _, ?_⟩
    rintro a - b hb -
    rw [List.mem_singleton.1 hb]
    exact hm
  · rcases h.member_why hmem with hsome | hmem | hdown
    · exact .inl hsome
    · exact .inr (.inl (mem_append_left _ hmem))
    · exact .inr (.inr hdown)

theorem AliveNode.leave (h : AliveNode member t up down) (hsubr : ∀ source, .subr source ∉ up)
    (hdown : down = []) : AliveNode member .empty (up ++ [.usubr]) down := by
  subst hdown
  refine ⟨by simp [McTables.empty], ?_, by simp, fun _ => .inr (.inl (by simp))⟩
  refine pairwise_append.2 ⟨h.ordered, pairwise_singleton _ _, ?_⟩
  rintro a ha b - ⟨source, rfl⟩
  exact absurd ha (hsubr source)

theorem AliveNode.subr {source : σ} (h : AliveNode member t (.subr source :: up) down) :
    AliveNode True t up (down ++ [.answer source false]) := by
  have hordered := List.pairwise_cons.1 h.ordered
  refine ⟨fun _ => ⟨trivial, fun hmem => ?_⟩, hordered.2, fun m hm => ?_, fun _ => .inr (.inr ?_)⟩
  · exact hordered.1 _ hmem ⟨source, rfl⟩ rfl
  · rcases mem_append.1 hm with hm | hm
    · exact h.answers m hm
    · exact ⟨source, List.mem_singleton.1 hm⟩
  · simp

theorem AliveNode.usubr (h : AliveNode member t (.usubr :: up) down) :
    AliveNode False t up down := by
  have hno : ¬(t.channel.isSome ∨ down ≠ []) := fun hor => (h.joined hor).2 (by simp)
  exact ⟨fun hor => absurd hor hno, (List.pairwise_cons.1 h.ordered).2, h.answers, False.elim⟩

theorem AliveNode.answer {l l' : List (DownMessage σ)} {m : DownMessage σ}
    (h : AliveNode member t up (l ++ m :: l')) (ht : t'.channel.isSome) :
    AliveNode member t' up (l ++ l') := by
  refine ⟨fun _ => h.joined (.inr (by simp)), h.ordered, fun a ha => h.answers a ?_,
    fun _ => .inl ht⟩
  rcases mem_append.1 ha with ha | ha
  · exact mem_append_left _ ha
  · exact mem_append_right _ (List.mem_cons_of_mem _ ha)

theorem AliveNode.del (h : AliveNode member t up down) : DeadNode member t down := by
  refine ⟨fun hsome => .inr (h.joined (.inl hsome)).1, fun hmember => ?_⟩
  have hdown : down = [] := by
    by_contra hne
    exact hmember (h.joined (.inr hne)).1
  rw [hdown]
  exact trivial

theorem deadNode_sendDelr (deleting : Prop) (t : McTables σ) (down : List (DownMessage σ)) :
    DeadNode deleting t (down ++ [.delr]) :=
  ⟨fun _ => .inl (by simp), fun _ => answersCovered_delr down⟩

theorem DeadNode.missing (h : DeadNode deleting t down) (source : σ) :
    DeadNode deleting t (down ++ [.answer source true]) :=
  ⟨fun hsome => (h.behind hsome).imp_left (mem_append_left _),
    fun hno => (h.covered hno).append source⟩

theorem DeadNode.answer {l l' : List (DownMessage σ)} {source : σ}
    {missing : Bool} (h : DeadNode deleting t (l ++ .answer source missing :: l'))
    (ht : missing = true → t'.channel.isSome → t.channel.isSome) :
    DeadNode deleting t' (l ++ l') := by
  refine ⟨fun hsome => ?_, fun hno => (h.covered hno).erase (by simp)⟩
  cases missing with
  | true =>
    refine (h.behind (ht rfl hsome)).imp_left fun hmem => ?_
    simpa using hmem
  | false =>
    by_cases hdel : deleting
    · exact .inr hdel
    · exact .inl (mem_append_right _ (h.covered hdel).mem_of_answer)

theorem DeadNode.delr (h : DeadNode deleting t (.delr :: down)) : DeadNode deleting .empty down :=
  ⟨by simp [McTables.empty], fun hno => (h.covered hno).tail⟩

end Invariant

/-! ## Steps -/

section Steps

variable {ι σ : Type} [DecidableEq ι] [DecidableEq σ]

def NodeOk (s : MulticastState ι σ) (i : ι) : Prop := (s.owner.channel ≠ none →
    AliveNode (i ∈ s.channelRemote.getD ∅) (s.node i) (s.up i) (s.down i)) ∧
  (s.owner.channel = none → DeadNode (i ∈ s.deleting) (s.node i) (s.down i))

structure McInv (s : MulticastState ι σ) : Prop where
  owner_counted : McCounted s.owner
  counted : ∀ i, McCounted (s.node i)
  nonempty : ∀ i g, (s.node i).channel = some g → g.Nonempty
  remote : s.owner.channel = none → s.channelRemote = none
  deleting : s.owner.channel ≠ none → s.deleting = ∅
  node : ∀ i, NodeOk s i

variable {s : MulticastState ι σ}

omit [DecidableEq σ] in
theorem McInv.at_node (hI : McInv s) (i : ι) (t : McTables σ) (asking : ι → List σ)
    (up : List (UpMessage σ)) (down : List (DownMessage σ)) (hcounted : McCounted t)
    (hnonempty : ∀ g, t.channel = some g → g.Nonempty)
    (halive : AliveNode (i ∈ s.channelRemote.getD ∅) (s.node i) (s.up i) (s.down i) →
      s.owner.channel ≠ none → AliveNode (i ∈ s.channelRemote.getD ∅) t up down)
    (hdead : DeadNode (i ∈ s.deleting) (s.node i) (s.down i) → DeadNode (i ∈ s.deleting) t down) :
    McInv { s with
      node := update s.node i t
      asking := asking
      up := update s.up i up
      down := update s.down i down } := by
  refine ⟨hI.owner_counted, fun j => ?_, fun j => ?_, hI.remote, hI.deleting, fun j => ?_⟩ <;>
    by_cases hj : j = i
  · subst hj
    simpa using hcounted
  · simpa [hj] using hI.counted j
  · subst hj
    simpa using hnonempty
  · simpa [hj] using hI.nonempty j
  · subst hj
    simp only [NodeOk, update_self]
    exact ⟨fun hsome => halive ((hI.node j).1 hsome) hsome, fun hnone => hdead ((hI.node j).2 hnone)⟩
  · simpa only [NodeOk, update_of_ne hj] using hI.node j

omit [DecidableEq σ] in
theorem McInv.sendUp (hI : McInv s) (i : ι) {m : UpMessage σ} (hm : m ≠ .usubr)
    (asking : ι → List σ) : McInv ({ s with asking := asking }.sendUp i m) := by
  have h := hI.at_node i (s.node i) asking (s.up i ++ [m]) (s.down i) (hI.counted i) (hI.nonempty i) (fun halive _ => halive.send hm) id
  simp only [update_eq_self] at h
  exact h

omit [DecidableEq σ] in
theorem McInv.putNode (hI : McInv s) (i : ι) {t : McTables σ} (hcounted : McCounted t)
    (hnonempty : ∀ g, t.channel = some g → g.Nonempty)
    (hsome : t.channel.isSome = (s.node i).channel.isSome) : McInv (s.putNode i t) := by
  have h := hI.at_node i t s.asking (s.up i) (s.down i) hcounted hnonempty
    (fun halive _ => halive.congr hsome) fun hdead => hdead.congr fun h => hsome ▸ h
  simp only [update_eq_self] at h
  exact h

theorem McInv.sub (hI : McInv s) (i : ι) (source : σ) : McInv (s.sub i source) := by
  unfold MulticastState.sub
  split
  · exact ⟨hI.owner_counted, hI.counted, hI.nonempty, hI.remote, hI.deleting, hI.node⟩
  · exact hI.putNode i ((hI.counted i).join source)
      (fun g hg => join_channel hg (hI.nonempty i)) (join_isSome _ _)

variable {i : ι}

theorem McInv.usub (hI : McInv s) {source : σ} (hok : NoSubWaits s (.usub i source)) :
    McInv (s.usub i source) := by
  unfold MulticastState.usub
  split
  · next hempties =>
    have h := hI.at_node i .empty s.asking (s.up i ++ [.usubr]) (s.down i) rfl (by simp [McTables.empty])
      (fun halive hsome => by
        have hwait := hok hsome hempties
        simp only [MulticastState.Waiting, not_or, not_exists] at hwait
        refine halive.leave hwait.1 (eq_nil_iff_forall_not_mem.2 fun m hm => ?_)
        obtain ⟨y, rfl⟩ := halive.answers m hm
        exact hwait.2 y false hm)
      fun hdead => hdead.congr (by simp [McTables.empty])
    simp only [update_eq_self] at h
    exact h
  · next hmore =>
    exact hI.putNode i ((hI.counted i).leave source)
      (fun g hg => leave_channel (hI.counted i) hmore hg (hI.nonempty i)) (leave_isSome _ _)

theorem McInv.handleAnswer (hI : McInv s) {l l' : List (DownMessage σ)} {source : σ}
    {missing : Bool} (hdown : s.down i = l ++ .answer source missing :: l') :
    McInv ({ s with down := update s.down i (l ++ l') }.nodeHandles i
      (.answer source missing)) := by
  cases missing with
  | true =>
    have h := hI.at_node i (s.node i) s.asking (s.up i) (l ++ l') (hI.counted i) (hI.nonempty i)
      (fun halive _ => by
        obtain ⟨y, hy⟩ := halive.answers (.answer source true) (by rw [hdown]; simp)
        simp at hy)
      fun hdead => by
        rw [hdown] at hdead
        exact hdead.answer fun _ h => h
    simpa only [MulticastState.nodeHandles, update_eq_self] using h
  | false =>
    obtain ⟨group, hgroup, hne⟩ := joinRemote_channel (s.node i) source
    have hsome : ((s.node i).joinRemote source).channel.isSome := by
      rw [hgroup]
      rfl
    have h := hI.at_node i ((s.node i).joinRemote source) s.asking (s.up i) (l ++ l')
      ((hI.counted i).joinRemote source)
      (fun g hg => by
        rw [hgroup, some.injEq] at hg
        exact hg ▸ hne)
      (fun halive _ => by
        rw [hdown] at halive
        exact halive.answer hsome)
      fun hdead => by
        rw [hdown] at hdead
        exact hdead.answer (by simp)
    simpa only [MulticastState.nodeHandles, MulticastState.putNode, update_eq_self]
      using h

theorem McInv.handleDelr (hI : McInv s) {l' : List (DownMessage σ)} (hdown : s.down i = .delr :: l')
    : McInv ({ s with down := update s.down i l' }.nodeHandles i .delr) := by
  have h := hI.at_node i .empty s.asking (s.up i) l' rfl
    (by simp [McTables.empty])
    (fun halive _ => by
      obtain ⟨y, hy⟩ := halive.answers .delr (by rw [hdown]; simp)
      cases hy)
    fun hdead => by
      rw [hdown] at hdead
      exact hdead.delr
  simpa only [MulticastState.nodeHandles, MulticastState.putNode, update_eq_self]
    using h

omit [DecidableEq σ] in
theorem McInv.ownerDel (hI : McInv s) (up : ι → List (UpMessage σ)) :
    McInv ({ s with up := up }.ownerDel) := by
  refine ⟨rfl, hI.counted, hI.nonempty, fun _ => rfl, fun h => absurd rfl h,
    fun i => ⟨fun h => absurd rfl h, fun _ => ?_⟩⟩
  cases hchannel : s.owner.channel with
  | some g =>
    have halive := (hI.node i).1 (by simp [hchannel])
    have hdead := halive.del
    refine ⟨fun h => (hdead.behind h).imp_right fun hmem => ?_, fun hno => hdead.covered ?_⟩
    · exact Finset.mem_union_right _ hmem
    · exact fun hmem => hno (Finset.mem_union_right _ hmem)
  | none =>
    have hdead := (hI.node i).2 hchannel
    refine ⟨fun h => (hdead.behind h).imp_right fun hmem => ?_, fun hno => hdead.covered ?_⟩
    · exact Finset.mem_union_left _ hmem
    · exact fun hmem => hno (Finset.mem_union_left _ hmem)

omit [DecidableEq σ] in
theorem McInv.sendDelr (hI : McInv s) (hmem : i ∈ s.deleting) :
    McInv ({ s with deleting := s.deleting.erase i }.sendDown i .delr) := by
  have hdead : s.owner.channel = none := by
    by_contra hsome
    rw [hI.deleting hsome] at hmem
    exact absurd hmem (notMem_empty i)
  refine ⟨hI.owner_counted, hI.counted, hI.nonempty, hI.remote, fun h => absurd hdead h,
    fun j => ⟨fun h => absurd hdead h, fun _ => ?_⟩⟩
  simp only [MulticastState.sendDown]
  by_cases hj : j = i
  · subst hj
    rw [update_self]
    exact deadNode_sendDelr _ _ _
  · rw [update_of_ne hj]
    have h := (hI.node j).2 hdead
    exact ⟨fun hsome => (h.behind hsome).imp_right fun hmem => mem_erase.2 ⟨hj, hmem⟩,
      fun hno => h.covered fun hmem => hno (mem_erase.2 ⟨hj, hmem⟩)⟩

omit [DecidableEq σ] in
theorem McInv.handleSubr (hI : McInv s) {source : σ} {ms : List (UpMessage σ)}
    (hup : s.up i = .subr source :: ms) :
    McInv ({ s with up := update s.up i ms }.subr i source) := by
  unfold MulticastState.subr
  split
  · next hnone =>
    have hdead : s.owner.channel = none := isNone_iff_eq_none.1 hnone
    refine ⟨hI.owner_counted, hI.counted, hI.nonempty, hI.remote, fun h => absurd hdead h,
      fun j => ⟨fun h => absurd hdead h, fun _ => ?_⟩⟩
    simp only [MulticastState.sendDown]
    by_cases hj : j = i
    · subst hj
      rw [update_self]
      exact ((hI.node j).2 hdead).missing source
    · rw [update_of_ne hj]
      exact (hI.node j).2 hdead
  · next hsome =>
    have halive : s.owner.channel ≠ none := by simpa using hsome
    refine ⟨hI.owner_counted, hI.counted, hI.nonempty, fun h => absurd h halive, hI.deleting,
      fun j => ⟨fun _ => ?_, fun h => absurd h halive⟩⟩
    simp only [MulticastState.sendDown, getD_some]
    have hnode := (hI.node j).1 halive
    by_cases hj : j = i
    · subst hj
      rw [hup] at hnode
      simpa using hnode.subr
    · simpa [hj] using hnode

omit [DecidableEq σ] in
theorem McInv.handleUsubr (hI : McInv s) {ms : List (UpMessage σ)} (hup : s.up i = .usubr :: ms) :
    McInv ({ s with up := update s.up i ms }.usubr i) := by
  refine ⟨hI.owner_counted, hI.counted, hI.nonempty, fun h => ?_, hI.deleting,
    fun j => ⟨fun halive => ?_, fun hdead => (hI.node j).2 hdead⟩⟩
  · simp only [MulticastState.usubr, hI.remote h, map_none]
  · have hnode := (hI.node j).1 halive
    simp only [MulticastState.usubr]
    have hmember : j ∈ (s.channelRemote.map (·.erase i)).getD ∅ ↔
        j ≠ i ∧ j ∈ s.channelRemote.getD ∅ := by
      cases s.channelRemote <;> simp
    by_cases hj : j = i
    · subst hj
      rw [hup] at hnode
      rw [update_self]
      have hout : (j ∈ (s.channelRemote.map (·.erase j)).getD ∅) = False := by
        rw [hmember]
        simp
      rw [hout]
      exact hnode.usubr
    · rw [update_of_ne hj]
      have hsame : (j ∈ (s.channelRemote.map (·.erase i)).getD ∅) =
          (j ∈ s.channelRemote.getD ∅) := by
        rw [hmember]
        simp [hj]
      rw [hsame]
      exact hnode

omit [DecidableEq ι] [DecidableEq σ] in
theorem McInv.putOwner (hI : McInv s) {t : McTables σ} (hcounted : McCounted t)
    (hsome : t.channel.isSome = s.owner.channel.isSome) : McInv { s with owner := t } := by
  have hnone : t.channel = none ↔ s.owner.channel = none := by
    rw [← isNone_iff_eq_none, ← isNone_iff_eq_none, ← not_isSome, ← not_isSome, hsome]
  refine ⟨hcounted, hI.counted, hI.nonempty, fun h => hI.remote (hnone.1 h),
    fun h => hI.deleting fun h' => h (hnone.2 h'), fun j => ⟨fun h => (hI.node j).1 fun h' =>
      h (hnone.2 h'), fun h => (hI.node j).2 (hnone.1 h)⟩⟩

/-- **One step keeps the invariant**, where no node drops its group while a SUB waits. -/
theorem McInv.next (hI : McInv s) {a : MulticastAction ι σ} {s' : MulticastState ι σ}
    (hok : NoSubWaits s a) (h : s.next a = some s') : McInv s' := by
  cases a with
  | ownerSub source =>
    rw [MulticastState.next, some.injEq] at h
    exact h ▸ hI.putOwner (hI.owner_counted.join source) (join_isSome _ _)
  | ownerUsub source =>
    rw [MulticastState.next, some.injEq] at h
    exact h ▸ hI.putOwner (hI.owner_counted.leave source) (leave_isSome _ _)
  | ownerDel =>
    rw [MulticastState.next, some.injEq] at h
    exact h ▸ hI.ownerDel s.up
  | sendDelr i =>
    simp only [MulticastState.next, ite_none_right_eq_some, some.injEq] at h
    obtain ⟨hmem, rfl⟩ := h
    exact hI.sendDelr hmem
  | sub i source =>
    rw [MulticastState.next, some.injEq] at h
    exact h ▸ hI.sub i source
  | usub i source =>
    rw [MulticastState.next, some.injEq] at h
    exact h ▸ hI.usub hok
  | del i =>
    rw [MulticastState.next, some.injEq] at h
    exact h ▸ hI.sendUp i (by simp) s.asking
  | call i source =>
    simp only [MulticastState.next, ite_none_right_eq_some, some.injEq] at h
    obtain ⟨-, rfl⟩ := h
    exact hI.sendUp i (by simp) _
  | up i =>
    simp only [MulticastState.next] at h
    split at h
    · cases h
    · next m ms hup =>
      cases h
      cases m with
      | subr source => exact hI.handleSubr hup
      | usubr => exact hI.handleUsubr hup
      | del => exact hI.ownerDel _
  | down i place =>
    simp only [MulticastState.next] at h
    split at h
    · cases h
    · next m hm =>
      simp only [ite_none_right_eq_some, some.injEq] at h
      obtain ⟨horder, rfl⟩ := h
      obtain ⟨hlt, hget⟩ := List.getElem?_eq_some_iff.1 hm
      have hsplit : s.down i = (s.down i).take place ++ m :: (s.down i).drop (place + 1) := by
        rw [← hget, getElem_cons_drop, take_append_drop]
      rw [eraseIdx_eq_take_drop_succ]
      cases m with
      | answer source missing => exact hI.handleAnswer hsplit
      | delr =>
        have hplace : place = 0 := by simpa using horder
        subst hplace
        exact hI.handleDelr hsplit

theorem McInv.agree (hI : McInv s) : SubscriptionsAgree s := by
  have hremote : s.Quiescent → ∀ i, i ∈ s.channelRemote.getD ∅ ↔
      (s.node i).channel.isSome = true := by
    rintro ⟨hdeleting, hquiet⟩ i
    obtain ⟨-, hup, hdown⟩ := hquiet i
    by_cases hdead : s.owner.channel = none
    · have hnode := (hI.node i).2 hdead
      rw [hdown, hdeleting] at hnode
      rw [hI.remote hdead]
      constructor
      · intro h
        cases h
      · intro h
        rcases hnode.behind h with h | h
        · cases h
        · cases h
    · have hnode := (hI.node i).1 hdead
      rw [hup, hdown] at hnode
      constructor
      · intro hmem
        rcases hnode.member_why hmem with hsome | h | h
        · exact hsome
        · cases h
        · exact absurd rfl h
      · exact fun hsome => (hnode.joined (.inl hsome)).1
  refine ⟨fun k => ?_, fun hquiet i => ?_, fun hquiet k => ?_⟩
  · cases k with
    | none => exact hI.owner_counted
    | some i => exact hI.counted i
  · rw [hremote hquiet i, isSome_iff_exists]
    exact exists_congr fun g => ⟨fun hg => ⟨hg, hI.nonempty i g hg⟩, And.left⟩
  · cases k with
    | none => rfl
    | some i =>
      simp only [MulticastState.reached, MulticastState.tables, McTables.publish]
      split
      · rfl
      · next hout =>
        rw [hremote hquiet i, not_isSome_iff_eq_none] at hout
        rw [hout]
        rfl

end Steps

/-! ## Runs -/

/-- **The nodes of a channel agree on its subscribers** in every run in which no USUB drops
the group of a node while the owner has the channel and a SUB of that node waits for its
answer.
SRC: multicastd.lua:35-188 -/
theorem subscriptions_agree (ι σ : Type) [DecidableEq ι] [DecidableEq σ] (s : MulticastState ι σ)
    (h : (multicastMachine ι σ).Reach NoSubWaits s) : SubscriptionsAgree s := by
  refine McInv.agree (h.invariant ?_ ?_)
  · rintro s rfl
    refine ⟨rfl, fun _ => rfl, by simp [MulticastState.init, McTables.empty],
      by simp [MulticastState.init], fun _ => rfl, fun i => ⟨fun _ => ?_, ?_⟩⟩
    · constructor <;> simp [MulticastState.init, McTables.empty]
    · simp [MulticastState.init]
  · intro s a s' hI hok hstep
    exact hI.next hok hstep

def isSubr {σ : Type} : UpMessage σ → Bool
  | .subr _ => true
  | _ => false

def isAnswer {σ : Type} : DownMessage σ → Bool
  | .answer _ _ => true
  | _ => false

instance {ι σ : Type} (s : MulticastState ι σ) (i : ι) : Decidable (s.Waiting i) :=
  decidable_of_iff ((∃ m ∈ s.up i, isSubr m) ∨ ∃ m ∈ s.down i, isAnswer m) (by
    refine or_congr ⟨?_, ?_⟩ ⟨?_, ?_⟩
    · rintro ⟨m, hm, hsubr⟩
      cases m <;> simp only [isSubr, Bool.false_eq_true] at hsubr
      exact ⟨_, hm⟩
    · rintro ⟨source, hm⟩
      exact ⟨_, hm, rfl⟩
    · rintro ⟨m, hm, hanswer⟩
      cases m <;> simp only [isAnswer, Bool.false_eq_true] at hanswer
      exact ⟨_, _, hm⟩
    · rintro ⟨source, missing, hm⟩
      exact ⟨_, hm, rfl⟩)

instance {ι σ : Type} [DecidableEq σ] (s : MulticastState ι σ) :
    ∀ a, Decidable (NoSubWaits s a)
  | .usub i source =>
    inferInstanceAs (Decidable (s.owner.channel ≠ none → (s.node i).Empties source → ¬ s.Waiting i))
  | .ownerSub _ | .ownerUsub _ | .ownerDel | .sendDelr _ | .sub _ _ | .del _ | .call _ _ | .up _
  | .down _ _ => .isTrue trivial

/-- Two services of a node subscribe at the same time, their answers come in the other
order, both unsubscribe, and one subscribes again. -/
theorem subscriptions_agree_two_subs :
    ∃ s : MulticastState (Fin 1) ℕ, s.Quiescent ∧ s.reached (some 0) = {2} ∧
      SubscriptionsAgree s := by
  have h₀ : (multicastMachine (Fin 1) ℕ).Reach NoSubWaits .init := .start rfl
  have h := h₀.runOk
    (l := [.sub 0 1, .call 0 1, .sub 0 2, .call 0 2, .up 0, .up 0, .down 0 1, .down 0 0,
      .usub 0 1, .usub 0 2, .sub 0 2, .call 0 2, .up 0, .up 0, .down 0 0]) rfl
  exact ⟨_, ⟨rfl, by decide⟩, by decide, subscriptions_agree (Fin 1) ℕ _ h⟩

/-- **A subscriber the owner does not know of.**  Two SUBs wait; the first answer comes, its
service unsubscribes, and the owner handles the USUBR before the second answer comes.
SRC: multicastd.lua:140-188 -/
theorem subscriber_unknown :
    ¬ ∀ s : MulticastState (Fin 1) ℕ, (multicastMachine (Fin 1) ℕ).Reachable s →
      SubscriptionsAgree s := by
  intro hall
  have h : (multicastMachine (Fin 1) ℕ).Reachable .init := .start rfl
  have hrun := h.run
    (l := [.sub 0 1, .call 0 1, .sub 0 2, .call 0 2, .up 0, .up 0, .down 0 0, .usub 0 1, .up 0,
      .down 0 0]) rfl
  have hremote := (hall _ hrun).remote_iff ⟨rfl, by decide⟩ 0
  have hmem := hremote.2 ⟨{2}, rfl, by decide⟩
  exact absurd hmem (by decide)

end Skynet.Analysis
