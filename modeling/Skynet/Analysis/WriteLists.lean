import Mathlib.Algebra.BigOperators.Group.List.Basic
import Skynet.Analysis.SocketEffects
import Skynet.Model.WriteList

/-!
# The write lists in memory are the write lists

What the functions of the socket thread do to the nodes in memory is what `Socket` does to
its lists: while the heads, tails and `next` pointers spell two lists without a common
node, every function leaves them so and fails only where the function on lists does.  The
assertions of `append_sendbuffer_` are about pointers alone and never fail.
-/

namespace Skynet.Analysis

open Library Model List Function

variable {θ : Type} {p p' : LinkedSocket θ} {s : Socket θ} {high low l : List ℕ}
  {os : Syscalls}

/-! ## Reading the lists -/

structure LiesAt (p : LinkedSocket θ) (high low : List ℕ) : Prop where
  holdsHigh : p.high.Holds p.next high
  holdsLow : p.low.Holds p.next low
  nodup : (high ++ low).Nodup
  old : ∀ a ∈ high ++ low, a < p.mallocs

def read (p : LinkedSocket θ) (high low : List ℕ) : Socket θ :=
  { p.fields with high := high.map p.node, low := low.map p.node }

inductive Represents (p : LinkedSocket θ) : Socket θ → Prop
  | intro {high low : List ℕ} (h : LiesAt p high low) : Represents p (read p high low)

/-- Two functions do the same: both leave the same slot and return the same, or both fail
with the same assertion. -/
inductive Agree : LinkedResult θ → Except SocketFault (Socket θ × SocketResult) → Prop
  | ok {p : LinkedSocket θ} {s : Socket θ} {r : SocketResult} (h : Represents p s) :
      Agree (.ok (p, r)) (.ok (s, r))
  | error (f : SocketFault) : Agree (.error (.slot f)) (.error f)

theorem Agree.ite {c c' : Prop} [Decidable c] [Decidable c'] {x y : LinkedResult θ}
    {x' y' : Except SocketFault (Socket θ × SocketResult)} (hc : c ↔ c') (hpos : c → Agree x x')
    (hneg : ¬c → Agree y y') : Agree (if c then x else y) (if c' then x' else y') := by
  by_cases h : c
  · rw [if_pos h, if_pos (hc.mp h)]
    exact hpos h
  · rw [if_neg h, if_neg (hc.not.mp h)]
    exact hneg h

theorem LiesAt.of_same (h : LiesAt p high low) (hhigh : p'.high = p.high) (hlow : p'.low = p.low)
    (hnext : p'.next = p.next) (hmallocs : p'.mallocs = p.mallocs) : LiesAt p' high low := by
  refine ⟨?_, ?_, h.nodup, ?_⟩
  · rw [hhigh, hnext]
    exact h.holdsHigh
  · rw [hlow, hnext]
    exact h.holdsLow
  · rw [hmallocs]
    exact h.old

theorem LiesAt.fields (h : LiesAt p high low) (fields : Socket θ) :
    Represents { p with fields := fields }
      { fields with high := high.map p.node, low := low.map p.node } :=
  .intro (h.of_same rfl rfl rfl rfl)

variable {q : HeadTail ℕ} {next : ℕ → Option ℕ}

theorem head_eq_none_iff (h : q.Holds next l) : q.head = none ↔ l = [] := by
  rw [h.head.eq_head?, head?_eq_none_iff]

@[simp] theorem read_sendBufferEmpty (h : LiesAt p high low) :
    (read p high low).sendBufferEmpty = p.sendBufferEmpty := by
  have hhigh := h.holdsHigh.head.eq_head?
  have hlow := h.holdsLow.head.eq_head?
  unfold Socket.sendBufferEmpty LinkedSocket.sendBufferEmpty
  rw [hhigh, hlow]
  cases high <;> cases low <;> rfl

theorem enableWrite_fields (s : Socket θ) (high low : List (WriteBuffer θ)) (enable : Bool) :
    Socket.enableWrite { s with high := high, low := low } os enable =
      ({ (s.enableWrite os enable).1 with high := high, low := low },
        (s.enableWrite os enable).2) := by
  by_cases h : s.writing = enable
  · simp [Socket.enableWrite, h]
  · simp [Socket.enableWrite, h]

/-! ## Closing -/

theorem holds_nil (h : q.Holds next []) : q.head = none ∧ q.tail = none := ⟨h.head, h.tail⟩

theorem liesAt_empty (p : LinkedSocket θ) : LiesAt { p with high := .empty, low := .empty } [] [] :=
  ⟨HeadTail.holds_empty p.next, HeadTail.holds_empty p.next, nodup_nil, nofun⟩

theorem forceClose_agrees (h : LiesAt p high low) (r : SocketResult) :
    Agree (p.forceClose.map fun p' => (p', r))
      ((read p high low).forceClose.map fun s' => (s', r)) := by
  unfold LinkedSocket.forceClose Socket.forceClose
  rw [show (read p high low).type = p.fields.type from rfl]
  cases htype : p.fields.type with
  | invalid => exact .ok (.intro h)
  | reserve => exact .error _
  | _ => exact .ok ((liesAt_empty p).fields { p.fields with type := .invalid, dwBuffer := none })

theorem closeWrite_agrees (h : LiesAt p high low) :
    Agree (p.closeWrite os) ((read p high low).closeWrite os) := by
  refine .ite Iff.rfl (fun _ => forceClose_agrees h _) fun _ => ?_
  refine .ite Iff.rfl (fun _ => .ok (.intro h)) fun _ => ?_
  dsimp only [read]
  rw [enableWrite_fields { p.fields with type := .halfcloseWrite } (high.map p.node)]
  exact .ok (h.fields _)

/-! ## Writing -/

/-- The loop of `send_list_tcp` in memory leaves `d`, and on lists `d'`: the rest of the
list, and only nodes of the list have changed. -/
def DrainAgrees (node : ℕ → WriteBuffer θ) (next : ℕ → Option ℕ) (l : List ℕ)
    (d : LinkedSocket.Drained θ) (d' : Socket.Drained θ) : Prop :=
  ∃ l', d.list.Holds next l' ∧ l' <:+ l ∧ (∀ a, a ∉ l → d.node a = node a) ∧
    d' = ⟨l'.map d.node, d.bytes, d.done, d.failed⟩

theorem drainAgrees_stop (node : ℕ → WriteBuffer θ) (h : q.Holds next l) (failed : Bool) :
    DrainAgrees node next l ⟨q, node, [], [], failed⟩ ⟨l.map node, [], [], failed⟩ :=
  ⟨l, h, suffix_rfl, fun _ _ => rfl, rfl⟩

theorem drainAgrees_part (node : ℕ → WriteBuffer θ) {a : ℕ}
    (h : q.Holds next (a :: l)) (ha : a ∉ l) (wb : WriteBuffer θ) (bytes : List UInt8) :
    DrainAgrees node next (a :: l) ⟨q, update node a wb, bytes, [], false⟩
      ⟨wb :: l.map node, bytes, [], false⟩ := by
  refine ⟨a :: l, h, suffix_rfl, fun b hb => ?_, ?_⟩
  · apply update_of_ne
    rintro rfl
    exact hb mem_cons_self
  · dsimp only
    rw [map_cons, update_self]
    congr 2
    apply map_congr_left
    intro b hb
    rw [update_of_ne]
    rintro rfl
    exact ha hb

theorem drain_agrees (node : ℕ → WriteBuffer θ) (next : ℕ → Option ℕ)
    (results : List WriteResult) (h : q.Taken next l) (hnodup : l.Nodup) :
    DrainAgrees node next l (LinkedSocket.drain node next q results)
      (Socket.drain (l.map node) results) := by
  induction results generalizing q l with
  | nil =>
    cases l with
    | nil =>
      have hhead : q.head = none := h.head
      simp only [LinkedSocket.drain, hhead]
      exact drainAgrees_stop node (hhead ▸ h.clear) false
    | cons a l =>
      simp only [LinkedSocket.drain, h.head.1]
      exact drainAgrees_stop node (h.holds (cons_ne_nil a l)) false
  | cons result results ih =>
    cases l with
    | nil =>
      have hhead : q.head = none := h.head
      simp only [LinkedSocket.drain, hhead]
      exact drainAgrees_stop node (hhead ▸ h.clear) false
    | cons a l =>
      have hq := h.holds (cons_ne_nil a l)
      cases result with
      | intr =>
        simp only [LinkedSocket.drain, h.head.1, map_cons, Socket.drain]
        exact ih h hnodup
      | again =>
        simp only [LinkedSocket.drain, h.head.1]
        exact drainAgrees_stop node hq false
      | failed =>
        simp only [LinkedSocket.drain, h.head.1]
        exact drainAgrees_stop node hq true
      | wrote n =>
        obtain ⟨ha, hl⟩ := nodup_cons.mp hnodup
        simp only [LinkedSocket.drain, h.head.1, map_cons, Socket.drain]
        split
        · exact drainAgrees_part node hq ha _ _
        · obtain ⟨l', hlist, hsuffix, hnode, hdrain⟩ := ih h.drop hl
          refine ⟨l', hlist, hsuffix.trans (suffix_cons a l), fun b hb => ?_, ?_⟩
          · exact hnode b fun hb' => hb (mem_cons_of_mem a hb')
          · rw [hdrain]

def nodes (priority : Priority) (high low : List ℕ) : List ℕ :=
  match priority with
  | .high => high
  | .low => low

theorem LiesAt.setList (h : LiesAt p high low) (priority : Priority) {l' : List ℕ}
    {node : ℕ → WriteBuffer θ} (hq : q.Holds p.next l')
    (hsuffix : l' <:+ nodes priority high low)
    (hnode : ∀ a, a ∉ nodes priority high low → node a = p.node a)
    (fields : Socket θ) :
    Represents { p.setList priority q with node := node, fields := fields }
      ({ fields with high := high.map p.node, low := low.map p.node }.setList priority
        (l'.map node)) := by
  obtain ⟨hnodup_high, hnodup_low, hdisjoint⟩ := nodup_append.mp h.nodup
  cases priority with
  | high =>
    have hlow : low.map p.node = low.map node := by
      apply map_congr_left
      intro a ha
      exact (hnode a fun hmem => hdisjoint a hmem a ha rfl).symm
    have hlies : LiesAt { p with high := q, node := node, fields := fields } l' low := by
      refine ⟨hq, h.holdsLow, ?_, fun a ha => h.old a ?_⟩
      · exact h.nodup.sublist (hsuffix.sublist.append_right low)
      · exact (hsuffix.sublist.append_right low).subset ha
    simp only [Socket.setList, hlow]
    exact .intro hlies
  | low =>
    have hhigh : high.map p.node = high.map node := by
      apply map_congr_left
      intro a ha
      exact (hnode a fun hmem => hdisjoint a ha a hmem rfl).symm
    have hlies : LiesAt { p with low := q, node := node, fields := fields } high l' := by
      refine ⟨h.holdsHigh, hq, ?_, fun a ha => h.old a ?_⟩
      · exact h.nodup.sublist (hsuffix.sublist.append_left high)
      · exact (hsuffix.sublist.append_left high).subset ha
    simp only [Socket.setList, hhigh]
    exact .intro hlies

theorem LiesAt.holds (h : LiesAt p high low) (priority : Priority) :
    (p.list priority).Holds p.next (nodes priority high low) := by
  cases priority with
  | high => exact h.holdsHigh
  | low => exact h.holdsLow

theorem LiesAt.nodup_nodes (h : LiesAt p high low) (priority : Priority) :
    (nodes priority high low).Nodup := by
  have hnodup := nodup_append.mp h.nodup
  cases priority with
  | high => exact hnodup.1
  | low => exact hnodup.2.1

theorem read_list (priority : Priority) :
    (read p high low).list priority = (nodes priority high low).map p.node := by
  cases priority <;> rfl

theorem sendListTcp_agrees (h : LiesAt p high low) (priority : Priority)
    (results : List WriteResult) :
    Agree (p.sendListTcp os priority results) ((read p high low).sendListTcp os priority results) := by
  obtain ⟨l', hlist, hsuffix, hnode, hdrain⟩ :=
    drain_agrees p.node p.next results (h.holds priority).taken (h.nodup_nodes priority)
  unfold LinkedSocket.sendListTcp Socket.sendListTcp
  rw [read_list, hdrain]
  generalize LinkedSocket.drain p.node p.next (p.list priority) results = d at *
  have hafter : Represents (p.afterDrain priority d) ((read p high low).afterDrain priority
      ⟨l'.map d.node, d.bytes, d.done, d.failed⟩) := by
    cases priority <;> exact h.setList _ hlist hsuffix hnode _
  refine .ite Iff.rfl (fun _ => ?_) fun _ => .ok hafter
  generalize Socket.afterDrain _ _ _ = s at hafter ⊢
  obtain ⟨hlies⟩ := hafter
  exact closeWrite_agrees hlies

theorem drainUdp_agrees (high low : List ℕ) (behind : UdpAddress)
    (results : List WriteResult) (h : q.Taken p.next l) :
    ∃ l', (p.drainUdp behind q results).1.Holds p.next l' ∧ l' <:+ l ∧
      (read p high low).drainUdp behind (l.map p.node) results =
        (l'.map p.node, (p.drainUdp behind q results).2) := by
  induction results generalizing q l with
  | nil =>
    cases l with
    | nil =>
      have hhead : q.head = none := h.head
      simp only [LinkedSocket.drainUdp, hhead]
      exact ⟨[], hhead ▸ h.clear, suffix_rfl, rfl⟩
    | cons a l =>
      have hq := h.holds (cons_ne_nil a l)
      simp only [LinkedSocket.drainUdp, h.head.1, map_cons, Socket.drainUdp]
      by_cases haddr : (!p.fields.udpSocketAddress ((p.node a).udpAddress.getD behind)) = true
      · rw [if_pos haddr, if_pos (by exact haddr)]
        exact ⟨l, hq.drop, suffix_cons a l, rfl⟩
      · rw [if_neg haddr, if_neg (by exact haddr)]
        exact ⟨a :: l, hq, suffix_rfl, rfl⟩
  | cons result results ih =>
    cases l with
    | nil =>
      have hhead : q.head = none := h.head
      simp only [LinkedSocket.drainUdp, hhead]
      exact ⟨[], hhead ▸ h.clear, suffix_rfl, rfl⟩
    | cons a l =>
      have hq := h.holds (cons_ne_nil a l)
      simp only [LinkedSocket.drainUdp, h.head.1, map_cons, Socket.drainUdp]
      by_cases haddr : (!p.fields.udpSocketAddress ((p.node a).udpAddress.getD behind)) = true
      · rw [if_pos haddr, if_pos (by exact haddr)]
        exact ⟨l, hq.drop, suffix_cons a l, rfl⟩
      · rw [if_neg haddr, if_neg (by exact haddr)]
        cases result with
        | intr => exact ⟨a :: l, hq, suffix_rfl, rfl⟩
        | again => exact ⟨a :: l, hq, suffix_rfl, rfl⟩
        | failed => exact ⟨l, hq.drop, suffix_cons a l, rfl⟩
        | wrote n =>
          obtain ⟨l', hlist, hsuffix, hdrain⟩ := ih h.drop
          refine ⟨l', hlist, hsuffix.trans (suffix_cons a l), ?_⟩
          dsimp only
          rw [hdrain]

theorem sendListUdp_agrees (h : LiesAt p high low) (priority : Priority)
    (results : List WriteResult) :
    Agree (.ok (p.sendListUdp os priority results))
      (.ok ((read p high low).sendListUdp os priority results)) := by
  obtain ⟨l', hlist, hsuffix, hdrain⟩ :=
    drainUdp_agrees high low os.behind results (h.holds priority).taken
  unfold LinkedSocket.sendListUdp Socket.sendListUdp
  rw [read_list, hdrain]
  cases priority <;> exact .ok (h.setList _ hlist hsuffix (fun _ _ => rfl) _)

theorem sendList_agrees (os : Syscalls) (h : LiesAt p high low) (priority : Priority)
    (results : List WriteResult) :
    Agree (p.sendList os priority results) ((read p high low).sendList os priority results) :=
  .ite Iff.rfl (fun _ => sendListTcp_agrees h priority results)
    fun _ => sendListUdp_agrees h priority results

theorem listUncomplete_agrees (h : q.Holds p.next l) :
    p.listUncomplete q = Socket.listUncomplete (l.map p.node) := by
  unfold LinkedSocket.listUncomplete
  rw [h.head.eq_head?]
  cases l <;> rfl

theorem raiseUncomplete_agrees (h : LiesAt p high low) (hlow : low ≠ []) :
    Agree (p.raiseUncomplete.map fun p' => (p', none))
      ((read p high low).raiseUncomplete.map fun s' => (s', none)) := by
  cases low with
  | nil => exact absurd rfl hlow
  | cons a low =>
    have hdrop := h.holdsLow.drop
    unfold LinkedSocket.raiseUncomplete Socket.raiseUncomplete
    rw [h.holdsLow.head.1]
    cases high with
    | cons b high =>
      rw [h.holdsHigh.head.1]
      exact .error _
    | nil =>
      have ha : a ∉ low := (nodup_cons.mp h.nodup).1
      rw [show p.high.head = none from h.holdsHigh.head]
      have hsingle : HeadTail.Holds (update p.next a none) ⟨some a, some a⟩ [a] :=
        .single (update_self ..)
      have hlies : LiesAt { p with
          low := ⟨p.next a, if p.next a = none then none else p.low.tail⟩
          high := ⟨some a, some a⟩, next := update p.next a none } [a] low :=
        ⟨hsingle, hdrop.update ha none, h.nodup, h.old⟩
      exact .ok (.intro hlies)

theorem head_ne_none_iff (h : q.Holds next l) :
    q.head ≠ none ↔ (!(l.map p.node).isEmpty) = true := by
  rw [Ne, head_eq_none_iff h]
  cases l <;> simp

theorem bufferSent_agrees (h : LiesAt p high low) :
    Agree (p.bufferSent os) ((read p high low).bufferSent os) := by
  refine .ite (by rw [read_sendBufferEmpty h]; exact Iff.rfl) (fun _ => .error _) fun _ => ?_
  refine .ite Iff.rfl (fun _ => forceClose_agrees h _) fun _ => ?_
  rw [read, enableWrite_fields p.fields (high.map p.node)]
  cases p.fields.enableWrite os false with
  | mk fields failed =>
    cases failed with
    | true => exact .ok (h.fields fields)
    | false =>
      exact .ite Iff.rfl (fun _ => .ok (h.fields { fields with warnSize := 0 }))
        fun _ => .ok (h.fields fields)

theorem sendLow_agrees (h : LiesAt p high low) :
    Agree (p.sendLow os) ((read p high low).sendLow os) := by
  have hempty : p.low.head = none ↔ (read p high low).low.isEmpty = true := by
    rw [head_eq_none_iff h.holdsLow]
    cases low <;> simp [read]
  refine .ite hempty (fun _ => bufferSent_agrees h) fun _ => ?_
  have hsend := sendList_agrees os h .low os.writeLow
  generalize p.sendList os .low os.writeLow = x at hsend ⊢
  generalize (read p high low).sendList os .low os.writeLow = y at hsend ⊢
  cases hsend with
  | error f => exact .error f
  | @ok p' s' r hrep =>
    cases r with
    | some r =>
      obtain ⟨code, m⟩ := r
      cases code <;> exact .ok hrep
    | none =>
      obtain @⟨high', low', hlies⟩ := hrep
      have hun := listUncomplete_agrees hlies.holdsLow
      refine .ite (by rw [hun]; exact Iff.rfl) (fun hc => raiseUncomplete_agrees hlies ?_) fun _ => ?_
      · rintro rfl
        rw [hun] at hc
        cases hc
      refine .ite (head_ne_none_iff hlies.holdsLow) (fun _ => .ok (.intro hlies)) fun _ => ?_
      exact bufferSent_agrees hlies

theorem sendSteps_agrees (h : LiesAt p high low) :
    Agree (p.sendBuffer_ os) ((read p high low).sendBuffer_ os) := by
  refine .ite (by rw [listUncomplete_agrees h.holdsLow]; exact Iff.rfl) (fun _ => .error _)
    fun _ => ?_
  have hsend := sendList_agrees os h .high os.writeHigh
  generalize p.sendList os .high os.writeHigh = x at hsend ⊢
  generalize (read p high low).sendList os .high os.writeHigh = y at hsend ⊢
  cases hsend with
  | error f => exact .error f
  | @ok p' s' r hrep =>
    cases r with
    | some r =>
      obtain ⟨code, m⟩ := r
      cases code <;> exact .ok hrep
    | none =>
      obtain @⟨high', low', hlies⟩ := hrep
      have hempty : p'.high.head = none ↔ (read p' high' low').high.isEmpty = true := by
        rw [head_eq_none_iff hlies.holdsHigh]
        cases high' <;> simp [read]
      exact .ite hempty (fun _ => sendLow_agrees hlies) fun _ => .ok (.intro hlies)

/-! ## New nodes -/

theorem LiesAt.new (h : LiesAt p high low) : p.mallocs ∉ high ++ low :=
  fun hmem => Nat.lt_irrefl _ (h.old _ hmem)

theorem map_node_update {nodes : List ℕ} {buf : ℕ} (hnew : buf ∉ nodes) (node : ℕ → WriteBuffer θ)
    (wb : WriteBuffer θ) : nodes.map (update node buf wb) = nodes.map node := by
  apply map_congr_left
  intro a ha
  apply update_of_ne
  rintro rfl
  exact hnew ha

theorem LiesAt.insert (h : LiesAt p high low) (priority : Priority) (wb : WriteBuffer θ)
    {l' : List ℕ} (hq : q.Holds next l')
    (hperm : l'.Perm (p.mallocs :: nodes priority high low))
    (hnext : ∀ a ∈ high ++ low, a ∉ nodes priority high low → next a = p.next a)
    (fields : Socket θ) :
    Represents { p.setList priority q with
        node := update p.node p.mallocs wb, next := next, mallocs := p.mallocs + 1
        fields := fields }
      ({ fields with high := high.map p.node, low := low.map p.node }.setList priority
        (l'.map (update p.node p.mallocs wb))) := by
  have hnew := h.new
  obtain ⟨hnewHigh, hnewLow⟩ := not_or.mp (mem_append.not.mp hnew)
  obtain ⟨-, -, hdisjoint⟩ := nodup_append.mp h.nodup
  have hnodup : (p.mallocs :: (high ++ low)).Nodup := nodup_cons.mpr ⟨hnew, h.nodup⟩
  have hold (a : ℕ) (ha : a ∈ p.mallocs :: (high ++ low)) : a < p.mallocs + 1 := by
    obtain rfl | ha := mem_cons.mp ha
    · exact Nat.lt_succ_self _
    · exact Nat.lt_succ_of_lt (h.old a ha)
  cases priority with
  | high =>
    have hall : (l' ++ low).Perm (p.mallocs :: (high ++ low)) := hperm.append_right low
    simp only [Socket.setList, ← map_node_update hnewLow p.node wb]
    refine .intro ⟨hq, ?_, hall.nodup_iff.mpr hnodup, fun a ha => hold a (hall.subset ha)⟩
    exact h.holdsLow.congr fun a ha => hnext a (mem_append_right high ha)
      fun hmem => hdisjoint a hmem a ha rfl
  | low =>
    have hall : (high ++ l').Perm (p.mallocs :: (high ++ low)) :=
      (hperm.append_left high).trans perm_middle
    simp only [Socket.setList, ← map_node_update hnewHigh p.node wb]
    refine .intro ⟨?_, hq, hall.nodup_iff.mpr hnodup, fun a ha => hold a (hall.subset ha)⟩
    exact h.holdsHigh.congr fun a ha => hnext a (mem_append_left low ha)
      fun hmem => hdisjoint a ha a hmem rfl

theorem LiesAt.new_nodes (h : LiesAt p high low) (priority : Priority) :
    p.mallocs ∉ nodes priority high low := by
  intro hmem
  apply h.new
  cases priority with
  | high => exact mem_append_left low hmem
  | low => exact mem_append_right high hmem

theorem takeDirect_agrees (h : LiesAt p high low) :
    Represents p.takeDirect (read p high low).takeDirect := by
  unfold LinkedSocket.takeDirect Socket.takeDirect
  rw [show (read p high low).dwBuffer = p.fields.dwBuffer from rfl]
  cases hdw : p.fields.dwBuffer with
  | none => exact .intro h
  | some b =>
    have hnew : p.mallocs ∉ high := h.new_nodes .high
    have hother (next : Option ℕ) (a : ℕ) (ha : a ∈ high ++ low) :
        update p.next p.mallocs next a = p.next a :=
      update_of_ne (Nat.ne_of_lt (h.old a ha)) _ _
    have hself (next : Option ℕ) : update p.next p.mallocs next p.mallocs = next :=
      update_self ..
    have hmap (wb : WriteBuffer θ) :
        (p.mallocs :: high).map (update p.node p.mallocs wb) = wb :: high.map p.node := by
      rw [map_cons, update_self, map_node_update hnew]
    cases hhead : p.high.head with
    | none =>
      obtain rfl := (head_eq_none_iff h.holdsHigh).mp hhead
      have hins := h.insert .high ⟨b, p.fields.dwOffset, none⟩ (.single (hself none)) (.refl _)
        (fun a ha _ => hother none a ha)
      rw [hmap] at hins
      exact hins { p.fields with
        wbSize := p.fields.wbSize + WriteBuffer.sz ⟨b, p.fields.dwOffset, none⟩, dwBuffer := none }
    | some first =>
      have hne : high ≠ [] := by
        rintro rfl
        cases hhead.symm.trans h.holdsHigh.head
      have hcons := (h.holdsHigh.update hnew (some first)).cons hne ((hself _).trans hhead.symm)
      have hins := h.insert .high ⟨b, p.fields.dwOffset, none⟩ hcons (.refl _)
        (fun a ha _ => hother _ a ha)
      rw [hmap] at hins
      exact hins { p.fields with
        wbSize := p.fields.wbSize + WriteBuffer.sz ⟨b, p.fields.dwOffset, none⟩, dwBuffer := none }

theorem sendBuffer_agrees (h : LiesAt p high low) :
    Agree (p.sendBuffer os) ((read p high low).sendBuffer os) := by
  refine .ite Iff.rfl (fun _ => .ok (.intro h)) fun _ => ?_
  have hdirect := takeDirect_agrees h
  generalize (read p high low).takeDirect = s at hdirect ⊢
  obtain ⟨hlies⟩ := hdirect
  exact sendSteps_agrees hlies

theorem malloc_list (wb : WriteBuffer θ) (next : Option ℕ) (priority : Priority) :
    (p.malloc wb next).list priority = p.list priority := by
  cases priority <;> rfl

/-- **Appending.** `append_sendbuffer_` puts the node at the end, and its assertions hold. -/
theorem appendSendbuffer_agrees (h : LiesAt p high low) (priority : Priority) (b : SendBuffer θ)
    (addr : Option UdpAddress) : ∃ p', p.appendSendbuffer priority b addr = .ok p' ∧
      Represents p' ((read p high low).appendSendbuffer priority b addr) ∧
      p'.fields = { p.fields with wbSize := p.fields.wbSize + b.bytes.length } := by
  have hlist := h.holds priority
  have hnew := h.new_nodes priority
  have hnodup := h.nodup_nodes priority
  have hold (a : ℕ) (ha : a ∈ high ++ low) : update p.next p.mallocs none a = p.next a :=
    update_of_ne (Nat.ne_of_lt (h.old a ha)) _ _
  have hself : update p.next p.mallocs none p.mallocs = none := update_self ..
  have hmap : (nodes priority high low ++ [p.mallocs]).map
      (update p.node p.mallocs ⟨b, 0, addr⟩) =
        (nodes priority high low).map p.node ++ [⟨b, 0, addr⟩] := by
    rw [map_append, map_node_update hnew, map_singleton, update_self]
  have hperm : (nodes priority high low ++ [p.mallocs]).Perm
      (p.mallocs :: nodes priority high low) := perm_append_singleton _ _
  unfold LinkedSocket.appendSendbuffer LinkedSocket.appendSendbuffer_
  dsimp only
  rw [malloc_list]
  cases hhead : (p.list priority).head with
  | none =>
    have hnil := (head_eq_none_iff hlist).mp hhead
    have hsingle : HeadTail.Holds (update p.next p.mallocs none)
        ⟨some p.mallocs, some p.mallocs⟩ (nodes priority high low ++ [p.mallocs]) := by
      rw [hnil]
      exact .single hself
    have hins := h.insert priority ⟨b, 0, addr⟩ hsingle hperm (fun a ha _ => hold a ha)
    rw [hmap] at hins
    cases priority <;> exact ⟨_, rfl, hins _, rfl⟩
  | some first =>
    have hne : nodes priority high low ≠ [] := fun hnil =>
      Option.some_ne_none first (hhead.symm.trans ((head_eq_none_iff hlist).mpr hnil))
    obtain ⟨last, hlast⟩ : ∃ last, (nodes priority high low).getLast? = some last :=
      ⟨_, getLast?_eq_some_getLast hne⟩
    have hmem : last ∈ nodes priority high low := mem_of_getLast? hlast
    have htail : (p.list priority).tail = some last := hlist.tail.trans hlast
    have hlist' := hlist.update hnew none
    have hnone : (p.malloc ⟨b, 0, addr⟩ none).next last = none := hlist'.head.next_getLast hlast
    have hins := h.insert priority ⟨b, 0, addr⟩ (hlist'.append hnodup htail hnew hself) hperm
      (fun a ha hnot => by
        rw [update_of_ne (by rintro rfl; exact hnot hmem)]
        exact hold a ha)
    rw [hmap, hhead] at hins
    rw [htail]
    dsimp only
    rw [if_neg (not_not.mpr hnone)]
    cases priority <;> exact ⟨_, rfl, hins _, rfl⟩

/-- What is done to the other fields of a slot in memory, where it does not depend on the
lists. -/
theorem onFields_agrees {f : Socket θ → Socket θ × SocketResult} (h : Represents p s)
    (hf : ∀ (s : Socket θ) (high low : List (WriteBuffer θ)),
      f { s with high := high, low := low } =
        ({ (f s).1 with high := high, low := low }, (f s).2)) :
    Agree (.ok (LinkedSocket.onFields f p)) (.ok (f s)) := by
  obtain @⟨high, low, hlies⟩ := h
  rw [read, hf]
  exact .ok (hlies.fields _)

theorem warnSending_fields (s : Socket θ) (high low : List (WriteBuffer θ)) :
    Socket.warnSending { s with high := high, low := low } =
      ({ s.warnSending.1 with high := high, low := low }, s.warnSending.2) := by
  unfold Socket.warnSending
  split <;> rfl

theorem startWriting_fields (os : Syscalls) (s : Socket θ) (high low : List (WriteBuffer θ)) :
    Socket.startWriting { s with high := high, low := low } os =
      ({ (s.startWriting os).1 with high := high, low := low }, (s.startWriting os).2) := by
  unfold Socket.startWriting
  rw [enableWrite_fields s high]
  cases s.enableWrite os true with
  | mk s failed =>
    cases failed with
    | true => rfl
    | false => exact warnSending_fields s high low

theorem append_agrees {f : Socket θ → Socket θ × SocketResult} (h : LiesAt p high low)
    (priority : Priority) (b : SendBuffer θ) (addr : Option UdpAddress)
    (hf : ∀ (s : Socket θ) (high low : List (WriteBuffer θ)),
      f { s with high := high, low := low } =
        ({ (f s).1 with high := high, low := low }, (f s).2)) :
    Agree ((p.appendSendbuffer priority b addr).map (LinkedSocket.onFields f))
      (.ok (f ((read p high low).appendSendbuffer priority b addr))) := by
  obtain ⟨p', hp', hrep, -⟩ := appendSendbuffer_agrees h priority b addr
  rw [hp']
  exact onFields_agrees hrep hf

theorem sendSocket_agrees (h : LiesAt p high low) (id : ℕ) (b : SendBuffer θ)
    (addr : Option UdpAddress) :
    Agree (p.sendSocket os id b addr) (.ok ((read p high low).sendSocket os id b addr)) := by
  have hskip : Agree (.ok (p, none)) (.ok (read p high low, none)) := .ok (.intro h)
  have hstart (s : Socket θ) (high low : List (WriteBuffer θ)) := startWriting_fields os s high low
  unfold LinkedSocket.sendSocket Socket.sendSocket
  simp only [apply_ite Except.ok, read_sendBufferEmpty h]
  refine .ite Iff.rfl (fun _ => hskip) fun _ => ?_
  refine .ite Iff.rfl (fun _ => hskip) fun _ => ?_
  refine .ite Iff.rfl (fun _ => ?_) fun _ => ?_
  · refine .ite Iff.rfl (fun _ => append_agrees h .high b none hstart) fun _ => ?_
    refine .ite Iff.rfl (fun _ => hskip) fun _ => ?_
    exact .ite Iff.rfl (fun _ => hskip) fun _ => append_agrees h b.priority b _ hstart
  · exact .ite Iff.rfl (fun _ => append_agrees h b.priority b none warnSending_fields)
      fun _ => append_agrees h b.priority b _ warnSending_fields

end Skynet.Analysis
