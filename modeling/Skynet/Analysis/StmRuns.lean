import Skynet.Analysis.StmSharing

/-!
# Runs on a shared object

Every step keeps the invariant of `Skynet.Analysis.StmSharing`, provided the last reader is
alone in the lock when it frees the object; with two readers inside, the first one's
unlock comes after the free.
-/

namespace Skynet.Analysis

open Library Model StmMemory Option Function

/-! ## Operations on an object that is not freed -/

section Memory

variable {ρ : Type} {m m' : StmMemory ρ}

theorem touchObject_eq (h : m.obj.frees = 0) : m.touchObject = m := if_pos h

theorem setLock_eq (h : m.obj.frees = 0) (l : Rwlock) :
    m.setLock l = { m with obj := { m.obj with lock := l } } := by
  simp [setLock, touchObject_eq h]

theorem runlock_eq (h : m.obj.frees = 0) :
    m.runlock = { m with
      obj := { m.obj with lock := { m.obj.lock with read := m.obj.lock.read - 1 } } } :=
  setLock_eq h _

theorem wunlock_eq (h : m.obj.frees = 0) :
    m.wunlock = { m with obj := { m.obj with lock := { m.obj.lock with write := 0 } } } :=
  setLock_eq h _

theorem incObject_eq (h : m.obj.frees = 0) :
    m.incObject = { m with obj := { m.obj with reference := m.obj.reference + 1 } } := by
  simp [incObject, touchObject_eq h]

theorem decObject_eq (h : m.obj.frees = 0) (free : Bool) :
    m.decObject free = { m with obj := { m.obj with
      reference := m.obj.reference - 1
      frees := if free then m.obj.frees + 1 else m.obj.frees } } := by
  simp [decObject, touchObject_eq h]

theorem setCopy_eq (h : m.obj.frees = 0) (copy : Option ℕ) :
    m.setCopy copy = { m with obj := { m.obj with copy := copy } } := by
  simp [setCopy, touchObject_eq h]

theorem rlock_eq_some (h : m.obj.frees = 0) (hm : m.rlock = some m') :
    m.obj.lock.write = 0 ∧ m' = { m with
      obj := { m.obj with lock := { m.obj.lock with read := m.obj.lock.read + 1 } } } := by
  simp only [StmMemory.rlock, h, ne_eq, not_true_eq_false, false_or,
    ite_none_right_eq_some, some.injEq] at hm
  exact ⟨hm.1, by rw [← hm.2, setLock_eq h]⟩

theorem wlock_eq_some (h : m.obj.frees = 0) (hm : m.wlock = some m') :
    m.obj.lock.write = 0 ∧ m.obj.lock.read = 0 ∧
      m' = { m with obj := { m.obj with lock := { m.obj.lock with write := 1 } } } := by
  simp only [StmMemory.wlock, h, ne_eq, not_true_eq_false, false_or,
    ite_none_right_eq_some, some.injEq] at hm
  exact ⟨hm.1.1, hm.1.2, by rw [← hm.2, setLock_eq h]⟩

/-- Releasing a copy that is not freed changes its counter and nothing else but the number
of its frees. -/
theorem stmReleasecopy_eq {c : ℕ} (h : (m.copies c).frees = 0) :
    m.stmReleasecopy c = { m with copies := (m.stmReleasecopy c).copies } := by
  simp [stmReleasecopy, StmMemory.touchCopy, h]

theorem Recorded.congr {e : StmRead ρ} (h : Recorded m e)
    (hmsg : ∀ c < m.count, (m'.copies c).msg = (m.copies c).msg) (hcount : m.count ≤ m'.count) :
    Recorded m' e := by
  obtain ⟨hright, halloc⟩ := h
  refine ⟨⟨hright.section_eq, hright.released_iff, hright.no_update_iff, fun msg hmsg' => ?_⟩,
    fun c hc => lt_of_lt_of_le (halloc c hc) hcount⟩
  obtain ⟨c, hc, hcmsg⟩ := hright.answer_eq msg hmsg'
  exact ⟨c, hc, (hmsg c (halloc c hc)).trans hcmsg⟩

theorem stmReleasecopy_msg (m : StmMemory ρ) (d c : ℕ) :
    ((m.stmReleasecopy d).copies c).msg = (m.copies c).msg := by
  by_cases h : c = d
  · subst h
    simp [stmReleasecopy]
  · simp [stmReleasecopy, h]

theorem incCopy_msg (m : StmMemory ρ) (d c : ℕ) :
    ((m.incCopy d).copies c).msg = (m.copies c).msg := by
  by_cases h : c = d
  · subst h
    simp [incCopy]
  · simp [incCopy, h]

theorem readNew_ok {m : StmMemory ρ} {e : StmRead ρ} (hright : SectionRight e) :
    (∃ c, e.installed = some c ∧ readNew m e = (m, .readCall c e)) ∨
      (e.installed = none ∧ readNew m e = (m.log e, .idle none) ∧ ReadRight m e) := by
  cases hins : e.installed with
  | some c => exact .inl ⟨c, rfl, by simp [readNew, hins]⟩
  | none =>
    refine .inr ⟨rfl, by simp [readNew, hins], hright.section_eq, hright.released_iff, ?_, ?_⟩
    · simp [hright.answer_eq, hright.released_iff, hins]
    · simp [hright.answer_eq]

end Memory

section Steps

variable {ρ : Type} [Fintype ρ] [DecidableEq ρ] {s : StmState ρ}

variable {r : ρ}

theorem StmInv.reader_frees (hI : StmInv s) {a b c : ℕ} (hshare : (s.reader r).share = ⟨a, b, c⟩)
    (hpos : 0 < a + b + c) : s.mem.obj.frees = 0 := by
  obtain ⟨rest, hrest, -⟩ := total_reader s r
  have hobj := hI.object
  rw [hrest, hshare] at hobj
  exact hobj.frees_eq_zero hpos

theorem StmInv.reader_uses (hI : StmInv s) {c : ℕ} (huses : (s.reader r).uses c ≠ 0) :
    (s.mem.copies c).frees = 0 ∧ c < s.mem.count := by
  obtain ⟨rest, hrest, -⟩ := pointers_reader s r
  have hne : pointers s c ≠ 0 := by
    rw [hrest]
    omega
  exact ⟨hI.copies.frees_eq_zero hne, hI.copies.lt_count hne⟩

variable {p : ReaderPc ρ}

theorem StmInv.reader_rest (hI : StmInv s) (habsent : s.reader r ≠ .absent)
    (hshare : p.share = (s.reader r).share) (huses : ∀ c, p.uses c = (s.reader r).uses c)
    (hok : ReaderOk s.mem p) : StmInv ⟨s.mem, s.writer, update s.reader r p⟩ := by
  refine hI.move_reader habsent hI.faults rfl (fun rest hrest => ?_) (fun rest hrest => ?_) hok
    hI.reads
  · rw [hshare, ← hrest]
    exact hI.object
  · refine hI.copies.congr rfl rfl fun c => ?_
    rw [huses, hrest]

variable {m : StmMemory ρ}

theorem StmInv.reader_rlock (hI : StmInv s) (hlock : s.mem.rlock = some m)
    (hshare : (s.reader r).share = ⟨1, 0, 0⟩) (hshare' : p.share = ⟨1, 1, 0⟩)
    (huses : ∀ c, p.uses c = (s.reader r).uses c) (hok : ReaderOk s.mem p) : StmInv
    ⟨m, s.writer, update s.reader r p⟩ ∧ m.obj.copy = s.mem.obj.copy := by
  have hfree := hI.reader_frees hshare (by omega)
  have habsent : s.reader r ≠ .absent := by
    intro h
    simp [h, ReaderPc.share] at hshare
  obtain ⟨hwrite, rfl⟩ := rlock_eq_some hfree hlock
  refine ⟨hI.move_reader habsent hI.faults rfl (fun rest hrest => ?_) (fun rest hrest => ?_)
    (hok.congr (.inl rfl)) fun e he => (hI.reads e he).congr (fun _ _ => rfl) le_rfl, rfl⟩
  · have hobj := hI.object
    rw [hrest, hshare] at hobj
    rw [hshare']
    exact hobj.rlock one_pos hwrite
  · refine hI.copies.congr rfl rfl fun c => ?_
    rw [huses, hrest]

theorem StmInv.reader_runlock (hI : StmInv s) {a : ℕ} {reads : List (StmRead ρ)}
    (hshare : (s.reader r).share = ⟨a, 1, 0⟩) (hshare' : p.share = ⟨a, 0, 0⟩)
    (huses : ∀ c, p.uses c = (s.reader r).uses c) (hok : ReaderOk s.mem p)
    (hreads : ∀ e ∈ reads, Recorded s.mem e) : StmInv
    ⟨{ s.mem.runlock with reads := reads }, s.writer, update s.reader r p⟩ := by
  have hfree := hI.reader_frees hshare (by omega)
  have habsent : s.reader r ≠ .absent := by
    intro h
    simp [h, ReaderPc.share] at hshare
  rw [runlock_eq hfree]
  refine hI.move_reader habsent hI.faults rfl (fun rest hrest => ?_) (fun rest hrest => ?_)
    (hok.congr (.inl rfl)) fun e he => (hreads e he).congr (fun _ _ => rfl) le_rfl
  · have hobj := hI.object
    rw [hrest, hshare] at hobj
    rw [hshare']
    exact hobj.runlock
  · refine hI.copies.congr rfl rfl fun c => ?_
    rw [huses, hrest]

variable {d : ℕ}

/-- `stm_releasecopy` by a reader that gives up a pointer to the copy, which may record
what it has read. -/
theorem StmInv.reader_release (hI : StmInv s)
    {reads : List (StmRead ρ)} (habsent : s.reader r ≠ .absent)
    (hshare : p.share = (s.reader r).share)
    (huses : ∀ c, (s.reader r).uses c = pointsTo (some d) c + p.uses c) (hok : ReaderOk s.mem p)
    (hreads : ∀ e ∈ reads, Recorded s.mem e) :
    StmInv ⟨{ s.mem.stmReleasecopy d with reads := reads }, s.writer,
      update s.reader r p⟩ := by
  have hfree : (s.mem.copies d).frees = 0 := by
    refine (hI.reader_uses (r := r) ?_).1
    rw [huses, pointsTo_self]
    omega
  have hmsg := stmReleasecopy_msg s.mem d
  have hcounted : ∀ rest : ℕ → ℕ, (∀ c, pointers s c = (s.reader r).uses c + rest c) →
      CopiesCounted (s.mem.stmReleasecopy d) fun c => p.uses c + rest c := by
    intro rest hrest
    refine hI.copies.release fun c => ?_
    rw [hrest, huses, add_assoc]
  rw [stmReleasecopy_eq hfree] at hcounted ⊢
  refine hI.move_reader habsent hI.faults rfl (fun rest hrest => ?_)
    (fun rest hrest => (hcounted rest hrest).congr rfl rfl fun _ => rfl) (hok.congr (.inl rfl))
    fun e he => (hreads e he).congr (fun c _ => hmsg c) le_rfl
  rw [hshare, ← hrest]
  exact hI.object

/-- While nobody is in the exclusive lock, no copy is installed only after the writer has
gone. -/
theorem StmInv.gone_iff (hI : StmInv s) (hfree : s.mem.obj.frees = 0)
    (hwrite : s.mem.obj.lock.write = 0) : s.writer = .gone ↔ s.mem.obj.copy = none := by
  have hw := hI.writer
  constructor
  · intro hgone
    rw [hgone] at hw
    exact hw
  · intro hnone
    have hstate := hI.object.state
    cases hpc : s.writer <;> simp only [hpc, WriterOk, hnone, ne_eq, not_true_eq_false,
      false_and] at hw <;> try rfl
    -- the last two cases of `stm_release` are inside the lock
    all_goals
      simp only [totalShare, hpc, WriterPc.share, share_add_refs, share_add_writing] at hstate
      omega

omit [DecidableEq ρ] in
/-- A reader that takes the last reference finds no copy installed, and when no other
reader is between its decrement and its unlock, nobody else is in the lock. -/
theorem StmInv.last_reader (hI : StmInv s) {rest : StmShare}
    (hshare : totalShare s = ⟨1, 1, 0⟩ + rest) (hr : (s.reader r).share = ⟨1, 1, 0⟩)
    (hlast : s.mem.obj.reference = 1) (halone : ∀ u lastcopy, s.reader u ≠ .gcUnlock lastcopy) :
    s.mem.obj.copy = none ∧ rest.reading = 0 ∧ rest.writing = 0 := by
  have hobj := hI.object
  have href := hobj.reference
  have hstate := hobj.state
  have hreaders : threadSum (fun p : ReaderPc ρ => p.share.reading) s.reader ≤
      threadSum (fun p : ReaderPc ρ => p.share.refs) s.reader := by
    refine Finset.sum_le_sum fun u _ => ?_
    have hu := halone u
    cases hpc : s.reader u <;> simp [ReaderPc.share]
    exact hu _ hpc
  have hwriter : s.writer.share.reading ≤ s.writer.share.refs := by
    cases s.writer <;> simp [WriterPc.share]
  have hone := le_threadSum (fun p : ReaderPc ρ => p.share.refs) s.reader r
  have hreading : (totalShare s).reading ≤ (totalShare s).refs := by
    simp only [totalShare, share_add_refs, share_add_reading]
    omega
  have hnone : s.writer.share.refs = 0 := by
    simp only [totalShare, share_add_refs] at href
    simp only [hr] at hone
    omega
  rw [hshare] at href hreading hstate
  simp only [share_add_refs, share_add_reading, share_add_writing] at href hreading hstate
  refine ⟨?_, by omega, by omega⟩
  have hw := hI.writer
  cases hpc : s.writer <;> simp [hpc, WriterPc.share] at hnone <;> simpa [hpc, WriterOk] using hw

variable {lastcopy : Option ℕ}

theorem StmInv.reader_readLock (hI : StmInv s) (hpc : s.reader r = .readLock lastcopy)
    (h : readerStep s.mem (decide (s.writer = .gone)) r (.readLock lastcopy) = some (m, p)) : StmInv
    ⟨m, s.writer, update s.reader r p⟩ := by
  obtain ⟨m₁, hlock, hp⟩ := map_eq_some_iff.1 h
  have hshare : (s.reader r).share = ⟨1, 0, 0⟩ := by rw [hpc]; rfl
  have hfree := hI.reader_frees hshare (by omega)
  obtain ⟨hwrite, hm₁⟩ := rlock_eq_some hfree hlock
  have hcopy : m₁.obj.copy = s.mem.obj.copy := by rw [hm₁]
  have hgone := hI.gone_iff hfree hwrite
  simp only [hcopy] at hp
  cases hcase : s.mem.obj.copy with
  | none =>
    simp only [hcase, Prod.mk.injEq] at hp
    obtain ⟨rfl, rfl⟩ := hp
    refine (hI.reader_rlock hlock hshare rfl (fun c => ?_) ?_).1
    · simp [hpc, ReaderPc.uses]
    · exact ⟨hcase, by simp [hgone, hcase]⟩
  | some c =>
    simp only [hcase, Prod.mk.injEq] at hp
    obtain ⟨rfl, rfl⟩ := hp
    refine (hI.reader_rlock hlock hshare rfl (fun c => ?_) ?_).1
    · simp [hpc, ReaderPc.uses]
    · exact ⟨hcase, by simp [hgone, hcase]⟩

theorem StmInv.reader_readInc (hI : StmInv s)
    {rel : Bool} (hpc : s.reader r = .readInc lastcopy d rel) :
    StmInv ⟨s.mem.incCopy d, s.writer,
      update s.reader r (.readUnlock lastcopy (some d) rel)⟩ := by
  have hok := hI.reader r
  rw [hpc] at hok
  obtain ⟨hcopy, hrel⟩ := hok
  have hd : pointers s d ≠ 0 := by
    simp only [pointers, hcopy, pointsTo_self]
    omega
  have hmsg := incCopy_msg s.mem d
  have hcounted : ∀ rest : ℕ → ℕ, (∀ c, pointers s c = (s.reader r).uses c + rest c) →
      s.mem.incCopy d = { s.mem with
        copies := update s.mem.copies d
          { s.mem.copies d with reference := (s.mem.copies d).reference + 1 } } ∧
      CopiesCounted (s.mem.incCopy d) fun c =>
        (ReaderPc.readUnlock lastcopy (some d) rel : ReaderPc ρ).uses c + rest c := by
    intro rest hrest
    refine hI.copies.inc hd fun c => ?_
    simp only [hrest, hpc, ReaderPc.uses]
    omega
  obtain ⟨rest₀, hrest₀, -⟩ := pointers_reader s r
  have heq := (hcounted rest₀ hrest₀).1
  have hobj : (s.mem.incCopy d).obj = s.mem.obj := by rw [heq]
  have hreads : (s.mem.incCopy d).reads = s.mem.reads := by rw [heq]
  have hcount : (s.mem.incCopy d).count = s.mem.count := by rw [heq]
  refine hI.move_reader (by simp [hpc]) ?_ (by rw [hobj]) (fun rest hrest => ?_)
    (fun rest hrest => (hcounted rest hrest).2) ⟨by rw [hobj, hcopy], by simp [hrel]⟩
    fun e he => ?_
  · rw [heq]
    exact hI.faults
  · have hobject := hI.object
    rw [hrest, hpc] at hobject
    rw [hobj]
    exact hobject
  · rw [hreads] at he
    exact (hI.reads e he).congr (fun c _ => hmsg c) hcount.ge

theorem StmInv.reader_readUnlock (hI : StmInv s) {lastcopy ret : Option ℕ} {rel : Bool}
    (hpc : s.reader r = .readUnlock lastcopy ret rel) {released : Bool}
    (h : readerStep s.mem released r (.readUnlock lastcopy ret rel) = some (m, p)) :
    StmInv ⟨m, s.writer, update s.reader r p⟩ := by
  have hok := hI.reader r
  rw [hpc] at hok
  obtain ⟨hcopy, hrel⟩ := hok
  have hshare : (s.reader r).share = ⟨1, 1, 0⟩ := by rw [hpc]; rfl
  have hfree := hI.reader_frees hshare (by omega)
  have huses : ∀ c, (s.reader r).uses c = pointsTo lastcopy c + pointsTo ret c := by
    intro c
    rw [hpc]
    rfl
  have hright : SectionRight (⟨r, lastcopy, ret, s.mem.obj.copy, rel, none⟩ : StmRead ρ) :=
    ⟨hcopy, hrel, rfl⟩
  have hreads : s.mem.runlock.reads = s.mem.reads := by rw [runlock_eq hfree]
  -- the memory after the unlock, with the records as they were
  have hsame : s.mem.runlock = { s.mem.runlock with reads := s.mem.reads } := by
    rw [← hreads]
  simp only [readerStep] at h
  split at h
  · next heq =>
    subst heq
    cases ret with
    | none =>
      cases h
      simp only [StmMemory.log, hreads]
      refine hI.reader_runlock hshare rfl (fun c => ?_) trivial fun e he => ?_
      · rw [huses]
        rfl
      rcases List.mem_cons.1 he with rfl | he
      · refine ⟨⟨hright.section_eq, hright.released_iff, by simp, by simp⟩, by simp⟩
      · exact hI.reads e he
    | some c =>
      cases h
      rw [hsame]
      refine hI.reader_runlock hshare rfl (fun c => ?_) ⟨hright, rfl, rfl⟩ hI.reads
      rw [huses, ReaderPc.uses]
      omega
  · next hne =>
    cases lastcopy with
    | none =>
      cases ret with
      | none => exact absurd rfl hne
      | some c =>
        cases h
        rw [hsame]
        refine hI.reader_runlock hshare rfl (fun c => ?_) ⟨hright, rfl, by simp⟩ hI.reads
        rw [huses, pointsTo_none, zero_add]
        rfl
    | some l =>
      cases h
      rw [hsame]
      refine hI.reader_runlock hshare rfl (fun c => ?_) ⟨hright, rfl, hne⟩ hI.reads
      rw [huses]
      rfl

theorem StmInv.reader_readDrop (hI : StmInv s) {l : ℕ} {e : StmRead ρ}
    (hpc : s.reader r = .readDrop l e) :
    StmInv ⟨(readNew (s.mem.stmReleasecopy l) e).1, s.writer,
      update s.reader r (readNew (s.mem.stmReleasecopy l) e).2⟩ := by
  have hok := hI.reader r
  rw [hpc] at hok
  obtain ⟨hright, hheld, hne⟩ := hok
  have huses : ∀ c, (s.reader r).uses c = pointsTo (some l) c + pointsTo e.installed c := by
    intro c
    rw [hpc]
    rfl
  have hfree : (s.mem.copies l).frees = 0 := by
    refine (hI.reader_uses (r := r) ?_).1
    rw [huses, pointsTo_self]
    omega
  have hshare : ∀ p : ReaderPc ρ, p.share = ⟨1, 0, 0⟩ → p.share = (s.reader r).share := by
    intro p hp
    rw [hp, hpc]
    rfl
  have hreads : (s.mem.stmReleasecopy l).reads = s.mem.reads := by
    rw [stmReleasecopy_eq hfree]
  rcases readNew_ok (m := s.mem.stmReleasecopy l) hright with ⟨c, hc, hnew⟩ | ⟨hnone, hnew, -⟩
  · rw [hnew]
    have hsame : s.mem.stmReleasecopy l = { s.mem.stmReleasecopy l with reads := s.mem.reads } := by
      rw [← hreads]
    rw [hsame]
    refine hI.reader_release (by simp [hpc]) (hshare _ rfl) (fun d => ?_) ?_ hI.reads
    · rw [huses, hc]
      rfl
    · refine ⟨hright, hc, ?_⟩
      rw [← hc, hheld]
      exact Ne.symm hne
  · rw [hnew]
    simp only [StmMemory.log, hreads]
    refine hI.reader_release (by simp [hpc]) (hshare _ rfl) (fun d => ?_) trivial fun e' he => ?_
    · rw [huses, hnone]
      rfl
    · rcases List.mem_cons.1 he with rfl | he
      · exact ⟨⟨hright.section_eq, hright.released_iff,
          by simp [hright.answer_eq, hright.released_iff, hnone], by simp [hright.answer_eq]⟩,
          by simp [hnone]⟩
      · exact hI.reads e' he

theorem StmInv.reader_readSame (hI : StmInv s) {e : StmRead ρ}
    (hpc : s.reader r = .readSame d e) :
    StmInv ⟨(s.mem.stmReleasecopy d).log e, s.writer,
      update s.reader r (.idle (some d))⟩ := by
  have hok := hI.reader r
  rw [hpc] at hok
  obtain ⟨hright, hins, hheld⟩ := hok
  have huses : ∀ c, (s.reader r).uses c = 2 * pointsTo (some d) c := by
    intro c
    rw [hpc]
    rfl
  obtain ⟨hfree, hlt⟩ := hI.reader_uses (r := r) (c := d) (by rw [huses, pointsTo_self]; omega)
  have hreads : (s.mem.stmReleasecopy d).reads = s.mem.reads := by
    rw [stmReleasecopy_eq hfree]
  simp only [StmMemory.log, hreads]
  refine hI.reader_release (by simp [hpc]) (by rw [hpc]; rfl) (fun c => ?_) trivial
    fun e' he => ?_
  · rw [huses, ReaderPc.uses]
    omega
  · rcases List.mem_cons.1 he with rfl | he
    · exact ⟨⟨hright.section_eq, hright.released_iff, by simp [hright.answer_eq, hins, hheld],
        by simp [hright.answer_eq]⟩, by simpa [hins] using hlt⟩
    · exact hI.reads e' he

theorem StmInv.reader_readCall (hI : StmInv s) {e : StmRead ρ}
    (hpc : s.reader r = .readCall d e) :
    StmInv ⟨(s.mem.touchCopy d).log { e with answer := some (s.mem.copies d).msg }, s.writer,
      update s.reader r (.idle (some d))⟩ := by
  have hok := hI.reader r
  rw [hpc] at hok
  obtain ⟨hright, hins, hheld⟩ := hok
  have huses : ∀ c, (s.reader r).uses c = pointsTo (some d) c := by
    intro c
    rw [hpc]
    rfl
  obtain ⟨hfree, hlt⟩ := hI.reader_uses (r := r) (c := d) (by rw [huses, pointsTo_self]; omega)
  have htouch : s.mem.touchCopy d = s.mem := if_pos hfree
  have hreleased : e.released = false := by
    have := hright.released_iff
    simp only [hins, reduceCtorEq, iff_false, Bool.not_eq_true] at this
    exact this
  rw [htouch]
  refine hI.move_reader (by simp [hpc]) hI.faults rfl (fun rest hrest => ?_)
    (fun rest hrest => ?_) trivial fun e' he => ?_
  · have hobj := hI.object
    rw [hrest, hpc] at hobj
    exact hobj
  · refine hI.copies.congr rfl rfl fun c => ?_
    rw [hrest, huses]
    rfl
  · rcases List.mem_cons.1 he with rfl | he
    · refine ⟨⟨hright.section_eq, hright.released_iff, ?_, ?_⟩,
        by simpa [hins, StmMemory.log] using hlt⟩
      · simp only [reduceCtorEq, hins, hreleased, Bool.false_eq_true, or_false, false_iff]
        exact Ne.symm hheld
      · rintro msg hmsg
        exact ⟨d, hins, by simpa [StmMemory.log] using hmsg⟩
    · exact (hI.reads e' he).congr (fun _ _ => rfl) le_rfl

theorem StmInv.reader_gcDec (hI : StmInv s) (hpc : s.reader r = .gcDec lastcopy)
    (hok : LastReaderAlone s (.reader r)) {released : Bool}
    (h : readerStep s.mem released r (.gcDec lastcopy) = some (m, p)) : StmInv
    ⟨m, s.writer, update s.reader r p⟩ := by
  have hshare : (s.reader r).share = ⟨1, 1, 0⟩ := by rw [hpc]; rfl
  have hfree := hI.reader_frees hshare (by omega)
  have huses : ∀ c, (s.reader r).uses c = pointsTo lastcopy c := by
    intro c
    rw [hpc]
    rfl
  simp only [LastReaderAlone, hpc] at hok
  simp only [readerStep] at h
  split at h
  · next hlast =>
    have halone := hok hlast
    obtain ⟨rest₀, hrest₀, -⟩ := total_reader s r
    obtain ⟨hcopy, -, -⟩ := hI.last_reader (hshare ▸ hrest₀) hshare hlast halone
    simp only [assert, hcopy, isNone_none, if_true, decObject_eq hfree,
      some.injEq, Prod.mk.injEq] at h
    obtain ⟨rfl, rfl⟩ := h
    have hrestuses : ∀ c, (gcRest lastcopy : ReaderPc ρ).uses c = pointsTo lastcopy c := by
      intro c
      cases lastcopy <;> rfl
    have hrestok : ReaderOk s.mem (gcRest lastcopy : ReaderPc ρ) := by
      cases lastcopy <;> trivial
    have hrestshare : (gcRest lastcopy : ReaderPc ρ).share = ⟨0, 0, 0⟩ := by
      cases lastcopy <;> rfl
    refine hI.move_reader (by simp [hpc]) hI.faults hcopy.symm (fun rest hrest => ?_)
      (fun rest hrest => ?_) (hrestok.congr (.inl hcopy.symm))
      fun e he => (hI.reads e he).congr (fun _ _ => rfl) le_rfl
    · obtain ⟨-, hreading, hwriting⟩ := hI.last_reader (hshare ▸ hrest) hshare hlast halone
      have hobj := hI.object
      rw [hrest, hshare] at hobj
      rw [hrestshare]
      exact (hobj.free hlast hreading hwriting).congr rfl rfl rfl
    · refine hI.copies.congr rfl rfl fun c => ?_
      rw [hrest, huses, hrestuses]
  · next hmore =>
    simp only [decObject_eq hfree, some.injEq, Prod.mk.injEq] at h
    obtain ⟨rfl, rfl⟩ := h
    refine hI.move_reader (by simp [hpc]) hI.faults rfl (fun rest hrest => ?_)
      (fun rest hrest => ?_) trivial
      fun e he => (hI.reads e he).congr (fun _ _ => rfl) le_rfl
    · have hobj := hI.object
      rw [hrest, hshare] at hobj
      exact hobj.dec hmore
    · refine hI.copies.congr rfl rfl fun c => ?_
      rw [hrest, huses]
      rfl

theorem StmInv.reader_gcDrop (hI : StmInv s) {l : ℕ} (hpc : s.reader r = .gcDrop l) :
    StmInv ⟨s.mem.stmReleasecopy l, s.writer, update s.reader r .gone⟩ := by
  have huses : ∀ c, (s.reader r).uses c = pointsTo (some l) c := by
    intro c
    rw [hpc]
    rfl
  have hfree : (s.mem.copies l).frees = 0 :=
    (hI.reader_uses (r := r) (by rw [huses, pointsTo_self]; omega)).1
  have hsame : s.mem.stmReleasecopy l = { s.mem.stmReleasecopy l with reads := s.mem.reads } := by
    rw [stmReleasecopy_eq hfree]
  rw [hsame]
  refine hI.reader_release (by simp [hpc]) (by rw [hpc]; rfl) (fun c => ?_) trivial hI.reads
  rw [huses]
  rfl

/-- **A reader's step keeps the invariant**, where the last reader is alone. -/
theorem StmInv.reader_step (hI : StmInv s) (hok : LastReaderAlone s (.reader r))
    (h : readerStep s.mem (decide (s.writer = .gone)) r (s.reader r) = some (m, p)) :
    StmInv ⟨m, s.writer, update s.reader r p⟩ := by
  generalize hgen : s.reader r = pc at h
  cases pc with
  | absent => cases h
  | idle lastcopy => cases h
  | readLock lastcopy => exact hI.reader_readLock hgen h
  | readInc lastcopy d rel =>
    cases h
    exact hI.reader_readInc hgen
  | readUnlock lastcopy ret rel => exact hI.reader_readUnlock hgen h
  | readSame d e =>
    cases h
    exact hI.reader_readSame hgen
  | readDrop l e =>
    simp only [readerStep, some.injEq] at h
    have hnew := hI.reader_readDrop hgen
    rw [h] at hnew
    exact hnew
  | readCall d e =>
    cases h
    exact hI.reader_readCall hgen
  | gcLock lastcopy =>
    obtain ⟨m₁, hlock, hp⟩ := map_eq_some_iff.1 h
    cases hp
    refine (hI.reader_rlock (p := .gcDec lastcopy) hlock (by rw [hgen]; rfl) rfl (fun c => ?_)
      trivial).1
    rw [hgen]
    rfl
  | gcDec lastcopy => exact hI.reader_gcDec hgen hok h
  | gcUnlock lastcopy =>
    cases h
    have hfree := hI.reader_frees (r := r) (a := 0) (b := 1) (c := 0) (by rw [hgen]; rfl)
      (by omega)
    have hsame : s.mem.runlock = { s.mem.runlock with reads := s.mem.reads } := by
      rw [runlock_eq hfree]
    rw [hsame]
    refine hI.reader_runlock (a := 0) (by rw [hgen]; rfl) ?_ (fun c => ?_) ?_ hI.reads
    · cases lastcopy <;> rfl
    · rw [hgen]
      cases lastcopy <;> rfl
    · cases lastcopy <;> trivial
  | gcDrop l =>
    cases h
    exact hI.reader_gcDrop hgen
  | gone => cases h

/-! ## The writer -/

omit [DecidableEq ρ] in
theorem StmInv.writer_frees (hI : StmInv s) {a b c : ℕ} (hshare : s.writer.share = ⟨a, b, c⟩)
    (hpos : 0 < a + b + c) : s.mem.obj.frees = 0 := by
  have hobj := hI.object
  rw [totalShare, hshare] at hobj
  exact hobj.frees_eq_zero hpos

omit [DecidableEq ρ] in
theorem StmInv.no_reader (hI : StmInv s) (hfree : s.mem.obj.frees = 0)
    (hlock : s.mem.obj.lock.read = 0 ∨ 0 < s.writer.share.writing) (r : ρ) :
    (s.reader r).share.reading = 0 := by
  have hstate := hI.object.state
  have hle := le_threadSum (fun p : ReaderPc ρ => p.share.reading) s.reader r
  simp only [totalShare, share_add_refs, share_add_reading, share_add_writing] at hstate hle
  omega

omit [DecidableEq ρ] in
/-- A step of the writer that changes only the object's lock and counter, with the shares
that go with them. -/
theorem StmInv.writer_object (hI : StmInv s) {o : StmObject} {p : WriterPc ρ}
    (hcopy : o.copy = s.mem.obj.copy)
    (hobj : ∀ rest, totalShare s = s.writer.share + rest → ObjectInv o (p.share + rest))
    (huses : ∀ c, p.uses c = s.writer.uses c) (hok : WriterOk s.mem s.reader p) :
    StmInv ⟨{ s.mem with obj := o }, p, s.reader⟩ := by
  refine hI.move_writer hI.faults (.inl hcopy) hobj (fun rest hrest => ?_) ?_
    fun e he => (hI.reads e he).congr (fun _ _ => rfl) le_rfl
  · refine hI.copies.congr rfl rfl fun c => ?_
    simp only [hrest, huses, hcopy]
  · cases p <;> simpa only [WriterOk, hcopy] using hok

omit [DecidableEq ρ] in
theorem StmInv.writer_updateLock (hI : StmInv s) (hpc : s.writer = .updateLock d)
    (hlock : s.mem.wlock = some m) :
    StmInv ⟨m.setCopy (some d), .updateUnlock m.obj.copy, s.reader⟩ := by
  have hshare : s.writer.share = ⟨1, 0, 0⟩ := by rw [hpc]; rfl
  have hfree := hI.writer_frees hshare (by omega)
  obtain ⟨hwrite, hread, rfl⟩ := wlock_eq_some hfree hlock
  rw [setCopy_eq (by exact hfree)]
  refine hI.move_writer hI.faults (.inr (hI.no_reader hfree (.inl hread)))
    (fun rest hrest => ?_) (fun rest hrest => ?_) (by simp [WriterOk])
    fun e he => (hI.reads e he).congr (fun _ _ => rfl) le_rfl
  · have hobj := hI.object
    rw [hrest, hshare] at hobj
    exact (hobj.wlock one_pos hwrite hread).congr rfl rfl rfl
  · refine hI.copies.congr rfl rfl fun c => ?_
    simp only [hrest, hpc, WriterPc.uses]
    omega

omit [DecidableEq ρ] in
theorem StmInv.writer_updateRelease (hI : StmInv s) (hpc : s.writer = .updateRelease d) :
    StmInv ⟨s.mem.stmReleasecopy d, .idle, s.reader⟩ := by
  have huses : ∀ c, s.writer.uses c = pointsTo (some d) c := by
    intro c
    rw [hpc]
    rfl
  have hd : pointers s d ≠ 0 := by
    simp only [pointers, huses, pointsTo_self]
    omega
  have hmsg := stmReleasecopy_msg s.mem d
  have hcounted : ∀ rest : ℕ → ℕ,
      (∀ c, pointers s c = pointsTo s.mem.obj.copy c + s.writer.uses c + rest c) →
      CopiesCounted (s.mem.stmReleasecopy d) fun c => pointsTo s.mem.obj.copy c + rest c := by
    intro rest hrest
    refine hI.copies.release fun c => ?_
    rw [hrest, huses]
    omega
  have hw := hI.writer
  rw [stmReleasecopy_eq (hI.copies.frees_eq_zero hd)] at hcounted ⊢
  refine hI.move_writer hI.faults (.inl rfl) (fun rest hrest => ?_)
    (fun rest hrest => (hcounted rest hrest).congr rfl rfl fun _ => rfl) ?_
    fun e he => (hI.reads e he).congr (fun c _ => hmsg c) le_rfl
  · have hobj := hI.object
    rw [hrest, hpc] at hobj
    exact hobj
  · simpa [hpc, WriterOk] using hw

omit [DecidableEq ρ] in
theorem StmInv.writer_releaseCopy (hI : StmInv s) (hpc : s.writer = .releaseCopy)
    (hcopy : s.mem.obj.copy = some d) :
    StmInv ⟨(s.mem.stmReleasecopy d).setCopy none, .releaseObject, s.reader⟩ := by
  have hshare : s.writer.share = ⟨1, 0, 1⟩ := by rw [hpc]; rfl
  have hfree := hI.writer_frees hshare (by omega)
  have hd : pointers s d ≠ 0 := by
    simp only [pointers, hcopy, pointsTo_self]
    omega
  have hmsg := stmReleasecopy_msg s.mem d
  have hcounted : ∀ rest : ℕ → ℕ,
      (∀ c, pointers s c = pointsTo s.mem.obj.copy c + s.writer.uses c + rest c) →
      CopiesCounted (s.mem.stmReleasecopy d) rest := by
    intro rest hrest
    refine hI.copies.release fun c => ?_
    rw [hrest, hcopy, hpc]
    rfl
  rw [stmReleasecopy_eq (hI.copies.frees_eq_zero hd)] at hcounted ⊢
  rw [setCopy_eq (by exact hfree)]
  refine hI.move_writer hI.faults (.inr (hI.no_reader hfree (.inr (by simp [hshare]))))
    (fun rest hrest => ?_) (fun rest hrest => ?_) rfl
    fun e he => (hI.reads e he).congr (fun c _ => hmsg c) le_rfl
  · have hobj := hI.object
    rw [hrest, hpc] at hobj
    exact hobj.congr rfl rfl rfl
  · refine (hcounted rest hrest).congr rfl rfl fun c => ?_
    simp [WriterPc.uses]

omit [DecidableEq ρ] in
theorem StmInv.writer_releaseObject (hI : StmInv s) (hpc : s.writer = .releaseObject)
    {p : WriterPc ρ} (h : writerStep s.mem .releaseObject = some (m, p)) :
    StmInv ⟨m, p, s.reader⟩ := by
  have hshare : s.writer.share = ⟨1, 0, 1⟩ := by rw [hpc]; rfl
  have hfree := hI.writer_frees hshare (by omega)
  have hnone : s.mem.obj.copy = none := by
    have hw := hI.writer
    rwa [hpc] at hw
  simp only [writerStep, decObject_eq hfree] at h
  split at h
  · cases h
    refine hI.writer_object rfl (fun rest hrest => ?_) (fun c => by rw [hpc]; rfl) hnone
    have hobj := hI.object
    rw [hrest, hshare] at hobj
    exact hobj.dec (by omega)
  · cases h
    refine hI.writer_object rfl (fun rest hrest => ?_) (fun c => by rw [hpc]; rfl) hnone
    have hobj := hI.object
    rw [hrest, hshare] at hobj
    -- the exclusive lock keeps every other thread out of the lock
    have href := hobj.reference
    have hstate := hobj.state
    simp only [share_add_refs, share_add_reading, share_add_writing] at href hstate
    exact hobj.free (by omega) (by omega) (by omega)

theorem StmInv.writer_grabUnlock (hI : StmInv s) {ref : ℤ}
    (hpc : s.writer = .grabUnlock r ref) :
    StmInv ⟨s.mem.runlock.assert (decide (0 < ref)), .idle,
      update s.reader r (.idle none)⟩ := by
  have hshare : s.writer.share = ⟨2, 1, 0⟩ := by rw [hpc]; rfl
  have hfree := hI.writer_frees hshare (by omega)
  have hw := hI.writer
  rw [hpc] at hw
  obtain ⟨hcopy, habsent, href⟩ := hw
  have hassert : s.mem.runlock.assert (decide (0 < ref)) = s.mem.runlock := by
    simp [assert, href]
  rw [hassert, runlock_eq hfree]
  obtain ⟨a, ha, ha'⟩ := threadSum_split (fun p : ReaderPc ρ => p.share.refs) s.reader r
  obtain ⟨b, hb, hb'⟩ := threadSum_split (fun p : ReaderPc ρ => p.share.reading) s.reader r
  obtain ⟨c, hc, hc'⟩ := threadSum_split (fun p : ReaderPc ρ => p.share.writing) s.reader r
  refine ⟨hI.faults, ?_, ?_, hcopy, fun u => ?_,
    fun e he => (hI.reads e he).congr (fun _ _ => rfl) le_rfl⟩
  · have hobj := hI.object
    simp only [totalShare, hshare, ha, hb, hc, habsent] at hobj
    have htotal : totalShare ⟨{ s.mem with obj := { s.mem.obj with
        lock := { s.mem.obj.lock with read := s.mem.obj.lock.read - 1 } } }, .idle,
        update s.reader r (.idle none)⟩ =
        ⟨2, 0, 0⟩ + ⟨(ReaderPc.absent : ReaderPc ρ).share.refs + a,
          (ReaderPc.absent : ReaderPc ρ).share.reading + b,
          (ReaderPc.absent : ReaderPc ρ).share.writing + c⟩ := by
      simp only [totalShare, ha', hb', hc']
      show StmShare.mk _ _ _ = StmShare.mk _ _ _
      simp only [WriterPc.share, ReaderPc.share]
      congr 1
      omega
    rw [htotal]
    exact hobj.runlock
  · refine hI.copies.congr rfl rfl fun d => ?_
    have hsum : threadSum (ReaderPc.uses d) (update s.reader r (.idle none)) =
        threadSum (ReaderPc.uses d) s.reader := by
      refine threadSum_update_eq ?_
      rw [habsent]
      rfl
    simp only [pointers, hsum, hpc]
    rfl
  · show ReaderOk _ (update s.reader r (.idle none) u)
    by_cases hu : u = r
    · subst hu
      rw [update_self]
      trivial
    · rw [update_of_ne hu]
      exact (hI.reader u).congr (.inl rfl)

/-- **The writer's step keeps the invariant.** -/
theorem StmInv.writer_step (hI : StmInv s) {p : WriterPc ρ}
    (h : writerStep s.mem s.writer = some (m, p)) : StmInv ⟨m, p, handOver s.reader s.writer⟩ := by
  have hw := hI.writer
  generalize hgen : s.writer = pc at h hw
  cases pc with
  | idle => cases h
  | grabLock r =>
    obtain ⟨m₁, hlock, hp⟩ := map_eq_some_iff.1 h
    cases hp
    have hshare : s.writer.share = ⟨1, 0, 0⟩ := by rw [hgen]; rfl
    obtain ⟨hwrite, rfl⟩ := rlock_eq_some (hI.writer_frees hshare (by omega)) hlock
    refine hI.writer_object rfl (fun rest hrest => ?_) (fun c => by rw [hgen]; rfl) hw
    have hobj := hI.object
    rw [hrest, hshare] at hobj
    exact hobj.rlock one_pos hwrite
  | grabInc r =>
    have hshare : s.writer.share = ⟨1, 1, 0⟩ := by rw [hgen]; rfl
    simp only [writerStep, incObject_eq (hI.writer_frees hshare (by omega)), some.injEq,
      Prod.mk.injEq] at h
    obtain ⟨rfl, rfl⟩ := h
    have href : 0 < s.mem.obj.reference := by
      have heq := hI.object.reference
      simp only [totalShare, hshare, share_add_refs] at heq
      omega
    refine hI.writer_object rfl (fun rest hrest => ?_) (fun c => by rw [hgen]; rfl)
      ⟨hw.1, hw.2, href⟩
    have hobj := hI.object
    rw [hrest, hshare] at hobj
    exact hobj.inc one_pos
  | grabUnlock r ref =>
    cases h
    exact hI.writer_grabUnlock hgen
  | updateLock d =>
    obtain ⟨m₁, hlock, hp⟩ := map_eq_some_iff.1 h
    cases hp
    exact hI.writer_updateLock hgen hlock
  | updateUnlock oldcopy =>
    have hshare : s.writer.share = ⟨1, 0, 1⟩ := by rw [hgen]; rfl
    have hfree := hI.writer_frees hshare (by omega)
    have hobj : ∀ rest, totalShare s = s.writer.share + rest →
        ObjectInv { s.mem.obj with lock := { s.mem.obj.lock with write := 0 } }
          (⟨1, 0, 0⟩ + rest) := by
      intro rest hrest
      have hobj := hI.object
      rw [hrest, hshare] at hobj
      exact hobj.wunlock
    cases oldcopy with
    | none =>
      simp only [writerStep, wunlock_eq hfree, some.injEq, Prod.mk.injEq] at h
      obtain ⟨rfl, rfl⟩ := h
      exact hI.writer_object rfl hobj (fun c => by rw [hgen]; rfl) hw
    | some oldcopy =>
      simp only [writerStep, wunlock_eq hfree, some.injEq, Prod.mk.injEq] at h
      obtain ⟨rfl, rfl⟩ := h
      exact hI.writer_object rfl hobj (fun c => by rw [hgen]; rfl) hw
  | updateRelease oldcopy =>
    cases h
    exact hI.writer_updateRelease hgen
  | releaseLock =>
    obtain ⟨m₁, hlock, hp⟩ := map_eq_some_iff.1 h
    cases hp
    have hshare : s.writer.share = ⟨1, 0, 0⟩ := by rw [hgen]; rfl
    obtain ⟨hwrite, hread, rfl⟩ := wlock_eq_some (hI.writer_frees hshare (by omega)) hlock
    refine hI.writer_object rfl (fun rest hrest => ?_) (fun c => by rw [hgen]; rfl) hw
    have hobj := hI.object
    rw [hrest, hshare] at hobj
    exact hobj.wlock one_pos hwrite hread
  | releaseCopy =>
    cases hcopy : s.mem.obj.copy with
    | none => exact absurd hcopy hw
    | some d =>
      simp only [writerStep, hcopy, some.injEq, Prod.mk.injEq] at h
      obtain ⟨rfl, rfl⟩ := h
      exact hI.writer_releaseCopy hgen hcopy
  | releaseObject => exact hI.writer_releaseObject hgen h
  | releaseUnlock =>
    have hshare : s.writer.share = ⟨0, 0, 1⟩ := by rw [hgen]; rfl
    simp only [writerStep, wunlock_eq (hI.writer_frees hshare (by omega)), some.injEq,
      Prod.mk.injEq] at h
    obtain ⟨rfl, rfl⟩ := h
    refine hI.writer_object rfl (fun rest hrest => ?_) (fun c => by rw [hgen]; rfl) hw
    have hobj := hI.object
    rw [hrest, hshare] at hobj
    exact hobj.wunlock
  | gone => cases h

/-! ## Runs -/

/-- **One step keeps the invariant**, where the last reader is alone. -/
theorem StmInv.next (hI : StmInv s) {a : StmAction ρ} {s' : StmState ρ}
    (hok : LastReaderAlone s a) (h : stmNext s a = some s') : StmInv s' := by
  have hw := hI.writer
  cases a with
  | copy r =>
    simp only [stmNext, ite_none_right_eq_some, some.injEq] at h
    obtain ⟨⟨hidle, habsent⟩, rfl⟩ := h
    rw [hidle] at hw
    exact hI.writer_object (o := s.mem.obj) rfl (fun rest hrest => by
      rw [show WriterPc.share (.grabLock r) = s.writer.share by rw [hidle]; rfl, ← hrest]
      exact hI.object) (fun c => by rw [hidle]; rfl) ⟨hw, habsent⟩
  | update msg =>
    simp only [stmNext, ite_none_right_eq_some, some.injEq] at h
    obtain ⟨hidle, rfl⟩ := h
    rw [hidle] at hw
    refine hI.move_writer hI.faults (.inl rfl) (fun rest hrest => ?_) (fun rest hrest => ?_) hw
      fun e he => (hI.reads e he).congr (fun c hc => ?_) (Nat.le_succ _)
    · have hobj := hI.object
      rw [hrest, hidle] at hobj
      exact hobj
    · refine hI.copies.newcopy msg fun c => ?_
      simp only [hrest, hidle, WriterPc.uses, stmNewcopy]
      omega
    · simp only [stmNewcopy]
      rw [update_of_ne (by omega)]
  | deletewriter =>
    simp only [stmNext, ite_none_right_eq_some, some.injEq] at h
    obtain ⟨hidle, rfl⟩ := h
    rw [hidle] at hw
    have hfree := hI.writer_frees (a := 1) (b := 0) (c := 0) (by rw [hidle]; rfl) (by omega)
    have hsome : s.mem.obj.copy.isSome = true := isSome_iff_ne_none.2 hw
    have hmem : s.mem.touchObject.assert s.mem.obj.copy.isSome = s.mem := by
      simp [assert, touchObject_eq hfree, hsome]
    rw [hmem]
    exact hI.writer_object (o := s.mem.obj) rfl (fun rest hrest => by
      rw [show (WriterPc.releaseLock : WriterPc ρ).share = s.writer.share by rw [hidle]; rfl, ← hrest]
      exact hI.object) (fun c => by rw [hidle]; rfl) hw
  | writer =>
    obtain ⟨⟨m, p⟩, hp, rfl⟩ := map_eq_some_iff.1 h
    exact hI.writer_step hp
  | read r =>
    simp only [stmNext] at h
    split at h
    · next lastcopy hpc =>
      cases h
      exact hI.reader_rest (by simp [hpc]) (by rw [hpc]; rfl) (fun c => by rw [hpc]; rfl) trivial
    · cases h
  | deletereader r =>
    simp only [stmNext] at h
    split at h
    · next lastcopy hpc =>
      cases h
      exact hI.reader_rest (by simp [hpc]) (by rw [hpc]; rfl) (fun c => by rw [hpc]; rfl) trivial
    · cases h
  | reader r =>
    obtain ⟨⟨m, p⟩, hp, rfl⟩ := map_eq_some_iff.1 h
    exact hI.reader_step hok hp

omit [DecidableEq ρ] in
theorem stmInv_new (msg : List UInt8) : StmInv (stmNew msg : StmState ρ) := by
  refine ⟨rfl, ?_, ?_, by simp [stmNew, WriterOk], fun _ => trivial, by simp [stmNew]⟩
  · constructor <;> simp [stmNew, totalShare, WriterPc.share, ReaderPc.share, threadSum, rwlockInit]
  · refine ⟨fun c => ?_, fun c hc => ?_, fun c hc => ?_⟩
    · by_cases h : c = 0
      · subst h
        simp [stmNew, pointers, WriterPc.uses, ReaderPc.uses, threadSum, pointsTo]
      · simp [stmNew, pointers, WriterPc.uses, ReaderPc.uses, threadSum, pointsTo, h, Ne.symm h]
    · have h : c = 0 := by
        simp only [stmNew] at hc
        omega
      subst h
      simp [stmNew, pointers, WriterPc.uses, ReaderPc.uses, threadSum, pointsTo]
    · have h : ¬0 = c := by
        simp only [stmNew] at hc
        omega
      simp [stmNew, pointers, WriterPc.uses, ReaderPc.uses, threadSum, pointsTo, h]

omit [DecidableEq ρ] in
theorem StmInv.safe (hI : StmInv s) : StmSafe s := by
  have hstate := hI.object.state
  simp only [totalShare, share_add_refs, share_add_reading, share_add_writing] at hstate
  have hpointers : ∀ c, CopyInUse s c ↔ pointers s c ≠ 0 := by
    intro c
    constructor
    · rintro (hcopy | hwriter | ⟨r, hr⟩)
      · simp only [pointers, hcopy, pointsTo_self]
        omega
      · simp only [pointers]
        omega
      · have hle := le_threadSum (ReaderPc.uses c) s.reader r
        simp only [pointers]
        omega
    · intro hne
      by_contra hunused
      simp only [CopyInUse, not_or, not_exists, not_not] at hunused
      obtain ⟨hcopy, hwriter, hreader⟩ := hunused
      refine hne ?_
      simp only [pointers, pointsTo, hcopy, if_false, hwriter, threadSum_eq_zero hreader]
  refine ⟨hI.faults, fun hused => ?_, fun hunused => ?_, fun c hc => ?_, fun c hc hunused => ?_,
    fun e he => (hI.reads e he).1⟩
  · rcases hused with hwriter | ⟨r, hr⟩
    · by_contra hfreed
      refine hwriter ?_
      cases hshare : s.writer.share with
      | mk a b c =>
        simp only [hshare] at hstate
        congr 1 <;> omega
    · by_contra hfreed
      refine hr ?_
      have ha := le_threadSum (fun p : ReaderPc ρ => p.share.refs) s.reader r
      have hb := le_threadSum (fun p : ReaderPc ρ => p.share.reading) s.reader r
      have hc := le_threadSum (fun p : ReaderPc ρ => p.share.writing) s.reader r
      cases hshare : (s.reader r).share with
      | mk a b c =>
        simp only [hshare] at ha hb hc
        congr 1 <;> omega
  · simp only [ObjectInUse, not_or, not_exists, not_not] at hunused
    obtain ⟨hwriter, hreader⟩ := hunused
    have hrefs : threadSum (fun p : ReaderPc ρ => p.share.refs) s.reader = 0 :=
      threadSum_eq_zero fun r => by rw [hreader r]
    simp only [hwriter, hrefs] at hstate
    omega
  · exact hI.copies.frees_eq_zero ((hpointers c).1 hc)
  · rw [hI.copies.frees c hc, if_pos]
    by_contra hne
    exact hunused ((hpointers c).2 hne)

end Steps

/-- **Objects and copies are freed once, in time, and reads are right** in every run in
which no reader takes the last reference while another one is between its own decrement and
its unlock in `stm_releasereader`.
SRC: lua-stm.c:26-235 -/
theorem stm_freed_once (ρ : Type) [Fintype ρ] [DecidableEq ρ] (s : StmState ρ)
    (h : (stmMachine ρ).Reach LastReaderAlone s) : StmSafe s := by
  refine StmInv.safe (h.invariant ?_ ?_)
  · rintro s ⟨msg, rfl⟩
    exact stmInv_new msg
  · intro s a s' hI hok hstep
    exact hI.next hok hstep

instance {ρ : Type} [Fintype ρ] (s : StmState ρ) : ∀ a, Decidable (LastReaderAlone s a)
  | .reader r =>
    have halone : (∀ u, (s.reader u).share ≠ ⟨0, 1, 0⟩) ↔
        ∀ u lastcopy, s.reader u ≠ .gcUnlock lastcopy := by
      refine forall_congr' fun u => ?_
      cases s.reader u <;> simp [ReaderPc.share]
    match h : s.reader r with
    | .gcDec _ =>
      decidable_of_iff (s.mem.obj.reference = 1 → ∀ u, (s.reader u).share ≠ ⟨0, 1, 0⟩)
        (by simp only [LastReaderAlone, h, halone])
    | .absent | .idle _ | .readLock _ | .readInc _ _ _ | .readUnlock _ _ _ | .readSame _ _
    | .readDrop _ _ | .readCall _ _ | .gcLock _ | .gcUnlock _ | .gcDrop _ | .gone =>
      .isTrue (by simp [LastReaderAlone, h])
  | .copy _ | .update _ | .deletewriter | .writer | .read _ | .deletereader _ => .isTrue trivial

/-- A run in which the writer hands its pointer to one reader, replaces the message while
the reader reads the first one, and goes before the reader. -/
theorem stm_freed_once_one_reader :
    ∃ s : StmState (Fin 1), s.mem.reads.length = 1 ∧ s.mem.obj.frees = 1 ∧
      (s.mem.copies 0).frees = 1 ∧ (s.mem.copies 1).frees = 1 ∧ StmSafe s := by
  have h₀ : (stmMachine (Fin 1)).Reach LastReaderAlone (stmNew [1]) := .start ⟨[1], rfl⟩
  have h := h₀.runOk
    (l := [.copy 0, .writer, .writer, .writer, .read 0, .reader 0, .reader 0, .reader 0,
      .update [2], .writer, .reader 0, .writer, .writer, .deletewriter, .writer, .writer,
      .writer, .writer, .deletereader 0, .reader 0, .reader 0, .reader 0]) rfl
  exact ⟨_, rfl, rfl, rfl, rfl, stm_freed_once (Fin 1) _ h⟩

/-- **An unlock after the free.**  The writer has gone; both readers are in the shared lock
of `stm_releasereader`, the first has taken its reference back, the second takes the last
one and frees the object, and the first unlocks.
SRC: lua-stm.c:73-84 -/
theorem stm_unlock_after_free :
    ¬ ∀ s : StmState (Fin 2), (stmMachine (Fin 2)).Reachable s → StmSafe s := by
  intro hall
  have h : (stmMachine (Fin 2)).Reachable (stmNew [1]) := .start ⟨[1], rfl⟩
  have hrun := h.run
    (l := [.copy 0, .writer, .writer, .writer, .copy 1, .writer, .writer, .writer,
      .deletewriter, .writer, .writer, .writer, .writer,
      .deletereader 0, .reader 0, .deletereader 1, .reader 1, .reader 0, .reader 1, .reader 0])
    rfl
  exact List.cons_ne_nil _ _ (hall _ hrun).faults

end Skynet.Analysis
