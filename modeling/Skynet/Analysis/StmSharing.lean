import Skynet.Model.Stm
import Mathlib.Algebra.BigOperators.Fin

/-!
# Who frees a shared object

Two counting invariants carry everything.  The counter of the object is the number of
references its threads have, and while it is not freed its lock counts the threads inside;
the counter of a copy is the number of pointers to it.  A reader in `stm_releasereader`
gives its reference back inside the lock, which another reader may free then.
-/

namespace Skynet.Analysis

open Library Model Function

/-! ## The object's counter and lock -/

/-- Shares of several threads together. -/
instance : Add StmShare :=
  ⟨fun a b => ⟨a.refs + b.refs, a.reading + b.reading, a.writing + b.writing⟩⟩

@[simp] theorem share_add_refs (a b : StmShare) : (a + b).refs = a.refs + b.refs := rfl

@[simp] theorem share_add_reading (a b : StmShare) :
    (a + b).reading = a.reading + b.reading := rfl

@[simp] theorem share_add_writing (a b : StmShare) :
    (a + b).writing = a.writing + b.writing := rfl

/-- The object against the shares of all threads: the counter counts the references; an
object that is not freed has one and its lock counts who is inside, a writer alone; a
freed object is out of use. -/
structure ObjectInv (o : StmObject) (t : StmShare) : Prop where
  reference : o.reference = t.refs
  state : (o.frees = 0 ∧ 0 < t.refs ∧ o.lock.read = t.reading ∧ o.lock.write = t.writing ∧
      t.writing ≤ 1 ∧ (t.writing = 0 ∨ t.reading = 0)) ∨
    (o.frees = 1 ∧ t.refs = 0 ∧ t.reading = 0 ∧ t.writing = 0)

section Object

variable {o : StmObject} {t rest : StmShare} {a b c : ℕ}

theorem ObjectInv.frees_eq_zero (h : ObjectInv o (⟨a, b, c⟩ + rest)) (hpos : 0 < a + b + c) :
    o.frees = 0 := by
  rcases h.state with ⟨hfrees, -⟩ | ⟨-, hrefs, hreading, hwriting⟩
  · exact hfrees
  · simp only [share_add_refs, share_add_reading, share_add_writing] at hrefs hreading hwriting
    omega

theorem ObjectInv.congr {o' : StmObject} (h : ObjectInv o t) (hlock : o'.lock = o.lock)
    (href : o'.reference = o.reference) (hfrees : o'.frees = o.frees) : ObjectInv o' t := by
  refine ⟨href.trans h.reference, ?_⟩
  rw [hlock, hfrees]
  exact h.state

theorem objectInv_add : ObjectInv o (⟨a, b, c⟩ + rest) ↔ o.reference = (a + rest.refs : ℕ) ∧
    ((o.frees = 0 ∧ 0 < a + rest.refs ∧ o.lock.read = (b + rest.reading : ℕ) ∧
      o.lock.write = (c + rest.writing : ℕ) ∧ c + rest.writing ≤ 1 ∧
      (c + rest.writing = 0 ∨ b + rest.reading = 0)) ∨
    (o.frees = 1 ∧ a + rest.refs = 0 ∧ b + rest.reading = 0 ∧ c + rest.writing = 0)) :=
  ⟨fun h => ⟨h.reference, h.state⟩, fun h => ⟨h.1, h.2⟩⟩

theorem ObjectInv.rlock (h : ObjectInv o (⟨a, b, c⟩ + rest)) (hpos : 0 < a)
    (hwrite : o.lock.write = 0) :
    ObjectInv { o with lock := { o.lock with read := o.lock.read + 1 } }
      (⟨a, b + 1, c⟩ + rest) := by
  rw [objectInv_add] at *
  dsimp only
  omega

theorem ObjectInv.runlock (h : ObjectInv o (⟨a, b + 1, c⟩ + rest)) :
    ObjectInv { o with lock := { o.lock with read := o.lock.read - 1 } }
      (⟨a, b, c⟩ + rest) := by
  rw [objectInv_add] at *
  dsimp only
  omega

theorem ObjectInv.wlock (h : ObjectInv o (⟨a, b, 0⟩ + rest)) (hpos : 0 < a)
    (hwrite : o.lock.write = 0) (hread : o.lock.read = 0) :
    ObjectInv { o with lock := { o.lock with write := 1 } } (⟨a, b, 1⟩ + rest) := by
  rw [objectInv_add] at *
  dsimp only
  omega

theorem ObjectInv.wunlock (h : ObjectInv o (⟨a, b, 1⟩ + rest)) :
    ObjectInv { o with lock := { o.lock with write := 0 } } (⟨a, b, 0⟩ + rest) := by
  rw [objectInv_add] at *
  dsimp only
  omega

theorem ObjectInv.inc (h : ObjectInv o (⟨a, b, c⟩ + rest)) (hpos : 0 < a) :
    ObjectInv { o with reference := o.reference + 1 } (⟨a + 1, b, c⟩ + rest) := by
  rw [objectInv_add] at *
  dsimp only
  omega

theorem ObjectInv.dec (h : ObjectInv o (⟨a + 1, b, c⟩ + rest)) (href : o.reference ≠ 1) :
    ObjectInv { o with reference := o.reference - 1 } (⟨a, b, c⟩ + rest) := by
  rw [objectInv_add] at *
  dsimp only
  omega

/-- The last decrement, by a thread that leaves its place in the lock with the object, when
no other thread is in the lock. -/
theorem ObjectInv.free (h : ObjectInv o (⟨1, b, c⟩ + rest)) (href : o.reference = 1)
    (hreading : rest.reading = 0) (hwriting : rest.writing = 0) :
    ObjectInv { o with reference := o.reference - 1, frees := o.frees + 1 }
      (⟨0, 0, 0⟩ + rest) := by
  rw [objectInv_add] at *
  dsimp only
  omega

end Object

/-! ## The counters of the copies -/

/-- The copies against the numbers of pointers to them: every counter counts the pointers,
an allocated copy is freed exactly if nothing points to it, and nothing points to what has
not been allocated. -/
structure CopiesCounted {ρ : Type} (m : StmMemory ρ) (n : ℕ → ℕ) : Prop where
  reference : ∀ c, (m.copies c).reference = n c
  frees : ∀ c < m.count, (m.copies c).frees = if n c = 0 then 1 else 0
  fresh : ∀ c, m.count ≤ c → n c = 0

section Copies

variable {ρ : Type} {m : StmMemory ρ} {n n' : ℕ → ℕ} {d : ℕ}

@[simp] theorem pointsTo_none (c : ℕ) : pointsTo none c = 0 := rfl

theorem pointsTo_self (c : ℕ) : pointsTo (some c) c = 1 := if_pos rfl

theorem pointsTo_of_ne {c e : ℕ} (h : c ≠ e) : pointsTo (some c) e = 0 := by
  simp [pointsTo, h]

theorem CopiesCounted.lt_count (h : CopiesCounted m n) {c : ℕ} (hc : n c ≠ 0) : c < m.count := by
  by_contra hle
  exact hc (h.fresh c (not_lt.1 hle))

theorem CopiesCounted.frees_eq_zero (h : CopiesCounted m n) {c : ℕ} (hc : n c ≠ 0) :
    (m.copies c).frees = 0 := by
  rw [h.frees c (h.lt_count hc), if_neg hc]

theorem CopiesCounted.touchCopy (h : CopiesCounted m n) (hd : n d ≠ 0) : m.touchCopy d = m :=
  if_pos (h.frees_eq_zero hd)

theorem CopiesCounted.congr {m' : StmMemory ρ} (h : CopiesCounted m n) (hcopies : m'.copies = m.copies)
    (hcount : m'.count = m.count) (hn : ∀ c, n' c = n c) : CopiesCounted m' n' := by
  have hn' : n' = n := funext hn
  subst hn'
  exact ⟨hcopies ▸ h.reference, hcopies ▸ hcount ▸ h.frees, hcount ▸ h.fresh⟩

theorem CopiesCounted.release (h : CopiesCounted m n) (hn : ∀ c, n c = pointsTo (some d) c + n' c) :
    CopiesCounted (m.stmReleasecopy d) n' := by
  have hd : n d = 1 + n' d := by rw [hn, pointsTo_self]
  have htouch : m.touchCopy d = m := h.touchCopy (by omega)
  have href := h.reference d
  refine ⟨fun c => ?_, fun c hc => ?_, fun c hc => ?_⟩ <;>
    simp only [StmMemory.stmReleasecopy, htouch] at *
  · by_cases heq : c = d
    · subst heq
      simp only [update_self]
      omega
    · rw [update_of_ne heq, h.reference, hn, pointsTo_of_ne (Ne.symm heq), zero_add]
  · by_cases heq : c = d
    · subst heq
      have hfrees := h.frees c hc
      simp only [update_self]
      split <;> split <;> split at hfrees <;> omega
    · rw [update_of_ne heq, h.frees c hc, hn, pointsTo_of_ne (Ne.symm heq), zero_add]
  · have hfresh := h.fresh c hc
    rw [hn] at hfresh
    omega

theorem CopiesCounted.inc (h : CopiesCounted m n) (hd : n d ≠ 0)
    (hn : ∀ c, n' c = pointsTo (some d) c + n c) :
    m.incCopy d = { m with
      copies := update m.copies d
        { m.copies d with reference := (m.copies d).reference + 1 } } ∧
      CopiesCounted (m.incCopy d) n' := by
  have htouch : m.touchCopy d = m := h.touchCopy hd
  have href := h.reference d
  have hassert : m.incCopy d = { m with
      copies := update m.copies d
        { m.copies d with reference := (m.copies d).reference + 1 } } := by
    have hpos : 0 < (m.copies d).reference := by omega
    simp [StmMemory.incCopy, StmMemory.assert, htouch, hpos]
  have hlt := h.lt_count hd
  refine ⟨hassert, ?_⟩
  rw [hassert]
  refine ⟨fun c => ?_, fun c hc => ?_, fun c hc => ?_⟩ <;> simp only at *
  · by_cases heq : c = d
    · subst heq
      simp only [update_self]
      rw [hn, pointsTo_self]
      omega
    · rw [update_of_ne heq, h.reference, hn, pointsTo_of_ne (Ne.symm heq), zero_add]
  · by_cases heq : c = d
    · subst heq
      rw [update_self, hn, pointsTo_self, h.frees c hc, if_neg hd, if_neg (by omega)]
    · rw [update_of_ne heq, h.frees c hc, hn, pointsTo_of_ne (Ne.symm heq), zero_add]
  · have hne : d ≠ c := by omega
    rw [hn, pointsTo_of_ne hne, h.fresh c hc]

theorem CopiesCounted.newcopy (h : CopiesCounted m n) (msg : List UInt8)
    (hn : ∀ c, n' c = pointsTo (some m.count) c + n c) : CopiesCounted (m.stmNewcopy msg) n' := by
  have hnew := h.fresh m.count le_rfl
  refine ⟨fun c => ?_, fun c hc => ?_, fun c hc => ?_⟩ <;>
    simp only [StmMemory.stmNewcopy] at *
  · by_cases heq : c = m.count
    · subst heq
      rw [update_self, hn, pointsTo_self, hnew]
      rfl
    · rw [update_of_ne heq, h.reference, hn, pointsTo_of_ne (Ne.symm heq), zero_add]
  · by_cases heq : c = m.count
    · subst heq
      rw [update_self, hn, pointsTo_self, if_neg (by omega)]
    · rw [update_of_ne heq, h.frees c (by omega), hn, pointsTo_of_ne (Ne.symm heq), zero_add]
  · rw [hn, pointsTo_of_ne (by omega), h.fresh c (by omega)]

end Copies

/-! ## The invariant -/

section Invariant

variable {ρ : Type}

structure SectionRight (e : StmRead ρ) : Prop where
  section_eq : e.leaving = e.installed
  released_iff : e.released = true ↔ e.installed = none
  answer_eq : e.answer = none

/-- What a reader relies on: inside the shared lock the copy it has taken is the one that
is installed. -/
def ReaderOk (m : StmMemory ρ) : ReaderPc ρ → Prop
  | .readInc _ c rel => m.obj.copy = some c ∧ rel = false
  | .readUnlock _ ret rel => m.obj.copy = ret ∧ (rel = true ↔ ret = none)
  | .readSame c e => SectionRight e ∧ e.installed = some c ∧ e.held = some c
  | .readDrop l e => SectionRight e ∧ e.held = some l ∧ e.installed ≠ some l
  | .readCall c e => SectionRight e ∧ e.installed = some c ∧ e.held ≠ some c
  | _ => True

/-- What the writer relies on: a copy is installed until it releases the last one, and the
reader its pointer goes to has none yet. -/
def WriterOk (m : StmMemory ρ) (reader : ρ → ReaderPc ρ) : WriterPc ρ → Prop
  | .grabLock r | .grabInc r => m.obj.copy ≠ none ∧ reader r = .absent
  | .grabUnlock r ref => m.obj.copy ≠ none ∧ reader r = .absent ∧ 0 < ref
  | .releaseObject | .releaseUnlock | .gone => m.obj.copy = none
  | _ => m.obj.copy ≠ none

def Recorded (m : StmMemory ρ) (e : StmRead ρ) : Prop :=
  ReadRight m e ∧ ∀ c, e.installed = some c → c < m.count

theorem ReaderOk.congr {m m' : StmMemory ρ} {p : ReaderPc ρ} (h : ReaderOk m p)
    (hcopy : m'.obj.copy = m.obj.copy ∨ p.share.reading = 0) : ReaderOk m' p := by
  rcases hcopy with hcopy | hout
  · cases p <;> simp only [ReaderOk, hcopy] at * <;> exact h
  · cases p <;> simp only [ReaderOk, ReaderPc.share, one_ne_zero] at * <;> exact h

variable [Fintype ρ]

def totalShare (s : StmState ρ) : StmShare := s.writer.share +
    ⟨threadSum (fun p => p.share.refs) s.reader, threadSum (fun p => p.share.reading) s.reader,
      threadSum (fun p => p.share.writing) s.reader⟩

def pointers (s : StmState ρ) (c : ℕ) : ℕ :=
  pointsTo s.mem.obj.copy c + s.writer.uses c + threadSum (ReaderPc.uses c) s.reader

structure StmInv (s : StmState ρ) : Prop where
  faults : s.mem.faults = []
  object : ObjectInv s.mem.obj (totalShare s)
  copies : CopiesCounted s.mem (pointers s)
  writer : WriterOk s.mem s.reader s.writer
  reader : ∀ r, ReaderOk s.mem (s.reader r)
  reads : ∀ e ∈ s.mem.reads, Recorded s.mem e

end Invariant

section Moves

variable {ρ : Type} [Fintype ρ] [DecidableEq ρ] {s : StmState ρ}

theorem total_reader (s : StmState ρ) (r : ρ) :
    ∃ rest, totalShare s = (s.reader r).share + rest ∧ ∀ m p,
      totalShare ⟨m, s.writer, update s.reader r p⟩ = p.share + rest := by
  obtain ⟨a, ha, ha'⟩ := threadSum_split (fun p : ReaderPc ρ => p.share.refs) s.reader r
  obtain ⟨b, hb, hb'⟩ := threadSum_split (fun p : ReaderPc ρ => p.share.reading) s.reader r
  obtain ⟨c, hc, hc'⟩ := threadSum_split (fun p : ReaderPc ρ => p.share.writing) s.reader r
  refine ⟨s.writer.share + ⟨a, b, c⟩, ?_, fun m p => ?_⟩
  · show StmShare.mk _ _ _ = StmShare.mk _ _ _
    simp only [share_add_refs, share_add_reading, share_add_writing]
    congr 1 <;> omega
  · simp only [totalShare, ha', hb', hc']
    show StmShare.mk _ _ _ = StmShare.mk _ _ _
    simp only [share_add_refs, share_add_reading, share_add_writing]
    congr 1 <;> omega

theorem pointers_reader (s : StmState ρ) (r : ρ) :
    ∃ rest : ℕ → ℕ, (∀ c, pointers s c = (s.reader r).uses c + rest c) ∧ ∀ m p,
      m.obj.copy = s.mem.obj.copy → ∀ c, pointers ⟨m, s.writer, update s.reader r p⟩ c =
          p.uses c + rest c := by
  have hsplit := fun c => threadSum_split (fun p : ReaderPc ρ => p.uses c) s.reader r
  choose rest hrest hrest' using hsplit
  refine ⟨fun c => pointsTo s.mem.obj.copy c + s.writer.uses c + rest c, fun c => ?_,
    fun m p hm c => ?_⟩
  · simp only [pointers, hrest c]
    omega
  · simp only [pointers, hrest' c, hm]
    omega

theorem StmInv.move_reader (hI : StmInv s) {r : ρ} {m : StmMemory ρ} {p : ReaderPc ρ}
    (habsent : s.reader r ≠ .absent) (hfaults : m.faults = [])
    (hcopy : m.obj.copy = s.mem.obj.copy)
    (hobj : ∀ rest, totalShare s = (s.reader r).share + rest → ObjectInv m.obj (p.share + rest))
    (hcopies : ∀ rest : ℕ → ℕ, (∀ c, pointers s c = (s.reader r).uses c + rest c) →
      CopiesCounted m fun c => p.uses c + rest c)
    (hok : ReaderOk m p) (hreads : ∀ e ∈ m.reads, Recorded m e) :
    StmInv ⟨m, s.writer, update s.reader r p⟩ := by
  obtain ⟨rest, hrest, hrest'⟩ := total_reader s r
  obtain ⟨others, hothers, hothers'⟩ := pointers_reader s r
  refine ⟨hfaults, ?_, ?_, ?_, fun u => ?_, hreads⟩
  · rw [hrest']
    exact hobj rest hrest
  · exact (hcopies others hothers).congr rfl rfl (hothers' m p hcopy)
  · have hne : ∀ u, s.reader u = .absent → update s.reader r p u = .absent := by
      intro u hu
      rw [update_of_ne _ _ _, hu]
      rintro rfl
      exact habsent hu
    have hw := hI.writer
    cases hpc : s.writer <;> simp only [hpc, WriterOk, hcopy] at hw ⊢
    case grabLock u => exact ⟨hw.1, hne u hw.2⟩
    case grabInc u => exact ⟨hw.1, hne u hw.2⟩
    case grabUnlock u ref => exact ⟨hw.1, hne u hw.2.1, hw.2.2⟩
    all_goals exact hw
  · show ReaderOk m (update s.reader r p u)
    by_cases hu : u = r
    · subst hu
      rw [update_self]
      exact hok
    · rw [update_of_ne hu]
      exact (hI.reader u).congr (.inl hcopy)

omit [DecidableEq ρ] in
/-- A step of the writer that hands nothing over: what it must do to its share of the
object and to the copies, and that no reader is inside when it installs a copy. -/
theorem StmInv.move_writer (hI : StmInv s) {m : StmMemory ρ} {p : WriterPc ρ}
    (hfaults : m.faults = [])
    (hcopy : m.obj.copy = s.mem.obj.copy ∨ ∀ r, (s.reader r).share.reading = 0)
    (hobj : ∀ rest, totalShare s = s.writer.share + rest → ObjectInv m.obj (p.share + rest))
    (hcopies : ∀ rest : ℕ → ℕ,
      (∀ c, pointers s c = pointsTo s.mem.obj.copy c + s.writer.uses c + rest c) →
      CopiesCounted m fun c => pointsTo m.obj.copy c + p.uses c + rest c)
    (hok : WriterOk m s.reader p) (hreads : ∀ e ∈ m.reads, Recorded m e) :
    StmInv ⟨m, p, s.reader⟩ := by
  refine ⟨hfaults, hobj _ rfl, hcopies _ fun _ => rfl, hok, fun r => ?_, hreads⟩
  exact (hI.reader r).congr (hcopy.imp_right fun h => h r)

end Moves

end Skynet.Analysis
