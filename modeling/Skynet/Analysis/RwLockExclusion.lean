import Skynet.Model.RwLock
import Mathlib.Algebra.BigOperators.Fin
import Mathlib.Tactic.FinCases

/-!
# What the reader/writer lock excludes

Two counting invariants carry everything.  `read` is the number of announced threads, in
every run.  `write` is the number of threads past their compare-and-exchange, in the
runs whose exchanges succeed only with the expected value `0`.

Without that condition the lock fails with two writers: the exchange that finds
`write = 1` leaves `1` in `clear`, and the next one replaces a `1` by a `1`.
-/

namespace Skynet.Analysis

open Library Model Option Function

/-! ## What one step can do -/

section Step

variable {τ : Type} [DecidableEq τ]

theorem lockNext_atom {s s' : LockState τ} {t : τ} (h : lockNext s (.atom t) = some s') :
    ∃ l p, lockAtom s.lock (s.pc t) = some (l, p) ∧ s' = ⟨l, update s.pc t p⟩ := by
  obtain ⟨r, hr, rfl⟩ := map_eq_some_iff.mp h
  exact ⟨r.1, r.2, hr, rfl⟩

/-- Any other step leaves the lock as it is and moves one thread between points that
count neither as announced nor as owning `write`. -/
theorem lockNext_call {s s' : LockState τ} {a : LockAction τ} (h : lockNext s a = some s')
    (ha : ∀ t, a ≠ .atom t) :
    ∃ t p, s' = ⟨s.lock, update s.pc t p⟩ ∧ announced p = announced (s.pc t) ∧
      ownsWrite p = ownsWrite (s.pc t) ∧ p ≠ .writing ∧ p ≠ .reading := by
  cases a with
  | atom t => exact absurd rfl (ha t)
  | rlock t =>
    simp only [lockNext, ite_none_right_eq_some, some.injEq] at h
    obtain ⟨hidle, rfl⟩ := h
    exact ⟨t, .rlockSpin, rfl, by simp [announced, hidle], by simp [ownsWrite, hidle],
      by simp, by simp⟩
  | wlock t =>
    simp only [lockNext, ite_none_right_eq_some, some.injEq] at h
    obtain ⟨hidle, rfl⟩ := h
    exact ⟨t, .wlockCas 0, rfl, by simp [announced, hidle], by simp [ownsWrite, hidle],
      by simp, by simp⟩
  | spurious t =>
    simp only [lockNext] at h
    split at h
    · next clear hpc =>
      rw [some.injEq] at h
      exact ⟨t, .wlockCas s.lock.write, h.symm, by simp [announced, hpc],
        by simp [ownsWrite, hpc], by simp, by simp⟩
    · cases h

end Step

section Atom

variable {l l' : Rwlock} {p p' : LockPc}

theorem lockAtom_read (h : lockAtom l p = some (l', p')) :
    l'.read + announced p = l.read + announced p' := by
  cases p <;> simp only [lockAtom, reduceCtorEq, some.injEq, Prod.mk.injEq] at h
  case wlockCas clear =>
    split at h <;>
      (simp only [some.injEq, Prod.mk.injEq] at h; obtain ⟨rfl, rfl⟩ := h
       simp [announced])
  all_goals obtain ⟨rfl, rfl⟩ := h
  all_goals (try split) <;> simp [announced]

/-- An operation keeps `write` equal to its owners, provided a successful exchange found
the `0` it should expect and an unlocking thread is the only owner. -/
theorem lockAtom_write (h : lockAtom l p = some (l', p'))
    (hcas : ∀ clear, p = .wlockCas clear → l.write = clear → clear = 0)
    (hown : p = .writing → l.write = 1) : l'.write + ownsWrite p = l.write + ownsWrite p' := by
  cases p <;> simp only [lockAtom, reduceCtorEq, some.injEq, Prod.mk.injEq] at h
  case wlockCas clear =>
    split at h
    · next heq =>
      cases h
      have := hcas clear rfl heq
      simp [ownsWrite, heq, this]
    · cases h
      simp [ownsWrite]
  case writing =>
    obtain ⟨rfl, rfl⟩ := h
    simp [ownsWrite, hown rfl]
  all_goals obtain ⟨rfl, rfl⟩ := h
  all_goals (try split) <;> simp [ownsWrite]

theorem lockAtom_write_le (h : lockAtom l p = some (l', p')) (hle : l.write ≤ 1) :
    l'.write ≤ 1 := by
  cases p <;> simp only [lockAtom, reduceCtorEq, some.injEq, Prod.mk.injEq] at h
  case wlockCas clear =>
    split at h <;> (simp only [some.injEq, Prod.mk.injEq] at h; obtain ⟨rfl, -⟩ := h)
    · exact le_rfl
    · exact hle
  all_goals obtain ⟨rfl, -⟩ := h
  all_goals first | exact hle | simp

theorem lockAtom_to_writing (h : lockAtom l p = some (l', .writing)) :
    p = .wlockWait ∧ l.read = 0 := by
  cases p <;> simp only [lockAtom, reduceCtorEq, some.injEq, Prod.mk.injEq, and_false] at h
  case wlockCas clear => split at h <;> simp at h
  case wlockWait =>
    refine ⟨rfl, ?_⟩
    by_contra hne
    simp [hne] at h
  all_goals split at h <;> simp at h

theorem lockAtom_to_reading (h : lockAtom l p = some (l', .reading)) :
    p = .rlockCheck ∧ l.write = 0 := by
  cases p <;> simp only [lockAtom, reduceCtorEq, some.injEq, Prod.mk.injEq, and_false] at h
  case wlockCas clear => split at h <;> simp at h
  case rlockCheck =>
    refine ⟨rfl, ?_⟩
    by_contra hne
    simp [hne] at h
  all_goals split at h <;> simp at h

end Atom

variable {τ : Type} [Fintype τ] [DecidableEq τ]

variable {s : LockState τ}

/-- **`read` counts the readers**: the threads that have incremented it and not yet
decremented it, in every run.
SRC: rwlock.h:19-47 -/
theorem read_eq_announced {ok : LockState τ → LockAction τ → Prop}
    (h : (rwlockMachine τ).Reach ok s) : s.lock.read = threadSum announced s.pc := by
  refine h.invariant (I := fun s => s.lock.read = (threadSum announced s.pc : ℤ)) ?_ ?_
  · rintro s rfl
    simp [rwlockInit, threadSum, announced]
  · intro s a s' ih _ hstep
    by_cases ha : ∃ t, a = .atom t
    · obtain ⟨t, rfl⟩ := ha
      obtain ⟨l, p, hl, rfl⟩ := lockNext_atom hstep
      have hread := lockAtom_read hl
      have hsum := threadSum_update announced s.pc t p
      show l.read = (threadSum announced (update s.pc t p) : ℤ)
      omega
    · push Not at ha
      obtain ⟨t, p, rfl, hp, -⟩ := lockNext_call hstep ha
      rw [threadSum_update_eq hp, ih]

/-! ## The writer flag -/

/-- The invariant of the runs whose exchanges succeed with `0` only: `write` counts the
threads past their exchange, and no reader is in while a writer is. -/
structure LockInv (s : LockState τ) : Prop where
  write_eq : s.lock.write = threadSum ownsWrite s.pc
  write_le : s.lock.write ≤ 1
  no_reader : ∀ t u, s.pc t = .writing → s.pc u ≠ .reading

omit [DecidableEq τ] in
theorem LockInv.write_eq_one (hI : LockInv s) {t : τ}
    (ht : s.pc t = .writing) : s.lock.write = 1 := by
  have hle := le_threadSum ownsWrite s.pc t
  have heq := hI.write_eq
  have hone := hI.write_le
  simp only [ht, ownsWrite] at hle
  omega

theorem LockInv.writer_unique (hI : LockInv s) {t u : τ}
    (ht : s.pc t = .writing) (hu : s.pc u = .writing) : t = u := by
  by_contra hne
  have hle := add_le_threadSum ownsWrite s.pc hne
  have heq := hI.write_eq
  have hone := hI.write_le
  simp only [ht, hu, ownsWrite] at hle
  omega

/-- A writer leaves its spin on `read` only when no thread is announced, and a reader
passes its second look at `write` only when no thread owns it. -/
theorem LockInv.no_reader_step (hI : LockInv s) (hread : s.lock.read = threadSum announced s.pc)
    {t : τ} {l : Rwlock} {p : LockPc} (hl : lockAtom s.lock (s.pc t) = some (l, p)) (v u : τ)
    (hv : update s.pc t p v = .writing) : update s.pc t p u ≠ .reading := by
  intro hu
  rw [update_apply] at hv hu
  split at hv
  · subst hv
    split at hu
    · cases hu
    -- the writer has just read `read = 0`, but `u` is announced
    have hzero := (lockAtom_to_writing hl).2
    have hle := le_threadSum announced s.pc u
    simp only [hu, announced] at hle
    omega
  · split at hu
    · subst hu
      -- the reader has just read `write = 0`, but `v` owns it
      have hzero := (lockAtom_to_reading hl).2
      have hone := hI.write_eq_one hv
      omega
    · exact hI.no_reader v u hv hu

theorem lockInv_of_reach (h : (rwlockMachine τ).Reach CasExpectsZero s) : LockInv s := by
  refine h.invariant_of (I := LockInv) ?_ ?_
  · rintro s rfl
    exact ⟨by simp [rwlockInit, threadSum, ownsWrite], by simp [rwlockInit], by simp⟩
  · intro s a s' hs hI hok hstep
    by_cases ha : ∃ t, a = .atom t
    · obtain ⟨t, rfl⟩ := ha
      obtain ⟨l, p, hl, rfl⟩ := lockNext_atom hstep
      have hcas : ∀ clear, s.pc t = .wlockCas clear → s.lock.write = clear → clear = 0 := by
        intro clear hpc
        simpa [CasExpectsZero, hpc] using hok
      have hwrite := lockAtom_write hl hcas hI.write_eq_one
      have hsum := threadSum_update ownsWrite s.pc t p
      have heq := hI.write_eq
      refine ⟨?_, lockAtom_write_le hl hI.write_le, hI.no_reader_step (read_eq_announced hs) hl⟩
      show l.write = (threadSum ownsWrite (update s.pc t p) : ℤ)
      omega
    · push Not at ha
      obtain ⟨t, p, rfl, -, hp, hw, hr⟩ := lockNext_call hstep ha
      refine ⟨?_, hI.write_le, fun v u hv hu => ?_⟩
      · rw [threadSum_update_eq hp, hI.write_eq]
      · simp only [update_apply] at hv hu
        split at hv
        · exact hw hv
        · split at hu
          · exact hr hu
          · exact hI.no_reader v u hv hu

/-- **The lock excludes** in every run in which no compare-and-exchange of
`rwlock_wlock` succeeds with an expected value other than `0`: at most one writer, no
reader beside a writer, and `read` counts the readers.
SRC: rwlock.h:19-47 -/
theorem rwlock_excludes (τ : Type) [Fintype τ] [DecidableEq τ] (s : LockState τ)
    (h : (rwlockMachine τ).Reach CasExpectsZero s) :
    LockExcludes s ∧ s.lock.read = threadSum announced s.pc := by
  have hI := lockInv_of_reach h
  exact ⟨⟨fun t u ht hu => hI.writer_unique ht hu, hI.no_reader⟩, read_eq_announced h⟩

/-- A guarded run of one writer and one reader: the reader has seen `write = 0`, the
writer comes in, and the reader announces itself beside it. -/
theorem rwlock_excludes_announced_reader :
    LockExcludes (⟨⟨1, 1⟩, ![.writing, .rlockCheck]⟩ : LockState (Fin 2)) ∧
      (1 : ℤ) = threadSum announced ![LockPc.writing, .rlockCheck] := by
  refine rwlock_excludes (Fin 2) ⟨⟨1, 1⟩, ![.writing, .rlockCheck]⟩ ?_
  have h₀ : (rwlockMachine (Fin 2)).Reach CasExpectsZero ⟨rwlockInit, fun _ => .idle⟩ := .start rfl
  have h := h₀.runOk
    (l := [.rlock 1, .atom 1, .wlock 0, .atom 0, .atom 0, .atom 1]) rfl
  convert h using 2
  · rfl
  · funext t
    fin_cases t <;> rfl

/-- **Two writers at once.**  Thread 1 finds `write = 1`, which its failed exchange
stores into `clear`; its next exchange replaces the `1` by a `1`, and it finds no reader.
SRC: rwlock.h:31-36, atomic.h:33 -/
theorem rwlock_two_writers :
    ¬ ∀ s : LockState (Fin 2), (rwlockMachine (Fin 2)).Reachable s →
      LockExcludes s ∧ s.lock.read = threadSum announced s.pc := by
  intro hall
  have h : (rwlockMachine (Fin 2)).Reachable ⟨rwlockInit, fun _ => .idle⟩ := .start rfl
  have hrun := h.run (l := [.wlock 0, .atom 0, .atom 0, .wlock 1, .atom 1, .atom 1, .atom 1])
    rfl
  have hexcl := (hall _ hrun).1.1 0 1 rfl rfl
  exact absurd hexcl (by decide)

/-! ## A lock with one writer -/

def asWriter : LockPc → Bool
  | .wlockCas _ | .wlockWait | .writing => true
  | _ => false

def LoneWriter (w : τ) (_ : LockState τ) : LockAction τ → Prop
  | .wlock t => t = w
  | _ => True

/-- `write` says whether the writer owns it, whose exchange expects `0`. -/
def LoneOk (l : Rwlock) (p : LockPc) : Prop :=
  l.write = ownsWrite p ∧ ∀ clear, p = .wlockCas clear → clear = 0

structure LoneInv (w : τ) (s : LockState τ) : Prop where
  alone : ∀ t, asWriter (s.pc t) = true → t = w
  writer : LoneOk s.lock (s.pc w)

omit [Fintype τ] [DecidableEq τ] in
theorem LoneInv.casExpectsZero {w : τ} (hI : LoneInv w s) (a : LockAction τ) :
    CasExpectsZero s a := by
  cases a with
  | atom t =>
    simp only [CasExpectsZero]
    split
    · next clear hpc =>
      obtain rfl := hI.alone t (by rw [hpc]; rfl)
      exact fun _ => hI.writer.2 clear hpc
    · trivial
  | _ => trivial

theorem lockAtom_not_writer {l l' : Rwlock} {p p' : LockPc} (h : lockAtom l p = some (l', p'))
    (hp : asWriter p = false) : l'.write = l.write ∧ asWriter p' = false := by
  cases p <;> simp only [asWriter, reduceCtorEq] at hp <;>
    simp only [lockAtom, reduceCtorEq, some.injEq, Prod.mk.injEq] at h <;>
    obtain ⟨rfl, rfl⟩ := h <;> refine ⟨rfl, ?_⟩ <;> (try split) <;> rfl

theorem lockAtom_writer {l l' : Rwlock} {p p' : LockPc} (h : lockAtom l p = some (l', p'))
    (hok : LoneOk l p) : LoneOk l' p' := by
  obtain ⟨hwrite, hclear⟩ := hok
  cases p <;> simp only [lockAtom, reduceCtorEq, some.injEq, Prod.mk.injEq] at h
  case wlockCas clear =>
    obtain rfl := hclear clear rfl
    simp only [ownsWrite, Nat.cast_zero] at hwrite
    simp only [hwrite, if_true, some.injEq, Prod.mk.injEq] at h
    obtain ⟨rfl, rfl⟩ := h
    simp [LoneOk, ownsWrite]
  all_goals obtain ⟨rfl, rfl⟩ := h
  all_goals (try split) <;> simp_all [LoneOk, ownsWrite]

omit [Fintype τ] in
theorem LoneInv.move {w : τ} (hI : LoneInv w s) {l : Rwlock} {t : τ} {p : LockPc}
    (hp : asWriter p = true → t = w) (hother : t ≠ w → l.write = s.lock.write)
    (hwriter : t = w → LoneOk l p) : LoneInv w ⟨l, update s.pc t p⟩ := by
  constructor <;> simp only [update_apply]
  · intro u hu
    split at hu
    · next hut => exact hut.trans (hp hu)
    · exact hI.alone u hu
  · split
    · next hwt => exact hwriter hwt.symm
    · next hwt => exact ⟨(hother (Ne.symm hwt)).trans hI.writer.1, hI.writer.2⟩

omit [Fintype τ] in
/-- Every step keeps the lone writer alone. -/
theorem LoneInv.next {w : τ} {s s' : LockState τ} {a : LockAction τ} (hI : LoneInv w s)
    (hok : LoneWriter w s a) (h : lockNext s a = some s') : LoneInv w s' := by
  cases a with
  | atom t =>
    obtain ⟨l, p, hl, rfl⟩ := lockNext_atom h
    by_cases ht : t = w
    · subst ht
      exact hI.move (fun _ => rfl) (fun hne => absurd rfl hne) fun _ => lockAtom_writer hl hI.writer
    · have hreader : asWriter (s.pc t) = false := by
        rw [← Bool.not_eq_true]
        exact fun htrue => ht (hI.alone t htrue)
      obtain ⟨hwrite, hp⟩ := lockAtom_not_writer hl hreader
      exact hI.move (by simp [hp]) (fun _ => hwrite) fun heq => absurd heq ht
  | rlock t =>
    obtain ⟨hidle, ⟨rfl⟩⟩ := ite_none_right_eq_some.mp h
    apply hI.move (by simp [asWriter]) fun _ => rfl
    rintro rfl
    simpa [LoneOk, ownsWrite, hidle] using hI.writer.1
  | wlock t =>
    obtain ⟨hidle, ⟨rfl⟩⟩ := ite_none_right_eq_some.mp h
    apply hI.move (fun _ => hok) fun _ => rfl
    rintro rfl
    simpa [LoneOk, ownsWrite, hidle] using hI.writer.1
  | spurious t =>
    simp only [lockNext] at h
    split at h
    · next clear hpc =>
      cases h
      obtain rfl := hI.alone t (by rw [hpc]; rfl)
      have hwrite := hI.writer.1
      simp only [hpc, ownsWrite, Nat.cast_zero] at hwrite
      exact hI.move (fun _ => rfl) (fun _ => rfl) fun _ => by simp [LoneOk, ownsWrite, hwrite]
    · cases h

/-- **A lock with one writer excludes** without any condition: its exchange always expects
the `0` that is there.
SRC: rwlock.h:19-47 -/
theorem rwlock_excludes_lone_writer (w : τ) (s : LockState τ)
    (h : (rwlockMachine τ).Reach (LoneWriter w) s) : LockExcludes s := by
  have hboth : (rwlockMachine τ).Reach CasExpectsZero s ∧ LoneInv w s := by
    refine h.invariant (I := fun s => (rwlockMachine τ).Reach CasExpectsZero s ∧ LoneInv w s) ?_ ?_
    · rintro s rfl
      refine ⟨.start rfl, ?_⟩
      constructor <;> simp [asWriter, rwlockInit, LoneOk, ownsWrite]
    · rintro s a s' ⟨hreach, hI⟩ hok hstep
      exact ⟨hreach.step (hI.casExpectsZero a) hstep, hI.next hok hstep⟩
  have hI := lockInv_of_reach hboth.1
  exact ⟨fun t u ht hu => hI.writer_unique ht hu, hI.no_reader⟩

theorem rwlock_excludes_lone_writer_writing : ∃ s : LockState (Fin 2),
    s.pc 0 = .writing ∧ LockExcludes s := by
  have h₀ : (rwlockMachine (Fin 2)).Reach (LoneWriter 0) ⟨rwlockInit, fun _ => .idle⟩ := .start rfl
  have h := ((h₀.step (a := LockAction.wlock 0) rfl rfl).step (a := LockAction.atom 0) trivial
    rfl).step (a := LockAction.atom 0) trivial rfl
  exact ⟨_, rfl, rwlock_excludes_lone_writer 0 _ h⟩

end Skynet.Analysis
