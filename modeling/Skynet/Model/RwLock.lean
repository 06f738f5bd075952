import Skynet.Library.Machine
import Skynet.Library.ThreadSum

/-!
# The reader/writer lock

`skynet-src/rwlock.h` under the C11 branch of `atomic.h`: two `atomic_int`, and every
`ATOM_*` operation one sequentially consistent step.  `ATOM_CAS` is
`atomic_compare_exchange_weak(ptr, &(oval), nval)`: when it fails it stores the value it
saw into `oval`, and it may fail although the values agree.  The writer's `oval` is its
local variable `clear`, which therefore is part of its control point.

The counters are integers without the width of `int`: no process has `2^31` threads.
-/

namespace Skynet.Model

open Library

/-- `struct rwlock`.
SRC: rwlock.h:8-11 -/
structure Rwlock where
  write : ℤ
  read : ℤ
  deriving DecidableEq, Repr

/-- `rwlock_init`.
SRC: rwlock.h:13-17 -/
def rwlockInit : Rwlock := ⟨0, 0⟩

/-- Where a thread stands in the lock's four functions: before which atomic operation,
or holding the lock between the return of a lock function and the unlock. -/
inductive LockPc
  | idle
  /-- `while(ATOM_LOAD(&lock->write)) {}` of `rwlock_rlock`. -/
  | rlockSpin
  /-- `ATOM_FINC(&lock->read)`. -/
  | rlockInc
  /-- `if (ATOM_LOAD(&lock->write))`. -/
  | rlockCheck
  /-- `ATOM_FDEC(&lock->read)` of the retreating reader. -/
  | rlockDec
  /-- `rwlock_rlock` has returned and `rwlock_runlock` has not run. -/
  | reading
  /-- `while (!ATOM_CAS(&lock->write,clear,1)) {}` of `rwlock_wlock`. -/
  | wlockCas (clear : ℤ)
  /-- `while(ATOM_LOAD(&lock->read)) {}` of `rwlock_wlock`. -/
  | wlockWait
  /-- `rwlock_wlock` has returned and `rwlock_wunlock` has not run. -/
  | writing
  deriving DecidableEq, Repr

structure LockState (τ : Type) where
  lock : Rwlock
  pc : τ → LockPc

/-- What a thread does next: call a lock function, take its next atomic step, or take
it as a compare-and-exchange that fails although the values agree. -/
inductive LockAction (τ : Type)
  | rlock (t : τ)
  | wlock (t : τ)
  | atom (t : τ)
  | spurious (t : τ)
  deriving DecidableEq, Repr

/-- One atomic operation of a thread that stands at `pc`: the lock and the control
point after it.
SRC: rwlock.h:19-47 -/
def lockAtom (l : Rwlock) : LockPc → Option (Rwlock × LockPc)
  | .idle => none
  | .rlockSpin => some (l, if l.write = 0 then .rlockInc else .rlockSpin)
  | .rlockInc => some ({ l with read := l.read + 1 }, .rlockCheck)
  | .rlockCheck => some (l, if l.write = 0 then .reading else .rlockDec)
  | .rlockDec => some ({ l with read := l.read - 1 }, .rlockSpin)
  -- rwlock_runlock
  | .reading => some ({ l with read := l.read - 1 }, .idle)
  | .wlockCas clear =>
    if l.write = clear then some ({ l with write := 1 }, .wlockWait)
    -- the failed exchange leaves the value it saw in `clear`
    else some (l, .wlockCas l.write)
  | .wlockWait => some (l, if l.read = 0 then .writing else .wlockWait)
  -- rwlock_wunlock
  | .writing => some ({ l with write := 0 }, .idle)

section

variable {τ : Type} [DecidableEq τ]

/-- One step of one thread. -/
def lockNext (s : LockState τ) : LockAction τ → Option (LockState τ)
  | .rlock t =>
    if s.pc t = .idle then some { s with pc := Function.update s.pc t .rlockSpin } else none
  | .wlock t =>
    -- int clear = 0;
    if s.pc t = .idle then some { s with pc := Function.update s.pc t (.wlockCas 0) }
    else none
  | .atom t =>
    (lockAtom s.lock (s.pc t)).map fun r => ⟨r.1, Function.update s.pc t r.2⟩
  | .spurious t =>
    match s.pc t with
    | .wlockCas _ => some { s with pc := Function.update s.pc t (.wlockCas s.lock.write) }
    | _ => none

/-- Any number of threads on one lock that `rwlock_init` has set up. -/
def rwlockMachine (τ : Type) [DecidableEq τ] : Machine (LockState τ) (LockAction τ) where
  start s := s = ⟨rwlockInit, fun _ => .idle⟩
  next := lockNext

end

/-- One for a thread that has incremented `read` and not yet decremented it. -/
def announced : LockPc → ℕ
  | .rlockCheck | .rlockDec | .reading => 1
  | _ => 0

/-- One for a thread past its successful compare-and-exchange and before the store of
`rwlock_wunlock`. -/
def ownsWrite : LockPc → ℕ
  | .wlockWait | .writing => 1
  | _ => 0

/-- At most one thread is between `rwlock_wlock` and `rwlock_wunlock`, and while one is
no thread is between `rwlock_rlock` and `rwlock_runlock`. -/
def LockExcludes {τ : Type} (s : LockState τ) : Prop :=
  (∀ t u, s.pc t = .writing → s.pc u = .writing → t = u) ∧
    ∀ t u, s.pc t = .writing → s.pc u ≠ .reading

/-- The step is not a compare-and-exchange that succeeds with an expected value other
than the `0` that `clear` was initialised with. -/
def CasExpectsZero {τ : Type} (s : LockState τ) : LockAction τ → Prop
  | .atom t =>
    match s.pc t with
    | .wlockCas clear => s.lock.write = clear → clear = 0
    | _ => True
  | _ => True

instance {τ : Type} (s : LockState τ) : ∀ a, Decidable (CasExpectsZero s a)
  | .atom t =>
    match h : s.pc t with
    | .wlockCas clear =>
      decidable_of_iff (s.lock.write = clear → clear = 0) (by simp [CasExpectsZero, h])
    | .idle | .rlockSpin | .rlockInc | .rlockCheck | .rlockDec | .reading | .wlockWait
    | .writing => .isTrue (by simp [CasExpectsZero, h])
  | .rlock _ | .wlock _ | .spurious _ => .isTrue trivial

end Skynet.Model
