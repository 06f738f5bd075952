import Skynet.Model.RwLock

/-!
# Shared state: one writer, many readers

`lualib-src/lua-stm.c`.  The writer's box and every reader's box point to one `stm_object`,
which counts them and points to the newest serialised copy; a copy counts the object and
the readers that point to it.  Each lock operation of `rwlock.h` and each atomic operation
on a reference counter is one step of its thread; the plain statements after it, up to the
next such operation, belong to it.  With a single writer the lock does exclude, see
`rwlock_excludes_lone_writer`.

A freed block keeps its fields, so that a run goes on after a use of it, and the use is
noted among `faults`.  Copies are numbered in the order of their allocation and numbers are
not used again: a reader compares pointers only while it holds a reference to the copy it
compares with.  The counters are integers without the width of `int`.  A box is collected only
between the calls of its thread, not while `lread` runs the function it was given.
-/

namespace Skynet.Model

open Library Function

/-- `struct stm_object`, and how often it was freed.
SRC: lua-stm.c:13-17 -/
structure StmObject where
  lock : Rwlock
  reference : ℤ
  copy : Option ℕ
  frees : ℕ
  deriving DecidableEq, Repr

/-- `struct stm_copy` with the bytes of its message, and how often it was freed.
SRC: lua-stm.c:19-23 -/
structure StmCopy where
  reference : ℤ
  msg : List UInt8
  frees : ℕ
  deriving DecidableEq, Repr

/-- What must not happen: a use of the freed object, a use of a freed copy, an `assert`
that fails. -/
inductive StmFault
  | object
  | copy (c : ℕ)
  | assertion
  deriving DecidableEq, Repr

/-- One call of `lread`: the `lastcopy` of the box, what the object's `copy` was when
`rwlock_rlock` returned and when `rwlock_runlock` was called, whether the writer had been
released when the lock was taken, and the message handed on (`none` for "no update"). -/
structure StmRead (ρ : Type) where
  reader : ρ
  held : Option ℕ
  installed : Option ℕ
  leaving : Option ℕ
  released : Bool
  answer : Option (List UInt8)
  deriving DecidableEq, Repr

/-- The memory the threads share: the object, the copies, of which `count` have been
allocated, and the records of what went wrong and of what was read. -/
structure StmMemory (ρ : Type) where
  obj : StmObject
  copies : ℕ → StmCopy
  count : ℕ
  faults : List StmFault
  reads : List (StmRead ρ)

/-- Where the writer's thread stands: before which operation.
SRC: lua-stm.c:56-115 -/
inductive WriterPc (ρ : Type)
  | idle
  /-- `rwlock_rlock` of `stm_grab`, for a pointer that goes to reader `r`. -/
  | grabLock (r : ρ)
  /-- `ATOM_FINC(&obj->reference)`. -/
  | grabInc (r : ρ)
  /-- `rwlock_runlock` of `stm_grab`, after which `ref` is asserted. -/
  | grabUnlock (r : ρ) (ref : ℤ)
  /-- `rwlock_wlock` of `stm_update`. -/
  | updateLock (copy : ℕ)
  /-- `rwlock_wunlock` of `stm_update`. -/
  | updateUnlock (oldcopy : Option ℕ)
  /-- `ATOM_FDEC(&copy->reference)` for the replaced copy. -/
  | updateRelease (oldcopy : ℕ)
  /-- `rwlock_wlock` of `stm_release`. -/
  | releaseLock
  /-- `ATOM_FDEC(&copy->reference)` for the last copy. -/
  | releaseCopy
  /-- `ATOM_FDEC(&obj->reference)` of `stm_release`. -/
  | releaseObject
  /-- `rwlock_wunlock` of `stm_release`. -/
  | releaseUnlock
  /-- `ldeletewriter` has returned. -/
  | gone
  deriving DecidableEq, Repr

/-- Where a reader's thread stands; `lastcopy` is the field of its box.
SRC: lua-stm.c:74-104, 178-235 -/
inductive ReaderPc (ρ : Type)
  /-- No pointer has been handed over yet. -/
  | absent
  | idle (lastcopy : Option ℕ)
  /-- `rwlock_rlock` of `stm_copy`. -/
  | readLock (lastcopy : Option ℕ)
  /-- `ATOM_FINC(&ret->reference)`. -/
  | readInc (lastcopy : Option ℕ) (ret : ℕ) (released : Bool)
  /-- `rwlock_runlock` of `stm_copy`. -/
  | readUnlock (lastcopy ret : Option ℕ) (released : Bool)
  /-- `stm_releasecopy(copy)` where the copy is the one held. -/
  | readSame (copy : ℕ) (e : StmRead ρ)
  /-- `stm_releasecopy(box->lastcopy)`. -/
  | readDrop (lastcopy : ℕ) (e : StmRead ρ)
  /-- `lua_call` with the message of the copy. -/
  | readCall (copy : ℕ) (e : StmRead ρ)
  /-- `rwlock_rlock` of `stm_releasereader`. -/
  | gcLock (lastcopy : Option ℕ)
  /-- `ATOM_FDEC(&obj->reference)` of `stm_releasereader`. -/
  | gcDec (lastcopy : Option ℕ)
  /-- `rwlock_runlock` of `stm_releasereader`. -/
  | gcUnlock (lastcopy : Option ℕ)
  /-- `stm_releasecopy(box->lastcopy)` of `ldeletereader`. -/
  | gcDrop (lastcopy : ℕ)
  /-- `ldeletereader` has returned. -/
  | gone
  deriving DecidableEq, Repr

namespace StmMemory

variable {ρ : Type}

def touchObject (m : StmMemory ρ) : StmMemory ρ :=
  if m.obj.frees = 0 then m else { m with faults := .object :: m.faults }

def touchCopy (m : StmMemory ρ) (c : ℕ) : StmMemory ρ :=
  if (m.copies c).frees = 0 then m else { m with faults := .copy c :: m.faults }

def assert (m : StmMemory ρ) (holds : Bool) : StmMemory ρ :=
  if holds then m else { m with faults := .assertion :: m.faults }

/-- The memory with the lock of the object replaced. -/
def setLock (m : StmMemory ρ) (l : Rwlock) : StmMemory ρ :=
  { m.touchObject with obj := { m.obj with lock := l } }

/-- `rwlock_rlock`, which returns while no writer is in.  On a freed lock it may find
anything.
SRC: rwlock.h:19-29 -/
def rlock (m : StmMemory ρ) : Option (StmMemory ρ) :=
  if m.obj.frees ≠ 0 ∨ m.obj.lock.write = 0 then
    some (m.setLock { m.obj.lock with read := m.obj.lock.read + 1 })
  else none

/-- `rwlock_runlock`.
SRC: rwlock.h:43-46 -/
def runlock (m : StmMemory ρ) : StmMemory ρ :=
  m.setLock { m.obj.lock with read := m.obj.lock.read - 1 }

/-- `rwlock_wlock`, which returns while no writer and no reader is in.
SRC: rwlock.h:31-36 -/
def wlock (m : StmMemory ρ) : Option (StmMemory ρ) :=
  if m.obj.frees ≠ 0 ∨ (m.obj.lock.write = 0 ∧ m.obj.lock.read = 0) then
    some (m.setLock { m.obj.lock with write := 1 })
  else none

/-- `rwlock_wunlock`.
SRC: rwlock.h:38-41 -/
def wunlock (m : StmMemory ρ) : StmMemory ρ :=
  m.setLock { m.obj.lock with write := 0 }

/-- `ATOM_FINC(&obj->reference)`. -/
def incObject (m : StmMemory ρ) : StmMemory ρ :=
  { m.touchObject with obj := { m.obj with reference := m.obj.reference + 1 } }

/-- `ATOM_FDEC(&obj->reference)`, and `skynet_free(obj)` where the caller frees. -/
def decObject (m : StmMemory ρ) (free : Bool) : StmMemory ρ :=
  { m.touchObject with
    obj := { m.obj with
      reference := m.obj.reference - 1
      frees := if free then m.obj.frees + 1 else m.obj.frees } }

/-- `obj->copy = copy`. -/
def setCopy (m : StmMemory ρ) (copy : Option ℕ) : StmMemory ρ :=
  { m.touchObject with obj := { m.obj with copy := copy } }

/-- `stm_newcopy`: the copy is numbered `count`.
SRC: lua-stm.c:28-35 -/
def stmNewcopy (m : StmMemory ρ) (msg : List UInt8) : StmMemory ρ :=
  { m with copies := update m.copies m.count ⟨1, msg, 0⟩, count := m.count + 1 }

/-- `ATOM_FINC(&ret->reference)` and the `assert` after it. -/
def incCopy (m : StmMemory ρ) (c : ℕ) : StmMemory ρ :=
  { (m.touchCopy c).assert (0 < (m.copies c).reference) with
    copies := update m.copies c
      { m.copies c with reference := (m.copies c).reference + 1 } }

/-- `stm_releasecopy` of a copy that is not `NULL`.
SRC: lua-stm.c:47-55 -/
def stmReleasecopy (m : StmMemory ρ) (c : ℕ) : StmMemory ρ :=
  { m.touchCopy c with
    copies := update m.copies c
      { m.copies c with
        reference := (m.copies c).reference - 1
        -- skynet_free(copy->msg); skynet_free(copy);
        frees := if (m.copies c).reference ≤ 1 then (m.copies c).frees + 1
          else (m.copies c).frees } }

/-- The record of a finished call of `lread`. -/
def log (m : StmMemory ρ) (e : StmRead ρ) : StmMemory ρ :=
  { m with reads := e :: m.reads }

end StmMemory

section Steps

variable {ρ : Type}

/-- The next operation of the writer's thread, with the plain statements after it.
SRC: lua-stm.c:56-71, 86-115 -/
def writerStep (m : StmMemory ρ) : WriterPc ρ → Option (StmMemory ρ × WriterPc ρ)
  | .idle => none
  | .grabLock r => m.rlock.map fun m => (m, .grabInc r)
  | .grabInc r => some (m.incObject, .grabUnlock r m.obj.reference)
  | .grabUnlock _ ref => some (m.runlock.assert (0 < ref), .idle)
  | .updateLock c =>
    m.wlock.map fun m' => (m'.setCopy (some c), .updateUnlock m'.obj.copy)
  | .updateUnlock none => some (m.wunlock, .idle)
  | .updateUnlock (some oldcopy) => some (m.wunlock, .updateRelease oldcopy)
  | .updateRelease oldcopy => some (m.stmReleasecopy oldcopy, .idle)
  | .releaseLock => m.wlock.map fun m => (m, .releaseCopy)
  | .releaseCopy =>
    match m.obj.copy with
    | none => some (m.setCopy none, .releaseObject)
    | some c => some ((m.stmReleasecopy c).setCopy none, .releaseObject)
  | .releaseObject =>
    if 1 < m.obj.reference then some (m.decObject false, .releaseUnlock)
    -- no one grab the stm object, no need to unlock wlock.
    else some (m.decObject true, .gone)
  | .releaseUnlock => some (m.wunlock, .gone)
  | .gone => none

/-- The last statements of `lread` where the copy is not the one held.
SRC: lua-stm.c:216-234 -/
def readNew (m : StmMemory ρ) (e : StmRead ρ) : StmMemory ρ × ReaderPc ρ :=
  match e.installed with
  | none => (m.log e, .idle none)
  | some c => (m, .readCall c e)

/-- What `ldeletereader` does after `stm_releasereader`.
SRC: lua-stm.c:196-197 -/
def gcRest (lastcopy : Option ℕ) : ReaderPc ρ :=
  match lastcopy with
  | none => .gone
  | some l => .gcDrop l

/-- The next operation of reader `r`'s thread, with the plain statements after it.
SRC: lua-stm.c:73-84, 94-106, 195-235 -/
def readerStep (m : StmMemory ρ) (released : Bool) (r : ρ) :
    ReaderPc ρ → Option (StmMemory ρ × ReaderPc ρ)
  | .absent => none
  | .idle _ => none
  | .readLock lastcopy =>
    m.rlock.map fun m' =>
      match m'.obj.copy with
      | none => (m', .readUnlock lastcopy none released)
      | some c => (m', .readInc lastcopy c released)
  | .readInc lastcopy c rel => some (m.incCopy c, .readUnlock lastcopy (some c) rel)
  | .readUnlock lastcopy ret rel =>
    let e : StmRead ρ := ⟨r, lastcopy, ret, m.obj.copy, rel, none⟩
    if ret = lastcopy then
      -- not update
      match ret with
      | none => some (m.runlock.log e, .idle none)
      | some c => some (m.runlock, .readSame c e)
    else
      match lastcopy with
      | none => some (readNew m.runlock e)
      | some l => some (m.runlock, .readDrop l e)
  | .readSame c e => some ((m.stmReleasecopy c).log e, .idle (some c))
  | .readDrop l e => some (readNew (m.stmReleasecopy l) e)
  | .readCall c e =>
    some ((m.touchCopy c).log { e with answer := some (m.copies c).msg }, .idle (some c))
  | .gcLock lastcopy => m.rlock.map fun m => (m, .gcDec lastcopy)
  | .gcDec lastcopy =>
    if m.obj.reference = 1 then
      -- last reader, no writer. so no need to unlock
      some ((m.assert m.obj.copy.isNone).decObject true, gcRest lastcopy)
    else some (m.decObject false, .gcUnlock lastcopy)
  | .gcUnlock lastcopy => some (m.runlock, gcRest lastcopy)
  | .gcDrop l => some (m.stmReleasecopy l, .gone)
  | .gone => none

end Steps

structure StmState (ρ : Type) where
  mem : StmMemory ρ
  writer : WriterPc ρ
  reader : ρ → ReaderPc ρ

/-- What a thread does next: call one of the functions of `lua-stm.c`, or take its next
operation. -/
inductive StmAction (ρ : Type)
  /-- `lcopy`; the pointer goes to reader `r`, whose `lnewreader` boxes it. -/
  | copy (r : ρ)
  /-- `lupdate`. -/
  | update (msg : List UInt8)
  /-- `ldeletewriter`. -/
  | deletewriter
  | writer
  /-- `lread`. -/
  | read (r : ρ)
  /-- `ldeletereader`. -/
  | deletereader (r : ρ)
  | reader (r : ρ)
  deriving DecidableEq, Repr

section

variable {ρ : Type} [DecidableEq ρ]

/-- `stm_grab` returns with a pointer for its reader.
SRC: lua-stm.c:124-129, 183-193 -/
def handOver (reader : ρ → ReaderPc ρ) : WriterPc ρ → ρ → ReaderPc ρ
  | .grabUnlock r _ => update reader r (.idle none)
  | _ => reader

/-- One step of one thread. -/
def stmNext (s : StmState ρ) : StmAction ρ → Option (StmState ρ)
  | .copy r =>
    if s.writer = .idle ∧ s.reader r = .absent then some { s with writer := .grabLock r }
    else none
  | .update msg =>
    if s.writer = .idle then
      some { s with mem := s.mem.stmNewcopy msg, writer := .updateLock s.mem.count }
    else none
  | .deletewriter =>
    if s.writer = .idle then
      some { s with
        mem := s.mem.touchObject.assert s.mem.obj.copy.isSome, writer := .releaseLock }
    else none
  | .writer =>
    (writerStep s.mem s.writer).map fun p => ⟨p.1, p.2, handOver s.reader s.writer⟩
  | .read r =>
    match s.reader r with
    | .idle lastcopy => some { s with reader := update s.reader r (.readLock lastcopy) }
    | _ => none
  | .deletereader r =>
    match s.reader r with
    | .idle lastcopy => some { s with reader := update s.reader r (.gcLock lastcopy) }
    | _ => none
  | .reader r =>
    (readerStep s.mem (s.writer = .gone) r (s.reader r)).map fun p =>
      { s with mem := p.1, reader := update s.reader r p.2 }

/-- `stm_new`, before any pointer is handed over.
SRC: lua-stm.c:36-45 -/
def stmNew (msg : List UInt8) : StmState ρ where
  mem :=
    { obj := ⟨rwlockInit, 1, some 0, 0⟩
      copies := update (fun _ => ⟨0, [], 0⟩) 0 ⟨1, msg, 0⟩
      count := 1
      faults := []
      reads := [] }
  writer := .idle
  reader := fun _ => .absent

def stmMachine (ρ : Type) [DecidableEq ρ] : Machine (StmState ρ) (StmAction ρ) where
  start s := ∃ msg, s = stmNew msg
  next := stmNext

end

/-! ## What the threads refer to -/

/-- What a thread has of the object: references in its counter, a place in the shared
lock, and the exclusive lock. -/
structure StmShare where
  refs : ℕ
  reading : ℕ
  writing : ℕ
  deriving DecidableEq, Repr

/-- The writer's share of the object; in `grabUnlock` it also has the reference it is
about to hand over. -/
def WriterPc.share {ρ : Type} : WriterPc ρ → StmShare
  | .idle | .grabLock _ | .updateLock _ | .updateRelease _ | .releaseLock => ⟨1, 0, 0⟩
  | .grabInc _ => ⟨1, 1, 0⟩
  | .grabUnlock _ _ => ⟨2, 1, 0⟩
  | .updateUnlock _ | .releaseCopy | .releaseObject => ⟨1, 0, 1⟩
  | .releaseUnlock => ⟨0, 0, 1⟩
  | .gone => ⟨0, 0, 0⟩

/-- A reader's share of the object. -/
def ReaderPc.share {ρ : Type} : ReaderPc ρ → StmShare
  | .absent | .gcDrop _ | .gone => ⟨0, 0, 0⟩
  | .idle _ | .readLock _ | .readSame _ _ | .readDrop _ _ | .readCall _ _ | .gcLock _ =>
    ⟨1, 0, 0⟩
  | .readInc _ _ _ | .readUnlock _ _ _ | .gcDec _ => ⟨1, 1, 0⟩
  | .gcUnlock _ => ⟨0, 1, 0⟩

def pointsTo (p : Option ℕ) (c : ℕ) : ℕ :=
  if p = some c then 1 else 0

/-- The writer's pointers to a copy, apart from the object's. -/
def WriterPc.uses {ρ : Type} (c : ℕ) : WriterPc ρ → ℕ
  | .updateLock copy => pointsTo (some copy) c
  | .updateUnlock oldcopy => pointsTo oldcopy c
  | .updateRelease oldcopy => pointsTo (some oldcopy) c
  | _ => 0

/-- A reader's pointers to a copy: its box's, and the one it has taken from the object. -/
def ReaderPc.uses {ρ : Type} (c : ℕ) : ReaderPc ρ → ℕ
  | .absent | .gone => 0
  | .idle lastcopy | .readLock lastcopy | .readInc lastcopy _ _ | .gcLock lastcopy
  | .gcDec lastcopy | .gcUnlock lastcopy => pointsTo lastcopy c
  | .readUnlock lastcopy ret _ => pointsTo lastcopy c + pointsTo ret c
  | .readSame copy _ => 2 * pointsTo (some copy) c
  | .readDrop lastcopy e => pointsTo (some lastcopy) c + pointsTo e.installed c
  | .readCall copy _ => pointsTo (some copy) c
  | .gcDrop lastcopy => pointsTo (some lastcopy) c

/-- Some thread has a reference to the object or a place in its lock. -/
def ObjectInUse {ρ : Type} (s : StmState ρ) : Prop :=
  s.writer.share ≠ ⟨0, 0, 0⟩ ∨ ∃ r, (s.reader r).share ≠ ⟨0, 0, 0⟩

/-- The object or some thread points to the copy. -/
def CopyInUse {ρ : Type} (s : StmState ρ) (c : ℕ) : Prop :=
  s.mem.obj.copy = some c ∨ s.writer.uses c ≠ 0 ∨ ∃ r, (s.reader r).uses c ≠ 0

/-- A read returns the message of the copy that was installed during its whole locked
section, or "no update" where the reader already holds that copy or the writer has been
released. -/
structure ReadRight {ρ : Type} (m : StmMemory ρ) (e : StmRead ρ) : Prop where
  section_eq : e.leaving = e.installed
  released_iff : e.released = true ↔ e.installed = none
  no_update_iff : e.answer = none ↔ e.installed = e.held ∨ e.released = true
  answer_eq : ∀ msg, e.answer = some msg → ∃ c, e.installed = some c ∧ (m.copies c).msg = msg

/-- No use after a free and no failed `assert`; the object is freed once, when no thread
refers to it or is in its lock any more; every copy is freed once, when nothing points to
it any more; and every read was right. -/
structure StmSafe {ρ : Type} (s : StmState ρ) : Prop where
  faults : s.mem.faults = []
  object_used : ObjectInUse s → s.mem.obj.frees = 0
  object_freed : ¬ ObjectInUse s → s.mem.obj.frees = 1
  copy_used : ∀ c, CopyInUse s c → (s.mem.copies c).frees = 0
  copy_freed : ∀ c < s.mem.count, ¬ CopyInUse s c → (s.mem.copies c).frees = 1
  reads : ∀ e ∈ s.mem.reads, ReadRight s.mem e

/-- The step is not the last decrement in `stm_releasereader` while another reader is
between its own decrement and its unlock there. -/
def LastReaderAlone {ρ : Type} (s : StmState ρ) : StmAction ρ → Prop
  | .reader r =>
    match s.reader r with
    | .gcDec _ => s.mem.obj.reference = 1 → ∀ u lastcopy, s.reader u ≠ .gcUnlock lastcopy
    | _ => True
  | _ => True

end Skynet.Model
