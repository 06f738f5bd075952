import Mathlib.Algebra.Group.Nat.Defs
import Skynet.Library.BinarySearch
import Skynet.Library.LittleEndian
import Skynet.Library.Machine

/-!
# The handle table

`skynet-src/skynet_handle.c`: an open table of slots whose size is a power of two, in
which a service stands in the slot its handle is congruent to, and the list of names.
`skynet_handle_register` probes the handles from `handle_index` on; when a whole window
of `slot_size` handles finds no empty slot it doubles the table, rehashing every slot by
`skynet_context_handle` of the service stored in it.

A service is a value of a type `γ`; what the table reads of it is `ctx->handle`, kept in
a memory `γ → ℕ`.  All numbers stay below `2^32`, so `uint32_t` is `ℕ`.

The list of names in `skynet-src/skynet_handle.c`, and the two commands of `skynet_server.c` that
give a name to a handle.  A name is a C string without the zero at its end.
-/

namespace Skynet.Model

open Library Function

/-- `HANDLE_MASK`.
SRC: skynet_handle.h:7 -/
def handleMask : ℕ := 0xffffff

/-- `HANDLE_REMOTE_SHIFT`.
SRC: skynet_handle.h:8 -/
def handleRemoteShift : ℕ := 24

/-- `DEFAULT_SLOT_SIZE`.
SRC: skynet_handle.c:11 -/
def defaultSlotSize : ℕ := 4

/-- `struct handle_name`.
SRC: skynet_handle.c:14-17 -/
structure HandleName where
  name : Bytes
  handle : ℕ
  deriving DecidableEq, Repr

/-- `struct handle_storage` without its lock; `name` holds the first `name_count`
entries.
SRC: skynet_handle.c:19-30 -/
structure HandleStorage (γ : Type) where
  harbor : ℕ
  handleIndex : ℕ
  slotSize : ℕ
  slot : ℕ → Option γ
  nameCap : ℕ
  name : List HandleName

/-- What stops the process inside `skynet_handle_register`: a slot without a service is
dereferenced by the rehash, or one of its two assertions fails.  `spin` stands for a
`for (;;)` that goes on doubling; it is never reached (`registerLoop_ne_spin`). -/
inductive HandleFault
  | nullContext
  | slotCollision
  | tableLimit
  | spin
  deriving DecidableEq, Repr

section Table

variable {γ : Type}

/-- The handle the probe looks at when its counter stands at `handle`: past the mask it
starts over at 1, for 0 is reserved.
SRC: skynet_handle.c:44-47 -/
def wrapHandle (handle : ℕ) : ℕ :=
  if handle > handleMask then 1 else handle

/-- The probe loop of `skynet_handle_register` with `n` rounds to go: the first handle
whose slot is empty.
SRC: skynet_handle.c:43-58 -/
def probe (s : HandleStorage γ) : ℕ → ℕ → Option ℕ
  | 0, _ => none
  | n + 1, handle =>
    if (s.slot (wrapHandle handle &&& (s.slotSize - 1))).isNone then some (wrapHandle handle)
    else probe s n (wrapHandle handle + 1)

/-- The rehash loop after `i` rounds: the new slots, filled from the first `i` slots.
SRC: skynet_handle.c:60-66 -/
def rehashSlots (s : HandleStorage γ) (ctxHandle : γ → ℕ) :
    ℕ → Except HandleFault (ℕ → Option γ)
  | 0 => .ok fun _ => none
  | i + 1 =>
    match rehashSlots s ctxHandle i with
    | .error e => .error e
    | .ok newSlot =>
      match s.slot i with
      | none => .error .nullContext
      | some ctx =>
        if (newSlot (ctxHandle ctx &&& (s.slotSize * 2 - 1))).isNone then
          .ok (update newSlot (ctxHandle ctx &&& (s.slotSize * 2 - 1)) (some ctx))
        else .error .slotCollision

/-- The `for (;;)` of `skynet_handle_register`: probe, else double and probe again.
SRC: skynet_handle.c:40-70 -/
def registerLoop (ctxHandle : γ → ℕ) (ctx : γ) :
    ℕ → HandleStorage γ → Except HandleFault (ℕ × HandleStorage γ)
  | 0, _ => .error .spin
  | fuel + 1, s =>
    match probe s s.slotSize s.handleIndex with
    | some handle =>
      .ok (handle ||| s.harbor, { s with
          slot := update s.slot (handle &&& (s.slotSize - 1)) (some ctx)
          handleIndex := handle + 1 })
    | none =>
      if s.slotSize * 2 - 1 ≤ handleMask then
        match rehashSlots s ctxHandle s.slotSize with
        | .error e => .error e
        | .ok newSlot =>
          registerLoop ctxHandle ctx fuel { s with slot := newSlot, slotSize := s.slotSize * 2 }
      else .error .tableLimit

/-- `skynet_handle_register`.  A table of at least one slot doubles at most 24 times.
SRC: skynet_handle.c:34-71 -/
def skynetHandleRegister (s : HandleStorage γ) (ctxHandle : γ → ℕ) (ctx : γ) :
    Except HandleFault (ℕ × HandleStorage γ) :=
  registerLoop ctxHandle ctx 26 s

/-- The loop of `skynet_handle_retire` over the names; of the first `i` it has kept `j`.
SRC: skynet_handle.c:86-97 -/
def keepNames (handle : ℕ) : ℕ → ℕ → ℕ → List HandleName → List HandleName
  | 0, _, j, name => name.take j
  | n + 1, i, j, name =>
    match name[i]? with
    | none => name.take j
    | some e =>
      if e.handle = handle then keepNames handle n (i + 1) j name
      else keepNames handle n (i + 1) (j + 1) (if i ≠ j then name.set j e else name)

/-- `skynet_handle_retire` up to the release of the context it takes out of the table.
SRC: skynet_handle.c:73-110 -/
def skynetHandleRetire (s : HandleStorage γ) (ctxHandle : γ → ℕ) (handle : ℕ) :
    Option γ × HandleStorage γ :=
  match s.slot (handle &&& (s.slotSize - 1)) with
  | none => (none, s)
  | some ctx =>
    if ctxHandle ctx = handle then
      (some ctx, { s with
          slot := update s.slot (handle &&& (s.slotSize - 1)) none
          name := keepNames handle s.name.length 0 0 s.name })
    else (none, s)

/-- `skynet_handle_grab`; the reference it takes is counted elsewhere.
SRC: skynet_handle.c:136-153 -/
def skynetHandleGrab (s : HandleStorage γ) (ctxHandle : γ → ℕ) (handle : ℕ) : Option γ :=
  match s.slot (handle &&& (s.slotSize - 1)) with
  | none => none
  | some ctx => if ctxHandle ctx = handle then some ctx else none

/-- `skynet_handle_init`.
SRC: skynet_handle.c:246-266 -/
def skynetHandleInit (harbor : ℕ) : HandleStorage γ where
  harbor := (harbor &&& 0xff) <<< handleRemoteShift
  handleIndex := 1
  slotSize := defaultSlotSize
  slot := fun _ => none
  nameCap := 2
  name := []

def liveCount (s : HandleStorage γ) : ℕ :=
  ((List.range s.slotSize).filter fun i => (s.slot i).isSome).length

end Table

/-! ## Launching services -/

/-- The table, `ctx->handle` of every context, and how far each `skynet_context_new`
has come: `born` once it has called `skynet_handle_register`, `pending` the returned
handle until `ctx->handle = ` stores it, `retired` once a `skynet_handle_retire` has
taken the context out of the table.  After a fault the process is gone. -/
structure HandleState (γ : Type) where
  table : HandleStorage γ
  ctxHandle : γ → ℕ
  born : γ → Bool
  pending : γ → Option ℕ
  retired : γ → Bool
  fault : Option HandleFault

/-- What a thread does: the locked section of `skynet_handle_register`, the assignment
`ctx->handle = handle` after it, or one of the two other locked sections. -/
inductive HandleAction (γ : Type)
  | register (ctx : γ)
  | publish (ctx : γ)
  | retire (handle : ℕ)
  | grab (handle : ℕ)

section Machine

variable {γ : Type} [DecidableEq γ]

/-- The locked section of `skynet_handle_register` for a context just allocated, whose
handle `skynet_context_new` has set to 0.
SRC: skynet_server.c:160-161, skynet_handle.c:34-71 -/
def registerStep (s : HandleState γ) (ctx : γ) : HandleState γ :=
  let ctxHandle := update s.ctxHandle ctx 0
  match skynetHandleRegister s.table ctxHandle ctx with
  | .error e => { s with fault := some e }
  | .ok (handle, table) =>
    { s with
      table := table
      ctxHandle := ctxHandle
      born := update s.born ctx true
      pending := update s.pending ctx (some handle) }

/-- `ctx->handle = handle`.
SRC: skynet_server.c:161 -/
def publishStep (s : HandleState γ) (ctx : γ) (handle : ℕ) : HandleState γ := { s with
    ctxHandle := update s.ctxHandle ctx handle
    pending := update s.pending ctx none }

/-- The locked section of `skynet_handle_retire`. -/
def retireStep (s : HandleState γ) (handle : ℕ) : HandleState γ :=
  match skynetHandleRetire s.table s.ctxHandle handle with
  | (none, table) => { s with table := table }
  | (some ctx, table) =>
    { s with table := table, retired := update s.retired ctx true }

/-- One step of one thread. -/
def handleNext (s : HandleState γ) : HandleAction γ → Option (HandleState γ)
  | .register ctx =>
    if s.fault = none ∧ s.born ctx = false then some (registerStep s ctx) else none
  | .publish ctx =>
    if s.fault = none then (s.pending ctx).map (publishStep s ctx) else none
  | .retire handle => if s.fault = none then some (retireStep s handle) else none
  | .grab _ => if s.fault = none then some s else none

/-- Any number of threads that launch, look up and retire services. -/
def handleMachine (γ : Type) [DecidableEq γ] (harbor : ℕ) :
    Machine (HandleState γ) (HandleAction γ) where
  start s := s = ⟨skynetHandleInit harbor, fun _ => 0, fun _ => false, fun _ => none,
    fun _ => false, none⟩
  next := handleNext

/-- `skynet_handle_grab` in a state of the machine. -/
def HandleState.grab (s : HandleState γ) (handle : ℕ) : Option γ :=
  skynetHandleGrab s.table s.ctxHandle handle

/-- The handle of a context: the one `skynet_handle_register` has returned, also while
`ctx->handle` does not hold it yet. -/
def HandleState.assigned (s : HandleState γ) (ctx : γ) : ℕ := (s.pending ctx).getD (s.ctxHandle ctx)

end Machine

/-- `MAX_SLOT_SIZE`.
SRC: skynet_handle.c:12 -/
def maxSlotSize : ℕ := 0x40000000

/-- `strcmp` with the name at a position of the list. -/
def strcmpAt (names : List HandleName) (name : Bytes) (i : ℕ) : Ordering :=
  match names[i]? with
  | none => .gt
  | some n => compare n.name name

/-- The search of `skynet_handle_findname` and `_insert_name`.
SRC: skynet_handle.c:162-179,212-233 -/
def searchName (names : List HandleName) (name : Bytes) : Searched :=
  binarySearch (strcmpAt names name) names.length 0 names.length

section

variable {γ : Type}

/-- `skynet_handle_findname`; 0 is no handle.
SRC: skynet_handle.c:155-184 -/
def skynetHandleFindname (s : HandleStorage γ) (name : Bytes) : ℕ :=
  match searchName s.name name with
  | .found i => (s.name[i]?.map (·.handle)).getD 0
  | .before _ => 0

/-- The loop of `_insert_name_before` over an array with a free place.
SRC: skynet_handle.c:202-204 -/
def shiftNames (before : ℕ) : ℕ → List HandleName → List HandleName
  | 0, name => name
  | i + 1, name =>
    if before < i + 1 then
      match name[i]? with
      | none => name
      | some e => shiftNames before i (name.set (i + 1) e)
    else name

/-- `_insert_name_before`; `none` is the assertion on `name_cap`.
SRC: skynet_handle.c:186-209 -/
def insertNameBefore (s : HandleStorage γ) (n : HandleName) (before : ℕ) :
    Option (HandleStorage γ) :=
  if s.nameCap ≤ s.name.length then
    if s.nameCap * 2 ≤ maxSlotSize then
      -- the names are copied around the free place of a larger array
      some { s with
        name := s.name.take before ++ n :: s.name.drop before
        nameCap := s.nameCap * 2 }
    else none
  else some { s with name := (shiftNames before s.name.length (s.name ++ [n])).set before n }

/-- `skynet_handle_namehandle`: a name that is there already stays.
SRC: skynet_handle.c:212-244 -/
def skynetHandleNamehandle (s : HandleStorage γ) (handle : ℕ) (name : Bytes) :
    Option (HandleStorage γ) :=
  match searchName s.name name with
  | .found _ => some s
  | .before i => insertNameBefore s ⟨name, handle⟩ i

/-- What `skynet_handle_namehandle` returns: `NULL`, or the copy of the name.
SRC: skynet_handle.c:212-244 -/
def namehandleResult (s : HandleStorage γ) (name : Bytes) : Option Bytes :=
  match searchName s.name name with
  | .found _ => none
  | .before _ => some name

/-- The table, and `ctx->handle` of each context. -/
structure NameTable (γ : Type) where
  table : HandleStorage γ
  ctxHandle : γ → ℕ

/-- A call on the names.  Between them services are launched, whatever this does to the slots. -/
inductive NameTableCall (γ : Type)
  | namehandle (handle : ℕ) (name : Bytes)
  | findname (name : Bytes)
  | retire (handle : ℕ)
  | launch (slotSize handleIndex : ℕ) (slot : ℕ → Option γ) (ctxHandle : γ → ℕ)

inductive NameTableReturn
  | named (name : Option Bytes)
  | handle (handle : ℕ)
  | retired (ret : Bool)
  | launched
  deriving DecidableEq

def nameTableCall (s : NameTable γ) : NameTableCall γ → Option (NameTableReturn × NameTable γ)
  | .namehandle handle name =>
    (skynetHandleNamehandle s.table handle name).map fun table =>
      (.named (namehandleResult s.table name), { s with table := table })
  | .findname name => some (.handle (skynetHandleFindname s.table name), s)
  | .retire handle =>
    let (ctx, table) := skynetHandleRetire s.table s.ctxHandle handle
    some (.retired ctx.isSome, { s with table := table })
  | .launch slotSize handleIndex slot ctxHandle =>
    some (.launched,
      { table := { s.table with slotSize := slotSize, handleIndex := handleIndex, slot := slot }
        ctxHandle := ctxHandle })

end

/-! ## Commands -/

/-- The bytes that `isspace` accepts. -/
def isSpace (b : UInt8) : Bool := b = 32 || (9 ≤ b && b ≤ 13)

/-- A `%s` of `sscanf` and what is behind it; `none` at the end of the string. -/
def scanWord (param : Bytes) : Option (Bytes × Bytes) :=
  match param.dropWhile isSpace with
  | [] => none
  | b :: rest => some (b :: rest.takeWhile (!isSpace ·), rest.dropWhile (!isSpace ·))

def hexDigit (b : UInt8) : Option ℕ :=
  if 48 ≤ b ∧ b ≤ 57 then some (b.toNat - 48)
  else if 97 ≤ b ∧ b ≤ 102 then some (b.toNat - 87)
  else if 65 ≤ b ∧ b ≤ 70 then some (b.toNat - 55)
  else none

def hexValue : ℕ → Bytes → ℕ
  | n, [] => n
  | n, b :: rest =>
    match hexDigit b with
    | none => n
    | some d => hexValue (n * 16 + d) rest

/-- The digits of a number of `strtoul`, behind `0x` where this is there. -/
def hexNumber : Bytes → ℕ
  | 48 :: x :: b :: rest =>
    if (x = 120 ∨ x = 88) ∧ (hexDigit b).isSome then hexValue 0 (b :: rest)
    else hexValue 0 (48 :: x :: b :: rest)
  | str => hexValue 0 str

/-- `strtoul(str, NULL, 16)` in a `uint32_t`. -/
def strtoul (str : Bytes) : ℕ :=
  match str.dropWhile isSpace with
  | 45 :: rest =>
    let n := hexNumber rest
    (if n < 2 ^ 64 then 2 ^ 64 - n else 2 ^ 64 - 1) % 2 ^ 32
  | 43 :: rest => min (hexNumber rest) (2 ^ 64 - 1) % 2 ^ 32
  | rest => min (hexNumber rest) (2 ^ 64 - 1) % 2 ^ 32

/-- What `cmd_reg` of a context with the handle names.
SRC: skynet_server.c:409-420 -/
def cmdReg (handle : ℕ) : Bytes → Option (ℕ × Bytes)
  | 46 :: name => some (handle, name)
  | _ => none

/-- What `cmd_name` names.  A word that is not there leaves its buffer as it was, with some
string in it.
SRC: skynet_server.c:433-453 -/
def cmdName (param : Bytes) (buffers : Bytes × Bytes) : Option (ℕ × Bytes) :=
  let (name, handle) :=
    match scanWord param with
    | none => buffers
    | some (name, rest) =>
      match scanWord rest with
      | none => (name, buffers.2)
      | some (handle, _) => (name, handle)
  match handle with
  | 58 :: digits =>
    if strtoul digits = 0 then none
    else
      match name with
      | 46 :: name => some (strtoul digits, name)
      | _ => none
  | _ => none

/-! ## Threads that name handles -/

section Machine

variable {γ : Type} [DecidableEq γ]

/-- The handle table with its names; the process ends with the assertion on `name_cap`. -/
structure NamingState (γ : Type) where
  handles : HandleState γ
  overflow : Bool

/-- A step on the table (`EXIT`, `KILL` and a failed init retire a handle), or one that gives a
name to a handle. -/
inductive NamingAction (γ : Type)
  | handle (a : HandleAction γ)
  | namehandle (handle : ℕ) (name : Bytes)
  | reg (ctx : γ) (param : Bytes)
  | name (param : Bytes) (buffers : Bytes × Bytes)

/-- The handle and the name that a step calls `skynet_handle_namehandle` with. -/
def NamingState.naming (s : NamingState γ) : NamingAction γ → Option (ℕ × Bytes)
  | .handle _ => none
  | .namehandle handle name => some (handle, name)
  | .reg ctx param => cmdReg (s.handles.ctxHandle ctx) param
  | .name param buffers => cmdName param buffers

/-- The locked section of `skynet_handle_namehandle`. -/
def NamingState.namehandle (s : NamingState γ) (handle : ℕ) (name : Bytes) : NamingState γ :=
  match skynetHandleNamehandle s.handles.table handle name with
  | none => { s with overflow := true }
  | some table => { s with handles := { s.handles with table := table } }

/-- One step of one thread. -/
def namingNext (s : NamingState γ) (a : NamingAction γ) : Option (NamingState γ) :=
  if s.overflow then none
  else
    match a with
    | .handle a => (handleNext s.handles a).map fun handles => { s with handles := handles }
    | a =>
      if s.handles.fault = none then
        match s.naming a with
        | none => some s
        | some (handle, name) => some (s.namehandle handle name)
      else none

/-- Any number of threads that launch, retire and name services. -/
def namingMachine (γ : Type) [DecidableEq γ] (harbor : ℕ) :
    Machine (NamingState γ) (NamingAction γ) where
  start s := (handleMachine γ harbor).start s.handles ∧ s.overflow = false
  next := namingNext

end Machine

end Skynet.Model
