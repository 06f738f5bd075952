import Mathlib.Data.Finset.Card
import Skynet.Library.LittleEndian
import Skynet.Library.LuaTable
import Skynet.Library.Machine

/-!
# Datasheets

The service of `lualib/skynet/datasheet/builder.lua`, the builder that gives it versions, and
the clients of `lualib/skynet/datasheet/init.lua`, as the service sees them: a step is a message
that it handles, and what a builder or a client does when it gets an answer is part of the step
that gives it.

The builder makes its calls for a name one after the other.  It is at an address of its own
that may be a client as well, but it does not exit.
-/

namespace Skynet.Model

open Library

/-- `{ ref, name, collect }`; `collect` says whether there is a request to answer. -/
structure SheetHandle where
  ref : ℤ
  name : Bytes
  collect : Bool
  deriving DecidableEq

/-- `{ handle, monitor }`. -/
structure SheetVersion where
  handle : ℕ
  monitor : Finset ℕ
  deriving DecidableEq

/-- A name at the builder: the version in `dataset`, and the new one between the answer to an
update and the release of the old one. -/
structure BuilderSheet where
  version : ℕ
  answered : Option ℕ
  deriving DecidableEq

inductive ClientSheet
  | unused
  /-- The query failed, or `updateobject` did. -/
  | failed
  /-- Before the request for changes of the handle. -/
  | reading (handle : ℕ)
  | waiting (handle : ℕ)
  /-- Before the release of the handle. -/
  | moving (handle newhandle : ℕ)
  deriving DecidableEq

def ClientSheet.handles : ClientSheet → List ℕ
  | .unused => []
  | .failed => []
  | .reading handle => [handle]
  | .waiting handle => [handle]
  | .moving handle newhandle => [handle, newhandle]

/-- The tables of the service and of the builder, and the clients; `collects` holds the requests
of the builder's `monitor` that are on their way. -/
structure Datasheet where
  handles : Table ℕ SheetHandle
  dataset : Table Bytes SheetVersion
  customers : ℕ → List ℕ
  builder : Table Bytes BuilderSheet
  cache : Finset ℕ
  collects : Finset ℕ
  sheets : ℕ → Bytes → ClientSheet
  clients : Finset ℕ
  closed : Finset ℕ

inductive DatasheetAction
  /-- `builder.new` or `builder.update`, up to the answer. -/
  | update (name : Bytes) (pointer : ℕ)
  /-- The release at the end of `builder.update`. -/
  | finish (name : Bytes)
  | collect (pointer : ℕ)
  | query (source : ℕ) (name : Bytes)
  | monitor (source : ℕ) (name : Bytes)
  | release (source : ℕ) (name : Bytes)
  | close (source : ℕ)
  deriving DecidableEq

namespace Datasheet

/-- The handle of the current version of a name. -/
def current (s : Datasheet) (name : Bytes) : Option ℕ := (s.dataset.get name).map (·.handle)

def setSheet (s : Datasheet) (source : ℕ) (name : Bytes) (sheet : ClientSheet) : Datasheet :=
  { s with sheets := fun c n => if c = source ∧ n = name then sheet else s.sheets c n }

/-- `customers[source][handle] = true`. -/
def addCustomer (s : Datasheet) (source handle : ℕ) : Datasheet :=
  { s with customers := Function.update s.customers source ((s.customers source).insert handle) }

/-- `customers[source][handle] = nil`. -/
def eraseCustomer (s : Datasheet) (source handle : ℕ) : Datasheet :=
  { s with customers := Function.update s.customers source ((s.customers source).erase handle) }

/-- What becomes of a handle that is released; nothing is left of it when its collection is
answered. -/
def released (h : SheetHandle) : Option SheetHandle :=
  if h.ref - 1 = 0 ∧ h.collect then none else some { h with ref := h.ref - 1 }

/-- A collection that is answered: the builder forgets the string of the pointer.
SRC: builder.lua:18-28 -/
def collected (s : Datasheet) (pointer : ℕ) : Datasheet :=
  { s with handles := s.handles.put pointer none, cache := s.cache.erase pointer }

/-- `releasehandle`; `none` is the error where there is no such handle.
SRC: builder.lua:80-90 -/
def releasehandle (s : Datasheet) (source handle : ℕ) : Option Datasheet :=
  match s.handles.get handle with
  | none => none
  | some h =>
    let s' :=
      match released h with
      | none => s.collected handle
      | some h => { s with handles := s.handles.put handle (some h) }
    some { s' with
      dataset := s.dataset.put h.name ((s.dataset.get h.name).map fun t =>
        { t with monitor := t.monitor.erase source }) }

/-- `datasheet.update` for a name that has a version, and the answers to the clients that wait.
SRC: builder.lua:101-109 -/
def report (s : Datasheet) (name : Bytes) (t : SheetVersion) (ref : ℤ) (handle : ℕ) : Datasheet :=
  { s with
    handles := s.handles.put handle (some ⟨ref, name, false⟩)
    dataset := s.dataset.put name (some ⟨handle, ∅⟩)
    customers := fun c =>
      if c ∈ t.monitor then (s.customers c).insert handle else s.customers c
    sheets := fun c n =>
      if n = name ∧ c ∈ t.monitor ∧ s.sheets c n = .waiting t.handle then .moving t.handle handle
      else s.sheets c n }

/-- `datasheet.update`; `none` is an error.
SRC: builder.lua:93-111 -/
def updateVersion (s : Datasheet) (name : Bytes) (handle : ℕ) : Option Datasheet :=
  match s.dataset.get name with
  | none =>
    some { s with
      handles := s.handles.put handle (some ⟨1, name, false⟩)
      dataset := s.dataset.put name (some ⟨handle, ∅⟩) }
  | some t => (s.handles.get t.handle).map fun h => s.report name t h.ref handle

/-- `builder.new`, or `builder.update` up to the answer.
SRC: builder.lua:38-59 -/
def update (s : Datasheet) (name : Bytes) (pointer : ℕ) : Datasheet :=
  match s.updateVersion name pointer with
  | none => s
  | some s =>
    match s.builder.get name with
    | none =>
      { s with
        builder := s.builder.put name (some ⟨pointer, none⟩)
        cache := insert pointer s.cache
        collects := insert pointer s.collects }
    | some b =>
      { s with
        builder := s.builder.put name (some ⟨b.version, some pointer⟩)
        cache := insert pointer s.cache }

/-- The end of `builder.update`, with `datasheet.release`.
SRC: builder.lua:54-58,143-147 -/
def finish (s : Datasheet) (owner : ℕ) (name : Bytes) (version pointer : ℕ) : Datasheet :=
  if version ∈ s.cache then
    let s := (s.eraseCustomer owner version)
    let s := (s.releasehandle owner version).getD s
    { s with
      builder := s.builder.put name (some ⟨pointer, none⟩)
      collects := insert pointer s.collects }
  else { s with builder := s.builder.put name (some ⟨version, none⟩) }

/-- `datasheet.query`; it is called for a name once.
SRC: builder.lua:114-121, init.lua:54-62 -/
def query (s : Datasheet) (source : ℕ) (name : Bytes) : Datasheet :=
  match s.dataset.get name with
  | none => s.setSheet source name .failed
  | some t =>
    match s.handles.get t.handle with
    | none => s.setSheet source name .failed
    | some h =>
      { (s.setSheet source name (.reading t.handle)).addCustomer source t.handle with
        handles := s.handles.put t.handle (some { h with ref := h.ref + 1 })
        clients := insert source s.clients }

/-- `datasheet.monitor`.
SRC: builder.lua:124-140 -/
def monitor (s : Datasheet) (source : ℕ) (name : Bytes) (handle : ℕ) : Datasheet :=
  match s.handles.get handle with
  | none => s.setSheet source name .failed
  | some h =>
    match s.dataset.get h.name with
    | none => s.setSheet source name .failed
    | some t =>
      if t.handle ≠ handle then
        (s.setSheet source name (.moving handle t.handle)).addCustomer source t.handle
      else if source ∈ t.monitor then s.setSheet source name .failed
      else
        { s.setSheet source name (.waiting handle) with
          dataset := s.dataset.put h.name (some { t with monitor := insert source t.monitor }) }

/-- `datasheet.release` from a client that has a new handle.
SRC: builder.lua:143-147, init.lua:30-33 -/
def release (s : Datasheet) (source : ℕ) (name : Bytes) (handle newhandle : ℕ) : Datasheet :=
  let s := (s.setSheet source name (.reading newhandle)).eraseCustomer source handle
  (s.releasehandle source handle).getD s

/-- The loop of `close`; an error ends it.
SRC: builder.lua:150-155 -/
def releaseAll (s : Datasheet) (source : ℕ) : List ℕ → Datasheet
  | [] => { s with customers := Function.update s.customers source [] }
  | handle :: handles =>
    match s.releasehandle source handle with
    | none => s
    | some s => s.releaseAll source handles

/-- `datasheet.close`, from a client that exits. -/
def close (s : Datasheet) (source : ℕ) : Datasheet :=
  let s := s.releaseAll source (s.customers source)
  { s with
    sheets := Function.update s.sheets source fun _ => .unused
    closed := insert source s.closed }

/-- `datasheet.collect`; `none` of its errors changes anything.
SRC: builder.lua:158-167 -/
def collect (s : Datasheet) (pointer : ℕ) : Datasheet :=
  let s := { s with collects := s.collects.erase pointer }
  match s.handles.get pointer with
  | none => s
  | some h =>
    if h.ref = 0 then s.collected pointer
    else { s with handles := s.handles.put pointer (some { h with collect := true }) }

/-- The state after a message; `none` where it is not sent.  The pointer of a version is the
address of a string that the builder keeps until the version is collected, and no other string
is there. -/
def next (owner : ℕ) (s : Datasheet) : DatasheetAction → Option Datasheet
  | .update name pointer =>
    if pointer ∉ s.cache ∧ ∀ b ∈ s.builder.get name, b.answered = none then
      some (s.update name pointer)
    else none
  | .finish name =>
    match s.builder.get name with
    | some ⟨version, some pointer⟩ => some (s.finish owner name version pointer)
    | _ => none
  | .collect pointer => if pointer ∈ s.collects then some (s.collect pointer) else none
  | .query source name =>
    if source ∉ s.closed ∧ s.sheets source name = .unused then some (s.query source name)
    else none
  | .monitor source name =>
    match s.sheets source name with
    | .reading handle => some (s.monitor source name handle)
    | _ => none
  | .release source name =>
    match s.sheets source name with
    | .moving handle newhandle => some (s.release source name handle newhandle)
    | _ => none
  | .close source =>
    if source ∉ s.closed ∧ source ≠ owner then some (s.close source) else none

def init : Datasheet := ⟨∅, ∅, fun _ => [], ∅, ∅, ∅, fun _ _ => .unused, ∅, ∅⟩

/-- The service, the builder at an address, and the clients. -/
def machine (owner : ℕ) : Machine Datasheet DatasheetAction := ⟨fun s => s = init, next owner⟩

end Datasheet

end Skynet.Model
