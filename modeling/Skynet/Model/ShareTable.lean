import Mathlib.Data.Finset.Card
import Skynet.Library.LuaTable
import Skynet.Library.Machine

/-!
# Shared tables

The service of `lualib/skynet/sharetable.lua` over the matrices of
`lualib-src/lua-sharetable.c`: tables that are loaded under a name, versions that clients have
asked for, and the end of a client.

A matrix is numbered when it is made; whether a source loads, and where its table comes to be,
is given with the request.  A matrix that is open has a place of its own, and that of a closed
one may be given again.
-/

namespace Skynet.Model

open Library

/-- `{ filename, count, matrix, refs }`. -/
structure ShareRef where
  filename : List UInt8
  count : ℤ
  matrix : ℕ
  refs : Finset ℕ
  deriving DecidableEq

/-- The tables of the service, the places of the matrices that are open, and records of the
run: how many matrices there have been, how often each was closed, what was loaded last under a
name, and the versions that a client has been given since it closed last. -/
structure ShareTable where
  matrix : Table ℕ ShareRef
  files : Table (List UInt8) ℕ
  clients : Table ℕ (List ℕ)
  ptr : ℕ → Option ℕ
  made : ℕ
  closes : ℕ → ℕ
  loaded : Table (List UInt8) ℕ
  held : Finset (ℕ × ℕ)

inductive ShareReply
  | done
  | nothing
  | pointer (ptr : ℕ)
  | error
  deriving DecidableEq, Repr

inductive ShareAction
  /-- `loadfile`, `loadstring` or `loadtable`; the place of the table if it loads. -/
  | load (filename : List UInt8) (result : Option ℕ)
  | query (source : ℕ) (filename : List UInt8)
  | close (source : ℕ)
  deriving DecidableEq

namespace ShareTable

/-- `m:close()`; a matrix that is closed is not closed again.
SRC: lua-sharetable.c:117-125 -/
def closeState (s : ShareTable) (m : ℕ) : ShareTable :=
  match s.ptr m with
  | none => s
  | some _ =>
    { s with
      ptr := Function.update s.ptr m none
      closes := Function.update s.closes m (s.closes m + 1) }

/-- `close_matrix`; a matrix that is closed has no pointer, and `matrix[nil] = nil` is an error.
SRC: sharetable.lua:17-27 -/
def closeMatrix (s : ShareTable) : Option ℕ → Option ShareTable
  | none => some s
  | some m =>
    match s.ptr m with
    | none => none
    | some ptr =>
      if (s.matrix.get ptr).all (·.count = 0) then
        some ({ s with matrix := s.matrix.put ptr none }.closeState m)
      else some s

/-- `core.matrix` with a source that loads, and the version of the name. -/
def newMatrix (s : ShareTable) (filename : List UInt8) (ptr : ℕ) : ShareTable := { s with
    files := s.files.put filename (some s.made)
    ptr := Function.update s.ptr s.made (some ptr)
    made := s.made + 1
    loaded := s.loaded.put filename (some s.made) }

/-- `loadfile`, `loadstring` and `loadtable`, which differ in the source that they load and in
what becomes of the message.
SRC: sharetable.lua:29-57 -/
def load (s : ShareTable) (filename : List UInt8) (result : Option ℕ) :
    ShareReply × ShareTable :=
  match s.closeMatrix (s.files.get filename) with
  | none => (.error, s)
  | some s =>
    match result with
    | none => (.error, s)
    | some ptr => (.done, s.newMatrix filename ptr)

/-- `query_file`, behind the pointer; a client is given a version.
SRC: sharetable.lua:59-83 -/
def queryFile (s : ShareTable) (source : ℕ) (filename : List UInt8) (m ptr : ℕ) : ShareTable :=
  let ref := (s.matrix.get ptr).getD ⟨filename, 0, m, ∅⟩
  if source ∈ ref.refs then { s with held := insert (source, m) s.held }
  else
    { s with
      matrix := s.matrix.put ptr
        (some { ref with refs := insert source ref.refs, count := ref.count + 1 })
      clients := s.clients.put source (some ((s.clients.get source).getD [] ++ [ptr]))
      held := insert (source, m) s.held }

/-- `query`; for a matrix that is closed, `matrix[nil] = ref` is an error.
SRC: sharetable.lua:59-94 -/
def query (s : ShareTable) (source : ℕ) (filename : List UInt8) : ShareReply × ShareTable :=
  match s.files.get filename with
  | none => (.nothing, s)
  | some m =>
    match s.ptr m with
    | none => (.error, s)
    | some ptr => (.pointer ptr, s.queryFile source filename m ptr)

/-- The version at a place is not the client's any more.
SRC: sharetable.lua:100-112 -/
def closeRef (s : ShareTable) (source ptr : ℕ) : ShareTable :=
  match s.matrix.get ptr with
  | none => s
  | some ref =>
    if source ∈ ref.refs then
      let ref := { ref with refs := ref.refs.erase source, count := ref.count - 1 }
      let s := { s with
        matrix := s.matrix.put ptr (some ref)
        held := s.held.erase (source, ref.matrix) }
      if ref.count = 0 ∧ s.files.get ref.filename ≠ some ref.matrix then
        let s := s.closeState ref.matrix
        { s with matrix := s.matrix.put ptr none }
      else s
    else s

/-- `close`.
SRC: sharetable.lua:96-116 -/
def close (s : ShareTable) (source : ℕ) : ShareTable :=
  match s.clients.get source with
  | none => s
  | some list =>
    let s := list.foldl (fun s ptr => s.closeRef source ptr) s
    { s with clients := s.clients.put source none }

def Vacant (s : ShareTable) (ptr : ℕ) : Prop := ∀ m < s.made, s.ptr m ≠ some ptr

instance (s : ShareTable) (ptr : ℕ) : Decidable (s.Vacant ptr) :=
  inferInstanceAs (Decidable (∀ m < _, _))

/-- The service after a request; `none` where a table would come to be in a place that is
taken. -/
def next (s : ShareTable) : ShareAction → Option ShareTable
  | .load filename result =>
    let s' := (s.closeMatrix (s.files.get filename)).getD s
    if ∀ ptr ∈ result, s'.Vacant ptr then some (s.load filename result).2 else none
  | .query source filename => some (s.query source filename).2
  | .close source => some (s.close source)

def init : ShareTable := ⟨∅, ∅, ∅, fun _ => none, 0, fun _ => 0, ∅, ∅⟩

def machine : Machine ShareTable ShareAction := ⟨fun s => s = init, next⟩

end ShareTable

end Skynet.Model
