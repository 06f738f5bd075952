import Mathlib.Data.Finset.Basic
import Skynet.Library.Machine
import Skynet.Model.ShareData

/-!
# Proxies of shared data

The client side of `lualib/skynet/sharedata/corelib.lua`: a root, the proxies below it, and the
boxes of the versions that have arrived.  The version that arrives as number `k` has the box `k`.
A pointer to a table of it is the number and the keys that lead there.

A proxy is a Lua table, named by a number; the root is 0.  Where it has no `__cache`, Lua looks
for that key in its data, by way of `getcobj`.  The model leaves this out: it gives `nil` and
changes nothing as long as no table has the key, and the proxy is at a version that no other has
followed.
-/

namespace Skynet.Model

open Library

/-- The table that the keys lead to.
SRC: lua-sharedata.c:534-566 -/
def Conf.sub (c : Conf) : List Scalar → Option Conf
  | [] => some c
  | key :: path =>
    match lindexconf c key with
    | .ok (.table tbl) => Conf.sub ⟨tbl, c.strings⟩ path
    | _ => none

/-- The fields of a proxy; `obj` is a version and a path. -/
structure ShareProxy where
  parent : Option ℕ
  key : Scalar
  obj : ℕ × List Scalar
  gcobj : ℕ
  cache : Option (List (Scalar × ℕ))
  deriving DecidableEq

namespace ShareProxy

/-- The entries of `__cache`. -/
def children (p : ShareProxy) : List (Scalar × ℕ) := p.cache.getD []

/-- `children[k] = nil`. -/
def dropChild (p : ShareProxy) (k : Scalar) : ShareProxy :=
  { p with cache := p.cache.map (·.filter (·.1 ≠ k)) }

/-- `children[k] = child`. -/
def addChild (p : ShareProxy) (k : Scalar) (child : ℕ) : ShareProxy :=
  { p with cache := some ((k, child) :: p.children) }

/-- A key that Lua finds in the proxy itself, before `__index`. -/
def ownField (p : ShareProxy) : Scalar → Bool
  | .string str =>
    ["__parent", "__obj", "__gcobj", "__key"].any (fun name => name.toUTF8.toList = str)
      || p.cache.isSome && "__cache".toUTF8.toList = str
  | _ => false

end ShareProxy

/-- The errors of a read: "The key [%s] doesn't exist after update", and those of the core. -/
inductive ProxyError
  | missing
  | core (e : ConfReadError)
  deriving DecidableEq

/-- What a proxy has at a key: a scalar, another proxy, or a field of its own. -/
inductive ProxyItem
  | scalar (v : Scalar)
  | proxy (x : ℕ)
  | field
  deriving DecidableEq

inductive ProxyRead
  | index (key : Scalar)
  | len
  | next (key : Scalar)
  | flush

inductive ProxyResult
  | item (i : ProxyItem)
  | len (n : ℕ)
  | last
  | next (key : Scalar) (i : ProxyItem)
  | flushed
  deriving DecidableEq

/-- The versions that have arrived, whether the newest one is dirty, what the boxes have in
`update`, and the proxies.  Those in `dead` are gone, and so are the boxes in `released`. -/
structure ShareProxies where
  versions : List Conf
  superseded : Bool
  update : ℕ → Option ℕ
  released : Finset ℕ
  proxies : ℕ → ShareProxy
  count : ℕ
  dead : Finset ℕ

inductive ProxyAction
  /-- The service has a newer version than the newest that has arrived. -/
  | markdirty
  | update (v : Conf)
  | read (x : ℕ) (r : ProxyRead)
  /-- Proxies that nobody has are collected. -/
  | forget (xs : Finset ℕ)
  | release (box : ℕ)

namespace ShareProxies

def table (s : ShareProxies) (p : ℕ × List Scalar) : Option Conf :=
  s.versions[p.1]?.bind fun v => v.sub p.2

def isdirty (s : ShareProxies) (p : ℕ × List Scalar) : Bool :=
  p.1 + 1 < s.versions.length || s.superseded

/-- `findroot`; the calls are bounded by the number of proxies.
SRC: corelib.lua:24-29 -/
def findroot (ps : ℕ → ShareProxy) : ℕ → ℕ → ℕ
  | 0, x => x
  | calls + 1, x =>
    match (ps x).parent with
    | none => x
    | some parent => findroot ps calls parent

/-- `update` of a proxy with the table of a version; the depth of the calls is bounded by the
number of proxies.
SRC: corelib.lua:31-45 -/
def updateProxy (v : Conf) (gcobj : ℕ) : ℕ → (ℕ → ShareProxy) → ℕ → List Scalar → ℕ → ShareProxy
  | 0, ps, _, _ => ps
  | calls + 1, ps, x, path =>
    (ps x).children.foldl (fun ps e =>
        if (v.sub (path ++ [e.1])).isSome then updateProxy v gcobj calls ps e.2 (path ++ [e.1])
        else Function.update ps x ((ps x).dropChild e.1))
      (Function.update ps x { ps x with obj := (gcobj, path), gcobj := gcobj })

/-- The update of the root to a version that has arrived. -/
def updateRoot (s : ShareProxies) (root j : ℕ) : ShareProxies :=
  match s.versions[j]? with
  | none => s
  | some v => { s with proxies := updateProxy v j s.count s.proxies root [] }

/-- `getcobj`.
SRC: corelib.lua:56-71 -/
def getcobj (s : ShareProxies) (x : ℕ) : ShareProxies × Option (ℕ × List Scalar) :=
  let obj := (s.proxies x).obj
  if s.isdirty obj then
    match s.update (s.proxies x).gcobj with
    | none => (s, some obj)
    | some j =>
      let s' := s.updateRoot (findroot s.proxies s.count x) j
      if (s'.proxies x).obj = obj then (s', none) else (s', some (s'.proxies x).obj)
  else (s, some obj)

/-- The proxy of a table below another one.
SRC: corelib.lua:80-98 -/
def child (s : ShareProxies) (x : ℕ) (key : Scalar) (obj : ℕ × List Scalar) :
    ShareProxies × ℕ :=
  match (s.proxies x).children.lookup key with
  | some y => (s, y)
  | none =>
    let new : ShareProxy := ⟨some x, key, (obj.1, obj.2 ++ [key]), (s.proxies x).gcobj, none⟩
    ({ s with
        proxies := Function.update (Function.update s.proxies s.count new) x
          ((s.proxies x).addChild key s.count)
        count := s.count + 1 }, s.count)

/-- A key of a table that `getcobj` has found.
SRC: corelib.lua:77-102 -/
def indexTable (s : ShareProxies) (x : ℕ) (key : Scalar) (obj : ℕ × List Scalar) :
    ShareProxies × Except ProxyError ProxyItem :=
  match s.table obj with
  | none => (s, .error (.core .badArgument))
  | some c =>
    match lindexconf c key with
    | .error e => (s, .error (.core e))
    | .ok (.scalar v) => (s, .ok (.scalar v))
    | .ok (.table _) => ((s.child x key obj).1, .ok (.proxy (s.child x key obj).2))

/-- `meta.__index`, and the look at the proxy itself that Lua takes before. -/
def index (s : ShareProxies) (x : ℕ) (key : Scalar) :
    ShareProxies × Except ProxyError ProxyItem :=
  if (s.proxies x).ownField key then (s, .ok .field)
  else
    match s.getcobj x with
    | (s', none) => (s', .error .missing)
    | (s', some obj) => s'.indexTable x key obj

/-- `meta.__len`.
SRC: corelib.lua:103-105 -/
def len (s : ShareProxies) (x : ℕ) : ShareProxies × Except ProxyError ProxyResult :=
  match s.getcobj x with
  | (s', none) => (s', .error .missing)
  | (s', some obj) =>
    match s'.table obj with
    | none => (s', .error (.core .badArgument))
    | some c => (s', .ok (.len c.root.array.length))

/-- `conf.next`.
SRC: corelib.lua:111-117 -/
def nextItem (s : ShareProxies) (x : ℕ) (key : Scalar) :
    ShareProxies × Except ProxyError ProxyResult :=
  match s.getcobj x with
  | (s', none) => (s', .error .missing)
  | (s', some obj) =>
    match s'.table obj with
    | none => (s', .error (.core .badArgument))
    | some c =>
      match lnextkey c key with
      | .error e => (s', .error (.core e))
      | .ok none => (s', .ok .last)
      | .ok (some nextkey) =>
        ((s'.index x nextkey).1, (s'.index x nextkey).2.map (.next nextkey))

/-- `conf.flush`.
SRC: corelib.lua:135-137 -/
def flush (s : ShareProxies) (x : ℕ) : ShareProxies × Except ProxyError ProxyResult :=
  match s.getcobj x with
  | (s', none) => (s', .error .missing)
  | (s', some _) => (s', .ok .flushed)

def read (s : ShareProxies) (x : ℕ) : ProxyRead → ShareProxies × Except ProxyError ProxyResult
  | .index key => ((s.index x key).1, (s.index x key).2.map .item)
  | .len => s.len x
  | .next key => s.nextItem x key
  | .flush => s.flush x

/-- `conf.update`, with the box of the new version.
SRC: corelib.lua:129-133 -/
def arrive (s : ShareProxies) (v : Conf) : ShareProxies := { s with
    versions := s.versions ++ [v]
    superseded := false
    update := Function.update s.update (s.proxies 0).gcobj (some s.versions.length) }

/-- Nobody has the proxies: those that are left do not refer to them, and the root is in use. -/
def unreachable (s : ShareProxies) (xs : Finset ℕ) : Prop :=
  0 ∉ xs ∧ ∀ y ∈ List.range s.count, y ∉ s.dead → y ∉ xs →
    (∀ parent ∈ (s.proxies y).parent, parent ∉ xs) ∧ ∀ e ∈ (s.proxies y).children, e.2 ∉ xs

/-- Nobody has the box: no proxy that is left, and no box that may still be asked. -/
def unboxed (s : ShareProxies) (box : ℕ) : Prop := box < s.versions.length ∧ box ∉ s.released ∧
    (∀ y ∈ List.range s.count, y ∉ s.dead → (s.proxies y).gcobj ≠ box) ∧
    ∀ k ∈ List.range s.versions.length, k ∉ s.released → s.update k ≠ some box

instance (s : ShareProxies) (xs : Finset ℕ) : Decidable (s.unreachable xs) :=
  inferInstanceAs (Decidable (_ ∧ _))

instance (s : ShareProxies) (box : ℕ) : Decidable (s.unboxed box) :=
  inferInstanceAs (Decidable (_ ∧ _))

/-- The state after a step; `none` where it is not possible.  A version arrives after the service
has marked the one before. -/
def next (s : ShareProxies) : ProxyAction → Option ShareProxies
  | .markdirty => some { s with superseded := true }
  | .update v => if s.superseded then some (s.arrive v) else none
  | .read x r => if x < s.count ∧ x ∉ s.dead then some (s.read x r).1 else none
  | .forget xs => if s.unreachable xs then some { s with dead := s.dead ∪ xs } else none
  | .release box =>
    if s.unboxed box then
      some { s with
        released := insert box s.released
        update := Function.update s.update box none }
    else none

/-- `conf.box`: the root of the first version. -/
def init (v : Conf) : ShareProxies :=
  ⟨[v], false, fun _ => none, ∅, fun _ => ⟨none, .string [], (0, []), 0, none⟩, 1, ∅⟩

def machine : Machine ShareProxies ProxyAction := ⟨fun s => ∃ v, s = init v, next⟩

end ShareProxies

end Skynet.Model
