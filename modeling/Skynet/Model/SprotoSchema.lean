import Mathlib.Data.Int.Notation
import Skynet.Library.AccessLog

/-!
# The schema of sproto

`lualib-src/sproto/sproto.c`: the types of a schema with their fields, and the numbers as
they lie in a buffer.  A pointer to a type is its index among the types of the schema.
-/

namespace Skynet.Model

open Library

abbrev sizeofLength : ℕ := 4
abbrev sizeofHeader : ℕ := 2
abbrev sizeofField : ℕ := 2
abbrev sizeofInt64 : ℕ := 8
abbrev sizeofInt32 : ℕ := 4

@[match_pattern] abbrev sprotoTInteger : ℕ := 0
@[match_pattern] abbrev sprotoTBoolean : ℕ := 1
@[match_pattern] abbrev sprotoTString : ℕ := 2
@[match_pattern] abbrev sprotoTDouble : ℕ := 3
@[match_pattern] abbrev sprotoTStruct : ℕ := 4
abbrev sprotoTArray : ℕ := 0x80

/-- `struct field`. -/
structure SprotoField where
  tag : ℤ
  type : ℕ
  name : List UInt8
  st : Option ℕ
  key : ℤ
  map : ℤ
  extra : ℤ
  deriving DecidableEq, Repr

/-- `struct sproto_type`; `n` is the length of `f`. -/
structure SprotoType where
  name : List UInt8
  base : ℤ
  maxn : ℤ
  f : List SprotoField
  deriving DecidableEq, Repr

/-- `f->type & SPROTO_TARRAY`. -/
def SprotoField.isArray (f : SprotoField) : Bool := f.type &&& sprotoTArray ≠ 0

/-- The binary search of `findtag` between two indices.  SRC: sproto.c:655-670 -/
def findtagLoop (f : List SprotoField) (tag : ℤ) (begin' end' : ℕ) : Option SprotoField :=
  if begin' < end' then
    let mid := (begin' + end') / 2
    match f[mid]? with
    | some fd =>
      if fd.tag = tag then some fd
      else if tag > fd.tag then findtagLoop f tag (mid + 1) end'
      else findtagLoop f tag begin' mid
    | none => none
  else none
termination_by end' - begin'

/-- `findtag`.  SRC: sproto.c:646-671 -/
def findtag (st : SprotoType) (tag : ℤ) : Option SprotoField :=
  if st.base ≥ 0 then
    let tag := tag - st.base
    if tag < 0 ∨ tag ≥ st.f.length then none else st.f[tag.toNat]?
  else findtagLoop st.f tag 0 st.f.length

section Reading

variable {ε γ : Type} (mem : ℕ → UInt8)

def toword (p : ℕ) : Accessing ε γ ℕ := do
  let a ← readByte mem p
  let b ← readByte mem (p + 1)
  return a.toNat ||| b.toNat <<< 8

def todword (p : ℕ) : Accessing ε γ ℕ := do
  let a ← readByte mem p
  let b ← readByte mem (p + 1)
  let c ← readByte mem (p + 2)
  let d ← readByte mem (p + 3)
  return a.toNat ||| b.toNat <<< 8 ||| c.toNat <<< 16 ||| d.toNat <<< 24

end Reading

end Skynet.Model
