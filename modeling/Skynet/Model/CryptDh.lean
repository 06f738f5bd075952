import Skynet.Library.LittleEndian

/-!
# The key exchange of `crypt`

`lualib-src/lua-crypt.c`: `dhexchange` and `dhsecret`, over a multiplication modulo a prime
that is so close to `2^64` that no sum of two residues has to fit a word.
-/

namespace Skynet.Model

open Library

/-- The errors of the two functions, and a call that does not return. -/
inductive DhError
  | invalidKey
  | invalidX
  | invalidY
  | zero
  | endless
  deriving DecidableEq, Repr

namespace CryptDh

/-- SRC: lua-crypt.c:793 -/
def P : UInt64 := 0xffffffffffffffc5

def G : UInt64 := 5

/-- The variables of the loop of `mul_mod_p`. -/
structure MulState where
  m : UInt64
  a : UInt64
  b : UInt64
  deriving DecidableEq, Repr

/-- `m` with `a` added. -/
def addA (m a : UInt64) : UInt64 :=
  let t := P - a
  if m ≥ t then m - t else m + a

/-- `a` twice. -/
def doubleA (a : UInt64) : UInt64 :=
  if a ≥ P - a then a * 2 - P else a * 2

/-- One turn of the loop of `mul_mod_p`. -/
def mulTurn (s : MulState) : MulState where
  m := if s.b &&& 1 ≠ 0 then addA s.m s.a else s.m
  a := doubleA s.a
  b := s.b >>> 1

/-- A shift takes a bit off. -/
theorem shift_lt {b : UInt64} (h : b ≠ 0) : (b >>> 1).toNat < b.toNat := by
  have hpos : b.toNat ≠ 0 := fun hzero => h (UInt64.toNat_inj.mp hzero)
  have hshift : (b >>> 1).toNat = b.toNat / 2 := by
    exact Nat.shiftRight_one _
  omega

/-- The loop of `mul_mod_p`. -/
def mulLoop (s : MulState) : UInt64 :=
  if s.b = 0 then s.m else mulLoop (mulTurn s)
termination_by s.b.toNat
decreasing_by exact shift_lt ‹_›

/-- SRC: lua-crypt.c:796-815 -/
def mulModP (a b : UInt64) : UInt64 := mulLoop ⟨0, a, b⟩

/-- For 0 the recursion has no end.
SRC: lua-crypt.c:818-828 -/
def powModP (a b : UInt64) : Except DhError UInt64 :=
  if b = 0 then .error .endless
  else if b = 1 then .ok a
  else do
    let t ← powModP a (b >>> 1)
    let t := mulModP t t
    .ok (if b % 2 ≠ 0 then mulModP t a else t)
termination_by b.toNat
decreasing_by exact shift_lt ‹_›

/-- SRC: lua-crypt.c:832-838 -/
def powmodp (a b : UInt64) : Except DhError UInt64 := powModP (if a > P then a % P else a) b

/-- The 64 bits of eight bytes.
SRC: lua-crypt.c:719-722, 861-862, 878-881 -/
def word64 (bytes : Bytes) : UInt64 := UInt64.ofNat (leNat bytes)

/-- SRC: lua-crypt.c:839-851 -/
def push64 (r : UInt64) : Bytes := leBytes 8 r.toNat

/-- SRC: lua-crypt.c:708-723, 854-866 -/
def dhsecret (x y : Bytes) : Except DhError Bytes :=
  if x.length ≠ 8 then .error .invalidX
  else if y.length ≠ 8 then .error .invalidY
  else if word64 x = 0 ∨ word64 y = 0 then .error .zero
  else do
    let r ← powmodp (word64 x) (word64 y)
    .ok (push64 r)

/-- SRC: lua-crypt.c:873-888 -/
def dhexchange (x : Bytes) : Except DhError Bytes :=
  if x.length ≠ 8 then .error .invalidKey
  else if word64 x = 0 then .error .zero
  else do
    let r ← powmodp G (word64 x)
    .ok (push64 r)

end CryptDh

end Skynet.Model
