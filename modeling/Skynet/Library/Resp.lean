import Skynet.Library.Decimal

/-!
# RESP2

The values of the protocol and their bytes.  A request is an array of strings.
-/

namespace Library

inductive Resp
  | status (text : List UInt8)
  | error (text : List UInt8)
  | integer (i : ℤ)
  | bulk (text : List UInt8)
  | nilBulk
  | array (l : List Resp)
  | nilArray

namespace Resp

def line (c : UInt8) (text : List UInt8) : List UInt8 := c :: (text ++ [13, 10])

mutual

def encode : Resp → List UInt8
  | status text => line 43 text
  | error text => line 45 text
  | integer i => line 58 (intBytes i)
  | bulk text => line 36 (decimalBytes text.length) ++ text ++ [13, 10]
  | nilBulk => line 36 [45, 49]
  | array l => line 42 (decimalBytes l.length) ++ encodeAll l
  | nilArray => line 42 [45, 49]

def encodeAll : List Resp → List UInt8
  | [] => []
  | r :: l => encode r ++ encodeAll l

end

mutual

/-- Lines without a line end, integers of 64 bits, and strings that an `int` counts. -/
def WellFormed : Resp → Prop
  | status text => 13 ∉ text
  | error text => 13 ∉ text
  | integer i => -2 ^ 63 ≤ i ∧ i < 2 ^ 63
  | bulk text => text.length + 2 < 2 ^ 31
  | array l => l.length < 2 ^ 63 ∧ AllWellFormed l
  | nilBulk | nilArray => True

def AllWellFormed : List Resp → Prop
  | [] => True
  | r :: l => WellFormed r ∧ AllWellFormed l

end

mutual

def depth : Resp → ℕ
  | array l => depthAll l + 1
  | _ => 1

def depthAll : List Resp → ℕ
  | [] => 0
  | r :: l => max (depth r) (depthAll l)

end

mutual

def failed : Resp → Bool
  | error _ => true
  | array l => anyFailed l
  | _ => false

def anyFailed : List Resp → Bool
  | [] => false
  | r :: l => failed r || anyFailed l

end

/-- The request with some strings, where `none` is the string that is not there. -/
def request (elements : List (Option (List UInt8))) : Resp := array (elements.map fun
    | some text => bulk text
    | none => nilBulk)

end Resp

end Library
