import Mathlib.Data.Int.Notation
import Skynet.Library.Feistel
import Skynet.Library.LittleEndian

/-!
# DES in `crypt`

`lualib-src/lua-crypt.c`: the block cipher DES with its key schedule, and `desencode` and
`desdecode`, which cut a text into blocks and pad the last one.

Lengths are below `2^31 - 8`, as those of the texts that an `int` counts through.
-/

namespace Skynet.Model

open Library List

/-- The errors of the two functions, and a read in front of the buffer. -/
inductive DesError
  | invalidKeySize
  | invalidPaddingMode
  | invalidPadding
  | invalidTextLength
  | invalidText
  | outside
  deriving DecidableEq, Repr

namespace CryptDes

/-- A `uint32_t`. -/
abbrev Word := BitVec 32

/-! ## Tables

SRC: lua-crypt.c:20-186 -/

def SB1 : List Word := [
  0x01010400, 0x00000000, 0x00010000, 0x01010404, 0x01010004, 0x00010404, 0x00000004, 0x00010000,
  0x00000400, 0x01010400, 0x01010404, 0x00000400, 0x01000404, 0x01010004, 0x01000000, 0x00000004,
  0x00000404, 0x01000400, 0x01000400, 0x00010400, 0x00010400, 0x01010000, 0x01010000, 0x01000404,
  0x00010004, 0x01000004, 0x01000004, 0x00010004, 0x00000000, 0x00000404, 0x00010404, 0x01000000,
  0x00010000, 0x01010404, 0x00000004, 0x01010000, 0x01010400, 0x01000000, 0x01000000, 0x00000400,
  0x01010004, 0x00010000, 0x00010400, 0x01000004, 0x00000400, 0x00000004, 0x01000404, 0x00010404,
  0x01010404, 0x00010004, 0x01010000, 0x01000404, 0x01000004, 0x00000404, 0x00010404, 0x01010400,
  0x00000404, 0x01000400, 0x01000400, 0x00000000, 0x00010004, 0x00010400, 0x00000000, 0x01010004]

def SB2 : List Word := [
  0x80108020, 0x80008000, 0x00008000, 0x00108020, 0x00100000, 0x00000020, 0x80100020, 0x80008020,
  0x80000020, 0x80108020, 0x80108000, 0x80000000, 0x80008000, 0x00100000, 0x00000020, 0x80100020,
  0x00108000, 0x00100020, 0x80008020, 0x00000000, 0x80000000, 0x00008000, 0x00108020, 0x80100000,
  0x00100020, 0x80000020, 0x00000000, 0x00108000, 0x00008020, 0x80108000, 0x80100000, 0x00008020,
  0x00000000, 0x00108020, 0x80100020, 0x00100000, 0x80008020, 0x80100000, 0x80108000, 0x00008000,
  0x80100000, 0x80008000, 0x00000020, 0x80108020, 0x00108020, 0x00000020, 0x00008000, 0x80000000,
  0x00008020, 0x80108000, 0x00100000, 0x80000020, 0x00100020, 0x80008020, 0x80000020, 0x00100020,
  0x00108000, 0x00000000, 0x80008000, 0x00008020, 0x80000000, 0x80100020, 0x80108020, 0x00108000]

def SB3 : List Word := [
  0x00000208, 0x08020200, 0x00000000, 0x08020008, 0x08000200, 0x00000000, 0x00020208, 0x08000200,
  0x00020008, 0x08000008, 0x08000008, 0x00020000, 0x08020208, 0x00020008, 0x08020000, 0x00000208,
  0x08000000, 0x00000008, 0x08020200, 0x00000200, 0x00020200, 0x08020000, 0x08020008, 0x00020208,
  0x08000208, 0x00020200, 0x00020000, 0x08000208, 0x00000008, 0x08020208, 0x00000200, 0x08000000,
  0x08020200, 0x08000000, 0x00020008, 0x00000208, 0x00020000, 0x08020200, 0x08000200, 0x00000000,
  0x00000200, 0x00020008, 0x08020208, 0x08000200, 0x08000008, 0x00000200, 0x00000000, 0x08020008,
  0x08000208, 0x00020000, 0x08000000, 0x08020208, 0x00000008, 0x00020208, 0x00020200, 0x08000008,
  0x08020000, 0x08000208, 0x00000208, 0x08020000, 0x00020208, 0x00000008, 0x08020008, 0x00020200]

def SB4 : List Word := [
  0x00802001, 0x00002081, 0x00002081, 0x00000080, 0x00802080, 0x00800081, 0x00800001, 0x00002001,
  0x00000000, 0x00802000, 0x00802000, 0x00802081, 0x00000081, 0x00000000, 0x00800080, 0x00800001,
  0x00000001, 0x00002000, 0x00800000, 0x00802001, 0x00000080, 0x00800000, 0x00002001, 0x00002080,
  0x00800081, 0x00000001, 0x00002080, 0x00800080, 0x00002000, 0x00802080, 0x00802081, 0x00000081,
  0x00800080, 0x00800001, 0x00802000, 0x00802081, 0x00000081, 0x00000000, 0x00000000, 0x00802000,
  0x00002080, 0x00800080, 0x00800081, 0x00000001, 0x00802001, 0x00002081, 0x00002081, 0x00000080,
  0x00802081, 0x00000081, 0x00000001, 0x00002000, 0x00800001, 0x00002001, 0x00802080, 0x00800081,
  0x00002001, 0x00002080, 0x00800000, 0x00802001, 0x00000080, 0x00800000, 0x00002000, 0x00802080]

def SB5 : List Word := [
  0x00000100, 0x02080100, 0x02080000, 0x42000100, 0x00080000, 0x00000100, 0x40000000, 0x02080000,
  0x40080100, 0x00080000, 0x02000100, 0x40080100, 0x42000100, 0x42080000, 0x00080100, 0x40000000,
  0x02000000, 0x40080000, 0x40080000, 0x00000000, 0x40000100, 0x42080100, 0x42080100, 0x02000100,
  0x42080000, 0x40000100, 0x00000000, 0x42000000, 0x02080100, 0x02000000, 0x42000000, 0x00080100,
  0x00080000, 0x42000100, 0x00000100, 0x02000000, 0x40000000, 0x02080000, 0x42000100, 0x40080100,
  0x02000100, 0x40000000, 0x42080000, 0x02080100, 0x40080100, 0x00000100, 0x02000000, 0x42080000,
  0x42080100, 0x00080100, 0x42000000, 0x42080100, 0x02080000, 0x00000000, 0x40080000, 0x42000000,
  0x00080100, 0x02000100, 0x40000100, 0x00080000, 0x00000000, 0x40080000, 0x02080100, 0x40000100]

def SB6 : List Word := [
  0x20000010, 0x20400000, 0x00004000, 0x20404010, 0x20400000, 0x00000010, 0x20404010, 0x00400000,
  0x20004000, 0x00404010, 0x00400000, 0x20000010, 0x00400010, 0x20004000, 0x20000000, 0x00004010,
  0x00000000, 0x00400010, 0x20004010, 0x00004000, 0x00404000, 0x20004010, 0x00000010, 0x20400010,
  0x20400010, 0x00000000, 0x00404010, 0x20404000, 0x00004010, 0x00404000, 0x20404000, 0x20000000,
  0x20004000, 0x00000010, 0x20400010, 0x00404000, 0x20404010, 0x00400000, 0x00004010, 0x20000010,
  0x00400000, 0x20004000, 0x20000000, 0x00004010, 0x20000010, 0x20404010, 0x00404000, 0x20400000,
  0x00404010, 0x20404000, 0x00000000, 0x20400010, 0x00000010, 0x00004000, 0x20400000, 0x00404010,
  0x00004000, 0x00400010, 0x20004010, 0x00000000, 0x20404000, 0x20000000, 0x00400010, 0x20004010]

def SB7 : List Word := [
  0x00200000, 0x04200002, 0x04000802, 0x00000000, 0x00000800, 0x04000802, 0x00200802, 0x04200800,
  0x04200802, 0x00200000, 0x00000000, 0x04000002, 0x00000002, 0x04000000, 0x04200002, 0x00000802,
  0x04000800, 0x00200802, 0x00200002, 0x04000800, 0x04000002, 0x04200000, 0x04200800, 0x00200002,
  0x04200000, 0x00000800, 0x00000802, 0x04200802, 0x00200800, 0x00000002, 0x04000000, 0x00200800,
  0x04000000, 0x00200800, 0x00200000, 0x04000802, 0x04000802, 0x04200002, 0x04200002, 0x00000002,
  0x00200002, 0x04000000, 0x04000800, 0x00200000, 0x04200800, 0x00000802, 0x00200802, 0x04200800,
  0x00000802, 0x04000002, 0x04200802, 0x04200000, 0x00200800, 0x00000000, 0x00000002, 0x04200802,
  0x00000000, 0x00200802, 0x04200000, 0x00000800, 0x04000002, 0x04000800, 0x00000800, 0x00200002]

def SB8 : List Word := [
  0x10001040, 0x00001000, 0x00040000, 0x10041040, 0x10000000, 0x10001040, 0x00000040, 0x10000000,
  0x00040040, 0x10040000, 0x10041040, 0x00041000, 0x10041000, 0x00041040, 0x00001000, 0x00000040,
  0x10040000, 0x10000040, 0x10001000, 0x00001040, 0x00041000, 0x00040040, 0x10040040, 0x10041000,
  0x00001040, 0x00000000, 0x00000000, 0x10040040, 0x10000040, 0x10001000, 0x00041040, 0x00040000,
  0x00041040, 0x00040000, 0x10041000, 0x00001000, 0x00000040, 0x10040040, 0x00001000, 0x00041040,
  0x10001000, 0x00000040, 0x10000040, 0x10040000, 0x10040040, 0x10000000, 0x00040000, 0x10001040,
  0x00000000, 0x10041040, 0x00040040, 0x10000040, 0x10040000, 0x10001000, 0x10001040, 0x00000000,
  0x10041040, 0x00041000, 0x00041000, 0x00001040, 0x00001040, 0x00040040, 0x10000000, 0x10041000]

def LHs : List Word := [
  0x00000000, 0x00000001, 0x00000100, 0x00000101, 0x00010000, 0x00010001, 0x00010100, 0x00010101,
  0x01000000, 0x01000001, 0x01000100, 0x01000101, 0x01010000, 0x01010001, 0x01010100, 0x01010101]

def RHs : List Word := [
  0x00000000, 0x01000000, 0x00010000, 0x01010000, 0x00000100, 0x01000100, 0x00010100, 0x01010100,
  0x00000001, 0x01000001, 0x00010001, 0x01010001, 0x00000101, 0x01000101, 0x00010101, 0x01010101]

/-! ## Words -/

def byteAt (b : Bytes) (i : ℕ) : Word := (b.getD i 0).toBitVec.setWidth 32

/-- `GET_UINT32`.
SRC: lua-crypt.c:190-196 -/
def getUint32 (b : Bytes) (i : ℕ) : Word :=
  (byteAt b i <<< 24) ||| (byteAt b (i + 1) <<< 16) ||| (byteAt b (i + 2) <<< 8) |||
    byteAt b (i + 3)

/-- `PUT_UINT32`.
SRC: lua-crypt.c:198-204 -/
def putUint32 (n : Word) : Bytes :=
  [⟨(n >>> 24).setWidth 8⟩, ⟨(n >>> 16).setWidth 8⟩, ⟨(n >>> 8).setWidth 8⟩, ⟨n.setWidth 8⟩]

def rotateUp (x : Word) : Word := ((x <<< 1) ||| (x >>> 31)) &&& 0xFFFFFFFF

def rotateDown (x : Word) : Word := ((x <<< 31) ||| (x >>> 1)) &&& 0xFFFFFFFF

/-! ## Blocks -/

/-- `DES_IP`, of X and Y.
SRC: lua-crypt.c:208-217 -/
def desIP (p : Word × Word) : Word × Word :=
  let p := exchangeBits 4 0x0F0F0F0F p
  let p := exchangeBits 16 0x0000FFFF p
  let p := (exchangeBits 2 0x33333333 p.swap).swap
  let p := (exchangeBits 8 0x00FF00FF p.swap).swap
  let p := (p.1, rotateUp p.2)
  let p := exchangeBits 0 0xAAAAAAAA p
  (rotateUp p.1, p.2)

/-- `DES_FP`, of X and Y.
SRC: lua-crypt.c:221-230 -/
def desFP (p : Word × Word) : Word × Word :=
  let p := (rotateDown p.1, p.2)
  let p := exchangeBits 0 0xAAAAAAAA p
  let p := (p.1, rotateDown p.2)
  let p := (exchangeBits 8 0x00FF00FF p.swap).swap
  let p := (exchangeBits 2 0x33333333 p.swap).swap
  let p := exchangeBits 16 0x0000FFFF p
  exchangeBits 4 0x0F0F0F0F p

/-- The entry of a table for six bits of a word. -/
def sbox (table : List Word) (t : Word) : Word := table.getD (t &&& 0x3F).toNat 0

/-- What `DES_ROUND` changes a half by, from two subkeys and the other half. -/
def roundBits (k : Word × Word) (x : Word) : Word :=
  let t := k.1 ^^^ x
  let y := sbox SB8 t ^^^ sbox SB6 (t >>> 8) ^^^ sbox SB4 (t >>> 16) ^^^ sbox SB2 (t >>> 24)
  let t := k.2 ^^^ ((x <<< 28) ||| (x >>> 4))
  y ^^^ (sbox SB7 t ^^^ sbox SB5 (t >>> 8) ^^^ sbox SB3 (t >>> 16) ^^^ sbox SB1 (t >>> 24))

/-- `DES_ROUND`: Y becomes another.
SRC: lua-crypt.c:234-246 -/
def desRound (k : Word × Word) (x y : Word) : Word := y ^^^ roundBits k x

def roundKey (SK : List Word) (r : ℕ) : Word × Word := (SK.getD (2 * r) 0, SK.getD (2 * r + 1) 0)

/-- The rounds, two by two, of X and Y.
SRC: lua-crypt.c:329-336 -/
def desRounds (SK : List Word) (p : Word × Word) : Word × Word := (range 8).foldl (fun p r =>
    let x := desRound (roundKey SK (2 * r)) p.2 p.1
    let y := desRound (roundKey SK (2 * r + 1)) x p.2
    (x, y)) p

/-- SRC: lua-crypt.c:320-342 -/
def desCrypt (SK : List Word) (input : Bytes) : Bytes :=
  let p := desIP (getUint32 input 0, getUint32 input 4)
  let p := desRounds SK p
  let p := desFP p.swap
  putUint32 p.1 ++ putUint32 p.2

/-! ## Keys -/

/-- The entry of a table for four bits of a word. -/
def nibble (table : List Word) (x : Word) : Word := table.getD (x &&& 0xF).toNat 0

/-- The subkeys of a turn. -/
def subkeys (x y : Word) : List Word := [
  ((x <<< 4) &&& 0x24000000) ||| ((x <<< 28) &&& 0x10000000) ||| ((x <<< 14) &&& 0x08000000) |||
    ((x <<< 18) &&& 0x02080000) ||| ((x <<< 6) &&& 0x01000000) ||| ((x <<< 9) &&& 0x00200000) |||
    ((x >>> 1) &&& 0x00100000) ||| ((x <<< 10) &&& 0x00040000) ||| ((x <<< 2) &&& 0x00020000) |||
    ((x >>> 10) &&& 0x00010000) ||| ((y >>> 13) &&& 0x00002000) ||| ((y >>> 4) &&& 0x00001000) |||
    ((y <<< 6) &&& 0x00000800) ||| ((y >>> 1) &&& 0x00000400) ||| ((y >>> 14) &&& 0x00000200) |||
    (y &&& 0x00000100) ||| ((y >>> 5) &&& 0x00000020) ||| ((y >>> 10) &&& 0x00000010) |||
    ((y >>> 3) &&& 0x00000008) ||| ((y >>> 18) &&& 0x00000004) ||| ((y >>> 26) &&& 0x00000002) |||
    ((y >>> 24) &&& 0x00000001),
  ((x <<< 15) &&& 0x20000000) ||| ((x <<< 17) &&& 0x10000000) ||| ((x <<< 10) &&& 0x08000000) |||
    ((x <<< 22) &&& 0x04000000) ||| ((x >>> 2) &&& 0x02000000) ||| ((x <<< 1) &&& 0x01000000) |||
    ((x <<< 16) &&& 0x00200000) ||| ((x <<< 11) &&& 0x00100000) ||| ((x <<< 3) &&& 0x00080000) |||
    ((x >>> 6) &&& 0x00040000) ||| ((x <<< 15) &&& 0x00020000) ||| ((x >>> 4) &&& 0x00010000) |||
    ((y >>> 2) &&& 0x00002000) ||| ((y <<< 8) &&& 0x00001000) ||| ((y >>> 14) &&& 0x00000808) |||
    ((y >>> 9) &&& 0x00000400) ||| (y &&& 0x00000200) ||| ((y <<< 7) &&& 0x00000100) |||
    ((y >>> 7) &&& 0x00000020) ||| ((y >>> 3) &&& 0x00000011) ||| ((y <<< 2) &&& 0x00000004) |||
    ((y >>> 21) &&& 0x00000002)]

/-- The turns of the loop over `i` that are left. -/
def keyTurns : ℕ → ℕ → Word → Word → List Word
  | 0, _, _, _ => []
  | turns + 1, i, x, y =>
    let up := if i < 2 ∨ i = 8 ∨ i = 15 then 1 else 2
    let x := ((x <<< up) ||| (x >>> (28 - up))) &&& 0x0FFFFFFF
    let y := ((y <<< up) ||| (y >>> (28 - up))) &&& 0x0FFFFFFF
    subkeys x y ++ keyTurns turns (i + 1) x y

/-- SRC: lua-crypt.c:251-316 -/
def desMainKs (key : Bytes) : List Word :=
  let p := (exchangeBits 4 0x0F0F0F0F (getUint32 key 4, getUint32 key 0)).swap
  let p := (exchangeBits 0 0x10101010 p.swap).swap
  let x := (nibble LHs p.1 <<< 3) ||| (nibble LHs (p.1 >>> 8) <<< 2) |||
    (nibble LHs (p.1 >>> 16) <<< 1) ||| nibble LHs (p.1 >>> 24) |||
    (nibble LHs (p.1 >>> 5) <<< 7) ||| (nibble LHs (p.1 >>> 13) <<< 6) |||
    (nibble LHs (p.1 >>> 21) <<< 5) ||| (nibble LHs (p.1 >>> 29) <<< 4)
  let y := (nibble RHs (p.2 >>> 1) <<< 3) ||| (nibble RHs (p.2 >>> 9) <<< 2) |||
    (nibble RHs (p.2 >>> 17) <<< 1) ||| nibble RHs (p.2 >>> 25) |||
    (nibble RHs (p.2 >>> 4) <<< 7) ||| (nibble RHs (p.2 >>> 12) <<< 6) |||
    (nibble RHs (p.2 >>> 20) <<< 5) ||| (nibble RHs (p.2 >>> 28) <<< 4)
  keyTurns 16 0 (x &&& 0x0FFFFFFF) (y &&& 0x0FFFFFFF)

/-- The subkeys in the order for decoding.
SRC: lua-crypt.c:489-496 -/
def reverseKs (ESK : List Word) : List Word :=
  (range 32).map fun i => if i % 2 = 0 then ESK.getD (30 - i) 0 else ESK.getD (32 - i) 0

/-! ## Padding -/

/-- SRC: lua-crypt.c:379-383 -/
def paddingAddIso7816 (offset : ℕ) : Bytes := 0x80 :: replicate (7 - offset) 0

/-- SRC: lua-crypt.c:402-406 -/
def paddingAddPkcs7 (offset : ℕ) : Bytes := replicate (8 - offset) (UInt8.ofNat (8 - offset))

/-- The loop of `padding_remove_iso7816_4` over the bytes from the last one back. -/
def isoTurns : ℕ → ℕ → Bytes → Except DesError ℕ
  | 0, _, _ => .ok 0
  | _ + 1, _, [] => .error .outside
  | turns + 1, padding, b :: last =>
    if b = 0 then isoTurns turns (padding + 1) last
    else if b = 0x80 then .ok padding
    else .ok 0

/-- SRC: lua-crypt.c:385-400 -/
def paddingRemoveIso7816 (last : Bytes) : Except DesError ℕ := isoTurns 8 1 last

/-- The loop of `padding_remove_pkcs7`. -/
def pkcsTurns (padding : UInt8) : ℕ → Bytes → Except DesError ℕ
  | 0, _ => .ok padding.toNat
  | _ + 1, [] => .error .outside
  | turns + 1, b :: last => if b ≠ padding then .ok 0 else pkcsTurns padding turns last

/-- SRC: lua-crypt.c:408-418 -/
def paddingRemovePkcs7 : Bytes → Except DesError ℕ
  | [] => .error .outside
  | padding :: last => pkcsTurns padding (padding.toNat - 1) last

/-- The last block, of fewer than eight bytes, padded.
SRC: lua-crypt.c:436-443 -/
def addPadding (src : Bytes) (mode : ℤ) : Except DesError Bytes :=
  if mode < 0 ∨ 2 ≤ mode then .error .invalidPaddingMode
  else if src.length ≥ 8 then .error .invalidPadding
  else
    .ok (src ++ if mode = 0 then paddingAddIso7816 src.length else paddingAddPkcs7 src.length)

/-- The length of the padding, from the last byte of the buffer back.
SRC: lua-crypt.c:445-449 -/
def removePadding (last : Bytes) (mode : ℤ) : Except DesError ℕ :=
  if mode < 0 ∨ 2 ≤ mode then .error .invalidPaddingMode
  else if mode = 0 then paddingRemoveIso7816 last
  else paddingRemovePkcs7 last

/-! ## Texts -/

/-- SRC: lua-crypt.c:451-459 -/
def desKey (key : Bytes) : Except DesError (List Word) :=
  if key.length ≠ 8 then .error .invalidKeySize else .ok (desMainKs key)

/-- The loop of `ldesencode` from a place in the text on, and the last block. -/
def encodeText (SK : List Word) (mode : ℤ) (text : Bytes) : Except DesError Bytes :=
  if 8 ≤ text.length then do
    let rest ← encodeText SK mode (text.drop 8)
    .ok (desCrypt SK (text.take 8) ++ rest)
  else do
    let tail ← addPadding text mode
    .ok (desCrypt SK tail)
termination_by text.length
decreasing_by
  rw [length_drop]
  omega

/-- SRC: lua-crypt.c:461-485 -/
def ldesencode (key text : Bytes) (mode : ℤ) : Except DesError Bytes := do
  let SK ← desKey key
  encodeText SK mode text

/-- The loop of `ldesdecode` from a place in the text on. -/
def decodeText (SK : List Word) (text : Bytes) : Bytes :=
  if text = [] then []
  else desCrypt SK (text.take 8) ++ decodeText SK (text.drop 8)
termination_by text.length
decreasing_by
  have hpos := length_pos_iff.mpr ‹_›
  rw [length_drop]
  omega

/-- SRC: lua-crypt.c:487-517 -/
def ldesdecode (key text : Bytes) (mode : ℤ) : Except DesError Bytes := do
  let ESK ← desKey key
  if text.length % 8 ≠ 0 ∨ text.length = 0 then .error .invalidTextLength
  else
    let buffer := decodeText (reverseKs ESK) text
    let padding ← removePadding buffer.reverse mode
    if padding = 0 ∨ 8 < padding then .error .invalidText
    else .ok (buffer.take (text.length - padding))

end CryptDes

end Skynet.Model
