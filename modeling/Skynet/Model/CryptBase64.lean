import Skynet.Model.LuaSeri

/-!
# Base64 and hexadecimal in `crypt`

`lualib-src/lua-crypt.c`: `base64encode` and `base64decode`, `hexencode` and `hexdecode`.  An `int`
counts through the texts, and all write to a small buffer on the stack unless their size asks for
more.
-/

namespace Skynet.Model

open Library

/-- "Invalid base64 text", and what C leaves undefined: a write behind the buffer, or an
index beyond an `int`. -/
inductive Base64Error
  | invalid
  | outside
  deriving DecidableEq, Repr

namespace CryptBase64

def smallChunk : ℤ := 256

/-- The capacity of the buffer of a size as an `int`. -/
def capacity (sz : ℕ) : ℤ :=
  if smallChunk < toInt32 sz then toInt32 sz else smallChunk

/-- The table of `lb64encode`. -/
def encoding : Bytes := (List.range 26).map (fun k => UInt8.ofNat (0x41 + k)) ++
    (List.range 26).map (fun k => UInt8.ofNat (0x61 + k)) ++
    (List.range 10).map (fun k => UInt8.ofNat (0x30 + k)) ++ [0x2b, 0x2f]

/-- `encoding[k]`. -/
def encodeChar (k : ℕ) : UInt8 := encoding.getD k 0

def pad : UInt8 := 0x3d

/-- The text that `lb64encode` writes: the loop, and the bytes that are left.
SRC: lua-crypt.c:904-930 -/
def encodeLoop : Bytes → Bytes
  | a :: b :: c :: text =>
    let v := a.toNat <<< 16 ||| b.toNat <<< 8 ||| c.toNat
    encodeChar (v >>> 18) :: encodeChar (v >>> 12 &&& 0x3f) :: encodeChar (v >>> 6 &&& 0x3f) ::
      encodeChar (v &&& 0x3f) :: encodeLoop text
  | [a, b] =>
    let v := a.toNat <<< 8 ||| b.toNat
    [encodeChar (v >>> 10), encodeChar (v >>> 4 &&& 0x3f), encodeChar ((v &&& 0xf) <<< 2), pad]
  | [a] =>
    let v := a.toNat
    [encodeChar (v >>> 2), encodeChar ((v &&& 3) <<< 4), pad, pad]
  | [] => []

/-- `lb64encode`.  A size that is no `int` is negative or too small for what is written.
SRC: lua-crypt.c:892-933 -/
def lb64encode (text : Bytes) : Except Base64Error Bytes :=
  if (text.length + 2) / 3 * 4 < 2 ^ 31 then .ok (encodeLoop text) else .error .outside

/-- The table of `b64index`, from 43 on. -/
def decoding : List ℤ :=
  [62, -1, -1, -1, 63, 52, 53, 54, 55, 56, 57, 58, 59, 60, 61, -1, -1, -1, -2, -1, -1, -1, 0, 1, 2,
    3, 4, 5, 6, 7, 8, 9, 10, 11, 12, 13, 14, 15, 16, 17, 18, 19, 20, 21, 22, 23, 24, 25, -1, -1, -1,
    -1, -1, -1, 26, 27, 28, 29, 30, 31, 32, 33, 34, 35, 36, 37, 38, 39, 40, 41, 42, 43, 44, 45, 46,
    47, 48, 49, 50, 51]

/-- `b64index`.
SRC: lua-crypt.c:935-946 -/
def b64index (c : UInt8) : ℤ :=
  if c.toNat < 43 then -1 else decoding.getD (c.toNat - 43) (-1)

/-- The loop that gathers four characters, from `text[i]` on, with those that it has.
SRC: lua-crypt.c:962-976 -/
def gather : Bytes → ℕ → List ℤ → Except Base64Error (List ℤ × Bytes × ℕ)
  | text, i, c =>
    if c.length = 4 then .ok (c, text, i)
    else
      match text with
      | [] => .error .invalid
      | b :: text =>
        if 2 ^ 31 ≤ i + 1 then .error .outside
        else if b64index b = -1 then gather text (i + 1) c
        else gather text (i + 1) (c ++ [b64index b])

/-- The bytes of four characters.
SRC: lua-crypt.c:977-1007 -/
def decodeGroup : List ℤ → Except Base64Error Bytes
  | [c0, c1, c2, c3] =>
    match [c0, c1, c2, c3].count (-2) with
    | 0 =>
      let v := c0.toNat <<< 18 ||| c1.toNat <<< 12 ||| c2.toNat <<< 6 ||| c3.toNat
      .ok [UInt8.ofNat (v >>> 16), UInt8.ofNat (v >>> 8 &&& 0xff), UInt8.ofNat (v &&& 0xff)]
    | 1 =>
      if c3 ≠ -2 ∨ c2.toNat &&& 3 ≠ 0 then .error .invalid
      else
        let v := c0.toNat <<< 10 ||| c1.toNat <<< 4 ||| c2.toNat >>> 2
        .ok [UInt8.ofNat (v >>> 8), UInt8.ofNat (v &&& 0xff)]
    | 2 =>
      if c3 ≠ -2 ∨ c2 ≠ -2 ∨ c1.toNat &&& 0xf ≠ 0 then .error .invalid
      else .ok [UInt8.ofNat (c0.toNat <<< 2 ||| c1.toNat >>> 4)]
    | _ => .error .invalid
  | _ => .error .invalid

/-- The loop of `lb64decode`, with the bytes in a buffer of this capacity.  Each turn takes a
character at least, so as many turns as characters are enough.
SRC: lua-crypt.c:959-1008 -/
def decodeLoop (cap : ℤ) : ℕ → Bytes → ℕ → Bytes → Except Base64Error Bytes
  | _, [], _, buffer => .ok buffer
  | 0, _, _, _ => .error .outside
  | n + 1, text, i, buffer => do
    let (c, text, i) ← gather text i []
    let bytes ← decodeGroup c
    if buffer.length + bytes.length ≤ cap then decodeLoop cap n text i (buffer ++ bytes)
    else .error .outside

/-- `lb64decode`.
SRC: lua-crypt.c:948-1011 -/
def lb64decode (text : Bytes) : Except Base64Error Bytes :=
  decodeLoop (capacity ((text.length + 3) / 4 * 3)) text.length text 0 []

end CryptBase64

/-! ## Hexadecimal -/

namespace CryptHex

/-- "Invalid hex text size", "Invalid hex text", and an index beyond an `int`. -/
inductive HexError
  | size
  | invalid
  | outside
  deriving DecidableEq

/-- The table of `ltohex`. -/
def hex : Bytes := (List.range 10).map (fun k => UInt8.ofNat (0x30 + k)) ++
    (List.range 6).map (fun k => UInt8.ofNat (0x61 + k))

/-- What is written for a byte. -/
def hexPair (b : UInt8) : Bytes :=
  [hex.getD (b >>> 4).toNat 0, hex.getD (b &&& 0xf).toNat 0]

/-- SRC: lua-crypt.c:553-570 -/
def ltohex (text : Bytes) : Except HexError Bytes :=
  if text.length ≤ 2 ^ 30 then .ok (text.flatMap hexPair) else .error .outside

/-- The macro `HEX`. -/
def hexValue (c : UInt8) : UInt8 :=
  if 48 ≤ c ∧ c ≤ 57 then c - 48 else c - 97 + 10

def hexLoop : Bytes → ℕ → Except HexError Bytes
  | hi :: low :: text, i =>
    if 16 < hexValue hi ∨ 16 < hexValue low then .error .invalid
    else if 2 ^ 31 ≤ i + 2 then .error .outside
    else (hexLoop text (i + 2)).map ((hexValue hi <<< 4 ||| hexValue low) :: ·)
  | _, _ => .ok []

/-- SRC: lua-crypt.c:574-598 -/
def lfromhex (text : Bytes) : Except HexError Bytes :=
  if text.length % 2 = 1 then .error .size else hexLoop text 0

end CryptHex

end Skynet.Model
