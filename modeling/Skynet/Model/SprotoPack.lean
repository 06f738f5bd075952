import Skynet.Library.Memory
import Skynet.Model.LuaSeri

/-!
# The 0-packing of sproto

`lualib-src/sproto/sproto.c`: `sproto_pack` leaves out the zero bytes of each eight bytes
and writes runs of eight-byte segments with few zeros as they are; `sproto_unpack` reads
this back.  A buffer is what lies at each offset, and the pointers into it are offsets.

The `int`s of `sproto_pack` have no bound here: they stay below `2 ^ 31` whenever the
destination is large enough, its size being one of them.  What `sproto_unpack` counts can
grow beyond that and comes back as an `int`.
-/

namespace Skynet.Model

open Library List Function

/-! ## Packing -/

/-- The locals of the loop of `pack_seg`. -/
structure SegState where
  header : ℕ
  notzero : ℕ
  buffer : ℕ
  sz : ℤ
  mem : ℕ → UInt8

/-- One round of the loop of `pack_seg`. -/
def packSegStep (seg : ℕ → UInt8) (st : SegState) (i : ℕ) : SegState :=
  if seg i ≠ 0 then
    let st := { st with notzero := st.notzero + 1, header := st.header ||| 2 ^ i }
    if st.sz > 0 then
      { st with
        mem := update st.mem st.buffer (seg i)
        buffer := st.buffer + 1
        sz := st.sz - 1 }
    else st
  else st

/-- `pack_seg` of the eight bytes of `seg`; returns the number of bytes and the buffer.
SRC: sproto.c:1273-1308 -/
def packSeg (seg : ℕ → UInt8) (mem : ℕ → UInt8) (buffer : ℕ) (sz : ℤ) (n : ℕ) :
    ℕ × (ℕ → UInt8) :=
  let st := (range 8).foldl (packSegStep seg) ⟨0, 0, buffer + 1, sz - 1, mem⟩
  let notzero := if (st.notzero = 7 ∨ st.notzero = 6) ∧ n > 0 then 8 else st.notzero
  if notzero = 8 then (if n > 0 then 8 else 10, st.mem)
  else
    (notzero + 1,
      if sz - 1 < 0 then st.mem
      else update st.mem buffer (UInt8.ofNat st.header))

/-- `write_ff` of `n` segments from the offset `start` of the source.
SRC: sproto.c:1311-1322 -/
def writeFf (src : Bytes) (start : ℕ) (mem : ℕ → UInt8) (des n : ℕ) : ℕ → UInt8 :=
  let mem := update mem des 0xff
  let mem := update mem (des + 1) (UInt8.ofNat (n - 1))
  if start + n * 8 ≤ src.length then
    store mem (des + 2) ((src.drop start).take (n * 8))
  else
    let sz := src.length - start
    let mem := store mem (des + 2) (src.drop start)
    store mem (des + 2 + sz) (replicate (n * 8 - sz) 0)

/-- The locals of `sproto_pack`, the pointers as offsets. -/
structure PackState where
  mem : ℕ → UInt8
  buffer : ℕ
  bufsz : ℤ
  ffSrcstart : ℕ
  ffDesstart : ℕ
  ffN : ℕ
  size : ℕ

/-- The eight bytes at an offset; behind the end of the source they are zero (`tmp`). -/
def segment (src : Bytes) (i j : ℕ) : UInt8 := (src[i + j]?).getD 0

/-- One round of the loop of `sproto_pack`.  A segment in `tmp` has a zero, so it never
begins a run, and `ff_srcstart` is always in the source.
SRC: sproto.c:1336-1370 -/
def packStep (src : Bytes) (st : PackState) (i : ℕ) : PackState :=
  let (n, mem) := packSeg (segment src i) st.mem st.buffer st.bufsz st.ffN
  let st' := { st with
    mem, bufsz := st.bufsz - n, buffer := st.buffer + n, size := st.size + n }
  if n = 10 then
    { st' with ffSrcstart := i, ffDesstart := st.buffer, ffN := 1 }
  else if n = 8 ∧ st.ffN > 0 then
    if st.ffN + 1 = 256 then
      { st' with
        mem := if st'.bufsz ≥ 0 then writeFf src st.ffSrcstart mem st.ffDesstart 256 else mem
        ffN := 0 }
    else { st' with ffN := st.ffN + 1 }
  else if st.ffN > 0 then
    { st' with
      mem := if st'.bufsz ≥ 0 then writeFf src st.ffSrcstart mem st.ffDesstart st.ffN else mem
      ffN := 0 }
  else st'

/-- The loop of `sproto_pack`, over the first `k` segments. -/
def sprotoPackLoop (src : Bytes) (mem : ℕ → UInt8) (bufsz : ℤ) (k : ℕ) : PackState :=
  (range k).foldl (fun st i => packStep src st (8 * i)) ⟨mem, 0, bufsz, 0, 0, 0, 0⟩

/-- `sproto_pack`: the size that is needed, and the buffer.
SRC: sproto.c:1324-1376 -/
def sprotoPack (src : Bytes) (mem : ℕ → UInt8) (bufsz : ℤ) : ℕ × (ℕ → UInt8) :=
  let st := sprotoPackLoop src mem bufsz ((src.length + 7) / 8)
  (st.size,
    if st.bufsz ≥ 0 ∧ st.ffN > 0 then
      writeFf src st.ffSrcstart st.mem st.ffDesstart st.ffN
    else st.mem)

/-! ## The integers of the packer -/

/-- A round of the loop, where no `int` leaves its range. -/
def packStepInt (src : Bytes) (st : PackState) (i : ℕ) : Option PackState :=
  let st' := packStep src st i
  if i + 8 < 2 ^ 31 ∧ st'.size < 2 ^ 31 ∧ -2 ^ 31 ≤ st'.bufsz then some st' else none

/-- The loop, over the first `k` segments. -/
def packLoopInt (src : Bytes) (mem : ℕ → UInt8) (bufsz : ℤ) : ℕ → Option PackState
  | 0 => some ⟨mem, 0, bufsz, 0, 0, 0, 0⟩
  | k + 1 => (packLoopInt src mem bufsz k).bind fun st => packStepInt src st (8 * k)

/-- `sproto_pack` with its `int`s; `none` where one overflows.
SRC: sproto.c:1324-1376 -/
def sprotoPackInt (src : Bytes) (mem : ℕ → UInt8) (bufsz : ℤ) : Option (ℕ × (ℕ → UInt8)) :=
  (packLoopInt src mem bufsz ((src.length + 7) / 8)).map fun st =>
    (st.size,
      if st.bufsz ≥ 0 ∧ st.ffN > 0 then
        writeFf src st.ffSrcstart st.mem st.ffDesstart st.ffN
      else st.mem)

def encodeBuffersize : ℕ := 2050

def encodeMaxsize : ℕ := 0x1000000

/-- What ends `lpack` without a result. -/
inductive LpackError
  /-- The error of `expand_buffer`. -/
  | tooLarge
  /-- The doubling of `expand_buffer` leaves an `int`. -/
  | expand
  /-- An `int` of `sproto_pack` overflows. -/
  | overflow
  /-- `packing error, return size = %d`. -/
  | packing (bytes : ℕ)
  deriving DecidableEq

/-- `expand_buffer` with a bound for its rounds; an `int` doubles at most 31 times.
SRC: lsproto.c:388-404 -/
def expandBuffer : ℕ → ℕ → ℤ → Except LpackError ℕ
  | 0, _, _ => .error .expand
  | rounds + 1, osz, nsz =>
    if 2 ^ 31 ≤ osz * 2 then .error .expand
    else if ((osz * 2 : ℕ) : ℤ) < nsz then expandBuffer rounds (osz * 2) nsz
    else if encodeMaxsize < osz * 2 then .error .tooLarge
    else .ok (osz * 2)

/-- `maxsz`. -/
def packMaxsz (sz : ℕ) : ℕ := (sz + 2047) / 2048 * 2 + sz + 2

/-- The size of the buffer that `lpack` packs into, where it has one of `osz` bytes. -/
def lpackBuffer (osz maxsz : ℕ) : Except LpackError ℕ :=
  if osz < maxsz then expandBuffer 32 osz (toInt32 maxsz) else .ok osz

/-- `lpack` with a buffer of `osz` bytes: the size of the buffer that is packed into, what it
holds, and the string.  The `size_t`s go to `int`s where `expand_buffer` and `sproto_pack` are
called.
SRC: lsproto.c:667-687 -/
def lpack (osz : ℕ) (mem : ℕ → UInt8) (src : Bytes) :
    Except LpackError (ℕ × (ℕ → UInt8) × Bytes) := do
  let maxsz := packMaxsz src.length
  let osz ← lpackBuffer osz maxsz
  match sprotoPackInt (src.take (toInt32 src.length).toNat) mem (toInt32 maxsz) with
  | none => .error .overflow
  | some (bytes, mem) =>
    if maxsz < bytes then .error (.packing bytes)
    else .ok (osz, mem, load mem 0 bytes)

/-! ## Unpacking -/

/-- The locals of `sproto_unpack` that are about the destination. -/
structure UnpackState where
  mem : ℕ → UInt8
  buffer : ℕ
  bufsz : ℤ
  size : ℕ

/-- A byte is counted, and written where there is room. -/
def UnpackState.emit (st : UnpackState) (v : UInt8) : UnpackState :=
  if st.bufsz > 0 then
    { mem := update st.mem st.buffer v
      bufsz := st.bufsz - 1
      buffer := st.buffer + 1
      size := st.size + 1 }
  else { st with size := st.size + 1 }

/-- The loop of `sproto_unpack` over the bits of a header: what is left of the source,
`none` where it returns `-1`.
SRC: sproto.c:1405-1427 -/
def sprotoUnpackBits (header : UInt8) :
    List ℕ → Bytes → UnpackState → Option Bytes × UnpackState
  | [], src, st => (some src, st)
  | i :: is, src, st =>
    if header.toNat.testBit i then
      match src with
      | [] => (none, st)
      | v :: src => sprotoUnpackBits header is src (st.emit v)
    else sprotoUnpackBits header is src (st.emit 0)

theorem length_sprotoUnpackBits {header : UInt8} {is : List ℕ} {src rest : Bytes}
    {st : UnpackState} (h : (sprotoUnpackBits header is src st).1 = some rest) :
    rest.length ≤ src.length := by
  induction is generalizing src st with
  | nil =>
    cases h
    exact le_rfl
  | cons i is ih =>
    unfold sprotoUnpackBits at h
    split at h
    · cases src with
      | nil => cases h
      | cons v src =>
        have hlen := ih h
        rw [length_cons]
        omega
    · exact ih h

/-- The outer loop of `sproto_unpack`; it is left with `false` where it returns `-1`.
SRC: sproto.c:1383-1429 -/
def sprotoUnpackLoop (src : Bytes) (st : UnpackState) : Bool × UnpackState :=
  match src with
  | [] => (true, st)
  | header :: src =>
    if header = 0xff then
      match src with
      | [] => (false, st)
      | c :: src =>
        let n := (c.toNat + 1) * 8
        if src.length < n then (false, st)
        else
          sprotoUnpackLoop (src.drop n)
            { mem := if st.bufsz ≥ n then store st.mem st.buffer (src.take n) else st.mem
              bufsz := st.bufsz - n
              buffer := st.buffer + n
              size := st.size + n }
    else
      match _h : sprotoUnpackBits header (range 8) src st with
      | (some rest, st) => sprotoUnpackLoop rest st
      | (none, st) => (false, st)
termination_by src.length
decreasing_by
  · simp only [length_drop, length_cons]
    omega
  · have hlen := length_sprotoUnpackBits (congrArg Prod.fst _h)
    rw [length_cons]
    omega

/-- `sproto_unpack`: the size that is needed or `-1`, and the buffer.
SRC: sproto.c:1378-1430 -/
def sprotoUnpack (src : Bytes) (mem : ℕ → UInt8) (bufsz : ℤ) : ℤ × (ℕ → UInt8) :=
  let r := sprotoUnpackLoop src ⟨mem, 0, bufsz, 0⟩
  (if r.1 then toInt32 r.2.size else -1, r.2.mem)

end Skynet.Model
