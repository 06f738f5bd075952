import Mathlib.Tactic.IntervalCases
import Skynet.Model.CryptDes

/-!
# Decoding gives the text back

The permutations at both ends of the block function are inverse, its rounds are a Feistel
network, and the subkeys for decoding are those for encoding in the other order; so the block
function with either is the inverse of that with the other.  A padding is found again, whatever
is in front of it.
-/

namespace Skynet.Analysis

open Library Model CryptDes List BitVec

variable {SK : List Word} {text block : Bytes}

/-! ## Words -/

theorem rotateDown_rotateUp (x : Word) : rotateDown (rotateUp x) = x := by
  refine eq_of_getLsbD_eq fun i hi => ?_
  simp only [rotateDown, rotateUp, getLsbD_and, getLsbD_or, getLsbD_shiftLeft, getLsbD_ushiftRight]
  interval_cases i <;> simp

theorem rotateUp_rotateDown (x : Word) : rotateUp (rotateDown x) = x := by
  refine eq_of_getLsbD_eq fun i hi => ?_
  simp only [rotateDown, rotateUp, getLsbD_and, getLsbD_or, getLsbD_shiftLeft, getLsbD_ushiftRight]
  interval_cases i <;> simp

def joinBytes (a b c d : BitVec 8) : Word :=
  (a.setWidth 32 <<< 24) ||| (b.setWidth 32 <<< 16) ||| (c.setWidth 32 <<< 8) ||| d.setWidth 32

theorem join_split (x : Word) :
    joinBytes ((x >>> 24).setWidth 8) ((x >>> 16).setWidth 8) ((x >>> 8).setWidth 8)
      (x.setWidth 8) = x := by
  refine eq_of_getLsbD_eq fun i hi => ?_
  simp only [joinBytes, getLsbD_or, getLsbD_shiftLeft, getLsbD_ushiftRight, getLsbD_setWidth]
  interval_cases i <;> simp

theorem split_join (a b c d : BitVec 8) :
    ((joinBytes a b c d) >>> 24).setWidth 8 = a ∧ ((joinBytes a b c d) >>> 16).setWidth 8 = b ∧
      ((joinBytes a b c d) >>> 8).setWidth 8 = c ∧ (joinBytes a b c d).setWidth 8 = d := by
  refine ⟨?_, ?_, ?_, ?_⟩ <;> refine eq_of_getLsbD_eq fun i hi => ?_ <;>
    simp only [joinBytes, getLsbD_or, getLsbD_shiftLeft, getLsbD_ushiftRight, getLsbD_setWidth] <;>
    interval_cases i <;> simp

theorem putUint32_joinBytes (a b c d : UInt8) :
    putUint32 (joinBytes a.toBitVec b.toBitVec c.toBitVec d.toBitVec) = [a, b, c, d] := by
  obtain ⟨ha, hb, hc, hd⟩ := split_join a.toBitVec b.toBitVec c.toBitVec d.toBitVec
  rw [putUint32, ha, hb, hc, hd]

theorem getUint32_put (x y : Word) :
    getUint32 (putUint32 x ++ putUint32 y) 0 = x ∧ getUint32 (putUint32 x ++ putUint32 y) 4 = y :=
  ⟨join_split x, join_split y⟩

theorem putUint32_get (h : block.length = 8) :
    putUint32 (getUint32 block 0) ++ putUint32 (getUint32 block 4) = block := by
  match block, h with
  | [a, b, c, d, e, f, g, i], _ =>
    change putUint32 (joinBytes a.toBitVec b.toBitVec c.toBitVec d.toBitVec) ++
      putUint32 (joinBytes e.toBitVec f.toBitVec g.toBitVec i.toBitVec) = _
    rw [putUint32_joinBytes, putUint32_joinBytes]
    rfl

theorem exchangeBits_back :
    (∀ p : Word × Word, exchangeBits 4 0x0F0F0F0F (exchangeBits 4 0x0F0F0F0F p) = p) ∧
    (∀ p : Word × Word, exchangeBits 16 0x0000FFFF (exchangeBits 16 0x0000FFFF p) = p) ∧
    (∀ p : Word × Word, exchangeBits 2 0x33333333 (exchangeBits 2 0x33333333 p) = p) ∧
    (∀ p : Word × Word, exchangeBits 8 0x00FF00FF (exchangeBits 8 0x00FF00FF p) = p) ∧
    ∀ p : Word × Word, exchangeBits 0 0xAAAAAAAA (exchangeBits 0 0xAAAAAAAA p) = p :=
  ⟨exchangeBits_twice rfl, exchangeBits_twice rfl, exchangeBits_twice rfl, exchangeBits_twice rfl,
    exchangeBits_twice rfl⟩

/-- **The final permutation takes the initial one back.** -/
theorem desFP_desIP (p : Word × Word) : desFP (desIP p) = p := by
  obtain ⟨h4, h16, h2, h8, h0⟩ := exchangeBits_back
  simp only [desFP, desIP, rotateDown_rotateUp, h4, h16, h2, h8, h0, Prod.swap_swap, Prod.mk.eta]

theorem desIP_desFP (p : Word × Word) : desIP (desFP p) = p := by
  obtain ⟨h4, h16, h2, h8, h0⟩ := exchangeBits_back
  simp only [desFP, desIP, rotateUp_rotateDown, h4, h16, h2, h8, h0, Prod.swap_swap]

/-! ## Rounds -/

theorem xor_xor (a b : Word) : (a ^^^ b) ^^^ b = a := by
  rw [xor_assoc, BitVec.xor_self, xor_zero]

def roundKeys (SK : List Word) : List (Word × Word) := (range 16).map (roundKey SK)

/-- **The rounds are a Feistel network.** -/
theorem desRounds_eq (SK : List Word) (p : Word × Word) :
    desRounds SK p = feistel (· ^^^ ·) roundBits (roundKeys SK) p := by
  have hrun : ∀ (rs : List ℕ) (p : Word × Word), rs.foldl (fun p r =>
        let x := desRound (roundKey SK (2 * r)) p.2 p.1
        let y := desRound (roundKey SK (2 * r + 1)) x p.2
        (x, y)) p =
      feistel (· ^^^ ·) roundBits
        (rs.flatMap fun r => [roundKey SK (2 * r), roundKey SK (2 * r + 1)]) p := by
    intro rs
    induction rs with
    | nil => intro p; rfl
    | cons r rs ih =>
      intro p
      rw [foldl_cons, flatMap_cons, feistel_append, ih]
      rfl
  exact hrun (range 8) p

theorem roundKeys_reverseKs (SK : List Word) :
    roundKeys (reverseKs SK) = (roundKeys SK).reverse := rfl

theorem desRounds_reverse {SK' : List Word} (hkeys : roundKeys SK' = (roundKeys SK).reverse)
    (p : Word × Word) : desRounds SK' (desRounds SK p).swap = p.swap := by
  rw [desRounds_eq, desRounds_eq, hkeys]
  exact feistel_reverse _ roundBits xor_xor _ p

/-! ## Blocks -/

theorem desCrypt_length (SK : List Word) (block : Bytes) : (desCrypt SK block).length = 8 := rfl

theorem desCrypt_back {SK' : List Word} (hkeys : roundKeys SK' = (roundKeys SK).reverse)
    (h : block.length = 8) : desCrypt SK' (desCrypt SK block) = block := by
  obtain ⟨hx, hy⟩ := getUint32_put
    (desFP (desRounds SK (desIP (getUint32 block 0, getUint32 block 4))).swap).1
    (desFP (desRounds SK (desIP (getUint32 block 0, getUint32 block 4))).swap).2
  unfold desCrypt
  dsimp only
  rw [hx, hy, Prod.mk.eta, desIP_desFP, desRounds_reverse hkeys, Prod.swap_swap, desFP_desIP]
  exact putUint32_get h

/-- **The block function with the reversed subkeys is the inverse.** -/
theorem desCrypt_reverse (SK : List Word) (h : block.length = 8) :
    desCrypt (reverseKs SK) (desCrypt SK block) = block :=
  desCrypt_back (roundKeys_reverseKs SK) h

theorem desCrypt_forward (SK : List Word) (h : block.length = 8) :
    desCrypt SK (desCrypt (reverseKs SK) block) = block := by
  refine desCrypt_back ?_ h
  rw [roundKeys_reverseKs, reverse_reverse]

/-! ## Padding -/

theorem isoTurns_zeros (turns padding k : ℕ) (last : Bytes) :
    isoTurns (turns + k) padding (List.replicate k 0 ++ last) =
      isoTurns turns (padding + k) last := by
  induction k generalizing padding with
  | zero => rfl
  | succ k ih =>
    rw [List.replicate_succ, List.cons_append, ← Nat.add_assoc, isoTurns, if_pos rfl, ih]
    congr 1
    omega

def IsPadding (mode : ℤ) (pad : Bytes) : Prop :=
  ∀ front : Bytes, removePadding (front ++ pad).reverse mode = .ok pad.length

theorem isPadding_iso {offset : ℕ} (h : offset < 8) : IsPadding 0 (paddingAddIso7816 offset) := by
  intro front
  have hlen : (paddingAddIso7816 offset).length = 8 - offset := by
    rw [paddingAddIso7816, length_cons, length_replicate]
    omega
  have hturns : 8 = (offset + 1) + (7 - offset) := by omega
  rw [hlen]
  change isoTurns 8 1 _ = _
  rw [paddingAddIso7816, List.reverse_append, reverse_cons, List.reverse_replicate,
    List.append_assoc, hturns, isoTurns_zeros]
  change Except.ok (1 + (7 - offset)) = _
  congr 1
  omega

theorem pkcsTurns_replicate (padding : UInt8) (turns : ℕ) (last : Bytes) :
    pkcsTurns padding turns (List.replicate turns padding ++ last) = .ok padding.toNat := by
  induction turns with
  | zero => rfl
  | succ turns ih =>
    rw [List.replicate_succ, List.cons_append, pkcsTurns, if_neg (not_not.mpr rfl), ih]

theorem isPadding_pkcs7 {offset : ℕ} (h : offset < 8) : IsPadding 1 (paddingAddPkcs7 offset) := by
  intro front
  obtain ⟨n, hn⟩ : ∃ n, 8 - offset = n + 1 := ⟨7 - offset, by omega⟩
  have hbyte : (UInt8.ofNat (n + 1)).toNat = n + 1 := by
    rw [UInt8.toNat_ofNat']
    omega
  change paddingRemovePkcs7 _ = _
  rw [paddingAddPkcs7, hn, length_replicate, List.reverse_append, List.reverse_replicate,
    List.replicate_succ, List.cons_append, paddingRemovePkcs7, hbyte, Nat.add_sub_cancel,
    pkcsTurns_replicate, hbyte]

theorem addPadding_spec {mode : ℤ} (hmode : mode = 0 ∨ mode = 1) (h : text.length < 8) :
    ∃ pad, addPadding text mode = .ok (text ++ pad) ∧ text.length + pad.length = 8 ∧
      0 < pad.length ∧ IsPadding mode pad := by
  have hfull : ¬text.length ≥ 8 := Nat.not_le.mpr h
  rcases hmode with rfl | rfl
  · refine ⟨paddingAddIso7816 text.length, ?_, ?_, ?_, isPadding_iso h⟩
    · rw [addPadding, if_neg (by decide), if_neg hfull, if_pos rfl]
    · rw [paddingAddIso7816, length_cons, length_replicate]
      omega
    · exact Nat.succ_pos _
  · refine ⟨paddingAddPkcs7 text.length, ?_, ?_, ?_, isPadding_pkcs7 h⟩
    · rw [addPadding, if_neg (by decide), if_neg hfull, if_neg (by decide)]
    · rw [paddingAddPkcs7, length_replicate]
      omega
    · rw [paddingAddPkcs7, length_replicate]
      omega

/-! ## Texts -/

theorem decodeText_block (SK : List Word) {rest : Bytes} (h : block.length = 8) :
    decodeText SK (block ++ rest) = desCrypt SK block ++ decodeText SK rest := by
  have hne : block ++ rest ≠ [] := by
    rintro hnil
    rw [(append_eq_nil_iff.mp hnil).1] at h
    nomatch h
  rw [decodeText, if_neg hne, take_left' h, drop_left' h]

theorem encodeText_spec (SK : List Word) {mode : ℤ} (hmode : mode = 0 ∨ mode = 1) (text : Bytes) :
    ∃ c pad, encodeText SK mode text = .ok c ∧ decodeText (reverseKs SK) c = text ++ pad ∧
      c.length = text.length + pad.length ∧ c.length % 8 = 0 ∧
      0 < pad.length ∧ pad.length ≤ 8 ∧ IsPadding mode pad := by
  induction text using encodeText.induct with
  | case1 text hle ih =>
    obtain ⟨c, pad, hc, hdecode, hlen, hblocks, hpos, hpad, hfound⟩ := ih
    have hblock : (text.take 8).length = 8 := by
      rw [length_take]
      omega
    refine ⟨desCrypt SK (text.take 8) ++ c, pad, ?_, ?_, ?_, ?_, hpos, hpad, hfound⟩
    · rw [encodeText, if_pos hle, hc]
      rfl
    · rw [decodeText_block _ (desCrypt_length SK _), desCrypt_reverse SK hblock, hdecode,
        ← List.append_assoc, take_append_drop]
    · rw [length_append, desCrypt_length, hlen, length_drop]
      omega
    · rw [length_append, desCrypt_length]
      omega
  | case2 text hlt =>
    obtain ⟨pad, hadd, hlen, hpos, hfound⟩ := addPadding_spec hmode (Nat.not_le.mp hlt)
    have hblock : (text ++ pad).length = 8 := by rw [length_append, hlen]
    refine ⟨desCrypt SK (text ++ pad), pad, ?_, ?_, hlen.symm, ?_, hpos, by omega, hfound⟩
    · rw [encodeText, if_neg hlt, hadd]
      rfl
    · rw [← append_nil (desCrypt SK (text ++ pad)),
        decodeText_block _ (desCrypt_length SK _), desCrypt_reverse SK hblock, decodeText,
        if_pos rfl, append_nil]
    · rw [desCrypt_length]

/-- **DES round trip.**  For a key of eight bytes and either padding, every text is encoded,
and what it is encoded to is decoded to the text; and the block function with the subkeys and
that with the reversed ones are inverse on the blocks of eight bytes. -/
theorem des_round_trip {key : Bytes} {mode : ℤ} (hkey : key.length = 8)
    (hmode : mode = 0 ∨ mode = 1) :
    (∀ text, ∃ c, ldesencode key text mode = .ok c ∧ ldesdecode key c mode = .ok text) ∧
      ∀ block : Bytes, block.length = 8 →
        desCrypt (reverseKs (desMainKs key)) (desCrypt (desMainKs key) block) = block ∧
        desCrypt (desMainKs key) (desCrypt (reverseKs (desMainKs key)) block) = block := by
  refine ⟨fun text => ?_, fun block h => ⟨desCrypt_reverse _ h, desCrypt_forward _ h⟩⟩
  obtain ⟨c, pad, hc, hdecode, hlen, hblocks, hpos, hpad, hfound⟩ :=
    encodeText_spec (desMainKs key) hmode text
  have hks : desKey key = .ok (desMainKs key) := by rw [desKey, if_neg (not_not.mpr hkey)]
  refine ⟨c, ?_, ?_⟩
  · rw [ldesencode, hks]
    exact hc
  · have hlength : ¬(c.length % 8 ≠ 0 ∨ c.length = 0) := by omega
    have htake : c.length - pad.length = text.length := by omega
    rw [ldesdecode, hks]
    change (if c.length % 8 ≠ 0 ∨ c.length = 0 then _ else _) = _
    rw [if_neg hlength, hdecode, hfound text]
    change (if pad.length = 0 ∨ 8 < pad.length then _ else _) = _
    rw [if_neg (by omega), htake, take_left' rfl]

def sampleKey : Bytes := [0x13, 0x34, 0x57, 0x79, 0x9b, 0xbc, 0xdf, 0xf1]

theorem des_round_trip_sample :
    (∀ text, ∃ c, ldesencode sampleKey text 1 = .ok c ∧ ldesdecode sampleKey c 1 = .ok text) ∧
    ∀ block : Bytes, block.length = 8 →
      desCrypt (reverseKs (desMainKs sampleKey)) (desCrypt (desMainKs sampleKey) block) = block ∧
      desCrypt (desMainKs sampleKey) (desCrypt (reverseKs (desMainKs sampleKey)) block) = block :=
  des_round_trip rfl (.inr rfl)

end Skynet.Analysis
