import Skynet.Analysis.LuaSeriPack
import Skynet.Model.CryptBase64

/-!
# Decoding of base64 and hexadecimal

A group is gathered from the characters that are none of the noise between them, so a text is
decoded as what it is without noise, unless there is noise behind the last group: there a
group begins that has no characters.

Of hexadecimal more is read than is written: the letters are taken from `W` to `g`, as the values
from 0 to 16.
-/

namespace Skynet.Analysis

open Library Model Skynet.Model.CryptBase64 List Nat

def significant (b : UInt8) : Bool := b64index b ≠ -1

def endsClean (text : Bytes) : Bool := text.getLast?.all significant

variable {text more pre rest buffer : Bytes} {c : List ℤ} {i n : ℕ} {cap : ℤ}

theorem endsClean_append (h : endsClean pre = true) : endsClean (pre ++ rest) = endsClean rest := by
  unfold endsClean at h ⊢
  rw [getLast?_append]
  cases hlast : rest.getLast? with
  | none => simpa using h
  | some b => rfl

theorem endsClean_noise (h : text.filter significant = []) (hne : text ≠ []) :
    endsClean text = false := by
  have hnoise := filter_eq_nil_iff.1 h _ (getLast_mem hne)
  rw [endsClean, getLast?_eq_getLast_of_ne_nil hne]
  simpa using hnoise

/-! ## A group -/

theorem endsClean_cons {b : UInt8} (hb : pre ≠ [] ∨ significant b = true)
    (h : endsClean pre = true) : endsClean (b :: pre) = true := by
  cases pre with
  | nil => simpa [endsClean] using hb
  | cons d pre =>
    unfold endsClean at h ⊢
    rwa [getLast?_cons_cons]

theorem gather_text {cs : Bytes} (hlen : c.length + cs.length = 4)
    (hfilter : text.filter significant = cs ++ more) (hi : i + text.length < 2 ^ 31) :
    ∃ pre rest, text = pre ++ rest ∧ rest.filter significant = more ∧ cs.length ≤ pre.length ∧
      endsClean pre = true ∧
      gather text i c = .ok (c ++ cs.map b64index, rest, i + pre.length) := by
  induction text generalizing c cs i with
  | nil =>
    obtain ⟨rfl, rfl⟩ := append_eq_nil_iff.1 hfilter.symm
    refine ⟨[], [], rfl, rfl, le_rfl, rfl, ?_⟩
    rw [gather, if_pos (by simpa using hlen)]
    simp
  | cons b text ih =>
    cases cs with
    | nil =>
      refine ⟨[], b :: text, rfl, hfilter, le_rfl, rfl, ?_⟩
      rw [gather, if_pos (by simpa using hlen)]
      simp
    | cons x cs =>
      rw [length_cons] at hlen hi
      rw [gather, if_neg (by omega), if_neg (by omega)]
      by_cases hb : b64index b = -1
      · rw [filter_cons_of_neg (by simp [significant, hb])] at hfilter
        obtain ⟨pre, rest, rfl, hrest, hle, hclean, hgather⟩ :=
          ih (show _ + (x :: cs).length = 4 from hlen) hfilter (show i + 1 + _ < _ by omega)
        have hne : pre ≠ [] := by
          rintro rfl
          simp at hle
        refine ⟨b :: pre, rest, rfl, hrest, by simp at hle ⊢; omega,
          endsClean_cons (.inl hne) hclean, ?_⟩
        rw [if_pos hb, hgather, length_cons, Nat.add_assoc, Nat.add_comm 1]
      · have hsig : significant b = true := by simp [significant, hb]
        rw [filter_cons_of_pos hsig] at hfilter
        obtain ⟨rfl, htail⟩ := List.cons.inj hfilter
        obtain ⟨pre, rest, rfl, hrest, hle, hclean, hgather⟩ :=
          ih (c := c ++ [b64index b]) (by simp; omega) htail (show i + 1 + _ < _ by omega)
        refine ⟨b :: pre, rest, rfl, hrest, by simp; omega, endsClean_cons (.inr hsig) hclean, ?_⟩
        rw [if_neg hb, hgather, length_cons, Nat.add_assoc, Nat.add_comm 1]
        simp

/-- A group that lacks characters is none. -/
theorem gather_short (h : c.length + (text.filter significant).length < 4)
    (hi : i + text.length < 2 ^ 31) : gather text i c = .error .invalid := by
  induction text generalizing c i with
  | nil => rw [gather, if_neg (by simp at h; omega)]
  | cons b text ih =>
    rw [length_cons] at hi
    rw [gather, if_neg (by omega), if_neg (by omega)]
    by_cases hb : b64index b = -1
    · rw [filter_cons_of_neg (by simp [significant, hb])] at h
      rw [if_pos hb, ih h (by omega)]
    · rw [filter_cons_of_pos (by simp [significant, hb]), length_cons] at h
      rw [if_neg hb, ih (by simp; omega) (by omega)]

theorem gather_inside (hi : i + text.length < 2 ^ 31) : gather text i [] ≠ .error .outside := by
  by_cases hshort : (text.filter significant).length < 4
  · rw [gather_short (by simpa using hshort) hi]
    simp
  · obtain ⟨pre, rest, -, -, -, -, h⟩ := gather_text (c := [])
      (show _ + ((text.filter significant).take 4).length = 4 by simp; omega)
      (take_append_drop 4 _).symm hi
    rw [h]
    simp

/-- What a group takes of the text. -/
theorem gather_ok {c' : List ℤ} {i' : ℕ} (h : gather text i c = .ok (c', rest, i')) :
    i' + rest.length = i + text.length ∧ i + 4 ≤ i' + c.length ∧ (i < 2 ^ 31 → i' < 2 ^ 31) := by
  induction text generalizing c i with
  | nil =>
    rw [gather] at h
    split_ifs at h with hc
    cases h
    omega
  | cons b text ih =>
    rw [gather] at h
    split_ifs at h with hc hi hb
    · cases h
      omega
    · have := ih h
      simp at this ⊢
      omega
    · have := ih h
      simp at this ⊢
      omega

/-! ## Bytes -/

theorem b64index_encodeChar : ∀ k < 64, b64index (encodeChar k) = k := by
  decide +kernel

/-- A number beside one that is shifted past it. -/
theorem shift_or {low k : ℕ} (h : low < 2 ^ k) (high : ℕ) :
    high <<< k ||| low = high * 2 ^ k + low := by
  rw [← shiftLeft_add_eq_or_of_lt h, shiftLeft_eq]

theorem and_mask : (∀ n, n &&& 0x3f = n % 64) ∧ (∀ n, n &&& 0xff = n % 256) ∧
    (∀ n, n &&& 0xf = n % 16) ∧ ∀ n, n &&& 3 = n % 4 :=
  ⟨fun n => and_two_pow_sub_one_eq_mod n 6, fun n => and_two_pow_sub_one_eq_mod n 8,
    fun n => and_two_pow_sub_one_eq_mod n 4, fun n => and_two_pow_sub_one_eq_mod n 2⟩

theorem byte_eq {n : ℕ} {a : UInt8} (h : n % 256 = a.toNat) : UInt8.ofNat n = a := by
  rw [← UInt8.toNat_inj, UInt8.toNat_ofNat']
  exact h

theorem count_pad {k : ℕ} (cs : List ℤ) : List.count (-2) ((k : ℤ) :: cs) = cs.count (-2) :=
  count_cons_of_ne (by omega)

/-- The digits of three bytes. -/
theorem decodeGroup_three (a b d : UInt8) (t : Bytes) :
    ∃ cs, encodeLoop (a :: b :: d :: t) = cs ++ encodeLoop t ∧ cs.length = 4 ∧
      decodeGroup (cs.map b64index) = .ok [a, b, d] := by
  have ha : a.toNat < 256 := a.toNat_lt
  have hb : b.toNat < 256 := b.toNat_lt
  have hd : d.toNat < 256 := d.toNat_lt
  have hlow := shift_or (k := 8) hd b.toNat
  have hv := shift_or (show b.toNat <<< 8 ||| d.toNat < 2 ^ 16 by omega) a.toNat
  rw [hlow, ← hlow, ← Nat.or_assoc] at hv
  obtain ⟨v, hdef⟩ : ∃ v, v = a.toNat <<< 16 ||| b.toNat <<< 8 ||| d.toNat := ⟨_, rfl⟩
  obtain ⟨hsix, height, hfour, htwo⟩ := and_mask
  refine ⟨[encodeChar (v >>> 18), encodeChar (v >>> 12 &&& 0x3f), encodeChar (v >>> 6 &&& 0x3f),
    encodeChar (v &&& 0x3f)], by rw [encodeLoop, hdef]; rfl, rfl, ?_⟩
  simp only [hsix, shiftRight_eq_div_pow, map_cons, map_nil]
  rw [b64index_encodeChar _ (by omega), b64index_encodeChar _ (by omega),
    b64index_encodeChar _ (by omega), b64index_encodeChar _ (by omega)]
  simp only [decodeGroup, count_pad, count_nil, Int.toNat_natCast, height, shiftRight_eq_div_pow]
  rw [Nat.or_assoc, Nat.or_assoc, shift_or (k := 6) (by omega), shift_or (k := 12) (by omega),
    shift_or (k := 18) (by omega), byte_eq (a := a) (by omega), byte_eq (a := b) (by omega),
    byte_eq (a := d) (by omega)]

theorem decodeGroup_two (a b : UInt8) : (encodeLoop [a, b]).length = 4 ∧
    decodeGroup ((encodeLoop [a, b]).map b64index) = .ok [a, b] := by
  have ha : a.toNat < 256 := a.toNat_lt
  have hb : b.toNat < 256 := b.toNat_lt
  have hv := shift_or (k := 8) hb a.toNat
  obtain ⟨hsix, height, hfour, htwo⟩ := and_mask
  obtain ⟨v, hdef⟩ : ∃ v, v = a.toNat <<< 8 ||| b.toNat := ⟨_, rfl⟩
  have hpad : b64index pad = -2 := by decide
  refine ⟨rfl, ?_⟩
  simp only [encodeLoop, ← hdef]
  simp only [hsix, hfour, shiftRight_eq_div_pow, shiftLeft_eq, map_cons, map_nil]
  rw [b64index_encodeChar _ (by omega), b64index_encodeChar _ (by omega),
    b64index_encodeChar _ (by omega), hpad]
  simp only [decodeGroup, count_pad, Int.toNat_natCast, htwo, height, shiftRight_eq_div_pow]
  change (if _ then _ else _) = _
  rw [if_neg (by omega), Nat.or_assoc, shift_or (k := 4) (by omega), shift_or (k := 10) (by omega),
    byte_eq (a := a) (by omega), byte_eq (a := b) (by omega)]

theorem decodeGroup_one (a : UInt8) : (encodeLoop [a]).length = 4 ∧
    decodeGroup ((encodeLoop [a]).map b64index) = .ok [a] := by
  have ha : a.toNat < 256 := a.toNat_lt
  obtain ⟨hsix, height, hfour, htwo⟩ := and_mask
  have hpad : b64index pad = -2 := by decide
  refine ⟨rfl, ?_⟩
  simp only [encodeLoop, htwo, shiftRight_eq_div_pow, shiftLeft_eq, map_cons, map_nil]
  rw [b64index_encodeChar _ (by omega), b64index_encodeChar _ (by omega), hpad]
  simp only [decodeGroup, count_pad, Int.toNat_natCast, hfour, shiftRight_eq_div_pow]
  change (if _ then _ else _) = _
  rw [if_neg (by omega), shift_or (k := 2) (by omega), byte_eq (a := a) (by omega)]

theorem decodeGroup_bytes : decodeGroup c ≠ .error .outside ∧
    ∀ bytes, decodeGroup c = .ok bytes → bytes.length ≤ 3 := by
  unfold decodeGroup
  split
  · split
    · exact ⟨by simp, fun bytes h => by cases h; simp⟩
    · split_ifs
      · exact ⟨by simp, fun bytes h => by cases h⟩
      · exact ⟨by simp, fun bytes h => by cases h; simp⟩
    · split_ifs
      · exact ⟨by simp, fun bytes h => by cases h⟩
      · exact ⟨by simp, fun bytes h => by cases h; simp⟩
    · exact ⟨by simp, fun bytes h => by cases h⟩
  · exact ⟨by simp, fun bytes h => by cases h⟩

/-! ## The loop -/

structure Fits (cap : ℤ) (n : ℕ) (text : Bytes) (i : ℕ) (buffer : Bytes) : Prop where
  turns : text.length ≤ n
  int : i + text.length < 2 ^ 31
  room : ((i + text.length + 3) / 4 * 3 : ℕ) ≤ cap
  written : 4 * buffer.length ≤ 3 * i

theorem decodeLoop_cons {b : UInt8} : decodeLoop cap (n + 1) (b :: text) i buffer =
    gather (b :: text) i [] >>= fun l => decodeGroup l.1 >>= fun bytes =>
      if buffer.length + bytes.length ≤ cap then decodeLoop cap n l.2.1 l.2.2 (buffer ++ bytes)
      else .error .outside := by
  rw [decodeLoop]
  simp

/-- One turn. -/
theorem decodeLoop_turn {bytes : Bytes} {i' : ℕ} (h : Fits cap (n + 1) text i buffer)
    (hne : text ≠ []) (hgather : gather text i [] = .ok (c, rest, i'))
    (hgroup : decodeGroup c = .ok bytes) :
    Fits cap n rest i' (buffer ++ bytes) ∧
      decodeLoop cap (n + 1) text i buffer = decodeLoop cap n rest i' (buffer ++ bytes) := by
  obtain ⟨hturns, hint, hroom, hwritten⟩ := h
  obtain ⟨hlen, hfour, -⟩ := gather_ok hgather
  have hbytes := decodeGroup_bytes.2 bytes hgroup
  rw [length_nil] at hfour
  have hle : ((buffer.length + bytes.length : ℕ) : ℤ) ≤ cap := by omega
  refine ⟨⟨by omega, by omega, by rwa [hlen], by rw [length_append]; omega⟩, ?_⟩
  cases text with
  | nil => exact absurd rfl hne
  | cons b text =>
    rw [decodeLoop_cons, hgather]
    change (decodeGroup c >>= _) = _
    rw [hgroup]
    exact if_pos (by exact_mod_cast hle)

/-- No byte is written behind the buffer. -/
theorem decodeLoop_inside (h : Fits cap n text i buffer) :
    decodeLoop cap n text i buffer ≠ .error .outside := by
  induction n generalizing text i buffer with
  | zero =>
    obtain rfl := length_eq_zero_iff.1 (le_zero.1 h.turns)
    rw [decodeLoop]
    simp
  | succ n ih =>
    cases text with
    | nil =>
      rw [decodeLoop]
      simp
    | cons b text =>
      cases hgather : gather (b :: text) i [] with
      | error e =>
        rw [decodeLoop_cons, hgather]
        rintro ⟨⟩
        exact gather_inside h.int hgather
      | ok l =>
        obtain ⟨c, rest, i'⟩ := l
        cases hgroup : decodeGroup c with
        | error e =>
          rw [decodeLoop_cons, hgather]
          change (decodeGroup c >>= _) ≠ _
          rw [hgroup]
          rintro ⟨⟩
          exact decodeGroup_bytes.1 hgroup
        | ok bytes =>
          obtain ⟨hfits, heq⟩ := decodeLoop_turn h (cons_ne_nil _ _) hgather hgroup
          rw [heq]
          exact ih hfits

/-- The index is an `int`. -/
theorem decodeLoop_short {r : Bytes} (hi : i < 2 ^ 31)
    (h : decodeLoop cap n text i buffer = .ok r) : i + text.length < 2 ^ 31 := by
  induction n generalizing text i buffer with
  | zero =>
    cases text with
    | nil => exact hi
    | cons b text =>
      rw [decodeLoop] at h
      · cases h
      · simp
  | succ n ih =>
    cases text with
    | nil => exact hi
    | cons b text =>
      obtain ⟨⟨c, rest, i'⟩, hgather, h⟩ := bind_eq_ok.1 h
      obtain ⟨bytes, -, h⟩ := bind_eq_ok.1 h
      obtain ⟨hlen, -, hint⟩ := gather_ok hgather
      split_ifs at h
      rw [← hlen]
      exact ih (hint hi) h

theorem decodeLoop_digits {cs bytes : Bytes} (h : Fits cap n text i buffer)
    (hcs : cs.length = 4) (hfilter : text.filter significant = cs ++ more)
    (hgroup : decodeGroup (cs.map b64index) = .ok bytes) :
    ∃ n' rest i', Fits cap n' rest i' (buffer ++ bytes) ∧ rest.filter significant = more ∧
      endsClean text = endsClean rest ∧
      decodeLoop cap n text i buffer = decodeLoop cap n' rest i' (buffer ++ bytes) := by
  obtain ⟨pre, rest, rfl, hrest, hle, hclean, hgather⟩ :=
    gather_text (c := []) (by simpa using hcs) hfilter h.int
  have hne : pre ++ rest ≠ [] := by
    intro heq
    obtain ⟨rfl, -⟩ := append_eq_nil_iff.1 heq
    simp [hcs] at hle
  cases n with
  | zero => exact absurd (length_eq_zero_iff.1 (le_zero.1 h.turns)) hne
  | succ n =>
    obtain ⟨hfits, heq⟩ := decodeLoop_turn h hne hgather hgroup
    exact ⟨n, rest, _, hfits, hrest, endsClean_append hclean, heq⟩

theorem decodeLoop_noise (h : Fits cap n text i buffer) (hfilter : text.filter significant = []) :
    decodeLoop cap n text i buffer = if endsClean text then .ok buffer else .error .invalid := by
  cases text with
  | nil =>
    rw [decodeLoop]
    rfl
  | cons b text =>
    have hclean := endsClean_noise hfilter (cons_ne_nil _ _)
    obtain ⟨m, rfl⟩ := exists_eq_succ_of_ne_zero (show n ≠ 0 by
      have := h.turns
      simp at this
      omega)
    rw [decodeLoop_cons, gather_short (by simp [hfilter]) h.int, hclean]
    rfl

/-- What is decoded to some bytes is decoded to them with noise in between, but not with noise
at the end. -/
theorem decodeLoop_encode (s : Bytes) (h : Fits cap n text i buffer)
    (hfilter : text.filter significant = encodeLoop s) :
    decodeLoop cap n text i buffer =
      if endsClean text then .ok (buffer ++ s) else .error .invalid := by
  induction s using encodeLoop.induct generalizing text i buffer n with
  | case1 a b d t ih =>
    obtain ⟨cs, hcs, hlen, hgroup⟩ := decodeGroup_three a b d t
    obtain ⟨n', rest, i', hfits, hrest, hclean, heq⟩ :=
      decodeLoop_digits h hlen (hfilter.trans hcs) hgroup
    rw [heq, ih hfits hrest, hclean, append_assoc]
    rfl
  | case2 a b =>
    obtain ⟨hlen, hgroup⟩ := decodeGroup_two a b
    obtain ⟨n', rest, i', hfits, hrest, hclean, heq⟩ :=
      decodeLoop_digits h hlen (hfilter.trans (append_nil _).symm) hgroup
    rw [heq, decodeLoop_noise hfits hrest, hclean]
  | case3 a =>
    obtain ⟨hlen, hgroup⟩ := decodeGroup_one a
    obtain ⟨n', rest, i', hfits, hrest, hclean, heq⟩ :=
      decodeLoop_digits h hlen (hfilter.trans (append_nil _).symm) hgroup
    rw [heq, decodeLoop_noise hfits hrest, hclean]
  | case4 => rw [decodeLoop_noise h hfilter, append_nil]

/-- SRC: lua-crypt.c:892-1011

**Decoding reads back what was encoded, with noise in between, exactly if the text is counted
by an `int` and does not end with noise**; and no text that is so counted is written behind
the buffer. -/
theorem base64_round_trip_iff (text : Bytes) :
    (∀ s encoded, lb64encode s = .ok encoded → text.filter significant = encoded →
      (lb64decode text = .ok s ↔ text.length < 2 ^ 31 ∧ endsClean text = true)) ∧
    (text.length < 2 ^ 31 → lb64decode text ≠ .error .outside) := by
  have hfits : text.length < 2 ^ 31 →
      Fits (capacity ((text.length + 3) / 4 * 3)) text.length text 0 [] := by
    intro hlt
    refine ⟨le_rfl, by omega, ?_, by simp⟩
    have hint := toInt32_of_lt (show (text.length + 3) / 4 * 3 < 2 ^ 31 by omega)
    unfold capacity smallChunk
    split_ifs <;> omega
  refine ⟨?_, fun hlt => decodeLoop_inside (hfits hlt)⟩
  intro s encoded hencode hfilter
  unfold lb64encode at hencode
  split_ifs at hencode
  cases hencode
  constructor
  · intro h
    have hlt := decodeLoop_short (by norm_num) h
    rw [Nat.zero_add] at hlt
    refine ⟨hlt, ?_⟩
    by_contra hclean
    have hdecode := decodeLoop_encode s (hfits hlt) hfilter
    rw [if_neg hclean] at hdecode
    cases hdecode.symm.trans h
  · rintro ⟨hlt, hclean⟩
    have hdecode := decodeLoop_encode s (hfits hlt) hfilter
    rwa [if_pos hclean] at hdecode

/-- The byte 1, with a newline in front of its text. -/
theorem base64_round_trip_newline : lb64decode [0x0a, 0x41, 0x51, 0x3d, 0x3d] = .ok [1] ↔
    [0x0a, 0x41, 0x51, 0x3d, 0x3d].length < 2 ^ 31 ∧
      endsClean [0x0a, 0x41, 0x51, 0x3d, 0x3d] = true :=
  (base64_round_trip_iff [0x0a, 0x41, 0x51, 0x3d, 0x3d]).1 [1] [0x41, 0x51, 0x3d, 0x3d]
    (by decide +kernel) (by decide +kernel)

/-- **A newline behind the text of the byte 1 is an error**, though it is one that is skipped
before a group. -/
theorem newline_behind_text : lb64encode [1] = .ok [0x41, 0x51, 0x3d, 0x3d] ∧ significant 0x0a =
    false ∧ lb64decode [0x0a, 0x41, 0x51, 0x3d, 0x3d] = .ok [1] ∧ lb64decode
    [0x41, 0x51, 0x3d, 0x3d, 0x0a] = .error .invalid := by
  decide +kernel

/-! ## Hexadecimal -/

open CryptHex

def ReadsHex (c : UInt8) : Prop :=
  48 ≤ c ∧ c ≤ 57 ∨ 87 ≤ c ∧ c ≤ 103

instance (c : UInt8) : Decidable (ReadsHex c) :=
  inferInstanceAs (Decidable (_ ∨ _))

theorem readsHex_iff (c : UInt8) : ¬16 < hexValue c ↔ ReadsHex c := by
  revert c
  exact byte_forall (by decide +kernel)

theorem hexPair_reads (b : UInt8) : ∃ hi low, hexPair b = [hi, low] ∧ hi ∈ hex ∧ low ∈ hex ∧
    hexValue hi <<< 4 ||| hexValue low = b := by
  refine ⟨_, _, rfl, ?_⟩
  revert b
  exact byte_forall (by decide +kernel)

theorem hex_reads {c : UInt8} (h : c ∈ hex) : ReadsHex c := by
  revert c
  decide +kernel

/-- Two digits are those of what they are read as. -/
theorem hexPair_hexValue : ∀ hi ∈ hex, ∀ low ∈ hex,
    hexPair (hexValue hi <<< 4 ||| hexValue low) = [hi, low] := by
  decide +kernel

theorem hexLoop_ok_iff {n : ℕ} (hlen : text.length = 2 * n) : (∃ s, hexLoop text i = .ok s) ↔
    (∀ c ∈ text, ReadsHex c) ∧ (text = [] ∨ i + text.length < 2 ^ 31) := by
  induction n generalizing text i with
  | zero =>
    obtain rfl := length_eq_zero_iff.mp hlen
    simp [hexLoop]
  | succ n ih =>
    match text, hlen with
    | hi :: low :: text, hlen =>
      have hrest : text.length = 2 * n := by
        simp only [length_cons] at hlen
        omega
      have hmap (r : Except HexError Bytes) (b : UInt8) :
          (∃ s, r.map (b :: ·) = .ok s) ↔ ∃ s, r = .ok s := by
        cases r <;> simp [Except.map]
      have htext : text = [] ↔ text.length = 0 := length_eq_zero_iff.symm
      rw [hexLoop, forall_mem_cons, forall_mem_cons, ← readsHex_iff, ← readsHex_iff, length_cons,
        length_cons]
      simp only [reduceCtorEq, false_or]
      split
      · simp only [reduceCtorEq, exists_false, false_iff]
        tauto
      · split
        · simp only [reduceCtorEq, exists_false, false_iff]
          rintro ⟨-, hlt⟩
          omega
        · have hlt : (text = [] ∨ i + 2 + text.length < 2 ^ 31) ↔
              i + (text.length + 1 + 1) < 2 ^ 31 := by
            rw [htext]
            omega
          rw [hmap, ih hrest, hlt]
          tauto

theorem hexLoop_flatMap (hlen : i + 2 * text.length < 2 ^ 31) :
    hexLoop (text.flatMap hexPair) i = .ok text := by
  induction text generalizing i with
  | nil => rfl
  | cons b text ih =>
    obtain ⟨hi, low, hpair, hhi, hlow, hb⟩ := hexPair_reads b
    rw [length_cons] at hlen
    rw [flatMap_cons, hpair]
    show hexLoop (hi :: low :: text.flatMap hexPair) i = _
    rw [hexLoop, if_neg, if_neg (by omega), ih (by omega), hb]
    · rfl
    · rw [not_or, readsHex_iff, readsHex_iff]
      exact ⟨hex_reads hhi, hex_reads hlow⟩

theorem length_flatMap_hexPair : (text.flatMap hexPair).length = 2 * text.length := by
  induction text with
  | nil => rfl
  | cons b text ih =>
    rw [flatMap_cons, length_append, ih, length_cons]
    show 2 + 2 * text.length = _
    omega

/-- A text of digits is what is written for some bytes. -/
theorem exists_flatMap_hexPair {n : ℕ} (hlen : text.length = 2 * n) (h : ∀ c ∈ text, c ∈ hex) :
    ∃ bytes : Bytes, text = bytes.flatMap hexPair := by
  induction n generalizing text with
  | zero => exact ⟨[], length_eq_zero_iff.mp hlen⟩
  | succ n ih =>
    match text, hlen with
    | hi :: low :: text, hlen =>
      obtain ⟨hhi, hlow, h⟩ : hi ∈ hex ∧ low ∈ hex ∧ ∀ c ∈ text, c ∈ hex := by simpa using h
      obtain ⟨bytes, rfl⟩ := ih (by simpa [mul_add] using hlen) h
      refine ⟨(hexValue hi <<< 4 ||| hexValue low) :: bytes, ?_⟩
      rw [flatMap_cons, hexPair_hexValue hi hhi low hlow]
      rfl

theorem lfromhex_flatMap (hlt : text.length < 2 ^ 30) :
    ltohex text = .ok (text.flatMap hexPair) ∧ lfromhex (text.flatMap hexPair) = .ok text := by
  refine ⟨if_pos hlt.le, ?_⟩
  rw [lfromhex, if_neg, hexLoop_flatMap (by omega)]
  rw [length_flatMap_hexPair]
  omega

theorem lfromhex_ok_iff : (∃ s, lfromhex text = .ok s) ↔
    text.length % 2 = 0 ∧ text.length < 2 ^ 31 ∧ ∀ c ∈ text, ReadsHex c := by
  unfold lfromhex
  split
  · simp only [reduceCtorEq, exists_false, false_iff]
    rintro ⟨heven, -⟩
    omega
  · have hlt : (text.length = 0 ∨ 0 + text.length < 2 ^ 31) ↔ text.length < 2 ^ 31 := by omega
    have heven : text.length % 2 = 0 := by omega
    rw [hexLoop_ok_iff (n := text.length / 2) (by omega), ← length_eq_zero_iff, hlt]
    tauto

/-- **Hexadecimal.** What is written for less than `2 ^ 30` bytes is read back; exactly the
texts of even length with digits and the letters from `W` to `g` are read, and those that are
written for what they are read as are the ones of digits from `0` to `f`.
SRC: lua-crypt.c:553-598 -/
theorem hex_texts (text : Bytes) :
    ((∃ t, ltohex text = .ok t ∧ lfromhex t = .ok text) ↔ text.length < 2 ^ 30) ∧
    ((∃ s, lfromhex text = .ok s) ↔ text.length % 2 = 0 ∧ text.length < 2 ^ 31 ∧
      ∀ c ∈ text, ReadsHex c) ∧
    ((∃ s, lfromhex text = .ok s ∧ ltohex s = .ok text) ↔ text.length % 2 = 0 ∧
      text.length < 2 ^ 31 ∧ ∀ c ∈ text, c ∈ hex) := by
  have hwrites : ∀ {s t}, ltohex s = .ok t → t = s.flatMap hexPair := by
    intro s t h
    unfold ltohex at h
    split at h
    · exact (Except.ok.inj h).symm
    · cases h
  refine ⟨⟨?_, fun hlt => ⟨_, lfromhex_flatMap hlt⟩⟩, lfromhex_ok_iff, ?_, ?_⟩
  · rintro ⟨t, hwrite, hread⟩
    have hlen := (lfromhex_ok_iff.mp ⟨text, hread⟩).2.1
    rw [hwrites hwrite, length_flatMap_hexPair] at hlen
    omega
  · rintro ⟨s, hread, hwrite⟩
    obtain ⟨heven, hlt, -⟩ := lfromhex_ok_iff.mp ⟨s, hread⟩
    refine ⟨heven, hlt, fun c hc => ?_⟩
    rw [hwrites hwrite] at hc
    obtain ⟨b, -, hcb⟩ := mem_flatMap.mp hc
    obtain ⟨hi, low, hpair, hhi, hlow, -⟩ := hexPair_reads b
    rw [hpair] at hcb
    simp only [mem_cons, not_mem_nil, or_false] at hcb
    obtain rfl | rfl := hcb
    · exact hhi
    · exact hlow
  · rintro ⟨heven, hlt, hhex⟩
    obtain ⟨bytes, rfl⟩ := exists_flatMap_hexPair (n := text.length / 2) (by omega) hhex
    rw [length_flatMap_hexPair] at hlt
    exact ⟨bytes, (lfromhex_flatMap (by omega)).symm⟩

end Skynet.Analysis
