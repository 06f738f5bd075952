import Skynet.Analysis.DesRoundTrip

/-!
# What decoding accepts

What `padding_remove_iso7816_4` and `padding_remove_pkcs7` accept at the end of a text is the
padding of the text in front of it, so that what is decoded is encoded to the same ciphertext.
The scan of `padding_remove_pkcs7` goes back as far as the last byte says: where all bytes of the
buffer are that byte, and there are fewer of them, it reads in front of the buffer.
-/

namespace Skynet.Analysis

open Library Model CryptDes List

variable {SK : List Word} {text last : Bytes} {turns padding k : ℕ}

/-! ## Scans -/

theorem isoTurns_eq_ok (h : isoTurns turns padding last = .ok k) : k = 0 ∨ ∃ z front,
    last = replicate z 0 ++ 0x80 :: front ∧ k = padding + z ∧ z < turns := by
  induction turns generalizing padding last with
  | zero => exact .inl (Except.ok.inj h).symm
  | succ turns ih =>
    cases last with
    | nil => cases h
    | cons b last =>
      unfold isoTurns at h
      split at h
      · next hb =>
        refine (ih h).imp id ?_
        rintro ⟨z, front, rfl, rfl, hz⟩
        refine ⟨z + 1, front, ?_, by omega, by omega⟩
        rw [hb, replicate_succ, cons_append]
      · split at h
        · next hb =>
          exact .inr ⟨0, last, by rw [hb]; rfl, (Except.ok.inj h).symm, Nat.succ_pos _⟩
        · exact .inl (Except.ok.inj h).symm

theorem isoTurns_inside (h : turns ≤ last.length) :
    isoTurns turns padding last ≠ .error .outside := by
  induction turns generalizing padding last with
  | zero => rintro ⟨⟩
  | succ turns ih =>
    cases last with
    | nil => cases h
    | cons b last =>
      unfold isoTurns
      split
      · exact ih (Nat.le_of_succ_le_succ h)
      · split <;> rintro ⟨⟩

theorem pkcsTurns_eq_ok {p : UInt8} (h : pkcsTurns p turns last = .ok k) :
    k = 0 ∨ ∃ front, last = replicate turns p ++ front ∧ k = p.toNat := by
  induction turns generalizing last with
  | zero => exact .inr ⟨last, rfl, (Except.ok.inj h).symm⟩
  | succ turns ih =>
    cases last with
    | nil => cases h
    | cons b last =>
      unfold pkcsTurns at h
      split at h
      · exact .inl (Except.ok.inj h).symm
      · next hb =>
        refine (ih h).imp id ?_
        rintro ⟨front, rfl, hk⟩
        refine ⟨front, ?_, hk⟩
        rw [not_not.mp hb, replicate_succ, cons_append]

theorem pkcsTurns_outside {p : UInt8} : pkcsTurns p turns last = .error .outside ↔
    last.length < turns ∧ last = replicate last.length p := by
  induction turns generalizing last with
  | zero => exact ⟨by rintro ⟨⟩, fun h => absurd h.1 (Nat.not_lt_zero _)⟩
  | succ turns ih =>
    cases last with
    | nil => exact ⟨fun _ => ⟨Nat.succ_pos _, rfl⟩, fun _ => rfl⟩
    | cons b last =>
      rw [pkcsTurns, length_cons, replicate_succ, List.cons.injEq, Nat.succ_lt_succ_iff]
      by_cases hb : b = p
      · rw [if_neg (not_not.mpr hb), ih, and_iff_right hb]
      · rw [if_pos hb]
        exact ⟨by rintro ⟨⟩, fun h => absurd h.2.1 hb⟩

def PadsOver (buffer : Bytes) : Prop :=
  ∃ p : UInt8, buffer.length < p.toNat ∧ buffer = replicate buffer.length p

variable {buffer : Bytes}

theorem removePkcs7_outside (h : buffer ≠ []) :
    paddingRemovePkcs7 buffer = .error .outside ↔ PadsOver buffer := by
  cases buffer with
  | nil => exact absurd rfl h
  | cons p last =>
    rw [paddingRemovePkcs7, pkcsTurns_outside]
    constructor
    · rintro ⟨hlt, hall⟩
      exact ⟨p, by rw [length_cons]; omega, congrArg (p :: ·) hall⟩
    · rintro ⟨q, hlt, hall⟩
      rw [length_cons, replicate_succ, List.cons.injEq] at hall
      obtain ⟨rfl, hall⟩ := hall
      rw [length_cons] at hlt
      exact ⟨by omega, hall⟩

theorem removePadding_outside {mode : ℤ} (h : 8 ≤ buffer.length) :
    removePadding buffer.reverse mode = .error .outside ↔ mode = 1 ∧ PadsOver buffer := by
  have hne : buffer.reverse ≠ [] := by
    intro hnil
    rw [reverse_eq_nil_iff.mp hnil] at h
    cases h
  have hover : PadsOver buffer.reverse ↔ PadsOver buffer := by
    simp only [PadsOver, length_reverse, reverse_eq_iff, reverse_replicate]
  unfold removePadding
  split
  · next hmode => exact ⟨nofun, fun h => by omega⟩
  · split
    · refine ⟨fun herr => absurd herr (isoTurns_inside ?_), fun h => by omega⟩
      rwa [length_reverse]
    · rw [removePkcs7_outside hne, hover]
      exact ⟨fun h => ⟨by omega, h⟩, And.right⟩

def paddingOf (mode : ℤ) (text : Bytes) : Bytes :=
  if mode = 0 then paddingAddIso7816 (text.length % 8) else paddingAddPkcs7 (text.length % 8)

theorem removePadding_eq_ok {mode : ℤ} (h8 : buffer.length % 8 = 0)
    (h : removePadding buffer.reverse mode = .ok k) (hpos : k ≠ 0) (hle : k ≤ 8) :
    (mode = 0 ∨ mode = 1) ∧ ∃ text, buffer = text ++ paddingOf mode text ∧
      text.length + k = buffer.length := by
  unfold removePadding at h
  split at h
  · cases h
  · refine ⟨by omega, ?_⟩
    split at h
    · next hzero =>
      obtain ⟨z, front, hlast, rfl, hz⟩ := (isoTurns_eq_ok h).resolve_left hpos
      have hbuffer : buffer = front.reverse ++ 0x80 :: replicate z 0 := by
        rw [← reverse_reverse buffer, hlast]
        simp
      have hlen : buffer.length = front.length + 1 + z := by
        rw [hbuffer, length_append, length_reverse, length_cons, length_replicate]
        omega
      refine ⟨front.reverse, ?_, by rw [length_reverse]; omega⟩
      rw [paddingOf, if_pos hzero, paddingAddIso7816, length_reverse,
        show 7 - front.length % 8 = z by omega]
      exact hbuffer
    · next hzero =>
      cases hlast : buffer.reverse with
      | nil => rw [hlast] at h; cases h
      | cons p last =>
        rw [hlast] at h
        obtain ⟨front, rfl, rfl⟩ := (pkcsTurns_eq_ok h).resolve_left hpos
        have hbuffer : buffer = front.reverse ++ replicate p.toNat p := by
          rw [← reverse_reverse buffer, hlast, ← cons_append, ← replicate_succ,
            show p.toNat - 1 + 1 = p.toNat by omega]
          simp
        have hlen : buffer.length = front.length + p.toNat := by
          rw [hbuffer, length_append, length_reverse, length_replicate]
        refine ⟨front.reverse, ?_, by rw [length_reverse]; omega⟩
        rw [paddingOf, if_neg hzero, paddingAddPkcs7, length_reverse,
          show 8 - front.length % 8 = p.toNat by omega, UInt8.ofNat_toNat]
        exact hbuffer

/-! ## Texts -/

theorem length_decodeText {c : Bytes} (h : c.length % 8 = 0) :
    (decodeText SK c).length = c.length := by
  induction c using decodeText.induct with
  | case1 => rw [decodeText, if_pos rfl]
  | case2 c hne ih =>
    have hpos := length_pos_iff.mpr hne
    have hdrop : (c.drop 8).length = c.length - 8 := length_drop
    rw [decodeText, if_neg hne, length_append, desCrypt_length, ih (by omega), hdrop]
    omega

theorem length_paddingOf (mode : ℤ) (text : Bytes) :
    (paddingOf mode text).length = 8 - text.length % 8 := by
  unfold paddingOf
  split
  · rw [paddingAddIso7816, length_cons, length_replicate]
    omega
  · rw [paddingAddPkcs7, length_replicate]

theorem addPadding_paddingOf {mode : ℤ} (hmode : mode = 0 ∨ mode = 1) (h : text.length < 8) :
    addPadding text mode = .ok (text ++ paddingOf mode text) := by
  rw [addPadding, if_neg (by omega), if_neg (Nat.not_le.mpr h), paddingOf, Nat.mod_eq_of_lt h]

theorem encodeText_decodeText {mode : ℤ} (hmode : mode = 0 ∨ mode = 1) {c : Bytes}
    (h8 : c.length % 8 = 0) (hne : c ≠ [])
    (h : decodeText (reverseKs SK) c = text ++ paddingOf mode text) :
    encodeText SK mode text = .ok c := by
  induction text using encodeText.induct generalizing c with
  | case1 text hle ih =>
    have hlen := congrArg List.length h
    rw [length_decodeText h8, length_append, length_paddingOf] at hlen
    have htake : (c.take 8).length = 8 := by
      rw [length_take]
      omega
    have hdrop : (c.drop 8).length = c.length - 8 := length_drop
    have hpadding : paddingOf mode (text.drop 8) = paddingOf mode text := by
      rw [paddingOf, paddingOf, length_drop, ← Nat.mod_eq_sub_mod hle]
    have hblock : decodeText (reverseKs SK) (c.take 8 ++ c.drop 8) = _ := decodeText_block _ htake
    rw [take_append_drop, h, ← take_append_drop 8 text, append_assoc] at hblock
    obtain ⟨hfirst, hrest⟩ := append_inj hblock (by
      rw [length_take, desCrypt_length]
      omega)
    rw [take_append_drop, ← hpadding] at hrest
    rw [encodeText, if_pos hle, ih (by omega) (by rw [← length_pos_iff]; omega) hrest.symm, hfirst]
    change Except.ok _ = _
    rw [desCrypt_forward SK htake, take_append_drop]
  | case2 text hlt =>
    have hlen := congrArg List.length h
    rw [length_decodeText h8, length_append, length_paddingOf] at hlen
    have hblock : decodeText (reverseKs SK) (c ++ []) = _ := decodeText_block _ (by omega)
    rw [append_nil, h, decodeText, if_pos rfl, append_nil] at hblock
    rw [encodeText, if_neg hlt, addPadding_paddingOf hmode (Nat.not_le.mp hlt)]
    change Except.ok _ = _
    rw [hblock, desCrypt_forward SK (by omega)]

/-! ## Decoding -/

/-- Decoding reads inside of the buffer, and a text that it returns is encoded to the
ciphertext. -/
def DecodesImage (key c : Bytes) (mode : ℤ) : Prop := ldesdecode key c mode ≠ .error .outside ∧
    ∀ text, ldesdecode key c mode = .ok text → ldesencode key text mode = .ok c

/-- **DES decoding accepts its image.**  For a key of eight bytes, every padding mode and every
ciphertext of whole blocks: decoding reads inside of the buffer, and what it returns is encoded
to the ciphertext, exactly if the ciphertext is not decrypted, for PKCS7, to equal bytes that are
fewer than each of them says. -/
theorem des_decodes_image_iff {key c : Bytes} (mode : ℤ) (hkey : key.length = 8)
    (h8 : c.length % 8 = 0) (hne : c ≠ []) :
    DecodesImage key c mode ↔
      ¬(mode = 1 ∧ PadsOver (decodeText (reverseKs (desMainKs key)) c)) := by
  have hks : desKey key = .ok (desMainKs key) := by rw [desKey, if_neg (not_not.mpr hkey)]
  have hpos := length_pos_iff.mpr hne
  have hlen : (decodeText (reverseKs (desMainKs key)) c).length = c.length := length_decodeText h8
  have houtside : removePadding (decodeText (reverseKs (desMainKs key)) c).reverse mode =
      .error .outside ↔ _ := removePadding_outside (by omega)
  have hdecode : ldesdecode key c mode =
      (removePadding (decodeText (reverseKs (desMainKs key)) c).reverse mode >>= fun padding =>
        if padding = 0 ∨ 8 < padding then .error .invalidText
        else .ok ((decodeText (reverseKs (desMainKs key)) c).take (c.length - padding))) := by
    rw [ldesdecode, hks]
    exact if_neg (by omega)
  rw [← houtside, DecodesImage, hdecode]
  cases hremove : removePadding (decodeText (reverseKs (desMainKs key)) c).reverse mode with
  | error e =>
    refine ⟨fun h heq => h.1 ?_, fun h => ⟨fun heq => h ?_, by rintro _ ⟨⟩⟩⟩
    · cases heq
      rfl
    · cases heq
      rfl
  | ok padding =>
    refine iff_of_true ⟨?_, fun text htext => ?_⟩ (by rintro ⟨⟩)
    · change (if _ then _ else _) ≠ _
      split <;> rintro ⟨⟩
    · change (if padding = 0 ∨ 8 < padding then _ else _) = Except.ok text at htext
      split at htext
      · cases htext
      · cases htext
        obtain ⟨hmode, text, htext, hsum⟩ :=
          removePadding_eq_ok (by omega) hremove (by omega) (by omega)
        have htake : (decodeText (reverseKs (desMainKs key)) c).take (c.length - padding) =
            text := by
          rw [htext]
          exact take_left' (by omega)
        rw [htake, ldesencode, hks]
        exact encodeText_decodeText hmode h8 hne htext

def overlongBlock : Bytes :=
  desCrypt (desMainKs [0, 0, 0, 0, 0, 0, 0, 0]) [9, 9, 9, 9, 9, 9, 9, 9]

theorem des_decodes_image_iff_overlong :
    DecodesImage [0, 0, 0, 0, 0, 0, 0, 0] overlongBlock 1 ↔ ¬((1 : ℤ) = 1 ∧
        PadsOver (decodeText (reverseKs (desMainKs [0, 0, 0, 0, 0, 0, 0, 0])) overlongBlock)) :=
  des_decodes_image_iff 1 rfl rfl nofun

theorem decode_reads_outside : overlongBlock.length = 8 ∧ ldesdecode [0, 0, 0, 0, 0, 0, 0, 0]
    overlongBlock 1 = .error .outside ∧ ¬DecodesImage [0, 0, 0, 0, 0, 0, 0, 0] overlongBlock 1 := by
  have houtside : ldesdecode [0, 0, 0, 0, 0, 0, 0, 0] overlongBlock 1 = .error .outside := by
    decide +kernel
  exact ⟨rfl, houtside, fun h => h.1 houtside⟩

end Skynet.Analysis
