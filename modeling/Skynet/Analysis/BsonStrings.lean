import Mathlib.Tactic.IntervalCases
import Skynet.Analysis.BsonWriting

/-!
# The strings of BSON

`utf8_copy` takes one code point in its shortest form at a time, so `write_string` copies the
strings that are UTF-8, and no others.  The room that it makes is counted by an `int`.
-/

namespace Skynet.Analysis

open Library Model List

def utf8Encode (p : ℕ) : Bytes :=
  if p < 0x80 then [UInt8.ofNat p]
  else if p < 0x800 then [UInt8.ofNat (0xc0 + p / 0x40), UInt8.ofNat (0x80 + p % 0x40)]
  else if p < 0x10000 then
    [UInt8.ofNat (0xe0 + p / 0x1000), UInt8.ofNat (0x80 + p / 0x40 % 0x40),
      UInt8.ofNat (0x80 + p % 0x40)]
  else
    [UInt8.ofNat (0xf0 + p / 0x40000), UInt8.ofNat (0x80 + p / 0x1000 % 0x40),
      UInt8.ofNat (0x80 + p / 0x40 % 0x40), UInt8.ofNat (0x80 + p % 0x40)]

def IsUtf8 (s : Bytes) : Prop :=
  ∃ ps : List ℕ, (∀ p ∈ ps, p ≤ 0x10ffff) ∧ s = ps.flatMap utf8Encode

/-! ## The loop of `utf8_copy` -/

def leadBits (b : UInt8) : ℕ → UInt32
  | 0 => 0xffffff00 ||| b.toUInt32
  | k + 1 => leadBits b k <<< 1

def tailBits : UInt32 → Bytes → UInt32 :=
  List.foldl fun res y => res <<< 6 ||| (y &&& 0x3f).toUInt32

theorem lead_bits : ∀ b : UInt8, 0x80 ≤ b.toNat → ∀ k ≤ 3,
    ((leadBits b k &&& 0x40 = 0 ∧ ∀ j < k, leadBits b (0 + j) &&& 0x40 ≠ 0) ↔
      b.toNat / 2 ^ (6 - k) = 2 ^ (k + 2) - 2) ∧
    (leadBits b k &&& 0x7f).toNat = b.toNat % 2 ^ (7 - k) * 2 ^ k :=
  byte_forall (by decide +kernel)

theorem tail_byte : ∀ y : UInt8, (y &&& 0xc0 = 0x80 ↔ y.toNat / 64 = 2) ∧
    (y &&& 0x3f).toUInt32.toNat = y.toNat % 64 :=
  byte_forall (by decide +kernel)

theorem tailBits_toNat {res : UInt32} (h : res.toNat < 2 ^ 26) (y : UInt8) :
    (res <<< 6 ||| (y &&& 0x3f).toUInt32).toNat = res.toNat * 64 + y.toNat % 64 := by
  have hlow := (tail_byte y).2
  have hshift : (res <<< 6).toNat = res.toNat <<< 6 := by
    exact Nat.mod_eq_of_lt (by change res.toNat <<< 6 < 2 ^ 32; rw [Nat.shiftLeft_eq]; omega)
  rw [UInt32.toNat_or, hshift, hlow, Nat.or_comm, or_shiftLeft (by omega)]
  omega

theorem utf8Loop_iff (b : UInt8) {k m : ℕ} {x : UInt8} {s : Bytes} {res c r : UInt32} :
    utf8Loop k (leadBits b k) res (x :: s) = some (m, c, r) ↔
      leadBits b m &&& 0x40 = 0 ∧ c = leadBits b m ∧ ∃ ys t, s = ys ++ t ∧
        m = k + ys.length ∧ r = tailBits res ys ∧ (∀ y ∈ ys, y &&& 0xc0 = 0x80) ∧
          ∀ j < ys.length, leadBits b (k + j) &&& 0x40 ≠ 0 := by
  induction s generalizing k x res with
  | nil =>
    unfold utf8Loop
    by_cases hbit : leadBits b k &&& 0x40 = 0
    · rw [if_pos hbit]
      constructor
      · intro h
        cases h
        exact ⟨hbit, rfl, [], [], rfl, rfl, rfl, by simp, by simp⟩
      · rintro ⟨-, rfl, ys, t, hs, rfl, rfl, -, -⟩
        obtain ⟨rfl, -⟩ := append_eq_nil_iff.1 hs.symm
        rfl
    · rw [if_neg hbit]
      refine ⟨fun h => by (cases h), ?_⟩
      rintro ⟨hend, -, ys, t, hs, rfl, -⟩
      obtain ⟨rfl, -⟩ := append_eq_nil_iff.1 hs.symm
      exact absurd hend hbit
  | cons y s ih =>
    unfold utf8Loop
    by_cases hbit : leadBits b k &&& 0x40 = 0
    · rw [if_pos hbit]
      constructor
      · intro h
        cases h
        exact ⟨hbit, rfl, [], y :: s, rfl, rfl, rfl, by simp, by simp⟩
      · rintro ⟨-, rfl, ys, t, -, rfl, rfl, -, hbits⟩
        cases ys with
        | nil => rfl
        | cons y ys => exact absurd hbit (hbits 0 (by simp))
    rw [if_neg hbit]
    by_cases hy : y &&& 0xc0 = 0x80
    · simp only [hy, ne_eq, not_true_eq_false, if_false]
      refine ih.trans (and_congr_right fun hend => and_congr_right fun _ => ?_)
      constructor
      · rintro ⟨ys, t, rfl, rfl, rfl, hys, hbits⟩
        refine ⟨y :: ys, t, rfl, by simp; omega, rfl, by simpa [hy] using hys, fun j hj => ?_⟩
        cases j with
        | zero => exact hbit
        | succ j =>
          have h := hbits j (by simpa using hj)
          rwa [Nat.add_right_comm] at h
      · rintro ⟨ys, t, hs, rfl, rfl, hys, hbits⟩
        cases ys with
        | nil => exact absurd hend hbit
        | cons z ys =>
          obtain ⟨rfl, rfl⟩ := List.cons.inj hs
          refine ⟨ys, t, rfl, by simp; omega, rfl, fun z hz => hys z (by simp [hz]), ?_⟩
          intro j hj
          have h := hbits (j + 1) (by simpa using hj)
          rwa [← Nat.add_assoc, Nat.add_right_comm] at h
    · simp only [hy, ne_eq, not_false_eq_true, if_true]
      refine ⟨fun h => by (cases h), ?_⟩
      rintro ⟨hend, -, ys, t, hs, rfl, -, hys, -⟩
      cases ys with
      | nil => exact absurd hend hbit
      | cons z ys =>
        obtain ⟨rfl, -⟩ := List.cons.inj hs
        exact absurd (hys _ (by simp)) hy

theorem tailBits_lt (ys : Bytes) {k : ℕ} {res : UInt32} (h : res.toNat < 64 ^ k)
    (hk : k + ys.length ≤ 5) :
    (tailBits res ys).toNat < 64 ^ (k + ys.length) ∧
      (tailBits res ys).toNat = ys.foldl (fun n y => n * 64 + y.toNat % 64) res.toNat := by
  induction ys generalizing k res with
  | nil => exact ⟨h, rfl⟩
  | cons y ys ih =>
    rw [length_cons] at hk ⊢
    have hpow : 64 ^ k ≤ 64 ^ 4 := Nat.pow_le_pow_right (by norm_num) (by omega)
    have hstep := tailBits_toNat (show res.toNat < 2 ^ 26 by omega) y
    have hnext : (res <<< 6 ||| (y &&& 0x3f).toUInt32).toNat < 64 ^ (k + 1) := by
      omega
    obtain ⟨hlt, hval⟩ := ih hnext (by omega)
    rw [hstep] at hval
    exact ⟨by rwa [Nat.add_right_comm, Nat.add_assoc] at hlt, hval⟩

/-! ## One code point -/

def utf8Value (b : UInt8) (ys : Bytes) : ℕ := b.toNat % 2 ^ (7 - ys.length) * 64 ^ ys.length +
    ys.foldl (fun n y => n * 64 + y.toNat % 64) 0

variable {b : UInt8} {ys : Bytes}

theorem utf8Value_eq (hb : 0x80 ≤ b.toNat) (hk : ys.length ≤ 3) :
    (tailBits 0 ys ||| (leadBits b ys.length &&& 0x7f) <<< UInt32.ofNat (ys.length * 5)).toNat =
      utf8Value b ys := by
  obtain ⟨hlt, hval⟩ := tailBits_lt ys (show (0 : UInt32).toNat < 64 ^ 0 by decide) (by omega)
  have hshift : ((leadBits b ys.length &&& 0x7f) <<< UInt32.ofNat (ys.length * 5)).toNat =
      (b.toNat % 2 ^ (7 - ys.length)) <<< (6 * ys.length) := by
    rw [UInt32.toNat_shiftLeft, (lead_bits b hb _ hk).2]
    generalize ys.length = k at hk
    interval_cases k <;> simp [Nat.shiftLeft_eq] <;> omega
  rw [UInt32.toNat_or, hshift, or_shiftLeft (by rw [pow_mul]; simpa using hlt), utf8Value,
    pow_mul, hval, Nat.add_comm]
  rfl

def utf8Limits : List ℕ := [0xff, 0x7f, 0x7ff, 0xffff]

theorem utf8Value_fits (hb : 0x80 ≤ b.toNat) (hk : ys.length ≤ 3) :
    let res := tailBits 0 ys ||| (leadBits b ys.length &&& 0x7f) <<< UInt32.ofNat (ys.length * 5)
    (3 < ys.length ∨ 0x10ffff < res ∨ res ≤ [0xff, 0x7f, 0x7ff, 0xffff].getD ys.length 0) ↔
      ¬(utf8Value b ys ≤ 0x10ffff ∧ utf8Limits.getD ys.length 0 < utf8Value b ys) := by
  intro res
  have hlimit : ([0xff, 0x7f, 0x7ff, 0xffff].getD ys.length 0 : UInt32).toNat =
      utf8Limits.getD ys.length 0 := by
    generalize ys.length = k at hk
    interval_cases k <;> rfl
  rw [UInt32.lt_iff_toNat_lt, UInt32.le_iff_toNat_le, utf8Value_eq hb hk, hlimit]
  change _ ∨ 0x10ffff < _ ∨ _ ↔ _
  omega

/-- A lead byte and as many bytes that continue it as it says, for a code point in its
shortest form. -/
structure Shortest (b : UInt8) (ys : Bytes) : Prop where
  length : ys.length ≤ 3
  tail : ∀ y ∈ ys, y.toNat / 64 = 2
  lead : b.toNat / 2 ^ (6 - ys.length) = 2 ^ (ys.length + 2) - 2
  max : utf8Value b ys ≤ 0x10ffff
  min : utf8Limits.getD ys.length 0 < utf8Value b ys

theorem utf8Copy_iff (hb : 0x80 ≤ b.toNat) (s : Bytes) {n : ℕ} (hn : n ≠ 0) :
    utf8Copy (b :: s) = n ↔ ∃ ys t, s = ys ++ t ∧ n = ys.length + 1 ∧ Shortest b ys := by
  have hlead : 4294967040 ||| b.toUInt32 = leadBits b 0 := rfl
  rw [utf8Copy, if_neg (by rw [UInt8.lt_iff_toNat_lt]; exact not_lt.2 hb), hlead]
  constructor
  · intro h
    cases hloop : utf8Loop 0 (leadBits b 0) 0 (b :: s) with
    | none => exact absurd (by rw [← h, hloop]) hn
    | some l =>
      obtain ⟨m, c, r⟩ := l
      obtain ⟨hend, rfl, ys, t, rfl, hm, rfl, hys, hbits⟩ := (utf8Loop_iff b).1 hloop
      rw [Nat.zero_add] at hm
      subst hm
      simp only [hloop] at h
      split at h
      · exact absurd h.symm hn
      next hok =>
      have hlen : ys.length ≤ 3 := by omega
      obtain ⟨hmax, hmin⟩ := not_not.1 (mt (utf8Value_fits hb hlen).2 hok)
      exact ⟨ys, t, rfl, h.symm, hlen, fun y hy => (tail_byte y).1.1 (hys y hy),
        (lead_bits b hb _ hlen).1.1 ⟨hend, hbits⟩, hmax, hmin⟩
  · rintro ⟨ys, t, rfl, rfl, hlen, hys, hlast, hmax, hmin⟩
    obtain ⟨hend, hbits⟩ := (lead_bits b hb _ hlen).1.2 hlast
    have hloop := (utf8Loop_iff b (x := b) (s := ys ++ t) (r := tailBits 0 ys) (k := 0)).2
      ⟨hend, rfl, ys, t, rfl, (Nat.zero_add _).symm, rfl,
        fun y hy => (tail_byte y).1.2 (hys y hy), hbits⟩
    simp only [hloop]
    exact if_neg fun h => (utf8Value_fits hb hlen).1 h ⟨hmax, hmin⟩

theorem utf8Encode_value (h : Shortest b ys) : utf8Encode (utf8Value b ys) = b :: ys := by
  have hbyte : ∀ (y : UInt8) (n : ℕ), n = y.toNat → UInt8.ofNat n = y := by
    rintro y _ rfl
    exact UInt8.ofNat_toNat
  obtain ⟨hlen, htail, hlead, -, hmin⟩ := h
  match ys with
  | [] =>
    simp [utf8Value, utf8Limits] at hmin
    omega
  | [y] =>
    simp [utf8Value, utf8Limits] at hmin hlead htail ⊢
    rw [utf8Encode, if_neg (by omega), if_pos (by omega),
      hbyte b _ (by omega), hbyte y _ (by omega)]
  | [y, z] =>
    simp [utf8Value, utf8Limits] at hmin hlead htail ⊢
    rw [utf8Encode, if_neg (by omega), if_neg (by omega), if_pos (by omega),
      hbyte b _ (by omega), hbyte y _ (by omega), hbyte z _ (by omega)]
  | [y, z, w] =>
    simp [utf8Value, utf8Limits] at hmin hlead htail ⊢
    rw [utf8Encode, if_neg (by omega), if_neg (by omega), if_neg (by omega),
      hbyte b _ (by omega), hbyte y _ (by omega), hbyte z _ (by omega), hbyte w _ (by omega)]

theorem utf8Copy_encode {p : ℕ} (hp : p ≤ 0x10ffff) (t : Bytes) :
    utf8Copy (utf8Encode p ++ t) = (utf8Encode p).length := by
  by_cases h1 : p < 0x80
  · rw [utf8Encode, if_pos h1, singleton_append, utf8Copy, if_pos]
    · rfl
    · change p % 256 < 128
      omega
  obtain ⟨b, ys, hp', hb, hys⟩ : ∃ b ys, utf8Encode p = b :: ys ∧ 0x80 ≤ b.toNat ∧
      Shortest b ys := by
    rw [utf8Encode, if_neg h1]
    split_ifs with h2 h3
    all_goals
      refine ⟨_, _, rfl, ?_, ?_, ?_, ?_, ?_, ?_⟩
      all_goals simp [utf8Value, utf8Limits]
      all_goals omega
  rw [hp']
  exact (utf8Copy_iff hb _ (by simp)).2 ⟨ys, t, rfl, rfl, hys⟩

theorem utf8Copy_ne_zero {s : Bytes} (h : utf8Copy s ≠ 0) :
    ∃ p ≤ 0x10ffff, ∃ t, s = utf8Encode p ++ t := by
  cases s with
  | nil => exact absurd rfl h
  | cons b s =>
    by_cases hb : b.toNat < 0x80
    · refine ⟨b.toNat, by omega, s, ?_⟩
      rw [utf8Encode, if_pos hb, UInt8.ofNat_toNat]
      rfl
    obtain ⟨ys, t, rfl, -, hys⟩ := (utf8Copy_iff (not_lt.1 hb) s h).1 rfl
    exact ⟨_, hys.max, t, by rw [utf8Encode_value hys, cons_append]⟩

theorem utf8Encode_length_pos (p : ℕ) : 0 < (utf8Encode p).length := by
  unfold utf8Encode
  split_ifs <;> simp

theorem isUtf8_append {p : ℕ} (hp : p ≤ 0x10ffff) (t : Bytes) :
    IsUtf8 (utf8Encode p ++ t) ↔ IsUtf8 t := by
  constructor
  · rintro ⟨ps, hps, heq⟩
    have hcopy := utf8Copy_encode hp t
    have hpos := utf8Encode_length_pos p
    cases ps with
    | nil =>
      have hlen := congrArg List.length heq
      rw [length_append, flatMap_nil, length_nil] at hlen
      omega
    | cons q ps =>
      rw [flatMap_cons] at heq
      rw [heq, utf8Copy_encode (hps q (by simp))] at hcopy
      obtain ⟨-, rfl⟩ := append_inj heq hcopy.symm
      exact ⟨ps, fun p hp => hps p (mem_cons_of_mem _ hp), rfl⟩
  · rintro ⟨ps, hps, rfl⟩
    exact ⟨p :: ps, forall_mem_cons.2 ⟨hp, hps⟩, rfl⟩

/-- **Exactly the strings that are UTF-8 are copied.** -/
theorem copiesAll_iff {n : ℕ} {s : Bytes} (h : s.length ≤ n) : copiesAll n s = true ↔ IsUtf8 s := by
  induction n generalizing s with
  | zero =>
    obtain rfl := length_eq_zero_iff.1 (Nat.le_zero.1 h)
    exact ⟨fun _ => ⟨[], by simp, rfl⟩, fun _ => rfl⟩
  | succ n ih =>
    unfold copiesAll
    by_cases hs : s.isEmpty
    · obtain rfl := List.isEmpty_iff.1 hs
      exact ⟨fun _ => ⟨[], by simp, rfl⟩, fun _ => rfl⟩
    rw [if_neg hs]
    by_cases hzero : utf8Copy s = 0
    · rw [if_pos hzero]
      refine ⟨fun h => by (cases h), ?_⟩
      rintro ⟨ps, hps, rfl⟩
      cases ps with
      | nil => exact absurd rfl hs
      | cons p ps =>
        have hcopy := utf8Copy_encode (hps p (by simp)) (ps.flatMap utf8Encode)
        rw [← flatMap_cons, hzero] at hcopy
        exact absurd hcopy (utf8Encode_length_pos p).ne
    · obtain ⟨p, hp, t, rfl⟩ := utf8Copy_ne_zero hzero
      have hpos := utf8Encode_length_pos p
      rw [length_append] at h
      rw [if_neg hzero, utf8Copy_encode hp, drop_left, isUtf8_append hp]
      exact ih (by omega)

/-! ## The room for a string -/

structure Doubled (b : BsonBuffer) : Prop where
  inside : (b.bytes.length : ℤ) ≤ b.cap
  power : ∃ j ≤ 30, b.cap = 2 ^ j

theorem Doubled.fits {b : BsonBuffer} (h : Doubled b) : BufferFits b := by
  obtain ⟨hinside, j, hj, hcap⟩ := h
  have hpow : (2 : ℤ) ^ j ≤ 2 ^ 30 := pow_le_pow_right₀ (by norm_num) hj
  exact ⟨hinside, by omega⟩

theorem toInt32_two_pow {j : ℕ} (h : 0 < toInt32 (2 ^ j)) : j ≤ 30 ∧ toInt32 (2 ^ j) = 2 ^ j := by
  obtain hj | rfl | hj : j ≤ 30 ∨ j = 31 ∨ 32 ≤ j := by omega
  · have hpow : (2 : ℤ) ^ j ≤ 2 ^ 30 := pow_le_pow_right₀ (by norm_num) hj
    have hpos : (0 : ℤ) < 2 ^ j := by positivity
    exact ⟨hj, toInt32_eq (by omega) (by omega)⟩
  · unfold toInt32 at h
    exact absurd h (by decide)
  · obtain ⟨k, rfl⟩ := Nat.exists_eq_add_of_le hj
    have hzero : ((2 : ℤ) ^ (32 + k)) % 2 ^ 32 = 0 := by rw [pow_add]; simp
    rw [← toInt32_emod, hzero, toInt32_eq (by norm_num) (by norm_num)] at h
    exact absurd h (lt_irrefl _)

theorem toInt32_double (j : ℕ) : toInt32 (toInt32 (2 ^ j) * 2) = toInt32 (2 ^ (j + 1)) := by
  obtain ⟨-, -, k, hk⟩ := toInt32_spec (2 ^ j)
  rw [hk, ← toInt32_emod, ← toInt32_emod (2 ^ (j + 1)), pow_succ]
  congr 1
  omega

theorem reserveLoop_power {need cap : ℤ} (hneed : 0 ≤ need) {n j : ℕ}
    (h : reserveLoop need n (toInt32 (2 ^ j)) = some cap) : ∃ i ≤ 30, cap = 2 ^ i := by
  induction n generalizing j with
  | zero => cases h
  | succ n ih =>
    unfold reserveLoop at h
    rw [toInt32_double] at h
    split at h
    · exact ih h
    · cases h
      obtain ⟨hi, hval⟩ := toInt32_two_pow (j := j + 1) (by omega)
      exact ⟨j + 1, hi, hval⟩

theorem reserveLoop_some {need : ℤ} (hneed : need < 2 ^ 30) {n j : ℕ} (hj : j < 30)
    (hn : 30 ≤ j + n) : ∃ cap, reserveLoop need n (2 ^ j) = some cap := by
  induction n generalizing j with
  | zero => omega
  | succ n ih =>
    have hpow : (2 : ℤ) ^ (j + 1) ≤ 2 ^ 30 := pow_le_pow_right₀ (by norm_num) hj
    have hpos : (0 : ℤ) < 2 ^ j := by positivity
    have hnext : toInt32 (2 ^ j * 2) = 2 ^ (j + 1) := by
      rw [← pow_succ, toInt32_eq (by omega) (by omega)]
    unfold reserveLoop
    rw [hnext]
    split
    · next hle =>
      have hj' : j + 1 ≠ 30 := by
        intro heq
        rw [heq] at hle
        omega
      exact ih (by omega) (by omega)
    · exact ⟨_, rfl⟩

def HasRoom (b : BsonBuffer) (s : Bytes) : Prop :=
  (b.bytes.length + s.length + 1 : ℤ) < 2 ^ 30 ∨ (b.bytes.length + s.length + 1 : ℤ) ≤ b.cap

variable {b b' : BsonBuffer} {s : Bytes}

theorem bsonReserve_eq (sz : ℤ) (b : BsonBuffer) : bsonReserve sz b =
    if toInt32 (b.bytes.length + toInt32 sz) ≤ b.cap then .ok () b
    else
      match reserveLoop (toInt32 (b.bytes.length + toInt32 sz)) 32 b.cap with
      | none => .error .endless b
      | some cap => .ok () { b with cap := cap } := by
  change (if _ then (pure () : BsonWrite Unit) else _) b = _
  split_ifs
  · rfl
  · cases reserveLoop (toInt32 (b.bytes.length + toInt32 sz)) 32 b.cap with
    | none => rfl
    | some cap => rfl

theorem bsonPut_eq (bytes : Bytes) (b : BsonBuffer) : bsonPut bytes b =
    if b.bytes.length + bytes.length ≤ b.cap then .ok () { b with bytes := b.bytes ++ bytes }
    else .error .outside b := by
  change (if _ then _ else _ : BsonWrite Unit) b = _
  split_ifs
  · rfl
  · rfl

theorem reserve_room (hb : Doubled b) (h : HasRoom b s) :
    ∃ b', bsonReserve (s.length + 1) b = .ok () b' ∧ b'.bytes = b.bytes ∧
      (b.bytes.length + s.length + 1 : ℤ) ≤ b'.cap := by
  obtain ⟨hinside, j, hj, hcap⟩ := hb
  have hpow : (2 : ℤ) ^ j ≤ 2 ^ 30 := pow_le_pow_right₀ (by norm_num) hj
  have hneed : toInt32 (b.bytes.length + toInt32 (s.length + 1)) =
      b.bytes.length + s.length + 1 := by
    unfold HasRoom at h
    rw [toInt32_eq (v := s.length + 1) (by omega) (by omega), toInt32_eq (by omega) (by omega)]
    omega
  rw [bsonReserve_eq, hneed]
  by_cases hle : (b.bytes.length + s.length + 1 : ℤ) ≤ b.cap
  · exact ⟨b, if_pos hle, rfl, hle⟩
  · have hlt := h.resolve_right hle
    have hj' : j ≠ 30 := by
      rintro rfl
      omega
    obtain ⟨cap, hloop⟩ := reserveLoop_some hlt (show j < 30 by omega) (show 30 ≤ j + 32 by omega)
    refine ⟨{ b with cap := cap }, ?_, rfl, (reserveLoop_spec hloop).1.le⟩
    rw [if_neg hle, hcap, hloop]

theorem writeString_eq (s : Bytes) (b : BsonBuffer) : writeString s b =
    match bsonReserve (s.length + 1) b with
    | .ok () b' =>
      if copiesAll s.length s then bsonPut (s ++ [0]) b' else .error (.lua .utf8) b'
    | .error e b' => .error e b' := by
  change EStateM.bind _ _ b = _
  unfold EStateM.bind
  cases bsonReserve (s.length + 1) b with
  | error e b' => rfl
  | ok _ b' =>
    split_ifs
    · rfl
    · rfl

/-- The buffer stays doubled, and has the room that was asked for if it grew. -/
theorem doubled_reserve {sz : ℤ} (hb : Doubled b) (h : bsonReserve sz b = .ok () b') :
    Doubled b' ∧ b'.bytes = b.bytes ∧
      (b' = b ∨ toInt32 (b.bytes.length + toInt32 sz) < b'.cap) := by
  obtain ⟨hinside, j, hj, hcap⟩ := id hb
  have hpow : (2 : ℤ) ^ j ≤ 2 ^ 30 := pow_le_pow_right₀ (by norm_num) hj
  rw [bsonReserve_eq] at h
  generalize toInt32 (b.bytes.length + toInt32 sz) = need at h ⊢
  split_ifs at h with hneed
  · cases h
    exact ⟨hb, rfl, .inl rfl⟩
  · cases hloop : reserveLoop need 32 b.cap with
    | none =>
      rw [hloop] at h
      cases h
    | some cap =>
      rw [hloop] at h
      cases h
      have hlt := (reserveLoop_spec hloop).1
      rw [hcap, ← toInt32_eq (v := 2 ^ j) (by omega) (by omega)] at hloop
      exact ⟨⟨by simp only; omega, reserveLoop_power (by omega) hloop⟩, rfl, .inr hlt⟩

theorem written_string (hb : Doubled b) (h : writeString s b = .ok () b') :
    HasRoom b s ∧ Doubled b' ∧ b'.bytes = b.bytes ++ (s ++ [0]) := by
  obtain ⟨_, b₁, hreserve, h⟩ := write_bind.1 h
  obtain ⟨⟨-, j, hj, hcap⟩, hbytes, hgrown⟩ := doubled_reserve hb hreserve
  have hpow : (2 : ℤ) ^ j ≤ 2 ^ 30 := pow_le_pow_right₀ (by norm_num) hj
  split_ifs at h
  · rw [bsonPut_eq] at h
    split_ifs at h with hroom
    cases h
    rw [hbytes, length_append, length_singleton] at hroom
    refine ⟨?_, ⟨by simpa [hbytes] using hroom, j, hj, hcap⟩, by rw [hbytes]⟩
    obtain rfl | hlt := hgrown
    · exact .inr (by omega)
    · rw [toInt32_eq (v := s.length + 1) (by omega) (by omega),
        toInt32_eq (by omega) (by omega)] at hlt
      exact .inl (by omega)
  · cases h

/-! ## What `write_string` does -/

/-- What the encoder is to do with a string: copy it with its length in front and a zero
behind if it is UTF-8, and fail if not. -/
structure StringWritten (s : Bytes) (b : BsonBuffer) : Prop where
  copied : IsUtf8 s → ∃ b', writeString s b = .ok () b' ∧ Doubled b' ∧
    b'.bytes = b.bytes ++ (s ++ [0])
  refused : ¬IsUtf8 s → ∃ b', writeString s b = .error (.lua .utf8) b'
  length : ∀ b', (do
    let off ← reserveLength
    writeString s
    writeLength (s.length + 1) off : BsonWrite Unit) b = .ok () b' →
    b'.bytes = b.bytes ++ (leBytes 4 (s.length + 1) ++ (s ++ [0]))

/-- Where the sum does not wrap, a string gets as far as being refused only with the room. -/
theorem refused_room (hb : Doubled b) (hsum : (b.bytes.length + s.length + 1 : ℤ) < 2 ^ 31)
    (h : writeString s b = .error (.lua .utf8) b') : HasRoom b s := by
  have hneed : toInt32 (b.bytes.length + toInt32 (s.length + 1)) =
      b.bytes.length + s.length + 1 := by
    rw [toInt32_eq (v := s.length + 1) (by omega) (by omega), toInt32_eq (by omega) (by omega)]
    omega
  rw [writeString_eq] at h
  cases hreserve : bsonReserve (s.length + 1) b with
  | error e b₁ =>
    rw [hreserve] at h
    cases h
    rw [bsonReserve_eq] at hreserve
    split_ifs at hreserve
    cases hloop : reserveLoop (toInt32 (b.bytes.length + toInt32 (s.length + 1))) 32 b.cap with
    | none =>
      rw [hloop] at hreserve
      cases hreserve
    | some cap =>
      rw [hloop] at hreserve
      cases hreserve
  | ok _ b₁ =>
    obtain ⟨⟨-, k, hk, hcap'⟩, -, rfl | hlt⟩ := doubled_reserve hb hreserve
    · rw [bsonReserve_eq, hneed] at hreserve
      split_ifs at hreserve with hle
      · exact .inr hle
      · cases hloop : reserveLoop (b₁.bytes.length + s.length + 1) 32 b₁.cap with
        | none =>
          rw [hloop] at hreserve
          cases hreserve
        | some cap =>
          rw [hloop] at hreserve
          have hlt := (reserveLoop_spec hloop).1
          have hsame : cap = b₁.cap := by
            injection hreserve with _ hb'
            exact congrArg BsonBuffer.cap hb'
          exact .inr (by omega)
    · rw [hneed] at hlt
      have hpow' : (2 : ℤ) ^ k ≤ 2 ^ 30 := pow_le_pow_right₀ (by norm_num) hk
      exact .inl (by omega)

/-- **A string is written as it is exactly if it is UTF-8**, in every buffer that has the room or
can make it: an `int` counts the room, so from `2 ^ 30` bytes on `bson_reserve` never returns, and
from `2 ^ 31` bytes on it makes no room.
SRC: lua-bson.c:80-93, 178-222, 233-249 -/
theorem string_written_iff (hb : Doubled b) (s : Bytes) :
    (copiesAll s.length s = true ↔ IsUtf8 s) ∧ (HasRoom b s → StringWritten s b) ∧
      (IsUtf8 s ∨ (b.bytes.length + s.length + 1 : ℤ) < 2 ^ 31 →
        (StringWritten s b ↔ HasRoom b s)) := by
  have hcopies : copiesAll s.length s = true ↔ IsUtf8 s := copiesAll_iff le_rfl
  have hwritten : HasRoom b s → StringWritten s b := by
    intro hroom
    obtain ⟨b₁, hreserve, hbytes, hle⟩ := reserve_room hb hroom
    refine ⟨fun hs => ?_, fun hs => ?_, fun b' h => ?_⟩
    · have hwrite : writeString s b = .ok () { b₁ with bytes := b₁.bytes ++ (s ++ [0]) } := by
        rw [writeString_eq, hreserve]
        simp only
        rw [if_pos (hcopies.2 hs), bsonPut_eq, if_pos]
        rw [hbytes, length_append, length_singleton]
        omega
      exact ⟨_, hwrite, (written_string hb hwrite).2⟩
    · exact ⟨b₁, by rw [writeString_eq, hreserve]; exact if_neg (mt hcopies.1 hs)⟩
    · have hlength := grows_length (grows_string s) (fun _ _ => (s.length : ℤ) + 1)
        (fun x => (x.length : ℤ)) (fun _ _ hx _ => by rw [hx]; simp)
      obtain ⟨-, x, hx, y, rfl, rfl⟩ := hlength hb.fits h
      rw [hx, leBytes_length, length_append, length_singleton]
  refine ⟨hcopies, hwritten, fun hcase => ⟨fun h => ?_, hwritten⟩⟩
  by_cases hs : IsUtf8 s
  · obtain ⟨b', hwrite, -⟩ := h.copied hs
    exact (written_string hb hwrite).1
  · obtain ⟨b', hwrite⟩ := h.refused hs
    exact refused_room hb (hcase.resolve_left hs) hwrite

/-- The word "é" behind nothing, and a byte that begins nothing. -/
theorem string_written_accent :
    StringWritten [0xc3, 0xa9] ⟨[], 64⟩ ∧ StringWritten [0xff] ⟨[], 64⟩ :=
  have hb : Doubled ⟨[], 64⟩ := ⟨by decide, 6, by decide, rfl⟩
  ⟨(string_written_iff hb [0xc3, 0xa9]).2.1 (.inl (by decide)),
    (string_written_iff hb [0xff]).2.1 (.inl (by decide))⟩

theorem isUtf8_ascii {s : Bytes} (h : ∀ b ∈ s, b.toNat < 0x80) : IsUtf8 s := by
  induction s with
  | nil => exact ⟨[], by simp, rfl⟩
  | cons b s ih =>
    obtain ⟨hb, hs⟩ := forall_mem_cons.1 h
    have hone : utf8Encode b.toNat = [b] := by rw [utf8Encode, if_pos hb, UInt8.ofNat_toNat]
    rw [← singleton_append, ← hone, isUtf8_append (by omega)]
    exact ih hs

/-- **A string of one gibibyte is never written**: the capacity wraps around to zero. -/
theorem gibibyte_never_written : IsUtf8 (replicate (2 ^ 30) 0x61) ∧
    writeString (replicate (2 ^ 30) 0x61) ⟨[], 64⟩ = .error .endless ⟨[], 64⟩ := by
  refine ⟨isUtf8_ascii fun b hb => ?_, ?_⟩
  · rw [eq_of_mem_replicate hb]
    decide
  · have hloop : reserveLoop (2 ^ 30 + 1) 32 64 = none := by decide +kernel
    have hneed : toInt32 ((0 : ℕ) + toInt32 ((2 ^ 30 : ℕ) + 1)) = 2 ^ 30 + 1 := by decide +kernel
    rw [writeString_eq, bsonReserve_eq, length_replicate]
    simp only [length_nil]
    rw [hneed, if_neg (by norm_num), hloop]

end Skynet.Analysis
