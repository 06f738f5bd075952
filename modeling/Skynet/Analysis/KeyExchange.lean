import Mathlib.Data.Nat.ModEq
import Skynet.Model.CryptDh

/-!
# The key exchange agrees

Each turn of the multiplication keeps its numbers below the prime and their product, so the
words hold residues throughout; powers of these are powers modulo the prime, and both sides of
an exchange get the same one.
-/

namespace Skynet.Analysis

open Library Model CryptDh Nat

variable {m a b : UInt64} {s : MulState}

def prime : ℕ := 18446744073709551557

theorem toNat_P : P.toNat = prime := rfl

theorem prime_pos : 0 < prime := by
  unfold prime
  omega

theorem toNat_sub_P (ha : a.toNat < prime) : (P - a).toNat = prime - a.toNat := by
  rw [UInt64.toNat_sub_of_le, toNat_P]
  exact ha.le

theorem addA_spec (hm : m.toNat < prime) (ha : a.toNat < prime) :
    (addA m a).toNat = (m.toNat + a.toNat) % prime := by
  have ht := toNat_sub_P ha
  have hword : prime < 2 ^ 64 := by decide
  unfold addA
  dsimp only
  split
  · next hge =>
    have hge' := UInt64.le_iff_toNat_le.mp hge
    rw [UInt64.toNat_sub_of_le _ _ hge, ht]
    have hsum : m.toNat + a.toNat = m.toNat - (prime - a.toNat) + prime := by omega
    rw [hsum, add_mod_right, mod_eq_of_lt]
    omega
  · next hlt =>
    have hlt' := UInt64.lt_iff_toNat_lt.mp (UInt64.not_le.mp hlt)
    have hsum : m.toNat + a.toNat < prime := by omega
    rw [UInt64.toNat_add, mod_eq_of_lt (hsum.trans hword), mod_eq_of_lt hsum]

theorem doubleA_spec (ha : a.toNat < prime) : (doubleA a).toNat = 2 * a.toNat % prime := by
  have ht := toNat_sub_P ha
  have hprime : prime = 18446744073709551557 := rfl
  have htwo : (2 : UInt64).toNat = 2 := rfl
  unfold doubleA
  split
  · next hge =>
    have hge' := UInt64.le_iff_toNat_le.mp hge
    rw [UInt64.toNat_sub, UInt64.toNat_mul, toNat_P, htwo]
    have hsum : 2 * a.toNat = 2 * a.toNat - prime + prime := by omega
    rw [hsum, add_mod_right, mod_eq_of_lt (a := 2 * a.toNat - prime) (by omega)]
    omega
  · next hlt =>
    have hlt' := UInt64.lt_iff_toNat_lt.mp (UInt64.not_le.mp hlt)
    rw [UInt64.toNat_mul, htwo, mod_eq_of_lt (by omega), mod_eq_of_lt (by omega)]
    omega

/-! ## Products -/

structure Residues (s : MulState) : Prop where
  m : s.m.toNat < prime
  a : s.a.toNat < prime

theorem toNat_shift (b : UInt64) : (b >>> 1).toNat = b.toNat / 2 := by
  exact shiftRight_one _

theorem toNat_and_one (b : UInt64) : (b &&& 1).toNat = b.toNat % 2 := by
  exact and_one_is_mod _

theorem mulTurn_m (h : Residues s) :
    (mulTurn s).m.toNat = (s.m.toNat + s.b.toNat % 2 * s.a.toNat) % prime := by
  have hbit := toNat_and_one s.b
  change (if s.b &&& 1 ≠ 0 then addA s.m s.a else s.m).toNat = _
  split
  · next hne =>
    have hodd : s.b.toNat % 2 = 1 := by
      have hpos : (s.b &&& 1).toNat ≠ 0 := fun hzero => hne (UInt64.toNat_inj.mp hzero)
      omega
    rw [addA_spec h.m h.a, hodd, Nat.one_mul]
  · next heq =>
    have heven : s.b.toNat % 2 = 0 := by
      rw [← hbit, not_not.mp heq]
      rfl
    rw [heven, zero_mul, Nat.add_zero, mod_eq_of_lt h.m]

theorem mulTurn_a (h : Residues s) : (mulTurn s).a.toNat = 2 * s.a.toNat % prime := by
  simp only [mulTurn, doubleA_spec h.a]

theorem mulTurn_residues (h : Residues s) : Residues (mulTurn s) := by
  refine ⟨?_, ?_⟩
  · rw [mulTurn_m h]
    exact mod_lt _ prime_pos
  · rw [mulTurn_a h]
    exact mod_lt _ prime_pos

theorem mulTurn_product (h : Residues s) :
    (mulTurn s).m.toNat + (mulTurn s).a.toNat * (mulTurn s).b.toNat ≡
      s.m.toNat + s.a.toNat * s.b.toNat [MOD prime] := by
  have hb : (mulTurn s).b.toNat = s.b.toNat / 2 := toNat_shift s.b
  have hbits : s.b.toNat = 2 * (s.b.toNat / 2) + s.b.toNat % 2 := (div_add_mod _ 2).symm
  rw [mulTurn_m h, mulTurn_a h, hb]
  calc (s.m.toNat + s.b.toNat % 2 * s.a.toNat) % prime + 2 * s.a.toNat % prime * (s.b.toNat / 2)
      ≡ s.m.toNat + s.b.toNat % 2 * s.a.toNat + 2 * s.a.toNat * (s.b.toNat / 2) [MOD prime] :=
        (mod_modEq _ _).add ((mod_modEq _ _).mul_right _)
    _ = s.m.toNat + s.a.toNat * (2 * (s.b.toNat / 2) + s.b.toNat % 2) := by ring
    _ = s.m.toNat + s.a.toNat * s.b.toNat := by rw [← hbits]

theorem mulLoop_spec (h : Residues s) :
    (mulLoop s).toNat = (s.m.toNat + s.a.toNat * s.b.toNat) % prime := by
  induction s using mulLoop.induct with
  | case1 s hzero =>
    rw [mulLoop, if_pos hzero, hzero]
    change s.m.toNat = (s.m.toNat + s.a.toNat * 0) % prime
    rw [mul_zero, Nat.add_zero, mod_eq_of_lt h.m]
  | case2 s hne ih =>
    rw [mulLoop, if_neg hne, ih (mulTurn_residues h)]
    exact mulTurn_product h

/-- **Multiplication** modulo the prime. -/
theorem mulModP_spec (ha : a.toNat < prime) (b : UInt64) :
    (mulModP a b).toNat = a.toNat * b.toNat % prime := by
  have hres : Residues ⟨0, a, b⟩ := ⟨prime_pos, ha⟩
  have hzero : (0 : UInt64).toNat = 0 := rfl
  rw [mulModP, mulLoop_spec hres]
  simp only [hzero, Nat.zero_add]

/-! ## Powers -/

/-- **Powers** modulo the prime. -/
theorem powModP_spec (ha : a.toNat < prime) (hb : b ≠ 0) :
    ∃ r, powModP a b = .ok r ∧ r.toNat = a.toNat ^ b.toNat % prime := by
  induction b using powModP.induct with
  | case1 => exact absurd rfl hb
  | case2 =>
    refine ⟨a, ?_, ?_⟩
    · rw [powModP, if_neg hb, if_pos rfl]
    · change a.toNat = a.toNat ^ 1 % prime
      rw [Nat.pow_one, mod_eq_of_lt ha]
  | case3 b hzero hone ih =>
    have hne : b >>> 1 ≠ 0 := by
      intro hshift
      have hhalf := toNat_shift b
      rw [hshift] at hhalf
      have hpos : b.toNat ≠ 0 := fun h => hzero (UInt64.toNat_inj.mp h)
      have hnot : b.toNat ≠ 1 := fun h => hone (UInt64.toNat_inj.mp h)
      change 0 = b.toNat / 2 at hhalf
      omega
    obtain ⟨t, ht, htspec⟩ := ih hne
    have hlt : t.toNat < prime := htspec ▸ mod_lt _ prime_pos
    have hsquare : (mulModP t t).toNat = a.toNat ^ (b.toNat / 2 * 2) % prime := by
      rw [mulModP_spec hlt, htspec, ← mul_mod, ← Nat.pow_two, ← Nat.pow_mul, toNat_shift]
    have hslt : (mulModP t t).toNat < prime := hsquare ▸ mod_lt _ prime_pos
    refine ⟨if b % 2 ≠ 0 then mulModP (mulModP t t) a else mulModP t t, ?_, ?_⟩
    · rw [powModP, if_neg hzero, if_neg hone, ht]
      rfl
    · have hbit : (b % 2).toNat = b.toNat % 2 := UInt64.toNat_mod b 2
      split
      · next hodd =>
        have hone' : b.toNat % 2 = 1 := by
          have : (b % 2).toNat ≠ 0 := fun h => hodd (UInt64.toNat_inj.mp h)
          omega
        rw [mulModP_spec hslt, hsquare, mod_mul_mod, ← Nat.pow_succ]
        congr 2
        omega
      · next heven =>
        have hzero' : b.toNat % 2 = 0 := by
          rw [← hbit, not_not.mp heven]
          rfl
        rw [hsquare]
        congr 2
        omega

theorem powmodp_spec (ha : a.toNat < prime) (hb : b ≠ 0) :
    ∃ r, powmodp a b = .ok r ∧ r.toNat = a.toNat ^ b.toNat % prime := by
  have hle : ¬a > P := by
    rw [gt_iff_lt, UInt64.lt_iff_toNat_lt, toNat_P]
    omega
  rw [powmodp, if_neg hle]
  exact powModP_spec ha hb

theorem generator_power_ne_zero (n : ℕ) : G.toNat ^ n % prime ≠ 0 := by
  intro hzero
  have hcoprime : Coprime prime (5 ^ n) := Coprime.pow_right n (by decide)
  have hdvd : prime ∣ 5 ^ n := dvd_of_mod_eq_zero hzero
  have hone := eq_one_of_dvd_coprimes hcoprime dvd_rfl hdvd
  exact absurd hone (by decide)

theorem exchange_spec (ha : a ≠ 0) (hb : b ≠ 0) :
    ∃ p r, powmodp G a = .ok p ∧ p ≠ 0 ∧ powmodp p b = .ok r ∧
      r.toNat = G.toNat ^ (a.toNat * b.toNat) % prime := by
  obtain ⟨p, hp, hpspec⟩ := powmodp_spec (a := G) (by decide) ha
  have hlt : p.toNat < prime := hpspec ▸ mod_lt _ prime_pos
  obtain ⟨r, hr, hrspec⟩ := powmodp_spec hlt hb
  refine ⟨p, r, hp, ?_, hr, ?_⟩
  · rintro rfl
    exact generator_power_ne_zero _ hpspec.symm
  · rw [hrspec, hpspec, ← pow_mod, ← Nat.pow_mul]

/-! ## The exchange -/

theorem word64_push64 (r : UInt64) : word64 (push64 r) = r := by
  have hlt : r.toNat < 256 ^ 8 := r.toNat_lt
  rw [word64, push64, leNat_leBytes_of_lt hlt, UInt64.ofNat_toNat]

theorem dhexchange_ok {x px : Bytes} (h : dhexchange x = .ok px) :
    x.length = 8 ∧ word64 x ≠ 0 ∧ ∃ p, powmodp G (word64 x) = .ok p ∧ px = push64 p := by
  unfold dhexchange at h
  split at h
  · nomatch h
  · next hlen =>
    split at h
    · nomatch h
    · next hne =>
      cases hp : powmodp G (word64 x) with
      | error e =>
        rw [hp] at h
        nomatch h
      | ok p =>
        rw [hp] at h
        exact ⟨not_not.mp hlen, hne, p, rfl, (Except.ok.inj h).symm⟩

theorem dhsecret_eq {x y : Bytes} {r : UInt64} (hx : x.length = 8) (hy : y.length = 8)
    (hx0 : word64 x ≠ 0) (hy0 : word64 y ≠ 0) (h : powmodp (word64 x) (word64 y) = .ok r) :
    dhsecret x y = .ok (push64 r) := by
  rw [dhsecret, if_neg (not_not.mpr hx), if_neg (not_not.mpr hy), if_neg (by tauto), h]
  rfl

theorem dhsecret_exchange {x y px : Bytes} (hx : dhexchange x = .ok px)
    (hy : y.length = 8) (hy0 : word64 y ≠ 0) :
    ∃ r, dhsecret px y = .ok (push64 r) ∧
      r.toNat = G.toNat ^ ((word64 x).toNat * (word64 y).toNat) % prime := by
  obtain ⟨-, hx0, p, hp, rfl⟩ := dhexchange_ok hx
  obtain ⟨p', r, hp', hne, hr, hspec⟩ := exchange_spec hx0 hy0
  obtain rfl := Except.ok.inj (hp.symm.trans hp')
  refine ⟨r, ?_, hspec⟩
  refine dhsecret_eq (length_leBytes 8 _) hy ?_ hy0 ?_ <;> rwa [word64_push64]

/-- **The key exchange agrees.**  In the multiplication of two residues all numbers are
residues, each the one that it should be, and so is the product; two secrets that are not zero
give public values that are not zero, and the same secret on both sides; and so do
`dhexchange` and `dhsecret`, with every secret that they take. -/
theorem key_exchange_agrees :
    (∀ a b : UInt64, a.toNat < P.toNat → b.toNat < P.toNat →
      (mulModP a b).toNat = a.toNat * b.toNat % P.toNat ∧
      ∀ n, let s := mulTurn^[n] ⟨0, a, b⟩
        (mulTurn s).m.toNat = (s.m.toNat + s.b.toNat % 2 * s.a.toNat) % P.toNat ∧
        (mulTurn s).a.toNat = 2 * s.a.toNat % P.toNat) ∧
    (∀ a b : UInt64, a ≠ 0 → b ≠ 0 → ∃ pa pb r,
      powmodp G a = .ok pa ∧ powmodp G b = .ok pb ∧ pa ≠ 0 ∧ pb ≠ 0 ∧
      powmodp pa b = .ok r ∧ powmodp pb a = .ok r) ∧
    ∀ x y px py, dhexchange x = .ok px → dhexchange y = .ok py →
      ∃ secret, dhsecret px y = .ok secret ∧ dhsecret py x = .ok secret := by
  refine ⟨fun a b ha hb => ⟨mulModP_spec ha b, fun n => ?_⟩, fun a b ha hb => ?_,
    fun x y px py hx hy => ?_⟩
  · have hres : Residues (mulTurn^[n] ⟨0, a, b⟩) := by
      induction n with
      | zero => exact ⟨prime_pos, ha⟩
      | succ n ih =>
        rw [Function.iterate_succ_apply']
        exact mulTurn_residues ih
    exact ⟨mulTurn_m hres, mulTurn_a hres⟩
  · obtain ⟨pa, r, hpa, hpa0, hr, hspec⟩ := exchange_spec ha hb
    obtain ⟨pb, r', hpb, hpb0, hr', hspec'⟩ := exchange_spec hb ha
    have heq : r' = r := by
      rw [← UInt64.toNat_inj, hspec, hspec', Nat.mul_comm]
    exact ⟨pa, pb, r, hpa, hpb, hpa0, hpb0, hr, heq ▸ hr'⟩
  · obtain ⟨hx8, hx0, -⟩ := dhexchange_ok hx
    obtain ⟨hy8, hy0, -⟩ := dhexchange_ok hy
    obtain ⟨r, hr, hspec⟩ := dhsecret_exchange hx hy8 hy0
    obtain ⟨r', hr', hspec'⟩ := dhsecret_exchange hy hx8 hx0
    have heq : r' = r := by
      rw [← UInt64.toNat_inj, hspec, hspec', Nat.mul_comm]
    exact ⟨push64 r, hr, heq ▸ hr'⟩

end Skynet.Analysis
