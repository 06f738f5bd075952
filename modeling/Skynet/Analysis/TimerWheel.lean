import Skynet.Library.LittleEndian
import Skynet.Model.Timer

/-!
# Where a node stands on the wheel

`place expire time` is the list `add_node` links a node to, and `cascade ct` the list
`timer_shift` re-links when the counter becomes `ct`, both as arithmetic.  A node that is
linked always stands where it would be linked now: the list that is re-linked holds
exactly the nodes whose place changes, and the lists it is spread over are empty.
-/

namespace Skynet.Analysis

open Library Model Function

inductive WheelSlot
  | near (idx : ℕ)
  | level (i idx : ℕ)
  deriving DecidableEq

def place (expire time : ℕ) : WheelSlot :=
  if expire / 2 ^ 8 = time / 2 ^ 8 then .near (expire % 2 ^ 8)
  else if expire / 2 ^ 14 = time / 2 ^ 14 then .level 0 (expire / 2 ^ 8 % 2 ^ 6)
  else if expire / 2 ^ 20 = time / 2 ^ 20 then .level 1 (expire / 2 ^ 14 % 2 ^ 6)
  else if expire / 2 ^ 26 = time / 2 ^ 26 then .level 2 (expire / 2 ^ 20 % 2 ^ 6)
  else .level 3 (expire / 2 ^ 26 % 2 ^ 6)

/-- The list `timer_shift` re-links when the counter becomes `ct`: the lowest level at
which `ct` has an index other than 0, and the top level when there is none. -/
def cascade (ct : ℕ) : Option WheelSlot :=
  if ct % 2 ^ 8 ≠ 0 then none
  else if ct / 2 ^ 8 % 2 ^ 6 ≠ 0 then some (.level 0 (ct / 2 ^ 8 % 2 ^ 6))
  else if ct / 2 ^ 14 % 2 ^ 6 ≠ 0 then some (.level 1 (ct / 2 ^ 14 % 2 ^ 6))
  else if ct / 2 ^ 20 % 2 ^ 6 ≠ 0 then some (.level 2 (ct / 2 ^ 20 % 2 ^ 6))
  else some (.level 3 (ct / 2 ^ 26 % 2 ^ 6))

section Lists

variable {ε : Type}

def wheelList (T : Timer ε) : WheelSlot → List (TimerNode ε)
  | .near idx => T.near idx
  | .level i idx => T.t i idx

def setList (T : Timer ε) (slot : WheelSlot) (l : List (TimerNode ε)) : Timer ε :=
  match slot with
  | .near idx => { T with near := update T.near idx l }
  | .level i idx => { T with t := update T.t i (update (T.t i) idx l) }

@[simp] theorem setList_time (T : Timer ε) (slot : WheelSlot) (l : List (TimerNode ε)) :
    (setList T slot l).time = T.time := by
  cases slot <;> rfl

theorem wheelList_setList (T : Timer ε) (slot slot' : WheelSlot) (l : List (TimerNode ε)) :
    wheelList (setList T slot l) slot' = if slot' = slot then l else wheelList T slot' := by
  cases slot with
  | near idx =>
    cases slot' with
    | near idx' => simp [setList, wheelList, update_apply]
    | level i' idx' => simp [setList, wheelList]
  | level i idx =>
    cases slot' with
    | near idx' => simp [setList, wheelList]
    | level i' idx' =>
      simp only [setList, wheelList, update_apply, WheelSlot.level.injEq]
      by_cases hi : i' = i
      · subst hi
        simp [update_apply]
      · simp [hi]

theorem and_timeLevelMask (x : ℕ) : x &&& timeLevelMask = x % 2 ^ 6 :=
  Nat.and_two_pow_sub_one_eq_mod x 6

theorem and_timeNearMask (x : ℕ) : x &&& timeNearMask = x % 2 ^ 8 :=
  Nat.and_two_pow_sub_one_eq_mod x 8

/-- **`add_node`** links the node at the end of the list of its place.
SRC: skynet_timer.c:67-86 -/
theorem addNode_eq (T : Timer ε) (node : TimerNode ε) :
    addNode T node = setList T (place node.expire T.time)
      (wheelList T (place node.expire T.time) ++ [node]) := by
  have hnear : node.expire ||| timeNearMask = T.time ||| timeNearMask ↔
      node.expire / 2 ^ 8 = T.time / 2 ^ 8 := or_lowOnes_eq_iff _ _ 8
  have hlevel : ∀ k, node.expire ||| (2 ^ k - 1) = T.time ||| (2 ^ k - 1) ↔
      node.expire / 2 ^ k = T.time / 2 ^ k := or_lowOnes_eq_iff _ _
  have hmask : timeNear <<< timeLevelShift = 2 ^ 14 := rfl
  have hmask1 : 2 ^ 14 <<< timeLevelShift % 2 ^ 32 = 2 ^ 20 := rfl
  have hmask2 : 2 ^ 20 <<< timeLevelShift % 2 ^ 32 = 2 ^ 26 := rfl
  simp only [addNode, addLevel, hmask, hmask1, hmask2, hnear, hlevel, and_timeLevelMask,
    and_timeNearMask, Nat.shiftRight_eq_div_pow, link, place]
  split
  · rfl
  split
  · rfl
  split
  · rfl
  split <;> rfl

@[simp] theorem addNode_time (T : Timer ε) (node : TimerNode ε) :
    (addNode T node).time = T.time := by
  rw [addNode_eq, setList_time]

/-- Linking a whole list gives every list of the wheel the nodes whose place it is, in
their order. -/
theorem foldl_addNode (l : List (TimerNode ε)) (T : Timer ε) :
    (l.foldl addNode T).time = T.time ∧ ∀ slot, wheelList (l.foldl addNode T) slot =
      wheelList T slot ++ l.filter fun n => place n.expire T.time = slot := by
  induction l generalizing T with
  | nil => simp
  | cons node l ih =>
    obtain ⟨htime, hlists⟩ := ih (addNode T node)
    rw [addNode_time] at htime
    refine ⟨htime, fun slot => ?_⟩
    rw [List.foldl_cons, hlists, addNode_time, addNode_eq, wheelList_setList]
    by_cases hslot : place node.expire T.time = slot
    · subst hslot
      simp
    · simp [hslot, Ne.symm hslot]

/-- **`timer_shift`** advances the counter and re-links the list `cascade` names.
SRC: skynet_timer.c:112-132 -/
theorem timerShift_eq (T : Timer ε) :
    timerShift T = match cascade ((T.time + 1) % 2 ^ 32) with
      | none => { T with time := (T.time + 1) % 2 ^ 32 }
      | some slot => (wheelList T slot).foldl addNode
          (setList { T with time := (T.time + 1) % 2 ^ 32 } slot []) := by
  have hct : (T.time + 1) % 2 ^ 32 < 2 ^ 32 := Nat.mod_lt _ (by decide)
  rw [timerShift]
  generalize (T.time + 1) % 2 ^ 32 = ct at hct ⊢
  by_cases hzero : ct = 0
  · subst hzero
    rfl
  have hand : ∀ k, ct &&& (2 ^ k - 1) = ct % 2 ^ k := Nat.and_two_pow_sub_one_eq_mod ct
  have hmask : timeNear = 2 ^ 8 := rfl
  have hmask1 : 2 ^ 8 <<< timeLevelShift = 2 ^ 14 := rfl
  have hmask2 : 2 ^ 14 <<< timeLevelShift = 2 ^ 20 := rfl
  have hmask3 : 2 ^ 20 <<< timeLevelShift = 2 ^ 26 := rfl
  have hshift0 : ct >>> timeNearShift = ct / 2 ^ 8 := Nat.shiftRight_eq_div_pow _ _
  have hshift1 : (ct / 2 ^ 8) >>> timeLevelShift = ct / 2 ^ 14 := by
    rw [Nat.shiftRight_eq_div_pow, Nat.div_div_eq_div_mul]
    rfl
  have hshift2 : (ct / 2 ^ 14) >>> timeLevelShift = ct / 2 ^ 20 := by
    rw [Nat.shiftRight_eq_div_pow, Nat.div_div_eq_div_mul]
    rfl
  have hshift3 : (ct / 2 ^ 20) >>> timeLevelShift = ct / 2 ^ 26 := by
    rw [Nat.shiftRight_eq_div_pow, Nat.div_div_eq_div_mul]
    rfl
  simp only [hzero, if_false, shiftLoop, hmask, hmask1, hmask2, hmask3, hand, hshift0, hshift1,
    hshift2, hshift3, and_timeLevelMask]
  unfold cascade
  split
  swap
  · rfl
  next h8 =>
  rw [if_neg (not_not_intro h8)]
  split
  · rfl
  rw [if_pos (show ct % 2 ^ 14 = 0 by omega)]
  split
  · rfl
  rw [if_pos (show ct % 2 ^ 20 = 0 by omega)]
  split
  · rfl
  rw [if_pos (show ct % 2 ^ 26 = 0 by omega), if_pos (show ct / 2 ^ 26 % 2 ^ 6 ≠ 0 by omega)]
  rfl

end Lists

/-! ## The place over time -/

theorem div_two_pow_eq_of_le {a b x y : ℕ} (hab : a ≤ b) (h : x / 2 ^ a = y / 2 ^ a) :
    x / 2 ^ b = y / 2 ^ b := by
  obtain ⟨d, rfl⟩ := Nat.exists_eq_add_of_le hab
  rw [pow_add, ← Nat.div_div_eq_div_mul, ← Nat.div_div_eq_div_mul, h]

def WheelSlot.rank : WheelSlot → ℕ
  | .near _ => 0
  | .level i _ => i + 1

def high (i x : ℕ) : ℕ := x / 2 ^ (8 + 6 * i)

theorem high_div (i x : ℕ) : high i x / 2 ^ 6 = high (i + 1) x := by
  unfold high
  rw [Nat.div_div_eq_div_mul, ← pow_add]
  congr 2

theorem high_mono {i x y : ℕ} (h : x ≤ y) : high i x ≤ high i y := Nat.div_le_div_right h

theorem high_eq_of_le {i j x y : ℕ} (hij : i ≤ j) (h : high i x = high i y) : high j x = high j y :=
  div_two_pow_eq_of_le (by omega) h

theorem high_succ (i t : ℕ) :
    high i (t + 1) = high i t + if (t + 1) % 2 ^ (8 + 6 * i) = 0 then 1 else 0 := by
  unfold high
  rw [Nat.succ_div]
  simp only [Nat.dvd_iff_mod_eq_zero]

theorem place_eq_high (due t : ℕ) : place due t =
    if high 0 due = high 0 t then .near (due % 2 ^ 8)
    else if high 1 due = high 1 t then .level 0 (high 0 due % 2 ^ 6)
    else if high 2 due = high 2 t then .level 1 (high 1 due % 2 ^ 6)
    else if high 3 due = high 3 t then .level 2 (high 2 due % 2 ^ 6)
    else .level 3 (high 3 due % 2 ^ 6) := rfl

theorem place_of_near {due t : ℕ} (h : high 0 due = high 0 t) : place due t = .near (due % 2 ^ 8) :=
  if_pos h

theorem place_of_level {due t i : ℕ} (hi : i ≤ 3) (hne : high i due ≠ high i t)
    (heq : i < 3 → high (i + 1) due = high (i + 1) t) :
    place due t = .level i (high i due % 2 ^ 6) := by
  have hlow : ∀ j ≤ i, high j due ≠ high j t := fun j hj h => hne (high_eq_of_le hj h)
  rw [place_eq_high, if_neg (hlow 0 (Nat.zero_le i))]
  obtain rfl | rfl | rfl | rfl : i = 0 ∨ i = 1 ∨ i = 2 ∨ i = 3 := by omega
  · rw [if_pos (heq (by omega))]
  · rw [if_neg (hlow 1 (by omega)), if_pos (heq (by omega))]
  · rw [if_neg (hlow 1 (by omega)), if_neg (hlow 2 (by omega)), if_pos (heq (by omega))]
  · rw [if_neg (hlow 1 (by omega)), if_neg (hlow 2 (by omega)), if_neg (hlow 3 (by omega))]

/-- Every node stands in a near list or at the level at which its high part differs from
the counter's and above which it does not. -/
theorem place_cases (due t : ℕ) :
    high 0 due = high 0 t ∨
      ∃ i ≤ 3, high i due ≠ high i t ∧ (i < 3 → high (i + 1) due = high (i + 1) t) := by
  by_cases h0 : high 0 due = high 0 t
  · exact .inl h0
  by_cases h1 : high 1 due = high 1 t
  · exact .inr ⟨0, by omega, h0, fun _ => h1⟩
  by_cases h2 : high 2 due = high 2 t
  · exact .inr ⟨1, by omega, h1, fun _ => h2⟩
  by_cases h3 : high 3 due = high 3 t
  · exact .inr ⟨2, by omega, h2, fun _ => h3⟩
  · exact .inr ⟨3, le_rfl, h3, fun h => absurd h (by omega)⟩

theorem cascade_eq_some_iff {ct i idx : ℕ} :
    cascade ct = some (.level i idx) ↔ i ≤ 3 ∧ ct % 2 ^ (8 + 6 * i) = 0 ∧
      idx = high i ct % 2 ^ 6 ∧ (i < 3 → idx ≠ 0) := by
  unfold cascade high
  constructor
  · split_ifs
    all_goals
      simp only [Option.some.injEq, WheelSlot.level.injEq, IsEmpty.forall_iff]
    all_goals
      rintro ⟨rfl, rfl⟩
      omega
  · rintro ⟨hi, hmod, rfl, hidx⟩
    obtain rfl | rfl | rfl | rfl : i = 0 ∨ i = 1 ∨ i = 2 ∨ i = 3 := by omega
    · rw [if_neg (by omega), if_pos (by omega)]
    · rw [if_neg (by omega), if_neg (by omega), if_pos (by omega)]
    · rw [if_neg (by omega), if_neg (by omega), if_neg (by omega), if_pos (by omega)]
    · rw [if_neg (by omega), if_neg (by omega), if_neg (by omega), if_neg (by omega)]

theorem place_rank_le_iff {due t i : ℕ} (hi : i ≤ 3) :
    (place due t).rank ≤ i ↔ high i due = high i t := by
  obtain h0 | ⟨j, hj, hne, heq⟩ := place_cases due t
  · rw [place_of_near h0]
    simp [WheelSlot.rank, high_eq_of_le (Nat.zero_le i) h0]
  · rw [place_of_level hj hne heq]
    show j + 1 ≤ i ↔ _
    constructor
    · intro hji
      exact high_eq_of_le hji (heq (by omega))
    · intro h
      by_contra hlt
      exact hne (high_eq_of_le (by omega) h)

/-- The counter does not pass a node's expiry without the node: what agrees with the old
counter agrees with the new one. -/
theorem high_succ_of_eq {due ticks i : ℕ} (h1 : ticks < due) (h : high i due = high i ticks) :
    high i due = high i (ticks + 1) := by
  have hle := high_mono (i := i) (show ticks + 1 ≤ due from h1)
  have hge := high_mono (i := i) (show ticks ≤ ticks + 1 by omega)
  omega

/-- **The nodes `timer_shift` re-links** are those whose expiry has the high part of the
new counter at the level of their list.
SRC: skynet_timer.c:112-132 -/
theorem place_eq_cascade_iff {due ticks i idx : ℕ} (h1 : ticks < due)
    (h2 : due < ticks + 2 ^ 31) (hcas : cascade (ticks + 1) = some (.level i idx)) :
    place due ticks = .level i idx ↔ (place due (ticks + 1)).rank ≤ i := by
  obtain ⟨hi, hmod, hidx, hne⟩ := cascade_eq_some_iff.mp hcas
  rw [place_rank_le_iff hi]
  have hsucc := high_succ i ticks
  rw [if_pos hmod] at hsucc
  constructor
  · intro hplace
    obtain h0 | ⟨j, hj, hnej, heq⟩ := place_cases due ticks
    · rw [place_of_near h0] at hplace
      cases hplace
    rw [place_of_level hj hnej heq, WheelSlot.level.injEq] at hplace
    obtain ⟨rfl, hlow⟩ := hplace
    obtain rfl | hlt := Nat.eq_or_lt_of_le hj
    · unfold high at *
      omega
    · have hup := high_succ_of_eq h1 (heq hlt)
      rw [← high_div, ← high_div] at hup
      omega
  · intro heq
    rw [hidx, ← heq]
    refine place_of_level hi (by omega) fun hlt => ?_
    rw [← high_div, ← high_div]
    omega

/-- **The nodes `timer_shift` leaves** stand where they would be linked now.
SRC: skynet_timer.c:112-132 -/
theorem place_succ {due ticks : ℕ} (h1 : ticks < due)
    (h : cascade (ticks + 1) ≠ some (place due ticks)) :
    place due (ticks + 1) = place due ticks := by
  obtain h0 | ⟨i, hi, hne, heq⟩ := place_cases due ticks
  · rw [place_of_near h0, place_of_near (high_succ_of_eq h1 h0)]
  rw [place_of_level hi hne heq] at h ⊢
  refine place_of_level hi (fun hsame => h ?_) fun hlt => high_succ_of_eq h1 (heq hlt)
  -- the counter has just reached the node's high part, so its lower bits are 0
  have hsucc := high_succ i ticks
  split at hsucc
  · next hmod =>
    refine cascade_eq_some_iff.mpr ⟨hi, hmod, by rw [hsame], fun hlt hzero => ?_⟩
    have hup := heq hlt
    rw [← high_div, ← high_div] at hup
    omega
  · omega

theorem place_eq_near_iff {due ct : ℕ} (h1 : ct ≤ due) :
    place due ct = .near (ct % 2 ^ 8) ↔ due = ct := by
  obtain h0 | ⟨i, hi, hne, heq⟩ := place_cases due ct
  · rw [place_of_near h0, WheelSlot.near.injEq]
    unfold high at h0
    omega
  · rw [place_of_level hi hne heq]
    constructor
    · intro h
      cases h
    · rintro rfl
      exact absurd rfl hne

/-! ## The 32-bit counter

For expiries less than `2 ^ 31` ticks ahead the wheel does not see that numbers wrap.
-/

theorem place_mod {due ticks : ℕ} (h1 : ticks ≤ due) (h2 : due < ticks + 2 ^ 31) :
    place (due % 2 ^ 32) (ticks % 2 ^ 32) = place due ticks := by
  have h8 : due % 2 ^ 32 / 2 ^ 8 = ticks % 2 ^ 32 / 2 ^ 8 ↔ due / 2 ^ 8 = ticks / 2 ^ 8 := by omega
  have h14 : due % 2 ^ 32 / 2 ^ 14 = ticks % 2 ^ 32 / 2 ^ 14 ↔ due / 2 ^ 14 = ticks / 2 ^ 14 := by
    omega
  have h20 : due % 2 ^ 32 / 2 ^ 20 = ticks % 2 ^ 32 / 2 ^ 20 ↔ due / 2 ^ 20 = ticks / 2 ^ 20 := by
    omega
  have h26 : due % 2 ^ 32 / 2 ^ 26 = ticks % 2 ^ 32 / 2 ^ 26 ↔ due / 2 ^ 26 = ticks / 2 ^ 26 := by
    omega
  have m8 : due % 2 ^ 32 % 2 ^ 8 = due % 2 ^ 8 := by omega
  have d8 : due % 2 ^ 32 / 2 ^ 8 % 2 ^ 6 = due / 2 ^ 8 % 2 ^ 6 := by omega
  have d14 : due % 2 ^ 32 / 2 ^ 14 % 2 ^ 6 = due / 2 ^ 14 % 2 ^ 6 := by omega
  have d20 : due % 2 ^ 32 / 2 ^ 20 % 2 ^ 6 = due / 2 ^ 20 % 2 ^ 6 := by omega
  have d26 : due % 2 ^ 32 / 2 ^ 26 % 2 ^ 6 = due / 2 ^ 26 % 2 ^ 6 := by omega
  simp only [place, h8, h14, h20, h26, m8, d8, d14, d20, d26]

theorem cascade_mod (ct : ℕ) : cascade (ct % 2 ^ 32) = cascade ct := by
  have m8 : ct % 2 ^ 32 % 2 ^ 8 = ct % 2 ^ 8 := by omega
  have d8 : ct % 2 ^ 32 / 2 ^ 8 % 2 ^ 6 = ct / 2 ^ 8 % 2 ^ 6 := by omega
  have d14 : ct % 2 ^ 32 / 2 ^ 14 % 2 ^ 6 = ct / 2 ^ 14 % 2 ^ 6 := by omega
  have d20 : ct % 2 ^ 32 / 2 ^ 20 % 2 ^ 6 = ct / 2 ^ 20 % 2 ^ 6 := by omega
  have d26 : ct % 2 ^ 32 / 2 ^ 26 % 2 ^ 6 = ct / 2 ^ 26 % 2 ^ 6 := by omega
  simp only [cascade, m8, d8, d14, d20, d26]

end Skynet.Analysis
