import Skynet.Library.Refinement
import Skynet.Model.MessageQueue

/-!
# A message queue is a FIFO list

`contents q` is the list a queue holds.  Whatever the head position and across every
doubling, storing a message appends to it and popping takes its first item; a pop finds
nothing exactly if it is empty.  So all calls return what they return on a list, until the
capacity has doubled to the largest power of two in an `int` and this is full too.
-/

namespace Skynet.Analysis

open Library Model List

variable {δ : Type}

structure MqOk (q : MessageQueue δ) : Prop where
  head_lt : q.head < q.cap
  tail_lt : q.tail < q.cap

def contents (q : MessageQueue δ) : List (SkynetMessage δ) :=
  ring q.queue q.cap q.head (skynetMqLength q)

namespace MqOk

variable {q : MessageQueue δ}

theorem tail_eq (h : MqOk q) : q.tail = (q.head + skynetMqLength q) % q.cap := by
  obtain ⟨h1, h2⟩ := h
  unfold skynetMqLength
  split
  · rw [Nat.mod_eq_of_lt (by omega)]
    omega
  · rw [show q.head + (q.tail + q.cap - q.head) = q.tail + q.cap by omega, Nat.add_mod_right,
      Nat.mod_eq_of_lt h2]

theorem length_lt (h : MqOk q) : skynetMqLength q < q.cap := by
  obtain ⟨h1, h2⟩ := h
  unfold skynetMqLength
  split <;> omega

theorem contents_eq_nil_iff (h : MqOk q) : contents q = [] ↔ q.head = q.tail := by
  rw [← length_eq_zero_iff, contents, length_ring]
  obtain ⟨h1, h2⟩ := h
  unfold skynetMqLength
  split <;> omega

end MqOk

variable {q : MessageQueue δ}

/-- **Storing a message appends it**, and the buffer doubles when it is full.
SRC: skynet_mq.c:191-204 -/
theorem mqStore_spec [Inhabited δ] (h : MqOk q) (m : SkynetMessage δ) :
    MqOk (mqStore q m) ∧ contents (mqStore q m) = contents q ++ [m] := by
  have hlt := h.length_lt
  have htail := h.tail_eq
  have hpush : ring _ _ _ _ = ring q.queue q.cap q.head _ ++ [m] := ring_push hlt m
  rw [← htail] at hpush
  obtain ⟨h1, h2⟩ := h
  have hlen : skynetMqLength q = if q.head ≤ q.tail then q.tail - q.head
    else q.tail + q.cap - q.head := rfl
  unfold mqStore
  by_cases hfull : q.head = if q.tail + 1 ≥ q.cap then 0 else q.tail + 1
  · rw [if_pos hfull]
    have hcap : skynetMqLength q + 1 = q.cap := by
      split at hfull <;> split at hlen <;> omega
    have hlen' : skynetMqLength (expandQueue { q with
        queue := Function.update q.queue q.tail m
        tail := if q.tail + 1 ≥ q.cap then 0 else q.tail + 1 }) = skynetMqLength q + 1 := by
      rw [hcap]
      exact if_pos (Nat.zero_le _)
    refine ⟨⟨?_, ?_⟩, ?_⟩
    · show 0 < q.cap * 2
      omega
    · show q.cap < q.cap * 2
      omega
    · rw [contents, hlen']
      refine (show _ = ring _ q.cap q.head _ from ring_copy (fun i hi => ?_) ?_).trans hpush
      · exact if_pos (by show i < q.cap; omega)
      · show _ ≤ q.cap * 2
        omega
  · rw [if_neg hfull]
    have hlen' : skynetMqLength { q with
        queue := Function.update q.queue q.tail m
        tail := if q.tail + 1 ≥ q.cap then 0 else q.tail + 1 } = skynetMqLength q + 1 := by
      rw [hlen]
      unfold skynetMqLength
      dsimp only
      split_ifs at hfull ⊢ <;> omega
    refine ⟨⟨h1, ?_⟩, ?_⟩
    · show (if q.tail + 1 ≥ q.cap then 0 else q.tail + 1) < q.cap
      split <;> omega
    · rw [contents, hlen']
      exact hpush

/-- **Popping takes the oldest message**, or clears `in_global` when there is none; the
handle and the flag `release` stay.
SRC: skynet_mq.c:138-174 -/
theorem skynetMqPop_spec (h : MqOk q) :
    (contents q = [] ∧ (skynetMqPop q).1 = none ∧ MqOk (skynetMqPop q).2 ∧
      contents (skynetMqPop q).2 = [] ∧ (skynetMqPop q).2.inGlobal = 0) ∨
    (∃ m, (skynetMqPop q).1 = some m ∧ contents q = m :: contents (skynetMqPop q).2 ∧
      MqOk (skynetMqPop q).2 ∧ (skynetMqPop q).2.inGlobal = q.inGlobal) := by
  by_cases hne : q.head ≠ q.tail
  · refine .inr ⟨q.queue q.head, ?_⟩
    obtain ⟨h1, h2⟩ := h
    have hhead : (if q.head + 1 ≥ q.cap then 0 else q.head + 1) = (q.head + 1) % q.cap := by
      split
      · rw [show q.head + 1 = q.cap by omega, Nat.mod_self]
      · rw [Nat.mod_eq_of_lt (by omega)]
    have hlt := Nat.mod_lt (q.head + 1) (show q.cap > 0 by omega)
    have hlen : skynetMqLength q = skynetMqLength (skynetMqPop q).2 + 1 := by
      unfold skynetMqPop
      rw [if_pos hne]
      unfold skynetMqLength
      dsimp only
      split_ifs <;> omega
    have hpop : skynetMqPop q = (some (q.queue q.head), { q with
        head := (q.head + 1) % q.cap
        overload := (skynetMqPop q).2.overload
        overloadThreshold := (skynetMqPop q).2.overloadThreshold }) := by
      unfold skynetMqPop
      rw [if_pos hne, hhead]
    rw [contents, hlen, ring_pop h1, hpop]
    exact ⟨rfl, rfl, ⟨hlt, h2⟩, rfl⟩
  · refine .inl ?_
    have hnil := h.contents_eq_nil_iff.mpr (not_not.mp hne)
    unfold skynetMqPop
    rw [if_neg hne]
    exact ⟨hnil, rfl, ⟨h.head_lt, h.tail_lt⟩, hnil, rfl⟩

/-! ## Calls -/

def fifoCall (pending : List (SkynetMessage δ)) :
    MqCall δ → MqReturn δ × List (SkynetMessage δ)
  | .push message => (.pushed, pending ++ [message])
  | .pop => (.popped pending.head?, pending.tail)
  | .length => (.length pending.length, pending)

def PushFits (pending : List (SkynetMessage δ)) : MqCall δ → Prop
  | .push _ => pending.length + 1 < 2 ^ 30
  | .pop | .length => True

structure MqHolds (q : MessageQueue δ) (pending : List (SkynetMessage δ)) : Prop where
  ok : MqOk q
  contents_eq : contents q = pending
  power : ∃ k ≤ 30, q.cap = 2 ^ k

namespace MqHolds

variable {q : MessageQueue δ} {pending : List (SkynetMessage δ)}

theorem length_eq (h : MqHolds q pending) : skynetMqLength q = pending.length := by
  rw [← h.contents_eq, contents, length_ring]

theorem start [Inhabited δ] (handle : ℕ) : MqHolds (skynetMqCreate (δ := δ) handle) [] :=
  ⟨⟨show 0 < 64 by decide, show 0 < 64 by decide⟩, rfl, 6, by decide, rfl⟩

end MqHolds

theorem expandQueue_cap [Inhabited δ] (q : MessageQueue δ) : (expandQueue q).cap = q.cap * 2 := rfl

theorem mqStore_cap [Inhabited δ] (h : MqOk q) (m : SkynetMessage δ) :
    (mqStore q m).cap = if skynetMqLength q + 1 = q.cap then q.cap * 2 else q.cap := by
  obtain ⟨h1, h2⟩ := h
  have hfull : (q.head = if q.tail + 1 ≥ q.cap then 0 else q.tail + 1)
      ↔ skynetMqLength q + 1 = q.cap := by
    unfold skynetMqLength
    split_ifs <;> omega
  unfold mqStore
  by_cases hhead : q.head = if q.tail + 1 ≥ q.cap then 0 else q.tail + 1
  · rw [if_pos hhead, if_pos (hfull.mp hhead), expandQueue_cap]
  · rw [if_neg hhead, if_neg (mt hfull.mpr hhead)]

theorem skynetMqPop_cap (q : MessageQueue δ) : (skynetMqPop q).2.cap = q.cap := by
  unfold skynetMqPop
  split <;> rfl

variable {pending : List (SkynetMessage δ)}

theorem mqStore_power [Inhabited δ] (h : MqHolds q pending) (m : SkynetMessage δ)
    (hfits : pending.length + 1 < 2 ^ 30) : ∃ k ≤ 30, (mqStore q m).cap = 2 ^ k := by
  obtain ⟨k, hk, hcap⟩ := h.power
  rw [mqStore_cap h.ok m, h.length_eq]
  split
  · next hfull =>
    rw [hfull, hcap] at hfits
    exact ⟨k + 1, (Nat.pow_lt_pow_iff_right (by decide)).mp hfits, by rw [hcap, pow_succ]⟩
  · exact ⟨k, hk, hcap⟩

theorem skynetMqPush_fits [Inhabited δ]
    (h : MqHolds q pending) (m : SkynetMessage δ) (hfits : pending.length + 1 < 2 ^ 30) :
    ∃ linked q', skynetMqPush q m = some (linked, q') ∧ MqHolds q' (pending ++ [m]) := by
  obtain ⟨hok, hcontents⟩ := mqStore_spec h.ok m
  rw [h.contents_eq] at hcontents
  have hpower := mqStore_power h m hfits
  have hsmall : ¬ 2 ^ 31 ≤ (mqStore q m).cap := by
    obtain ⟨k, hk, hcap⟩ := hpower
    rw [hcap, not_le]
    exact Nat.pow_lt_pow_right (by decide) (Nat.lt_succ_of_le hk)
  unfold skynetMqPush
  rw [if_neg hsmall]
  split
  · exact ⟨_, _, rfl, ⟨hok.head_lt, hok.tail_lt⟩, hcontents, hpower⟩
  · exact ⟨_, _, rfl, hok, hcontents, hpower⟩

theorem skynetMqPush_full [Inhabited δ] (h : MqHolds q pending) (m : SkynetMessage δ)
    (hfull : ¬ pending.length + 1 < 2 ^ 30) : skynetMqPush q m = none := by
  obtain ⟨k, hk, hcap⟩ := h.power
  have hlt := h.ok.length_lt
  have hle : q.cap ≤ 2 ^ 30 := by
    rw [hcap]
    exact Nat.pow_le_pow_right (by decide) hk
  have hlen := h.length_eq
  have hdouble : (mqStore q m).cap = q.cap * 2 := by
    rw [mqStore_cap h.ok m, if_pos (by omega)]
  unfold skynetMqPush
  rw [if_pos]
  omega

theorem mqCall_spec [Inhabited δ] (k : MqCall δ) (h : MqHolds q pending)
    (hfits : PushFits pending k) : CallRefines mqCall fifoCall MqHolds q pending k := by
  cases k with
  | push m =>
    obtain ⟨linked, q', hpush, hholds⟩ := skynetMqPush_fits h m hfits
    refine ⟨q', ?_, hholds⟩
    rw [mqCall, hpush]
    rfl
  | pop =>
    refine ⟨(skynetMqPop q).2, ?_⟩
    have hpower : ∃ k ≤ 30, (skynetMqPop q).2.cap = 2 ^ k := by
      rw [skynetMqPop_cap]
      exact h.power
    have heq := h.contents_eq
    rcases skynetMqPop_spec h.ok with ⟨hnil, hnone, hok, hnil', -⟩ | ⟨m, hsome, hcons, hok, -⟩
    · obtain rfl := hnil.symm.trans heq
      exact ⟨by rw [mqCall, hnone]; rfl, hok, hnil', hpower⟩
    · obtain rfl := hcons.symm.trans heq
      exact ⟨by rw [mqCall, hsome]; rfl, hok, rfl, hpower⟩
  | length =>
    refine ⟨q, ?_, h⟩
    rw [mqCall, h.length_eq]
    rfl

theorem mqCall_full [Inhabited δ]
    (k : MqCall δ) (h : MqHolds q pending) (hfull : ¬ PushFits pending k) (q' : MessageQueue δ) :
    mqCall q k ≠ some ((fifoCall pending k).1, q') := by
  cases k with
  | push m =>
    rw [mqCall, skynetMqPush_full h m hfull]
    nofun
  | pop => exact absurd trivial hfull
  | length => exact absurd trivial hfull

/-- The calls on a new queue return what they return on a list if and only if the list never gets
2^30 messages. -/
theorem message_queue_fifo_iff [Inhabited δ] (handle : ℕ) (calls : List (MqCall δ)) :
    (∃ q, callAll mqCall (skynetMqCreate handle) calls = some ((specAll fifoCall [] calls).1, q))
      ↔ EachMeets fifoCall PushFits [] calls :=
  callAll_iff (fun _ _ k h => mqCall_spec k h) (fun _ _ k h => mqCall_full k h) calls
    (MqHolds.start handle)

theorem pushes_fit {n : ℕ} {m : SkynetMessage δ}
    (h : EachMeets fifoCall PushFits pending (replicate n (.push m))) (hn : 0 < n) :
    pending.length + n < 2 ^ 30 := by
  induction n generalizing pending with
  | zero => exact absurd hn (Nat.lt_irrefl 0)
  | succ n ih =>
    obtain ⟨hfits, hrest⟩ := h
    cases n with
    | zero => exact hfits
    | succ n =>
      have hlen : (pending ++ [m]).length + (n + 1) < 2 ^ 30 := ih hrest (Nat.succ_pos n)
      rw [length_append, length_singleton] at hlen
      omega

/-- 2^30 messages are pushed and none is popped. -/
theorem message_queue_overflows : ¬ ∃ q, callAll mqCall (skynetMqCreate 1)
    (replicate (2 ^ 30) (.push (⟨1, 0, (), 0⟩ : SkynetMessage Unit)))
      = some ((specAll fifoCall []
        (replicate (2 ^ 30) (.push (⟨1, 0, (), 0⟩ : SkynetMessage Unit)))).1, q) := by
  intro h
  have hfits := pushes_fit ((callAll_iff (fun _ _ k h => mqCall_spec k h)
    (fun _ _ k h => mqCall_full k h) _ (MqHolds.start 1)).mp h) (by decide)
  exact absurd hfits (by decide)

end Skynet.Analysis
