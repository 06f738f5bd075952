import Skynet.Analysis.LuaSeriReader

/-!
# `skynet.unpack` on any byte string

The recursive reader follows the positions of its stream: where it returns, the positions
lead over the value; where it stops, they lead to the end that explains the error.  One
statement for each of the functions that call each other, and one induction on the fuel.
-/

namespace Skynet.Analysis

open Library Model

variable {bs : Bytes} {rb : ReadBlock} {host : UnpackHost} {top : ℕ} {p q : Position}

/-! ## Steps of a position -/

namespace Position

def Fine (top : ℕ) (p : Position) : Prop := ¬p.Refused ∧ ¬p.Crowded top

theorem faulty_iff (h : p.Fine top) : p.Faulty host top ↔ p.BadHeader host top := by
  simp only [Faulty, h.1, h.2, false_or]

theorem next_of_faulty (h : p.Faulty host top) : next host top p = none := by
  rw [next, if_pos h]

theorem next_of_stop (hp : header p.rest = .stop) : next host top p = none := by
  unfold next
  rw [hp]
  simp

theorem next_of_scalar {v : Scalar} {rest : Bytes} (h : p.Fine top)
    (hp : header p.rest = .scalar v rest) :
    next host top p = some (complete rest p.count (itemOf v) p.opened) := by
  have hok : ¬p.Faulty host top := by simp [faulty_iff h, BadHeader, hp]
  rw [next, if_neg hok, hp]

theorem next_of_table {n : ℕ} {rest : Bytes} (h : p.Fine top)
    (hp : header p.rest = .table n rest) (hroom : p.opens host top n rest = true) :
    next host top p = some ⟨p.count, .elements n :: p.opened, rest⟩ := by
  have hok : ¬p.Faulty host top := by simp [faulty_iff h, BadHeader, hp, hroom]
  rw [next, if_neg hok, hp]

theorem fine_cons {count : ℕ} {e : Expecting} {opened : List Expecting} {rest : Bytes}
    (he : e ≠ .refused) : Fine top ⟨count, e :: opened, rest⟩ := by
  constructor
  · intro h
    exact he (Option.some.inj h)
  · intro h
    cases h.1

end Position

/-! ## Headers shorten the stream -/

theorem integerAt_length {cookie : ℕ} {bs rest : Bytes} {n : BitVec 64}
    (h : integerAt cookie bs = some (n, rest)) : rest.length ≤ bs.length := by
  unfold integerAt at h
  split at h
  case h_1 =>
    cases h
    exact le_rfl
  case h_6 => cases h
  all_goals
    obtain ⟨⟨l, rest'⟩, hcut, hp⟩ := Option.map_eq_some_iff.mp h
    have hrest : rest' = rest := congrArg Prod.snd hp
    have hlength := cut_length hcut
    rw [hrest] at hlength
    omega

theorem scalarOf_length {k : ℕ} {value : Bytes → Scalar} {bs rest : Bytes}
    {v : Scalar} (h : scalarOf k value bs = .scalar v rest) : rest.length ≤ bs.length := by
  unfold scalarOf at h
  split at h
  case h_1 => cases h
  case h_2 hcut =>
    cases h
    have := cut_length hcut
    omega

theorem tableAt_length {cookie n : ℕ} {bs rest : Bytes}
    (h : tableAt cookie bs = .table n rest) : rest.length ≤ bs.length := by
  unfold tableAt at h
  split at h
  case isFalse =>
    cases h
    exact le_rfl
  case isTrue =>
    split at h
    case h_1 => cases h
    case h_2 t bs' hcut =>
      have := cut_length hcut
      split at h
      case isFalse => cases h
      case isTrue =>
        split at h
        case h_1 => cases h
        case h_2 hn =>
          cases h
          have := integerAt_length hn
          omega

theorem tableAt_ne_scalar {cookie : ℕ} {bs rest : Bytes} {v : Scalar} :
    tableAt cookie bs ≠ .scalar v rest := by
  unfold tableAt
  intro h
  split at h
  case isFalse => cases h
  case isTrue =>
    split at h
    case h_1 => cases h
    case h_2 =>
      split at h
      case isFalse => cases h
      case isTrue => split at h <;> cases h

theorem headerOf_length {type cookie : ℕ} {bs rest : Bytes} {v : Scalar}
    (h : headerOf type cookie bs = .scalar v rest) : rest.length ≤ bs.length := by
  unfold headerOf at h
  split at h
  case h_1 | h_2 =>
    cases h
    exact le_rfl
  case h_3 =>
    split at h
    case isTrue => exact scalarOf_length h
    case isFalse =>
      split at h
      case h_1 => cases h
      case h_2 hn =>
        cases h
        exact integerAt_length hn
  case h_4 | h_5 => exact scalarOf_length h
  case h_6 =>
    split at h
    case isTrue =>
      split at h
      case h_1 => cases h
      case h_2 hcut =>
        have := cut_length hcut
        have := scalarOf_length h
        omega
    case isFalse =>
      split at h
      case isFalse => cases h
      case isTrue =>
        split at h
        case h_1 => cases h
        case h_2 hcut =>
          have := cut_length hcut
          split at h
          case isFalse => cases h
          case isTrue =>
            have := scalarOf_length h
            omega
  case h_7 => exact absurd h tableAt_ne_scalar
  case h_8 => cases h

/-! ## The tables that are open -/

/-- What is left inside `k` calls of `unpack_table`. -/
def insideTables (host : UnpackHost) (k : ℕ) : UnpackHost :=
  { host with frames := host.frames.map (· - k) }

@[simp] theorem insideTables_zero (host : UnpackHost) : insideTables host 0 = host := by
  cases host with
  | mk frames memory => cases frames <;> rfl

theorem call_insideTables (host : UnpackHost) (k : ℕ) :
    (insideTables host k).call = if hasFrame host k then some (insideTables host (k + 1)) else none := by
  cases host with
  | mk frames memory =>
    cases frames with
    | none => rfl
    | some n =>
      rcases Nat.lt_or_ge k n with hlt | hge
      · obtain ⟨j, hj⟩ : ∃ j, n - k = j + 1 := ⟨n - k - 1, by omega⟩
        have hj' : n - (k + 1) = j := by omega
        simp [insideTables, UnpackHost.call, hasFrame, hlt, hj, hj']
      · have hzero : n - k = 0 := by omega
        simp [insideTables, UnpackHost.call, hasFrame, hzero, Nat.not_lt.mpr hge]

/-! ## Where the reader ends -/

def item : LuaValue Unit → Item
  | .scalar v => itemOf v
  | _ => .other

/-- The errors of the Lua API, and the end of the C stack. -/
def LuaError (e : UnpackError) : Prop :=
  e = .stackOverflow ∨ e = .blockTooBig ∨ e = .indexNaN ∨ e = .notEnoughMemory ∨ e = .cStack

/-- The reader stops as the positions from `p` on explain: with the invalid-stream error at
a position that has no header, or with an error of the Lua API at a faulty one. -/
def Fails (bs : Bytes) (host : UnpackHost) (top : ℕ) (p : Position) (e : UnpackError)
    (rb : ReadBlock) : Prop :=
  ∃ q, Leads (Position.next host top) p q ∧
    (Invalid e ∧ Reading bs rb ∧ ¬q.Faulty host top ∧ header q.rest = .stop ∨ LuaError e ∧ q.Faulty host top)

def Passes (bs : Bytes) (host : UnpackHost) (top : ℕ) (p : Position)
    (v : LuaValue Unit) (rb : ReadBlock) : Prop :=
  Reading bs rb ∧ (unread rb).length < p.rest.length ∧
    Leads (Position.next host top) p (complete (unread rb) p.count (item v) p.opened)

variable {e : UnpackError}

theorem Fails.lead (hpq : Leads (Position.next host top) p q)
    (h : Fails bs host top q e rb) : Fails bs host top p e rb := by
  obtain ⟨r, hr, hend⟩ := h
  exact ⟨r, hpq.trans hr, hend⟩

theorem Fails.invalid (he : Invalid e) (h : Reading bs rb)
    (hp : p.Fine top) (hstop : header p.rest = .stop) : Fails bs host top p e rb := by
  refine ⟨p, .refl p, .inl ⟨he, h, ?_, hstop⟩⟩
  simp [Position.faulty_iff hp, Position.BadHeader, hstop]

theorem Fails.lua (he : LuaError e) (hp : p.Faulty host top) : Fails bs host top p e rb :=
  ⟨p, .refl p, .inr ⟨he, hp⟩⟩

/-- A table that cannot be opened. -/
theorem Fails.closed {n : ℕ} {rest : Bytes} (he : LuaError e) (hp : p.Fine top)
    (hheader : header p.rest = .table n rest) (h : p.opens host top n rest = false) :
    Fails bs host top p e rb := by
  apply Fails.lua he
  rw [Position.faulty_iff hp, Position.BadHeader, hheader]
  exact h

theorem checkStack_ends (n : ℕ) :
    Ends (checkStack n) rb (fun _ rb' => rb' = rb ∧ stackRoom n = true)
      (fun e rb' => rb' = rb ∧ e = .stackOverflow ∧ stackRoom n = false) := by
  apply Ends.ite
  · intro hroom
    exact Ends.pure.mpr ⟨rfl, hroom⟩
  · intro hroom
    exact Ends.throw.mpr ⟨rfl, rfl, by simpa using hroom⟩

/-- A call of `unpack_table` inside `k` others, on what the host has. -/
theorem enterTable_ends (k : ℕ) :
    Ends (enterTable (insideTables host k)) rb
      (fun inner rb' => inner = insideTables host (k + 1) ∧ rb' = rb ∧ hasFrame host k = true)
      (fun e _ => e = .cStack ∧ hasFrame host k = false) := by
  unfold enterTable
  rw [call_insideTables]
  cases hasFrame host k
  · exact Ends.throw.mpr ⟨rfl, rfl⟩
  · exact Ends.pure.mpr ⟨rfl, rfl, rfl⟩

theorem createTable_ends {k : ℕ} (h : Reading bs rb) (n : ℤ) :
    Ends (createTable (insideTables host k) n) rb
      (fun _ rb' => rb' = rb ∧ host.memory (unread rb).length n.toNat = true)
      (fun e _ => e = .notEnoughMemory ∧ host.memory (unread rb).length n.toNat = false) := by
  have hleft : rb.len.toNat = (unread rb).length := by
    rw [← h.length_unread, Int.toNat_natCast]
  unfold createTable
  apply Ends.bind.mpr
  apply Ends.get.mpr
  rw [hleft]
  apply Ends.ite
  · intro hmemory
    exact Ends.pure.mpr ⟨rfl, hmemory⟩
  · intro hmemory
    exact Ends.throw.mpr ⟨rfl, Bool.eq_false_of_not_eq_true hmemory⟩

theorem toInteger_of_isNaN {d : BitVec 64} (h : isNaN d = true) : toInteger d = none := by
  simp only [isNaN, Bool.and_eq_true, decide_eq_true_eq] at h
  simp only [toInteger, h.1]
  simp

theorem rawset_ends (t : LuaEntries Unit) (k v : LuaValue Unit) :
    Ends (rawset t k v) rb (fun _ rb' => rb' = rb ∧ item k ≠ .nan)
      (fun e _ => e = .indexNaN ∧ item k = .nan) := by
  unfold rawset
  split
  case h_1 d =>
    split
    case h_1 n hn =>
      have hnan : isNaN d = false := by
        by_contra hd
        rw [toInteger_of_isNaN (by simpa using hd)] at hn
        cases hn
      exact Ends.pure.mpr ⟨rfl, by simp [item, itemOf, hnan]⟩
    case h_2 =>
      apply Ends.ite
      · intro hnan
        exact Ends.throw.mpr ⟨rfl, by simp [item, itemOf, hnan]⟩
      · intro hnan
        exact Ends.pure.mpr ⟨rfl, by simp [item, itemOf, hnan]⟩
  case h_2 hreal =>
    cases k with
    | scalar w => cases w <;> simp_all [item, itemOf]
    | _ => simp [item]

/-! ## The functions that call each other -/

def OneSpec (bs : Bytes) (host : UnpackHost) (top fuel : ℕ) : Prop :=
  ∀ rb p, Reading bs rb → p.Fine top → p.rest = unread rb → 3 * (unread rb).length + 1 ≤ fuel →
    Ends (unpackOne fuel (insideTables host p.opened.length) (p.slots top)) rb (Passes bs host top p) (Fails bs host top p)

def TableSpec (bs : Bytes) (host : UnpackHost) (top fuel : ℕ) : Prop :=
  ∀ rb p cookie, Reading bs rb → p.Fine top → header p.rest = tableAt cookie (unread rb) →
    (unread rb).length < p.rest.length → 3 * (unread rb).length + 3 ≤ fuel →
    Ends (unpackTable fuel (insideTables host p.opened.length) (p.slots top) cookie) rb
      (fun v rb' => item v = .other ∧ Passes bs host top p v rb') (Fails bs host top p)

def ArraySpec (bs : Bytes) (host : UnpackHost) (top fuel : ℕ) : Prop :=
  ∀ rb count opened i n t, Reading bs rb → 3 * (unread rb).length + 2 ≤ fuel →
    Ends (unpackArray fuel (insideTables host (opened.length + 1))
        (Position.slots top ⟨count, .elements 0 :: opened, []⟩) i n t) rb
      (fun _ rb' => Reading bs rb' ∧ (unread rb').length ≤ (unread rb).length ∧
        Leads (Position.next host top)
          ⟨count, .elements (n + 1 - i).toNat :: opened, unread rb⟩
          ⟨count, .elements 0 :: opened, unread rb'⟩)
      (Fails bs host top ⟨count, .elements (n + 1 - i).toNat :: opened, unread rb⟩)

def HashSpec (bs : Bytes) (host : UnpackHost) (top fuel : ℕ) : Prop :=
  ∀ rb count opened t, Reading bs rb → 3 * (unread rb).length + 2 ≤ fuel →
    Ends (unpackHash fuel (insideTables host (opened.length + 1))
        (Position.slots top ⟨count, .elements 0 :: opened, []⟩) t) rb
      (fun _ rb' => Reading bs rb' ∧ (unread rb').length ≤ (unread rb).length ∧
        Leads (Position.next host top) ⟨count, .elements 0 :: opened, unread rb⟩
          (complete (unread rb') count .other opened))
      (Fails bs host top ⟨count, .elements 0 :: opened, unread rb⟩)

variable {fuel : ℕ}

theorem pushValue_passes (hspec : TableSpec bs host top fuel) (h : Reading bs rb)
    (hp : p.Fine top) {t : Bytes} (ht : cut 1 p.rest = some (t, unread rb))
    (hfuel : 3 * (unread rb).length + 3 ≤ fuel) :
    Ends (pushValue (unpackTable fuel (insideTables host p.opened.length) (p.slots top)) (leNat t &&& 7) (leNat t >>> 3)) rb
      (Passes bs host top p) (Fails bs host top p) := by
  have hlength : (unread rb).length < p.rest.length := by
    have := cut_length ht
    omega
  have hheader : header p.rest = headerOf (leNat t &&& 7) (leNat t >>> 3) (unread rb) := by
    rw [header, ht]
  by_cases htype : leNat t &&& 7 = typeTable
  · rw [htype] at hheader ⊢
    apply (hspec rb p _ h hp hheader hlength hfuel).mono
    · intro v rb' hv
      exact hv.2
    · intro e rb' he
      exact he
  · apply (pushValue_ends h _ _ htype).mono
    · rintro v rb' ⟨h', w, rfl, hw⟩
      have hshort := headerOf_length hw
      refine ⟨h', by omega, ?_⟩
      apply Leads.step (Position.next_of_scalar hp (hheader.trans hw))
      exact .refl _
    · rintro e rb' (⟨he, h', hstop⟩ | ⟨rfl, hlong⟩)
      · exact .invalid he h' hp (hheader.trans hstop)
      · apply Fails.lua (.inr (.inl rfl))
        rw [Position.faulty_iff hp, Position.BadHeader, hheader, hlong]
        trivial

theorem one_succ (hspec : TableSpec bs host top fuel) : OneSpec bs host top (fuel + 1) := by
  intro rb p h hp hrest hfuel
  unfold unpackOne
  apply Ends.bind.mpr
  apply (rbReadOr_ends h 1 528).mono
  · rintro t rb' ⟨h', hcut⟩
    have hlength := cut_length hcut
    rw [← hrest] at hcut
    exact pushValue_passes hspec h' hp hcut (by omega)
  · rintro e rb' ⟨he, h', hcut⟩
    apply Fails.invalid he h' hp
    rw [header, hrest, hcut]

theorem table_succ (harray : ArraySpec bs host top fuel) (hhash : HashSpec bs host top fuel) :
    TableSpec bs host top (fuel + 1) := by
  intro rb p cookie h hp hheader hlength hfuel
  have hslots : p.slots top + 1
      = Position.slots top ⟨p.count, .elements 0 :: p.opened, []⟩ := by
    simp only [Position.slots, List.map_cons, List.sum_cons, Expecting.slots]
    omega
  unfold unpackTable
  apply Ends.bind.mpr
  apply (unpackArraySize_ends h cookie).mono
  · rintro n rb₁ ⟨h₁, hn⟩
    have hshort := tableAt_length hn
    have htable := hheader.trans hn
    apply Ends.bind.mpr
    apply (enterTable_ends p.opened.length).mono
    · rintro inner rb₁ ⟨rfl, rfl, hframe⟩
      apply Ends.bind.mpr
      apply (checkStack_ends (p.slots top)).mono
      · rintro _ rb₁ ⟨rfl, hroom⟩
        apply Ends.bind.mpr
        apply (createTable_ends h₁ n).mono
        · rintro _ rb₁ ⟨rfl, hmemory⟩
          -- the table is on the stack, and its loops start behind its header
          have hopens : p.opens host top n.toNat (unread rb₁) = true := by
            simp [Position.opens, hframe, hroom, hmemory]
          have hopen := Position.next_of_table hp htable hopens
          apply Ends.bind.mpr
          rw [hslots]
          apply (harray rb₁ p.count p.opened 1 n [] h₁ (by omega)).mono
          · rintro t rb₃ ⟨h₃, hshort₃, hlead₃⟩
            rw [show n + 1 - 1 = n by omega] at hlead₃
            apply Ends.bind.mpr
            apply (hhash rb₃ p.count p.opened t h₃ (by omega)).mono
            · rintro t' rb₄ ⟨h₄, hshort₄, hlead₄⟩
              refine Ends.pure.mpr ⟨rfl, h₄, by omega, ?_⟩
              exact Leads.step hopen (hlead₃.trans hlead₄)
            · intro e rb₄ he
              exact (he.lead hlead₃).lead (Leads.step hopen (.refl _))
          · intro e rb₃ he
            rw [show n + 1 - 1 = n by omega] at he
            exact he.lead (Leads.step hopen (.refl _))
        · rintro e _ ⟨rfl, hmemory⟩
          exact .closed (by simp [LuaError]) hp htable (by simp [Position.opens, hmemory])
      · rintro e _ ⟨-, rfl, hroom⟩
        exact .closed (.inl rfl) hp htable (by simp [Position.opens, hroom])
    · rintro e _ ⟨rfl, hframe⟩
      exact .closed (by simp [LuaError]) hp htable (by simp [Position.opens, hframe])
  · rintro e rb₁ ⟨he, h₁, hstop⟩
    exact .invalid he h₁ hp (hheader.trans hstop)

theorem array_succ (hone : OneSpec bs host top fuel) (harray : ArraySpec bs host top fuel) :
    ArraySpec bs host top (fuel + 1) := by
  intro rb count opened i n t h hfuel
  unfold unpackArray
  apply Ends.ite
  · intro hi
    -- one more value of the array part
    have hcount : (n + 1 - i).toNat = (n + 1 - (i + 1)).toNat + 1 := by omega
    let p : Position := ⟨count, .elements (n + 1 - i).toNat :: opened, unread rb⟩
    apply Ends.bind.mpr
    apply (hone rb p h (Position.fine_cons (by simp)) rfl (by omega)).mono
    · rintro v rb₁ ⟨h₁, hshort₁, hlead₁⟩
      change (unread rb₁).length < (unread rb).length at hshort₁
      have hnext : complete (unread rb₁) count (item v) p.opened
          = ⟨count, .elements (n + 1 - (i + 1)).toNat :: opened, unread rb₁⟩ := by
        simp only [p, hcount]
        cases item v <;> rfl
      rw [hnext] at hlead₁
      apply (harray rb₁ count opened (i + 1) n _ h₁ (by omega)).mono
      · rintro t' rb₂ ⟨h₂, hshort₂, hlead₂⟩
        exact ⟨h₂, by omega, hlead₁.trans hlead₂⟩
      · intro e rb₂ he
        exact he.lead hlead₁
    · intro e rb₁ he
      exact he
  · intro hi
    have hzero : (n + 1 - i).toNat = 0 := by omega
    rw [hzero]
    exact Ends.pure.mpr ⟨h, le_rfl, .refl _⟩

theorem hash_succ (hone : OneSpec bs host top fuel) (hhash : HashSpec bs host top fuel) :
    HashSpec bs host top (fuel + 1) := by
  intro rb count opened t h hfuel
  let p : Position := ⟨count, .elements 0 :: opened, unread rb⟩
  have hslots : Position.slots top ⟨count, .elements 0 :: opened, []⟩ = p.slots top := rfl
  unfold unpackHash
  rw [hslots]
  apply Ends.bind.mpr
  apply (hone rb p h (Position.fine_cons (by simp)) rfl (by omega)).mono
  · rintro k rb₁ ⟨h₁, hshort₁, hlead₁⟩
    change (unread rb₁).length < (unread rb).length at hshort₁
    apply Ends.ite
    · intro hnil
      -- a nil key closes the table
      have hitem : item k = .nil := by
        cases k with
        | scalar w =>
          cases w <;> simp_all [LuaValue.isNil, item, itemOf]
        | _ => simp [LuaValue.isNil] at hnil
      rw [hitem] at hlead₁
      exact Ends.pure.mpr ⟨h₁, by omega, hlead₁⟩
    · intro hnil
      -- the value of the key, which lies on the stack above the table
      let q : Position := ⟨count, .value (item k = .nan) :: opened, unread rb₁⟩
      have hkey : complete (unread rb₁) count (item k) p.opened = q := by
        have hitem : item k ≠ .nil := by
          cases k with
          | scalar w =>
            cases w with
            | nil => simp [LuaValue.isNil] at hnil
            | real d => by_cases hd : isNaN d = true <;> simp [item, itemOf, hd]
            | _ => simp [item, itemOf]
          | _ => simp [item]
        simp only [p, q]
        cases hk : item k with
        | nil => exact absurd hk hitem
        | _ => rfl
      have hslots' : p.slots top + 1 = q.slots top := by
        simp only [p, q, Position.slots, List.map_cons, List.sum_cons, Expecting.slots]
        omega
      rw [hkey] at hlead₁
      rw [hslots']
      apply Ends.bind.mpr
      apply (hone rb₁ q h₁ (Position.fine_cons (by simp)) rfl (by omega)).mono
      · rintro v rb₂ ⟨h₂, hshort₂, hlead₂⟩
        change (unread rb₂).length < (unread rb₁).length at hshort₂
        apply Ends.bind.mpr
        apply (rawset_ends t k v).mono
        · rintro t' rb₃ ⟨rfl, hnan⟩
          have hnext : complete (unread rb₃) count (item v) q.opened
              = ⟨count, .elements 0 :: opened, unread rb₃⟩ := by
            simp only [q, hnan, decide_false]
            cases item v <;> rfl
          rw [hnext] at hlead₂
          apply (hhash rb₃ count opened t' h₂ (by omega)).mono
          · rintro t'' rb₄ ⟨h₄, hshort₄, hlead₄⟩
            exact ⟨h₄, by omega, hlead₁.trans (hlead₂.trans hlead₄)⟩
          · intro e rb₄ he
            exact (he.lead hlead₂).lead hlead₁
        · rintro e rb₃ ⟨rfl, hnan⟩
          have hnext : complete (unread rb₂) count (item v) q.opened
              = ⟨count, .refused :: opened, unread rb₂⟩ := by
            simp only [q, hnan, decide_true]
            cases item v <;> rfl
          rw [hnext] at hlead₂
          apply Fails.lead (hlead₁.trans hlead₂)
          exact .lua (.inr (.inr (.inl rfl))) (.inl rfl)
      · intro e rb₂ he
        exact he.lead hlead₁
  · intro e rb₁ he
    exact he

/-- **The reader follows the positions**, for all the functions that call each other. -/
theorem unpack_follows (bs : Bytes) (host : UnpackHost) (top fuel : ℕ) :
    OneSpec bs host top fuel ∧ TableSpec bs host top fuel ∧ ArraySpec bs host top fuel ∧ HashSpec bs host top fuel := by
  induction fuel with
  | zero =>
    refine ⟨?_, ?_, ?_, ?_⟩
    · intro rb p _ _ _ hfuel
      omega
    · intro rb p cookie _ _ _ _ hfuel
      omega
    · intro rb count opened i n t _ hfuel
      omega
    · intro rb count opened t _ hfuel
      omega
  | succ fuel ih =>
    obtain ⟨hone, htable, harray, hhash⟩ := ih
    exact ⟨one_succ htable, table_succ harray hhash, array_succ hone harray, hash_succ hone hhash⟩

/-! ## The top level -/

/-- What the loop of `luaseri_unpack` ends in, from the position `p` on: a list of values
where the stream ends, or an error that the positions explain. -/
def EndsAt (bs : Bytes) (host : UnpackHost) (top : ℕ) (p : Position) (rb : ReadBlock) : Prop :=
  Reading bs rb ∧ ∃ q, Leads (Position.next host top) p q ∧ ¬q.Faulty host top ∧ header q.rest = .stop

/-- One round of the loop of `luaseri_unpack`: the check of the stack at every eighth value,
then the end of the stream or one more value. -/
theorem unpackLoop_ends {fuel i : ℕ} {vs : List (LuaValue Unit)} (h : Reading bs rb)
    {Q : List (LuaValue Unit) → ReadBlock → Prop} {E : UnpackError → ReadBlock → Prop}
    (hfull : i % 8 = 7 → stackRoom (top + i) = false → E .stackOverflow rb)
    (hend : (i % 8 = 7 → stackRoom (top + i) = true) → cut 1 (unread rb) = none → Q vs rb)
    (hnext : (i % 8 = 7 → stackRoom (top + i) = true) → ∀ t rb₁, Reading bs rb₁ →
      cut 1 (unread rb) = some (t, unread rb₁) →
      Ends (pushValue (unpackTable fuel host (top + i)) (leNat t &&& 7) (leNat t >>> 3)) rb₁
        (fun v rb₂ => Ends (unpackLoop fuel host top (i + 1) (vs ++ [v])) rb₂ Q E) E) :
    Ends (unpackLoop (fuel + 1) host top i vs) rb Q E := by
  have hrest : ∀ k, k none = pure vs →
      (∀ t, k (some t) = pushValue (unpackTable fuel host (top + i)) (leNat t &&& 7) (leNat t >>> 3) >>=
        fun v => unpackLoop fuel host top (i + 1) (vs ++ [v])) →
      (i % 8 = 7 → stackRoom (top + i) = true) → Ends (rbRead 1 >>= k) rb Q E := by
    intro k hnone hsome hroom
    apply Ends.bind.mpr
    apply (rbRead_ends h 1).mono
    · rintro o rb₁ ⟨h₁, ho⟩
      cases o with
      | none =>
        rw [ho.1, hnone]
        exact Ends.pure.mpr (hend hroom ho.2)
      | some t =>
        rw [hsome]
        apply Ends.bind.mpr
        exact hnext hroom t rb₁ h₁ ho
    · intro e rb₁ hfalse
      exact hfalse.elim
  unfold unpackLoop
  by_cases height : i % 8 = 7
  · simp only [height, if_true]
    apply Ends.bind.mpr
    apply (checkStack_ends (top + i)).mono
    · rintro _ rb₁ ⟨rfl, hroom⟩
      exact hrest _ rfl (fun _ => rfl) fun _ => hroom
    · rintro e rb₁ ⟨rfl, rfl, hroom⟩
      exact hfull height hroom
  · simp only [height, if_false]
    exact hrest _ rfl (fun _ => rfl) fun h => absurd h height

theorem unpackLoop_follows {fuel i : ℕ} {vs : List (LuaValue Unit)} (h : Reading bs rb)
    (hfuel : 3 * (unread rb).length + 2 ≤ fuel) :
    Ends (unpackLoop fuel host top i vs) rb
      (fun _ rb' => EndsAt bs host top ⟨i, [], unread rb⟩ rb')
      (Fails bs host top ⟨i, [], unread rb⟩) := by
  induction fuel generalizing rb i vs with
  | zero => omega
  | succ fuel ih =>
    let p : Position := ⟨i, [], unread rb⟩
    have hfine : (i % 8 = 7 → stackRoom (top + i) = true) → p.Fine top := by
      intro hroom
      refine ⟨by simp [p, Position.Refused], ?_⟩
      rintro ⟨-, height, hcrowded⟩
      rw [hroom height] at hcrowded
      cases hcrowded
    apply unpackLoop_ends h
    · intro height hfull
      exact .lua (.inl rfl) (.inr (.inl ⟨rfl, height, hfull⟩))
    · intro hroom hcut
      have hstop : header p.rest = .stop := by
        rw [header, hcut]
      refine ⟨h, p, .refl p, ?_, hstop⟩
      simp [Position.faulty_iff (hfine hroom), Position.BadHeader, hstop]
    · intro hroom t rb₁ h₁ hcut
      have hlength := cut_length hcut
      obtain ⟨-, htable, -, -⟩ := unpack_follows bs host top fuel
      have hvalue := pushValue_passes htable h₁ (hfine hroom) hcut (by omega)
      rw [show insideTables host p.opened.length = host from insideTables_zero host] at hvalue
      apply hvalue.mono
      · rintro v rb₂ ⟨h₂, hshort, hlead⟩
        change (unread rb₂).length < (unread rb).length at hshort
        apply (ih h₂ (by omega)).mono
        · rintro vs' rb₃ ⟨h₃, q, hq, hend⟩
          exact ⟨h₃, q, hlead.trans hq, hend⟩
        · intro e rb₃ he
          exact he.lead hlead
      · intro e rb₂ he
        exact he

/-- What is claimed of a call of `luaseri_unpack` on the bytes `bs`: the reads lie inside
them and do not go back, and the call returns a list of values or stops with the
invalid-stream error. -/
def UnpackSafe (bs : Bytes)
    (r : EStateM.Result UnpackError ReadBlock (List (LuaValue Unit))) : Prop :=
  (∀ x ∈ (endState r).reads, Inside bs.length x) ∧
    ((∃ vs rb, r = .ok vs rb) ∨ ∃ e rb, r = .error e rb ∧ Invalid e)

theorem LuaError.not_invalid (h : LuaError e) : ¬Invalid e := by
  rintro ⟨len, line, rfl⟩
  rcases h with h | h | h | h | h <;> cases h

theorem luaseriUnpack_nil (host : UnpackHost) (top : ℕ) : luaseriUnpackOn host top (.buffer []) = .ok [] (rballInit [] 0) := by
  have hzero : toInt32 (([] : Bytes).length) = 0 := toInt32_of_lt (by decide)
  unfold luaseriUnpackOn
  simp only [hzero, if_true]

/-- **`skynet.unpack` is safe on a byte string** exactly if header by header no position of
it is faulty: no string announces a 32-bit length of 2^31 or more, no value is complete for
the key NaN, the Lua stack has room for the values and the open tables, the C stack for the
open tables, and there is memory for the array parts that are announced. -/
theorem unpack_safe_iff (host : UnpackHost) (top : ℕ) (bs : Bytes) (hsize : bs.length < 2 ^ 31) :
    UnpackSafe bs (luaseriUnpackOn host top (.buffer bs)) ↔ Readable host top bs := by
  have hlen : toInt32 bs.length = bs.length := toInt32_of_lt hsize
  by_cases hempty : (bs.length : ℤ) = 0
  · have hbs : bs = [] := by simpa using hempty
    subst hbs
    have hstop : header (Position.start []).rest = .stop := rfl
    have hok : ¬(Position.start []).Faulty host top := by
      simp [Position.Faulty, Position.Refused, Position.Crowded, Position.BadHeader,
        Position.start, header, cut]
    constructor
    · intro _ p hp
      rw [← hp.eq_of_end (Position.next_of_stop hstop)]
      exact hok
    · intro _
      rw [luaseriUnpack_nil]
      exact ⟨by simp [endState, rballInit], .inl ⟨_, _, rfl⟩⟩
  have hloop : Ends (unpackLoop (unpackFuel bs.length) host top 0 []) (rballInit bs bs.length)
      (fun _ rb' => EndsAt bs host top ⟨0, [], unread (rballInit bs bs.length)⟩ rb')
      (Fails bs host top ⟨0, [], unread (rballInit bs bs.length)⟩) :=
    unpackLoop_follows (reading_init bs) (by rw [unread_init, unpackFuel, Int.toNat_natCast])
  have hresult : luaseriUnpackOn host top (.buffer bs)
      = unpackLoop (unpackFuel bs.length) host top 0 [] (rballInit bs bs.length) := by
    simp only [luaseriUnpackOn, hlen, hempty, if_false]
  rw [hresult]
  unfold Ends at hloop
  -- the positions end where the reader ends, and nowhere else
  have hunique : ∀ q, Leads (Position.next host top) (Position.start bs) q →
      ¬q.Faulty host top → header q.rest = .stop → Readable host top bs := by
    intro q hq hok hstop p hp hfaulty
    have heq := hq.end_unique hp (Position.next_of_stop hstop)
      (Position.next_of_faulty hfaulty)
    rw [heq] at hok
    exact hok hfaulty
  cases hr : unpackLoop (unpackFuel bs.length) host top 0 [] (rballInit bs bs.length) with
  | ok vs rb =>
    rw [hr] at hloop
    obtain ⟨hreading, q, hq, hok, hstop⟩ := hloop
    constructor
    · intro _
      exact hunique q hq hok hstop
    · intro _
      exact ⟨hreading.reads, .inl ⟨_, _, rfl⟩⟩
  | error e rb =>
    rw [hr] at hloop
    obtain ⟨q, hq, ⟨he, hreading, hok, hstop⟩ | ⟨he, hfaulty⟩⟩ := hloop
    · constructor
      · intro _
        exact hunique q hq hok hstop
      · intro _
        exact ⟨hreading.reads, .inr ⟨e, rb, rfl, he⟩⟩
    · constructor
      · rintro ⟨-, ⟨vs, rb', h⟩ | ⟨e', rb', h, he'⟩⟩
        · cases h
        · cases h
          exact absurd he' he.not_invalid
      · intro hreadable
        exact absurd hfaulty (hreadable q hq)

/-- A process with room for a hundred tables inside each other, and memory for arrays of less
than 2^20 values. -/
def smallHost : UnpackHost := ⟨some 100, fun _ n => n < 2 ^ 20⟩

/-- Behind the number 7, a table with an array part of 2^31 - 1 values is announced. -/
theorem unpack_safe_iff_truncated :
    UnpackSafe [0x0a, 7, 0xfe, 0x22, 0xff, 0xff, 0xff, 0x7f]
        (luaseriUnpackOn smallHost 10
          (.buffer [0x0a, 7, 0xfe, 0x22, 0xff, 0xff, 0xff, 0x7f])) ↔
      Readable smallHost 10 [0x0a, 7, 0xfe, 0x22, 0xff, 0xff, 0xff, 0x7f] :=
  unpack_safe_iff smallHost 10 _ (by decide)

/-- **A string of 2^32 - 1 bytes** is announced: `rb_read` goes back one byte, and the call
stops with an error of the Lua API. -/
theorem long_string_goes_back :
    ¬UnpackSafe [0x25, 0xff, 0xff, 0xff, 0xff]
      (luaseriUnpack 10 (.buffer [0x25, 0xff, 0xff, 0xff, 0xff])) := by
  rintro ⟨hreads, -⟩
  have hmem : (⟨5, -1⟩ : Read) ∈
      (endState (luaseriUnpack 10 (.buffer [0x25, 0xff, 0xff, 0xff, 0xff]))).reads := by
    decide +kernel
  exact absurd (hreads _ hmem).1 (by decide)

end Skynet.Analysis
