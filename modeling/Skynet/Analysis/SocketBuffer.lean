import Skynet.Library.BlockQueue
import Skynet.Library.Occurrence
import Skynet.Analysis.BsonReading
import Skynet.Model.SocketBuffer

/-!
# A socket buffer is a byte string

Every call on a buffer of the pool does and returns what the same call does on the byte
string that was pushed and not yet consumed.  `Buffered` relates the blocks of one buffer
to its byte string, with the other buffers of the pool left as they are; each function
has one lemma over it, and the runs follow.

The numbers that Lua passes become `int`s.  A count or a separator that does not fit is
cut off, and then the call does what it would do with the number left over.
-/

namespace Skynet.Analysis

open Library Model List Option Function

structure SizedBlock (b : BufferNode) : Prop where
  sz : b.sz = b.msg.length
  ne : b.msg ≠ []

/-- The buffer `i` has the blocks `cs`, and they spell `s`; the others are as `q` and
`contents` say. -/
structure Buffered (p : NodePool BufferNode) (q : ℕ → HeadTail ℕ)
    (contents : ℕ → List BufferNode) (i : ℕ) (sb : SocketBuffer) (cs : List BufferNode)
    (s : Bytes) : Prop where
  holds : p.Holds (update q i sb.list) (update contents i cs)
  stored : ∃ off : ℕ, sb.offset = off ∧ Stored BufferNode.msg off cs s
  sized : ∀ b ∈ cs, SizedBlock b

theorem blockBytes_eq {msg : Bytes} {off n : ℕ} (h : off + n ≤ msg.length) :
    blockBytes msg off n = some ((msg.drop off).take n) := by
  rw [blockBytes, if_pos ⟨by omega, by omega, by omega⟩, Int.toNat_natCast, Int.toNat_natCast]

theorem take_eq_append {α : Type} (s : List α) (m k : ℕ) :
    s.take m = s.take (min m k) ++ (s.drop k).take (m - k) := by
  rcases Nat.le_total m k with h | h
  · rw [Nat.min_eq_left h, Nat.sub_eq_zero_of_le h, take_zero, append_nil]
  · rw [Nat.min_eq_right h, ← take_add, Nat.add_sub_cancel' h]

section Nodes

variable {p : NodePool BufferNode} {q : ℕ → HeadTail ℕ} {contents : ℕ → List BufferNode}
  {i : ℕ} {sb : SocketBuffer} {c : BufferNode} {cs : List BufferNode} {s : Bytes}

theorem Buffered.head (h : Buffered p q contents i sb (c :: cs) s) :
    ∃ a, sb.list.head = some a ∧ p.content a = some c := by
  obtain ⟨a, hhead, hcontent, -⟩ := h.holds.pop (i := i) (update_self ..)
  rw [update_self] at hhead
  exact ⟨a, hhead, hcontent⟩

theorem Buffered.head_eq_none_iff (h : Buffered p q contents i sb cs s) :
    sb.list.head = none ↔ s = [] := by
  obtain ⟨off, -, hstored⟩ := h.stored
  rw [hstored.nil_iff]
  have hshows := h.holds.shows i
  rw [update_self, update_self] at hshows
  cases cs with
  | nil => exact iff_of_true hshows rfl
  | cons c cs =>
    obtain ⟨a, ha, -⟩ := hshows
    simp [ha]

theorem Buffered.length_le (h : Buffered p q contents i sb cs s) : cs.length ≤ p.count := by
  have := h.holds.length_le i
  rwa [update_self] at this

theorem returnFreeNode_spec (sb : SocketBuffer)
    (h : p.Holds (update q i sb.list) (update contents i (c :: cs))) :
    ∃ p' sb', returnFreeNode p sb = some (p', sb') ∧
      p'.Holds (update q i sb'.list) (update contents i cs) ∧
      sb'.offset = 0 ∧ sb'.size = sb.size := by
  obtain ⟨a, hhead, -, -, -, hrelease⟩ := h.pop (i := i) (update_self ..)
  rw [update_self] at hhead
  rw [update_self, update_idem, update_idem] at hrelease
  have hreturn : returnFreeNode p sb = some (p.release a, { sb with
      offset := 0
      list := ⟨p.next a, if p.next a = none then none else sb.list.tail⟩ }) := by
    rw [returnFreeNode, hhead]
    rfl
  exact ⟨_, _, hreturn, hrelease, rfl, rfl⟩

theorem returnFreeNode_next {off : ℕ} (offset : ℤ) (hsized : ∀ b ∈ c :: cs, SizedBlock b)
    (hstored : Stored BufferNode.msg off (c :: cs) s)
    (h : p.Holds (update q i sb.list) (update contents i (c :: cs))) :
    ∃ p' sb', returnFreeNode p { sb with offset := offset } = some (p', sb') ∧
      Buffered p' q contents i sb' cs (s.drop (c.msg.length - off)) ∧ sb'.size = sb.size := by
  obtain ⟨p', sb', hreturn, hholds, hoffset, hsize⟩ :=
    returnFreeNode_spec { sb with offset := offset } h
  have hrest : ∀ b ∈ cs, SizedBlock b := fun b hb => hsized b (mem_cons_of_mem c hb)
  exact ⟨p', sb', hreturn, ⟨hholds, ⟨0, hoffset, hstored.next fun b hb => (hrest b hb).ne⟩, hrest⟩,
    hsize⟩

end Nodes

section Pop

variable {p : NodePool BufferNode} {q : ℕ → HeadTail ℕ} {contents : ℕ → List BufferNode}
  {i : ℕ} {sb : SocketBuffer} {cs : List BufferNode} {s : Bytes}

def Pops (q : ℕ → HeadTail ℕ) (contents : ℕ → List BufferNode) (i : ℕ) (size : ℤ)
    (b s : Bytes) (sz skip : ℕ) (r : Option (Bytes × NodePool BufferNode × SocketBuffer)) : Prop :=
  ∃ p' sb' cs', r = some (b ++ s.take (sz - skip), p', sb') ∧
    Buffered p' q contents i sb' cs' (s.drop sz) ∧ sb'.size = size

theorem popLoop_spec (h : Buffered p q contents i sb cs s) {fuel current sz skip : ℕ}
    (hfuel : cs.length < fuel) (hcurrent : sb.list.head = some current) (hsz : 0 < sz)
    (hle : sz ≤ s.length) (b : Bytes) :
    Pops q contents i sb.size b s sz skip (popLoop skip fuel p sb current sz b) := by
  induction cs generalizing p sb s fuel current sz b with
  | nil =>
    obtain ⟨off, -, -, rfl⟩ := h.stored
    simp only [length_nil] at hle
    omega
  | cons c cs ih =>
    obtain ⟨fuel, rfl⟩ := Nat.exists_eq_succ_of_ne_zero (by omega : fuel ≠ 0)
    obtain ⟨a, ha, hcontent⟩ := h.head
    obtain rfl : a = current := Option.some.inj (ha.symm.trans hcurrent)
    obtain ⟨off, hoff, hstored⟩ := h.stored
    have hc := (h.sized c mem_cons_self).sz
    have hlt : off < c.msg.length := hstored.1
    simp only [popLoop, hcontent, hc, hoff, bind_eq_bind, bind_some]
    by_cases hwithin : sz ≤ c.msg.length - off
    · rw [if_pos (by omega)]
      have hread : (if (sz : ℤ) > skip then
            (blockBytes c.msg off ((sz : ℤ) - skip)).map (b ++ ·) else some b) =
          some (b ++ s.take (sz - skip)) := by
        by_cases hskip : skip < sz
        · rw [if_pos (by omega), ← Int.ofNat_sub (by omega), blockBytes_eq (by omega),
            map_some, hstored.take (by omega)]
        · rw [if_neg (by omega), Nat.sub_eq_zero_of_le (by omega), take_zero, append_nil]
      rw [hread, bind_some]
      by_cases hend : sz = c.msg.length - off
      · rw [if_pos (by omega)]
        obtain ⟨p', sb', hreturn, hbuf, hsize⟩ :=
          returnFreeNode_next (off + sz) h.sized hstored h.holds
        rw [hreturn]
        exact ⟨p', sb', cs, rfl, by rw [hend]; exact hbuf, hsize⟩
      · rw [if_neg (by omega)]
        exact ⟨p, _, c :: cs, rfl, ⟨h.holds, ⟨off + sz, by push_cast; rfl,
          hstored.advance (by omega)⟩, h.sized⟩, rfl⟩
    · rw [if_neg (by omega)]
      have hread : (if (sz : ℤ) - skip > 0 then
            (blockBytes c.msg off (if (sz : ℤ) - skip < c.msg.length - off then (sz : ℤ) - skip
              else c.msg.length - off)).map (b ++ ·) else some b) =
          some (b ++ s.take (min (sz - skip) (c.msg.length - off))) := by
        by_cases hskip : skip < sz
        · have hmin : (if (sz : ℤ) - skip < c.msg.length - off then (sz : ℤ) - skip
              else c.msg.length - off) = (min (sz - skip) (c.msg.length - off) : ℕ) := by
            split <;> omega
          rw [if_pos (by omega), hmin, blockBytes_eq (by omega), map_some, hstored.take (by omega)]
        · rw [if_neg (by omega), Nat.sub_eq_zero_of_le (by omega), Nat.zero_min, take_zero,
            append_nil]
      rw [hread, bind_some]
      obtain ⟨p', sb', hreturn, hbuf, hsize⟩ :=
        returnFreeNode_next sb.offset h.sized hstored h.holds
      rw [hreturn, bind_some, if_neg (by omega)]
      have hsz' : (sz : ℤ) - (c.msg.length - off) = (sz - (c.msg.length - off) : ℕ) := by omega
      have hleft : s.drop (c.msg.length - off) ≠ [] := by
        rw [ne_eq, drop_eq_nil_iff]
        omega
      cases hnext : sb'.list.head with
      | none => exact absurd (hbuf.head_eq_none_iff.mp hnext) hleft
      | some next =>
        rw [bind_some, hsz']
        have hfuel' : cs.length < fuel := by
          rw [length_cons] at hfuel
          omega
        obtain ⟨p'', sb'', cs'', hloop, hbuf', hsize'⟩ :=
          ih hbuf hfuel' hnext (show 0 < sz - (c.msg.length - off) by omega)
            (by rw [length_drop]; omega)
            (b ++ s.take (min (sz - skip) (c.msg.length - off)))
        refine ⟨p'', sb'', cs'', ?_, ?_, hsize'.trans hsize⟩
        · rw [hloop, append_assoc, take_eq_append s (sz - skip) (c.msg.length - off)]
          congr 5
          omega
        · rw [drop_drop, Nat.add_sub_cancel' (by omega)] at hbuf'
          exact hbuf'

theorem popLstring_spec (h : Buffered p q contents i sb cs s) {sz skip : ℕ} (hne : s ≠ [])
    (hle : sz ≤ s.length) (hskip : skip ≤ sz) :
    Pops q contents i sb.size [] s sz skip (popLstring p sb sz skip) := by
  cases cs with
  | nil =>
    obtain ⟨off, -, -, rfl⟩ := h.stored
    exact absurd rfl hne
  | cons c cs =>
    obtain ⟨a, ha, hcontent⟩ := h.head
    obtain ⟨off, hoff, hstored⟩ := h.stored
    have hc := (h.sized c mem_cons_self).sz
    have hlt : off < c.msg.length := hstored.1
    simp only [popLstring, ha, hcontent, hc, hoff, bind_eq_bind, bind_some]
    by_cases hwithin : sz < c.msg.length - off
    · rw [if_pos (by omega), ← Int.ofNat_sub hskip, blockBytes_eq (by omega), bind_some]
      exact ⟨p, { sb with offset := off + sz }, c :: cs,
        by rw [nil_append, hstored.take (by omega)]; rfl,
        ⟨h.holds, ⟨off + sz, by push_cast; rfl, hstored.advance hwithin⟩, h.sized⟩, rfl⟩
    · rw [if_neg (by omega)]
      by_cases hend : sz = c.msg.length - off
      · rw [if_pos (by omega), ← Int.ofNat_sub hskip, blockBytes_eq (by omega), bind_some]
        obtain ⟨p', sb', hreturn, hbuf, hsize⟩ :=
          returnFreeNode_next sb.offset h.sized hstored h.holds
        rw [hreturn]
        exact ⟨p', sb', cs, by rw [nil_append, hstored.take (by omega)]; rfl,
          by rw [hend]; exact hbuf, hsize⟩
      · rw [if_neg (by omega)]
        exact popLoop_spec h (Nat.lt_succ_of_le h.length_le) ha (by omega) hle []

end Pop

section Read

variable {p : NodePool BufferNode} {q : ℕ → HeadTail ℕ} {contents : ℕ → List BufferNode}
  {i : ℕ} {sb : SocketBuffer} {cs : List BufferNode} {s : Bytes}

theorem clearLoop_spec (h : p.Holds (update q i sb.list) (update contents i cs))
    (hoff : cs = [] → sb.offset = 0) {fuel : ℕ} (hfuel : cs.length < fuel) :
    ∃ p' sb', clearLoop fuel p sb = some (p', sb') ∧ Buffered p' q contents i sb' [] [] := by
  induction cs generalizing p sb fuel with
  | nil =>
    obtain ⟨fuel, rfl⟩ := Nat.exists_eq_succ_of_ne_zero (by omega : fuel ≠ 0)
    have hshows := h.shows i
    rw [update_self, update_self] at hshows
    have hhead : sb.list.head = none := hshows
    refine ⟨p, sb, by rw [clearLoop, hhead], h, ⟨0, hoff rfl, rfl, rfl⟩, by simp⟩
  | cons c cs ih =>
    obtain ⟨fuel, rfl⟩ := Nat.exists_eq_succ_of_ne_zero (by omega : fuel ≠ 0)
    obtain ⟨a, ha, -⟩ := h.pop (i := i) (update_self ..)
    rw [update_self] at ha
    obtain ⟨p', sb', hreturn, hholds, hoffset, -⟩ := returnFreeNode_spec sb h
    rw [clearLoop, ha]
    simp only [hreturn, bind_some]
    exact ih hholds (fun _ => hoffset) (by rw [length_cons] at hfuel; omega)

theorem readallLoop_spec (h : Buffered p q contents i sb cs s) {fuel : ℕ}
    (hfuel : cs.length < fuel) (b : Bytes) :
    ∃ p' sb', readallLoop fuel p sb b = some (b ++ s, p', sb') ∧
      Buffered p' q contents i sb' [] [] := by
  induction cs generalizing p sb s fuel b with
  | nil =>
    obtain ⟨fuel, rfl⟩ := Nat.exists_eq_succ_of_ne_zero (by omega : fuel ≠ 0)
    obtain ⟨off, -, -, rfl⟩ := h.stored
    have hhead : sb.list.head = none := h.head_eq_none_iff.mpr rfl
    exact ⟨p, sb, by rw [readallLoop, hhead, append_nil], h⟩
  | cons c cs ih =>
    obtain ⟨fuel, rfl⟩ := Nat.exists_eq_succ_of_ne_zero (by omega : fuel ≠ 0)
    obtain ⟨a, ha, hcontent⟩ := h.head
    obtain ⟨off, hoff, hstored⟩ := h.stored
    have hc := (h.sized c mem_cons_self).sz
    have hlt : off < c.msg.length := hstored.1
    obtain ⟨p', sb', hreturn, hbuf, -⟩ :=
      returnFreeNode_next sb.offset h.sized hstored h.holds
    have hread : blockBytes c.msg off ((c.msg.length : ℤ) - off) = some (c.msg.drop off) := by
      rw [← Int.ofNat_sub hlt.le, blockBytes_eq (by omega), take_of_length_le]
      rw [length_drop]
    obtain ⟨p'', sb'', hloop, hbuf'⟩ :=
      ih hbuf (by rw [length_cons] at hfuel; omega : cs.length < fuel) (b ++ c.msg.drop off)
    refine ⟨p'', sb'', ?_, hbuf'⟩
    rw [readallLoop, ha]
    simp only [hcontent, hc, hoff, bind_eq_bind, bind_some, hread]
    rw [hreturn, bind_some, hloop, append_assoc, hstored.drop_eq, ← hstored.2]

theorem memcmpEq_eq {msg sep : Bytes} {off n : ℕ} (hmsg : off + n ≤ msg.length)
    (hsep : n ≤ sep.length) :
    memcmpEq msg off sep n = some ((msg.drop off).take n == sep.take n) := by
  have hread : blockBytes sep 0 n = some (sep.take n) := by
    have h := blockBytes_eq (show 0 + n ≤ sep.length by omega)
    rwa [drop_zero] at h
  rw [memcmpEq, blockBytes_eq hmsg, hread]
  rfl

theorem append_prefix_append {α : Type} {s t s' t' : List α} (h : s.length = s'.length) :
    s ++ t <+: s' ++ t' ↔ s = s' ∧ t <+: t' := by
  constructor
  · rintro ⟨u, hu⟩
    rw [append_assoc] at hu
    obtain ⟨hs, ht⟩ := append_inj hu h
    exact ⟨hs, u, ht⟩
  · rintro ⟨rfl, ht⟩
    exact (prefix_append_right_inj s).mpr ht

theorem checkSep_spec {fuel node f k : ℕ} {c : BufferNode} {cs : List BufferNode}
    {sep : Bytes} (hshows : p.Shows (some node) (c :: cs))
    (hsized : ∀ b ∈ c :: cs, SizedBlock b) (hf : f ≤ c.msg.length) (hk : k ≤ sep.length)
    (hle : k ≤ (c.msg.drop f ++ (cs.map BufferNode.msg).flatten).length)
    (hfuel : cs.length < fuel) :
    checkSep p fuel node f sep k =
      some (decide (sep.take k <+: c.msg.drop f ++ (cs.map BufferNode.msg).flatten)) := by
  induction cs generalizing fuel node f k c sep with
  | nil =>
    obtain ⟨fuel, rfl⟩ := Nat.exists_eq_succ_of_ne_zero (by omega : fuel ≠ 0)
    obtain ⟨a, ha, hcontent, -⟩ := hshows
    cases ha
    have hc := (hsized c mem_cons_self).sz
    simp only [map_nil, flatten_nil, append_nil, length_drop] at hle ⊢
    simp only [checkSep, hcontent, hc, bind_eq_bind, bind_some]
    rw [if_pos (by omega), memcmpEq_eq (by omega) hk, Option.some.injEq, Bool.eq_iff_iff,
      beq_iff_eq, decide_eq_true_iff, prefix_iff_eq_take, length_take, Nat.min_eq_left hk]
    exact eq_comm
  | cons d ds ih =>
    obtain ⟨fuel, rfl⟩ := Nat.exists_eq_succ_of_ne_zero (by omega : fuel ≠ 0)
    obtain ⟨a, ha, hcontent, hnext⟩ := hshows
    cases ha
    have hc := (hsized c mem_cons_self).sz
    simp only [checkSep, hcontent, hc, bind_eq_bind, bind_some]
    by_cases hin : k ≤ c.msg.length - f
    · rw [if_pos (by omega), memcmpEq_eq (by omega) hk, Option.some.injEq, Bool.eq_iff_iff,
        beq_iff_eq, decide_eq_true_iff, prefix_iff_eq_take, length_take,
        Nat.min_eq_left hk, take_append_of_le_length (by rw [length_drop]; exact hin)]
      exact eq_comm
    · rw [if_neg (by omega)]
      have hsame : (if (c.msg.length : ℤ) - f > 0 then
            memcmpEq c.msg f sep ((c.msg.length : ℤ) - f) else some true) =
          some (decide (sep.take (c.msg.length - f) = c.msg.drop f)) := by
        by_cases hend : f = c.msg.length
        · rw [if_neg (by omega), hend, Nat.sub_self, take_zero, drop_length]
          rfl
        · rw [if_pos (by omega), ← Int.ofNat_sub hf, memcmpEq_eq (by omega) (by omega),
            Option.some.injEq, Bool.eq_iff_iff, beq_iff_eq, decide_eq_true_iff,
            take_of_length_le (by rw [length_drop])]
          exact eq_comm
      -- The separator is cut where the block ends.
      have hcut : sep.take k = sep.take (c.msg.length - f) ++
            (sep.drop (c.msg.length - f)).take (k - (c.msg.length - f)) := by
        rw [← take_add, Nat.add_sub_cancel' (by omega)]
      have hlen : (sep.take (c.msg.length - f)).length = (c.msg.drop f).length := by
        rw [length_take, length_drop]
        omega
      rw [hsame, bind_some, hcut]
      simp only [append_prefix_append hlen, decide_eq_true_eq]
      by_cases heq : sep.take (c.msg.length - f) = c.msg.drop f
      · obtain ⟨a, ha, hcontent', hnext'⟩ := hnext
        rw [ha, bind_some]
        have hk' : (k : ℤ) - (c.msg.length - f) = (k - (c.msg.length - f) : ℕ) := by omega
        have hto : ((c.msg.length : ℤ) - f).toNat = c.msg.length - f := by omega
        have hshows' : p.Shows (some a) (d :: ds) := ⟨a, rfl, hcontent', hnext'⟩
        have hk : k - (c.msg.length - f) ≤ (sep.drop (c.msg.length - f)).length := by
          rw [length_drop]
          omega
        have hfuel' : ds.length < fuel := by
          rw [length_cons] at hfuel
          omega
        have hrec := ih (f := 0) hshows' (fun b hb => hsized b (mem_cons_of_mem c hb))
          (Nat.zero_le _) hk
          (by
            rw [length_append, length_drop, map_cons, flatten_cons, length_append] at hle
            rw [length_append, length_drop]
            omega)
          hfuel'
        rw [hk', hto]
        simpa [heq] using hrec
      · simp [heq]

/-- The loop of `lreadline` finds the first occurrence of the first `k` bytes of the
separator, by induction on the rounds. -/
theorem readlineLoop_spec {rounds current f k : ℕ} {c : BufferNode} {cs : List BufferNode}
    {sep : Bytes} {i : ℤ} (hshows : p.Shows (some current) (c :: cs))
    (hcount : (c :: cs).length ≤ p.count) (hsized : ∀ b ∈ c :: cs, SizedBlock b)
    (hf : f < c.msg.length) (hk : k ≤ sep.length)
    (hrounds : rounds = (c.msg.drop f ++ (cs.map BufferNode.msg).flatten).length + 1 - k) :
    readlineLoop p sep k rounds current f ((c.msg.length : ℤ) - f) i =
      some ((firstAt (sep.take k) (c.msg.drop f ++ (cs.map BufferNode.msg).flatten)).map
        fun j : ℕ => i + (j : ℤ)) := by
  induction rounds generalizing current f c cs i with
  | zero =>
    rw [firstAt_of_lt (by rw [length_take]; omega)]
    rfl
  | succ rounds ih =>
    have hbyte : c.msg.drop f = c.msg[f] :: c.msg.drop (f + 1) := drop_eq_getElem_cons hf
    rw [length_cons] at hcount
    have hcheck : checkSep p (p.count + 1) current f sep k =
        some (decide (sep.take k <+: c.msg.drop f ++ (cs.map BufferNode.msg).flatten)) :=
      checkSep_spec hshows hsized hf.le hk (by omega) (by omega)
    simp only [readlineLoop, hcheck, bind_eq_bind, bind_some]
    rw [hbyte, cons_append] at hrounds ⊢
    rw [firstAt]
    by_cases hpre : sep.take k <+:
        c.msg[f] :: (c.msg.drop (f + 1) ++ (cs.map BufferNode.msg).flatten)
    · simp [hpre]
    · simp only [hpre, decide_false, Bool.false_eq_true, if_false]
      have hrounds' : rounds =
          (c.msg.drop (f + 1) ++ (cs.map BufferNode.msg).flatten).length + 1 - k := by
        rw [length_cons] at hrounds
        omega
      have hshift : ∀ X, (firstAt (sep.take k) X).map (fun j : ℕ => i + 1 + (j : ℤ)) =
          ((firstAt (sep.take k) X).map (· + 1)).map fun j : ℕ => i + (j : ℤ) := by
        intro X
        rw [Option.map_map]
        congr 1
        funext j
        simp only [comp_apply]
        omega
      by_cases hlast : f + 1 = c.msg.length
      · rw [if_pos (by omega)]
        rw [hlast, drop_length, nil_append] at hrounds' ⊢
        obtain ⟨a, ha, -, hnext⟩ := hshows
        cases ha
        cases cs with
        | nil =>
          have hnone : p.next current = none := hnext
          simp only [hnone, map_nil, flatten_nil]
          rfl
        | cons d ds =>
          obtain ⟨a, ha, hcontent, hnext'⟩ := hnext
          have hd := hsized d (by simp)
          have hshows' : p.Shows (some a) (d :: ds) := ⟨a, rfl, hcontent, hnext'⟩
          have hrec := ih (f := 0) (i := i + 1) hshows' (by omega)
            (fun b hb => hsized b (mem_cons_of_mem c hb)) (length_pos_iff.mpr hd.ne)
            (by rw [drop_zero]; exact hrounds')
          simp only [ha, hcontent, bind_some, hd.sz]
          rw [map_cons, flatten_cons, ← hshift]
          simpa using hrec
      · rw [if_neg (by omega), ← hshift]
        have hrec := ih (f := f + 1) (i := i + 1) hshows
          (by rw [length_cons]; omega) hsized (by omega) hrounds'
        have hbytes : (c.msg.length : ℤ) - f - 1 = c.msg.length - ((f + 1 : ℕ) : ℤ) := by omega
        rw [hbytes]
        exact hrec

end Read

/-! ## The byte string -/

def stringCall (s : Bytes) : BufferOp → BufferResult × Bytes
  | .push msg => (.size (s ++ msg).length, s ++ msg)
  | .pop n =>
    if 1 ≤ n ∧ n ≤ s.length then
      (.popped (some (s.take n.toNat)) (s.drop n.toNat).length, s.drop n.toNat)
    else (.popped none s.length, s)
  | .readall => (.all s, [])
  | .readline sep check =>
    match firstAt sep s with
    | none => (.line .nothing, s)
    | some i =>
      if check then (.line .found, s) else (.line (.line (s.take i)), s.drop (i + sep.length))
  | .clear => (.cleared, [])

def stringRun (strings : ℕ → Bytes) :
    List (ℕ × BufferOp) → List BufferResult × (ℕ → Bytes)
  | [] => ([], strings)
  | (b, op) :: ops =>
    let r := stringCall (strings b) op
    let rest := stringRun (update strings b r.2) ops
    (r.1 :: rest.1, rest.2)

/-- What the calls of a socket's user are: blocks come from the socket server, which keeps
less than 2^31 bytes in a buffer, counts are positive and separators not empty. -/
def DeliveredCall (s : Bytes) : BufferOp → Prop
  | .push msg => msg ≠ [] ∧ s.length + msg.length < 2 ^ 31
  | .pop n => 1 ≤ n
  | .readline sep _ => sep ≠ []
  | _ => True

/-- What is left of a count or a length as an `int` does no harm: it is the number itself,
or the call finds nothing with it as it would without the cut. -/
def UnharmedCall (s : Bytes) : BufferOp → Prop
  | .pop n => toInt32 n = n ∨ toInt32 n = 0 ∨ s.length < toInt32 n
  | .readline sep _ =>
    sep.length < 2 ^ 31 ∨ s = [] ∨
      0 < toInt32 sep.length ∧ firstAt (sep.take (toInt32 sep.length).toNat) s = none
  | _ => True

def EachCall (P : Bytes → BufferOp → Prop) (strings : ℕ → Bytes) :
    List (ℕ × BufferOp) → Prop
  | [] => True
  | (b, op) :: ops =>
    P (strings b) op ∧ EachCall P (update strings b (stringCall (strings b) op).2) ops

structure KeepsString (sb : SocketBuffer) (cs : List BufferNode) (s : Bytes) : Prop where
  stored : ∃ off : ℕ, sb.offset = off ∧ Stored BufferNode.msg off cs s
  sized : ∀ b ∈ cs, SizedBlock b
  size : sb.size = s.length
  small : s.length < 2 ^ 31

/-- The buffers keep the byte strings, in nodes of the pool each of which is free once or
in one buffer, and was returned as often as it was taken, less one if it is in use. -/
def KeepsStrings (st : SocketBuffers) (strings : ℕ → Bytes) : Prop :=
  ∃ contents, st.pool.nodes.Holds (fun b => (st.buffers b).list) contents ∧
    ∀ b, KeepsString (st.buffers b) (contents b) (strings b)

section Calls

variable {pool : BufferPool} {q : ℕ → HeadTail ℕ} {contents : ℕ → List BufferNode}
  {i : ℕ} {sb : SocketBuffer} {cs : List BufferNode} {s : Bytes}

def Calls (q : ℕ → HeadTail ℕ) (contents : ℕ → List BufferNode) (i : ℕ)
    (m : Option (BufferResult × BufferPool × SocketBuffer)) (r : BufferResult × Bytes) : Prop :=
  ∃ pool' sb' cs', m = some (r.1, pool', sb') ∧
    pool'.nodes.Holds (update q i sb'.list) (update contents i cs') ∧
    KeepsString sb' cs' r.2

theorem KeepsString.buffered
    (hholds : pool.nodes.Holds (update q i sb.list) (update contents i cs))
    (h : KeepsString sb cs s) : Buffered pool.nodes q contents i sb cs s :=
  ⟨hholds, h.stored, h.sized⟩

theorem pageSize_pos (tsz : ℕ) : 0 < pageSize tsz := by
  unfold pageSize
  split
  · rw [Nat.shiftLeft_eq]
    exact Nat.mul_pos (by omega) (Nat.two_pow_pos _)
  · decide

theorem refillPool_spec {lists : ℕ → HeadTail ℕ} {contents : ℕ → List BufferNode}
    (h : pool.nodes.Holds lists contents) :
    (refillPool pool).nodes.Holds lists contents ∧ ∃ a, (refillPool pool).nodes.free = some a := by
  unfold refillPool
  cases hfree : pool.nodes.free with
  | some a => exact ⟨h, a, hfree⟩
  | none =>
    exact ⟨h.newPage hfree (pageSize_pos _), _, rfl⟩

theorem toInt32_le {n : ℕ} : toInt32 n ≤ n := by
  obtain ⟨-, hhigh, k, hk⟩ := toInt32_spec n
  rcases Nat.lt_or_ge n (2 ^ 31) with hn | hn
  · rw [toInt32_of_lt hn]
  · omega

variable (hholds : pool.nodes.Holds (update q i sb.list) (update contents i cs))
  (h : KeepsString sb cs s)

include hholds h

theorem push_call {msg : Bytes} (hne : msg ≠ []) (hsmall : s.length + msg.length < 2 ^ 31) :
    Calls q contents i (SocketBuffers.call pool sb (.push msg)) (stringCall s (.push msg)) := by
  obtain ⟨hrefill, a, hfree⟩ := refillPool_spec hholds
  obtain ⟨p', list, happend, hpush⟩ := hrefill.push hfree i (⟨msg, msg.length⟩ : BufferNode)
  rw [update_self] at happend
  rw [update_idem, update_idem, update_self] at hpush
  have hsz : toInt32 msg.length = msg.length := toInt32_of_lt (by omega)
  have hsize : toInt32 (sb.size + msg.length) = (s ++ msg).length := by
    rw [h.size, ← Int.natCast_add, toInt32_of_lt hsmall, length_append]
  refine ⟨⟨(refillPool pool).len, p'⟩, { sb with size := (s ++ msg).length, list := list },
    cs ++ [⟨msg, msg.length⟩], ?_, hpush, ?_, ?_, rfl, ?_⟩
  · simp only [SocketBuffers.call, lpushbuffer, hfree, bind_eq_bind, bind_some, hsz, hsize, happend]
    rfl
  · obtain ⟨off, hoff, hstored⟩ := h.stored
    exact ⟨off, hoff, hstored.push hne⟩
  · intro b hb
    rcases mem_append.mp hb with hb | hb
    · exact h.sized b hb
    · rw [mem_singleton] at hb
      subst hb
      exact ⟨rfl, hne⟩
  · simp only [stringCall, length_append]
    exact hsmall

/-- `lpopbuffer` gives that many bytes once they are there. -/
theorem pop_call {n : ℤ} (hn : 1 ≤ n) (hfit : UnharmedCall s (.pop n)) :
    Calls q contents i (SocketBuffers.call pool sb (.pop n)) (stringCall s (.pop n)) := by
  have hsmall := h.small
  by_cases hshort : sb.size < toInt32 n ∨ toInt32 n = 0
  · have hle : ¬ (1 ≤ n ∧ n ≤ s.length) := by
      rintro ⟨-, hle⟩
      have hsame : toInt32 n = n := toInt32_eq (by omega) (by omega)
      rw [hsame, h.size] at hshort
      omega
    refine ⟨pool, sb, cs, ?_, hholds, ?_⟩
    · rw [h.size] at hshort
      simp only [SocketBuffers.call, lpopbuffer, stringCall, if_neg hle, h.size, if_pos hshort]
      rfl
    · simpa only [stringCall, if_neg hle] using h
  · have hsame : toInt32 n = n := by
      rw [h.size] at hshort
      rcases hfit with hsame | hzero | hlt
      · exact hsame
      · omega
      · omega
    have hle : 1 ≤ n ∧ n ≤ s.length := by
      rw [h.size] at hshort
      omega
    obtain ⟨k, rfl⟩ := Int.eq_ofNat_of_zero_le (by omega : 0 ≤ n)
    have hne : s ≠ [] := ne_nil_of_length_pos (by omega)
    obtain ⟨p', sb', cs', hpop, hbuf, hsize⟩ := popLstring_spec (h.buffered hholds)
      hne (by omega) (Nat.zero_le k)
    have hleft : toInt32 (sb'.size - k) = (s.drop k).length := by
      rw [hsize, h.size, ← Int.ofNat_sub (by omega), toInt32_of_lt (by omega), length_drop]
    refine ⟨⟨pool.len, p'⟩, { sb' with size := (s.drop k).length }, cs', ?_, ?_, ?_⟩
    · simp only [SocketBuffers.call, lpopbuffer, if_neg hshort, stringCall, if_pos hle]
      rw [hsame, show (0 : ℤ) = (0 : ℕ) from rfl, hpop]
      simp only [bind_eq_bind, bind_some, hleft, Nat.sub_zero, nil_append]
      rfl
    · exact hbuf.holds
    · simp only [stringCall, if_pos hle, Int.toNat_natCast]
      exact ⟨hbuf.stored, hbuf.sized, rfl, by rw [length_drop]; omega⟩

/-- What `lreadline` does where the separator, cut to an `int`, is found as the whole one
is. -/
theorem readline_call_of {sep : Bytes} {check : Bool} {k : ℕ}
    (hk : toInt32 sep.length = k) (hfirst : firstAt (sep.take k) s = firstAt sep s)
    (hfound : (firstAt sep s).isSome → k = sep.length) :
    Calls q contents i (SocketBuffers.call pool sb (.readline sep check))
      (stringCall s (.readline sep check)) := by
  have hbuf := h.buffered hholds
  have hsmall := h.small
  have hkle : k ≤ sep.length := by
    have := toInt32_le (n := sep.length)
    omega
  cases cs with
  | nil =>
    obtain ⟨off, -, -, rfl⟩ := h.stored
    have hhead : sb.list.head = none := hbuf.head_eq_none_iff.mpr rfl
    refine ⟨pool, sb, [], ?_, hholds, h⟩
    simp only [SocketBuffers.call, lreadline, hhead]
    rfl
  | cons c cs =>
    obtain ⟨a, ha, hcontent⟩ := hbuf.head
    obtain ⟨off, hoff, hstored⟩ := h.stored
    have hc := (h.sized c mem_cons_self).sz
    have hshows : pool.nodes.Shows (some a) (c :: cs) := by
      have := hholds.shows i
      rw [update_self, update_self, ha] at this
      exact this
    have hrounds : (sb.size - k + 1).toNat = s.length + 1 - k := by
      rw [h.size]
      omega
    have hloop : readlineLoop pool.nodes sep k (s.length + 1 - k) a off
        ((c.msg.length : ℤ) - off) 0 = some ((firstAt sep s).map fun j : ℕ => 0 + (j : ℤ)) := by
      have hspec := readlineLoop_spec (i := 0) hshows hbuf.length_le h.sized hstored.1 hkle
        (show s.length + 1 - k = _ by rw [← hstored.2])
      rwa [← hstored.2, hfirst] at hspec
    cases hat : firstAt sep s with
    | none =>
      refine ⟨pool, sb, c :: cs, ?_, hholds, by simpa only [stringCall, hat] using h⟩
      simp only [SocketBuffers.call, lreadline, ha, hcontent, hc, hoff, hk, hrounds, hloop, hat,
        stringCall, bind_eq_bind, bind_some, map_none]
      rfl
    | some j =>
      have hj := firstAt_add_length_le hat
      have hkeq : k = sep.length := hfound (by rw [hat]; rfl)
      have hne : s ≠ [] := by
        rintro rfl
        cases hat
      have hsz : toInt32 (0 + (j : ℤ) + sep.length) = (j + sep.length : ℕ) := by
        rw [zero_add, ← Int.natCast_add, toInt32_of_lt (by omega)]
      cases check with
      | true =>
        refine ⟨pool, sb, c :: cs, ?_, hholds, by simpa only [stringCall, hat, if_true] using h⟩
        simp only [SocketBuffers.call, lreadline, ha, hcontent, hc, hoff, hk, hrounds, hloop, hat,
          stringCall, bind_eq_bind, bind_some, map_some, if_true]
        rfl
      | false =>
        obtain ⟨p', sb', cs', hpop, hbuf', hsize⟩ := popLstring_spec hbuf hne hj
            (hkle.trans (Nat.le_add_left _ j))
        have hshort : s.length - (j + sep.length) < 2 ^ 31 :=
          Nat.lt_of_le_of_lt (Nat.sub_le _ _) hsmall
        have hleft : toInt32 (sb'.size - (j + sep.length : ℕ)) =
            (s.drop (j + sep.length)).length := by
          rw [hsize, h.size, ← Int.ofNat_sub hj, toInt32_of_lt hshort, length_drop]
        have hline : j + sep.length - k = j := by rw [hkeq, Nat.add_sub_cancel]
        refine ⟨⟨pool.len, p'⟩, { sb' with size := (s.drop (j + sep.length)).length }, cs', ?_,
          hbuf'.holds, ?_⟩
        · simp only [SocketBuffers.call, lreadline, ha, hcontent, hc, hoff, hk, hrounds, hloop, hat,
            stringCall, bind_eq_bind, bind_some, map_some, hsz, hpop, hleft,
            hline, nil_append]
          rfl
        · simp only [stringCall, hat, Bool.false_eq_true, if_false]
          exact ⟨hbuf'.stored, hbuf'.sized, rfl, by rw [length_drop]; exact hshort⟩

theorem readline_call {sep : Bytes} {check : Bool} (hfit : UnharmedCall s (.readline sep check)) :
    Calls q contents i (SocketBuffers.call pool sb (.readline sep check))
      (stringCall s (.readline sep check)) := by
  have hsmall := h.small
  by_cases hlen : sep.length < 2 ^ 31
  · exact readline_call_of hholds h (toInt32_of_lt hlen) (by rw [take_length]) fun _ => rfl
  · have hnone : firstAt sep s = none := firstAt_of_lt (by omega)
    rcases hfit with hlt | rfl | ⟨hpos, hfirst⟩
    · exact absurd hlt hlen
    · have hbuf := h.buffered hholds
      have hhead : sb.list.head = none := hbuf.head_eq_none_iff.mpr rfl
      refine ⟨pool, sb, cs, ?_, hholds, h⟩
      simp only [SocketBuffers.call, lreadline, hhead]
      rfl
    · obtain ⟨k, hk⟩ := Int.eq_ofNat_of_zero_le hpos.le
      rw [hk, Int.toNat_natCast] at hfirst
      exact readline_call_of hholds h hk (hfirst.trans hnone.symm)
        fun hsome => by simp [hnone] at hsome

theorem readall_call :
    Calls q contents i (SocketBuffers.call pool sb .readall) (stringCall s .readall) := by
  have hbuf := h.buffered hholds
  obtain ⟨p', sb', hloop, hbuf'⟩ := readallLoop_spec hbuf (Nat.lt_succ_of_le hbuf.length_le) []
  refine ⟨⟨pool.len, p'⟩, { sb' with size := 0 }, [], ?_, hbuf'.holds, hbuf'.stored, hbuf'.sized,
    rfl, by simp [stringCall]⟩
  simp only [SocketBuffers.call, lreadall, hloop, nil_append]
  rfl

theorem clear_call :
    Calls q contents i (SocketBuffers.call pool sb .clear) (stringCall s .clear) := by
  have hbuf := h.buffered hholds
  have hoff : cs = [] → sb.offset = 0 := by
    rintro rfl
    obtain ⟨off, hoff, hzero, -⟩ := h.stored
    rw [hoff, hzero]
    rfl
  obtain ⟨p', sb', hloop, hbuf'⟩ := clearLoop_spec hholds hoff (Nat.lt_succ_of_le hbuf.length_le)
  refine ⟨⟨pool.len, p'⟩, { sb' with size := 0 }, [], ?_, hbuf'.holds, hbuf'.stored, hbuf'.sized,
    rfl, by simp [stringCall]⟩
  simp only [SocketBuffers.call, lclearbuffer, hloop]
  rfl

/-- Each call does to the buffer what it does to the string. -/
theorem call_spec {op : BufferOp} (hdelivered : DeliveredCall s op) (hfit : UnharmedCall s op) :
    Calls q contents i (SocketBuffers.call pool sb op) (stringCall s op) := by
  cases op with
  | push msg => exact push_call hholds h hdelivered.1 hdelivered.2
  | pop n => exact pop_call hholds h hdelivered hfit
  | readall => exact readall_call hholds h
  | readline sep check => exact readline_call hholds h hfit
  | clear => exact clear_call hholds h

end Calls

/-! ## Runs -/

theorem keepsStrings_start : KeepsStrings SocketBuffers.start fun _ => [] := by
  refine ⟨fun _ => [], NodePool.holds_empty, fun _ => ⟨⟨0, rfl, rfl, rfl⟩, by simp, rfl, by simp⟩⟩

theorem KeepsStrings.step {st : SocketBuffers} {strings : ℕ → Bytes}
    (h : KeepsStrings st strings) {b : ℕ} {op : BufferOp} (hdelivered : DeliveredCall (strings b) op)
    (hfit : UnharmedCall (strings b) op) :
    ∃ st', st.step b op = some ((stringCall (strings b) op).1, st') ∧
      KeepsStrings st' (update strings b (stringCall (strings b) op).2) := by
  obtain ⟨contents, hholds, hkeeps⟩ := h
  have hself : st.pool.nodes.Holds
      (update (fun b => (st.buffers b).list) b (st.buffers b).list)
      (update contents b (contents b)) := by
    have hq : update (fun b => (st.buffers b).list) b (st.buffers b).list =
        fun b => (st.buffers b).list := update_eq_self b (fun b => (st.buffers b).list)
    rw [hq, update_eq_self b contents]
    exact hholds
  obtain ⟨pool', sb', cs', hcall, hholds', hkeeps'⟩ := call_spec hself (hkeeps b) hdelivered hfit
  refine ⟨⟨pool', update st.buffers b sb'⟩, ?_, update contents b cs', ?_, ?_⟩
  · rw [SocketBuffers.step, hcall]
    rfl
  · have hlists : (fun j => (update st.buffers b sb' j).list) =
        update (fun j => (st.buffers j).list) b sb'.list := by
      funext j
      by_cases hj : j = b
      · subst hj
        simp
      · simp [hj]
    simp only [hlists]
    exact hholds'
  · intro j
    by_cases hj : j = b
    · subst hj
      simpa using hkeeps'
    · simpa [hj] using hkeeps j

theorem KeepsStrings.run (ops : List (ℕ × BufferOp)) {st : SocketBuffers}
    {strings : ℕ → Bytes} (h : KeepsStrings st strings)
    (hdelivered : EachCall DeliveredCall strings ops) (hunharmed : EachCall UnharmedCall strings ops) :
    ∃ st', st.run ops = some ((stringRun strings ops).1, st') ∧
      KeepsStrings st' (stringRun strings ops).2 := by
  induction ops generalizing st strings with
  | nil => exact ⟨st, rfl, h⟩
  | cons bop ops ih =>
    obtain ⟨st', hstep, h'⟩ := h.step hdelivered.1 hunharmed.1
    obtain ⟨st'', hrest, h''⟩ := ih h' hdelivered.2 hunharmed.2
    refine ⟨st'', ?_, h''⟩
    simp only [SocketBuffers.run, hstep, bind_eq_bind, bind_some, hrest]
    rfl

/-- In every run of calls that the cut to an `int` does not harm, each call returns what it
returns on the byte string, and the buffers keep the byte strings. -/
theorem socket_buffer_refines (ops : List (ℕ × BufferOp))
    (hdelivered : EachCall DeliveredCall (fun _ => []) ops)
    (hunharmed : EachCall UnharmedCall (fun _ => []) ops) :
    ∃ st, SocketBuffers.start.run ops = some ((stringRun (fun _ => []) ops).1, st) ∧
      KeepsStrings st (stringRun (fun _ => []) ops).2 :=
  keepsStrings_start.run ops hdelivered hunharmed

/-- A line that ends across two blocks, read and followed by the rest. -/
theorem socket_buffer_refines_line :
    ∃ st, SocketBuffers.start.run [(0, .push [97, 13]), (0, .push [10, 98]),
        (0, .readline [13, 10] false), (0, .pop 1), (0, .pop 1)] =
      some ((stringRun (fun _ => []) [(0, .push [97, 13]), (0, .push [10, 98]),
        (0, .readline [13, 10] false), (0, .pop 1), (0, .pop 1)]).1, st) ∧
      KeepsStrings st (stringRun (fun _ => []) [(0, .push [97, 13]), (0, .push [10, 98]),
        (0, .readline [13, 10] false), (0, .pop 1), (0, .pop 1)]).2 :=
  socket_buffer_refines _ (by simp [EachCall, DeliveredCall, stringCall])
    ⟨trivial, trivial, .inl (by decide), .inl (by with_unfolding_all rfl),
      .inl (by with_unfolding_all rfl), trivial⟩

/-- A count of 2^32 + 1 reads one byte of the five that are there. -/
theorem pop_of_wide_count :
    EachCall DeliveredCall (fun _ => []) [(0, .push [1, 2, 3, 4, 5]), (0, .pop (2 ^ 32 + 1))] ∧
    ((SocketBuffers.start.run [(0, .push [1, 2, 3, 4, 5]), (0, .pop (2 ^ 32 + 1))]).map
        fun r => r.1) = some [.size 5, .popped (some [1]) 4] ∧
    (stringRun (fun _ => []) [(0, .push [1, 2, 3, 4, 5]), (0, .pop (2 ^ 32 + 1))]).1 =
      [.size 5, .popped none 5] := by
  refine ⟨by simp [EachCall, DeliveredCall], by with_unfolding_all rfl, by decide⟩

end Skynet.Analysis
