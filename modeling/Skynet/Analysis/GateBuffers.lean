import Skynet.Analysis.SocketBuffer
import Skynet.Model.Gate

/-!
# The databuffers of the gate

`BlocksOf` relates the blocks of one connection to the bytes that it has not consumed, with
the other connections of the pool left as they are; each function of `databuffer.h` has one
lemma over it.
-/

namespace Skynet.Analysis

open Library Model Function Option List

structure SizedMessage (m : DataMessage) : Prop where
  size : m.size = m.buffer.length
  ne : m.buffer ≠ []

/-- The connection `i` has the blocks `cs`, and they spell `s`; the others are as `q` and
`contents` say. -/
structure BlocksOf (mp : NodePool DataMessage) (q : ℤ → HeadTail ℕ)
    (contents : ℤ → List DataMessage) (i : ℤ) (db : DataBuffer) (cs : List DataMessage)
    (s : Bytes) : Prop where
  holds : mp.Holds (update q i db.list) (update contents i cs)
  stored : ∃ off : ℕ, db.offset = off ∧ Stored DataMessage.buffer off cs s
  sized : ∀ m ∈ cs, SizedMessage m

def BytesOf (mp : NodePool DataMessage) (q : ℤ → HeadTail ℕ) (contents : ℤ → List DataMessage)
    (i : ℤ) (db : DataBuffer) (s : Bytes) : Prop :=
  db.size = s.length ∧ ∃ cs, BlocksOf mp q contents i db cs s

section Buffer

variable {mp : NodePool DataMessage} {q : ℤ → HeadTail ℕ} {contents : ℤ → List DataMessage}
  {i : ℤ} {db : DataBuffer} {c : DataMessage} {cs : List DataMessage} {s : Bytes}

theorem returnMessage_spec (db : DataBuffer)
    (h : mp.Holds (update q i db.list) (update contents i (c :: cs))) :
    ∃ mp' list, db.returnMessage mp = some (mp', { db with list := list }) ∧
      mp'.Holds (update q i list) (update contents i cs) := by
  obtain ⟨a, hhead, -, htail, -, hrelease⟩ := h.pop (i := i) (update_self ..)
  rw [update_self] at hhead htail
  rw [update_self, update_idem, update_idem] at hrelease
  refine ⟨mp.release a, _, ?_, hrelease⟩
  simp only [DataBuffer.returnMessage, hhead, bind_eq_bind, bind_some]
  cases hnext : mp.next a with
  | none => simp [htail hnext, HeadTail.empty]
  | some next => simp

theorem returnMessage_next (db : DataBuffer) {off : ℕ}
    (hsized : ∀ m ∈ c :: cs, SizedMessage m)
    (hstored : Stored DataMessage.buffer off (c :: cs) s)
    (h : mp.Holds (update q i db.list) (update contents i (c :: cs))) :
    ∃ mp' list, db.returnMessage mp = some (mp', { db with list := list }) ∧
      BlocksOf mp' q contents i { db with offset := 0, list := list } cs
        (s.drop (c.buffer.length - off)) := by
  obtain ⟨mp', list, hreturn, hholds⟩ := returnMessage_spec db h
  have hrest : ∀ m ∈ cs, SizedMessage m := fun m hm => hsized m (mem_cons_of_mem c hm)
  exact ⟨mp', list, hreturn, hholds, ⟨0, rfl, hstored.next fun m hm => (hrest m hm).ne⟩, hrest⟩

theorem BlocksOf.head (h : BlocksOf mp q contents i db (c :: cs) s) :
    ∃ a, db.list.head = some a ∧ mp.content a = some c := by
  obtain ⟨a, hhead, hcontent, -⟩ := h.holds.pop (i := i) (update_self ..)
  rw [update_self] at hhead
  exact ⟨a, hhead, hcontent⟩

theorem BlocksOf.length_le (h : BlocksOf mp q contents i db cs s) : cs.length ≤ mp.count := by
  have := h.holds.length_le i
  rwa [update_self] at this

theorem DataBuffer.readLoop_spec {db : DataBuffer} (h : BlocksOf mp q contents i db cs s)
    {fuel sz : ℕ} (hfuel : cs.length < fuel) (hsz : 0 < sz) (hle : sz ≤ s.length) (copied : Bytes) :
    ∃ mp' db' cs', DataBuffer.readLoop fuel mp db sz copied = some (copied ++ s.take sz, mp', db') ∧
      BlocksOf mp' q contents i db' cs' (s.drop sz) ∧ db'.size = db.size ∧
      db'.header = db.header := by
  induction cs generalizing mp db s fuel sz copied with
  | nil =>
    obtain ⟨off, -, -, rfl⟩ := h.stored
    simp only [length_nil] at hle
    omega
  | cons c cs ih =>
    obtain ⟨fuel, rfl⟩ := Nat.exists_eq_succ_of_ne_zero (by omega : fuel ≠ 0)
    obtain ⟨a, ha, hcontent⟩ := h.head
    obtain ⟨off, hoff, hstored⟩ := h.stored
    have hc := (h.sized c mem_cons_self).size
    have hlt : off < c.buffer.length := hstored.1
    simp only [DataBuffer.readLoop, ha, hcontent, hc, hoff, bind_eq_bind, bind_some]
    by_cases hwithin : sz < c.buffer.length - off
    · rw [if_pos (by omega), blockBytes_eq (by omega), bind_some]
      refine ⟨mp, { db with offset := off + sz }, c :: cs, ?_, ⟨h.holds, ⟨off + sz, ?_,
        hstored.advance hwithin⟩, h.sized⟩, rfl, rfl⟩
      · rw [hstored.take (by omega)]
        rfl
      · rfl
    · rw [if_neg (by omega)]
      by_cases hend : sz = c.buffer.length - off
      · rw [if_pos (by omega), blockBytes_eq (by omega), bind_some]
        obtain ⟨mp', list, hreturn, hbuf⟩ :=
          returnMessage_next { db with offset := 0 } h.sized hstored h.holds
        rw [hreturn, bind_some]
        refine ⟨mp', { db with offset := 0, list := list }, cs, ?_, by rw [hend]; exact hbuf, rfl,
          rfl⟩
        rw [hstored.take (by omega)]
        rfl
      · rw [if_neg (by omega), ← Int.ofNat_sub hlt.le, blockBytes_eq (by omega), bind_some]
        obtain ⟨mp', list, hreturn, hbuf⟩ := returnMessage_next db h.sized hstored h.holds
        have hfuel' : cs.length < fuel := by
          rw [length_cons] at hfuel
          omega
        have hsz' : (sz : ℤ) - (c.buffer.length - off : ℕ) = (sz - (c.buffer.length - off) : ℕ) := by
          omega
        obtain ⟨mp'', db'', cs'', hloop, hbuf', hsize, hheader⟩ :=
          ih hbuf hfuel' (show 0 < sz - (c.buffer.length - off) by omega)
            (by rw [length_drop]; omega) (copied ++ (c.buffer.drop off).take (c.buffer.length - off))
        rw [hreturn, bind_some, hsz', hloop]
        refine ⟨mp'', db'', cs'', ?_, ?_, hsize, hheader⟩
        · rw [append_assoc, hstored.take_past (by omega : c.buffer.length - off ≤ sz),
            take_of_length_le (by rw [length_drop])]
        · rw [drop_drop, Nat.add_sub_cancel' (by omega)] at hbuf'
          exact hbuf'

theorem DataBuffer.read_spec (h : BytesOf mp q contents i db s) (hsmall : s.length < 2 ^ 31)
    {sz : ℕ} (hsz : 0 < sz) (hle : sz ≤ s.length) :
    ∃ mp' db', db.read mp sz = some (s.take sz, mp', db') ∧
      BytesOf mp' q contents i db' (s.drop sz) ∧ db'.header = db.header := by
  obtain ⟨hsize, cs, hblocks⟩ := h
  have hleft : toInt32 (db.size - sz) = (s.drop sz).length := by
    rw [hsize, ← Int.ofNat_sub hle, toInt32_of_lt (by omega), length_drop]
  have hblocks' : BlocksOf mp q contents i { db with size := toInt32 (db.size - sz) } cs s :=
    ⟨hblocks.holds, hblocks.stored, hblocks.sized⟩
  obtain ⟨mp', db', cs', hloop, hblocks'', hsize', hheader⟩ :=
    DataBuffer.readLoop_spec hblocks' (Nat.lt_succ_of_le hblocks.length_le) hsz hle []
  refine ⟨mp', db', ?_, ⟨hsize'.trans hleft, cs', hblocks''⟩, hheader⟩
  rw [DataBuffer.read, if_pos (by omega), hloop, nil_append]

theorem DataBuffer.push_spec (h : BytesOf mp q contents i db s) {data : Bytes}
    (hne : data ≠ []) (hsmall : s.length + data.length < 2 ^ 31) :
    ∃ mp' db', db.push mp data data.length = some (mp', db') ∧
      BytesOf mp' q contents i db' (s ++ data) ∧ db'.header = db.header := by
  obtain ⟨hsize, cs, hblocks⟩ := h
  obtain ⟨hrefill, a, hfree⟩ : (if mp.free = none then mp.newPage 1023 else mp).Holds
        (update q i db.list) (update contents i cs) ∧
      ∃ a, (if mp.free = none then mp.newPage 1023 else mp).free = some a := by
    by_cases hnone : mp.free = none
    · rw [if_pos hnone]
      exact ⟨hblocks.holds.newPage hnone (by decide), _, rfl⟩
    · rw [if_neg hnone]
      exact ⟨hblocks.holds, ne_none_iff_exists'.mp hnone⟩
  obtain ⟨mp', list, happend, hpush⟩ := hrefill.push hfree i (⟨data, data.length⟩ : DataMessage)
  rw [update_self] at happend
  rw [update_idem, update_idem, update_self] at hpush
  have hsize' : toInt32 (db.size + data.length) = (s ++ data).length := by
    rw [hsize, ← Int.natCast_add, toInt32_of_lt hsmall, length_append]
  refine ⟨mp', { db with size := (s ++ data).length, list := list }, ?_, ⟨rfl, cs ++ [_], hpush, ?_,
    ?_⟩, rfl⟩
  · simp only [DataBuffer.push, hfree, happend, bind_eq_bind, bind_some, hsize']
    rfl
  · obtain ⟨off, hoff, hstored⟩ := hblocks.stored
    exact ⟨off, hoff, hstored.push hne⟩
  · intro m hm
    rcases mem_append.mp hm with hm | hm
    · exact hblocks.sized m hm
    · rw [mem_singleton] at hm
      subst hm
      exact ⟨rfl, hne⟩

theorem DataBuffer.clearLoop_spec
    (h : mp.Holds (update q i db.list) (update contents i cs)) {fuel : ℕ}
    (hfuel : cs.length < fuel) :
    ∃ mp', DataBuffer.clearLoop fuel mp db = some mp' ∧
      mp'.Holds (update q i HeadTail.empty) (update contents i []) := by
  induction cs generalizing mp db fuel with
  | nil =>
    obtain ⟨fuel, rfl⟩ := Nat.exists_eq_succ_of_ne_zero (by omega : fuel ≠ 0)
    obtain ⟨nodes, free, hc⟩ := h
    have hnodes : nodes i = [] := by
      have hfilled := hc.filled i
      rw [update_self] at hfilled
      exact map_eq_nil_iff.mp hfilled
    have hempty := hc.lists i
    rw [update_self, hnodes] at hempty
    have hlist : db.list = HeadTail.empty := by
      obtain ⟨hhead, htail⟩ := hempty
      cases hdb : db.list with
      | mk head tail =>
        rw [hdb] at hhead htail
        simp only [Spells] at hhead
        simp only [getLast?_nil] at htail
        rw [hhead, htail]
        rfl
    have hhead : db.list.head = none := by rw [hlist]; rfl
    exact ⟨mp, by rw [DataBuffer.clearLoop, hhead], by rw [← hlist]; exact ⟨nodes, free, hc⟩⟩
  | cons c cs ih =>
    obtain ⟨fuel, rfl⟩ := Nat.exists_eq_succ_of_ne_zero (by omega : fuel ≠ 0)
    obtain ⟨a, ha, -⟩ := h.pop (i := i) (update_self ..)
    rw [update_self] at ha
    obtain ⟨mp', list, hreturn, hholds⟩ := returnMessage_spec db h
    simp only [DataBuffer.clearLoop, ha, hreturn, bind_some]
    exact ih hholds (by rw [length_cons] at hfuel; omega)

theorem DataBuffer.clear_spec (h : BytesOf mp q contents i db s) :
    ∃ mp', db.clear mp = some (mp', .zero) ∧
      mp'.Holds (update q i HeadTail.empty) (update contents i []) := by
  obtain ⟨-, cs, hblocks⟩ := h
  obtain ⟨mp', hloop, hholds⟩ :=
    DataBuffer.clearLoop_spec hblocks.holds (Nat.lt_succ_of_le hblocks.length_le)
  exact ⟨mp', by rw [DataBuffer.clear, hloop]; rfl, hholds⟩

end Buffer

end Skynet.Analysis
