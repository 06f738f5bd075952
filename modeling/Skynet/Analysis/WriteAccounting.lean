import Mathlib.Algebra.Ring.Int.Defs
import Skynet.Analysis.SocketOutbox
import Skynet.Analysis.WriteLists

/-!
# What the write lists hold is counted

`wb_size` of a socket in use is the number of bytes in its two lists, nothing of the low
list has been written in part, and the tails are the last nodes, so that no assertion of
the functions that work on the lists fails.  There is one exception: `list_uncomplete`
takes a user object for a buffer that has been begun, so the assertion of `send_buffer_`
fails when a write event finds a user object first in the low list; and there is one more
when a slot gets an event that was meant for the socket it was before.
-/

namespace Skynet.Analysis

open Library Model Socket List Option

variable {θ : Type} {s s' : Socket θ} {os : Syscalls} {result : SocketResult}

/-! ## The count -/

def left (l : List (WriteBuffer θ)) : ℤ := (l.map fun wb => (wb.sz : ℤ)).sum

@[simp] theorem left_nil : left ([] : List (WriteBuffer θ)) = 0 := rfl

@[simp] theorem left_cons (wb : WriteBuffer θ) (l : List (WriteBuffer θ)) :
    left (wb :: l) = wb.sz + left l := rfl

@[simp] theorem left_append (l l' : List (WriteBuffer θ)) : left (l ++ l') = left l + left l' := by
  simp [left]

structure Settled (s : Socket θ) : Prop where
  total : s.wbSize = left s.high + left s.low
  idle : ¬InUse s → NoData s

structure Counted (s : Socket θ) : Prop where
  total : InUse s → s.wbSize = left s.high + left s.low
  low : ∀ wb ∈ s.low, wb.offset = 0
  idle : ¬InUse s → NoData s

def CountedAfter : Except SocketFault (Socket θ × SocketResult) → Prop
  | .ok (s, _) => Counted s
  | .error f => f = .closedReserved

theorem Settled.counted (h : Settled s) (hlow : ∀ wb ∈ s.low, wb.offset = 0) : Counted s :=
  ⟨fun _ => h.total, hlow, h.idle⟩

theorem Counted.settled (h : Counted s) (hsize : ¬InUse s → s.wbSize = 0) : Settled s := by
  refine ⟨?_, h.idle⟩
  by_cases huse : InUse s
  · exact h.total huse
  · obtain ⟨hhigh, hlow, -⟩ := h.idle huse
    rw [hsize huse, hhigh, hlow]
    rfl

/-! ## Writing -/

theorem drain_left (l : List (WriteBuffer θ)) (results : List WriteResult) :
    left l = left (drain l results).list + (drain l results).bytes.length := by
  fun_induction drain l results with
  | case1 => simp
  | case2 => simp
  | case3 => simp
  | case4 wb rest results ih => exact ih
  | case5 => simp
  | case6 wb rest n results sz bytes hpart =>
    have hbytes : bytes.length = sz := by
      simp [bytes, sz, WriteBuffer.sz]
    have hsz : sz ≤ wb.sz := Nat.min_le_right _ _
    simp only [left_cons, hbytes, WriteBuffer.sz] at hsz ⊢
    omega
  | case7 wb rest n results sz bytes hwhole d ih =>
    have hbytes : bytes.length = wb.sz := by
      rw [← not_not.mp hwhole]
      simp [bytes, sz, WriteBuffer.sz]
    simp only [left_cons, length_append, hbytes, d]
    omega

theorem drainUdp_left (behind : UdpAddress) (l : List (WriteBuffer θ)) (results : List WriteResult)
    : left l = left (s.drainUdp behind l results).1 + (s.drainUdp behind l results).2 := by
  fun_induction drainUdp s behind l results with
  | case1 => simp
  | case2 => simp [add_comm]
  | case3 => simp
  | case4 => simp
  | case5 => simp
  | case6 => simp [add_comm]
  | case7 wb rest haddr n results l' n' hdrain ih =>
    rw [hdrain] at ih
    have hleft : left rest = left l' + n' := ih
    simp only [left_cons]
    omega

variable {l : List (WriteBuffer θ)}

theorem Settled.setList (h : Settled s) (priority : Priority) {n : ℕ}
    (hl : left (s.list priority) = left l + n) (hnil : s.list priority = [] → l = []) :
    Settled { s.setList priority l with wbSize := s.wbSize - n } := by
  cases priority with
  | high =>
    refine ⟨?_, fun huse => ?_⟩
    · show s.wbSize - n = left l + left s.low
      rw [h.total, show left s.high = left l + n from hl]
      omega
    · obtain ⟨hhigh, hlow, hdw⟩ := h.idle huse
      exact ⟨hnil hhigh, hlow, hdw⟩
  | low =>
    refine ⟨?_, fun huse => ?_⟩
    · show s.wbSize - n = left s.high + left l
      rw [h.total, show left s.low = left l + n from hl]
      omega
    · obtain ⟨hhigh, hlow, hdw⟩ := h.idle huse
      exact ⟨hhigh, hnil hlow, hdw⟩

theorem Counted.freed (htype : s.type = .invalid) (hdata : NoData s) : Counted s := by
  refine ⟨fun huse => absurd htype huse.1, fun wb hwb => ?_, fun _ => hdata⟩
  rw [hdata.2.1] at hwb
  cases hwb

theorem forceClose_counted (h : ¬InUse s → NoData s) (r : SocketResult) :
    CountedAfter (s.forceClose.map fun s' => (s', r)) := by
  unfold forceClose
  split
  · next htype => exact Counted.freed htype (h fun huse => huse.1 htype)
  · rfl
  · exact Counted.freed rfl ⟨rfl, rfl, rfl⟩

theorem closeWrite_counted (os : Syscalls) (h : Settled s) (hlow : ∀ wb ∈ s.low, wb.offset = 0) :
    CountedAfter (s.closeWrite os) := by
  unfold closeWrite
  split
  · exact forceClose_counted h.idle _
  split
  · exact h.counted hlow
  · rw [show (enableWrite { s with type := .halfcloseWrite } os false).1 =
      { s with type := .halfcloseWrite, writing := false } from enableWrite_eq rfl]
    exact ⟨fun _ => h.total, hlow, fun huse => absurd ⟨nofun, nofun⟩ huse⟩

theorem drain_failed {results : List WriteResult}
    (h : (drain l results).failed = true) : (drain l results).list <:+ l := by
  fun_induction drain l results with
  | case1 => exact suffix_rfl
  | case2 => exact suffix_rfl
  | case3 => exact suffix_rfl
  | case4 wb rest results ih => exact ih h
  | case5 => exact suffix_rfl
  | case6 => cases h
  | case7 wb rest n results sz bytes hwhole d ih => exact (ih h).trans (suffix_cons wb rest)

theorem drain_tail (results : List WriteResult)
    (hl : ∀ wb ∈ l, wb.offset = 0) : ∀ wb ∈ (drain l results).list.tail, wb.offset = 0 := by
  obtain hnil | ⟨front, first, rest, n, rfl, hlist⟩ := drain_list l results
  · rw [hnil]
    exact nofun
  · rw [hlist]
    intro wb hwb
    exact hl wb (mem_append_right front (mem_cons_of_mem first hwb))

def HighSent (s' : Socket θ) : Prop := Settled s' ∧ ∀ wb ∈ s'.low, wb.offset = 0

def LowSent (s s' : Socket θ) : Prop :=
  Settled s' ∧ s'.high = s.high ∧ ∀ wb ∈ s'.low.tail, wb.offset = 0

def SentList (P : Socket θ → Prop) : Except SocketFault (Socket θ × SocketResult) → Prop
  | .ok (s, none) => P s
  | x => CountedAfter x

theorem sentList_of_closeWrite {P : Socket θ → Prop} {s : Socket θ} (h : Settled s)
    (hlow : ∀ wb ∈ s.low, wb.offset = 0) : SentList P (s.closeWrite os) := by
  have hcounted := closeWrite_counted os h hlow
  cases hclose : s.closeWrite os with
  | error f =>
    rw [hclose] at hcounted
    exact hcounted
  | ok x =>
    obtain ⟨s', r⟩ := x
    obtain ⟨⟨m, rfl⟩, -⟩ := closeWrite_broken hclose
    rw [hclose] at hcounted
    exact hcounted

theorem Settled.afterDrain (h : Settled s) (priority : Priority) (results : List WriteResult) :
    Settled (s.afterDrain priority (drain (s.list priority) results)) := by
  obtain ⟨htotal, hidle⟩ := h.setList priority (drain_left (s.list priority) results)
    fun hnil => by rw [hnil, drain]
  exact ⟨htotal, hidle⟩

theorem sendHigh_counted (os : Syscalls) (h : Settled s) (results : List WriteResult)
    (hlow : ∀ wb ∈ s.low, wb.offset = 0) : SentList HighSent (s.sendList os .high results) := by
  unfold sendList
  split
  · have hafter := h.afterDrain .high results
    unfold sendListTcp
    dsimp only
    split
    · exact sentList_of_closeWrite hafter hlow
    · exact ⟨hafter, hlow⟩
  · have hleft := drainUdp_left (s := s) os.behind s.high results
    exact ⟨h.setList .high hleft fun hnil => by rw [hnil, drainUdp], hlow⟩

theorem sendLow_list_counted (os : Syscalls) (h : Settled s) (results : List WriteResult)
    (hlow : ∀ wb ∈ s.low, wb.offset = 0) : SentList (LowSent s) (s.sendList os .low results) := by
  unfold sendList
  split
  · have hafter := h.afterDrain .low results
    unfold sendListTcp
    dsimp only
    split
    · next hfailed =>
      exact sentList_of_closeWrite hafter fun wb hwb => hlow wb ((drain_failed hfailed).subset hwb)
    · exact ⟨hafter, rfl, drain_tail results hlow⟩
  · have hleft := drainUdp_left (s := s) os.behind s.low results
    have hsuffix := drainUdp_suffix (s := s) os.behind s.low results
    refine ⟨h.setList .low hleft fun hnil => by rw [hnil, drainUdp], rfl, ?_⟩
    intro wb hwb
    exact hlow wb (hsuffix.subset (mem_of_mem_tail hwb))

theorem bufferSent_counted (h : Settled s) (hempty : s.sendBufferEmpty = true) :
    CountedAfter (s.bufferSent os) := by
  obtain ⟨hhigh, hlow⟩ := sendBufferEmpty_iff.mp hempty
  have hsize : s.wbSize = 0 := by rw [h.total, hhigh, hlow]; rfl
  have hcounted : Counted s := h.counted fun wb hwb => by
    rw [hlow] at hwb
    cases hwb
  unfold bufferSent
  rw [if_neg (by simp [hempty, hsize])]
  split
  · exact forceClose_counted h.idle _
  split
  · next hw =>
    obtain rfl := enableWrite_eq hw
    exact ⟨hcounted.total, hcounted.low, hcounted.idle⟩
  next hw =>
  obtain rfl := enableWrite_eq hw
  split
  · exact ⟨hcounted.total, hcounted.low, hcounted.idle⟩
  · exact ⟨hcounted.total, hcounted.low, hcounted.idle⟩

theorem raiseUncomplete_counted (h : Settled s) (hhigh : s.high = [])
    (hlow : ∀ wb ∈ s.low.tail, wb.offset = 0) :
    CountedAfter (s.raiseUncomplete.map fun s' => (s', none)) := by
  unfold raiseUncomplete
  rw [if_neg (by simp [hhigh])]
  refine ⟨fun _ => ?_, fun wb hwb => hlow wb (by rwa [drop_one] at hwb), fun huse => ?_⟩
  · rw [h.total, hhigh, left_nil, zero_add, ← left_append, take_append_drop]
  · obtain ⟨-, hnil, hdw⟩ := h.idle huse
    exact ⟨by rw [hnil]; rfl, by rw [hnil]; rfl, hdw⟩

theorem sendLow_counted (h : Settled s) (hhigh : s.high = []) (hlow : ∀ wb ∈ s.low, wb.offset = 0) :
    CountedAfter (s.sendLow os) := by
  unfold sendLow
  split
  · next hempty =>
    exact bufferSent_counted h (sendBufferEmpty_iff.mpr ⟨hhigh, List.isEmpty_iff.mp hempty⟩)
  have hsend := sendLow_list_counted os h os.writeLow hlow
  split
  · next heq => rwa [heq] at hsend
  · next heq => rwa [heq] at hsend
  · next heq => rwa [heq] at hsend
  next s' heq =>
  rw [heq] at hsend
  obtain ⟨hsettled, hhigh', htail⟩ := hsend
  have hhigh' : s'.high = [] := hhigh'.trans hhigh
  split
  · exact raiseUncomplete_counted hsettled hhigh' htail
  next hcomplete =>
  split
  · exact hsettled.counted (offset_of_complete hcomplete htail)
  · next hempty =>
    have hempty : s'.low = [] := by simpa using hempty
    exact bufferSent_counted hsettled (sendBufferEmpty_iff.mpr ⟨hhigh', hempty⟩)

/-- **Write event.** `send_buffer_` fails no assertion of its own, except the first when the
low list begins with a user object. -/
theorem sendSteps_counted (h : Settled s) (hlow : ∀ wb ∈ s.low, wb.offset = 0)
    (hobject : ∀ wb ∈ s.low.head?, wb.buffer.kind ≠ .object) : CountedAfter (s.sendBuffer_ os) := by
  have hcomplete : ¬listUncomplete s.low = true := by
    cases hl : s.low with
    | nil => exact nofun
    | cons wb rest =>
      rw [hl] at hlow hobject
      simp [listUncomplete, hlow wb mem_cons_self, hobject wb rfl]
  unfold sendBuffer_
  rw [if_neg hcomplete]
  have hsend := sendHigh_counted os h os.writeHigh hlow
  split
  · next heq => rwa [heq] at hsend
  · next heq => rwa [heq] at hsend
  · next heq => rwa [heq] at hsend
  next s' heq =>
  rw [heq] at hsend
  split
  · next hhigh => exact sendLow_counted hsend.1 (List.isEmpty_iff.mp hhigh) hsend.2
  · exact hsend.1.counted hsend.2

theorem takeDirect_settled (h : Settled s) : Settled s.takeDirect ∧ s.takeDirect.low = s.low := by
  unfold takeDirect
  split
  · exact ⟨h, rfl⟩
  next b hdw =>
  refine ⟨⟨?_, fun huse => ?_⟩, rfl⟩
  · dsimp only
    rw [h.total, left_cons]
    omega
  · have hnone := (h.idle huse).2.2
    rw [hdw] at hnone
    cases hnone

theorem sendBuffer_counted (h : Counted s)
    (hok : os.trylock = false → (∀ wb ∈ s.low.head?, wb.buffer.kind ≠ .object) ∧
      (¬InUse s → s.wbSize = 0)) : CountedAfter (s.sendBuffer os) := by
  unfold sendBuffer
  split
  · exact h
  next hlock =>
  obtain ⟨hobject, hsize⟩ := hok (by simpa using hlock)
  obtain ⟨hsettled, hlist⟩ := takeDirect_settled (h.settled hsize)
  apply sendSteps_counted hsettled
  · rw [hlist]
    exact h.low
  · rw [hlist]
    exact hobject

/-! ## Sending -/

theorem appendSendbuffer_counted {b : SendBuffer θ} {addr : Option UdpAddress} (h : Counted s)
    (huse : InUse s) (priority : Priority) : Counted (s.appendSendbuffer priority b addr) := by
  have hsz : ((⟨b, 0, addr⟩ : WriteBuffer θ).sz : ℤ) = b.bytes.length := by
    simp [WriteBuffer.sz]
  cases priority with
  | high =>
    refine ⟨fun _ => ?_, h.low, fun hnot => absurd huse hnot⟩
    show s.wbSize + b.bytes.length = left (s.high ++ [⟨b, 0, addr⟩]) + left s.low
    rw [h.total huse, left_append, left_cons, left_nil, hsz]
    omega
  | low =>
    refine ⟨fun _ => ?_, fun wb hwb => ?_, fun hnot => absurd huse hnot⟩
    · show s.wbSize + b.bytes.length = left s.high + left (s.low ++ [⟨b, 0, addr⟩])
      rw [h.total huse, left_append, left_cons, left_nil, hsz]
      omega
    · obtain hwb | hwb := mem_append.mp (show wb ∈ s.low ++ [⟨b, 0, addr⟩] from hwb)
      · exact h.low wb hwb
      · rw [mem_singleton.mp hwb]

theorem startWriting_counted (h : Counted s) : Counted (s.startWriting os).1 := by
  obtain ⟨warn, heq, -⟩ := startWriting_eq s os
  rw [heq]
  exact ⟨h.total, h.low, h.idle⟩

theorem warnSending_counted (h : Counted s) : Counted s.warnSending.1 := by
  obtain ⟨warn, heq, -⟩ := warnSending_eq s
  rw [heq]
  exact ⟨h.total, h.low, h.idle⟩

/-- **Sending.** `send_socket` counts what it puts on a list. -/
theorem sendSocket_counted {id : ℕ} {b : SendBuffer θ} {addr : Option UdpAddress} (h : Counted s)
    (hid : ¬(s.type = .reserve ∧ s.id = id)) : Counted (s.sendSocket os id b addr).1 := by
  unfold sendSocket
  dsimp only
  split
  · exact h
  next hdrop =>
  have huse : InUse s := by
    refine ⟨fun hfree => hdrop (.inl hfree), fun hreserve => hid ⟨hreserve, ?_⟩⟩
    by_contra hne
    exact hdrop (.inr (.inl hne))
  split
  · exact h
  split
  · split
    · exact startWriting_counted (appendSendbuffer_counted h huse _)
    split
    · exact h
    split
    · exact h
    · exact startWriting_counted (appendSendbuffer_counted h huse _)
  split
  · exact warnSending_counted (appendSendbuffer_counted h huse _)
  · exact warnSending_counted (appendSendbuffer_counted h huse _)

/-! ## Runs -/

/-- The accounts of the slot in memory: its two lists are spelled out, with their tails; of
an open socket `wb_size` is the sum over their nodes; and nothing of the first node of the
low list has been written. -/
structure AccountedLists (p : LinkedSocket θ) (high low : List ℕ) : Prop where
  holdsHigh : p.high.Holds p.next high
  holdsLow : p.low.Holds p.next low
  wbSize : p.fields.type.opened = true →
    p.fields.wbSize = ((high ++ low).map fun a => ((p.node a).sz : ℤ)).sum
  unwritten : ∀ a ∈ p.low.head, (p.node a).offset = 0

/-- No assertion of the functions that work on the lists has failed, and the accounts are
right. -/
def ListsOk : Except ListFault (LinkedSocket θ) → Prop
  | .ok p => ∃ high low, AccountedLists p high low
  | .error f => f = .slot .closedReserved

def objectFirst (p : LinkedSocket θ) : Bool :=
  p.low.head.any fun a => (p.node a).buffer.kind = .object

/-- The steps that keep the accounts: a write event that gets the lock finds no user object
first in the low list, and a slot that is only reserved with the count of its last socket
cleared. -/
def WriteOk : Except ListFault (LinkedSocket θ) → SlotAction θ → Prop
  | .ok p, .sendBuffer os => os.trylock = true ∨
      objectFirst p = false ∧ (p.fields.type = .reserve → p.fields.wbSize = 0)
  | _, _ => True

instance (x : Except ListFault (LinkedSocket θ)) (a : SlotAction θ) : Decidable (WriteOk x a) :=
  match x, a with
  | .ok _, .sendBuffer _ => inferInstanceAs (Decidable (_ ∨ _ ∧ _))
  | .error _, _ => .isTrue trivial
  | .ok _, .reserveId _ | .ok _, .newFd .. | .ok _, .giveBack | .ok _, .sendSocket ..
  | .ok _, .directWrite .. | .ok _, .forceClose | .ok _, .other _ => .isTrue trivial

def CountedInMemory : Except ListFault (LinkedSocket θ) → Prop
  | .ok p => ∃ high low, LiesAt p high low ∧ Counted (read p high low)
  | .error f => f = .slot .closedReserved

section Runs

variable {p : LinkedSocket θ} {high low : List ℕ}

theorem opened_iff (type : SocketType) : type.opened = true ↔ type ≠ .invalid ∧ type ≠ .reserve := by
  simp [SocketType.opened]

theorem CountedInMemory.listsOk {x : Except ListFault (LinkedSocket θ)} (h : CountedInMemory x) :
    ListsOk x := by
  cases x with
  | error f => exact h
  | ok p =>
    obtain ⟨high, low, hlies, hcounted⟩ := h
    refine ⟨high, low, hlies.holdsHigh, hlies.holdsLow, fun hopen => ?_, fun a ha => ?_⟩
    · rw [show p.fields.wbSize = _ from hcounted.total ((opened_iff _).mp hopen)]
      simp [left, read, Function.comp_def]
    · rw [hlies.holdsLow.head.eq_head?] at ha
      exact hcounted.low _ (mem_map_of_mem (mem_of_mem_head? ha))

theorem nodes_eq_nil (h : NoData (read p high low)) : high = [] ∧ low = [] :=
  ⟨map_eq_nil_iff.mp h.1, map_eq_nil_iff.mp h.2.1⟩

theorem Agree.counted {x : LinkedResult θ} {y : Except SocketFault (Socket θ × SocketResult)}
    (h : Agree x y) (hy : CountedAfter y) : CountedInMemory (x.map Prod.fst) := by
  cases h with
  | ok hrep =>
    obtain ⟨hlies⟩ := hrep
    exact ⟨_, _, hlies, hy⟩
  | error f => exact congrArg ListFault.slot hy

theorem LiesAt.counted_fields (h : LiesAt p high low) {fields : Socket θ}
    (hcounted : Counted { fields with high := high.map p.node, low := low.map p.node }) :
    CountedInMemory (.ok { p with fields := fields }) :=
  ⟨high, low, h.of_same rfl rfl rfl rfl, hcounted⟩

/-- `new_fd` of a slot that has been reserved: `check_wb_list` holds, and the count of a
socket that is opened begins at zero. -/
theorem newFd_fields (os : Syscalls) (id : ℕ) (protocol : Protocol) (owner : ℕ) (reading : Bool)
    (h : LiesAt p high low) (hdata : NoData (read p high low)) (htype : p.fields.type = .reserve) :
    ∃ fields b, p.newFd os id protocol owner reading = .ok ({ p with fields := fields }, b) ∧
      fields.dwBuffer = none ∧ (b = true → fields.wbSize = 0) ∧
        (b = false → fields.type = .invalid) := by
  obtain ⟨rfl, rfl⟩ := nodes_eq_nil hdata
  obtain ⟨hhead, htail⟩ := holds_nil h.holdsHigh
  obtain ⟨hhead', htail'⟩ := holds_nil h.holdsLow
  unfold LinkedSocket.newFd
  rw [if_neg (not_not.mpr htype)]
  split
  · exact ⟨_, _, rfl, hdata.2.2, nofun, fun _ => rfl⟩
  rw [if_neg (not_not.mpr ⟨hhead, htail, hhead', htail'⟩)]
  dsimp only
  split
  · next hread =>
    obtain rfl := enableRead_eq hread
    exact ⟨_, _, rfl, rfl, nofun, fun _ => rfl⟩
  · next hread =>
    obtain rfl := enableRead_eq hread
    exact ⟨_, _, rfl, rfl, fun _ => rfl, nofun⟩

/-- A slot without data is counted whatever its type, if its count is zero where it is in
use. -/
theorem counted_of_empty {s : Socket θ} (hdata : NoData s) (hsize : InUse s → s.wbSize = 0) :
    Counted s := by
  refine ⟨fun huse => ?_, fun wb hwb => ?_, fun _ => hdata⟩
  · rw [hsize huse, hdata.1, hdata.2.1]
    rfl
  · rw [hdata.2.1] at hwb
    cases hwb

theorem sendBuffer_inMemory (h : LiesAt p high low) (hcounted : Counted (read p high low))
    (htype : p.fields.type ≠ .invalid) (hok : WriteOk (.ok p) (.sendBuffer os)) :
    CountedInMemory ((p.sendBuffer os).map Prod.fst) := by
  apply (sendBuffer_agrees h).counted
  apply sendBuffer_counted hcounted
  intro hlock
  obtain hbusy | ⟨hobject, hsize⟩ := hok
  · rw [hlock] at hbusy
    cases hbusy
  refine ⟨fun wb hwb => ?_, fun huse => ?_⟩
  · obtain ⟨a, ha, rfl⟩ := map_eq_some_iff.mp (head?_map ▸ hwb)
    unfold objectFirst at hobject
    rw [h.holdsLow.head.eq_head?, show low.head? = some a from ha] at hobject
    simpa using hobject
  · apply hsize
    by_contra hne
    exact huse ⟨htype, hne⟩

theorem slotNext_counted {p : LinkedSocket θ} {a : SlotAction θ}
    {x : Except ListFault (LinkedSocket θ)} (h : CountedInMemory (.ok p))
    (hok : WriteOk (.ok p) a) (hnext : slotNext (.ok p) a = some x) : CountedInMemory x := by
  obtain ⟨high, low, hlies, hcounted⟩ := h
  cases a with
  | reserveId id =>
    obtain ⟨htype, hx⟩ := ite_none_right_eq_some.mp hnext
    cases hx
    have hdata := hcounted.idle fun huse => huse.1 htype
    exact hlies.counted_fields (counted_of_empty hdata fun huse => absurd rfl huse.2)
  | newFd os id protocol owner reading type =>
    obtain ⟨htype, hx⟩ := ite_none_right_eq_some.mp hnext
    have hdata := hcounted.idle fun huse => huse.2 htype
    obtain ⟨fields, b, hfd, hdw, hsize, hfree⟩ := newFd_fields os id protocol owner reading hlies
      hdata htype
    rw [hfd] at hx
    cases b with
    | false =>
      cases hx
      exact hlies.counted_fields (counted_of_empty ⟨hdata.1, hdata.2.1, hdw⟩
        fun huse => absurd (hfree rfl) huse.1)
    | true =>
      cases hx
      exact hlies.counted_fields (counted_of_empty ⟨hdata.1, hdata.2.1, hdw⟩ fun _ => hsize rfl)
  | giveBack =>
    obtain ⟨htype, hx⟩ := ite_none_right_eq_some.mp hnext
    cases hx
    have hdata := hcounted.idle fun huse => huse.2 htype
    exact hlies.counted_fields (counted_of_empty hdata fun huse => absurd rfl huse.1)
  | sendSocket os id b addr =>
    obtain ⟨hid, hx⟩ := ite_none_left_eq_some.mp hnext
    cases hx
    apply (sendSocket_agrees hlies id b addr).counted
    exact sendSocket_counted hcounted hid
  | directWrite id b n =>
    obtain ⟨⟨hdirect, -⟩, hx⟩ := ite_none_right_eq_some.mp hnext
    cases hx
    have htype : p.fields.type = .connected := by
      simp only [LinkedSocket.canDirectWrite, Bool.and_eq_true, decide_eq_true_eq] at hdirect
      exact hdirect.1.2
    have huse : InUse (read p high low) := by
      show p.fields.type ≠ .invalid ∧ p.fields.type ≠ .reserve
      rw [htype]
      exact ⟨nofun, nofun⟩
    exact hlies.counted_fields ⟨fun _ => hcounted.total huse, hcounted.low, fun hnot => absurd huse hnot⟩
  | sendBuffer os =>
    obtain ⟨htype, hx⟩ := ite_none_left_eq_some.mp hnext
    cases hx
    exact sendBuffer_inMemory hlies hcounted htype hok
  | forceClose =>
    cases hnext
    have hclosed := (forceClose_agrees hlies none).counted (forceClose_counted hcounted.idle none)
    cases hclose : p.forceClose with
    | error f => rwa [hclose] at hclosed
    | ok p' => rwa [hclose] at hclosed
  | other s =>
    obtain ⟨⟨hopen, hopen'⟩, hx⟩ := ite_none_right_eq_some.mp hnext
    cases hx
    have huse : InUse (read p high low) := (opened_iff _).mp hopen
    have huse' : InUse s := (opened_iff _).mp hopen'
    exact hlies.counted_fields
      ⟨fun _ => hcounted.total huse, hcounted.low, fun hnot => absurd huse' hnot⟩

/-- **Write-list accounting.** In every run whose write events find no user object first in
the low list, and no reserved slot with the count of its last socket, no assertion of
`send_buffer_`, `raise_uncomplete` or `append_sendbuffer_` fails: the tails are the last
nodes, `wb_size` of an open socket is the sum over its nodes, and nothing of the first node
of the low list has been written.
SRC: socket_server.c:712-742, 768-808, 819-985, 1006-1076 -/
theorem write_lists_accounted {x : Except ListFault (LinkedSocket θ)}
    (h : (slotMachine θ).Reach WriteOk x) : ListsOk x := by
  apply CountedInMemory.listsOk
  apply h.invariant
  · rintro _ ⟨fields, node, rfl⟩
    exact ⟨[], [], ⟨HeadTail.holds_empty _, HeadTail.holds_empty _, nodup_nil, nofun⟩,
      .freed rfl ⟨rfl, rfl, rfl⟩⟩
  · intro x a x' hx hok hnext
    cases x with
    | error f => cases hnext
    | ok p => exact slotNext_counted hx hok hnext

end Runs

/-! ## User objects -/

def tcpOpened : List (SlotAction Unit) := [.reserveId 1, .newFd {} 1 .tcp 0 true .connected]

def zeroSlot : LinkedSocket Unit := .fresh .fresh fun _ => ⟨⟨(), .high, .memory, []⟩, 0, none⟩

theorem zeroSlot_start : (slotMachine Unit).start (.ok zeroSlot) := ⟨_, _, rfl⟩

/-- **A user object first in the low list.** A memory buffer is sent with high priority, a
user object with low priority, and the first write event fails the assertion of
`send_buffer_`, although nothing has been written.
SRC: socket_server.c:819-826, 859 -/
theorem user_object_first :
    (slotMachine Unit).Reachable (.error (.slot .lowUncomplete)) ∧
      ¬ListsOk (.error (.slot .lowUncomplete) : Except ListFault (LinkedSocket Unit)) := by
  refine ⟨?_, nofun⟩
  have hrun : (slotMachine Unit).run (.ok zeroSlot) (tcpOpened ++
      [.sendSocket {} 1 ⟨(), .high, .memory, [1]⟩ none,
        .sendSocket {} 1 ⟨(), .low, .object, [2]⟩ none,
        .sendBuffer {}]) = some (.error (.slot .lowUncomplete)) := rfl
  exact Machine.Reachable.run (.start zeroSlot_start) hrun

def partialWrite : List (SlotAction Unit) := tcpOpened ++
    [.sendSocket {} 1 ⟨(), .high, .memory, [1]⟩ none,
      .sendSocket {} 1 ⟨(), .low, .rawpointer, [2, 3]⟩ none,
      .sendSocket {} 1 ⟨(), .low, .object, [4]⟩ none,
      .sendBuffer { writeHigh := [.wrote 1], writeLow := [.wrote 1] }]

theorem write_lists_accounted_partial :
    ∃ x, (slotMachine Unit).runOk WriteOk (.ok zeroSlot) partialWrite = some x ∧ ListsOk x := by
  obtain ⟨x, hx⟩ : ∃ x, (slotMachine Unit).runOk WriteOk (.ok zeroSlot) partialWrite = some x :=
    ⟨_, rfl⟩
  exact ⟨x, hx, write_lists_accounted (Machine.Reach.runOk (.start zeroSlot_start) hx)⟩

end Skynet.Analysis
