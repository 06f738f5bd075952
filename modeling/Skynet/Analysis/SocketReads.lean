import Skynet.Analysis.SocketBuffer
import Skynet.Model.SocketRead

/-!
# Reads from a socket return the stream

The buffer of a socket keeps the bytes that have arrived and that no read has taken, so what a read
returns is right if it asks the buffer.  `socket.readline` does not always ask: where the socket is
no longer connected when it goes on, it returns all the bytes as if there were no line in them.
-/

namespace Skynet.Analysis

open Library Model LuaSocket Option List Function

/-! ## The driver -/

def BufferKeeps (pool : BufferPool) (sb : SocketBuffer) (bytes : Bytes) : Prop :=
  ∃ cs, pool.nodes.Holds (update (fun _ => HeadTail.empty) 0 sb.list)
    (update (fun _ => []) 0 cs) ∧ KeepsString sb cs bytes

theorem bufferKeeps_new : BufferKeeps emptyPool lnewbuffer [] := by
  have hempty : (NodePool.empty : NodePool BufferNode).Holds (fun _ : ℕ => HeadTail.empty)
      fun _ => [] := NodePool.holds_empty
  refine ⟨[], ?_, ⟨0, rfl, rfl, rfl⟩, by simp, rfl, by simp⟩
  have hlists : update (fun _ : ℕ => (HeadTail.empty : HeadTail ℕ)) 0 lnewbuffer.list =
      fun _ => HeadTail.empty := update_eq_self 0 _
  have hcontents : update (fun _ : ℕ => ([] : List BufferNode)) 0 [] = fun _ => [] :=
    update_eq_self 0 _
  rw [hlists, hcontents]
  exact hempty

section Driver

variable {pool : BufferPool} {sb : SocketBuffer} {s : LuaSocket} {bytes : Bytes}

theorem BufferKeeps.call {op : BufferOp} (h : BufferKeeps pool sb bytes)
    (hdelivered : DeliveredCall bytes op) (hunharmed : UnharmedCall bytes op) :
    ∃ pool' sb', SocketBuffers.call pool sb op = some ((stringCall bytes op).1, pool', sb') ∧
      BufferKeeps pool' sb' (stringCall bytes op).2 := by
  obtain ⟨cs, hholds, hkeeps⟩ := h
  obtain ⟨pool', sb', cs', hcall, hholds', hkeeps'⟩ := call_spec hholds hkeeps hdelivered hunharmed
  exact ⟨pool', sb', hcall, cs', hholds', hkeeps'⟩

theorem push_spec {msg : Bytes} (h : BufferKeeps s.pool s.buffer bytes) (hne : msg ≠ [])
    (hsmall : bytes.length + msg.length < 2 ^ 31) :
    ∃ pool' sb', s.push msg = some (((bytes ++ msg).length : ℤ),
        { s with pool := pool', buffer := sb', received := s.received ++ msg }) ∧
      BufferKeeps pool' sb' (bytes ++ msg) := by
  have hdelivered : DeliveredCall bytes (.push msg) := ⟨hne, hsmall⟩
  obtain ⟨pool', sb', hcall, hkeeps⟩ := h.call hdelivered trivial
  obtain ⟨⟨n, p, b⟩, hpush, heq⟩ := map_eq_some_iff.mp hcall
  simp only [stringCall, Prod.mk.injEq, BufferResult.size.injEq] at heq
  obtain ⟨rfl, rfl, rfl⟩ := heq
  exact ⟨p, b, by rw [push, hpush]; rfl, hkeeps⟩

structure SameSocket (s s' : LuaSocket) : Prop where
  connected : s'.connected = s.connected
  required : s'.readRequired = s.readRequired
  co : s'.co = s.co
  pausing : s'.pausing = s.pausing
  received : s'.received = s.received
  returns : s'.returns = s.returns

theorem readall_spec (h : BufferKeeps s.pool s.buffer bytes) :
    ∃ s', s.readall = some (bytes, s') ∧ SameSocket s s' ∧ BufferKeeps s'.pool s'.buffer [] := by
  have hdelivered : DeliveredCall bytes .readall := trivial
  obtain ⟨pool', sb', hcall, hkeeps⟩ := h.call hdelivered trivial
  obtain ⟨⟨ret, p, b⟩, hread, heq⟩ := map_eq_some_iff.mp hcall
  simp only [stringCall, Prod.mk.injEq, BufferResult.all.injEq] at heq
  obtain ⟨rfl, rfl, rfl⟩ := heq
  exact ⟨{ s with pool := p, buffer := b }, by rw [readall, hread]; rfl,
    ⟨rfl, rfl, rfl, rfl, rfl, rfl⟩, hkeeps⟩

theorem pop_spec {n : ℤ} (h : BufferKeeps s.pool s.buffer bytes) (hn : 1 ≤ n)
    (hunharmed : UnharmedCall bytes (.pop n)) :
    ∃ s', s.pop n = some (if n ≤ bytes.length then some (bytes.take n.toNat) else none, s') ∧
      SameSocket s s' ∧ BufferKeeps s'.pool s'.buffer
        (if n ≤ bytes.length then bytes.drop n.toNat else bytes) := by
  obtain ⟨pool', sb', hcall, hkeeps⟩ := h.call (show DeliveredCall _ (.pop n) from hn) hunharmed
  obtain ⟨⟨⟨ret, sz⟩, p, b⟩, hpop, heq⟩ := map_eq_some_iff.mp hcall
  refine ⟨{ s with pool := p, buffer := b }, ?_, ⟨rfl, rfl, rfl, rfl, rfl, rfl⟩, ?_⟩ <;>
    by_cases hle : n ≤ bytes.length <;>
      simp only [stringCall, hn, hle, and_self, and_false, if_true, if_false, Prod.mk.injEq,
        BufferResult.popped.injEq] at heq hkeeps ⊢ <;> obtain ⟨⟨rfl, rfl⟩, rfl, rfl⟩ := heq
  · rw [pop, hpop]
    rfl
  · rw [pop, hpop]
    rfl
  · exact hkeeps
  · exact hkeeps

theorem readline_spec {sep : Bytes} (h : BufferKeeps s.pool s.buffer bytes)
    (hunharmed : UnharmedCall bytes (.readline sep false)) :
    ∃ s', s.readline sep false = some (match firstAt sep bytes with
          | none => .nothing
          | some i => .line (bytes.take i), s') ∧
      SameSocket s s' ∧ BufferKeeps s'.pool s'.buffer (match firstAt sep bytes with
        | none => bytes
        | some i => bytes.drop (i + sep.length)) := by
  obtain ⟨cs, hholds, hkeeps⟩ := h
  obtain ⟨pool', sb', cs', hcall, hholds', hkeeps'⟩ := readline_call hholds hkeeps hunharmed
  obtain ⟨⟨ret, p, b⟩, hread, heq⟩ := map_eq_some_iff.mp hcall
  refine ⟨{ s with pool := p, buffer := b }, ?_, ⟨rfl, rfl, rfl, rfl, rfl, rfl⟩, cs', ?_⟩ <;>
    cases hat : firstAt sep bytes <;>
      simp only [stringCall, hat, Bool.false_eq_true, if_false, Prod.mk.injEq,
        BufferResult.line.injEq] at heq hkeeps' ⊢ <;> obtain ⟨rfl, rfl, rfl⟩ := heq
  · rw [readline, hread]
    rfl
  · rw [readline, hread]
    rfl
  · exact ⟨hholds', hkeeps'⟩
  · exact ⟨hholds', hkeeps'⟩

theorem readline_check_spec {sep : Bytes} (h : BufferKeeps s.pool s.buffer bytes)
    (hunharmed : UnharmedCall bytes (.readline sep true)) :
    ∃ pool' sb', s.readline sep true =
        some (if (firstAt sep bytes).isSome then .found else .nothing,
          { s with pool := pool', buffer := sb' }) ∧ BufferKeeps pool' sb' bytes := by
  obtain ⟨cs, hholds, hkeeps⟩ := h
  obtain ⟨pool', sb', cs', hcall, hholds', hkeeps'⟩ := readline_call hholds hkeeps hunharmed
  obtain ⟨⟨ret, p, b⟩, hread, heq⟩ := map_eq_some_iff.mp hcall
  cases hat : firstAt sep bytes with
  | none | some i =>
    simp only [stringCall, hat, if_true, Prod.mk.injEq, BufferResult.line.injEq] at heq hkeeps'
    obtain ⟨rfl, rfl, rfl⟩ := heq
    exact ⟨p, b, by rw [readline, hread]; rfl, cs', hholds', hkeeps'⟩

end Driver

/-! ## What a read should return -/

def requirement : ReadCall → ReadRequired
  | .read none => .size 0
  | .read (some n) => .size n
  | .readall => .all
  | .readline sep => .line sep

def Answers (bytes : Bytes) : ReadCall → Prop
  | .read none => bytes ≠ []
  | .read (some n) => n ≤ bytes.length
  | .readall => False
  | .readline sep => (firstAt sep bytes).isSome

/-- A read returned the data it asks for, from the front of the bytes that were there.  Where they
were not enough, the socket was closed and it returned all of them. -/
def ReturnRight (e : ReadEvent) : Prop :=
  match e.call with
  | .read none =>
    if e.unread ≠ [] then e.result = .data e.unread
    else e.connected = false ∧ e.result = .failed []
  | .read (some n) =>
    if n ≤ e.unread.length then e.result = .data (e.unread.take n.toNat)
    else e.connected = false ∧ e.result = .failed e.unread
  | .readall =>
    e.connected = false ∧ (e.result = .data e.unread ∨ e.unread = [] ∧ e.result = .nothing)
  | .readline sep =>
    match firstAt sep e.unread with
    | some i => e.result = .data (e.unread.take i)
    | none => e.connected = false ∧ e.result = .failed e.unread

/-- Every read has returned what it should; what the reads took is the front of what arrived, and
the rest is in the buffer.  A read waits only for bytes that have not arrived, or for a handler that
has paused the socket and will wake it, or for the close that the driver has been told. -/
structure ReadsRight (s : LuaSocket) : Prop where
  right : ∀ e ∈ s.returns, ReturnRight e
  stream : s.taken <+: s.received
  kept : BufferKeeps s.pool s.buffer s.unread
  due : ∀ c p, s.reader = .waiting c p → s.connected = true ∧
    (Answers s.unread c → 0 < s.pausing ∨ .close ∈ s.driver)

def CallFits (bytes : Bytes) : ReadCall → Prop
  | .read (some n) => 1 ≤ n ∧ UnharmedCall bytes (.pop n)
  | .readline sep => UnharmedCall bytes (.readline sep false)
  | _ => True

def LineFits (bytes : Bytes) : ReadRequired → Prop
  | .line sep => UnharmedCall bytes (.readline sep true)
  | _ => True

def LateLine (s : LuaSocket) : ReadCall → Prop
  | .readline sep => s.connected = false ∧ (firstAt sep s.unread).isSome
  | _ => False

/-- `DATA` is not empty and leaves less than 2^31 bytes in the buffer; the numbers do as `int`s; and
`socket.readline` does not go on after the close while a line is there. -/
def ReadInTime (s : LuaSocket) : SocketReadAction → Prop
  | .data msg => msg ≠ [] ∧ s.unread.length + msg.length < 2 ^ 31 ∧
    LineFits (s.unread ++ msg) s.readRequired
  | .call c => CallFits s.unread c
  | .resume =>
    match s.reader with
    | .woken c _ => CallFits s.unread c ∧ ¬ LateLine s c
    | _ => True
  | _ => True

theorem Answers.append {bytes : Bytes} {c : ReadCall} (h : Answers bytes c)
    (msg : Bytes) : Answers (bytes ++ msg) c := by
  cases c with
  | read sz =>
    cases sz with
    | none => exact append_ne_nil_of_left_ne_nil h msg
    | some n =>
      have hle : n ≤ bytes.length := h
      change n ≤ (bytes ++ msg).length
      rw [length_append]
      omega
  | readall => exact h
  | readline sep =>
    obtain ⟨i, hi⟩ := isSome_iff_exists.mp h
    exact isSome_iff_exists.mpr ⟨i, firstAt_append hi msg⟩

theorem requirement_ne_nothing (c : ReadCall) : requirement c ≠ .nothing := by
  cases c with
  | read sz => cases sz <;> nofun
  | readall => nofun
  | readline sep => nofun

/-! ## The stream -/

structure StreamInv (s : LuaSocket) : Prop where
  right : ∀ e ∈ s.returns, ReturnRight e
  stream : s.taken <+: s.received
  kept : BufferKeeps s.pool s.buffer s.unread

section Stream

variable {s s' : LuaSocket} {c : ReadCall} {r : ReadReturn}

theorem StreamInv.congr (h : StreamInv s) (hpool : s'.pool = s.pool)
    (hbuffer : s'.buffer = s.buffer) (hreceived : s'.received = s.received)
    (hreturns : s'.returns = s.returns) : StreamInv s' := by
  have htaken : s'.taken = s.taken := by rw [taken, taken, hreturns]
  have hunread : s'.unread = s.unread := by
    simp only [LuaSocket.unread, hreceived, htaken]
  exact ⟨hreturns ▸ h.right, hreceived ▸ htaken ▸ h.stream, hpool ▸ hbuffer ▸ hunread ▸ h.kept⟩

theorem taken_unread (h : s.taken <+: s.received) : s.taken ++ s.unread = s.received :=
  (prefix_iff_eq_append.mp h)

theorem unread_push (h : s.taken <+: s.received) (msg : Bytes)
    (hreceived : s'.received = s.received ++ msg) (hreturns : s'.returns = s.returns) :
    s'.unread = s.unread ++ msg := by
  have htaken : s'.taken = s.taken := by rw [taken, taken, hreturns]
  simp only [LuaSocket.unread, hreceived, htaken]
  exact drop_append_of_le_length h.length_le

theorem StreamInv.ret (hright : ∀ e ∈ s.returns, ReturnRight e) (hstream : s.taken <+: s.received)
    (hfront : (⟨c, r, s.unread, s.connected⟩ : ReadEvent).taken <+: s.unread)
    (hkept : BufferKeeps s.pool s.buffer
      (s.unread.drop (⟨c, r, s.unread, s.connected⟩ : ReadEvent).taken.length))
    (hr : ReturnRight ⟨c, r, s.unread, s.connected⟩) : StreamInv (s.ret c r) := by
  have htaken : (s.ret c r).taken =
      s.taken ++ (⟨c, r, s.unread, s.connected⟩ : ReadEvent).taken := by
    simp [LuaSocket.ret, taken]
  have hunread : (s.ret c r).unread =
      s.unread.drop (⟨c, r, s.unread, s.connected⟩ : ReadEvent).taken.length := by
    simp only [LuaSocket.unread, htaken, length_append, ← drop_drop]
    rfl
  refine ⟨fun e he => ?_, ?_, ?_⟩
  · rcases mem_append.mp he with he | he
    · exact hright e he
    · exact mem_singleton.mp he ▸ hr
  · rw [htaken]
    change _ <+: s.received
    rw [← taken_unread hstream]
    exact (prefix_append_right_inj _).mpr hfront
  · rw [hunread]
    exact hkept

end Stream

/-! ## The reading coroutine -/

/-- The part of the invariant that is about the coroutine.  It waits on a connected socket, and
either the handlers know for what, or one of them has paused the socket and will wake it; it is
woken on a connected socket for bytes that are there. -/
structure ReaderInv (s : LuaSocket) : Prop where
  idle : s.reader = .idle → s.co = false ∧ (s.connected = true → s.readRequired = .nothing)
  waiting : ∀ c p, s.reader = .waiting c p → s.connected = true ∧ s.co = true ∧
    (s.readRequired = requirement c ∧ (Answers s.unread c → .close ∈ s.driver) ∨
      s.readRequired = .nothing ∧ Answers s.unread c ∧ 0 < s.pausing)
  woken : ∀ c p, s.reader = .woken c p → s.co = false ∧
    (s.connected = true → s.readRequired = .nothing ∧ Answers s.unread c)
  pausing : s.connected = true → 0 < s.pausing → s.pausing = 1 ∧ s.readRequired = .nothing ∧
    ∃ c p, s.reader = .waiting c p

structure ReaderFree (s : LuaSocket) : Prop where
  co : s.co = false
  required : s.connected = true → s.readRequired = .nothing
  pausing : s.connected = true → s.pausing = 0

section Reader

variable {s s' : LuaSocket} {c : ReadCall} {r : ReadReturn} {p : Bool} {msg : Bytes}

theorem ReaderInv.co_iff (h : ReaderInv s) : s.co = true ↔ ∃ c p, s.reader = .waiting c p := by
  cases hreader : s.reader with
  | idle => simp [(h.idle hreader).1]
  | waiting c p => simp [(h.waiting c p hreader).2.1]
  | woken c p => simp [(h.woken c p hreader).1]

theorem ReaderInv.of_closed (hclosed : s.connected = false) (hco : s.co = false)
    (hnot : ∀ c p, s.reader ≠ .waiting c p) : ReaderInv s where
  idle _ := ⟨hco, fun hconn => by simp [hclosed] at hconn⟩
  waiting c p hw := absurd hw (hnot c p)
  woken _ _ _ := ⟨hco, fun hconn => by simp [hclosed] at hconn⟩
  pausing hconn := by simp [hclosed] at hconn

theorem ReaderInv.not_waiting (h : ReaderInv s) (hclosed : s.connected = false) (c : ReadCall)
    (p : Bool) : s.reader ≠ .waiting c p := by
  intro hw
  have hconn := (h.waiting c p hw).1
  rw [hclosed] at hconn
  cases hconn

theorem ReaderInv.waiting_of_required (h : ReaderInv s) (hconn : s.connected = true)
    (hreq : s.readRequired ≠ .nothing) :
    s.pausing = 0 ∧ ∃ c p, s.reader = .waiting c p ∧ s.readRequired = requirement c := by
  refine ⟨Nat.eq_zero_of_not_pos fun hpos => hreq (h.pausing hconn hpos).2.1, ?_⟩
  cases hreader : s.reader with
  | idle => exact absurd ((h.idle hreader).2 hconn) hreq
  | woken c p => exact absurd ((h.woken c p hreader).2 hconn).1 hreq
  | waiting c p =>
    refine ⟨c, p, rfl, ?_⟩
    rcases (h.waiting c p hreader).2.2 with ⟨heq, -⟩ | ⟨hnothing, -⟩
    · exact heq
    · exact absurd hnothing hreq

theorem ReaderInv.wakeup (hco : s.co = true ↔ ∃ c p, s.reader = .waiting c p)
    (hok : s.connected = true → s.readRequired = .nothing ∧ s.pausing = 0 ∧
      ∀ c p, s.reader = .waiting c p ∨ s.reader = .woken c p → Answers s.unread c) :
    ReaderInv s.wakeup := by
  unfold LuaSocket.wakeup
  split
  · next hwaits =>
    obtain ⟨c, p, hreader⟩ := hco.mp hwaits
    simp only [hreader]
    exact {
      idle := nofun
      waiting := nofun
      woken := fun c' p' hw => by
        obtain ⟨rfl, rfl⟩ := ReadPc.woken.inj hw
        exact ⟨rfl, fun hconn => ⟨(hok hconn).1, (hok hconn).2.2 c p (.inl hreader)⟩⟩
      pausing := fun hconn hpos => absurd (hok hconn).2.1 (Nat.ne_of_gt hpos) }
  · next hnot =>
    have hfalse : s.co = false := by simpa using hnot
    exact {
      idle := fun _ => ⟨hfalse, fun hconn => (hok hconn).1⟩
      waiting := fun c p hw => absurd (hco.mpr ⟨c, p, hw⟩) hnot
      woken := fun c p hw =>
        ⟨hfalse, fun hconn => ⟨(hok hconn).1, (hok hconn).2.2 c p (.inr hw)⟩⟩
      pausing := fun hconn hpos => absurd (hok hconn).2.1 (Nat.ne_of_gt hpos) }

theorem ReaderInv.more (h : ReaderInv s) (hconn : s'.connected = s.connected)
    (hreq : s'.readRequired = s.readRequired) (hco : s'.co = s.co) (hreader : s'.reader = s.reader)
    (hpausing : s'.pausing = s.pausing) (hunread : s'.unread = s.unread ++ msg)
    (hnew : ∀ c p, s.reader = .waiting c p → s.readRequired = requirement c →
      Answers s'.unread c → .close ∈ s'.driver) : ReaderInv s' where
  idle := hreader ▸ hco ▸ hconn ▸ hreq ▸ h.idle
  waiting c p hw := by
    rw [hreader] at hw
    obtain ⟨hc, hwaits, hfor⟩ := h.waiting c p hw
    refine ⟨hconn ▸ hc, hco ▸ hwaits, ?_⟩
    rcases hfor with ⟨heq, -⟩ | ⟨hnothing, hans, hpos⟩
    · exact .inl ⟨hreq ▸ heq, hnew c p hw heq⟩
    · exact .inr ⟨hreq ▸ hnothing, hunread ▸ hans.append msg, hpausing ▸ hpos⟩
  woken c p hw := by
    rw [hreader] at hw
    obtain ⟨hfree, hans⟩ := h.woken c p hw
    rw [hco, hconn, hreq, hunread]
    exact ⟨hfree, fun hc => ⟨(hans hc).1, (hans hc).2.append msg⟩⟩
  pausing := hconn ▸ hpausing ▸ hreq ▸ hreader ▸ h.pausing

theorem satisfied_eq (sz : ℤ) : s.satisfied sz =
    if sz > bufferLimit ∧ s.pause = false then
      { s with
        readRequired := .nothing, pause := true, driver := s.driver ++ [.pause]
        pausing := s.pausing + 1 }
    else LuaSocket.wakeup { s with readRequired := .nothing } := by
  unfold LuaSocket.satisfied LuaSocket.pauseSocket
  by_cases hsz : sz > bufferLimit
  · cases hpause : s.pause <;> simp [hsz]
  · simp [hsz]

/-- The read that a handler is told of can be answered: it wakes the coroutine, or pauses the
socket first. -/
theorem ReaderInv.satisfied {sz : ℤ} (hco : s.co = true ↔ ∃ c p, s.reader = .waiting c p)
    (hopen : s.connected = true → s.pausing = 0 ∧
      ∃ c p, s.reader = .waiting c p ∧ Answers s.unread c)
    (hclosed : s.connected = false → s.co = false) : ReaderInv (s.satisfied sz) := by
  rw [satisfied_eq]
  split
  · cases hconn : s.connected with
    | false =>
      have hfree := hclosed hconn
      refine .of_closed rfl hfree fun c p hw => ?_
      rw [hco.mpr ⟨c, p, hw⟩] at hfree
      cases hfree
    | true =>
      obtain ⟨hzero, c, p, hreader, hans⟩ := hopen hconn
      simp only [hreader]
      exact {
        idle := nofun
        waiting := fun c' p' hw => by
          obtain ⟨rfl, rfl⟩ := ReadPc.waiting.inj hw
          exact ⟨rfl, hco.mpr ⟨c, p, hreader⟩, .inr ⟨rfl, hans, Nat.succ_pos _⟩⟩
        woken := nofun
        pausing := fun _ _ => ⟨by simp [hzero], rfl, c, p, rfl⟩ }
  · refine ReaderInv.wakeup hco fun hconn => ?_
    obtain ⟨hzero, c, p, hreader, hans⟩ := hopen hconn
    refine ⟨rfl, hzero, fun c' p' hw => ?_⟩
    rw [hreader] at hw
    rcases hw with hw | hw
    · exact (ReadPc.waiting.inj hw).1 ▸ hans
    · cases hw

theorem ReaderInv.free_idle (h : ReaderInv s) (hidle : s.reader = .idle) : ReaderFree s where
  co := (h.idle hidle).1
  required := (h.idle hidle).2
  pausing hconn := Nat.eq_zero_of_not_pos fun hpos => by
    obtain ⟨-, -, c, p, hw⟩ := h.pausing hconn hpos
    rw [hidle] at hw
    cases hw

theorem ReaderInv.free_woken (h : ReaderInv s) (hwoken : s.reader = .woken c p) :
    ReaderFree s where
  co := (h.woken c p hwoken).1
  required hconn := ((h.woken c p hwoken).2 hconn).1
  pausing hconn := Nat.eq_zero_of_not_pos fun hpos => by
    obtain ⟨-, -, c', p', hw⟩ := h.pausing hconn hpos
    rw [hwoken] at hw
    cases hw

theorem ReaderFree.ret (h : ReaderFree s) : ReaderInv (s.ret c r) where
  idle _ := ⟨h.co, h.required⟩
  waiting := nofun
  woken := nofun
  pausing hconn hpos := absurd (h.pausing hconn) (Nat.ne_of_gt hpos)

theorem ReaderFree.suspend (h : ReaderFree s) (hconn : s.connected = true)
    (hnot : ¬ Answers s.unread c) :
    s.suspend c (requirement c) = { s with
      readRequired := requirement c, co := true, reader := .waiting c s.pause
      driver := if s.pause then s.driver ++ [.start] else s.driver } ∧
    ReaderInv (s.suspend c (requirement c)) := by
  have heq : s.suspend c (requirement c) = { s with
      readRequired := requirement c, co := true, reader := .waiting c s.pause
      driver := if s.pause then s.driver ++ [.start] else s.driver } := by
    simp [LuaSocket.suspend, h.required hconn, h.co]
  refine ⟨heq, heq ▸ ?_⟩
  exact {
    idle := nofun
    waiting := fun c' p' hw => by
      obtain ⟨rfl, rfl⟩ := ReadPc.waiting.inj hw
      exact ⟨hconn, rfl, .inl ⟨rfl, fun hans => absurd hans hnot⟩⟩
    woken := nofun
    pausing := fun _ hpos => absurd (h.pausing hconn) (Nat.ne_of_gt hpos) }

end Reader

/-! ## Messages -/

section Messages

variable {s s' : LuaSocket} {msg : Bytes}

theorem wakeup_stream (h : StreamInv s) : StreamInv s.wakeup := by
  unfold LuaSocket.wakeup
  split
  · exact h.congr rfl rfl rfl rfl
  · exact h

theorem satisfied_stream {sz : ℤ} (h : StreamInv s) : StreamInv (s.satisfied sz) := by
  rw [satisfied_eq]
  split
  · exact h.congr rfl rfl rfl rfl
  · exact wakeup_stream (h.congr rfl rfl rfl rfl)

theorem answers_of_size {c : ReadCall} {rr : ℤ} {bytes : Bytes} (hne : bytes ≠ [])
    (hreq : .size rr = requirement c) : Answers bytes c ↔ rr ≤ bytes.length := by
  cases c with
  | read sz =>
    cases sz with
    | none =>
      obtain rfl := ReadRequired.size.inj hreq
      exact iff_of_true hne (Int.natCast_nonneg _)
    | some n =>
      obtain rfl := ReadRequired.size.inj hreq
      exact Iff.rfl
  | readall => cases hreq
  | readline sep => cases hreq

theorem answers_of_line {c : ReadCall} {sep bytes : Bytes}
    (hreq : .line sep = requirement c) : Answers bytes c ↔ (firstAt sep bytes).isSome := by
  cases c with
  | read sz => cases sz <;> cases hreq
  | readall => cases hreq
  | readline sep' =>
    obtain rfl := ReadRequired.line.inj hreq
    exact Iff.rfl

structure Arrived (s s' : LuaSocket) (msg : Bytes) : Prop where
  connected : s'.connected = s.connected
  required : s'.readRequired = s.readRequired
  co : s'.co = s.co
  reader : s'.reader = s.reader
  pausing : s'.pausing = s.pausing
  unread : s'.unread = s.unread ++ msg

theorem answered_step {sz : ℤ} (hr : ReaderInv s) (ha : Arrived s s' msg) (hs' : StreamInv s')
    (hreq : s'.readRequired ≠ .nothing)
    (hans : ∀ c, s'.readRequired = requirement c → Answers s'.unread c) :
    StreamInv (s'.satisfied sz) ∧ ReaderInv (s'.satisfied sz) := by
  refine ⟨satisfied_stream hs', ReaderInv.satisfied ?_ ?_ ?_⟩
  · rw [ha.co, ha.reader]
    exact hr.co_iff
  · rw [ha.connected, ha.pausing, ha.reader]
    intro hopen
    obtain ⟨hzero, c, p, hw, heq⟩ := hr.waiting_of_required hopen (ha.required ▸ hreq)
    exact ⟨hzero, c, p, hw, hans c (ha.required.trans heq)⟩
  · rw [ha.connected, ha.co]
    intro hclosed
    by_contra hne
    obtain ⟨c, p, hw⟩ := hr.co_iff.mp (by simpa using hne)
    exact hr.not_waiting hclosed c p hw

theorem unanswered_step (hr : ReaderInv s) (ha : Arrived s s' msg)
    (hnot : ∀ c, s'.readRequired = requirement c → ¬ Answers s'.unread c) : ReaderInv s' :=
  hr.more ha.connected ha.required ha.co ha.reader ha.pausing ha.unread
    fun c _ _ hc hans => absurd hans (hnot c (ha.required.trans hc))

theorem handle_step {sz : ℤ} (hr : ReaderInv s) (ha : Arrived s s' msg) (hs' : StreamInv s')
    (hsz : sz = s'.unread.length) (hne : s'.unread ≠ [])
    (hfits : LineFits s'.unread s'.readRequired) {s'' : LuaSocket}
    (hnext : s'.handleData sz = some s'') : StreamInv s'' ∧ ReaderInv s'' := by
  unfold LuaSocket.handleData at hnext
  split at hnext
  · next rr hreq =>
    cases hnext
    split
    · next henough =>
      refine answered_step hr ha hs' (by simp [hreq]) fun c hc => ?_
      exact (answers_of_size hne (hreq ▸ hc)).mpr (hsz ▸ henough)
    · next hshort =>
      refine ⟨hs', unanswered_step hr ha fun c hc hans => hshort ?_⟩
      exact hsz ▸ (answers_of_size hne (hreq ▸ hc)).mp hans
  · next hnotsize =>
    split at hnext
    · cases hnext
      exact ⟨hs'.congr rfl rfl rfl rfl, hr.more ha.connected ha.required ha.co ha.reader ha.pausing
        ha.unread fun _ _ _ _ _ => mem_append_right _ mem_cons_self⟩
    · split at hnext
      · next sep hreq =>
        obtain ⟨pool, sb, hread, hkept⟩ := readline_check_spec hs'.kept
          (show LineFits s'.unread (.line sep) from hreq ▸ hfits)
        simp only [hread, map_some, some.injEq] at hnext
        subst hnext
        have hs'' : StreamInv { s' with pool := pool, buffer := sb } :=
          ⟨hs'.right, hs'.stream, hkept⟩
        have ha' : Arrived s { s' with pool := pool, buffer := sb } msg :=
          ⟨ha.connected, ha.required, ha.co, ha.reader, ha.pausing, ha.unread⟩
        cases hat : (firstAt sep s'.unread).isSome with
        | true =>
          refine answered_step hr ha' hs'' (by simp [hreq]) fun c hc => ?_
          exact (answers_of_line (hreq ▸ hc)).mpr hat
        | false =>
          refine ⟨hs'', unanswered_step hr ha' fun c hc hans => ?_⟩
          have hsome : (firstAt sep s'.unread).isSome = true :=
            (answers_of_line (hreq ▸ hc)).mp hans
          rw [hat] at hsome
          cases hsome
      · next hnotline =>
        cases hnext
        -- nobody waits for a size or a line
        have hall : ∀ c, s'.readRequired = requirement c → ¬ Answers s'.unread c := by
          intro c hc hans
          cases c with
          | read sz => cases sz <;> exact hnotsize _ hc
          | readall => exact hans
          | readline sep => exact hnotline sep hc
        split
        · unfold LuaSocket.pauseSocket
          split
          · exact ⟨hs', unanswered_step hr ha hall⟩
          · exact ⟨hs'.congr rfl rfl rfl rfl, unanswered_step hr
              ⟨ha.connected, ha.required, ha.co, ha.reader, ha.pausing, ha.unread⟩ hall⟩
        · exact ⟨hs', unanswered_step hr ha hall⟩

theorem data_step (hs : StreamInv s) (hr : ReaderInv s) (hok : ReadInTime s (.data msg))
    (hnext : s.dataMessage msg = some s') : StreamInv s' ∧ ReaderInv s' := by
  obtain ⟨hne, hsmall, hfits⟩ := hok
  obtain ⟨pool, sb, hpush, hkept⟩ := push_spec hs.kept hne hsmall
  rw [dataMessage, hpush, bind_some] at hnext
  have hunread : ({ s with
      pool := pool, buffer := sb, received := s.received ++ msg } : LuaSocket).unread =
      s.unread ++ msg := unread_push hs.stream msg rfl rfl
  have ha : Arrived s { s with
      pool := pool, buffer := sb, received := s.received ++ msg } msg :=
    ⟨rfl, rfl, rfl, rfl, rfl, hunread⟩
  have hs' : StreamInv { s with
      pool := pool, buffer := sb, received := s.received ++ msg } :=
    ⟨hs.right, hs.stream.trans (prefix_append _ _), hunread ▸ hkept⟩
  refine handle_step hr ha hs' ?_ ?_ ?_ hnext
  · rw [hunread]
  · rw [hunread]
    exact append_ne_nil_of_right_ne_nil _ hne
  · rw [hunread]
    exact hfits

theorem close_step (hs : StreamInv s) (hr : ReaderInv s) :
    StreamInv s.closeMessage ∧ ReaderInv s.closeMessage :=
  ⟨wakeup_stream (hs.congr rfl rfl rfl rfl), ReaderInv.wakeup hr.co_iff nofun⟩

theorem error_step (hs : StreamInv s) (hr : ReaderInv s) :
    StreamInv s.errorMessage ∧ ReaderInv s.errorMessage :=
  ⟨wakeup_stream (hs.congr rfl rfl rfl rfl), ReaderInv.wakeup hr.co_iff nofun⟩

/-- The handler that has paused the socket wakes the coroutine that still waits, or finds it woken
by the close. -/
theorem yielded_step (hs : StreamInv s) (hr : ReaderInv s) (hnext : s.yielded = some s') :
    StreamInv s' ∧ ReaderInv s' := by
  obtain ⟨hpos, heq⟩ := ite_none_left_eq_some.mp hnext
  cases heq
  refine ⟨wakeup_stream (hs.congr rfl rfl rfl rfl), ReaderInv.wakeup hr.co_iff fun hconn => ?_⟩
  obtain ⟨hone, hnothing, c, p, hw⟩ := hr.pausing hconn (Nat.pos_of_ne_zero hpos)
  refine ⟨hnothing, by simp [hone], fun c' p' hw' => ?_⟩
  rw [hw] at hw'
  rcases hw' with hw' | hw'
  · obtain ⟨rfl, -⟩ := ReadPc.waiting.inj hw'
    rcases (hr.waiting c p hw).2.2 with ⟨heq, -⟩ | ⟨-, hans, -⟩
    · exact absurd (heq.symm.trans hnothing) (requirement_ne_nothing c)
    · exact hans
  · cases hw'

end Messages

/-! ## Reads -/

section Reads

variable {s s' : LuaSocket} {c : ReadCall} {r : ReadReturn} {p : Bool} {pool : BufferPool}
  {sb : SocketBuffer}

theorem taken_failed {bytes unread : Bytes} {connected : Bool} :
    (⟨c, .failed bytes, unread, connected⟩ : ReadEvent).taken = bytes := by
  cases c <;> rfl

theorem SameSocket.taken (h : SameSocket s s') : s'.taken = s.taken := by
  rw [LuaSocket.taken, LuaSocket.taken, h.returns]

theorem SameSocket.unread (h : SameSocket s s') : s'.unread = s.unread := by
  simp only [LuaSocket.unread, h.received, h.taken]

theorem SameSocket.free (h : SameSocket s s') (hf : ReaderFree s) : ReaderFree s' :=
  ⟨h.co ▸ hf.co, h.connected ▸ h.required ▸ hf.required, h.connected ▸ h.pausing ▸ hf.pausing⟩

theorem SameSocket.stream (h : SameSocket s s') (hs : StreamInv s)
    (hkept : BufferKeeps s'.pool s'.buffer s.unread) : StreamInv s' :=
  ⟨h.returns ▸ hs.right, h.received ▸ h.taken ▸ hs.stream, h.unread ▸ hkept⟩

theorem ret_step (hs : StreamInv s) (hf : ReaderFree s) (hsame : SameSocket s s')
    {front : Bytes} (htaken : (⟨c, r, s.unread, s.connected⟩ : ReadEvent).taken = front)
    (hfront : front <+: s.unread)
    (hkept : BufferKeeps s'.pool s'.buffer (s.unread.drop front.length))
    (hright : ReturnRight ⟨c, r, s.unread, s.connected⟩) :
    StreamInv (s'.ret c r) ∧ ReaderInv (s'.ret c r) := by
  subst htaken
  rw [← hsame.connected, ← hsame.unread] at hfront hkept hright
  exact ⟨StreamInv.ret (hsame.returns ▸ hs.right) (hsame.received ▸ hsame.taken ▸ hs.stream)
    hfront hkept hright, (hsame.free hf).ret⟩

theorem failed_step (hs : StreamInv s) (hf : ReaderFree s)
    (hright : ReturnRight ⟨c, .failed s.unread, s.unread, s.connected⟩)
    (h : s.retFailed c = some s') : StreamInv s' ∧ ReaderInv s' := by
  obtain ⟨s₁, hread, hsame, hkept⟩ := readall_spec hs.kept
  simp only [retFailed, hread, map_some, some.injEq] at h
  subst h
  exact ret_step hs hf hsame taken_failed prefix_rfl (by simpa using hkept) hright

theorem suspend_step (hs : StreamInv s) (hf : ReaderFree s) (hconn : s.connected = true)
    (hnot : ¬ Answers s.unread c) :
    StreamInv (s.suspend c (requirement c)) ∧ ReaderInv (s.suspend c (requirement c)) := by
  obtain ⟨heq, hr⟩ := hf.suspend hconn hnot
  exact ⟨heq ▸ hs.congr rfl rfl rfl rfl, hr⟩

theorem line_front {sep bytes : Bytes} {i : ℕ} (h : firstAt sep bytes = some i) :
    bytes.take i ++ sep <+: bytes ∧ (bytes.take i ++ sep).length = i + sep.length := by
  have hle := firstAt_add_length_le h
  have hlen : (bytes.take i).length = i := length_take_of_le (by omega)
  refine ⟨?_, by rw [length_append, hlen]⟩
  by_cases hsep : sep = []
  · simpa [hsep] using take_prefix i bytes
  · have hpre := ((firstAt_eq_some_iff hsep).mp h).1
    conv_rhs => rw [← take_append_drop i bytes]
    exact (prefix_append_right_inj _).mpr hpre

theorem read_some_step (hs : StreamInv s) (hf : ReaderFree s) (hsame : SameSocket s s')
    (hkept : BufferKeeps s'.pool s'.buffer []) (hne : s.unread ≠ []) :
    StreamInv (s'.ret (.read none) (.data s.unread)) ∧
      ReaderInv (s'.ret (.read none) (.data s.unread)) := by
  have hkept' : BufferKeeps s'.pool s'.buffer (s.unread.drop s.unread.length) := by
    rwa [drop_length]
  exact ret_step hs hf hsame rfl prefix_rfl hkept' (by simp [ReturnRight, hne])

theorem read_closed_step (hs : StreamInv s) (hf : ReaderFree s) (hsame : SameSocket s s')
    (hkept : BufferKeeps s'.pool s'.buffer []) (hnil : s.unread = [])
    (hconn : s.connected = false) :
    StreamInv (s'.ret (.read none) (.failed s.unread)) ∧
      ReaderInv (s'.ret (.read none) (.failed s.unread)) := by
  have hkept' : BufferKeeps s'.pool s'.buffer (s.unread.drop s.unread.length) := by
    rwa [drop_length]
  exact ret_step hs hf hsame rfl prefix_rfl hkept' (by simp [ReturnRight, hnil, hconn])

theorem read_size_step {n : ℤ} (hs : StreamInv s) (hf : ReaderFree s) (hsame : SameSocket s s')
    (hle : n ≤ s.unread.length) (hkept : BufferKeeps s'.pool s'.buffer (s.unread.drop n.toNat)) :
    StreamInv (s'.ret (.read (some n)) (.data (s.unread.take n.toNat))) ∧
      ReaderInv (s'.ret (.read (some n)) (.data (s.unread.take n.toNat))) := by
  have hlen : (s.unread.take n.toNat).length = n.toNat := length_take_of_le (by omega)
  exact ret_step hs hf hsame rfl ( take_prefix _ _) (hlen.symm ▸ hkept)
    (by simp [ReturnRight, hle])

theorem read_size_failed {n : ℤ} (hs : StreamInv s) (hf : ReaderFree s)
    (hlt : ¬ n ≤ s.unread.length) (hconn : s.connected = false)
    (h : s.retFailed (.read (some n)) = some s') : StreamInv s' ∧ ReaderInv s' :=
  failed_step hs hf (by simp [ReturnRight, hlt, hconn]) h

theorem line_step {sep : Bytes} {i : ℕ} (hs : StreamInv s) (hf : ReaderFree s)
    (hsame : SameSocket s s') (hat : firstAt sep s.unread = some i)
    (hkept : BufferKeeps s'.pool s'.buffer (s.unread.drop (i + sep.length))) :
    StreamInv (s'.ret (.readline sep) (.data (s.unread.take i))) ∧
      ReaderInv (s'.ret (.readline sep) (.data (s.unread.take i))) := by
  obtain ⟨hfront, hlen⟩ := line_front hat
  exact ret_step hs hf hsame rfl hfront (hlen.symm ▸ hkept) (by simp [ReturnRight, hat])

theorem line_failed {sep : Bytes} (hs : StreamInv s) (hf : ReaderFree s)
    (hat : firstAt sep s.unread = none) (hconn : s.connected = false)
    (h : s.retFailed (.readline sep) = some s') : StreamInv s' ∧ ReaderInv s' :=
  failed_step hs hf (by simp [ReturnRight, hat, hconn]) h

theorem readall_step (hs : StreamInv s) (hf : ReaderFree s) (hsame : SameSocket s s')
    (hkept : BufferKeeps s'.pool s'.buffer []) (hconn : s.connected = false)
    (hr : r = .data s.unread ∨ s.unread = [] ∧ r = .nothing) :
    StreamInv (s'.ret .readall r) ∧ ReaderInv (s'.ret .readall r) := by
  have hkept' : BufferKeeps s'.pool s'.buffer (s.unread.drop s.unread.length) := by
    rwa [drop_length]
  rcases hr with rfl | ⟨hnil, rfl⟩
  · exact ret_step hs hf hsame rfl prefix_rfl hkept' (by simp [ReturnRight, hconn])
  · exact ret_step hs hf hsame rfl nil_prefix (by rwa [hnil])
      (by simp [ReturnRight, hnil, hconn])

theorem call_step (hs : StreamInv s) (hr : ReaderInv s) (hidle : s.reader = .idle)
    (hfits : CallFits s.unread c) (h : s.call c = some s') : StreamInv s' ∧ ReaderInv s' := by
  have hf := hr.free_idle hidle
  cases c with
  | read sz =>
    cases sz with
    | none =>
      obtain ⟨s₁, hread, hsame, hkept⟩ := readall_spec hs.kept
      simp only [LuaSocket.call, hread, map_some, some.injEq] at h
      subst h
      by_cases hne : s.unread ≠ []
      · rw [if_pos hne]
        exact read_some_step hs hf hsame hkept hne
      · have hnil : s.unread = [] := not_not.mp hne
        rw [if_neg hne]
        cases hconn : s₁.connected with
        | false => exact read_closed_step hs hf hsame hkept hnil (hsame.connected ▸ hconn)
        | true =>
          exact suspend_step (c := .read none) (hsame.stream hs (hnil ▸ hkept)) (hsame.free hf)
            hconn fun hans : s₁.unread ≠ [] => hans (hsame.unread.trans hnil)
    | some n =>
      obtain ⟨s₁, hpop, hsame, hkept⟩ := pop_spec hs.kept hfits.1 hfits.2
      simp only [LuaSocket.call, hpop, bind_some] at h
      by_cases hle : n ≤ s.unread.length
      · simp only [if_pos hle, some.injEq] at h hkept
        exact h ▸ read_size_step hs hf hsame hle hkept
      · simp only [if_neg hle] at h hkept
        have hs₁ := hsame.stream hs hkept
        have hlt : ¬ n ≤ s₁.unread.length := by rwa [hsame.unread]
        cases hconn : s₁.connected with
        | false =>
          rw [hconn] at h
          exact read_size_failed hs₁ (hsame.free hf) hlt hconn h
        | true =>
          simp only [hconn, Bool.not_true, Bool.false_eq_true, if_false, some.injEq] at h
          exact h ▸ suspend_step (c := .read (some n)) hs₁ (hsame.free hf) hconn hlt
  | readall =>
    cases hconn : s.connected with
    | false =>
      obtain ⟨s₁, hread, hsame, hkept⟩ := readall_spec hs.kept
      simp only [LuaSocket.call, hconn, Bool.not_false, if_true, hread, map_some, some.injEq] at h
      subst h
      refine readall_step hs hf hsame hkept hconn ?_
      by_cases hne : s.unread ≠ []
      · exact .inl (if_pos hne)
      · exact .inr ⟨not_not.mp hne, if_neg hne⟩
    | true =>
      simp only [LuaSocket.call, hconn, Bool.not_true, Bool.false_eq_true, if_false,
        some.injEq] at h
      exact h ▸ suspend_step (c := .readall) hs hf hconn id
  | readline sep =>
    obtain ⟨s₁, hread, hsame, hkept⟩ := readline_spec hs.kept hfits
    simp only [LuaSocket.call, hread, bind_some] at h
    cases hat : firstAt sep s.unread with
    | some i =>
      simp only [hat, some.injEq] at h hkept
      exact h ▸ line_step hs hf hsame hat hkept
    | none =>
      simp only [hat] at h hkept
      have hs₁ := hsame.stream hs hkept
      have hat₁ : firstAt sep s₁.unread = none := by rwa [hsame.unread]
      cases hconn : s₁.connected with
      | false =>
        rw [hconn] at h
        exact line_failed hs₁ (hsame.free hf) hat₁ hconn h
      | true =>
        simp only [hconn, Bool.not_true, Bool.false_eq_true, if_false, some.injEq] at h
        refine h ▸ suspend_step (c := .readline sep) hs₁ (hsame.free hf) hconn fun hans => ?_
        have hsome : (firstAt sep s₁.unread).isSome = true := hans
        rw [hat₁] at hsome
        cases hsome

theorem answer_step (hs : StreamInv s) (hf : ReaderFree s) (hfits : CallFits s.unread c)
    (hans : s.connected = true → Answers s.unread c)
    (hline : ¬ LateLine s c) (h : s.answer c = some s') : StreamInv s' ∧ ReaderInv s' := by
  cases c with
  | read sz =>
    cases sz with
    | none =>
      obtain ⟨s₁, hread, hsame, hkept⟩ := readall_spec hs.kept
      simp only [LuaSocket.answer, hread, map_some, some.injEq] at h
      subst h
      by_cases hne : s.unread ≠ []
      · rw [if_pos hne]
        exact read_some_step hs hf hsame hkept hne
      · rw [if_neg hne]
        have hclosed : s.connected = false := by
          by_contra hopen
          exact hne (hans (by simpa using hopen))
        exact read_closed_step hs hf hsame hkept (not_not.mp hne) hclosed
    | some n =>
      obtain ⟨s₁, hpop, hsame, hkept⟩ := pop_spec hs.kept hfits.1 hfits.2
      simp only [LuaSocket.answer, hpop, bind_some] at h
      by_cases hle : n ≤ s.unread.length
      · simp only [if_pos hle, some.injEq] at h hkept
        exact h ▸ read_size_step hs hf hsame hle hkept
      · simp only [if_neg hle] at h hkept
        have hclosed : s.connected = false := by
          by_contra hopen
          exact hle (hans (by simpa using hopen))
        exact read_size_failed (hsame.stream hs hkept) (hsame.free hf) (by rwa [hsame.unread])
          (hsame.connected.trans hclosed) h
  | readall =>
    have hclosed : s.connected = false := by
      by_contra hopen
      exact hans (by simpa using hopen)
    obtain ⟨s₁, hread, hsame, hkept⟩ := readall_spec hs.kept
    simp only [LuaSocket.answer, hclosed, Bool.false_eq_true, if_false, hread, map_some,
      some.injEq] at h
    exact h ▸ readall_step hs hf hsame hkept hclosed (.inl rfl)
  | readline sep =>
    cases hconn : s.connected with
    | false =>
      simp only [LuaSocket.answer, hconn, Bool.false_eq_true, if_false] at h
      have hat : firstAt sep s.unread = none := by
        by_contra hne
        exact hline ⟨hconn, isSome_iff_ne_none.mpr hne⟩
      exact line_failed hs hf hat hconn h
    | true =>
      obtain ⟨s₁, hread, hsame, hkept⟩ := readline_spec hs.kept hfits
      obtain ⟨i, hat⟩ := isSome_iff_exists.mp (hans hconn)
      simp only [LuaSocket.answer, hconn, if_true, hread, map_some, some.injEq, hat] at h hkept
      exact h ▸ line_step hs hf hsame hat hkept

end Reads

/-! ## Every run -/

section Runs

variable {s s' : LuaSocket} {a : SocketReadAction}

/-- **Every step in time keeps the stream and the coroutine.** -/
theorem socket_read_step (hs : StreamInv s) (hr : ReaderInv s) (hok : ReadInTime s a)
    (hnext : s.next a = some s') : StreamInv s' ∧ ReaderInv s' := by
  cases a with
  | data msg => exact data_step hs hr hok hnext
  | close => exact some.inj hnext ▸ close_step hs hr
  | error => exact some.inj hnext ▸ error_step hs hr
  | yielded => exact yielded_step hs hr hnext
  | call c =>
    obtain ⟨hidle, hcall⟩ := ite_none_right_eq_some.mp hnext
    exact call_step hs hr hidle hok hcall
  | resume =>
    simp only [LuaSocket.next, LuaSocket.resume] at hnext
    split at hnext
    · next c p hwoken =>
      have hok : CallFits s.unread c ∧ ¬ LateLine s c := by
        simpa only [ReadInTime, hwoken] using hok
      have hf := hr.free_woken hwoken
      exact answer_step (s := { s with pause := if p then false else s.pause })
        (hs.congr rfl rfl rfl rfl) ⟨hf.co, hf.required, hf.pausing⟩ hok.1
        (fun hconn => ((hr.woken c p hwoken).2 hconn).2) hok.2 hnext
    · cases hnext

/-- **Reads return the stream**: in every run of messages, handlers and one reading coroutine in
which `socket.readline` does not go on after the close with a line in the buffer.
SRC: socket.lua:22-165, 298-374 -/
theorem socket_reads_right (h : socketReadMachine.Reach ReadInTime s) : ReadsRight s := by
  have hinv : StreamInv s ∧ ReaderInv s := by
    refine h.invariant (I := fun s => StreamInv s ∧ ReaderInv s) ?_
      fun _ _ _ hinv hok hnext => socket_read_step hinv.1 hinv.2 hok hnext
    rintro _ ⟨limit, rfl⟩
    exact ⟨⟨nofun, nil_prefix, bufferKeeps_new⟩,
      ⟨fun _ => ⟨rfl, fun _ => rfl⟩, nofun, nofun, fun _ hpos => absurd hpos (Nat.lt_irrefl 0)⟩⟩
  obtain ⟨hs, hr⟩ := hinv
  refine ⟨hs.right, hs.stream, hs.kept, fun c p hw => ?_⟩
  obtain ⟨hconn, -, hfor⟩ := hr.waiting c p hw
  refine ⟨hconn, fun hans => ?_⟩
  rcases hfor with ⟨-, hclose⟩ | ⟨-, -, hpos⟩
  · exact .inr (hclose hans)
  · exact .inl hpos

instance (bytes : Bytes) : ∀ c, Decidable (CallFits bytes c)
  | .read (some n) => inferInstanceAs (Decidable (1 ≤ n ∧
      (toInt32 n = n ∨ toInt32 n = 0 ∨ bytes.length < toInt32 n)))
  | .readline sep => inferInstanceAs (Decidable (sep.length < 2 ^ 31 ∨ bytes = [] ∨
      0 < toInt32 sep.length ∧ firstAt (sep.take (toInt32 sep.length).toNat) bytes = none))
  | .read none | .readall => .isTrue trivial

instance (bytes : Bytes) : ∀ r, Decidable (LineFits bytes r)
  | .line sep => inferInstanceAs (Decidable (CallFits bytes (.readline sep)))
  | .nothing | .size _ | .all => .isTrue trivial

instance (s : LuaSocket) : ∀ c, Decidable (LateLine s c)
  | .readline sep =>
    inferInstanceAs (Decidable (s.connected = false ∧ (firstAt sep s.unread).isSome))
  | .read _ | .readall => .isFalse id

instance (s : LuaSocket) : ∀ a, Decidable (ReadInTime s a)
  | .data msg => inferInstanceAs (Decidable (msg ≠ [] ∧
      s.unread.length + msg.length < 2 ^ 31 ∧ LineFits (s.unread ++ msg) s.readRequired))
  | .call c => inferInstanceAs (Decidable (CallFits s.unread c))
  | .resume =>
    match h : s.reader with
    | .woken c _ =>
      decidable_of_iff (CallFits s.unread c ∧ ¬ LateLine s c) (by simp only [ReadInTime, h])
    | .idle | .waiting _ _ => .isTrue (by simp only [ReadInTime, h])
  | .close | .error | .yielded => .isTrue trivial

/-- Two lines arrive at once: the second is read without a wait, and the rest after the close. -/
theorem socket_reads_right_lines : ∃ s, socketReadMachine.Reach ReadInTime s ∧
    s.returns.map ReadEvent.result = [.data [97], .data [98], .failed [99]] ∧ ReadsRight s := by
  have hstart : socketReadMachine.Reach ReadInTime (connect none) := .start ⟨none, rfl⟩
  have hrun : (socketReadMachine.runOk ReadInTime (connect none) [.call (.readline [10]),
      .data [97, 10, 98, 10, 99], .resume, .call (.readline [10]), .call (.readline [10]), .close,
      .resume]).map (fun s => s.returns.map ReadEvent.result) =
      some [.data [97], .data [98], .failed [99]] := by decide +kernel
  obtain ⟨s, hs, hreturns⟩ := map_eq_some_iff.mp hrun
  have hreach := hstart.runOk hs
  exact ⟨s, hreach, hreturns, socket_reads_right hreach⟩

theorem not_right_of_line {sep bytes unread : Bytes} {connected : Bool} {i : ℕ}
    (h : firstAt sep unread = some i) :
    ¬ ReturnRight ⟨.readline sep, .failed bytes, unread, connected⟩ := by
  simp [ReturnRight, h]

/-- A line longer than `BUFFER_LIMIT`: the handler pauses the socket, the close wakes the coroutine
while it yields, and `socket.readline` returns `false` and all the bytes. -/
theorem paused_line_lost {sep msg : Bytes} (hline : (firstAt sep msg).isSome)
    (hsep : sep.length < 2 ^ 31) (hlong : bufferLimit < msg.length) (hsmall : msg.length < 2 ^ 31) :
    ∃ s, socketReadMachine.Reachable s ∧
      s.returns = [⟨.readline sep, .failed msg, msg, false⟩] := by
  have hne : msg ≠ [] := by
    rintro rfl
    exact absurd hlong (by decide)
  let waiting : LuaSocket := { connect none with
    readRequired := .line sep, co := true, reader := .waiting (.readline sep) false }
  obtain ⟨pool, sb, hpush, hkept⟩ :=
    push_spec (s := waiting) bufferKeeps_new hne (by simpa using hsmall)
  let pushed : LuaSocket := { waiting with pool := pool, buffer := sb, received := msg }
  obtain ⟨pool', sb', hfound, hkept'⟩ := readline_check_spec (s := pushed) hkept (.inl hsep)
  let paused : LuaSocket := { pushed with
    pool := pool', buffer := sb', readRequired := .nothing, pause := true, driver := [.pause]
    pausing := 1 }
  have hdata : waiting.next (.data msg) = some paused := by
    rw [LuaSocket.next, dataMessage, hpush, bind_some]
    change (pushed.readline sep true).map _ = _
    rw [hfound, map_some, if_pos (show (firstAt sep ([] ++ msg)).isSome = true from hline)]
    change some (LuaSocket.satisfied { pushed with pool := pool', buffer := sb' } _) = _
    rw [satisfied_eq, if_pos ⟨hlong, rfl⟩]
    rfl
  let woken : LuaSocket := { paused with
    connected := false, co := false, reader := .woken (.readline sep) false }
  obtain ⟨s, hread, hsame, -⟩ := readall_spec (s := woken) hkept'
  have hresume : woken.next .resume = some (s.ret (.readline sep) (.failed msg)) := by
    change woken.readall.map _ = _
    rw [hread]
    rfl
  have hwait : socketReadMachine.Reachable waiting :=
    .step (a := .call (.readline sep)) (.start ⟨none, rfl⟩) trivial rfl
  have hclose : socketReadMachine.Reachable woken :=
    .step (a := .close) (.step (a := .data msg) hwait trivial hdata) trivial rfl
  refine ⟨_, .step (a := .resume) hclose trivial hresume, ?_⟩
  have hunread : s.unread = msg := hsame.unread
  simp only [LuaSocket.ret, hsame.returns, hsame.connected, hunread]
  rfl

/-- The line of a `DATA` that makes the handler pause the socket. -/
theorem line_lost_in_pause : ∃ s, socketReadMachine.Reachable s ∧ ¬ ReadsRight s := by
  have hlong : (10 :: replicate 131072 97 : Bytes).length = 131073 := by
    rw [length_cons, length_replicate]
  obtain ⟨s, hreach, hreturns⟩ :=
    paused_line_lost (show (firstAt [10] (10 :: replicate 131072 97)).isSome from rfl)
      (by decide) (by rw [hlong]; decide) (by rw [hlong]; decide)
  refine ⟨s, hreach, fun h => ?_⟩
  have hright := h.right ⟨_, _, _, _⟩ (hreturns ▸ mem_singleton_self _)
  exact not_right_of_line rfl hright

end Runs

end Skynet.Analysis
