import Skynet.Model.Harbor

/-!
# The links of a harbor

A slave has a socket from its first connection on and keeps it for ever; only a slave that
waits for its connection or for the handshake has a queue.  A harbor that goes down keeps
its socket too: nothing in the service tells later that it is down, and nothing is ever
reported to those who send to it.
-/

namespace Skynet.Analysis

open Library Model Harbor Option

variable {h h' : Harbor} {id : ℕ} {s : Slave}

/-! ## The invariant -/

/-- The states of a slave: it waits as long as it has no socket, and after the handshake it
has no queue. -/
structure Slave.Linked (s : Slave) : Prop where
  unconnected : s.fd = 0 → s.status = .wait
  connected : s.status = .wait → s.fd = 0
  empty : s.status ≠ .wait → s.status ≠ .handshake → s.queue = none

structure Linked (h : Harbor) : Prop where
  slave : ∀ i, Slave.Linked (h.s i)
  downs : ∀ i ∈ h.downs, (h.s i).fd ≠ 0

namespace Linked

theorem init (id slave : ℕ) : Linked (.init id slave) where
  slave _ := ⟨fun _ => rfl, fun _ => rfl, fun hwait => absurd rfl hwait⟩
  downs _ hmem := by simp [Harbor.init] at hmem

theorem congr (hl : Linked h) (hs : h'.s = h.s) (hdowns : h'.downs = h.downs) : Linked h' := by
  constructor
  · exact hs ▸ hl.slave
  · rw [hs, hdowns]
    exact hl.downs

theorem setSlave (hl : Linked h) (hs : Slave.Linked s) (hfd : (h.s id).fd ≠ 0 → s.fd ≠ 0) :
    Linked (h.setSlave id s) where
  slave i := by
    unfold Harbor.setSlave
    dsimp only
    split
    · exact hs
    · exact hl.slave i
  downs i hi := by
    have hfdi := hl.downs i hi
    unfold Harbor.setSlave
    dsimp only
    split
    · next heq => exact hfd (heq ▸ hfdi)
    · exact hfdi

end Linked

/-! ## What is sent changes no slave -/

/-- Two states that agree on all but the effects and the handles that messages were
given. -/
structure SameLinks (h h' : Harbor) : Prop where
  s : h'.s = h.s
  downs : h'.downs = h.downs
  lost : h'.lost = h.lost
  id : h'.id = h.id
  slave : h'.slave = h.slave

namespace SameLinks

theorem refl (h : Harbor) : SameLinks h h := ⟨rfl, rfl, rfl, rfl, rfl⟩

theorem trans {h'' : Harbor} (h₁ : SameLinks h h') (h₂ : SameLinks h' h'') : SameLinks h h'' :=
  ⟨h₂.s.trans h₁.s, h₂.downs.trans h₁.downs, h₂.lost.trans h₁.lost, h₂.id.trans h₁.id,
    h₂.slave.trans h₁.slave⟩

theorem emit (h : Harbor) (e : HarborEffect) : SameLinks h (h.emit e) := ⟨rfl, rfl, rfl, rfl, rfl⟩

theorem give (h : Harbor) (number handle : ℕ) : SameLinks h (h.give number handle) :=
  ⟨rfl, rfl, rfl, rfl, rfl⟩

theorem sendRemote (h : Harbor) (fd : ℤ) (m : HarborMsg) : SameLinks h (h.sendRemote fd m) := by
  unfold Harbor.sendRemote
  split
  · exact refl h
  · exact emit h _

theorem foldl {f : Harbor → HarborMsg → Harbor} (hf : ∀ h m, SameLinks h (f h m))
    (queue : List HarborMsg) (h : Harbor) : SameLinks h (queue.foldl f h) := by
  induction queue generalizing h with
  | nil => exact refl h
  | cons m queue ih => exact (hf h m).trans (ih (f h m))

theorem sendAll (h : Harbor) (fd : ℤ) (queue : List HarborMsg) : SameLinks h (h.sendAll fd queue) :=
  foldl (fun h m => sendRemote h fd m) queue h

theorem sendLocal (h : Harbor) (handle : ℕ) (queue : List HarborMsg) :
    SameLinks h (h.sendLocal handle queue) :=
  foldl (fun h _ => emit h _) queue h

theorem forwardLocalMessage {alive : ℕ → Bool} {msg : Bytes}
    (hforward : h.forwardLocalMessage alive msg = some h') : SameLinks h h' := by
  unfold Harbor.forwardLocalMessage at hforward
  split at hforward
  · nomatch hforward
  · dsimp only at hforward
    split at hforward
    · exact some.inj hforward ▸ emit h _
    · exact some.inj hforward ▸ (emit h _).trans (emit _ _)

theorem dispatchQueue (h : Harbor) (id : ℕ) :
    SameLinks (h.setSlave id { h.s id with queue := none }) (h.dispatchQueue id) := by
  unfold Harbor.dispatchQueue
  dsimp only
  split
  · next hnone =>
    refine ⟨?_, rfl, rfl, rfl, rfl⟩
    funext i
    unfold Harbor.setSlave
    dsimp only
    split
    · next heq => rw [← hnone, heq]
    · rfl
  · next queue hqueue =>
    have hsame := sendAll h (h.s id).fd queue
    refine ⟨?_, hsame.downs, hsame.lost, hsame.id, hsame.slave⟩
    unfold Harbor.setSlave
    rw [hsame.s]

end SameLinks

namespace Linked

theorem same (hl : Linked h) (hsame : SameLinks h h') : Linked h' := hl.congr hsame.s hsame.downs

theorem dispatchQueue (hl : Linked h) (hs : s.fd ≠ 0) (hstatus : s.status ≠ .wait) :
    Linked ((h.setSlave id s).dispatchQueue id) := by
  have hself : (h.setSlave id s).s id = s := by simp [Harbor.setSlave]
  refine Linked.same ?_ (SameLinks.dispatchQueue (h.setSlave id s) id)
  have htwice : (h.setSlave id s).setSlave id { (h.setSlave id s).s id with queue := none } =
      h.setSlave id { s with queue := none } := by
    rw [hself]
    unfold Harbor.setSlave
    congr 1
    funext i
    dsimp only
    split <;> rfl
  rw [htwice]
  exact hl.setSlave ⟨fun hfd => absurd hfd hs, fun hwait => absurd hwait hstatus,
    fun _ _ => rfl⟩ fun _ => hs

theorem goDown (hl : Linked h) (hfd : (h.s id).fd ≠ 0) : Linked (h.goDown id) := by
  unfold Harbor.goDown
  split
  · exact hl
  · refine ⟨hl.slave, fun i hi => ?_⟩
    rcases List.mem_append.mp hi with hi | hi
    · exact hl.downs i hi
    · exact List.mem_singleton.mp hi ▸ hfd

end Linked

@[simp] theorem goDown_s (h : Harbor) (id : ℕ) : (h.goDown id).s = h.s := by
  unfold Harbor.goDown
  split <;> rfl

@[simp] theorem goDown_out (h : Harbor) (id : ℕ) : (h.goDown id).out = h.out := by
  unfold Harbor.goDown
  split <;> rfl

namespace Linked

theorem closeHarbor (hl : Linked h) (hfd : (h.s id).fd ≠ 0) : Linked (h.closeHarbor id) := by
  unfold Harbor.closeHarbor
  dsimp only
  have hdown : Linked ((h.goDown id).emit (.close ((h.goDown id).s id).fd)) :=
    (hl.goDown hfd).same (SameLinks.emit _ _)
  rw [if_pos (by simpa using hfd)]
  exact hdown.setSlave ⟨fun h0 => absurd (by simpa using h0) hfd, nofun, fun _ _ => rfl⟩
    fun _ => by simpa using hfd

end Linked

/-! ## Data from a socket -/

/-- What the data of a slave's socket does behind the handshake: the slave keeps its socket
and is behind the handshake still, and no message is lost. -/
structure Received (id : ℕ) (h h' : Harbor) : Prop where
  linked : Linked h'
  fd : (h'.s id).fd ≠ 0
  passed : (h'.s id).status ≠ .wait ∧ (h'.s id).status ≠ .handshake
  lost : h'.lost = h.lost

namespace Received

variable {h'' : Harbor}

theorem same (hr : Received id h h') (hsame : SameLinks h' h'') : Received id h h'' :=
  ⟨hr.linked.same hsame, hsame.s ▸ hr.fd, hsame.s ▸ hr.passed, hsame.lost.trans hr.lost⟩

theorem setSlave (hr : Received id h h') (hfd : s.fd = (h'.s id).fd) (hqueue : s.queue = none)
    (hpassed : s.status ≠ .wait ∧ s.status ≠ .handshake) : Received id h (h'.setSlave id s) := by
  have hs : s.fd ≠ 0 := hfd ▸ hr.fd
  have hself : (h'.setSlave id s).s id = s := by simp [Harbor.setSlave]
  exact ⟨hr.linked.setSlave ⟨fun h0 => absurd h0 hs, fun hwait => absurd hwait hpassed.1,
    fun _ _ => hqueue⟩ fun _ => hs, by rw [hself]; exact hs, by rw [hself]; exact hpassed, hr.lost⟩

theorem queue (hr : Received id h h') : (h'.s id).queue = none :=
  (hr.linked.slave id).empty hr.passed.1 hr.passed.2

theorem closeHarbor (hr : Received id h h') : Received id h (h'.closeHarbor id) := by
  have hlinked := hr.linked.closeHarbor hr.fd
  have hs : (h'.closeHarbor id).s id = { h'.s id with status := .down, queue := none } := by
    simp [Harbor.closeHarbor, Harbor.setSlave]
  have hlost : (h'.closeHarbor id).lost = h'.lost := by
    have hnone := hr.queue
    unfold Harbor.closeHarbor Harbor.goDown
    split <;> simp [hnone, Harbor.setSlave] <;> split <;> rfl
  exact ⟨hlinked, by rw [hs]; exact hr.fd, by simp [hs], hlost.trans hr.lost⟩

variable {alive : ℕ → Bool} {buffer : Bytes} {rest : Option Bytes}

theorem readContent (hr : Received id h h')
    (hstep : h'.readContent id alive buffer = some (h'', rest)) : Received id h h'' := by
  have hqueue := hr.queue
  unfold Harbor.readContent at hstep
  dsimp only at hstep
  split at hstep
  · simp only [some.injEq, Prod.mk.injEq] at hstep
    exact hstep.1 ▸ hr.setSlave rfl hqueue hr.passed
  · obtain ⟨forwarded, hforward, heq⟩ := map_eq_some_iff.mp hstep
    simp only [Prod.mk.injEq] at heq
    have hsame := SameLinks.forwardLocalMessage hforward
    refine heq.1 ▸ (hr.same hsame).setSlave ?_ hqueue (by simp)
    rw [hsame.s]

theorem readHeader (hr : Received id h h')
    (hstep : h'.readHeader id alive buffer = some (h'', rest)) : Received id h h'' := by
  have hqueue := hr.queue
  unfold Harbor.readHeader at hstep
  dsimp only at hstep
  split at hstep
  · simp only [some.injEq, Prod.mk.injEq] at hstep
    exact hstep.1 ▸ hr.setSlave rfl hqueue hr.passed
  · split at hstep
    · simp only [some.injEq, Prod.mk.injEq] at hstep
      exact hstep.1 ▸ hr.closeHarbor
    · split at hstep
      · simp only [some.injEq, Prod.mk.injEq] at hstep
        exact hstep.1 ▸ hr.setSlave rfl hqueue (by simp)
      · refine Received.readContent ?_ hstep
        exact hr.setSlave rfl hqueue (by simp)

/-- A round behind the handshake. -/
theorem readRound (hr : Received id h h')
    (hstep : h'.readRound id alive buffer = some (h'', rest)) : Received id h h'' := by
  unfold Harbor.readRound at hstep
  split at hstep
  · next hstatus => exact absurd hstatus hr.passed.2
  · exact hr.readHeader hstep
  · exact hr.readContent hstep
  · next hstatus => exact absurd hstatus hr.passed.1
  · simp only [some.injEq, Prod.mk.injEq] at hstep
    exact hstep.1 ▸ hr

theorem readLoop {fuel : ℕ} (hr : Received id h h')
    (hstep : Harbor.readLoop fuel h' id alive buffer = some h'') : Received id h h'' := by
  induction fuel generalizing h' buffer with
  | zero => nomatch hstep
  | succ fuel ih =>
    unfold Harbor.readLoop at hstep
    split at hstep
    · nomatch hstep
    · next round hround => exact some.inj hstep ▸ hr.readRound hround
    · next round rest hround => exact ih (hr.readRound hround) hstep

end Received

theorem received_handshake (hl : Linked h) (hfd : (h.s id).fd ≠ 0) :
    Received id h ((h.setSlave id { h.s id with status := .header }).dispatchQueue id) := by
  have hlinked : Linked ((h.setSlave id { h.s id with status := .header }).dispatchQueue id) :=
    hl.dispatchQueue hfd nofun
  have hsame := SameLinks.dispatchQueue (h.setSlave id { h.s id with status := .header }) id
  refine ⟨hlinked, ?_, ?_, hsame.lost⟩
  · rw [hsame.s]
    simpa [Harbor.setSlave] using hfd
  · rw [hsame.s]
    simp [Harbor.setSlave]

theorem Received.handshake {alive : ℕ → Bool} {remoteId : UInt8} {tail : Bytes}
    {rest : Option Bytes}
    (hr : Received id h ((h.setSlave id { h.s id with status := .header }).dispatchQueue id))
    (hstatus : (h.s id).status = .handshake) (hid : remoteId.toNat = id)
    (hround : h.readRound id alive (remoteId :: tail) = some (h', rest)) : Received id h h' := by
  simp only [Harbor.readRound, hstatus, Harbor.readHandshake, hid, ne_eq, not_true_eq_false,
    if_false] at hround
  split at hround
  · simp only [some.injEq, Prod.mk.injEq] at hround
    exact hround.1 ▸ hr
  · exact hr.readHeader hround

/-- What data on the socket of a slave comes to: the slave still waits for a connection
and nothing happens; the handshake is bad and the connection is closed; or the data is
received behind the handshake. -/
theorem readLoop_cases {alive : ℕ → Bool} {buffer : Bytes} {fuel : ℕ} (hl : Linked h)
    (hbuffer : buffer ≠ []) (hstep : Harbor.readLoop fuel h id alive buffer = some h') :
    ((h.s id).status = .wait ∧ h' = h) ∨
    ((h.s id).status = .handshake ∧ (buffer.headD 0).toNat ≠ id ∧ h' = h.closeHarbor id) ∨
    (((h.s id).status = .handshake → (buffer.headD 0).toNat = id) ∧ Received id h h') := by
  match fuel with
  | 0 => nomatch hstep
  | fuel + 1 =>
    by_cases hwait : (h.s id).status = .wait
    · left
      simp only [Harbor.readLoop, Harbor.readRound, hwait, some.injEq] at hstep
      exact ⟨hwait, hstep.symm⟩
    · right
      have hfd : (h.s id).fd ≠ 0 := fun hfd => hwait ((hl.slave id).unconnected hfd)
      by_cases hstatus : (h.s id).status = .handshake
      · match buffer, hbuffer with
        | remoteId :: tail, _ =>
          by_cases hid : remoteId.toNat = id
          · right
            refine ⟨fun _ => hid, ?_⟩
            have hr := received_handshake hl hfd
            unfold Harbor.readLoop at hstep
            split at hstep
            · nomatch hstep
            · next round hround =>
              have hpast := hr.handshake hstatus hid hround
              exact some.inj hstep ▸ hpast
            · next round rest hround =>
              exact (hr.handshake hstatus hid hround).readLoop hstep
          · left
            simp [Harbor.readLoop, Harbor.readRound, hstatus, Harbor.readHandshake, hid] at hstep
            exact ⟨hstatus, hid, hstep.symm⟩
      · right
        exact ⟨fun h => absurd h hstatus, Received.readLoop ⟨hl, hfd, ⟨hwait, hstatus⟩, rfl⟩ hstep⟩

end Skynet.Analysis
