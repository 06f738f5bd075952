import Mathlib.Tactic.NormNum
import Skynet.Analysis.HarborNames

/-!
# Frames between harbors

What `push_socket_data` makes of a stream does not depend on how the stream is cut into
messages, and it reads in front of a buffer exactly where a frame is complete that is
shorter than the header of a remote message.  What `send_remote` writes comes out as it went
in exactly where the frame's length fits three bytes.
-/

namespace Skynet.Analysis

open Library Model Harbor List Option

variable {h h' : Harbor} {id : ℕ} {alive : ℕ → Bool} {s t : Bytes}

/-! ## What a slave has read -/

structure SlaveReading (s : Slave) : Prop where
  before : s.status = .wait ∨ s.status = .handshake → s.size = [] ∧ s.recvBuffer = []
  header : s.status = .header → s.size.length < 4 ∧ s.recvBuffer = []
  content : s.status = .content → s.size = [] ∧ s.length < 2 ^ 24 ∧
    (s.recvBuffer.length < s.length ∨ s.length = 0 ∧ s.recvBuffer = [])

def restingSlave (s : Slave) : Slave :=
  { s with length := 0, size := [], recvBuffer := [], status := .header }

def fillingSlave (s : Slave) (n : ℕ) : Slave :=
  { s with length := n, size := [], recvBuffer := [], status := .content }

theorem reading_filling (s : Slave) {n : ℕ} (hn : n < 2 ^ 24) :
    SlaveReading (fillingSlave s n) := by
  refine ⟨fun hs => by simp [fillingSlave] at hs, nofun, fun _ => ⟨rfl, hn, ?_⟩⟩
  rcases Nat.eq_zero_or_pos n with h0 | hpos
  · exact .inr ⟨h0, rfl⟩
  · exact .inl hpos

theorem reading_resting (s : Slave) : SlaveReading (restingSlave s) :=
  ⟨fun hs => by simp [restingSlave] at hs, fun _ => ⟨by simp [restingSlave], rfl⟩, nofun⟩

@[simp] theorem setSlave_self (h : Harbor) (id : ℕ) (s : Slave) : (h.setSlave id s).s id = s := by
  simp [setSlave]

theorem setSlave_setSlave (h : Harbor) (id : ℕ) (s s' : Slave) :
    (h.setSlave id s).setSlave id s' = h.setSlave id s' := by
  unfold setSlave
  congr 1
  funext i
  by_cases hi : i = id <;> simp [hi]

theorem setSlave_eq_self (h : Harbor) (id : ℕ) : h.setSlave id (h.s id) = h := by
  unfold setSlave
  have hs : (fun i => if i = id then h.s id else h.s i) = h.s := by
    funext i
    by_cases hi : i = id
    · rw [if_pos hi, hi]
    · rw [if_neg hi]
  rw [hs]

theorem setSlave_other {i : ℕ} (hi : i ≠ id) (h : Harbor) (s : Slave) :
    (h.setSlave id s).s i = h.s i := if_neg hi

theorem closeHarbor_slave (h : Harbor) (id : ℕ) :
    (h.closeHarbor id).s id = { h.s id with status := .down, queue := none } := by
  simp [closeHarbor, setSlave]

theorem closeHarbor_other {i : ℕ} (hi : i ≠ id) (h : Harbor) : (h.closeHarbor id).s i = h.s i := by
  simp only [closeHarbor, setSlave, if_neg hi]
  split <;> simp [emit]

theorem fromBigendian_lt {size : Bytes} (hlen : size.length = 4) (hzero : size.headD 0 = 0) :
    fromBigendian size < 2 ^ 24 := by
  match size, hlen with
  | [b0, b1, b2, b3], _ =>
    have h0 : b0 = 0 := hzero
    have hrest := leNat_lt [b3, b2, b1]
    rw [fromBigendian, h0]
    have hpow : 256 ^ [b3, b2, b1].length = 2 ^ 24 := by norm_num
    rwa [hpow] at hrest

theorem forwardLocalMessage_eq_none_iff : h.forwardLocalMessage alive s = none ↔ s.length < 12 := by
  unfold forwardLocalMessage
  by_cases hlen : s.length < 12
  · simp [hlen]
  · rw [if_neg hlen]
    dsimp only
    split <;> simp [hlen]

/-! ## Rounds -/

/-- What a round keeps: the socket, the other slaves, and what can have been read; the next
round has less to read. -/
structure RoundOk (id : ℕ) (h : Harbor) (s : Bytes) (h' : Harbor) (rest : Option Bytes) : Prop where
  reading : SlaveReading (h'.s id)
  fd : (h'.s id).fd = (h.s id).fd
  others : ∀ i, i ≠ id → h'.s i = h.s i
  less : ∀ t, rest = some t → t.length < s.length

variable {rest : Option Bytes}

theorem roundOk_readContent (hok : SlaveReading (h.s id)) (hstatus : (h.s id).status = .content)
    (hround : h.readContent id alive s = some (h', rest)) : RoundOk id h s h' rest := by
  obtain ⟨hsize, hlt, hrecv⟩ := hok.content hstatus
  unfold readContent at hround
  dsimp only at hround
  split at hround
  · cases hround
    refine ⟨?_, by rw [setSlave_self], fun i hi => setSlave_other hi h _, nofun⟩
    rw [setSlave_self]
    refine ⟨fun hs => by simp [hstatus] at hs, fun hs => by simp [hstatus] at hs,
      fun _ => ⟨hsize, hlt, .inl ?_⟩⟩
    change ((h.s id).recvBuffer ++ s).length < (h.s id).length
    rw [length_append]
    omega
  · obtain ⟨forwarded, hforward, heq⟩ := map_eq_some_iff.mp hround
    cases heq
    have hsame := SameLinks.forwardLocalMessage hforward
    refine ⟨?_, ?_, fun i hi => ?_, ?_⟩
    · rw [setSlave_self]
      exact reading_resting _
    · rw [setSlave_self]
    · rw [setSlave_other hi, hsame.s]
    · intro t ht
      split at ht
      · cases ht
      · cases ht
        -- A frame without content is not passed on.
        have hneed : (h.s id).recvBuffer.length < (h.s id).length := by
          rcases hrecv with hneed | ⟨hzero, hempty⟩
          · exact hneed
          · have hnone : h.forwardLocalMessage alive
                ((h.s id).recvBuffer ++ s.take ((h.s id).length - (h.s id).recvBuffer.length)) =
                none := by
              rw [forwardLocalMessage_eq_none_iff, hempty, hzero]
              simp
            rw [hnone] at hforward
            cases hforward
        rw [length_drop]
        omega

theorem roundOk_readHeader (hok : SlaveReading (h.s id)) (hstatus : (h.s id).status = .header)
    (hround : h.readHeader id alive s = some (h', rest)) : RoundOk id h s h' rest := by
  obtain ⟨hsize, hrecv⟩ := hok.header hstatus
  unfold readHeader at hround
  dsimp only at hround
  split at hround
  · cases hround
    refine ⟨?_, by rw [setSlave_self], fun i hi => setSlave_other hi h _, nofun⟩
    rw [setSlave_self]
    refine ⟨fun hs => by simp [hstatus] at hs, fun _ => ⟨?_, hrecv⟩,
      fun hs => by simp [hstatus] at hs⟩
    rw [length_append]
    omega
  · split at hround
    · cases hround
      refine ⟨?_, by rw [closeHarbor_slave], fun i hi => closeHarbor_other hi h, nofun⟩
      rw [closeHarbor_slave]
      exact ⟨fun hs => by simp at hs, nofun, nofun⟩
    · next hzero =>
      have hlen : ((h.s id).size ++ s.take (4 - (h.s id).size.length)).length = 4 := by
        rw [length_append, length_take]
        omega
      have hnumber := fromBigendian_lt hlen (by simpa using hzero)
      have hfilling := reading_filling (h.s id) hnumber
      split at hround
      · cases hround
        refine ⟨?_, by rw [setSlave_self], fun i hi => setSlave_other hi h _, nofun⟩
        rw [setSlave_self]
        exact hfilling
      · have hreading : SlaveReading ((h.setSlave id (fillingSlave (h.s id) (fromBigendian
            ((h.s id).size ++ s.take (4 - (h.s id).size.length))))).s id) := by
          rw [setSlave_self]
          exact hfilling
        have hrec := roundOk_readContent hreading (by rw [setSlave_self]; rfl) hround
        refine ⟨hrec.reading, hrec.fd.trans ?_, fun i hi => (hrec.others i hi).trans ?_,
          fun t ht => ?_⟩
        · rw [setSlave_self]
          rfl
        · exact setSlave_other hi h _
        · have hless := hrec.less t ht
          rw [length_drop] at hless
          omega

theorem handshake_slave (h : Harbor) (id : ℕ) :
    ((h.setSlave id { h.s id with status := .header }).dispatchQueue id).s id =
      { h.s id with status := .header, queue := none } := by
  have hsame := SameLinks.dispatchQueue (h.setSlave id { h.s id with status := .header }) id
  rw [hsame.s, setSlave_self, setSlave_self]

theorem handshake_other {i : ℕ} (hi : i ≠ id) (h : Harbor) :
    ((h.setSlave id { h.s id with status := .header }).dispatchQueue id).s i = h.s i := by
  have hsame := SameLinks.dispatchQueue (h.setSlave id { h.s id with status := .header }) id
  rw [hsame.s, setSlave_other hi, setSlave_other hi]

theorem reading_handshake (hok : SlaveReading (h.s id)) (hstatus : (h.s id).status = .handshake) :
    SlaveReading (((h.setSlave id { h.s id with status := .header }).dispatchQueue id).s id) := by
  obtain ⟨hsize, hrecv⟩ := hok.before (.inr hstatus)
  rw [handshake_slave]
  exact ⟨fun hs => by simp at hs, fun _ => ⟨by simp [hsize], hrecv⟩, nofun⟩

theorem roundOk_readRound (hok : SlaveReading (h.s id))
    (hround : h.readRound id alive s = some (h', rest)) : RoundOk id h s h' rest := by
  unfold readRound at hround
  split at hround
  · next hstatus =>
    unfold readHandshake at hround
    split at hround
    · cases hround
    · split at hround
      · cases hround
        refine ⟨?_, by rw [closeHarbor_slave], fun i hi => closeHarbor_other hi h, nofun⟩
        rw [closeHarbor_slave]
        exact ⟨fun hs => by simp at hs, nofun, nofun⟩
      · have hreading := reading_handshake hok hstatus
        split at hround
        · cases hround
          exact ⟨hreading, by rw [handshake_slave], fun i hi => handshake_other hi h,
            fun u hu => by cases hu; simp⟩
        · have hrec := roundOk_readHeader hreading (by rw [handshake_slave]) hround
          refine ⟨hrec.reading, hrec.fd.trans (by rw [handshake_slave]),
            fun i hi => (hrec.others i hi).trans (handshake_other hi h), fun u hu => ?_⟩
          have hless := hrec.less u hu
          rw [length_cons]
          omega
  · next hstatus => exact roundOk_readHeader hok hstatus hround
  · next hstatus => exact roundOk_readContent hok hstatus hround
  · cases hround
    exact ⟨hok, rfl, fun _ _ => rfl, nofun⟩
  · cases hround
    exact ⟨hok, rfl, fun _ _ => rfl, nofun⟩

/-! ## Messages from the socket -/

def hear (h : Harbor) (id : ℕ) (alive : ℕ → Bool) (s : Bytes) : Option Harbor :=
  readLoop (s.length + 3) h id alive s

theorem readLoop_fuel {k n : ℕ} (hok : SlaveReading (h.s id)) (hk : s.length < k)
    (hn : s.length < n) : readLoop k h id alive s = readLoop n h id alive s := by
  induction k generalizing n h s with
  | zero => omega
  | succ k ih =>
    obtain ⟨n, rfl⟩ := Nat.exists_eq_succ_of_ne_zero (by omega : n ≠ 0)
    unfold readLoop
    split
    · rfl
    · rfl
    · next h' rest hround =>
      have hrec := roundOk_readRound hok hround
      have hless := hrec.less rest rfl
      exact ih hrec.reading (by omega) (by omega)

theorem hear_eq (hok : SlaveReading (h.s id)) : hear h id alive s =
    (h.readRound id alive s).bind fun r =>
      match r.2 with
      | none => some r.1
      | some rest => hear r.1 id alive rest := by
  rw [hear, readLoop]
  split
  · next hround => rw [hround]; rfl
  · next hround => rw [hround]; rfl
  · next h' rest hround =>
    rw [hround]
    have hrec := roundOk_readRound hok hround
    have hless := hrec.less rest rfl
    exact readLoop_fuel hrec.reading (by omega) (by omega)

theorem hear_ok (hok : SlaveReading (h.s id)) (hhear : hear h id alive s = some h') :
    SlaveReading (h'.s id) ∧ (h'.s id).fd = (h.s id).fd ∧ ∀ i, i ≠ id → h'.s i = h.s i := by
  induction hlen : s.length using Nat.strongRecOn generalizing h s with
  | _ n ih =>
    rw [hear_eq hok] at hhear
    obtain ⟨⟨h₁, rest⟩, hround, hrest⟩ := bind_eq_some_iff.mp hhear
    have hrec := roundOk_readRound hok hround
    cases rest with
    | none => exact Option.some.inj hrest ▸ ⟨hrec.reading, hrec.fd, hrec.others⟩
    | some rest =>
      have hless := hrec.less rest rfl
      obtain ⟨hreading, hfd, hothers⟩ := ih _ (by omega) hrec.reading hrest rfl
      exact ⟨hreading, hfd.trans hrec.fd, fun i hi => (hothers i hi).trans (hrec.others i hi)⟩

theorem hear_deaf (hstatus : (h.s id).status = .wait ∨ (h.s id).status = .down) :
    hear h id alive s = some h := by
  rw [hear, readLoop, readRound]
  rcases hstatus with hs | hs <;> rw [hs]

theorem forwardLocalMessage_setSlave (h : Harbor) (id : ℕ) (sl : Slave) (m : Bytes) :
    (h.setSlave id sl).forwardLocalMessage alive m =
      (h.forwardLocalMessage alive m).map fun h => h.setSlave id sl := by
  unfold forwardLocalMessage
  split
  · rfl
  · dsimp only
    split
    · next hc =>
      rw [if_pos (by exact hc)]
      rfl
    · next hc =>
      rw [if_neg (by exact hc)]
      rfl

theorem hear_content (hok : SlaveReading (h.s id)) (hstatus : (h.s id).status = .content) :
    hear h id alive s =
      if s.length < (h.s id).length - (h.s id).recvBuffer.length then
        some (h.setSlave id { h.s id with recvBuffer := (h.s id).recvBuffer ++ s })
      else
        (h.forwardLocalMessage alive ((h.s id).recvBuffer ++
          s.take ((h.s id).length - (h.s id).recvBuffer.length))).bind fun h₁ =>
          if s.length = (h.s id).length - (h.s id).recvBuffer.length then
            some (h₁.setSlave id (restingSlave (h.s id)))
          else hear (h₁.setSlave id (restingSlave (h.s id))) id alive
            (s.drop ((h.s id).length - (h.s id).recvBuffer.length)) := by
  rw [hear_eq hok, readRound, hstatus]
  simp only [readContent]
  split
  · rfl
  · cases hforward : h.forwardLocalMessage alive ((h.s id).recvBuffer ++
        s.take ((h.s id).length - (h.s id).recvBuffer.length)) with
    | none => rfl
    | some h₁ =>
      simp only [map_some, bind_some]
      by_cases hend : s.length = (h.s id).length - (h.s id).recvBuffer.length
      · rw [if_pos hend, if_pos hend]
        rfl
      · rw [if_neg hend, if_neg hend]
        rfl

theorem hear_header (hok : SlaveReading (h.s id)) (hstatus : (h.s id).status = .header) :
    hear h id alive s =
      if s.length < 4 - (h.s id).size.length then
        some (h.setSlave id { h.s id with size := (h.s id).size ++ s })
      else
        if ((h.s id).size ++ s.take (4 - (h.s id).size.length)).headD 0 ≠ 0 then
          some (h.closeHarbor id)
        else
          let h₁ := h.setSlave id (fillingSlave (h.s id) (fromBigendian
            ((h.s id).size ++ s.take (4 - (h.s id).size.length))))
          if s.drop (4 - (h.s id).size.length) = [] then some h₁
          else hear h₁ id alive (s.drop (4 - (h.s id).size.length)) := by
  rw [hear_eq hok, readRound, hstatus]
  simp only [readHeader]
  split
  · rfl
  · split
    · rfl
    · next hzero =>
      have hlen : ((h.s id).size ++ s.take (4 - (h.s id).size.length)).length = 4 := by
        have hsize := (hok.header hstatus).1
        rw [length_append, length_take]
        omega
      have hfilling := reading_filling (h.s id) (fromBigendian_lt hlen (by simpa using hzero))
      split
      · rfl
      · rw [hear_eq (by rw [setSlave_self]; exact hfilling), readRound, setSlave_self]
        rfl

theorem hear_handshake (hok : SlaveReading (h.s id)) (hstatus : (h.s id).status = .handshake)
    (b : UInt8) : hear h id alive (b :: s) =
      if b.toNat ≠ id then some (h.closeHarbor id)
      else
        let h₁ := (h.setSlave id { h.s id with status := .header }).dispatchQueue id
        if s = [] then some h₁ else hear h₁ id alive s := by
  have hreading := reading_handshake hok hstatus
  have hslave := handshake_slave h id
  have hheader : (((h.setSlave id { h.s id with status := .header }).dispatchQueue id).s
      id).status = .header := by rw [hslave]
  rw [hear_eq hok, readRound, hstatus]
  simp only [readHandshake]
  split
  · rfl
  · split
    · have hsize := (hok.before (.inr hstatus)).1
      simp only [bind_some]
      rw [hear_header hreading hheader, hslave]
      simp only [hsize, length_nil, Nat.sub_zero, append_nil]
      rw [if_pos (by omega)]
      have hself := setSlave_eq_self
        ((h.setSlave id { h.s id with status := .header }).dispatchQueue id) id
      rw [hslave] at hself
      rw [← hsize]
      exact congrArg some hself
    · rw [hear_eq hreading, readRound, hheader]

/-! ## Cuts -/

def settle (id : ℕ) (h : Harbor) : Harbor :=
  if (h.s id).status = .down then
    h.setSlave id { h.s id with length := 0, size := [], recvBuffer := [] }
  else h

theorem settle_out (id : ℕ) (h : Harbor) : (settle id h).out = h.out := by
  unfold settle
  split <;> rfl

theorem settle_of_ne (hstatus : (h.s id).status ≠ .down) : settle id h = h := if_neg hstatus

theorem status_settle (h : Harbor) : ((settle id h).s id).status = (h.s id).status := by
  unfold settle
  split <;> simp

theorem hear_settle {h₁ h₂ : Harbor} (h : settle id h₁ = settle id h₂) :
    (hear h₁ id alive s).map (settle id) = (hear h₂ id alive s).map (settle id) := by
  have hstatus : (h₁.s id).status = (h₂.s id).status := by
    rw [← status_settle h₁, h, status_settle]
  by_cases hdown : (h₁.s id).status = .down
  · rw [hear_deaf (.inr hdown), hear_deaf (.inr (hstatus ▸ hdown)), map_some, map_some, h]
  · rw [settle_of_ne hdown, settle_of_ne (hstatus ▸ hdown)] at h
    rw [h]

theorem settle_closeHarbor (h : Harbor) (id : ℕ) (size : Bytes) :
    settle id ((h.setSlave id { h.s id with size := size }).closeHarbor id) =
      settle id (h.closeHarbor id) := by
  have hgo : (h.setSlave id { h.s id with size := size }).goDown id =
      (h.goDown id).setSlave id { h.s id with size := size } := by
    by_cases hdown : id ∈ h.downs
    · have hdown' : id ∈ (h.setSlave id { h.s id with size := size }).downs := hdown
      rw [goDown, goDown, if_pos hdown, if_pos hdown']
    · have hdown' : id ∉ (h.setSlave id { h.s id with size := size }).downs := hdown
      rw [goDown, goDown, if_neg hdown, if_neg hdown', setSlave_self]
      rfl
  have hclose : (h.setSlave id { h.s id with size := size }).closeHarbor id =
      (h.closeHarbor id).setSlave id
        { h.s id with size := size, status := .down, queue := none } := by
    have hemit : ∀ (h₀ : Harbor) (sl : Slave) (e : HarborEffect),
        (h₀.setSlave id sl).emit e = (h₀.emit e).setSlave id sl := fun _ _ _ => rfl
    simp only [closeHarbor, hgo, setSlave_self, goDown_s]
    split
    · simp only [hemit, setSlave_setSlave]
    · simp only [setSlave_setSlave]
  rw [hclose]
  unfold settle
  rw [closeHarbor_slave, setSlave_self, setSlave_setSlave, if_pos rfl, if_pos rfl]

theorem hear_cons (hok : SlaveReading (h.s id)) (ht : t ≠ []) (b : UInt8) :
    (hear h id alive (b :: t)).map (settle id) =
      ((hear h id alive [b]).bind fun h₁ => hear h₁ id alive t).map (settle id) := by
  have htpos : 0 < t.length := length_pos_iff.mpr ht
  have hclosed : ∀ h₀ : Harbor, hear (h₀.closeHarbor id) id alive t = some (h₀.closeHarbor id) :=
    fun h₀ => hear_deaf (.inr (by rw [closeHarbor_slave]))
  cases hstatus : (h.s id).status with
  | wait =>
    rw [hear_deaf (.inl hstatus), hear_deaf (.inl hstatus), bind_some, hear_deaf (.inl hstatus)]
  | down =>
    rw [hear_deaf (.inr hstatus), hear_deaf (.inr hstatus), bind_some, hear_deaf (.inr hstatus)]
  | handshake =>
    rw [hear_handshake hok hstatus, hear_handshake hok hstatus]
    by_cases hb : b.toNat ≠ id
    · rw [if_pos hb, if_pos hb, bind_some, hclosed]
    · rw [if_neg hb, if_neg hb, if_neg ht, if_pos rfl, bind_some]
  | header =>
    obtain ⟨hsize, hrecv⟩ := hok.header hstatus
    rw [hear_header hok hstatus, hear_header hok hstatus]
    by_cases hneed : (h.s id).size.length = 3
    · have hone : 4 - (h.s id).size.length = 1 := by omega
      have hmany : ¬(b :: t).length < 1 := by simp
      have hlone : ¬[b].length < 1 := by simp
      simp only [hone, hmany, hlone, if_false, take_succ_cons, take_zero,
        drop_succ_cons, drop_zero, ht, if_true]
      by_cases hzero : ((h.s id).size ++ [b]).headD 0 ≠ 0
      · rw [if_pos hzero, if_pos hzero, bind_some, hclosed]
      · rw [if_neg hzero, if_neg hzero, bind_some]
    · obtain ⟨n, hn⟩ : ∃ n, 4 - (h.s id).size.length = n + 2 :=
        ⟨4 - (h.s id).size.length - 2, by omega⟩
      have hreading : SlaveReading ((h.setSlave id
          { h.s id with size := (h.s id).size ++ [b] }).s id) := by
        rw [setSlave_self]
        refine ⟨fun hs => by simp [hstatus] at hs, fun _ => ⟨?_, hrecv⟩,
          fun hs => by simp [hstatus] at hs⟩
        change ((h.s id).size ++ [b]).length < 4
        rw [length_append, length_singleton]
        omega
      have hlen : 4 - ((h.s id).size ++ [b]).length = n + 1 := by
        rw [length_append, length_singleton]
        omega
      rw [hn, if_pos (by simp : [b].length < n + 2), bind_some,
        hear_header hreading (by rw [setSlave_self]; exact hstatus), setSlave_self]
      simp only [hlen, length_cons, take_succ_cons, drop_succ_cons,
        append_assoc, cons_append, nil_append, setSlave_setSlave]
      by_cases hshort : t.length < n + 1
      · rw [if_pos (by omega), if_pos hshort]
      · rw [if_neg (by omega), if_neg hshort]
        split
        · rw [map_some, map_some, settle_closeHarbor]
        · rfl
  | content =>
    obtain ⟨hsize, hlt, hrecv⟩ := hok.content hstatus
    rw [hear_content hok hstatus, hear_content hok hstatus]
    rcases hrecv with hrecv | ⟨hzero, hempty⟩
    · by_cases hneed : (h.s id).length - (h.s id).recvBuffer.length = 1
      · have hmany : ¬(b :: t).length < 1 := by simp
        have hmore : (b :: t).length ≠ 1 := by
          rw [length_cons]
          omega
        simp only [hneed, hmany, hmore, if_false, take_succ_cons, take_zero,
          drop_succ_cons, drop_zero, length_singleton, Nat.lt_irrefl, if_true,
          bind_assoc, bind_some]
      · obtain ⟨n, hn⟩ : ∃ n, (h.s id).length - (h.s id).recvBuffer.length = n + 2 :=
          ⟨(h.s id).length - (h.s id).recvBuffer.length - 2, by omega⟩
        have hreading : SlaveReading ((h.setSlave id
            { h.s id with recvBuffer := (h.s id).recvBuffer ++ [b] }).s id) := by
          rw [setSlave_self]
          refine ⟨fun hs => by simp [hstatus] at hs, fun hs => by simp [hstatus] at hs,
            fun _ => ⟨hsize, hlt, .inl ?_⟩⟩
          change ((h.s id).recvBuffer ++ [b]).length < (h.s id).length
          rw [length_append, length_singleton]
          omega
        have hlen : (h.s id).length - ((h.s id).recvBuffer ++ [b]).length = n + 1 := by
          rw [length_append, length_singleton]
          omega
        rw [hn, if_pos (by simp : [b].length < n + 2), bind_some,
          hear_content hreading (by rw [setSlave_self]; exact hstatus), setSlave_self]
        simp only [hlen, length_cons, take_succ_cons, drop_succ_cons,
          append_assoc, cons_append, nil_append, setSlave_setSlave]
        by_cases hshort : t.length < n + 1
        · rw [if_pos (by omega), if_pos hshort]
        · rw [if_neg (by omega), if_neg hshort, forwardLocalMessage_setSlave, bind_map]
          congr 2
          funext h₁
          simp only [Function.comp_apply, setSlave_setSlave, Nat.add_right_cancel_iff]
          rfl
    · have hnone : ∀ u : Bytes, h.forwardLocalMessage alive ([] ++ u.take 0) = none := by
        intro u
        rw [forwardLocalMessage_eq_none_iff]
        simp
      rw [hzero, hempty, length_nil, Nat.sub_self, if_neg (by omega), if_neg (by omega), hnone,
        hnone]
      rfl

theorem settle_bind {x y : Option Harbor} (h : x.map (settle id) = y.map (settle id)) :
    (x.bind fun h₁ => hear h₁ id alive t).map (settle id) =
      (y.bind fun h₁ => hear h₁ id alive t).map (settle id) := by
  cases x with
  | none =>
    cases y with
    | none => rfl
    | some h₂ => cases h
  | some h₁ =>
    cases y with
    | none => cases h
    | some h₂ => exact hear_settle (Option.some.inj h)

theorem hear_append (hok : SlaveReading (h.s id)) (hs : s ≠ []) (ht : t ≠ []) :
    (hear h id alive (s ++ t)).map (settle id) =
      ((hear h id alive s).bind fun h₁ => hear h₁ id alive t).map (settle id) := by
  induction s generalizing h with
  | nil => exact absurd rfl hs
  | cons b s ih =>
    cases s with
    | nil => exact hear_cons hok ht b
    | cons c s =>
      have hrest : ∀ h₁, hear h id alive [b] = some h₁ →
          (hear h₁ id alive (c :: s ++ t)).map (settle id) =
            ((hear h₁ id alive (c :: s)).bind fun h₂ => hear h₂ id alive t).map (settle id) :=
        fun h₁ h₁' => ih (hear_ok hok h₁').1 (cons_ne_nil c s)
      calc (hear h id alive (b :: (c :: s ++ t))).map (settle id)
          = ((hear h id alive [b]).bind fun h₁ => hear h₁ id alive (c :: s ++ t)).map (settle id) :=
            hear_cons hok (by simp) b
        _ = ((hear h id alive [b]).bind fun h₁ =>
              (hear h₁ id alive (c :: s)).bind fun h₂ => hear h₂ id alive t).map (settle id) := by
            cases hb : hear h id alive [b] with
            | none => rfl
            | some h₁ => exact hrest h₁ hb
        _ = (((hear h id alive [b]).bind fun h₁ => hear h₁ id alive (c :: s)).bind fun h₂ =>
              hear h₂ id alive t).map (settle id) := by rw [bind_assoc]
        _ = ((hear h id alive (b :: c :: s)).bind fun h₂ => hear h₂ id alive t).map (settle id) :=
            settle_bind (hear_cons hok (cons_ne_nil c s) b).symm

/-! ## Frames -/

/-- The frames of a stream that are passed on: each has its length in four bytes, the first
of them 0, and is passed on once its content is there, and at least one byte behind the
length. -/
def harborFrames (s : Bytes) : List Bytes :=
  if _h : 4 < s.length ∧ s.headD 0 = 0 ∧ 4 + fromBigendian (s.take 4) ≤ s.length then
    (s.drop 4).take (fromBigendian (s.take 4)) ::
      harborFrames (s.drop (4 + fromBigendian (s.take 4)))
  else []
termination_by s.length
decreasing_by
  rw [length_drop]
  omega

/-- The frames that a slave passes on with a message, those that it has begun to read
included. -/
def heardFrames (id : ℕ) (sl : Slave) (s : Bytes) : List Bytes :=
  match sl.status with
  | .header => harborFrames (sl.size ++ s)
  | .content => harborFrames (toBigendian sl.length ++ sl.recvBuffer ++ s)
  | .handshake => if (s.headD 0).toNat = id then harborFrames s.tail else []
  | .wait => []
  | .down => []

/-- Between two frames the service reads in front of a buffer exactly where a frame is too
short, by induction on the stream. -/
theorem hear_resting_eq_none_iff (hok : SlaveReading (h.s id)) (hstatus : (h.s id).status = .header)
    (hsize : (h.s id).size = []) :
    hear h id alive s = none ↔ ∃ p ∈ harborFrames s, p.length < 12 := by
  induction hlen : s.length using Nat.strongRecOn generalizing h s with
  | _ n ih =>
    rw [hear_header hok hstatus, hsize, harborFrames]
    simp only [length_nil, Nat.sub_zero, nil_append]
    by_cases hshort : s.length < 4
    · rw [if_pos hshort, dif_neg (by omega)]
      simp
    rw [if_neg hshort]
    have hhead : (s.take 4).headD 0 = s.headD 0 := by
      cases s with
      | nil => rfl
      | cons b s => rfl
    rw [hhead]
    by_cases hzero : s.headD 0 = 0
    swap
    · rw [if_pos hzero, dif_neg (fun hc => hzero hc.2.1)]
      simp
    rw [if_neg (not_not.mpr hzero)]
    by_cases hnil : s.drop 4 = []
    · have hfour := drop_eq_nil_iff.mp hnil
      rw [if_pos hnil, dif_neg (by omega)]
      simp
    have hmore : 4 < s.length := by
      by_contra hle
      exact hnil (drop_eq_nil_iff.mpr (by omega))
    have hnumber : fromBigendian (s.take 4) < 2 ^ 24 :=
      fromBigendian_lt (by rw [length_take]; omega) (hhead.trans hzero)
    have hfilling : SlaveReading ((h.setSlave id
        (fillingSlave (h.s id) (fromBigendian (s.take 4)))).s id) := by
      rw [setSlave_self]
      exact reading_filling _ hnumber
    rw [if_neg hnil, hear_content hfilling (by rw [setSlave_self]; rfl), setSlave_self]
    simp only [fillingSlave, length_nil, Nat.sub_zero, nil_append, length_drop, drop_drop]
    by_cases hpart : s.length - 4 < fromBigendian (s.take 4)
    · rw [if_pos hpart, dif_neg (by omega)]
      simp
    rw [if_neg hpart, dif_pos ⟨hmore, hzero, by omega⟩]
    simp only [mem_cons, exists_eq_or_imp]
    cases hforward : (h.setSlave id (fillingSlave (h.s id) (fromBigendian (s.take 4)))
        ).forwardLocalMessage alive ((s.drop 4).take (fromBigendian (s.take 4))) with
    | none =>
      have htiny := forwardLocalMessage_eq_none_iff.mp hforward
      simp only [fillingSlave] at hforward
      rw [hforward]
      exact iff_of_true rfl (.inl htiny)
    | some h₁ =>
      have hfits : ¬((s.drop 4).take (fromBigendian (s.take 4))).length < 12 := by
        intro htiny
        rw [forwardLocalMessage_eq_none_iff.mpr htiny] at hforward
        cases hforward
      simp only [fillingSlave] at hforward
      rw [hforward, bind_some]
      simp only [hfits, false_or]
      by_cases hend : s.length - 4 = fromBigendian (s.take 4)
      · rw [if_pos hend, ← hend, Nat.add_sub_cancel' (by omega), drop_length, harborFrames,
          dif_neg (by simp)]
        simp
      · rw [if_neg hend]
        exact ih _ (by rw [← hlen, length_drop]; omega) (by
          rw [setSlave_self]
          exact reading_resting _) (by rw [setSlave_self]; rfl) (by rw [setSlave_self]; rfl) rfl

theorem fromBigendian_toBigendian {n : ℕ} (hn : n < 2 ^ 32) :
    fromBigendian (toBigendian n) = n := by
  have h0 : (UInt8.ofNat n).toNat = n % 256 := by simp
  have h1 : (UInt8.ofNat (n >>> 8)).toNat = n / 256 % 256 := by simp [Nat.shiftRight_eq_div_pow]
  have h2 : (UInt8.ofNat (n >>> 16)).toNat = n / 65536 % 256 := by
    simp [Nat.shiftRight_eq_div_pow]
  have h3 : (UInt8.ofNat (n >>> 24)).toNat = n / 16777216 % 256 := by
    simp [Nat.shiftRight_eq_div_pow]
  have hsum : fromBigendian (toBigendian n) =
      n % 256 + 256 * (n / 256 % 256 + 256 * (n / 65536 % 256 + 256 * (n / 16777216 % 256))) := by
    simp only [fromBigendian, toBigendian, reverse_cons, reverse_nil, nil_append,
      cons_append, leNat, h0, h1, h2, h3]
    omega
  omega

theorem toBigendian_length (n : ℕ) : (toBigendian n).length = 4 := rfl

theorem toBigendian_head {n : ℕ} (hn : n < 2 ^ 32) : (toBigendian n).headD 0 = 0 ↔ n < 2 ^ 24 := by
  change UInt8.ofNat (n >>> 24) = 0 ↔ n < 2 ^ 24
  rw [← UInt8.toNat_inj, Nat.shiftRight_eq_div_pow]
  change n / 2 ^ 24 % 256 = 0 ↔ n < 2 ^ 24
  omega

theorem hear_size (hok : SlaveReading (h.s id)) (hstatus : (h.s id).status = .header) :
    hear (h.setSlave id { h.s id with size := [] }) id alive (h.s id).size = some h := by
  obtain ⟨hsize, hrecv⟩ := hok.header hstatus
  have hreading : SlaveReading ((h.setSlave id { h.s id with size := [] }).s id) := by
    rw [setSlave_self]
    exact ⟨fun hs => by simp [hstatus] at hs, fun _ => ⟨by simp, hrecv⟩,
      fun hs => by simp [hstatus] at hs⟩
  rw [hear_header hreading (by rw [setSlave_self]; exact hstatus), setSlave_self]
  simp only [length_nil, Nat.sub_zero, nil_append, setSlave_setSlave]
  rw [if_pos hsize]
  exact congrArg some (setSlave_eq_self h id)

theorem hear_begun (hok : SlaveReading (h.s id)) (hstatus : (h.s id).status = .content) :
    hear (h.setSlave id (restingSlave (h.s id))) id alive
      (toBigendian (h.s id).length ++ (h.s id).recvBuffer) = some h := by
  obtain ⟨hsize, hlt, hrecv⟩ := hok.content hstatus
  have hreading : SlaveReading ((h.setSlave id (restingSlave (h.s id))).s id) := by
    rw [setSlave_self]
    exact reading_resting _
  have hself : ∀ l, l = (h.s id).recvBuffer →
      h.setSlave id { fillingSlave (h.s id) (h.s id).length with recvBuffer := l } = h := by
    intro l hl
    have hslave : { fillingSlave (h.s id) (h.s id).length with recvBuffer := l } = h.s id := by
      rw [hl, fillingSlave, ← hsize, ← hstatus]
    rw [hslave, setSlave_eq_self]
  have htake : (toBigendian (h.s id).length ++ (h.s id).recvBuffer).take 4 =
      toBigendian (h.s id).length := rfl
  have hdrop : (toBigendian (h.s id).length ++ (h.s id).recvBuffer).drop 4 =
      (h.s id).recvBuffer := rfl
  have hzero := (toBigendian_head (by omega : (h.s id).length < 2 ^ 32)).mpr hlt
  rw [hear_header hreading (by rw [setSlave_self]; rfl), setSlave_self]
  simp only [restingSlave, length_nil, Nat.sub_zero, nil_append, setSlave_setSlave,
    htake, hdrop, hzero, ne_eq, not_true_eq_false, if_false]
  rw [if_neg (by rw [length_append, toBigendian_length]; omega),
    fromBigendian_toBigendian (by omega)]
  by_cases hnil : (h.s id).recvBuffer = []
  · rw [if_pos hnil]
    exact congrArg some (hself [] hnil.symm)
  · rw [if_neg hnil]
    have hshort : (h.s id).recvBuffer.length < (h.s id).length := by
      rcases hrecv with hshort | ⟨-, hempty⟩
      · exact hshort
      · exact absurd hempty hnil
    have hfilling : SlaveReading
        ((h.setSlave id (fillingSlave (h.s id) (h.s id).length)).s id) := by
      rw [setSlave_self]
      exact reading_filling _ hlt
    have hheard : hear (h.setSlave id (fillingSlave (h.s id) (h.s id).length)) id alive
        (h.s id).recvBuffer = _ := hear_content hfilling (by rw [setSlave_self]; rfl)
    rw [setSlave_self] at hheard
    simp only [fillingSlave, length_nil, Nat.sub_zero, nil_append, setSlave_setSlave,
      if_pos hshort] at hheard
    exact hheard.trans (congrArg some (hself _ rfl))

/-- The service reads in front of a buffer with a message exactly where one of the frames
that it passes on is too short. -/
theorem hear_eq_none_iff (hok : SlaveReading (h.s id)) (hs : s ≠ []) :
    hear h id alive s = none ↔ ∃ p ∈ heardFrames id (h.s id) s, p.length < 12 := by
  -- A slave amid a frame is one between two frames that has heard the frame's beginning.
  have hrest : ∀ {h₀ : Harbor} {u : Bytes}, SlaveReading (h₀.s id) →
      (h₀.s id).status = .header → (h₀.s id).size = [] → hear h₀ id alive u = some h →
      (hear h id alive s = none ↔ ∃ p ∈ harborFrames (u ++ s), p.length < 12) := by
    intro h₀ u hok₀ hstatus₀ hsize₀ hu
    rw [← hear_resting_eq_none_iff hok₀ hstatus₀ hsize₀]
    by_cases hnil : u = []
    · have hself : hear h₀ id alive [] = some h₀ := by
        rw [hear_header hok₀ hstatus₀, if_pos (by rw [hsize₀]; simp), append_nil, setSlave_eq_self]
      rw [hnil] at hu ⊢
      rw [hself] at hu
      rw [Option.some.inj hu, nil_append]
    · have heq : (hear h₀ id alive (u ++ s)).map (settle id) = _ := hear_append hok₀ hnil hs
      rw [hu, bind_some] at heq
      rw [← map_eq_none_iff (f := settle id), ← heq, map_eq_none_iff]
  cases hstatus : (h.s id).status with
  | wait =>
    rw [hear_deaf (.inl hstatus), heardFrames, hstatus]
    simp
  | down =>
    rw [hear_deaf (.inr hstatus), heardFrames, hstatus]
    simp
  | handshake =>
    obtain ⟨b, s, rfl⟩ := exists_cons_of_ne_nil hs
    have hslave := handshake_slave h id
    rw [hear_handshake hok hstatus, heardFrames, hstatus]
    simp only [headD_cons, tail_cons]
    by_cases hb : b.toNat = id
    · rw [if_neg (not_not.mpr hb)]
      simp only [hb, if_true]
      split
      · next hnil =>
        rw [hnil, harborFrames, dif_neg (by simp)]
        simp
      · exact hear_resting_eq_none_iff (reading_handshake hok hstatus) (by rw [hslave])
          (by rw [hslave]; exact (hok.before (.inr hstatus)).1)
    · simp [hb]
  | header =>
    rw [heardFrames, hstatus]
    refine hrest ?_ ?_ ?_ (hear_size hok hstatus)
    · rw [setSlave_self]
      exact ⟨fun hs => by simp [hstatus] at hs, fun _ => ⟨by simp, (hok.header hstatus).2⟩,
        fun hs => by simp [hstatus] at hs⟩
    · rw [setSlave_self]
      exact hstatus
    · rw [setSlave_self]
  | content =>
    rw [heardFrames, hstatus]
    refine hrest ?_ ?_ ?_ (hear_begun hok hstatus)
    · rw [setSlave_self]
      exact reading_resting _
    · rw [setSlave_self]
      rfl
    · rw [setSlave_self]
      rfl

end Skynet.Analysis
