import Skynet.Analysis.MsgConnections

/-!
# Requests are run once

A request runs once however often it is sent, as long as the version that its record is
given is that of the connection its response goes to: the code takes the version of the user
at the time, and takes a duplicate with that version for a new request, or for a conflict.
-/

namespace Skynet.Analysis

open Library Model MsgServer List Option

variable {ν : Type} {conf : MsgConf ν} {s s' : MsgServer ν} {e : MsgEvent}
  {fd uid session r : ℕ} {msg : Bytes}

/-! ## What is to hold -/

def RequestOn (s : MsgServer ν) (e : MsgEvent) (fd uid session : ℕ) : Prop :=
  ∃ msg, e = .message fd msg ∧ s.gate.get fd = some true ∧ s.handshake.get fd = none ∧
    s.connection.get fd = some uid ∧ 4 ≤ msg.length ∧
    session = leNat (msg.drop (msg.length - 4)).reverse

/-- The call is that of the user and the session, and its handler runs, or its response is
cached and has not been sent on the connection. -/
def Outstanding (s : MsgServer ν) (r fd uid session : ℕ) : Prop :=
  (s.records r).user = uid ∧ (s.records r).session = session ∧
    (r ∈ s.running ∨ (s.users uid).response.get session = some r ∧
      (s.records r).response ≠ none ∧ fd ∉ (s.records r).sentOn)

/-- The last connection that the request of a call or a duplicate of it came on and that is
still the user's. -/
def latestOpen (s : MsgServer ν) (r : ℕ) : Option ℕ :=
  (s.records r).askedOn.reverse.find? fun fd => s.connection.get fd = some (s.records r).user

def responsesSent (s s' : MsgServer ν) : List (ℕ × ℕ × Bytes) :=
  (msgEffects s s').filterMap fun
    | .send (some r) fd bytes => some (r, fd, bytes)
    | _ => none

def callsMade (s s' : MsgServer ν) : List ℕ := (msgEffects s s').filterMap fun
    | .handle r _ _ => some r
    | _ => none

def responseBytes (s : MsgServer ν) (r : ℕ) (result : Option Bytes) : Bytes :=
  packI 2 (responseOf (s.records r).session result).length ++
    responseOf (s.records r).session result

/-- What a step does to the calls: a duplicate of a request that is outstanding on its
connection calls no handler, and gets the response at once if there is one; the end of a
handler sends the response on the last connection that asked for it and is open; and
responses are sent to the connections of their own users only. -/
structure RunsOnce (s : MsgServer ν) (e : MsgEvent) (s' : MsgServer ν) : Prop where
  once : ∀ r fd uid session, RequestOn s e fd uid session → Outstanding s r fd uid session →
    callsMade s s' = [] ∧ responsesSent s s' =
      match (s.records r).response with
      | none => []
      | some bytes => [(r, fd, bytes)]
  returned : ∀ r result, e = .complete r result → responsesSent s s' =
    match latestOpen s r with
    | none => []
    | some fd => [(r, fd, responseBytes s r result)]
  own : ∀ r fd bytes, (r, fd, bytes) ∈ responsesSent s s' →
    s.connection.get fd = some (s.records r).user

/-- Nobody authenticates for a user who has a connection; while a handler runs, one duplicate
at most comes in each authentication of its user; and a handler ends with a response that is
not too long, and not after its user has authenticated again and not yet asked again. -/
def AsksInTurn [LinearOrder ν] (conf : MsgConf ν) (s : MsgServer ν) : MsgEvent → Prop
  | .message fd msg => NoOverlap conf s (.message fd msg) ∧
    ∀ uid session r, RequestOn s (.message fd msg) fd uid session →
      (s.users uid).response.get session = some r → (s.records r).response = none →
      (s.records r).version ≠ some (s.users uid).version
  | .complete r result => ResponseFits s r result ∧
    (s.records r).askedAt = (s.users (s.records r).user).version
  | _ => True

/-- The record of a call that runs: it is in the table of its user, it returns on the last
connection that asked, which is the user's only one if the user has not authenticated since. -/
structure RunningRecord [LinearOrder ν] (s : MsgServer ν) (r : ℕ) : Prop where
  lt : r < s.recordCount
  unanswered : (s.records r).response = none
  listed : (s.users (s.records r).user).response.get (s.records r).session = some r
  returns : ∃ f, (s.records r).askedOn.getLast? = some f ∧ (s.records r).returnFd = some f
  asked : ∀ f ∈ (s.records r).askedOn, f ∈ s.opened ∧ s.handshake.get f = none ∧
    ∀ u, s.connection.get f = some u → u = (s.records r).user
  latest : ∀ f ∈ (s.records r).askedOn, s.connection.get f = some (s.records r).user →
    (s.records r).returnFd = some f
  version : (s.records r).askedAt ≤ (s.users (s.records r).user).version
  current : (s.records r).askedAt = (s.users (s.records r).user).version →
    ∀ f, s.connection.get f = some (s.records r).user → (s.records r).returnFd = some f

/-- A record in the table of a user: it runs, or its response has been sent on the user's
connection if it has the version of that. -/
structure TableRecord [LinearOrder ν] (s : MsgServer ν) (uid session r : ℕ) : Prop where
  lt : r < s.recordCount
  user : (s.records r).user = uid
  session : (s.records r).session = session
  known : uid < s.userCount
  running : (s.records r).response = none → r ∈ s.running
  sent : (s.records r).response ≠ none → ∃ v, (s.records r).version = some v ∧
    v ≤ (s.users uid).version ∧
    (v = (s.users uid).version → ∀ f, s.connection.get f = some uid → f ∈ (s.records r).sentOn)

structure MsgInv [LinearOrder ν] (s : MsgServer ν) : Prop where
  numbers : MsgNumbers s
  kept : CurrentKept s
  running : ∀ r ∈ s.running, RunningRecord s r
  nodup : s.running.Nodup
  table : ∀ uid session r, (s.users uid).response.get session = some r → TableRecord s uid session r

/-! ## Steps that leave the records alone -/

/-- The users that there were have their versions and their tables, the records are the same,
and connections only end. -/
structure LeavesRecords (s s' : MsgServer ν) : Prop where
  old : ∀ i < s.userCount, (s'.users i).response = (s.users i).response ∧
    (s'.users i).version = (s.users i).version
  new : ∀ i, s.userCount ≤ i → ∀ k, (s'.users i).response.get k = none
  userCount : s.userCount ≤ s'.userCount
  records : s'.records = s.records
  recordCount : s'.recordCount = s.recordCount
  running : s'.running = s.running
  connection : ∀ f u, s'.connection.get f = some u → s.connection.get f = some u
  opened : ∀ f ∈ s.opened, f ∈ s'.opened
  handshake : ∀ f ∈ s.opened, s.handshake.get f = none → s'.handshake.get f = none

theorem MsgInv.leaves [LinearOrder ν] (hi : MsgInv s) (hl : LeavesRecords s s')
    (hn : MsgNumbers s') (hk : CurrentKept s') : MsgInv s' where
  numbers := hn
  kept := hk
  running r hr := by
    rw [hl.running] at hr
    have hrec := hi.running r hr
    have hknown := (hi.table _ _ _ hrec.listed).known
    obtain ⟨hresponse, hversion⟩ := hl.old _ hknown
    have hsame : s'.records r = s.records r := by rw [hl.records]
    refine ⟨?_, ?_, ?_, ?_, fun f hf => ?_, fun f hf hopen => ?_, ?_, fun heq f hopen => ?_⟩
    · rw [hl.recordCount]
      exact hrec.lt
    · rw [hsame]
      exact hrec.unanswered
    · rw [hsame, hresponse]
      exact hrec.listed
    · rw [hsame]
      exact hrec.returns
    · rw [hsame] at hf ⊢
      obtain ⟨hopened, hshake, howner⟩ := hrec.asked f hf
      exact ⟨hl.opened f hopened, hl.handshake f hopened hshake,
        fun u hu => howner u (hl.connection f u hu)⟩
    · rw [hsame] at hf hopen ⊢
      exact hrec.latest f hf (hl.connection f _ hopen)
    · rw [hsame, hversion]
      exact hrec.version
    · rw [hsame] at heq hopen ⊢
      rw [hversion] at heq
      exact hrec.current heq f (hl.connection f _ hopen)
  nodup := by
    rw [hl.running]
    exact hi.nodup
  table uid session r hr := by
    by_cases hold : uid < s.userCount
    · obtain ⟨hresponse, hversion⟩ := hl.old uid hold
      rw [hresponse] at hr
      have ht := hi.table uid session r hr
      have hsame : s'.records r = s.records r := by rw [hl.records]
      refine ⟨?_, ?_, ?_, Nat.lt_of_lt_of_le ht.known hl.userCount, ?_, fun hsome => ?_⟩
      · rw [hl.recordCount]
        exact ht.lt
      · rw [hsame]
        exact ht.user
      · rw [hsame]
        exact ht.session
      · rw [hsame, hl.running]
        exact ht.running
      · rw [hsame] at hsome ⊢
        obtain ⟨v, hv, hle, hsent⟩ := ht.sent hsome
        refine ⟨v, hv, hversion ▸ hle, fun heq f hopen => ?_⟩
        exact hsent (heq.trans hversion) f (hl.connection f uid hopen)
    · rw [hl.new uid (Nat.not_lt.mp hold)] at hr
      nomatch hr

theorem disconnect_objects (s : MsgServer ν) (fd : ℕ) :
    (s.disconnect fd).records = s.records ∧ (s.disconnect fd).recordCount = s.recordCount ∧
      (s.disconnect fd).running = s.running := by
  rcases disconnect_cases s fd with ⟨-, heq⟩ | ⟨u, t, -, rfl, heq⟩ <;> rw [heq] <;>
    exact ⟨rfl, rfl, rfl⟩

theorem closeclient_objects (s : MsgServer ν) (fd : ℕ) : (s.closeclient fd).users = s.users ∧
    (s.closeclient fd).records = s.records ∧
    (s.closeclient fd).recordCount = s.recordCount ∧ (s.closeclient fd).running = s.running := by
  unfold closeclient
  split <;> exact ⟨rfl, rfl, rfl, rfl⟩

section Leaves

variable [LinearOrder ν]

theorem MsgInv.noTable (hi : MsgInv s) {i : ℕ} (h : s.userCount ≤ i) (k : ℕ) :
    (s.users i).response.get k = none := by
  cases hget : (s.users i).response.get k with
  | none => rfl
  | some r => exact absurd (hi.table i k r hget).known (Nat.not_lt.mpr h)

theorem MsgInv.leaves_same (hi : MsgInv s) (husers : ∀ i,
      (s'.users i).response = (s.users i).response ∧ (s'.users i).version = (s.users i).version)
    (hcount : s'.userCount = s.userCount) (hrecords : s'.records = s.records)
    (hrecordCount : s'.recordCount = s.recordCount) (hrunning : s'.running = s.running)
    (hconnection : ∀ f u, s'.connection.get f = some u → s.connection.get f = some u)
    (hopened : ∀ f ∈ s.opened, f ∈ s'.opened)
    (hhandshake : ∀ f ∈ s.opened, s.handshake.get f = none → s'.handshake.get f = none) :
    LeavesRecords s s' where
  old i _ := husers i
  new i hle k := by
    rw [(husers i).1]
    exact hi.noTable hle k
  userCount := Nat.le_of_eq hcount.symm
  records := hrecords
  recordCount := hrecordCount
  running := hrunning
  connection := hconnection
  opened := hopened
  handshake := hhandshake

theorem MsgInv.logout (hi : MsgInv s) (username : Bytes) : MsgInv (s.logout username) := by
  rcases logout_cases s username with ⟨-, hsame⟩ |
    ⟨uid, -, -, husers, hcount, hhandshake, hopened, hrecords, hrecordCount, hrunning, hconnection⟩
  · rw [hsame]
    exact hi
  · refine hi.leaves (hi.leaves_same (fun i => by rw [husers]; exact ⟨rfl, rfl⟩) hcount hrecords
      hrecordCount hrunning (fun f u hget => ?_) (fun f hf => hopened ▸ hf)
      fun f _ hf => hhandshake ▸ hf) (hi.numbers.logout username)
      (hi.kept.logout hi.numbers username)
    rw [hconnection] at hget
    split at hget
    · exact hget
    · rw [Table.get_put] at hget
      split at hget
      · nomatch hget
      · exact hget

theorem MsgInv.connect (hi : MsgInv s) (hnew : fd ∉ s.opened) (addr : Bytes) :
    MsgInv (s.connect fd addr) := by
  refine hi.leaves (hi.leaves_same (fun _ => ⟨rfl, rfl⟩) rfl rfl rfl rfl (fun _ _ h => h)
    (fun f hf => mem_append_left _ hf) fun f hf hnone => ?_) (hi.numbers.connect hnew addr)
    ((kept_connect addr).mpr hi.kept)
  have hget : (s.connect fd addr).handshake.get f =
      if f = fd then some addr else s.handshake.get f := Table.get_put _ _ _ _
  rw [hget, if_neg ?_, hnone]
  rintro rfl
  exact hnew hf

theorem MsgInv.disconnect (hi : MsgInv s) (fd : ℕ) : MsgInv (s.disconnect fd) := by
  obtain ⟨-, hhandshake, hconnection, hcount, hopened, -⟩ := tables_disconnect s fd
  obtain ⟨hrecords, hrecordCount, hrunning⟩ := disconnect_objects s fd
  refine hi.leaves (hi.leaves_same (fun i => ?_) hcount hrecords hrecordCount hrunning
    (fun f u hget => ?_) (fun f hf => hopened ▸ hf) fun f _ hnone => ?_)
    (hi.numbers.disconnect fd) (hi.kept.disconnect fd)
  · obtain ⟨-, -, -, hversion, hresponse⟩ := users_disconnect s fd i
    exact ⟨hresponse, hversion⟩
  · rw [hconnection] at hget
    split at hget
    · nomatch hget
    · exact hget
  · rw [hhandshake, Table.get_put, hnone]
    split <;> rfl

theorem MsgInv.closed (hi : MsgInv s) (fd : ℕ) : MsgInv (s.closed fd) := by
  obtain ⟨gate, heq⟩ := closed_eq s fd
  have hgate : MsgInv { s with gate := gate } := by
    refine hi.leaves (hi.leaves_same (fun _ => ⟨rfl, rfl⟩) rfl rfl rfl rfl (fun _ _ h => h)
      (fun _ h => h) fun _ _ h => h) ?_ ?_
    · exact ⟨hi.numbers.names, hi.numbers.authenticated, hi.numbers.shaking⟩
    · exact ⟨hi.kept.current, hi.kept.linked⟩
  rw [heq]
  exact hgate.disconnect fd

theorem MsgInv.login [Zero ν] (hi : MsgInv s) (username secret : Bytes) :
    MsgInv (s.login username secret) := by
  cases hfree : s.userOnline.get username with
  | some uid =>
    rw [login_self (by simp [hfree])]
    exact hi
  | none =>
    have hlogin : s.login username secret = _ := if_neg (by simp [hfree])
    refine hi.leaves ⟨fun i hlt => ?_, fun i hle k => ?_, ?_, ?_, ?_, ?_, fun f u hget => ?_,
      fun f hf => ?_, fun f _ hf => ?_⟩ (hi.numbers.login username secret)
      (hi.kept.login hi.numbers username secret)
    · rw [users_login (Nat.ne_of_lt hlt)]
      exact ⟨rfl, rfl⟩
    · by_cases hsame : i = s.userCount
      · rw [hlogin]
        simp only [setUser, hsame, if_true]
        exact Table.get_empty k
      · rw [users_login hsame]
        exact hi.noTable hle k
    · rw [hlogin]
      exact Nat.le_succ _
    · rw [hlogin]
      rfl
    · rw [hlogin]
      rfl
    · rw [hlogin]
      rfl
    · rw [hlogin] at hget
      exact hget
    · rw [hlogin]
      exact hf
    · rw [hlogin]
      exact hf

theorem MsgInv.closeclient (hi : MsgInv s) (fd : ℕ) : MsgInv (s.closeclient fd) := by
  have hsame := SameConnections.closeclient s fd
  obtain ⟨husers, hrecords, hrecordCount, hrunning⟩ := closeclient_objects s fd
  refine hi.leaves (hi.leaves_same (fun i => by rw [husers]; exact ⟨rfl, rfl⟩) hsame.userCount
    hrecords hrecordCount hrunning (fun f u h => hsame.connection ▸ h)
    (fun f h => hsame.opened ▸ h) fun f _ h => hsame.handshake ▸ h) (hsame.numbers hi.numbers)
    (hsame.kept.mpr hi.kept)

theorem MsgInv.emit (hi : MsgInv s) (effect : MsgEffect) : MsgInv (s.emit effect) := by
  refine hi.leaves (hi.leaves_same (fun _ => ⟨rfl, rfl⟩) rfl rfl rfl rfl (fun _ _ h => h)
    (fun _ h => h) fun _ _ h => h) ?_ ?_
  · exact ⟨hi.numbers.names, hi.numbers.authenticated, hi.numbers.shaking⟩
  · exact ⟨hi.kept.current, hi.kept.linked⟩

theorem MsgInv.badRequest (hi : MsgInv s) (fd : ℕ) : MsgInv (s.badRequest fd) := by
  unfold MsgServer.badRequest
  split
  · exact hi.closeclient fd
  · exact hi

end Leaves

section Accept

variable [LinearOrder ν]

theorem auth_refused {msg : Bytes} (hbad : ∀ user, s.doAuth conf msg ≠ (.ok, user))
    (fd : ℕ) (addr : Bytes) : s.auth conf fd addr msg =
      (s.emit (.send none fd (netpack (s.doAuth conf msg).1.text))).closeclient fd := by
  rcases doAuth_cases conf s msg with ⟨hne, hnone⟩ | ⟨uid, idx, hok, -⟩
  · unfold auth
    dsimp only
    rw [hnone, if_neg hne]
  · exact absurd hok (hbad _)

/-- A new version is larger than those of the records, and a new connection is none that has
asked. -/
theorem MsgInv.accepted (hi : MsgInv s) (hshake : s.handshake.get fd ≠ none) {addr : Bytes}
    {idx : ν} (hlt : (s.users uid).version < idx) (hn : MsgNumbers s') (hk : CurrentKept s')
    (husers : s'.users = (s.accept fd addr uid idx).users)
    (hconnection : s'.connection = (s.accept fd addr uid idx).connection)
    (hhandshake : s'.handshake = s.handshake.put fd none) (hopened : s'.opened = s.opened)
    (hcount : s'.userCount = s.userCount) (hrecords : s'.records = s.records)
    (hrecordCount : s'.recordCount = s.recordCount) (hrunning : s'.running = s.running) :
    MsgInv s' := by
  have hresponse : ∀ i, (s'.users i).response = (s.users i).response := by
    intro i
    rw [husers, users_accept]
    split
    · next h => rw [h]
    · rfl
  have hself : (s'.users uid).version = idx := by
    rw [husers, users_accept, if_pos rfl]
  have hother : ∀ i, i ≠ uid → (s'.users i).version = (s.users i).version := by
    intro i hne
    rw [husers, users_accept, if_neg hne]
  have hgrows : ∀ i, (s.users i).version ≤ (s'.users i).version := by
    intro i
    by_cases h : i = uid
    · rw [h, hself]
      exact hlt.le
    · exact (hother i h).ge
  have hget : ∀ f u, s'.connection.get f = some u → f = fd ∧ u = uid ∨
      f ≠ fd ∧ s.connection.get f = some u := by
    intro f u hsome
    rw [hconnection, get_accept] at hsome
    split at hsome
    · next hf => exact .inl ⟨hf, (some.inj hsome).symm⟩
    · next hf => exact .inr ⟨hf, hsome⟩
  refine ⟨hn, hk, fun r hr => ?_, hrunning ▸ hi.nodup, fun u k r hr => ?_⟩
  · rw [hrunning] at hr
    have hrec := hi.running r hr
    have hnot : ∀ f ∈ (s.records r).askedOn, f ≠ fd := by
      rintro f hf rfl
      exact hshake (hrec.asked f hf).2.1
    constructor
    · rw [hrecordCount]
      exact hrec.lt
    · rw [hrecords]
      exact hrec.unanswered
    · rw [hrecords, hresponse]
      exact hrec.listed
    · rw [hrecords]
      exact hrec.returns
    · intro f hf
      rw [hrecords] at hf ⊢
      obtain ⟨hmem, hnone, howner⟩ := hrec.asked f hf
      refine ⟨hopened ▸ hmem, ?_, fun u hu => ?_⟩
      · rw [hhandshake, Table.get_put, hnone]
        split <;> rfl
      · rcases hget f u hu with ⟨heq, -⟩ | ⟨-, hold⟩
        · exact absurd heq (hnot f hf)
        · exact howner u hold
    · intro f hf hopen
      rw [hrecords] at hf hopen ⊢
      rcases hget f _ hopen with ⟨heq, -⟩ | ⟨-, hold⟩
      · exact absurd heq (hnot f hf)
      · exact hrec.latest f hf hold
    · rw [hrecords]
      exact hrec.version.trans (hgrows _)
    · intro heq f hopen
      rw [hrecords] at heq hopen ⊢
      have hne : (s.records r).user ≠ uid := by
        intro huser
        have hle := hrec.version
        rw [heq, huser, hself] at hle
        exact absurd hle (not_le.mpr hlt)
      rw [hother _ hne] at heq
      rcases hget f _ hopen with ⟨-, huser⟩ | ⟨-, hold⟩
      · exact absurd huser hne
      · exact hrec.current heq f hold
  · rw [hresponse] at hr
    have ht := hi.table u k r hr
    constructor
    · rw [hrecordCount]
      exact ht.lt
    · rw [hrecords]
      exact ht.user
    · rw [hrecords]
      exact ht.session
    · rw [hcount]
      exact ht.known
    · rw [hrecords, hrunning]
      exact ht.running
    · intro hsome
      rw [hrecords] at hsome ⊢
      obtain ⟨v, hv, hle, hsent⟩ := ht.sent hsome
      refine ⟨v, hv, hle.trans (hgrows u), fun heq f hopen => ?_⟩
      have hne : u ≠ uid := by
        rintro rfl
        rw [heq, hself] at hle
        exact absurd hle (not_le.mpr hlt)
      rw [hother u hne] at heq
      rcases hget f u hopen with ⟨-, huser⟩ | ⟨-, hold⟩
      · exact absurd huser hne
      · exact hsent heq f hold

end Accept

/-! ## Responses -/

/-- What the end of `do_request` does to the records: the record of the call returns nowhere
any more, has been sent on the connection if that was open, and may be aged like the others;
records that are complete may go out of the tables. -/
structure SendsResponse (s s' : MsgServer ν) (r : ℕ) : Prop where
  same : SameConnections s s'
  recordCount : s'.recordCount = s.recordCount
  running : s'.running = s.running
  other : ∀ i, i ≠ r → ∃ index, s'.records i = { s.records i with index := index }
  self : ∃ index, s'.records r = { s.records r with
    returnFd := none
    sentOn := match (s.records r).returnFd with
      | none => (s.records r).sentOn
      | some fd =>
        if (s.connection.get fd).isSome then (s.records r).sentOn ++ [fd]
        else (s.records r).sentOn
    index := index }
  table : ∀ u k i, (s'.users u).response.get k = some i → (s.users u).response.get k = some i
  kept : ∀ u k i, (s.users u).response.get k = some i → i ≠ r →
    (s.records i).returnFd ≠ none → (s'.users u).response.get k = some i

theorem get_of_mem_sessions {x : ℕ × ℕ} (h : x ∈ s.sessions uid) :
    (s.users uid).response.get x.1 = some x.2 := by
  obtain ⟨k, -, hk⟩ := mem_filterMap.mp h
  obtain ⟨i, hi, rfl⟩ := map_eq_some_iff.mp hk
  exact hi

theorem retireResponse_table (conf : MsgConf ν) (s : MsgServer ν) (uid : ℕ) :
    (∀ u k i, ((s.retireResponse conf uid).users u).response.get k = some i →
        (s.users u).response.get k = some i) ∧
      (∀ u k i, (s.users u).response.get k = some i → (s.records i).returnFd ≠ none →
        ((s.retireResponse conf uid).users u).response.get k = some i) ∧
      (∀ i, ∃ index, (s.retireResponse conf uid).records i = { s.records i with index := index }) ∧
      (s.retireResponse conf uid).recordCount = s.recordCount ∧
      (s.retireResponse conf uid).running = s.running := by
  unfold retireResponse
  dsimp only
  split
  · generalize hgone : ((s.sessions uid).filter fun x => (s.records x.2).returnFd = none).filter
        (fun x => (s.records x.2).index.getD 0 < conf.expiredNumber) = gone
    refine ⟨fun u k i hget => ?_, fun u k i hget hreturns => ?_, fun i => ?_, rfl, rfl⟩
    · by_cases hu : u = uid
      · simp only [setUser, hu, if_true, Table.get_putAll] at hget
        split at hget
        · cases hget
        · rw [hu]
          exact hget
      · simpa only [setUser, hu, if_false] using hget
    · by_cases hu : u = uid
      · have hstays : k ∉ gone.map Prod.fst := by
          intro hmem
          obtain ⟨x, hx, rfl⟩ := mem_map.mp hmem
          rw [← hgone] at hx
          have hcomplete := mem_filter.mp (mem_filter.mp hx).1
          have hsame := get_of_mem_sessions hcomplete.1
          rw [hu, hsame] at hget
          rw [← some.inj hget] at hreturns
          exact hreturns (of_decide_eq_true hcomplete.2)
        simp only [setUser, hu, if_true, Table.get_putAll]
        rw [if_neg hstays, ← hu]
        exact hget
      · simpa only [setUser, hu, if_false] using hget
    · dsimp only
      split
      · exact ⟨_, rfl⟩
      · exact ⟨(s.records i).index, rfl⟩
  · exact ⟨fun _ _ _ h => h, fun _ _ _ h _ => h, fun i => ⟨(s.records i).index, rfl⟩, rfl, rfl⟩

theorem sendResponse_returned (conf : MsgConf ν) (s : MsgServer ν) (uid r : ℕ) :
    ∃ t : MsgServer ν, s.sendResponse conf uid r = t.retireResponse conf uid ∧
      t.recordCount = s.recordCount ∧ t.running = s.running ∧
      (∀ u, (t.users u).response = (s.users u).response) ∧
      (∀ i, i ≠ r → t.records i = s.records i) ∧
      t.records r = { s.records r with
        returnFd := none
        sentOn := match (s.records r).returnFd with
          | none => (s.records r).sentOn
          | some fd =>
            if (s.connection.get fd).isSome then (s.records r).sentOn ++ [fd]
            else (s.records r).sentOn } := by
  have husers : ∀ u, ((s.setUser uid { s.users uid with
      index := (s.users uid).index + 1 }).users u).response = (s.users u).response := by
    intro u
    by_cases hu : u = uid <;> simp [setUser, hu]
  refine ⟨_, rfl, ?_⟩
  split
  · next hnone =>
    refine ⟨rfl, rfl, husers, fun _ _ => rfl, ?_⟩
    change (s.records r).returnFd = none at hnone
    change s.records r = _
    rw [hnone]
    dsimp only
    rw [← hnone]
  · next fd hsome =>
    change (s.records r).returnFd = some fd at hsome
    split
    · next hopen =>
      change (s.connection.get fd).isSome at hopen
      refine ⟨rfl, rfl, husers, fun i hi => if_neg hi, ?_⟩
      refine (if_pos rfl).trans ?_
      rw [hsome]
      dsimp only
      rw [if_pos hopen]
      rfl
    · next hopen =>
      change ¬(s.connection.get fd).isSome at hopen
      refine ⟨rfl, rfl, husers, fun i hi => if_neg hi, ?_⟩
      refine (if_pos rfl).trans ?_
      rw [hsome]
      dsimp only
      rw [if_neg hopen]
      rfl

theorem sendResponse_spec (conf : MsgConf ν) (s : MsgServer ν) (uid r : ℕ) :
    SendsResponse s (s.sendResponse conf uid r) r := by
  have hsame := SameConnections.sendResponse conf s uid r
  obtain ⟨t, heq, hcount, hrunning, husers, hother, hself⟩ := sendResponse_returned conf s uid r
  obtain ⟨htable, hkept, hrecords, hcount', hrunning'⟩ := retireResponse_table conf t uid
  rw [← heq] at htable hkept hrecords hcount' hrunning'
  refine ⟨hsame, hcount'.trans hcount, hrunning'.trans hrunning, fun i hi => ?_, ?_,
    fun u k i hget => ?_, fun u k i hget hi hreturns => ?_⟩
  · obtain ⟨index, hi'⟩ := hrecords i
    exact ⟨index, by rw [hi', hother i hi]⟩
  · obtain ⟨index, hi'⟩ := hrecords r
    exact ⟨index, by rw [hi', hself]⟩
  · rw [← husers u]
    exact htable u k i hget
  · rw [← husers u] at hget
    rw [← hother i hi] at hreturns
    exact hkept u k i hget hreturns

/-! ## Records that change -/

theorem CurrentKept.unique {f : ℕ} (hk : CurrentKept s) (hfd : s.connection.get fd = some uid)
    (hf : s.connection.get f = some uid) : f = fd := by
  have h := ((hk.linked f uid).mp hf).2
  rw [((hk.linked fd uid).mp hfd).2] at h
  exact (some.inj h).symm

section Records

variable [LinearOrder ν]

theorem MsgInv.known (hi : MsgInv s) (hfd : s.connection.get fd = some uid) :
    uid < s.userCount := by
  obtain ⟨username, hon⟩ := ((hi.kept.linked fd uid).mp hfd).1
  exact (hi.numbers.names username uid hon).1

/-- The record of a call that runs, after a step that keeps the users, the connections, the
record and its entry. -/
theorem RunningRecord.keep {i : ℕ} (h : RunningRecord s i) (hsame : SameConnections s s')
    (hrecord : ∃ index, s'.records i = { s.records i with index := index })
    (hcount : s.recordCount ≤ s'.recordCount)
    (hlisted : (s'.users (s.records i).user).response.get (s.records i).session = some i) :
    RunningRecord s' i := by
  obtain ⟨index, heq⟩ := hrecord
  have hversion := (hsame.user (s.records i).user).2.2.2
  constructor
  · exact Nat.lt_of_lt_of_le h.lt hcount
  · rw [heq]
    exact h.unanswered
  · rw [heq]
    exact hlisted
  · rw [heq]
    exact h.returns
  · rw [heq, hsame.opened, hsame.handshake, hsame.connection]
    exact h.asked
  · rw [heq, hsame.connection]
    exact h.latest
  · rw [heq, hversion]
    exact h.version
  · rw [heq, hversion, hsame.connection]
    exact h.current

theorem TableRecord.keep {k i : ℕ} (h : TableRecord s uid k i) (hsame : SameConnections s s')
    (hrecord : ∃ index, s'.records i = { s.records i with index := index })
    (hcount : s.recordCount ≤ s'.recordCount) (hrunning : i ∈ s.running → i ∈ s'.running) :
    TableRecord s' uid k i := by
  obtain ⟨index, heq⟩ := hrecord
  have hversion := (hsame.user uid).2.2.2
  constructor
  · exact Nat.lt_of_lt_of_le h.lt hcount
  · rw [heq]
    exact h.user
  · rw [heq]
    exact h.session
  · rw [hsame.userCount]
    exact h.known
  · rw [heq]
    exact fun hnone => hrunning (h.running hnone)
  · rw [heq, hversion, hsame.connection]
    exact h.sent

theorem MsgInv.sent {p : MsgRecord ν} (hi : MsgInv s)
    (h : SendsResponse { s.setRecord r p with running := s.running.erase r } s' r)
    (huser : p.user = (s.records r).user) (hsession : p.session = (s.records r).session)
    (hsome : p.response ≠ none) (hversion : p.version = some (s.users p.user).version)
    (hreturns : ∀ f, s.connection.get f = some p.user → p.returnFd = some f) : MsgInv s' := by
  have hset : SameConnections s { s.setRecord r p with running := s.running.erase r } :=
    ⟨rfl, rfl, rfl, rfl, rfl, rfl, fun _ => ⟨rfl, rfl, rfl, rfl⟩⟩
  have hsame : SameConnections s s' := hset.trans h.same
  have hother : ∀ i, i ≠ r → ∃ index, s'.records i = { s.records i with index := index } := by
    intro i hne
    obtain ⟨index, heq⟩ := h.other i hne
    exact ⟨index, heq.trans (by simp [setRecord, hne])⟩
  refine ⟨hsame.numbers hi.numbers, hsame.kept.mpr hi.kept, fun i hmem => ?_, ?_,
    fun u k i hget => ?_⟩
  · rw [h.running] at hmem
    have hne : i ≠ r := (hi.nodup.mem_erase_iff.mp hmem).1
    have hrec := hi.running i (mem_of_mem_erase hmem)
    obtain ⟨f, -, hreturn⟩ := hrec.returns
    refine hrec.keep hsame (hother i hne) h.recordCount.ge (h.kept _ _ i hrec.listed hne ?_)
    simp [setRecord, hne, hreturn]
  · rw [h.running]
    exact hi.nodup.erase r
  · have ht := hi.table u k i (h.table u k i hget)
    by_cases hne : i = r
    · subst hne
      obtain ⟨index, heq⟩ := h.self
      have hp : ({ s.setRecord i p with running := s.running.erase i } : MsgServer ν).records i =
          p := if_pos rfl
      rw [hp] at heq
      have hu : p.user = u := huser.trans ht.user
      constructor
      · rw [h.recordCount]
        exact ht.lt
      · rw [heq]
        exact hu
      · rw [heq]
        exact hsession.trans ht.session
      · rw [hsame.userCount]
        exact ht.known
      · rw [heq]
        exact fun hnone => absurd hnone hsome
      · intro _
        refine ⟨(s.users u).version, ?_, (hsame.user u).2.2.2.ge, fun _ f hf => ?_⟩
        · rw [heq, ← hu]
          exact hversion
        · rw [hsame.connection] at hf
          have hreturn := hreturns f (by rw [hu]; exact hf)
          have hopen : ((s.setRecord i p).connection.get f).isSome := by
            change (s.connection.get f).isSome
            rw [hf]
            rfl
          rw [heq, hreturn]
          dsimp only
          rw [if_pos hopen]
          exact mem_append_right _ (mem_singleton_self f)
    · refine ht.keep hsame (hother i hne) h.recordCount.ge fun hmem => ?_
      rw [h.running]
      exact hi.nodup.mem_erase_iff.mpr ⟨hne, hmem⟩

theorem MsgInv.duplicate_answered (hi : MsgInv s) (conf : MsgConf ν)
    (hfd : s.connection.get fd = some uid) (hget : (s.users uid).response.get session = some r)
    (hsome : (s.records r).response ≠ none) : MsgInv (s.duplicate conf fd uid r) := by
  have hidle : r ∉ s.running := fun h => hsome (hi.running r h).unanswered
  have huser := (hi.table uid session r hget).user
  unfold MsgServer.duplicate
  rw [if_neg hsome]
  refine hi.sent (r := r) (p := { s.records r with
      returnFd := some fd, version := some (s.users uid).version
      index := some (s.users uid).index, askedOn := (s.records r).askedOn ++ [fd]
      askedAt := (s.users uid).version }) ?_ rfl rfl hsome ?_ fun f hf => ?_
  · rw [erase_of_not_mem hidle]
    exact sendResponse_spec conf _ uid r
  · rw [huser]
  · rw [huser] at hf
    rw [hi.kept.unique hfd hf]

theorem MsgInv.complete (hi : MsgInv s) (conf : MsgConf ν) {result : Option Bytes}
    (hmem : r ∈ s.running) (hfits : ResponseFits s r result)
    (hasked : (s.records r).askedAt = (s.users (s.records r).user).version) :
    MsgInv (s.complete conf r result) := by
  have hrec := hi.running r hmem
  unfold MsgServer.complete
  rw [if_neg (Nat.not_lt.mpr hfits)]
  refine hi.sent (sendResponse_spec conf _ _ r) rfl rfl ?_ rfl fun f hf => hrec.current hasked f hf
  nofun

/-- A duplicate of a request whose handler runs: the response is to return on its
connection. -/
theorem MsgInv.duplicate_running (hi : MsgInv s) (conf : MsgConf ν)
    (hfd : s.connection.get fd = some uid) (hget : (s.users uid).response.get session = some r)
    (hnone : (s.records r).response = none) : MsgInv (s.duplicate conf fd uid r) := by
  have hsame := SameConnections.duplicate conf s fd uid r
  have ht := hi.table uid session r hget
  unfold MsgServer.duplicate at hsame ⊢
  rw [if_pos hnone] at hsame ⊢
  have hother : ∀ {t : MsgServer ν} {p : MsgRecord ν} {i : ℕ}, t = s.setRecord r p → i ≠ r →
      t.records i = s.records i := by
    rintro t p i rfl hne
    exact if_neg hne
  refine ⟨hsame.numbers hi.numbers, hsame.kept.mpr hi.kept, fun i hmem => ?_, hi.nodup,
    fun u k i hentry => ?_⟩
  · have hrec := hi.running i hmem
    by_cases hne : i = r
    · subst hne
      obtain ⟨hopened, hshake⟩ := hi.numbers.authenticated fd (by rw [hfd]; nofun)
      have hself : ∀ f, s.connection.get f = some (s.records i).user → f = fd := by
        intro f hf
        rw [ht.user] at hf
        exact hi.kept.unique hfd hf
      constructor <;> simp only [setRecord, if_true]
      · exact hrec.lt
      · exact hnone
      · exact hrec.listed
      · exact ⟨fd, getLast?_concat, rfl⟩
      · intro f hf
        rcases mem_append.mp hf with hf | hf
        · exact hrec.asked f hf
        · obtain rfl := mem_singleton.mp hf
          refine ⟨hopened, hshake, fun u hu => ?_⟩
          rw [hfd] at hu
          exact (some.inj hu).symm.trans ht.user.symm
      · exact fun f _ hf => congrArg some (hself f hf).symm
      · rw [ht.user]
      · exact fun _ f hf => congrArg some (hself f hf).symm
    · exact hrec.keep hsame ⟨(s.records i).index, hother rfl hne⟩ le_rfl hrec.listed
  · have hentry' := hi.table u k i hentry
    by_cases hne : i = r
    · subst hne
      constructor <;> simp only [setRecord, if_true]
      · exact hentry'.lt
      · exact hentry'.user
      · exact hentry'.session
      · exact hentry'.known
      · exact hentry'.running
      · exact fun hsome => absurd hnone hsome
    · exact hentry'.keep hsame ⟨(s.records i).index, hother rfl hne⟩ le_rfl id

theorem MsgInv.forgetSession (hi : MsgInv s) (hidle : ∀ r ∈ s.running,
      (s.records r).user = uid → (s.records r).session ≠ session) :
    MsgInv (s.forgetSession uid session) := by
  have hsame := SameConnections.forgetSession s uid session
  have hget : ∀ u k, ((s.forgetSession uid session).users u).response.get k =
      if u = uid ∧ k = session then none else (s.users u).response.get k := by
    intro u k
    by_cases hu : u = uid
    · simp [MsgServer.forgetSession, setUser, hu, Table.get_put]
    · simp [MsgServer.forgetSession, setUser, hu]
  refine ⟨hsame.numbers hi.numbers, hsame.kept.mpr hi.kept, fun r hr => ?_, hi.nodup,
    fun u k r hentry => ?_⟩
  · have hrec := hi.running r hr
    refine hrec.keep hsame ⟨(s.records r).index, rfl⟩ le_rfl ?_
    rw [hget, if_neg fun h => hidle r hr h.1 h.2]
    exact hrec.listed
  · rw [hget] at hentry
    split at hentry
    · cases hentry
    · exact (hi.table u k r hentry).keep hsame ⟨(s.records r).index, rfl⟩ le_rfl id

theorem MsgInv.callHandler [Zero ν] (hi : MsgInv s) (hfd : s.connection.get fd = some uid)
    (hidle : ∀ r ∈ s.running, (s.records r).user = uid → (s.records r).session ≠ session)
    (message : Bytes) : MsgInv (s.callHandler fd uid session message) := by
  have hsame := SameConnections.callHandler s fd uid session message
  have hget : ∀ u k, ((s.callHandler fd uid session message).users u).response.get k =
      if u = uid ∧ k = session then some s.recordCount else (s.users u).response.get k := by
    intro u k
    by_cases hu : u = uid
    · simp [MsgServer.callHandler, MsgServer.emit, setRecord, setUser, hu, Table.get_put]
    · simp [MsgServer.callHandler, MsgServer.emit, setRecord, setUser, hu]
  have hold : ∀ i < s.recordCount, (s.callHandler fd uid session message).records i =
      s.records i := fun i hlt => if_neg (Nat.ne_of_lt hlt)
  have hnew : (s.callHandler fd uid session message).records s.recordCount = { noRecord with
        returnFd := some fd, user := uid, session := session, origin := fd, askedOn := [fd]
        askedAt := (s.users uid).version } := if_pos rfl
  have hversion := (hsame.user uid).2.2.2
  refine ⟨hsame.numbers hi.numbers, hsame.kept.mpr hi.kept, fun r hr => ?_, ?_,
    fun u k r hentry => ?_⟩
  · rcases mem_append.mp hr with hr | hr
    · have hrec := hi.running r hr
      refine hrec.keep hsame ⟨(s.records r).index, hold r hrec.lt⟩ (Nat.le_succ _) ?_
      rw [hget, if_neg fun h => hidle r hr h.1 h.2]
      exact hrec.listed
    · obtain rfl := mem_singleton.mp hr
      obtain ⟨hopened, hshake⟩ := hi.numbers.authenticated fd (by rw [hfd]; rintro ⟨⟩)
      constructor
      · exact Nat.lt_succ_self _
      · rw [hnew]
        rfl
      · rw [hnew, hget, if_pos ⟨rfl, rfl⟩]
      · rw [hnew]
        exact ⟨fd, rfl, rfl⟩
      · rw [hnew, hsame.connection, hsame.opened, hsame.handshake]
        intro f hf
        obtain rfl := mem_singleton.mp hf
        refine ⟨hopened, hshake, fun u hu => ?_⟩
        rw [hfd] at hu
        exact (some.inj hu).symm
      · rw [hnew]
        intro f hf _
        exact congrArg some (mem_singleton.mp hf).symm
      · rw [hnew]
        exact hversion.ge
      · rw [hnew, hsame.connection]
        exact fun _ f hf => congrArg some (hi.kept.unique hfd hf).symm
  · refine nodup_append.mpr ⟨hi.nodup, nodup_singleton _, fun a ha b hb => ?_⟩
    rw [mem_singleton.mp hb]
    exact Nat.ne_of_lt (hi.running a ha).lt
  · rw [hget] at hentry
    split at hentry
    · next hself =>
      cases hentry
      constructor
      · exact Nat.lt_succ_self _
      · rw [hnew]
        exact hself.1.symm
      · rw [hnew]
        exact hself.2.symm
      · rw [hself.1, hsame.userCount]
        exact hi.known hfd
      · exact fun _ => mem_append_right _ (mem_singleton_self _)
      · rw [hnew]
        exact fun hsome => absurd rfl hsome
    · have ht := hi.table u k r hentry
      exact ht.keep hsame ⟨(s.records r).index, hold r ht.lt⟩ (Nat.le_succ _)
        fun hr => mem_append_left _ hr

theorem MsgInv.idle (hi : MsgInv s)
    (h : ∀ i, (s.users uid).response.get session = some i → (s.records i).response ≠ none) :
    ∀ r ∈ s.running, (s.records r).user = uid → (s.records r).session ≠ session := by
  rintro r hr rfl rfl
  exact h r (hi.running r hr).listed (hi.running r hr).unanswered

end Records

/-! ## Requests -/

section Requests

variable [LinearOrder ν] [Zero ν]

/-- What a request on an authenticated connection comes to: it is too short; its session is
new; the session has a record of the same version, which is a conflict while its handler
runs; or the request is a duplicate. -/
theorem request_cases (conf : MsgConf ν) (hfd : s.connection.get fd = some uid)
    (msg : Bytes) : msg.length < 4 ∧ s.request conf fd msg = s.badRequest fd ∨
    4 ≤ msg.length ∧ ∃ session body, session = leNat (msg.drop (msg.length - 4)).reverse ∧
      ((s.users uid).response.get session = none ∧
          s.request conf fd msg = s.callHandler fd uid session body ∨
        ∃ r, (s.users uid).response.get session = some r ∧
          ((s.records r).version = some (s.users uid).version ∧ (s.records r).response = none ∧
              s.request conf fd msg = (s.forgetSession uid session).badRequest fd ∨
            (s.records r).version = some (s.users uid).version ∧ (s.records r).response ≠ none ∧
              s.request conf fd msg =
                (s.forgetSession uid session).callHandler fd uid session body ∨
            (s.records r).version ≠ some (s.users uid).version ∧
              s.request conf fd msg = s.duplicate conf fd uid r)) := by
  unfold request doRequest
  rw [hfd]
  dsimp only
  by_cases hshort : msg.length < 4
  · refine .inl ⟨hshort, ?_⟩
    rw [if_pos hshort]
    rfl
  · refine .inr ⟨Nat.not_lt.mp hshort, _, msg.take (msg.length - 4), rfl, ?_⟩
    rw [if_neg hshort]
    cases hget : (s.users uid).response.get (leNat (msg.drop (msg.length - 4)).reverse) with
    | none => exact .inl ⟨rfl, rfl⟩
    | some r =>
      refine .inr ⟨r, rfl, ?_⟩
      by_cases hversion : (s.records r).version = some (s.users uid).version
      · simp only [if_pos hversion]
        by_cases hnone : (s.records r).response = none
        · simp only [if_pos hnone]
          exact .inl ⟨hversion, hnone, rfl⟩
        · simp only [if_neg hnone]
          exact .inr (.inl ⟨hversion, hnone, rfl⟩)
      · simp only [if_neg hversion]
        exact .inr (.inr ⟨hversion, rfl⟩)

theorem MsgInv.request (hi : MsgInv s) (conf : MsgConf ν) {msg : Bytes}
    (hgate : s.gate.get fd = some true) (hshake : s.handshake.get fd = none)
    (hfd : s.connection.get fd = some uid) (hturn : AsksInTurn conf s (.message fd msg)) :
    MsgInv (s.request conf fd msg) := by
  rcases request_cases conf hfd msg with ⟨-, heq⟩ |
    ⟨hlen, session, body, hsession, ⟨hnone, heq⟩ | ⟨r, hget, ⟨hv, hnone, -⟩ |
      ⟨-, hsome, heq⟩ | ⟨-, heq⟩⟩⟩
  · rw [heq]
    exact hi.badRequest fd
  · rw [heq]
    refine hi.callHandler hfd (hi.idle fun i hget => ?_) body
    rw [hnone] at hget
    nomatch hget
  · exact absurd hv
      (hturn.2 uid session r ⟨msg, rfl, hgate, hshake, hfd, hlen, hsession⟩ hget hnone)
  · have hidle : ∀ i ∈ s.running, (s.records i).user = uid → (s.records i).session ≠ session := by
      refine hi.idle fun i hget' => ?_
      rw [hget] at hget'
      rwa [← some.inj hget']
    rw [heq]
    exact (hi.forgetSession hidle).callHandler hfd hidle body
  · rw [heq]
    by_cases hnone : (s.records r).response = none
    · exact hi.duplicate_running conf hfd hget hnone
    · exact hi.duplicate_answered conf hfd hget hnone

theorem MsgInv.message (hi : MsgInv s) (conf : MsgConf ν) {msg : Bytes}
    (hturn : AsksInTurn conf s (.message fd msg)) : MsgInv (s.message conf fd msg) := by
  have hn := hi.numbers.message conf fd msg
  have hk := (kept_message_iff hi.numbers hi.kept conf fd msg).mpr hturn.1
  rcases message_cases conf s fd msg with heq | ⟨addr, -, haddr, heq⟩ |
    ⟨hgate, hshake, ⟨uid, hfd, heq⟩ | ⟨-, heq⟩⟩
  · rw [heq]
    exact hi
  · have hshaking : s.handshake.get fd ≠ none := by
      rw [haddr]
      nofun
    rw [heq] at hn hk ⊢
    rcases auth_cases conf s fd addr msg with ⟨hbad, -⟩ | ⟨uid, idx, -, -, hlt, hauth⟩
    · rw [auth_refused hbad] at hn hk ⊢
      have hclosed := (hi.emit (.send none fd (netpack (s.doAuth conf msg).1.text))).closeclient fd
      refine hclosed.leaves (hclosed.leaves_same (fun _ => ⟨rfl, rfl⟩) rfl rfl rfl rfl
        (fun _ _ h => h) (fun _ h => h) fun f _ hnone => ?_) hn hk
      rw [Table.get_put, hnone]
      split <;> rfl
    · rw [hauth] at hn hk ⊢
      exact hi.accepted hshaking hlt hn hk rfl rfl rfl rfl rfl rfl rfl rfl
  · rw [heq]
    exact hi.request conf hgate hshake hfd hturn
  · rw [heq] at hn hk ⊢
    exact hi.leaves (hi.leaves_same (fun _ => ⟨rfl, rfl⟩) rfl rfl rfl rfl (fun _ _ h => h)
      (fun _ h => h) fun _ _ h => h) hn hk

/-- Every event keeps the invariant. -/
theorem MsgInv.next (hi : MsgInv s) (hturn : AsksInTurn conf s e)
    (hstep : s.next conf e = some s') : MsgInv s' := by
  cases e with
  | login username secret => exact some.inj hstep ▸ hi.login username secret
  | logout username => exact some.inj hstep ▸ hi.logout username
  | connect fd addr =>
    simp only [MsgServer.next] at hstep
    split at hstep
    · cases hstep
    · next hnew => exact some.inj hstep ▸ hi.connect hnew addr
  | message fd msg => exact some.inj hstep ▸ hi.message conf hturn
  | closed fd => exact some.inj hstep ▸ hi.closed fd
  | failed fd => exact some.inj hstep ▸ hi.disconnect fd
  | complete r result =>
    simp only [MsgServer.next] at hstep
    split at hstep
    · next hmem => exact some.inj hstep ▸ hi.complete conf hmem hturn.1 hturn.2
    · cases hstep

end Requests

/-! ## Effects -/

theorem effects_of_out {effects : List MsgEffect} (h : s'.out = s.out ++ effects) :
    msgEffects s s' = effects := by
  rw [msgEffects, h, drop_left]

theorem responsesSent_nil {effects : List MsgEffect} (h : s'.out = s.out ++ effects)
    (hnone : ∀ e ∈ effects, ∀ r fd bytes, e ≠ .send (some r) fd bytes) :
    responsesSent s s' = [] := by
  rw [responsesSent, effects_of_out h]
  refine filterMap_eq_nil_iff.mpr fun e he => ?_
  split
  · next r fd bytes => exact absurd rfl (hnone _ he r fd bytes)
  · rfl

theorem responsesSent_same (h : s'.out = s.out) : responsesSent s s' = [] :=
  responsesSent_nil (h.trans (append_nil _).symm) nofun

theorem responsesSent_closeclient (s : MsgServer ν) (fd : ℕ) :
    responsesSent s (s.closeclient fd) = [] := by
  rcases out_closeclient s fd with h | h
  · exact responsesSent_same h
  · refine responsesSent_nil h fun e he r fd bytes => ?_
    rw [mem_singleton.mp he]
    nofun

theorem responsesSent_badRequest (s : MsgServer ν) (fd : ℕ) :
    responsesSent s (s.badRequest fd) = [] := by
  unfold badRequest
  split
  · exact responsesSent_closeclient s fd
  · exact responsesSent_same rfl

theorem out_disconnect (s : MsgServer ν) (fd : ℕ) : (s.disconnect fd).out = s.out := by
  rcases disconnect_cases s fd with ⟨-, heq⟩ | ⟨u, t, -, rfl, heq⟩ <;> rw [heq] <;> rfl

theorem responsesSent_login [Zero ν] (s : MsgServer ν) (username secret : Bytes) :
    responsesSent s (s.login username secret) = [] := by
  refine responsesSent_same ?_
  unfold login
  split <;> rfl

theorem responsesSent_logout (s : MsgServer ν) (username : Bytes) :
    responsesSent s (s.logout username) = [] := by
  unfold logout
  split
  · exact responsesSent_same rfl
  · dsimp only
    split
    · exact responsesSent_same rfl
    · exact responsesSent_closeclient { s with
        userOnline := s.userOnline.put username none } _

theorem responsesSent_connect (s : MsgServer ν) (fd : ℕ) (addr : Bytes) :
    responsesSent s (s.connect fd addr) = [] := by
  have hout : (s.connect fd addr).out = s.out ++ [.start fd] := rfl
  refine responsesSent_nil hout fun e he r fd bytes => ?_
  rw [mem_singleton.mp he]
  nofun

theorem responsesSent_closed (s : MsgServer ν) (fd : ℕ) : responsesSent s (s.closed fd) = [] := by
  obtain ⟨gate, heq⟩ := closed_eq s fd
  rw [heq]
  exact responsesSent_same (out_disconnect { s with gate := gate } fd)

theorem responsesSent_auth [LinearOrder ν] (conf : MsgConf ν) (s : MsgServer ν) (fd : ℕ)
    (addr msg : Bytes) : responsesSent s (s.auth conf fd addr msg) = [] := by
  have hsend : ∀ bytes e, e ∈ [MsgEffect.send none fd bytes] → ∀ r fd bytes,
      e ≠ .send (some r) fd bytes := by
    intro bytes e he r fd bytes'
    rw [mem_singleton.mp he]
    nofun
  rcases auth_cases conf s fd addr msg with ⟨hbad, -⟩ | ⟨uid, idx, -, -, -, hauth⟩
  · rw [auth_refused hbad]
    rcases out_closeclient (s.emit (.send none fd (netpack (s.doAuth conf msg).1.text))) fd with
      h | h
    · exact responsesSent_nil h (hsend _)
    · refine responsesSent_nil (h.trans (append_assoc _ _ _)) fun e he => ?_
      rcases mem_append.mp he with he | he
      · exact hsend _ e he
      · rw [mem_singleton.mp he]
        nofun
  · rw [hauth]
    exact responsesSent_nil rfl (hsend _)

theorem responsesSent_callHandler [Zero ν] (s : MsgServer ν) (fd uid session : ℕ)
    (message : Bytes) : responsesSent s (s.callHandler fd uid session message) = [] := by
  have hout : (s.callHandler fd uid session message).out =
      s.out ++ [.handle s.recordCount (s.users uid).username message] := rfl
  refine responsesSent_nil hout fun e he r fd bytes => ?_
  rw [mem_singleton.mp he]
  nofun

theorem effects_duplicate [LinearOrder ν] (conf : MsgConf ν)
    (hfd : s.connection.get fd = some uid) (r : ℕ) : msgEffects s (s.duplicate conf fd uid r) =
      match (s.records r).response with
      | none => []
      | some bytes => [.send (some r) fd bytes] := by
  refine effects_of_out ?_
  unfold duplicate
  dsimp only
  cases (s.records r).response with
  | none => exact (append_nil _).symm
  | some bytes =>
    rw [if_neg nofun, out_sendResponse]
    simp [setRecord, hfd]

/-! ## Steps -/

theorem latestOpen_user (h : latestOpen s r = some fd) :
    s.connection.get fd = some (s.records r).user := by
  have hfd := find?_some h
  exact of_decide_eq_true hfd

theorem runsOnce_silent (hrequest : ∀ fd uid session, ¬RequestOn s e fd uid session)
    (hcomplete : ∀ r result, e ≠ .complete r result) (hsent : responsesSent s s' = []) :
    RunsOnce s e s' where
  once _ _ _ _ h := absurd h (hrequest _ _ _)
  returned r result h := absurd h (hcomplete r result)
  own r fd bytes h := by
    rw [hsent] at h
    nomatch h

section Steps

variable [LinearOrder ν]

/-- The response of a call is to return on the last connection that asked, if that is
open. -/
theorem MsgInv.latestOpen_running (hi : MsgInv s) (hmem : r ∈ s.running)
    (hreturn : (s.records r).returnFd = some fd) :
    latestOpen s r = if (s.connection.get fd).isSome then some fd else none := by
  have hrec := hi.running r hmem
  obtain ⟨f, hlast, hf⟩ := hrec.returns
  rw [hreturn] at hf
  cases hf
  cases hget : s.connection.get fd with
  | some u =>
    have hu := (hrec.asked fd (mem_of_getLast? hlast)).2.2 u hget
    rw [getLast?_eq_head?_reverse] at hlast
    obtain ⟨l, hl⟩ := head?_eq_some_iff.mp hlast
    rw [latestOpen, hl, find?_cons_of_pos (by simp [hget, hu])]
    rfl
  | none =>
    refine find?_eq_none.mpr fun g hg hopen => ?_
    have hopen' := of_decide_eq_true hopen
    have hsame := hrec.latest g (mem_reverse.mp hg) hopen'
    rw [hreturn] at hsame
    rw [← some.inj hsame, hget] at hopen'
    nomatch hopen'

theorem MsgInv.complete_sends (hi : MsgInv s) (conf : MsgConf ν) {result : Option Bytes}
    (hmem : r ∈ s.running) (hfits : ResponseFits s r result) :
    responsesSent s (s.complete conf r result) =
      match latestOpen s r with
      | none => []
      | some fd => [(r, fd, responseBytes s r result)] := by
  have hout : (s.complete conf r result).out = s.out ++
      match latestOpen s r with
      | none => []
      | some fd => [.send (some r) fd (responseBytes s r result)] := by
    obtain ⟨f, -, hreturn⟩ := (hi.running r hmem).returns
    rw [hi.latestOpen_running hmem hreturn]
    unfold MsgServer.complete
    dsimp only
    rw [if_neg (Nat.not_lt.mpr hfits), out_sendResponse]
    cases hget : s.connection.get f with
    | none => simp [setRecord, hreturn, hget]
    | some u => simp [setRecord, hreturn, hget, responseBytes]
  rw [responsesSent, effects_of_out hout]
  cases latestOpen s r <;> rfl

variable [Zero ν]

/-- What a request that comes in turn sends is the response to a duplicate, on its
connection. -/
theorem MsgInv.request_sends (hi : MsgInv s) (conf : MsgConf ν) {msg : Bytes}
    (hfd : s.connection.get fd = some uid) {i f : ℕ} {bytes : Bytes}
    (h : (i, f, bytes) ∈ responsesSent s (s.request conf fd msg)) :
    s.connection.get f = some (s.records i).user := by
  rcases request_cases conf hfd msg with ⟨-, heq⟩ |
    ⟨-, session, body, -, ⟨-, heq⟩ | ⟨r, hget, ⟨-, -, heq⟩ | ⟨-, -, heq⟩ | ⟨-, heq⟩⟩⟩
  · rw [heq, responsesSent_badRequest] at h
    nomatch h
  · rw [heq, responsesSent_callHandler] at h
    nomatch h
  · have hsent : responsesSent s ((s.forgetSession uid session).badRequest fd) = [] :=
      responsesSent_badRequest (s.forgetSession uid session) fd
    rw [heq, hsent] at h
    nomatch h
  · have hsent : responsesSent s
        ((s.forgetSession uid session).callHandler fd uid session body) = [] :=
      responsesSent_callHandler (s.forgetSession uid session) fd uid session body
    rw [heq, hsent] at h
    nomatch h
  · rw [heq, responsesSent, effects_duplicate conf hfd] at h
    cases hresponse : (s.records r).response with
    | none =>
      rw [hresponse] at h
      nomatch h
    | some response =>
      rw [hresponse] at h
      obtain ⟨rfl, hrest⟩ := Prod.mk.inj (mem_singleton.mp h)
      cases hrest
      rw [hfd, (hi.table uid session _ hget).user]

theorem MsgInv.duplicate_of_outstanding (hi : MsgInv s) {msg : Bytes}
    (hturn : AsksInTurn conf s (.message fd msg))
    (hreq : RequestOn s (.message fd msg) fd uid session) (hout : Outstanding s r fd uid session) :
    s.message conf fd msg = s.duplicate conf fd uid r := by
  obtain ⟨msg', he, hgate, hshake, hfd, hlen, hsession⟩ := id hreq
  obtain ⟨-, rfl⟩ := MsgEvent.message.inj he
  obtain ⟨huser, hnumber, hstate⟩ := hout
  have hrequest : s.message conf fd msg = s.request conf fd msg := by
    unfold MsgServer.message
    rw [if_pos hgate, hshake]
  have hget : (s.users uid).response.get session = some r := by
    rcases hstate with hmem | ⟨hget, -, -⟩
    · rw [← huser, ← hnumber]
      exact (hi.running r hmem).listed
    · exact hget
  -- The record has not the version of the user.
  have hversion : (s.records r).version ≠ some (s.users uid).version := by
    rcases hstate with hmem | ⟨-, hsome, hsent⟩
    · exact hturn.2 uid session r hreq hget (hi.running r hmem).unanswered
    · intro hsame
      obtain ⟨v, hv, -, hall⟩ := (hi.table uid session r hget).sent hsome
      rw [hsame] at hv
      exact hsent (hall (some.inj hv).symm fd hfd)
  rw [hrequest]
  rcases request_cases conf hfd msg with ⟨hshort, -⟩ |
    ⟨-, k, body, hk, ⟨hnone, -⟩ | ⟨i, hi', hcase⟩⟩
  · exact absurd hshort (Nat.not_lt.mpr hlen)
  · rw [hk, ← hsession, hget] at hnone
    nomatch hnone
  · rw [hk, ← hsession, hget] at hi'
    obtain rfl := some.inj hi'
    rcases hcase with ⟨hv, -⟩ | ⟨hv, -⟩ | ⟨-, heq⟩
    · exact absurd hv hversion
    · exact absurd hv hversion
    · exact heq

theorem MsgInv.runsOnce_message (hi : MsgInv s) {msg : Bytes}
    (hturn : AsksInTurn conf s (.message fd msg)) :
    RunsOnce s (.message fd msg) (s.message conf fd msg) where
  once r f uid session hreq hout := by
    obtain ⟨msg', he, -⟩ := id hreq
    obtain ⟨rfl, -⟩ := MsgEvent.message.inj he
    obtain ⟨-, -, -, -, hfd, -⟩ := id hreq
    rw [hi.duplicate_of_outstanding hturn hreq hout]
    unfold callsMade responsesSent
    rw [effects_duplicate conf hfd]
    cases (s.records r).response <;> exact ⟨rfl, rfl⟩
  returned _ _ h := nomatch h
  own r f bytes h := by
    rcases message_cases conf s fd msg with heq | ⟨addr, -, -, heq⟩ |
      ⟨-, -, ⟨uid, hfd, heq⟩ | ⟨-, heq⟩⟩ <;> rw [heq] at h
    · rw [responsesSent_same (s := s) rfl] at h
      nomatch h
    · have hsent : responsesSent s { s.auth conf fd addr msg with
          handshake := (s.auth conf fd addr msg).handshake.put fd none } = [] :=
        responsesSent_auth conf s fd addr msg
      rw [hsent] at h
      nomatch h
    · exact hi.request_sends conf hfd h
    · have hsent : responsesSent s { s with invalid := s.invalid ++ [fd] } = [] :=
        responsesSent_same rfl
      rw [hsent] at h
      nomatch h

theorem MsgInv.runsOnce (hi : MsgInv s) (hturn : AsksInTurn conf s e)
    (hstep : s.next conf e = some s') : RunsOnce s e s' := by
  have hno : ∀ {e : MsgEvent}, (∀ fd msg, e ≠ .message fd msg) →
      ∀ fd uid session, ¬RequestOn s e fd uid session :=
    fun hne fd uid session ⟨msg, he, _⟩ => hne fd msg he
  cases e with
  | login username secret =>
    rw [← some.inj hstep]
    exact runsOnce_silent (hno (by rintro _ _ ⟨⟩)) (by rintro _ _ ⟨⟩)
      (responsesSent_login s username secret)
  | logout username =>
    rw [← some.inj hstep]
    exact runsOnce_silent (hno (by rintro _ _ ⟨⟩)) (by rintro _ _ ⟨⟩)
      (responsesSent_logout s username)
  | connect fd addr =>
    simp only [MsgServer.next] at hstep
    split at hstep
    · cases hstep
    · rw [← some.inj hstep]
      exact runsOnce_silent (hno (by rintro _ _ ⟨⟩)) (by rintro _ _ ⟨⟩)
        (responsesSent_connect s fd addr)
  | message fd msg =>
    rw [← some.inj hstep]
    exact hi.runsOnce_message hturn
  | closed fd =>
    rw [← some.inj hstep]
    exact runsOnce_silent (hno (by rintro _ _ ⟨⟩)) (by rintro _ _ ⟨⟩) (responsesSent_closed s fd)
  | failed fd =>
    rw [← some.inj hstep]
    exact runsOnce_silent (hno (by rintro _ _ ⟨⟩)) (by rintro _ _ ⟨⟩)
      (responsesSent_same (out_disconnect s fd))
  | complete r result =>
    simp only [MsgServer.next] at hstep
    split at hstep
    · next hmem =>
      rw [← some.inj hstep]
      have hsends := hi.complete_sends conf hmem hturn.1
      refine ⟨by rintro _ _ _ _ ⟨_, ⟨⟩, _⟩, fun i result' he => ?_, fun i f bytes h => ?_⟩
      · obtain ⟨rfl, rfl⟩ := MsgEvent.complete.inj he
        exact hsends
      · rw [hsends] at h
        cases hlatest : latestOpen s r with
        | none =>
          rw [hlatest] at h
          cases h
        | some fd =>
          rw [hlatest] at h
          obtain ⟨rfl, hrest⟩ := Prod.mk.inj (mem_singleton.mp h)
          cases hrest
          exact latestOpen_user hlatest
    · cases hstep

/-! ## The main result -/

/-- **Requests run once.** In every run whose requests come in turn, a duplicate of a request
that is outstanding calls no handler, and every response goes to the last connection that
asked for it and is open, which is one of its own user. -/
theorem requests_run_once (conf : MsgConf ν) (events : List MsgEvent)
    (h : (msgMachine conf).Each (fun s e _ => AsksInTurn conf s e) .init events) :
    (msgMachine conf).Each RunsOnce .init events := by
  refine Machine.each_of_guarded (I := MsgInv)
    (fun s e s' hi hturn hstep => ⟨hi.next hturn hstep, hi.runsOnce hturn hstep⟩) ?_ h
  obtain ⟨hn, hk⟩ : MsgNumbers (.init : MsgServer ν) ∧ CurrentKept (.init : MsgServer ν) :=
    init_kept
  refine ⟨hn, hk, nofun, nodup_nil, fun uid session r hget => ?_⟩
  nomatch hget

end Steps

theorem next_complete [LinearOrder ν] [Zero ν] (conf : MsgConf ν) (hr : r ∈ s.running)
    (result : Option Bytes) :
    (msgMachine conf).next s (.complete r result) = some (s.complete conf r result) :=
  if_pos hr

/-- A message that authenticates comes in turn if the user has no connection. -/
theorem asksInTurn_auth [LinearOrder ν] (hshake : s.handshake.get fd ≠ none)
    (hfree : ∀ u ∈ (s.doAuth conf msg).2, (s.users u.1).fd = none) :
    AsksInTurn conf s (.message fd msg) := by
  refine ⟨fun uid idx _ _ hok => hfree (uid, idx) (by simp [hok]), fun uid session r hreq => ?_⟩
  obtain ⟨_, he, -, hnone, -⟩ := hreq
  cases he
  exact absurd hnone hshake

/-- A request comes in turn if it has no record, or one that is done or of an earlier version. -/
theorem asksInTurn_request [LinearOrder ν] (hshake : s.handshake.get fd = none)
    (hturn : ∀ uid ∈ s.connection.get fd,
      ∀ r ∈ (s.users uid).response.get (leNat (msg.drop (msg.length - 4)).reverse),
        (s.records r).response = none → (s.records r).version ≠ some (s.users uid).version) :
    AsksInTurn conf s (.message fd msg) := by
  refine ⟨fun uid idx _ hsome => ?_, fun uid session r hreq hget => ?_⟩
  · rw [hshake] at hsome
    nomatch hsome
  · obtain ⟨_, he, -, -, hfd, -, rfl⟩ := hreq
    cases he
    exact hturn uid hfd r hget

/-- The user `u` asks on the connection 1, and again on the connection 2 while the handler
runs, which gets the response; and asks once more on the connection 3. -/
def askedAgain : List MsgEvent :=
  [.login [117] [], .connect 1 [], .message 1 [117, 58, 49, 58], .message 1 [0, 0, 0, 7],
    .closed 1, .connect 2 [], .message 2 [117, 58, 50, 58], .message 2 [0, 0, 0, 7],
    .complete 0 (some [9]), .closed 2, .connect 3 [], .message 3 [117, 58, 51, 58],
    .message 3 [0, 0, 0, 7]]

theorem requests_run_once_again : (msgMachine openConf).Each RunsOnce .init askedAgain := by
  refine requests_run_once openConf askedAgain ?_
  rintro _ ⟨⟩
  refine ⟨trivial, ?_⟩
  intro s₂ h₂
  obtain rfl := some.inj ((next_connect openConf (by decide) []).symm.trans h₂)
  refine ⟨trivial, ?_⟩
  rintro _ ⟨⟩
  refine ⟨asksInTurn_auth (by decide) (by decide), ?_⟩
  rintro _ ⟨⟩
  refine ⟨asksInTurn_request (by decide) (by decide), ?_⟩
  rintro _ ⟨⟩
  refine ⟨trivial, ?_⟩
  intro s₆ h₆
  obtain rfl := some.inj ((next_connect openConf (by decide) []).symm.trans h₆)
  refine ⟨trivial, ?_⟩
  rintro _ ⟨⟩
  refine ⟨asksInTurn_auth (by decide) (by decide), ?_⟩
  rintro _ ⟨⟩
  refine ⟨asksInTurn_request (by decide) (by decide), ?_⟩
  intro s₉ h₉
  obtain rfl := some.inj ((next_complete openConf (by decide) _).symm.trans h₉)
  refine ⟨⟨by unfold ResponseFits; decide, by decide⟩, ?_⟩
  rintro _ ⟨⟩
  refine ⟨trivial, ?_⟩
  intro s₁₁ h₁₁
  obtain rfl := some.inj ((next_connect openConf (by decide) []).symm.trans h₁₁)
  refine ⟨trivial, ?_⟩
  rintro _ ⟨⟩
  refine ⟨asksInTurn_auth (by decide) (by decide), ?_⟩
  rintro _ ⟨⟩
  exact ⟨asksInTurn_request (by decide) (by decide), trivial⟩

/-- The user `u` asks on the connection 1 and authenticates on the connection 2 while the
handler runs; the response is sent nowhere, and the user asks for it. -/
def reconnect : List MsgEvent :=
  [.login [117] [], .connect 1 [], .message 1 [117, 58, 49, 58], .message 1 [0, 0, 0, 7],
    .closed 1, .connect 2 [], .message 2 [117, 58, 50, 58], .complete 0 (some []),
    .message 2 [0, 0, 0, 7]]

/-- **A request that runs twice.** The record gets the version of the connection 2, where its
response was not sent, so the duplicate there is taken for a new request.
SRC: msgserver.lua:244-255, 265-271 -/
theorem reconnect_runs_twice : ¬(msgMachine openConf).Each RunsOnce .init reconnect := by
  intro heach
  obtain ⟨-, h₁⟩ := heach _ rfl
  obtain ⟨-, h₂⟩ := h₁ _ rfl
  obtain ⟨-, h₃⟩ := h₂ _ rfl
  obtain ⟨-, h₄⟩ := h₃ _ rfl
  obtain ⟨-, h₅⟩ := h₄ _ rfl
  obtain ⟨-, h₆⟩ := h₅ _ (next_connect openConf (by decide) [])
  obtain ⟨-, h₇⟩ := h₆ _ rfl
  obtain ⟨-, h₈⟩ := h₇ _ (next_complete openConf (by decide) (some []))
  obtain ⟨hruns, -⟩ := h₈ _ rfl
  have hcalls := (hruns.once 0 2 0 7 ⟨_, rfl, by decide, by decide, by decide, by decide,
    by decide⟩ ⟨by decide, by decide, .inr ⟨by decide, by decide, by decide⟩⟩).1
  revert hcalls
  decide

end Skynet.Analysis
