import Skynet.Model.MsgServer

/-!
# The connections of a user

A user has at most one connection that the tables of `msgserver` know as long as nobody
authenticates while the user's last connection is open: `do_auth` leaves the entry of that
one, and its end takes the user's connection away whichever that is.
-/

namespace Skynet.Analysis

open Library Model MsgServer Option List

variable {ν : Type} {conf : MsgConf ν} {s s' : MsgServer ν} {e : MsgEvent} {fd uid r : ℕ}

/-! ## What is to hold -/

def Online (s : MsgServer ν) (uid : ℕ) : Prop := ∃ username, s.userOnline.get username = some uid

/-- `u.fd` is the connection that the user authenticated last, as long as that is open, and
`connection[fd] = u` exactly for it. -/
structure CurrentKept (s : MsgServer ν) : Prop where
  current : ∀ uid, Online s uid → (s.users uid).fd = (s.users uid).last
  linked : ∀ fd uid, s.connection.get fd = some uid ↔ Online s uid ∧ (s.users uid).fd = some fd

def LiveConnection (s : MsgServer ν) (fd : ℕ) : Prop :=
  ∃ uid, Online s uid ∧ (s.users uid).last = some fd

def msgEffects (s s' : MsgServer ν) : List MsgEffect := s'.out.drop s.out.length

/-- What a step does: it keeps the connections of the users, it refuses no request that comes
on a live connection, and it sends the response of a call that returns on a live
connection. -/
structure ServesCurrent (s : MsgServer ν) (e : MsgEvent) (s' : MsgServer ν) : Prop where
  kept : CurrentKept s'
  served : ∀ fd ∈ s'.invalid.drop s.invalid.length, ¬LiveConnection s fd
  returned : ∀ r result fd, e = .complete r result → (s.records r).returnFd = some fd →
    LiveConnection s fd → ∃ bytes, .send (some r) fd bytes ∈ msgEffects s s'

def ResponseFits (s : MsgServer ν) (r : ℕ) (result : Option Bytes) : Prop :=
  (responseOf (s.records r).session result).length ≤ 0xffff

/-- Nobody authenticates for a user who has a connection, and a response that is to return on
a live connection is not too long. -/
def NoOverlap [LinearOrder ν] (conf : MsgConf ν) (s : MsgServer ν) : MsgEvent → Prop
  | .message fd msg => ∀ uid idx, s.gate.get fd = some true → (s.handshake.get fd).isSome →
    s.doAuth conf msg = (.ok, some (uid, idx)) → (s.users uid).fd = none
  | .complete r result => ∀ fd, (s.records r).returnFd = some fd → LiveConnection s fd →
    ResponseFits s r result
  | _ => True

/-! ## The numbers of users and connections -/

/-- Users have names of their own, and a connection is shaking hands or authenticated, not
both. -/
structure MsgNumbers (s : MsgServer ν) : Prop where
  names : ∀ username uid, s.userOnline.get username = some uid →
    uid < s.userCount ∧ (s.users uid).username = username
  authenticated : ∀ fd, s.connection.get fd ≠ none → fd ∈ s.opened ∧ s.handshake.get fd = none
  shaking : ∀ fd, s.handshake.get fd ≠ none → fd ∈ s.opened

structure SameConnections (s s' : MsgServer ν) : Prop where
  userOnline : s'.userOnline = s.userOnline
  handshake : s'.handshake = s.handshake
  connection : s'.connection = s.connection
  userCount : s'.userCount = s.userCount
  opened : s'.opened = s.opened
  invalid : s'.invalid = s.invalid
  user : ∀ uid, (s'.users uid).fd = (s.users uid).fd ∧ (s'.users uid).last = (s.users uid).last ∧
    (s'.users uid).username = (s.users uid).username ∧
    (s'.users uid).version = (s.users uid).version

namespace SameConnections

theorem refl (s : MsgServer ν) : SameConnections s s :=
  ⟨rfl, rfl, rfl, rfl, rfl, rfl, fun _ => ⟨rfl, rfl, rfl, rfl⟩⟩

theorem trans {s'' : MsgServer ν} (h₁ : SameConnections s s') (h₂ : SameConnections s' s'') :
    SameConnections s s'' where
  userOnline := h₂.userOnline.trans h₁.userOnline
  handshake := h₂.handshake.trans h₁.handshake
  connection := h₂.connection.trans h₁.connection
  userCount := h₂.userCount.trans h₁.userCount
  opened := h₂.opened.trans h₁.opened
  invalid := h₂.invalid.trans h₁.invalid
  user uid := by
    obtain ⟨hfd, hlast, hname, hversion⟩ := h₂.user uid
    obtain ⟨hfd', hlast', hname', hversion'⟩ := h₁.user uid
    exact ⟨hfd.trans hfd', hlast.trans hlast', hname.trans hname', hversion.trans hversion'⟩

theorem setUser (s : MsgServer ν) (uid index : ℕ) (response : Table ℕ ℕ) :
    SameConnections s (s.setUser uid
      { s.users uid with index := index, response := response }) := by
  refine ⟨rfl, rfl, rfl, rfl, rfl, rfl, fun i => ?_⟩
  by_cases hi : i = uid
  · simp [MsgServer.setUser, hi]
  · simp [MsgServer.setUser, hi]

theorem closeclient (s : MsgServer ν) (fd : ℕ) : SameConnections s (s.closeclient fd) := by
  unfold MsgServer.closeclient
  split <;> exact ⟨rfl, rfl, rfl, rfl, rfl, rfl, fun _ => ⟨rfl, rfl, rfl, rfl⟩⟩

theorem badRequest (s : MsgServer ν) (fd : ℕ) : SameConnections s (s.badRequest fd) := by
  unfold MsgServer.badRequest
  split
  · exact closeclient s fd
  · exact refl s

theorem retireResponse (conf : MsgConf ν) (s : MsgServer ν) (uid : ℕ) :
    SameConnections s (s.retireResponse conf uid) := by
  unfold MsgServer.retireResponse
  dsimp only
  split
  · refine ⟨rfl, rfl, rfl, rfl, rfl, rfl, fun i => ?_⟩
    by_cases hi : i = uid <;> simp [MsgServer.setUser, hi]
  · exact refl s

theorem sendResponse (conf : MsgConf ν) (s : MsgServer ν) (uid r : ℕ) :
    SameConnections s (s.sendResponse conf uid r) := by
  have hindex := setUser s uid ((s.users uid).index + 1) (s.users uid).response
  refine trans ?_ (retireResponse conf _ uid)
  split
  · exact hindex
  · split
    · exact hindex.trans ⟨rfl, rfl, rfl, rfl, rfl, rfl, fun _ => ⟨rfl, rfl, rfl, rfl⟩⟩
    · exact hindex.trans ⟨rfl, rfl, rfl, rfl, rfl, rfl, fun _ => ⟨rfl, rfl, rfl, rfl⟩⟩

theorem setRecord (s : MsgServer ν) (r : ℕ) (p : MsgRecord ν) :
    SameConnections s (s.setRecord r p) :=
  ⟨rfl, rfl, rfl, rfl, rfl, rfl, fun _ => ⟨rfl, rfl, rfl, rfl⟩⟩

theorem duplicate (conf : MsgConf ν) (s : MsgServer ν) (fd uid r : ℕ) :
    SameConnections s (s.duplicate conf fd uid r) := by
  unfold MsgServer.duplicate
  dsimp only
  split
  · exact setRecord s r _
  · exact (setRecord s r _).trans (sendResponse conf _ uid r)

theorem forgetSession (s : MsgServer ν) (uid session : ℕ) :
    SameConnections s (s.forgetSession uid session) :=
  setUser s uid (s.users uid).index _

theorem complete (conf : MsgConf ν) (s : MsgServer ν) (r : ℕ) (result : Option Bytes) :
    SameConnections s (s.complete conf r result) := by
  have hended : SameConnections s { s with running := s.running.erase r } :=
    ⟨rfl, rfl, rfl, rfl, rfl, rfl, fun _ => ⟨rfl, rfl, rfl, rfl⟩⟩
  unfold MsgServer.complete
  dsimp only
  split
  · exact hended.trans (badRequest _ _)
  · exact (hended.trans (setRecord _ r _)).trans (sendResponse conf _ _ r)

theorem callHandler [Zero ν] (s : MsgServer ν) (fd uid session : ℕ) (message : Bytes) :
    SameConnections s (s.callHandler fd uid session message) := by
  have hsame := setUser s uid (s.users uid).index
    ((s.users uid).response.put session (some s.recordCount))
  exact hsame.trans ⟨rfl, rfl, rfl, rfl, rfl, rfl, fun _ => ⟨rfl, rfl, rfl, rfl⟩⟩

theorem doRequest [LinearOrder ν] [Zero ν] (conf : MsgConf ν) (message : Bytes)
    (hfd : s.connection.get fd = some uid) : SameConnections s (s.doRequest conf fd message).1 := by
  unfold MsgServer.doRequest
  rw [hfd]
  dsimp only
  split
  · exact refl s
  · split
    · exact callHandler s _ _ _ _
    · split
      · split
        · exact forgetSession s _ _
        · exact (forgetSession s _ _).trans (callHandler _ _ _ _ _)
      · exact duplicate conf s _ _ _

theorem request [LinearOrder ν] [Zero ν] (conf : MsgConf ν) (message : Bytes)
    (hfd : s.connection.get fd = some uid) : SameConnections s (s.request conf fd message) := by
  have hsame := doRequest conf message hfd
  unfold MsgServer.request
  dsimp only
  split
  · exact hsame
  · exact hsame.trans (badRequest _ fd)

variable (h : SameConnections s s')
include h

theorem online (uid : ℕ) : Online s' uid ↔ Online s uid := by
  rw [Online, h.userOnline]
  rfl

theorem kept : CurrentKept s' ↔ CurrentKept s := by
  have hcurrent : ∀ uid, (s'.users uid).fd = (s'.users uid).last ↔
      (s.users uid).fd = (s.users uid).last := by
    intro uid
    rw [(h.user uid).1, (h.user uid).2.1]
  have hlinked : ∀ fd uid, (s'.connection.get fd = some uid ↔
      Online s' uid ∧ (s'.users uid).fd = some fd) ↔
      (s.connection.get fd = some uid ↔ Online s uid ∧ (s.users uid).fd = some fd) := by
    intro fd uid
    rw [h.connection, h.online, (h.user uid).1]
  constructor
  · exact fun hk => ⟨fun uid hu => (hcurrent uid).mp (hk.current uid ((h.online uid).mpr hu)),
      fun fd uid => (hlinked fd uid).mp (hk.linked fd uid)⟩
  · exact fun hk => ⟨fun uid hu => (hcurrent uid).mpr (hk.current uid ((h.online uid).mp hu)),
      fun fd uid => (hlinked fd uid).mpr (hk.linked fd uid)⟩

theorem numbers (hn : MsgNumbers s) : MsgNumbers s' where
  names username uid hu := by
    rw [h.userOnline] at hu
    rw [h.userCount, (h.user uid).2.2.1]
    exact hn.names username uid hu
  authenticated fd := by
    rw [h.connection, h.opened, h.handshake]
    exact hn.authenticated fd
  shaking fd := by
    rw [h.handshake, h.opened]
    exact hn.shaking fd

end SameConnections

/-! ## Users that come and go -/

section Users

variable [Zero ν]

theorem online_login {username secret : Bytes} (hfree : s.userOnline.get username = none) :
    Online (s.login username secret) uid ↔ Online s uid ∨ uid = s.userCount := by
  have hget : ∀ name, (s.login username secret).userOnline.get name =
      if name = username then some s.userCount else s.userOnline.get name := by
    intro name
    rw [login, if_neg (by simp [hfree])]
    exact Table.get_put _ _ _ _
  constructor
  · rintro ⟨name, hname⟩
    rw [hget] at hname
    split at hname
    · exact .inr (some.inj hname).symm
    · exact .inl ⟨name, hname⟩
  · rintro (⟨name, hname⟩ | rfl)
    · refine ⟨name, ?_⟩
      rw [hget, if_neg ?_, hname]
      rintro rfl
      rw [hfree] at hname
      nomatch hname
    · exact ⟨username, (hget username).trans (if_pos rfl)⟩

theorem login_self {username : Bytes} (h : (s.userOnline.get username).isSome)
    (secret : Bytes) : s.login username secret = s := if_pos h

theorem users_login {username : Bytes} (hne : uid ≠ s.userCount) (secret : Bytes) :
    (s.login username secret).users uid = s.users uid := by
  unfold login
  split
  · rfl
  · simp [setUser, hne]

theorem MsgNumbers.login (hn : MsgNumbers s) (username secret : Bytes) :
    MsgNumbers (s.login username secret) := by
  cases hfree : s.userOnline.get username with
  | some uid =>
    rw [login_self (by simp [hfree])]
    exact hn
  | none =>
    have hlogin : s.login username secret = _ := if_neg (by simp [hfree])
    refine ⟨fun name uid hget => ?_, ?_, ?_⟩
    · rw [hlogin] at hget ⊢
      rw [Table.get_put] at hget
      split at hget
      · next hname =>
        cases hget
        exact ⟨Nat.lt_succ_self _, by simp [setUser, hname]⟩
      · obtain ⟨hlt, hname⟩ := hn.names name uid hget
        exact ⟨Nat.lt_succ_of_lt hlt, by simp [setUser, Nat.ne_of_lt hlt, hname]⟩
    · rw [hlogin]
      exact hn.authenticated
    · rw [hlogin]
      exact hn.shaking

theorem CurrentKept.login (hk : CurrentKept s) (hn : MsgNumbers s) (username secret : Bytes) :
    CurrentKept (s.login username secret) := by
  cases hfree : s.userOnline.get username with
  | some uid =>
    rw [login_self (by simp [hfree])]
    exact hk
  | none =>
    have hold : ∀ {uid}, Online s uid → uid ≠ s.userCount := by
      rintro uid ⟨name, hname⟩ rfl
      exact Nat.lt_irrefl _ (hn.names name _ hname).1
    have hconnection : (s.login username secret).connection = s.connection := by
      rw [MsgServer.login, if_neg (by simp [hfree])]
      rfl
    have hnew : ((s.login username secret).users s.userCount).fd = none ∧
        ((s.login username secret).users s.userCount).last = none := by
      rw [MsgServer.login, if_neg (by simp [hfree])]
      simp [setUser, noUser]
    refine ⟨fun uid hu => ?_, fun fd uid => ?_⟩
    · rcases (online_login hfree).mp hu with hu | rfl
      · rw [users_login (hold hu)]
        exact hk.current uid hu
      · rw [hnew.1, hnew.2]
    · rw [hconnection, hk.linked, online_login hfree]
      by_cases hu : uid = s.userCount
      · refine iff_of_false (fun h => hold h.1 hu) fun h => ?_
        rw [hu, hnew.1] at h
        nomatch h.2
      · rw [users_login hu]
        simp [hu]

end Users

theorem logout_cases (s : MsgServer ν) (username : Bytes) :
    s.userOnline.get username = none ∧ s.logout username = s ∨
      ∃ uid, s.userOnline.get username = some uid ∧
        (s.logout username).userOnline = s.userOnline.put username none ∧
        (s.logout username).users = s.users ∧ (s.logout username).userCount = s.userCount ∧
        (s.logout username).handshake = s.handshake ∧ (s.logout username).opened = s.opened ∧
        (s.logout username).records = s.records ∧
        (s.logout username).recordCount = s.recordCount ∧
        (s.logout username).running = s.running ∧
        (s.logout username).connection =
          match (s.users uid).fd with
          | none => s.connection
          | some fd => s.connection.put fd none := by
  unfold logout
  split
  · next hnone => exact .inl ⟨hnone, rfl⟩
  · next uid hsome =>
    refine .inr ⟨uid, hsome, ?_⟩
    dsimp only
    cases hfd : (s.users uid).fd with
    | none => exact ⟨rfl, rfl, rfl, rfl, rfl, rfl, rfl, rfl, rfl⟩
    | some fd =>
      unfold closeclient
      dsimp only
      split <;> exact ⟨rfl, rfl, rfl, rfl, rfl, rfl, rfl, rfl, rfl⟩

theorem online_logout (hn : MsgNumbers s) {username : Bytes} {u : ℕ}
    (hu : s.userOnline.get username = some u)
    (htable : s'.userOnline = s.userOnline.put username none) :
    Online s' uid ↔ Online s uid ∧ uid ≠ u := by
  have hget : ∀ name, s'.userOnline.get name =
      if name = username then none else s.userOnline.get name := by
    intro name
    rw [htable]
    exact Table.get_put _ _ _ _
  constructor
  · rintro ⟨name, hname⟩
    rw [hget] at hname
    split at hname
    · nomatch hname
    · next hne =>
      refine ⟨⟨name, hname⟩, ?_⟩
      rintro rfl
      exact hne ((hn.names name _ hname).2.symm.trans (hn.names username _ hu).2)
  · rintro ⟨⟨name, hname⟩, hne⟩
    refine ⟨name, ?_⟩
    rw [hget, if_neg ?_, hname]
    rintro rfl
    rw [hu] at hname
    exact hne (some.inj hname).symm

theorem MsgNumbers.logout (hn : MsgNumbers s) (username : Bytes) :
    MsgNumbers (s.logout username) := by
  rcases logout_cases s username with ⟨-, hsame⟩ |
    ⟨uid, hu, honline, husers, hcount, hhandshake, hopened, -, -, -, hconnection⟩
  · rw [hsame]
    exact hn
  · refine ⟨fun name uid hget => ?_, fun fd hne => ?_, fun fd => ?_⟩
    · rw [honline, Table.get_put] at hget
      rw [husers, hcount]
      split at hget
      · nomatch hget
      · exact hn.names name uid hget
    · rw [hopened, hhandshake]
      refine hn.authenticated fd fun hnone => hne ?_
      rw [hconnection]
      split
      · exact hnone
      · rw [Table.get_put, hnone]
        split <;> rfl
    · rw [hopened, hhandshake]
      exact hn.shaking fd

theorem CurrentKept.logout (hk : CurrentKept s) (hn : MsgNumbers s) (username : Bytes) :
    CurrentKept (s.logout username) := by
  rcases logout_cases s username with ⟨-, hsame⟩ |
    ⟨u, hu, honline, husers, -, -, -, -, -, -, hconnection⟩
  · rw [hsame]
    exact hk
  · refine ⟨fun uid hon => ?_, fun fd uid => ?_⟩
    · rw [husers]
      exact hk.current uid ((online_logout hn hu honline).mp hon).1
    · rw [online_logout hn hu honline, husers, hconnection]
      cases hfd : (s.users u).fd with
      | none =>
        rw [hk.linked]
        constructor
        · rintro ⟨hon, hset⟩
          refine ⟨⟨hon, ?_⟩, hset⟩
          rintro rfl
          rw [hfd] at hset
          nomatch hset
        · exact fun ⟨⟨hon, _⟩, hset⟩ => ⟨hon, hset⟩
      | some old =>
        rw [Table.get_put]
        have hold : s.connection.get old = some u := (hk.linked old u).mpr ⟨⟨username, hu⟩, hfd⟩
        by_cases hsame : fd = old
        · rw [if_pos hsame]
          refine iff_of_false nofun fun ⟨⟨hon, hne⟩, hset⟩ => hne ?_
          have hother := (hk.linked fd uid).mpr ⟨hon, hset⟩
          rw [hsame, hold] at hother
          exact (some.inj hother).symm
        · rw [if_neg hsame, hk.linked]
          constructor
          · rintro ⟨hon, hset⟩
            refine ⟨⟨hon, ?_⟩, hset⟩
            rintro rfl
            rw [hfd] at hset
            exact hsame (some.inj hset).symm
          · exact fun ⟨⟨hon, _⟩, hset⟩ => ⟨hon, hset⟩

/-! ## Connections that come and go -/

theorem MsgNumbers.connect (hn : MsgNumbers s) (hnew : fd ∉ s.opened) (addr : Bytes) :
    MsgNumbers (s.connect fd addr) := by
  have hget : ∀ i, (s.connect fd addr).handshake.get i =
      if i = fd then some addr else s.handshake.get i := fun i => Table.get_put _ _ _ _
  refine ⟨hn.names, fun i hi => ?_, fun i hi => ?_⟩
  · obtain ⟨hopened, hnone⟩ := hn.authenticated i hi
    refine ⟨mem_append_left _ hopened, ?_⟩
    rw [hget, if_neg ?_, hnone]
    rintro rfl
    exact hnew hopened
  · rw [hget] at hi
    refine mem_append.mpr ?_
    split at hi
    · next hsame => exact .inr (mem_singleton.mpr hsame)
    · exact .inl (hn.shaking i hi)

theorem kept_connect (addr : Bytes) : CurrentKept (s.connect fd addr) ↔ CurrentKept s :=
  ⟨fun ⟨h₁, h₂⟩ => ⟨h₁, h₂⟩, fun ⟨h₁, h₂⟩ => ⟨h₁, h₂⟩⟩

theorem disconnect_cases (s : MsgServer ν) (fd : ℕ) :
    s.connection.get fd = none ∧
        s.disconnect fd = { s with handshake := s.handshake.put fd none }.forget fd ∨
      ∃ u t, s.connection.get fd = some u ∧
        t = { s with handshake := s.handshake.put fd none }.forget fd ∧
        s.disconnect fd = { t.setUser u { t.users u with fd := none } with
          connection := s.connection.put fd none } := by
  unfold MsgServer.disconnect
  dsimp only
  split
  · next hnone => exact .inl ⟨hnone, rfl⟩
  · next u hsome => exact .inr ⟨u, _, hsome, rfl, rfl⟩

theorem users_disconnect (s : MsgServer ν) (fd uid : ℕ) :
    ((s.disconnect fd).users uid).fd =
        (if s.connection.get fd = some uid then none else (s.users uid).fd) ∧
      ((s.disconnect fd).users uid).last =
        (if (s.users uid).last = some fd then none else (s.users uid).last) ∧
      ((s.disconnect fd).users uid).username = (s.users uid).username ∧
      ((s.disconnect fd).users uid).version = (s.users uid).version ∧
      ((s.disconnect fd).users uid).response = (s.users uid).response := by
  have hforget : ∀ t : MsgServer ν, t.users = s.users →
      ((t.forget fd).users uid).fd = (s.users uid).fd ∧
      ((t.forget fd).users uid).last =
        (if (s.users uid).last = some fd then none else (s.users uid).last) ∧
      ((t.forget fd).users uid).username = (s.users uid).username ∧
      ((t.forget fd).users uid).version = (s.users uid).version ∧
      ((t.forget fd).users uid).response = (s.users uid).response := by
    intro t ht
    unfold forget
    rw [ht]
    dsimp only
    split <;> exact ⟨rfl, rfl, rfl, rfl, rfl⟩
  obtain ⟨hfd, hlast, hname, hversion, hresponse⟩ :=
    hforget { s with handshake := s.handshake.put fd none } rfl
  rcases disconnect_cases s fd with ⟨hnone, heq⟩ | ⟨u, t, hsome, rfl, heq⟩
  · rw [heq, hnone, if_neg nofun]
    exact ⟨hfd, hlast, hname, hversion, hresponse⟩
  · rw [heq, hsome]
    by_cases hu : uid = u
    · simp only [setUser, hu, if_true]
      exact ⟨trivial, hu ▸ hlast, hu ▸ hname, hu ▸ hversion, hu ▸ hresponse⟩
    · have hne : ¬(some u = some uid) := fun h => hu (some.inj h).symm
      simp only [setUser, hu, if_false, hne]
      exact ⟨hfd, hlast, hname, hversion, hresponse⟩

theorem tables_disconnect (s : MsgServer ν) (fd : ℕ) :
    (s.disconnect fd).userOnline = s.userOnline ∧
      (s.disconnect fd).handshake = s.handshake.put fd none ∧
      (∀ i, (s.disconnect fd).connection.get i = if i = fd then none else s.connection.get i) ∧
      (s.disconnect fd).userCount = s.userCount ∧ (s.disconnect fd).opened = s.opened ∧
      (s.disconnect fd).invalid = s.invalid := by
  unfold MsgServer.disconnect
  dsimp only
  split
  · next hnone =>
    refine ⟨rfl, rfl, fun i => ?_, rfl, rfl, rfl⟩
    split
    · next hi => exact hi ▸ hnone
    · rfl
  · exact ⟨rfl, rfl, fun i => Table.get_put _ _ _ _, rfl, rfl, rfl⟩

theorem MsgNumbers.disconnect (hn : MsgNumbers s) (fd : ℕ) : MsgNumbers (s.disconnect fd) := by
  obtain ⟨honline, hhandshake, hconnection, hcount, hopened, -⟩ := tables_disconnect s fd
  refine ⟨fun name uid hget => ?_, fun i hi => ?_, fun i hi => ?_⟩
  · rw [honline] at hget
    rw [hcount, (users_disconnect s fd uid).2.2.1]
    exact hn.names name uid hget
  · rw [hconnection] at hi
    rw [hopened, hhandshake, Table.get_put]
    by_cases hsame : i = fd
    · exact absurd (if_pos hsame) hi
    · rw [if_neg hsame] at hi ⊢
      exact hn.authenticated i hi
  · rw [hhandshake, Table.get_put] at hi
    rw [hopened]
    by_cases hsame : i = fd
    · exact absurd (if_pos hsame) hi
    · rw [if_neg hsame] at hi
      exact hn.shaking i hi

theorem CurrentKept.disconnect (hk : CurrentKept s) (fd : ℕ) : CurrentKept (s.disconnect fd) := by
  obtain ⟨honline, -, hconnection, -⟩ := tables_disconnect s fd
  have hon : ∀ uid, Online (s.disconnect fd) uid ↔ Online s uid := by
    intro uid
    rw [Online, honline]
    rfl
  -- The users whose connection it was are those that lose it.
  have hlost : ∀ uid, Online s uid →
      (s.connection.get fd = some uid ↔ (s.users uid).fd = some fd) :=
    fun uid hu => (hk.linked fd uid).trans (and_iff_right hu)
  refine ⟨fun uid hu => ?_, fun i uid => ?_⟩
  · have hold := (hon uid).mp hu
    obtain ⟨hfd, hlast, -⟩ := users_disconnect s fd uid
    rw [hfd, hlast, ← hk.current uid hold]
    simp only [hlost uid hold]
  · rw [hon, hconnection, (users_disconnect s fd uid).1]
    by_cases hi : i = fd
    · rw [if_pos hi, hi]
      refine iff_of_false nofun fun ⟨hu, hset⟩ => ?_
      split at hset
      · nomatch hset
      · next hne => exact hne ((hk.linked fd uid).mpr ⟨hu, hset⟩)
    · rw [if_neg hi, hk.linked]
      refine and_congr_right fun hu => ?_
      split
      · next hsome =>
        refine iff_of_false (fun hset => hi ?_) nofun
        rw [(hk.linked fd uid).mp hsome |>.2] at hset
        exact (some.inj hset).symm
      · exact Iff.rfl

theorem closed_eq (s : MsgServer ν) (fd : ℕ) : ∃ gate, s.closed fd =
    { s with gate := gate }.disconnect fd := by
  unfold MsgServer.closed
  split
  · exact ⟨_, rfl⟩
  · exact ⟨s.gate, rfl⟩

/-! ## Connections that authenticate -/

section Auth

variable [LinearOrder ν]

theorem doAuth_cases (conf : MsgConf ν) (s : MsgServer ν) (msg : Bytes) :
    (s.doAuth conf msg).1 ≠ .ok ∧ (s.doAuth conf msg).2 = none ∨
      ∃ uid idx, s.doAuth conf msg = (.ok, some (uid, idx)) ∧ Online s uid ∧
        (s.users uid).version < idx := by
  unfold doAuth
  split
  · exact .inl ⟨nofun, rfl⟩
  · next username index hmac _ =>
    split
    · exact .inl ⟨nofun, rfl⟩
    · next uid hu =>
      split
      · next idx _ _ _ =>
        split
        · exact .inl ⟨nofun, rfl⟩
        · next hlt =>
          split
          · exact .inl ⟨nofun, rfl⟩
          · exact .inr ⟨uid, idx, rfl, ⟨username, hu⟩, not_le.mp hlt⟩
      · exact .inl ⟨nofun, rfl⟩

theorem auth_cases (conf : MsgConf ν) (s : MsgServer ν) (fd : ℕ) (addr msg : Bytes) :
    (∀ user, s.doAuth conf msg ≠ (.ok, user)) ∧ SameConnections s (s.auth conf fd addr msg) ∨
      ∃ uid idx, s.doAuth conf msg = (.ok, some (uid, idx)) ∧ Online s uid ∧
        (s.users uid).version < idx ∧ s.auth conf fd addr msg =
          (s.accept fd addr uid idx).emit (.send none fd (netpack AuthResult.ok.text)) := by
  rcases doAuth_cases conf s msg with ⟨hbad, hnone⟩ | ⟨uid, idx, hok, hon, hlt⟩
  · refine .inl ⟨fun user heq => hbad (by rw [heq]), ?_⟩
    unfold MsgServer.auth
    dsimp only
    rw [hnone, if_neg hbad]
    refine SameConnections.trans ?_ (.closeclient _ fd)
    exact ⟨rfl, rfl, rfl, rfl, rfl, rfl, fun _ => ⟨rfl, rfl, rfl, rfl⟩⟩
  · refine .inr ⟨uid, idx, hok, hon, hlt, ?_⟩
    unfold MsgServer.auth
    rw [hok]
    rfl

end Auth

theorem users_accept (s : MsgServer ν) (fd : ℕ) (addr : Bytes) (uid : ℕ) (idx : ν) (i : ℕ) :
    (s.accept fd addr uid idx).users i =
      if i = uid then
        { s.users uid with version := idx, fd := some fd, ip := addr, last := some fd }
      else s.users i := rfl

theorem get_accept (s : MsgServer ν) (fd : ℕ) (addr : Bytes) (uid : ℕ) (idx : ν) (i : ℕ) :
    (s.accept fd addr uid idx).connection.get i =
      if i = fd then some uid else s.connection.get i := Table.get_put _ _ _ _

theorem kept_accept_iff (hk : CurrentKept s) (hfree : s.connection.get fd = none)
    (hon : Online s uid) (addr : Bytes) (idx : ν) :
    CurrentKept (s.accept fd addr uid idx) ↔ (s.users uid).fd = none := by
  constructor
  · intro hk'
    by_contra hsome
    obtain ⟨old, hold⟩ := ne_none_iff_exists'.mp hsome
    have hlink := (hk.linked old uid).mpr ⟨hon, hold⟩
    have hne : old ≠ fd := by
      rintro rfl
      rw [hfree] at hlink
      nomatch hlink
    have hlink' : (s.accept fd addr uid idx).connection.get old = some uid := by
      rw [get_accept, if_neg hne]
      exact hlink
    have hset := ((hk'.linked old uid).mp hlink').2
    rw [users_accept, if_pos rfl] at hset
    exact hne (some.inj hset).symm
  · intro hnone
    refine ⟨fun i hi => ?_, fun i u => ?_⟩
    · rw [users_accept]
      split
      · rfl
      · exact hk.current i hi
    · rw [get_accept, users_accept]
      change _ ↔ Online s u ∧ _
      by_cases hi : i = fd <;> by_cases hu : u = uid
      · simp [hi, hu, hon]
      · rw [if_pos hi, if_neg hu]
        refine iff_of_false (fun h => hu (some.inj h).symm) fun h => ?_
        rw [hi, ← hk.linked, hfree] at h
        nomatch h
      · rw [if_neg hi, if_pos hu, hu, hk.linked, hnone]
        exact iff_of_false (fun h => nomatch h.2) fun h => hi (some.inj h.2).symm
      · rw [if_neg hi, if_neg hu]
        exact hk.linked i u

/-! ## Messages -/

section Messages

variable [LinearOrder ν] [Zero ν]

/-- What a message on a connection comes to: it is dropped, it is a handshake, or it is a
request, on a connection that is authenticated or on one that is not. -/
theorem message_cases (conf : MsgConf ν) (s : MsgServer ν) (fd : ℕ) (msg : Bytes) :
    s.message conf fd msg = s ∨
    (∃ addr, s.gate.get fd = some true ∧ s.handshake.get fd = some addr ∧
      s.message conf fd msg = { s.auth conf fd addr msg with
        handshake := (s.auth conf fd addr msg).handshake.put fd none }) ∨
    (s.gate.get fd = some true ∧ s.handshake.get fd = none ∧
      ((∃ uid, s.connection.get fd = some uid ∧ s.message conf fd msg = s.request conf fd msg) ∨
        s.connection.get fd = none ∧
          s.message conf fd msg = { s with invalid := s.invalid ++ [fd] })) := by
  unfold MsgServer.message
  split
  · next hgate =>
    split
    · next addr haddr => exact .inr (.inl ⟨addr, hgate, haddr, rfl⟩)
    · next hnone =>
      refine .inr (.inr ⟨hgate, hnone, ?_⟩)
      cases hfd : s.connection.get fd with
      | some uid => exact .inl ⟨uid, rfl, rfl⟩
      | none =>
        simp [MsgServer.request, MsgServer.doRequest, MsgServer.badRequest, hfd]
  · exact .inl rfl

theorem MsgNumbers.message (hn : MsgNumbers s) (conf : MsgConf ν) (fd : ℕ) (msg : Bytes) :
    MsgNumbers (s.message conf fd msg) := by
  have hclear : ∀ {t : MsgServer ν}, t.userOnline = s.userOnline → t.userCount = s.userCount →
      (∀ uid, (t.users uid).username = (s.users uid).username) → t.handshake = s.handshake →
      t.opened = s.opened → (∀ i, i ≠ fd → t.connection.get i = s.connection.get i) →
      s.handshake.get fd ≠ none →
      MsgNumbers { t with handshake := t.handshake.put fd none } := by
    intro t honline hcount hnames hhandshake hopened hconnection hshaking
    refine ⟨fun name uid hget => ?_, fun i hi => ?_, fun i hi => ?_⟩
    · rw [honline] at hget
      rw [hcount, hnames]
      exact hn.names name uid hget
    · dsimp only at hi ⊢
      rw [hopened, hhandshake, Table.get_put]
      by_cases hsame : i = fd
      · exact ⟨hsame ▸ hn.shaking fd hshaking, if_pos hsame⟩
      · rw [if_neg hsame]
        rw [hconnection i hsame] at hi
        exact hn.authenticated i hi
    · dsimp only at hi ⊢
      rw [hhandshake, Table.get_put] at hi
      rw [hopened]
      by_cases hsame : i = fd
      · exact absurd (if_pos hsame) hi
      · rw [if_neg hsame] at hi
        exact hn.shaking i hi
  rcases message_cases conf s fd msg with heq | ⟨addr, -, haddr, heq⟩ |
    ⟨-, -, ⟨uid, hfd, heq⟩ | ⟨-, heq⟩⟩ <;> rw [heq]
  · exact hn
  · have hshaking : s.handshake.get fd ≠ none := by
      rw [haddr]
      nofun
    rcases auth_cases conf s fd addr msg with ⟨-, hsame⟩ | ⟨uid, idx, -, -, -, hauth⟩
    · exact hclear hsame.userOnline hsame.userCount (fun uid => (hsame.user uid).2.2.1)
        hsame.handshake hsame.opened (fun i _ => by rw [hsame.connection]) hshaking
    · rw [hauth]
      refine hclear rfl rfl (fun i => ?_) rfl rfl (fun i hi => ?_) hshaking
      · change ((s.accept fd addr uid idx).users i).username = _
        rw [users_accept]
        split
        · next hi => rw [hi]
        · rfl
      · exact (get_accept s fd addr uid idx i).trans (if_neg hi)
  · exact (SameConnections.request conf msg hfd).numbers hn
  · exact ⟨hn.names, hn.authenticated, hn.shaking⟩

theorem MsgNumbers.next (hn : MsgNumbers s) (hstep : s.next conf e = some s') : MsgNumbers s' := by
  cases e with
  | login username secret => exact some.inj hstep ▸ hn.login username secret
  | logout username => exact some.inj hstep ▸ hn.logout username
  | connect fd addr =>
    simp only [MsgServer.next] at hstep
    split at hstep
    · nomatch hstep
    · next hnew => exact some.inj hstep ▸ hn.connect hnew addr
  | message fd msg => exact some.inj hstep ▸ hn.message conf fd msg
  | closed fd =>
    rw [← some.inj hstep]
    obtain ⟨gate, heq⟩ := closed_eq s fd
    rw [heq]
    have hgate : MsgNumbers { s with gate := gate } := ⟨hn.names, hn.authenticated, hn.shaking⟩
    exact hgate.disconnect fd
  | failed fd => exact some.inj hstep ▸ hn.disconnect fd
  | complete r result =>
    simp only [MsgServer.next] at hstep
    split at hstep
    · exact some.inj hstep ▸ (SameConnections.complete conf s r result).numbers hn
    · nomatch hstep

/-- A message keeps the connections exactly where it is not the handshake of a user who has
a connection. -/
theorem kept_message_iff (hn : MsgNumbers s) (hk : CurrentKept s) (conf : MsgConf ν) (fd : ℕ)
    (msg : Bytes) : CurrentKept (s.message conf fd msg) ↔ NoOverlap conf s (.message fd msg) := by
  have hclear : ∀ {t : MsgServer ν} {handshake : Table ℕ Bytes},
      CurrentKept { t with handshake := handshake } ↔ CurrentKept t :=
    ⟨fun ⟨h₁, h₂⟩ => ⟨h₁, h₂⟩, fun ⟨h₁, h₂⟩ => ⟨h₁, h₂⟩⟩
  by_cases hshake : s.gate.get fd = some true ∧ (s.handshake.get fd).isSome
  · obtain ⟨addr, haddr⟩ := isSome_iff_exists.mp hshake.2
    have heq : s.message conf fd msg = { s.auth conf fd addr msg with
        handshake := (s.auth conf fd addr msg).handshake.put fd none } := by
      unfold MsgServer.message
      rw [if_pos hshake.1, haddr]
    rw [heq, hclear]
    rcases auth_cases conf s fd addr msg with ⟨hbad, hsame⟩ | ⟨uid, idx, hok, hon, -, hauth⟩
    · exact iff_of_true (hsame.kept.mpr hk) fun uid idx _ _ hok => absurd hok (hbad _)
    · have hfree : s.connection.get fd = none := by
        by_contra hsome
        have hnone := (hn.authenticated fd hsome).2
        rw [haddr] at hnone
        nomatch hnone
      have hemit : CurrentKept (s.auth conf fd addr msg) ↔
          CurrentKept (s.accept fd addr uid idx) := by
        rw [hauth]
        exact ⟨fun ⟨h₁, h₂⟩ => ⟨h₁, h₂⟩, fun ⟨h₁, h₂⟩ => ⟨h₁, h₂⟩⟩
      rw [hemit, kept_accept_iff hk hfree hon]
      constructor
      · intro hnone uid' idx' _ _ hok'
        rw [hok] at hok'
        have huid : uid = uid' := congrArg Prod.fst (some.inj (congrArg Prod.snd hok'))
        rwa [← huid]
      · exact fun h => h uid idx hshake.1 hshake.2 hok
  · refine iff_of_true ?_ fun uid idx hgate hsome _ => absurd ⟨hgate, hsome⟩ hshake
    rcases message_cases conf s fd msg with heq | ⟨addr, hgate, haddr, -⟩ |
      ⟨-, -, ⟨uid, hfd, heq⟩ | ⟨-, heq⟩⟩
    · rw [heq]
      exact hk
    · exact absurd ⟨hgate, by rw [haddr]; rfl⟩ hshake
    · rw [heq]
      exact (SameConnections.request conf msg hfd).kept.mpr hk
    · rw [heq]
      exact ⟨hk.current, hk.linked⟩

end Messages

/-! ## Effects -/

theorem out_retireResponse (conf : MsgConf ν) (s : MsgServer ν) (uid : ℕ) :
    (s.retireResponse conf uid).out = s.out := by
  unfold retireResponse
  dsimp only
  split <;> rfl

/-- The response goes to the connection that it is to return on, if that is
authenticated. -/
theorem out_sendResponse (conf : MsgConf ν) (s : MsgServer ν) (uid r : ℕ) :
    (s.sendResponse conf uid r).out =
      match (s.records r).returnFd with
      | none => s.out
      | some fd =>
        if (s.connection.get fd).isSome then
          s.out ++ [.send (some r) fd ((s.records r).response.getD [])]
        else s.out := by
  unfold sendResponse
  rw [out_retireResponse]
  split
  · next hnone => rw [show (s.records r).returnFd = none from hnone]; rfl
  · next fd hsome =>
    rw [show (s.records r).returnFd = some fd from hsome]
    dsimp only
    split
    · next hopen => rw [if_pos (by exact hopen)]; rfl
    · next hopen => rw [if_neg (by exact hopen)]; rfl

theorem out_closeclient (s : MsgServer ν) (fd : ℕ) :
    (s.closeclient fd).out = s.out ∨ (s.closeclient fd).out = s.out ++ [.close fd] := by
  unfold closeclient
  split
  · exact .inl rfl
  · exact .inr rfl

theorem complete_sends_iff (conf : MsgConf ν) (result : Option Bytes)
    (hreturn : (s.records r).returnFd = some fd) (hopen : (s.connection.get fd).isSome) :
    (∃ bytes, .send (some r) fd bytes ∈ msgEffects s (s.complete conf r result)) ↔
      ResponseFits s r result := by
  unfold ResponseFits MsgServer.complete msgEffects
  dsimp only
  split
  · next hlong =>
    refine iff_of_false ?_ (Nat.not_le.mpr hlong)
    rintro ⟨bytes, hmem⟩
    unfold badRequest at hmem
    split at hmem
    · rcases out_closeclient { s with running := s.running.erase r } (s.records r).origin with
        hout | hout <;> rw [hout] at hmem <;> simp at hmem
    · simp at hmem
  · next hshort =>
    refine iff_of_true ?_ (Nat.not_lt.mp hshort)
    rw [out_sendResponse]
    simp only [setRecord, if_true, hreturn, hopen]
    refine ⟨packI 2 (responseOf (s.records r).session result).length ++
      responseOf (s.records r).session result, ?_⟩
    rw [drop_left]
    exact mem_singleton_self _

/-! ## Steps -/

theorem CurrentKept.live (hk : CurrentKept s) (hlive : LiveConnection s fd) :
    (s.connection.get fd).isSome := by
  obtain ⟨uid, hon, hlast⟩ := hlive
  rw [(hk.linked fd uid).mpr ⟨hon, (hk.current uid hon).trans hlast⟩]
  rfl

theorem init_kept [Zero ν] :
    MsgNumbers (.init : MsgServer ν) ∧ CurrentKept (.init : MsgServer ν) := by
  refine ⟨⟨fun name uid h => ?_, fun fd h => absurd (Table.get_empty fd) h,
    fun fd h => absurd (Table.get_empty fd) h⟩, fun uid hon => ?_, fun fd uid => ?_⟩
  · nomatch h
  · obtain ⟨name, hname⟩ := hon
    nomatch hname
  · refine iff_of_false (fun h => ?_) fun ⟨⟨name, hname⟩, _⟩ => ?_
    · nomatch h
    · nomatch hname

section Steps

variable [LinearOrder ν] [Zero ν]

theorem invalid_next (hstep : s.next conf e = some s') :
    s'.invalid = s.invalid ∨ ∃ fd, s.connection.get fd = none ∧ s'.invalid = s.invalid ++ [fd] := by
  cases e with
  | login username secret =>
    rw [← some.inj hstep]
    unfold MsgServer.login
    split <;> exact .inl rfl
  | logout username =>
    rw [← some.inj hstep]
    unfold MsgServer.logout
    split
    · exact .inl rfl
    · dsimp only
      split
      · exact .inl rfl
      · exact .inl (SameConnections.closeclient _ _).invalid
  | connect fd addr =>
    simp only [MsgServer.next] at hstep
    split at hstep
    · nomatch hstep
    · rw [← some.inj hstep]
      exact .inl rfl
  | message fd msg =>
    rw [← some.inj hstep]
    rcases message_cases conf s fd msg with heq | ⟨addr, -, -, heq⟩ |
      ⟨-, -, ⟨uid, hfd, heq⟩ | ⟨hnone, heq⟩⟩ <;> rw [heq]
    · exact .inl rfl
    · rcases auth_cases conf s fd addr msg with ⟨-, hsame⟩ | ⟨uid, idx, -, -, -, hauth⟩
      · exact .inl hsame.invalid
      · rw [hauth]
        exact .inl rfl
    · exact .inl (SameConnections.request conf msg hfd).invalid
    · exact .inr ⟨fd, hnone, rfl⟩
  | closed fd =>
    rw [← some.inj hstep]
    obtain ⟨gate, heq⟩ := closed_eq s fd
    rw [heq]
    exact .inl (tables_disconnect { s with gate := gate } fd).2.2.2.2.2
  | failed fd =>
    rw [← some.inj hstep]
    exact .inl (tables_disconnect s fd).2.2.2.2.2
  | complete r result =>
    simp only [MsgServer.next] at hstep
    split at hstep
    · rw [← some.inj hstep]
      exact .inl (SameConnections.complete conf s r result).invalid
    · nomatch hstep

theorem servesCurrent_iff (hn : MsgNumbers s) (hk : CurrentKept s)
    (hstep : s.next conf e = some s') : ServesCurrent s e s' ↔ NoOverlap conf s e := by
  have hserved : ∀ fd ∈ s'.invalid.drop s.invalid.length, ¬LiveConnection s fd := by
    intro fd hfd hlive
    rcases invalid_next hstep with hsame | ⟨fd', hnone, hnew⟩
    · rw [hsame, drop_length] at hfd
      nomatch hfd
    · rw [hnew, drop_left] at hfd
      obtain rfl := mem_singleton.mp hfd
      have hopen := hk.live hlive
      rw [hnone] at hopen
      nomatch hopen
  cases e with
  | login username secret =>
    rw [← some.inj hstep] at hserved ⊢
    exact iff_of_true ⟨hk.login hn username secret, hserved, nofun⟩ trivial
  | logout username =>
    rw [← some.inj hstep] at hserved ⊢
    exact iff_of_true ⟨hk.logout hn username, hserved, nofun⟩ trivial
  | connect fd addr =>
    simp only [MsgServer.next] at hstep
    split at hstep
    · nomatch hstep
    · rw [← some.inj hstep] at hserved ⊢
      exact iff_of_true ⟨(kept_connect addr).mpr hk, hserved, nofun⟩ trivial
  | message fd msg =>
    rw [← some.inj hstep] at hserved ⊢
    rw [← kept_message_iff hn hk]
    exact ⟨fun h => h.kept, fun h => ⟨h, hserved, nofun⟩⟩
  | closed fd =>
    rw [← some.inj hstep] at hserved ⊢
    obtain ⟨gate, heq⟩ := closed_eq s fd
    have hgate : CurrentKept { s with gate := gate } := ⟨hk.current, hk.linked⟩
    exact iff_of_true ⟨heq ▸ hgate.disconnect fd, hserved, nofun⟩ trivial
  | failed fd =>
    rw [← some.inj hstep] at hserved ⊢
    exact iff_of_true ⟨hk.disconnect fd, hserved, nofun⟩ trivial
  | complete r result =>
    simp only [MsgServer.next] at hstep
    split at hstep
    · rw [← some.inj hstep] at hserved ⊢
      constructor
      · intro h fd hreturn hlive
        exact (complete_sends_iff conf result hreturn (hk.live hlive)).mp
          (h.returned r result fd rfl hreturn hlive)
      · intro h
        refine ⟨(SameConnections.complete conf s r result).kept.mpr hk, hserved, ?_⟩
        intro r' result' fd he hreturn hlive
        obtain ⟨rfl, rfl⟩ := MsgEvent.complete.inj he
        exact (complete_sends_iff conf result hreturn (hk.live hlive)).mpr (h fd hreturn hlive)
    · nomatch hstep

/-! ## The main result -/

/-- In every run the server keeps and serves the connection that a user has authenticated
last, exactly as long as nobody authenticates while that connection is open, and no response
that is to return on it is too long. -/
theorem current_connection_iff (conf : MsgConf ν) (events : List MsgEvent) :
    (msgMachine conf).Each ServesCurrent .init events ↔
      (msgMachine conf).Each (fun s e _ => NoOverlap conf s e) .init events :=
  Machine.each_iff_of_good (I := MsgNumbers) (G := CurrentKept)
    (fun _ _ _ hn hstep => hn.next hstep) (fun _ _ _ h => h.kept)
    (fun _ _ _ hn hk hstep => servesCurrent_iff hn hk hstep) init_kept.1 init_kept.2 events

end Steps

theorem next_connect [LinearOrder ν] [Zero ν] (conf : MsgConf ν) (hnew : fd ∉ s.opened)
    (addr : Bytes) : (msgMachine conf).next s (.connect fd addr) = some (s.connect fd addr) :=
  if_neg hnew

def openConf : MsgConf ℕ where
  tonumber
    | [c] => some (c.toNat - 48)
    | _ => none
  b64decode := some
  hmacHash _ _ := []
  expiredNumber := 128

def overlap : List MsgEvent :=
  [.login [117] [], .connect 1 [], .message 1 [117, 58, 49, 58], .connect 2 [],
    .message 2 [117, 58, 50, 58], .closed 1]

/-- **A connection too many.** The first connection is the user's still, and with its end the
user has none, while the second is open.
SRC: msgserver.lua:152-162, 187-190 -/
theorem overlap_not_served : ¬(msgMachine openConf).Each ServesCurrent .init overlap := by
  intro heach
  obtain ⟨-, h₁⟩ := heach _ rfl
  obtain ⟨-, h₂⟩ := h₁ _ rfl
  obtain ⟨-, h₃⟩ := h₂ _ rfl
  obtain ⟨-, h₄⟩ := h₃ _ (next_connect openConf (by decide) [])
  obtain ⟨hserves, -⟩ := h₄ _ rfl
  have hfd := ((hserves.kept.linked 1 0).mp (by decide)).2
  revert hfd
  decide

end Skynet.Analysis
