import Skynet.Model.GateServer

/-!
# The number of clients of a gate server

`client_number` goes up with a connection that is accepted and not refused, and down with the
end of any connection; so it is the number of the clients less the number of refused
connections that have ended.  It is the number of the clients, and within the bound, exactly in
the runs in which no refused connection ends and no smaller bound is set.
-/

namespace Skynet.Analysis

open Library Model GateServer List Option

/-! ## What an event changes -/

structure SameClients (s s' : GateServer) : Prop where
  number : s'.clientNumber = s.clientNumber
  bound : s'.maxclient = s.maxclient
  clients : s'.clients = s.clients
  ends : s'.refusedEnds = s.refusedEnds
  connection : ∀ fd, s'.connection.get fd = some true → s.connection.get fd = some true

theorem SameClients.refl (s : GateServer) : SameClients s s := ⟨rfl, rfl, rfl, rfl, fun _ h => h⟩

theorem sameClients_emit (s : GateServer) (effects : List GateServerEffect) :
    SameClients s (s.emit effects) :=
  ⟨rfl, rfl, rfl, rfl, fun _ h => h⟩

theorem sameClients_closeclient (s : GateServer) (fd : ℕ) : SameClients s (s.closeclient fd) := by
  unfold closeclient
  cases s.connection.get fd with
  | none => exact .refl s
  | some c =>
    refine ⟨rfl, rfl, rfl, rfl, fun fd' h => ?_⟩
    change (s.connection.put fd none).get fd' = some true at h
    rw [Table.get_put] at h
    split at h
    · nomatch h
    · exact h

def NoClient (s : GateServer) : GateServerEvent → Prop
  | .closed fd => s.socket = some fd
  | .cmdOpen _ _ => s.socket ≠ none
  | _ => True

/-- **What an event does** to the clients: nothing; or a bound is set, a client comes, a client
goes, or a connection ends that had been refused. -/
inductive ClientStep (s : GateServer) (s' : GateServer) : GateServerEvent → Prop
  | same {e : GateServerEvent} (same : SameClients s s') (quiet : NoClient s e) : ClientStep s s' e
  | opened {conf : GateServerConf} {listened : Option ℕ} (closed : s.socket = none)
      (number : s'.clientNumber = s.clientNumber)
      (bound : s'.maxclient = some (maxclientOf conf)) (clients : s'.clients = s.clients)
      (ends : s'.refusedEnds = s.refusedEnds) (connection : s'.connection = s.connection) :
      ClientStep s s' (.cmdOpen conf listened)
  | come {fd : ℕ} {addr : List UInt8} {maxclient : ℤ} (hmax : s.maxclient = some maxclient)
      (room : s.clientNumber < maxclient) (number : s'.clientNumber = s.clientNumber + 1)
      (bound : s'.maxclient = s.maxclient) (clients : s'.clients = fd :: s.clients)
      (ends : s'.refusedEnds = s.refusedEnds)
      (connection : s'.connection = s.connection.put fd (some true)) :
      ClientStep s s' (.accept fd addr)
  | gone {fd : ℕ} (listed : fd ∈ s.clients) (number : s'.clientNumber = s.clientNumber - 1)
      (bound : s'.maxclient = s.maxclient) (clients : s'.clients = s.clients.erase fd)
      (ends : s'.refusedEnds = s.refusedEnds)
      (connection : ∀ fd', s'.connection.get fd' = some true →
        fd' ≠ fd ∧ s.connection.get fd' = some true) :
      ClientStep s s' (.closed fd)
  | refusedGone {fd : ℕ} (foreign : s.socket ≠ some fd) (unlisted : fd ∉ s.clients)
      (number : s'.clientNumber = s.clientNumber - 1)
      (bound : s'.maxclient = s.maxclient) (clients : s'.clients = s.clients)
      (ends : s'.refusedEnds = s.refusedEnds + 1)
      (connection : ∀ fd', s'.connection.get fd' = some true → s.connection.get fd' = some true) :
      ClientStep s s' (.closed fd)

theorem closeRead_connection {t : Table ℕ Bool} {fd fd' : ℕ}
    (h : (if t.get fd = some true then t.put fd (some false) else t).get fd' = some true) :
    fd' ≠ fd ∧ t.get fd' = some true := by
  split at h
  · rw [Table.get_put] at h
    split at h
    · nomatch h
    · next hne => exact ⟨hne, h⟩
  · next hopen =>
    refine ⟨?_, h⟩
    rintro rfl
    exact hopen h

theorem msgClose_step {s : GateServer} {fd : ℕ} : ClientStep s (s.msgClose fd) (.closed fd) := by
  unfold msgClose
  split
  · next hsock => exact .same ⟨rfl, rfl, rfl, rfl, fun _ h => h⟩ hsock
  · next hne =>
    have hconn : ∀ fd', (if s.connection.get fd = some true then
          s.connection.put fd (some false) else s.connection).get fd' = some true →
        fd' ≠ fd ∧ s.connection.get fd' = some true := fun _ h => closeRead_connection h
    by_cases hopen : s.connection.get fd = some true
    · simp only [if_pos hopen, ended] at hconn ⊢
      split
      · next hin => exact .gone hin rfl rfl rfl rfl hconn
      · next hout => exact .refusedGone hne hout rfl rfl rfl rfl fun fd' h => (hconn fd' h).2
    · simp only [if_neg hopen, ended] at hconn ⊢
      split
      · next hin => exact .gone hin rfl rfl rfl rfl hconn
      · next hout => exact .refusedGone hne hout rfl rfl rfl rfl fun fd' h => (hconn fd' h).2

theorem client_step {s s' : GateServer} {e : GateServerEvent} (h : s.next e = some s') :
    ClientStep s s' e := by
  cases e with
  | cmdOpen conf listened =>
    obtain ⟨-, h⟩ := ite_none_right_eq_some.mp h
    cases h
    unfold cmdOpen
    cases hsock : s.socket with
    | some id => exact .same (.refl s) (by rw [NoClient, hsock]; exact some_ne_none id)
    | none =>
      cases listened with
      | none => exact .opened hsock rfl rfl rfl rfl rfl
      | some id => exact .opened hsock rfl rfl rfl rfl rfl
  | cmdClose =>
    cases h
    unfold cmdClose
    cases s.socket with
    | none => exact .same (.refl s) trivial
    | some id => exact .same (sameClients_emit s _) trivial
  | data fd msg =>
    cases h
    unfold dispatchMsg
    split
    · exact .same (sameClients_emit s _) trivial
    · exact .same (.refl s) trivial
  | accept fd addr =>
    unfold GateServer.next at h
    cases hmax : s.maxclient with
    | none =>
      rw [hmax] at h
      nomatch h
    | some maxclient =>
      rw [hmax] at h
      obtain ⟨-, h⟩ := ite_none_right_eq_some.mp h
      cases h
      unfold msgOpen
      split
      · exact .same ⟨rfl, rfl, rfl, rfl, fun _ h => h⟩ trivial
      · next hroom =>
        refine .come hmax (Int.not_le.mp hroom) ?_ ?_ ?_ ?_ ?_ <;> split <;> rfl
  | closed fd =>
    obtain ⟨-, h⟩ := ite_none_left_eq_some.mp h
    cases h
    exact msgClose_step
  | error fd msg =>
    cases h
    unfold msgError
    split
    · exact .same (.refl s) trivial
    · exact .same (sameClients_emit s _) trivial
  | warning fd size =>
    cases h
    exact .same (sameClients_emit s _) trivial
  | openclient fd =>
    cases h
    unfold openclient
    split
    · exact .same (sameClients_emit s _) trivial
    · exact .same (.refl s) trivial
  | closeclient fd =>
    cases h
    exact .same (sameClients_closeclient s fd) trivial

/-! ## Every run -/

/-- **The number of clients** in every state: the clients there are, less the refused
connections that have ended. -/
theorem clientNumber_drift {s : GateServer} (h : machine.Reachable s) :
    s.clientNumber = s.clients.length - s.refusedEnds := by
  refine Machine.Reach.invariant
    (I := fun s => s.clientNumber = (s.clients.length : ℤ) - s.refusedEnds) ?_ ?_ h
  · rintro _ rfl
    rfl
  · rintro s e s' hs - hnext
    cases client_step hnext with
    | same hsame _ => rw [hsame.number, hsame.clients, hsame.ends, hs]
    | opened _ hnumber _ hclients hends _ => rw [hnumber, hclients, hends, hs]
    | come _ _ hnumber _ hclients hends _ =>
      rw [hnumber, hclients, hends, hs, length_cons]
      omega
    | gone hin hnumber _ hclients hends _ =>
      have hpos := length_pos_of_mem hin
      rw [hnumber, hclients, hends, hs, length_erase_of_mem hin]
      omega
    | refusedGone _ _ hnumber _ hclients hends _ =>
      rw [hnumber, hclients, hends, hs]
      omega

/-- A second connection is refused and ends. -/
theorem clientNumber_drift_refused : ∃ s, machine.Reachable s ∧ s.refusedEnds = 1 ∧
    s.clientNumber = s.clients.length - s.refusedEnds := by
  have h : machine.Reachable _ := .run (s := init) (.start rfl) (l := [
    .cmdOpen ⟨some 1, false⟩ (some 0), .accept 1 [], .accept 2 [], .closed 2]) rfl
  exact ⟨_, h, rfl, clientNumber_drift h⟩

/-- The number is that of the clients, it is not negative and within the bound, and what is
connected is a client. -/
structure CountsClients (s : GateServer) : Prop where
  number : s.clientNumber = s.clients.length
  nonneg : 0 ≤ s.clientNumber
  bound : ∀ maxclient, s.maxclient = some maxclient → s.clientNumber ≤ maxclient
  connected : ∀ fd, s.connection.get fd = some true → fd ∈ s.clients

/-- No refused connection ends, and no bound is set that is smaller than the number of
clients. -/
def KeepsCount (s : GateServer) : GateServerEvent → Prop
  | .closed fd => s.socket = some fd ∨ fd ∈ s.clients
  | .cmdOpen conf _ => s.socket = none → s.clientNumber ≤ maxclientOf conf
  | _ => True

theorem countsClients_init : CountsClients init := ⟨rfl, Int.le_refl 0, nofun, nofun⟩

theorem CountsClients.same {s s' : GateServer} (h : CountsClients s) (hsame : SameClients s s') :
    CountsClients s' := by
  obtain ⟨hnumber, hbound, hclients, -, hconnection⟩ := hsame
  refine ⟨?_, ?_, ?_, ?_⟩
  · rw [hnumber, hclients, h.number]
  · rw [hnumber]
    exact h.nonneg
  · rw [hnumber, hbound]
    exact h.bound
  · intro fd hfd
    rw [hclients]
    exact h.connected fd (hconnection fd hfd)

theorem countsClients_step {s s' : GateServer} {e : GateServerEvent} (h : CountsClients s)
    (hnext : s.next e = some s') : CountsClients s' ↔ KeepsCount s e := by
  cases client_step hnext with
  | same hsame hquiet =>
    refine ⟨fun _ => ?_, fun _ => h.same hsame⟩
    cases e with
    | closed fd => exact .inl hquiet
    | cmdOpen conf listened => exact fun hclosed => absurd hclosed hquiet
    | _ => trivial
  | opened hclosed hnumber hbound hclients _ hconnection =>
    constructor
    · intro h' _
      rw [← hnumber]
      exact h'.bound _ hbound
    · intro hle
      refine ⟨?_, ?_, ?_, ?_⟩
      · rw [hnumber, hclients, h.number]
      · rw [hnumber]
        exact h.nonneg
      · intro maxclient hmax
        obtain rfl := some.inj (hbound.symm.trans hmax)
        rw [hnumber]
        exact hle hclosed
      · rw [hconnection, hclients]
        exact h.connected
  | come hmax hroom hnumber hbound hclients _ hconnection =>
    refine ⟨fun _ => trivial, fun _ => ⟨?_, ?_, ?_, ?_⟩⟩
    · rw [hnumber, hclients, h.number, length_cons]
      rfl
    · have := h.nonneg
      omega
    · intro maxclient hmax'
      rw [hbound, hmax] at hmax'
      obtain rfl := some.inj hmax'
      omega
    · intro fd' hfd'
      rw [hconnection, Table.get_put] at hfd'
      rw [hclients]
      split at hfd'
      · next heq => exact heq ▸ mem_cons_self
      · exact mem_cons_of_mem _ (h.connected fd' hfd')
  | gone hin hnumber hbound hclients _ hconnection =>
    have hlen : s'.clientNumber = s'.clients.length := by
      have hpos := length_pos_of_mem hin
      rw [hnumber, hclients, h.number, length_erase_of_mem hin]
      omega
    refine ⟨fun _ => .inr hin, fun _ => ⟨hlen, ?_, ?_, ?_⟩⟩
    · omega
    · intro maxclient hmax
      have := h.bound maxclient (hbound ▸ hmax)
      omega
    · intro fd' hfd'
      obtain ⟨hne, hopen⟩ := hconnection fd' hfd'
      rw [hclients]
      exact (mem_erase_of_ne hne).mpr (h.connected fd' hopen)
  | refusedGone hforeign hout hnumber _ hclients _ _ =>
    constructor
    · intro h'
      have hsame : s'.clientNumber = s.clientNumber := by
        rw [h'.number, hclients, h.number]
      omega
    · rintro (hsock | hin)
      · exact absurd hsock hforeign
      · exact absurd hin hout

/-- **The gate server counts its clients** in all states of a run exactly if in the run no
connection ends that was refused, and no bound is set below the number of clients. -/
theorem gate_counts_clients_iff (events : List GateServerEvent) :
    machine.Each (fun _ _ s' => CountsClients s') init events ↔
      machine.Each (fun s e _ => KeepsCount s e) init events :=
  Machine.each_iff_of_good (I := fun _ => True) (G := CountsClients)
    (fun _ _ _ _ _ => trivial) (fun _ _ _ h => h)
    (fun _ _ _ _ hs hnext => countsClients_step hs hnext) trivial countsClients_init events

/-- One client at most; a second connection is refused and ends, and then the first ends. -/
theorem refused_end_not_counted :
    ∃ s, machine.Reachable s ∧ s.clients = [] ∧ s.clientNumber = -1 := by
  refine ⟨_, Machine.Reachable.run (s := init) (.start rfl) (l := [
    .cmdOpen ⟨some 1, false⟩ (some 0), .accept 1 [], .accept 2 [], .closed 2, .closed 1]) rfl,
    rfl, rfl⟩

end Skynet.Analysis
