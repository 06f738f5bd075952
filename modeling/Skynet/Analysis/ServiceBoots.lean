import Skynet.Model.ServiceProvider

/-!
# The boots of a service

At most one boot of a name is in progress, and none after one that succeeded.  While the record
has its queue, whoever waits is in the queue or is the launcher, and gets the outcome of the
boot.  The queue is gone after the first boot, also where that failed.
-/

namespace Skynet.Analysis

open Library Model ServiceProvider Option List Bool

variable {s s' : ServiceProvider} {i : ℕ} {queue : List ℕ} {boot : ProviderBoot}
  {a : ProviderAnswer} {c : Call ProviderCommand ProviderAnswer}

/-- What an action does where it is enabled. -/
inductive ProviderStep (s : ServiceProvider) : ProviderAction → ServiceProvider → Prop
  | send {a : ProviderAction} (command : ProviderCommand) (followed : List ℕ)
      (hhandle : ∀ i, a ≠ .handle i) (hbooted : ∀ boot, a ≠ .booted boot)
      (hfailed : ∀ boot, a ≠ .failed boot) :
      ProviderStep s a { s.send command with followed := followed }
  | handle {i : ℕ} {c : Call ProviderCommand ProviderAnswer} (hc : s.calls[i]? = some c)
      (hnot : c.handled = false) :
      ProviderStep s (.handle i)
        (dispatch { s with calls := Calls.handle s.calls i } i c.command)
  | created (boot : ProviderBoot) (addr : ℕ) :
      ProviderStep s (.created boot addr) (s.created boot addr)
  | booted {boot : ProviderBoot} {addr : ℕ} (hcell : boot.cell = some addr)
      (hmem : boot ∈ s.boots) :
      ProviderStep s (.booted boot) (s.launched boot addr)
  | failed {boot : ProviderBoot} (hmem : boot ∈ s.boots) :
      ProviderStep s (.failed boot) (s.raised boot)

theorem providerStep_of_next {a : ProviderAction} (h : machine.next s a = some s') :
    ProviderStep s a s' := by
  cases a with
  | new => exact some.inj h ▸ .send .test s.followed nofun nofun nofun
  | query => exact some.inj h ▸ .send .query s.followed nofun nofun nofun
  | follow i =>
    obtain ⟨c, -, h⟩ := bind_eq_some_iff.mp h
    obtain ⟨a, -, h⟩ := bind_eq_some_iff.mp h
    obtain ⟨-, h⟩ := ite_none_right_eq_some.mp h
    cases a with
    | missing => exact some.inj h ▸ .send .launch _ nofun nofun nofun
    | booting => exact some.inj h ▸ .send .query _ nofun nofun nofun
    | address addr => cases h
    | error => cases h
  | handle i =>
    obtain ⟨c, hc, h⟩ := bind_eq_some_iff.mp h
    obtain ⟨hnot, h⟩ := ite_none_left_eq_some.mp h
    exact some.inj h ▸ .handle hc (not_eq_true _ ▸ hnot)
  | created boot addr =>
    obtain ⟨-, h⟩ := ite_none_right_eq_some.mp h
    exact some.inj h ▸ .created boot addr
  | booted boot =>
    obtain ⟨addr, hcell, h⟩ := bind_eq_some_iff.mp h
    obtain ⟨hmem, h⟩ := ite_none_right_eq_some.mp h
    exact some.inj h ▸ .booted hcell hmem
  | failed boot =>
    obtain ⟨hmem, h⟩ := ite_none_right_eq_some.mp h
    exact some.inj h ▸ .failed hmem

/-! ## One boot at a time -/

structure BootInv (s : ServiceProvider) : Prop where
  boots : s.boots.length = s.booting.toNat
  done : s.address ≠ none → s.booting = false

theorem BootInv.init : BootInv init := ⟨rfl, fun h => absurd rfl h⟩

theorem BootInv.only (h : BootInv s) (hmem : boot ∈ s.boots) :
    s.boots = [boot] ∧ s.booting = true ∧ s.address = none := by
  have hlen := h.boots
  cases hb : s.booting with
  | false =>
    rw [hb, toNat_false, length_eq_zero_iff] at hlen
    rw [hlen] at hmem
    cases hmem
  | true =>
    rw [hb, toNat_true] at hlen
    obtain ⟨b, hb'⟩ := length_eq_one_iff.mp hlen
    rw [hb', mem_singleton] at hmem
    refine ⟨hmem ▸ hb', rfl, ?_⟩
    by_contra hne
    simp [h.done hne] at hb

theorem BootInv.congr (h : BootInv s) (hboots : s'.boots = s.boots)
    (hbooting : s'.booting = s.booting) (haddress : s'.address = s.address) : BootInv s' :=
  ⟨by rw [hboots, hbooting, h.boots], by rw [haddress, hbooting]; exact h.done⟩

theorem BootInv.launch (h : BootInv s) (i : ℕ) : BootInv (s.launch i) := by
  unfold ServiceProvider.launch
  split
  · exact h.congr rfl rfl rfl
  · next hnone =>
    split
    · split
      · exact h.congr rfl rfl rfl
      · exact h
    · next hbooting =>
      have hlen := h.boots
      rw [not_eq_true] at hbooting
      rw [hbooting, toNat_false] at hlen
      exact ⟨by simp [hlen], fun hne => absurd hnone hne⟩

theorem BootInv.dispatch (h : BootInv s) (i : ℕ) (command : ProviderCommand) :
    BootInv (s.dispatch i command) := by
  cases command with
  | test =>
    change BootInv (s.test i)
    unfold ServiceProvider.test
    split
    · exact h.congr rfl rfl rfl
    · split
      · exact h.congr rfl rfl rfl
      · split <;> exact h.congr rfl rfl rfl
  | query =>
    change BootInv (s.onQuery i)
    unfold onQuery
    split
    · exact h.congr rfl rfl rfl
    · split <;> exact h.congr rfl rfl rfl
  | launch => exact h.launch i

theorem respond_frame (s : ServiceProvider) (launcher : ℕ) (a : ProviderAnswer) :
    (s.respond launcher a).boots = s.boots ∧ (s.respond launcher a).booting = s.booting
      ∧ (s.respond launcher a).address = s.address ∧ (s.respond launcher a).error = s.error
      ∧ (s.respond launcher a).exits = s.exits ∧ (s.respond launcher a).queue = none := by
  unfold respond
  split
  · exact ⟨rfl, rfl, rfl, rfl, rfl, rfl⟩
  · next hqueue => exact ⟨rfl, rfl, rfl, rfl, rfl, hqueue⟩

theorem BootInv.launched (h : BootInv s) (hmem : boot ∈ s.boots) (addr : ℕ) :
    BootInv (s.launched boot addr) := by
  obtain ⟨honly, -, -⟩ := h.only hmem
  obtain ⟨hboots, hbooting, -⟩ := respond_frame
    { s with booting := false, address := some addr, boots := s.boots.erase boot } boot.launcher
    (.address addr)
  refine ⟨?_, fun _ => hbooting⟩
  rw [ServiceProvider.launched, hboots, hbooting]
  simp [honly]

theorem BootInv.raised (h : BootInv s) (hmem : boot ∈ s.boots) : BootInv (s.raised boot) := by
  obtain ⟨honly, -, -⟩ := h.only hmem
  obtain ⟨hboots, hbooting, -⟩ := respond_frame
    { s with
      booting := false
      error := true
      boots := s.boots.erase boot
      exits := s.exits ++ boot.cell.toList } boot.launcher .error
  refine ⟨?_, fun _ => hbooting⟩
  rw [ServiceProvider.raised, hboots, hbooting]
  simp [honly]

theorem BootInv.step (h : BootInv s) {a : ProviderAction} (hstep : machine.next s a = some s') :
    BootInv s' := by
  cases providerStep_of_next hstep with
  | send command followed => exact h.congr rfl rfl rfl
  | @handle i c hc hnot =>
    refine BootInv.dispatch ?_ i c.command
    exact h.congr rfl rfl rfl
  | created boot addr => exact ⟨by rw [created, length_map, h.boots], h.done⟩
  | booted hcell hmem => exact h.launched hmem _
  | failed hmem => exact h.raised hmem

theorem dispatch_command (s : ServiceProvider) (i : ℕ) (command : ProviderCommand) :
    Calls.command (s.dispatch i command).calls = Calls.command s.calls := by
  cases command with
  | test =>
    change Calls.command (s.test i).calls = _
    unfold ServiceProvider.test ServiceProvider.reply
    split
    · exact Calls.command_answer ..
    · split
      · exact Calls.command_answer ..
      · split <;> exact Calls.command_answer ..
  | query =>
    change Calls.command (s.onQuery i).calls = _
    unfold onQuery ServiceProvider.reply
    split
    · rfl
    · split <;> exact Calls.command_answer ..
  | launch =>
    change Calls.command (s.launch i).calls = _
    unfold ServiceProvider.launch ServiceProvider.reply
    split
    · exact Calls.command_answer ..
    · split
      · split <;> rfl
      · rfl

theorem dispatch_done (haddress : s.address ≠ none) (i : ℕ) (command : ProviderCommand) :
    (s.dispatch i command).address = s.address := by
  obtain ⟨addr, haddr⟩ := ne_none_iff_exists'.mp haddress
  cases command with
  | test =>
    change (s.test i).address = _
    unfold ServiceProvider.test
    split
    · rfl
    · rw [haddr]
      exact haddr
  | query =>
    change (s.onQuery i).address = _
    unfold onQuery
    split
    · rfl
    · rw [haddr]
      exact haddr
  | launch =>
    change (s.launch i).address = _
    unfold ServiceProvider.launch
    rw [haddr]
    exact haddr

theorem BootInv.address_kept (h : BootInv s) {a : ProviderAction}
    (hstep : machine.next s a = some s') (haddress : s.address ≠ none) :
    s'.address = s.address := by
  cases providerStep_of_next hstep with
  | send command followed => rfl
  | @handle i c hc hnot =>
    exact dispatch_done (s := { s with calls := Calls.handle s.calls i }) haddress i c.command
  | created boot addr => rfl
  | booted hcell hmem => exact absurd (h.only hmem).2.2 haddress
  | failed hmem => exact absurd (h.only hmem).2.2 haddress

theorem bootInv_run (h : machine.Reachable s) : BootInv s := by
  refine h.invariant ?_ ?_
  · rintro _ rfl
    exact .init
  · intro s a s' hinv _ hstep
    exact hinv.step hstep

/-! ## Whoever waits -/

def waitingCalls (s : ServiceProvider) : List ℕ :=
  s.queue.getD [] ++ s.boots.map ProviderBoot.launcher

structure ProviderInv (s : ServiceProvider) : Prop extends BootInv s where
  accounted : Calls.Accounted s.calls (waitingCalls s)
  asked : ∀ i ∈ waitingCalls s, Calls.command s.calls i ≠ some .test
  before : s.boots = [] → ∀ i ∈ waitingCalls s, Calls.command s.calls i = some .query
  queued : s.queue ≠ none → s.address = none ∧ s.error = false

theorem ProviderInv.init : ProviderInv init where
  toBootInv := .init
  accounted := .nil
  asked := nofun
  before := nofun
  queued := fun _ => ⟨rfl, rfl⟩

theorem ProviderInv.send (h : ProviderInv s) (command : ProviderCommand) (followed : List ℕ) :
    ProviderInv { s.send command with followed := followed } where
  toBootInv := h.toBootInv.congr rfl rfl rfl
  accounted := h.accounted.new command
  asked := by
    intro i hi
    rw [show Calls.command (s.send command).calls i = Calls.command s.calls i from
      Calls.command_new (h.accounted.bounded i hi) command]
    exact h.asked i hi
  before := by
    intro hboots i hi
    rw [show Calls.command (s.send command).calls i = Calls.command s.calls i from
      Calls.command_new (h.accounted.bounded i hi) command]
    exact h.before hboots i hi
  queued := h.queued

theorem ProviderInv.reply (h : ProviderInv s) (hc : s.calls[i]? = some c)
    (hnot : c.handled = false) (a : ProviderAnswer) :
    ProviderInv (reply { s with calls := Calls.handle s.calls i } i a) where
  toBootInv := h.toBootInv.congr rfl rfl rfl
  accounted := h.accounted.reply hc hnot a
  asked := by
    intro j hj
    simpa [ServiceProvider.reply] using h.asked j hj
  before := by
    intro hboots j hj
    simpa [ServiceProvider.reply] using h.before hboots j hj
  queued := h.queued

theorem command_of_getElem? (hc : s.calls[i]? = some c) :
    Calls.command s.calls i = some c.command := by
  rw [Calls.command, hc]
  rfl

theorem ProviderInv.putOff (h : ProviderInv s) (hc : s.calls[i]? = some c)
    (hnot : c.handled = false) (hqueue : s.queue = some queue) (htest : c.command ≠ .test)
    (hbefore : s.boots = [] → c.command = .query) :
    ProviderInv { s with calls := Calls.handle s.calls i, queue := some (queue ++ [i]) } := by
  have hcommand := command_of_getElem? hc
  have hwaiting : (waitingCalls s ++ [i]).Perm
      ((queue ++ [i]) ++ s.boots.map ProviderBoot.launcher) := by
    rw [waitingCalls, hqueue, getD_some, append_assoc, append_assoc]
    exact perm_append_comm.append_left queue
  have hmem {j : ℕ} (hj : j ∈ (queue ++ [i]) ++ s.boots.map ProviderBoot.launcher) :
      j ∈ waitingCalls s ∨ j = i := by
    simpa using hwaiting.mem_iff.mpr hj
  refine ⟨h.toBootInv.congr rfl rfl rfl, (h.accounted.wait hc hnot).perm hwaiting, ?_, ?_,
    fun _ => h.queued (hqueue ▸ nofun)⟩
  · intro j hj
    rw [Calls.command_handle]
    rcases hmem hj with hj | rfl
    · exact h.asked j hj
    · simpa [hcommand] using htest
  · intro hboots j hj
    rw [Calls.command_handle]
    rcases hmem hj with hj | rfl
    · exact h.before hboots j hj
    · rw [hcommand, hbefore hboots]

theorem ProviderInv.begins (h : ProviderInv s) (hc : s.calls[i]? = some c)
    (hnot : c.handled = false) (htest : c.command ≠ .test) (hnone : s.address = none)
    (hbooting : s.booting = false) :
    ProviderInv
      { s with
        calls := Calls.handle s.calls i
        booting := true
        boots := s.boots ++ [⟨i, none⟩] } := by
  have hlen := h.boots
  rw [hbooting, toNat_false, length_eq_zero_iff] at hlen
  have hwaiting : waitingCalls s ++ [i]
      = s.queue.getD [] ++ (s.boots ++ [(⟨i, none⟩ : ProviderBoot)]).map
        ProviderBoot.launcher := by
    simp [waitingCalls]
  refine ⟨⟨by simp [hlen], fun hne => absurd hnone hne⟩, ?_, ?_, ?_, h.queued⟩
  · have haccounted := h.accounted.wait hc hnot
    rw [hwaiting] at haccounted
    exact haccounted
  · intro j hj
    rw [Calls.command_handle]
    have hj' : j ∈ waitingCalls s ∨ j = i := by
      simpa using (hwaiting ▸ hj : j ∈ waitingCalls s ++ [i])
    rcases hj' with hj | rfl
    · exact h.asked j hj
    · simpa [command_of_getElem? hc] using htest
  · simp

/-- The record has its queue when a boot succeeds, and when a `launch` or a `query` comes during
a boot. -/
def BootsWithQueue (s : ServiceProvider) : ProviderAction → Prop
  | .booted _ => s.queue ≠ none
  | .handle i => s.booting = true → Calls.command s.calls i ≠ some .test → s.queue ≠ none
  | _ => True

instance (s : ServiceProvider) : (a : ProviderAction) → Decidable (BootsWithQueue s a)
  | .booted _ => inferInstanceAs (Decidable (s.queue ≠ none))
  | .handle i => inferInstanceAs
      (Decidable (s.booting = true → Calls.command s.calls i ≠ some .test → s.queue ≠ none))
  | .new => inferInstanceAs (Decidable True)
  | .query => inferInstanceAs (Decidable True)
  | .follow _ => inferInstanceAs (Decidable True)
  | .created _ _ => inferInstanceAs (Decidable True)
  | .failed _ => inferInstanceAs (Decidable True)

theorem ProviderInv.test (h : ProviderInv s) (hc : s.calls[i]? = some c) (hnot : c.handled = false)
    : ProviderInv (test { s with calls := Calls.handle s.calls i } i) := by
  unfold ServiceProvider.test
  split
  · exact h.reply hc hnot _
  · split
    · exact h.reply hc hnot _
    · split
      · exact h.reply hc hnot _
      · exact h.reply hc hnot _

theorem ProviderInv.onQuery (h : ProviderInv s) (hc : s.calls[i]? = some c)
    (hnot : c.handled = false) (hquery : c.command = .query) :
    ProviderInv (onQuery { s with calls := Calls.handle s.calls i } i) := by
  unfold ServiceProvider.onQuery
  split
  · next hqueue =>
    have htest : c.command ≠ .test := by simp [hquery]
    exact h.putOff hc hnot hqueue htest fun _ => hquery
  · split
    · exact h.reply hc hnot _
    · exact h.reply hc hnot _

theorem ProviderInv.launch (h : ProviderInv s) (hc : s.calls[i]? = some c)
    (hnot : c.handled = false) (hlaunch : c.command = .launch) (hok : BootsWithQueue s (.handle i))
    : ProviderInv (launch { s with calls := Calls.handle s.calls i } i) := by
  have htest : c.command ≠ .test := by simp [hlaunch]
  unfold ServiceProvider.launch
  split
  · exact h.reply hc hnot _
  · next hnone =>
    split
    · next hbooting =>
      have hboots : s.boots ≠ [] := by
        intro hnil
        have hlen := h.boots
        rw [hnil, show s.booting = true from hbooting] at hlen
        cases hlen
      split
      · next hqueue => exact h.putOff hc hnot hqueue htest fun hnil => absurd hnil hboots
      · next hqueue =>
        refine absurd hqueue (hok hbooting ?_)
        simpa [command_of_getElem? hc] using htest
    · next hbooting => exact h.begins hc hnot htest hnone (not_eq_true _ ▸ hbooting)

theorem ProviderInv.dispatch (h : ProviderInv s) (hc : s.calls[i]? = some c)
    (hnot : c.handled = false) (hok : BootsWithQueue s (.handle i)) :
    ProviderInv (dispatch { s with calls := Calls.handle s.calls i } i c.command) := by
  cases hcommand : c.command with
  | test => exact h.test hc hnot
  | query => exact h.onQuery hc hnot hcommand
  | launch => exact h.launch hc hnot hcommand hok

theorem ProviderInv.waiting_of_mem (h : ProviderInv s) (hmem : boot ∈ s.boots) :
    waitingCalls s = s.queue.getD [] ++ [boot.launcher] := by
  rw [waitingCalls, (h.only hmem).1]
  rfl

/-- The answers at the end of a boot.  The error of `ipairs` has the place of the answer where
there is no queue. -/
theorem ProviderInv.respond (h : ProviderInv s) (hmem : boot ∈ s.boots) (s' : ServiceProvider)
    (hcalls : s'.calls = s.calls) (hqueue : s'.queue = s.queue) (a : ProviderAnswer)
    (ha : a = .error ∨ s.queue ≠ none) :
    (s'.respond boot.launcher a).calls = Calls.answerAll s.calls (waitingCalls s) a := by
  rw [h.waiting_of_mem hmem]
  unfold ServiceProvider.respond
  cases hq : s.queue with
  | some queue =>
    rw [hqueue, hq, hcalls, getD_some, Calls.answerAll_append]
    rfl
  | none =>
    rw [hqueue, hq]
    rcases ha with rfl | hne
    · change Calls.answer s'.calls _ _ = _
      rw [hcalls]
      rfl
    · exact absurd hq hne

theorem ProviderInv.ended (h : ProviderInv s) (hinv : BootInv s') (hboots : s'.boots = [])
    (hqueue : s'.queue = none) (hcalls : s'.calls = Calls.answerAll s.calls (waitingCalls s) a) :
    ProviderInv s' := by
  have hwaiting : waitingCalls s' = [] := by simp [waitingCalls, hboots, hqueue]
  have haccounted : Calls.Accounted s.calls (waitingCalls s ++ []) := by
    rw [append_nil]
    exact h.accounted
  refine ⟨hinv, ?_, ?_, ?_, fun hne => absurd hqueue hne⟩
  · rw [hwaiting, hcalls]
    exact haccounted.answerAll a
  · rw [hwaiting]
    nofun
  · rw [hwaiting]
    nofun

theorem ProviderInv.launched (h : ProviderInv s) (hmem : boot ∈ s.boots) {addr : ℕ}
    (hqueue : s.queue ≠ none) :
    (s.launched boot addr).calls = Calls.answerAll s.calls (waitingCalls s) (.address addr)
      ∧ ProviderInv (s.launched boot addr) := by
  let t : ServiceProvider :=
    { s with booting := false, address := some addr, boots := s.boots.erase boot }
  have hcalls := h.respond hmem t rfl rfl (.address addr) (.inr hqueue)
  obtain ⟨hboots, -, -, -, -, hnone⟩ := respond_frame t boot.launcher (.address addr)
  refine ⟨hcalls, h.ended (h.toBootInv.launched hmem addr) (hboots.trans ?_) hnone hcalls⟩
  change s.boots.erase boot = []
  simp [(h.only hmem).1]

theorem ProviderInv.raised (h : ProviderInv s) (hmem : boot ∈ s.boots) :
    (s.raised boot).calls = Calls.answerAll s.calls (waitingCalls s) .error
      ∧ ProviderInv (s.raised boot) := by
  let t : ServiceProvider := { s with
      booting := false
      error := true
      boots := s.boots.erase boot
      exits := s.exits ++ boot.cell.toList }
  have hcalls := h.respond hmem t rfl rfl .error (.inl rfl)
  obtain ⟨hboots, -, -, -, -, hnone⟩ := respond_frame t boot.launcher .error
  refine ⟨hcalls, h.ended (h.toBootInv.raised hmem) (hboots.trans ?_) hnone hcalls⟩
  change s.boots.erase boot = []
  simp [(h.only hmem).1]

theorem waitingCalls_created (s : ServiceProvider) (boot : ProviderBoot) (addr : ℕ) :
    waitingCalls (s.created boot addr) = waitingCalls s := by
  have hlaunchers : (s.created boot addr).boots.map ProviderBoot.launcher
      = s.boots.map ProviderBoot.launcher := by
    rw [ServiceProvider.created, List.map_map]
    refine map_congr_left fun b _ => ?_
    simp only [Function.comp_apply]
    split <;> rfl
  rw [waitingCalls, hlaunchers]
  rfl

theorem ProviderInv.created (h : ProviderInv s) (boot : ProviderBoot) (addr : ℕ) :
    ProviderInv (s.created boot addr) := by
  have hwaiting := waitingCalls_created s boot addr
  refine ⟨⟨?_, h.done⟩, hwaiting ▸ h.accounted, hwaiting ▸ h.asked, fun hboots => ?_, h.queued⟩
  · rw [ServiceProvider.created, length_map]
    exact h.boots
  · rw [hwaiting]
    exact h.before (map_eq_nil_iff.mp hboots)

/-- Every call and end of a boot keeps it. -/
theorem ProviderInv.step (h : ProviderInv s) {a : ProviderAction} (hok : BootsWithQueue s a)
    (hstep : machine.next s a = some s') : ProviderInv s' := by
  cases providerStep_of_next hstep with
  | send command followed => exact h.send command followed
  | handle hc hnot => exact h.dispatch hc hnot hok
  | created boot addr => exact h.created boot addr
  | booted hcell hmem => exact (h.launched hmem hok).2
  | failed hmem => exact (h.raised hmem).2

theorem providerInv_run (h : machine.Reach BootsWithQueue s) : ProviderInv s := by
  refine h.invariant ?_ ?_
  · rintro _ rfl
    exact .init
  · intro s a s' hinv hok hstep
    exact hinv.step hok hstep

/-! ## What the clients get -/

structure BootsOnce (s : ServiceProvider) : Prop where
  one : s.boots.length ≤ 1
  done : s.address ≠ none → s.boots = [] ∧ ∀ a s', machine.next s a = some s' →
    s'.address = s.address ∧ s'.boots = []

structure ServiceServed (s : ServiceProvider) : Prop where
  once : ∀ (i : ℕ) c, s.calls[i]? = some c → c.answers.length ≤ 1
  unasked : ∀ (i : ℕ) c, s.calls[i]? = some c → c.handled = false → c.answers = []
  waits : ∀ (i : ℕ) c, s.calls[i]? = some c → c.Waits → c.command ≠ .test ∧
    (s.boots ≠ [] ∨ c.command = .query ∧ s.address = none ∧ s.error = false)
  launchers : ∀ boot ∈ s.boots, ∃ c, s.calls[boot.launcher]? = some c ∧ c.Waits

/-- The end of a boot answers whoever waits with its outcome; until then they wait, and so does a
`launch` or a `query` that comes. -/
def BootOutcome (s : ServiceProvider) (a : ProviderAction) (s' : ServiceProvider) : Prop :=
  match a with
  | .booted boot => ∀ (i : ℕ) c, s.calls[i]? = some c → c.Waits →
    ∃ addr, boot.cell = some addr ∧ s'.calls[i]? = some { c with answers := [.address addr] }
  | .failed boot =>
    (∀ (i : ℕ) c, s.calls[i]? = some c → c.Waits →
      s'.calls[i]? = some { c with answers := [.error] })
    ∧ ∀ addr, boot.cell = some addr → addr ∈ s'.exits
  | a => s.boots ≠ [] → ∀ (i : ℕ) c, s'.calls[i]? = some c → c.command ≠ .test →
    (∃ d, s.calls[i]? = some d ∧ d.Waits) ∨ a = .handle i → c.Waits

theorem BootInv.once (h : BootInv s) : BootsOnce s where
  one := h.boots ▸ toNat_le _
  done := by
    have hdone {t : ServiceProvider} (ht : BootInv t) (hne : t.address ≠ none) : t.boots = [] := by
      have hlen := ht.boots
      rwa [ht.done hne, toNat_false, length_eq_zero_iff] at hlen
    intro hne
    refine ⟨hdone h hne, fun a s' hstep => ?_⟩
    have hkept := h.address_kept hstep hne
    exact ⟨hkept, hdone (h.step hstep) (hkept ▸ hne)⟩

theorem ProviderInv.served (h : ProviderInv s) : ServiceServed s where
  once := fun i c hc => h.accounted.answers_le_one hc
  unasked := fun i c hc hnot => (h.accounted.unhandled hc hnot).1
  waits := by
    intro i c hc hwaits
    have hmem := (h.accounted.waits_iff hc).mp hwaits
    have hcommand := command_of_getElem? hc
    refine ⟨fun htest => h.asked i hmem (htest ▸ hcommand), ?_⟩
    by_cases hboots : s.boots = []
    · have hqueue : s.queue ≠ none := by
        intro hnone
        simp [waitingCalls, hboots, hnone] at hmem
      refine .inr ⟨?_, h.queued hqueue⟩
      exact some.inj (hcommand.symm.trans (h.before hboots i hmem))
    · exact .inl hboots
  launchers := by
    intro boot hmem
    have hwaits : boot.launcher ∈ waitingCalls s := mem_append_right _ (List.mem_map_of_mem hmem)
    have hc := getElem?_eq_getElem (h.accounted.bounded _ hwaits)
    exact ⟨_, hc, (h.accounted.waits_iff hc).mpr hwaits⟩

theorem ProviderInv.answered (h : ProviderInv s)
    (hcalls : s'.calls = Calls.answerAll s.calls (waitingCalls s) a) (hc : s.calls[i]? = some c)
    (hwaits : c.Waits) : s'.calls[i]? = some { c with answers := [a] } := by
  have haccounted : Calls.Accounted s.calls (waitingCalls s ++ []) := by
    rw [append_nil]
    exact h.accounted
  rw [hcalls]
  exact haccounted.answered hc ((h.accounted.waits_iff hc).mp hwaits) a

theorem ProviderInv.dispatch_waits (h : ProviderInv s) (hc : s.calls[i]? = some c)
    (hboots : s.boots ≠ []) (hok : BootsWithQueue s (.handle i)) :
    (∀ j ∈ waitingCalls s, j ∈ waitingCalls
      (ServiceProvider.dispatch { s with calls := Calls.handle s.calls i } i c.command))
    ∧ (c.command ≠ .test → i ∈ waitingCalls
      (ServiceProvider.dispatch { s with calls := Calls.handle s.calls i } i c.command)) := by
  obtain ⟨boot, hmem⟩ := exists_mem_of_ne_nil _ hboots
  obtain ⟨-, hbooting, hnone⟩ := h.only hmem
  have hput (htest : c.command ≠ .test) : ∃ queue, s.queue = some queue := by
    refine ne_none_iff_exists'.mp (hok hbooting ?_)
    simpa [command_of_getElem? hc] using htest
  cases hcommand : c.command with
  | test =>
    refine ⟨fun j hj => ?_, fun hne => absurd rfl hne⟩
    simp only [ServiceProvider.dispatch, ServiceProvider.test, hbooting, if_true]
    exact hj
  | query =>
    obtain ⟨queue, hqueue⟩ := hput (by simp [hcommand])
    simp only [ServiceProvider.dispatch, ServiceProvider.onQuery, hqueue, waitingCalls,
      getD_some, mem_append, mem_singleton]
    tauto
  | launch =>
    obtain ⟨queue, hqueue⟩ := hput (by simp [hcommand])
    simp only [ServiceProvider.dispatch, ServiceProvider.launch, hnone, hbooting, if_true, hqueue,
      waitingCalls, getD_some, mem_append, mem_singleton]
    tauto

theorem ProviderInv.outcome (h : ProviderInv s) {a : ProviderAction} (hok : BootsWithQueue s a)
    (hstep : machine.next s a = some s') : BootOutcome s a s' := by
  have hinv := h.step hok hstep
  cases providerStep_of_next hstep with
  | booted hcell hmem =>
    intro i c hc hwaits
    exact ⟨_, hcell, h.answered (h.launched hmem hok).1 hc hwaits⟩
  | failed hmem =>
    refine ⟨fun i c hc hwaits => h.answered (h.raised hmem).1 hc hwaits, fun addr haddr => ?_⟩
    rw [ServiceProvider.raised, (respond_frame ..).2.2.2.2.1, haddr]
    simp
  | @handle i c hc hnot =>
    intro hboots j d hd htest hwaits
    obtain ⟨hkept, hput⟩ := h.dispatch_waits hc hboots hok
    refine (hinv.accounted.waits_iff hd).mpr ?_
    rcases hwaits with ⟨e, he, hwaits⟩ | heq
    · exact hkept j ((h.accounted.waits_iff he).mp hwaits)
    · obtain rfl : i = j := ProviderAction.handle.inj heq
      refine hput ?_
      have hcommand := command_of_getElem? hd
      rw [dispatch_command, Calls.command_handle, command_of_getElem? hc] at hcommand
      rwa [some.inj hcommand]
  | send command followed hhandle hbooted hfailed =>
    have hmem {j : ℕ} {d e : Call ProviderCommand ProviderAnswer} (he : s.calls[j]? = some e)
        (hwaits : e.Waits) (hd : (s.calls ++ [Call.new command])[j]? = some d) : d.Waits :=
      (hinv.accounted.waits_iff hd).mpr ((h.accounted.waits_iff he).mp hwaits)
    have houtcome : s.boots ≠ [] → ∀ (j : ℕ) d, (s.calls ++ [Call.new command])[j]? = some d →
        d.command ≠ .test → (∃ e, s.calls[j]? = some e ∧ e.Waits) ∨ a = .handle j → d.Waits := by
      rintro - j d hd - (⟨e, he, hwaits⟩ | heq)
      · exact hmem he hwaits hd
      · exact absurd heq (hhandle j)
    cases a with
    | booted boot => exact absurd rfl (hbooted boot)
    | failed boot => exact absurd rfl (hfailed boot)
    | new => exact houtcome
    | query => exact houtcome
    | follow i => exact houtcome
    | handle i => exact houtcome
    | created boot addr => exact houtcome
  | created boot addr =>
    intro hboots j d hd htest hwaits
    rcases hwaits with ⟨e, he, hwaits⟩ | heq
    · exact some.inj (he.symm.trans hd) ▸ hwaits
    · cases heq

/-- Every call of the name is answered once, and a boot answers those that wait for it. -/
theorem service_boots_once (s : ServiceProvider) :
    (machine.Reachable s → BootsOnce s)
    ∧ (machine.Reach BootsWithQueue s → ServiceServed s
      ∧ ∀ a s', BootsWithQueue s a → machine.next s a = some s' → BootOutcome s a s') := by
  refine ⟨fun h => (bootInv_run h).once, fun h => ?_⟩
  have hinv := providerInv_run h
  exact ⟨hinv.served, fun a s' hok hstep => hinv.outcome hok hstep⟩

/-- The call that launches and the one that waits for it get the address of the cell. -/
theorem service_boots_queued : ∃ s s', BootsOnce s ∧ ServiceServed s
    ∧ BootOutcome s (.booted ⟨2, some 7⟩) s'
    ∧ s'.calls.map Call.answers = [[.missing], [.missing], [.address 7], [.address 7]] := by
  have hrun : (machine.runOk BootsWithQueue init [.new, .new, .handle 0, .handle 1, .follow 0,
      .follow 1, .handle 2, .created ⟨2, none⟩ 7, .handle 3]).map
      (fun s => (decide (BootsWithQueue s (.booted ⟨2, some 7⟩)),
        (machine.next s (.booted ⟨2, some 7⟩)).map fun s' => s'.calls.map Call.answers)) =
        some (true, some [[.missing], [.missing], [.address 7], [.address 7]]) := by
    decide
  obtain ⟨s, hs, hstate⟩ := map_eq_some_iff.mp hrun
  simp only [Prod.mk.injEq, decide_eq_true_eq] at hstate
  obtain ⟨hok, hnext⟩ := hstate
  obtain ⟨s', hstep, hanswers⟩ := map_eq_some_iff.mp hnext
  have hreach : machine.Reach BootsWithQueue s := Machine.Reach.runOk (.start rfl) hs
  obtain ⟨hserved, houtcome⟩ := (service_boots_once s).2 hreach
  exact ⟨s, s', (service_boots_once s).1 hreach.reachable, hserved, houtcome _ _ hok hstep,
    hanswers⟩

/-- After a boot that failed: the cell of the next one runs, but the call that launched it gets
an error, and the one that came meanwhile gets nothing. -/
theorem launch_after_failure_lost : ∃ s s', machine.Reachable s
    ∧ machine.next s (.booted ⟨4, some 7⟩) = some s' ∧ s'.address = some 7 ∧ s'.boots = []
    ∧ s'.calls[4]? = some ⟨.launch, true, [.error]⟩ ∧ s'.calls[5]? = some ⟨.launch, true, []⟩
    ∧ ¬ BootOutcome s (.booted ⟨4, some 7⟩) s' ∧ ¬ ServiceServed s' := by
  have hrun : (machine.run init [.new, .new, .new, .handle 0, .handle 1, .handle 2, .follow 0,
      .follow 1, .follow 2, .handle 3, .failed ⟨3, none⟩, .handle 4, .handle 5,
      .created ⟨4, none⟩ 7]).map
      (fun s => (decide (s.calls[4]? = some ⟨.launch, true, []⟩),
        (machine.next s (.booted ⟨4, some 7⟩)).map fun s' => decide (s'.address = some 7
          ∧ s'.boots = [] ∧ s'.calls[4]? = some ⟨.launch, true, [.error]⟩
          ∧ s'.calls[5]? = some ⟨.launch, true, []⟩))) =
        some (true, some true) := by
    decide
  obtain ⟨s, hs, hstate⟩ := map_eq_some_iff.mp hrun
  simp only [Prod.mk.injEq, decide_eq_true_eq] at hstate
  obtain ⟨hwaits, hnext⟩ := hstate
  obtain ⟨s', hstep, hstate⟩ := map_eq_some_iff.mp hnext
  obtain ⟨haddress, hboots, hlauncher, hlost⟩ := of_decide_eq_true hstate
  refine ⟨s, s', Machine.Reachable.run (.start rfl) hs, hstep, haddress, hboots, hlauncher, hlost,
    fun houtcome => ?_, fun hserved => ?_⟩
  · obtain ⟨addr, -, hanswer⟩ := houtcome 4 _ hwaits ⟨rfl, rfl⟩
    rw [hlauncher] at hanswer
    cases hanswer
  · obtain ⟨-, hne | ⟨hquery, -⟩⟩ := hserved.waits 5 _ hlost ⟨rfl, rfl⟩
    · exact hne hboots
    · cases hquery

end Skynet.Analysis
