import Skynet.Model.Clusterd

/-!
# Who opens the channel of a node

A record in `connecting` belongs to one coroutine, which wakes those that wait in it when it
ends.  The address is read again before it ends, so that a sender is on the configured address
once nothing is left to do.  An error of `newservice` leaves the record without a coroutine.
-/

namespace Skynet.Analysis

open Library Model Clusterd Option List

variable {s s' : Clusterd} {ct : OpenRecord} {o : Opening} {address : NodeAddress} {i c : ℕ}
  {channel : Option ℕ} {r : Option (Option ℕ)} {again : Bool} {entries : List ConfigEntry}

/-! ## Invariant -/

def lastChange (s : Clusterd) (c : ℕ) : Option (Option (Bytes × Bytes)) :=
  (s.changes.filter fun change => change.1 = c).getLast?.map Prod.snd

structure SenderInv (s : Clusterd) : Prop where
  senders : ∀ c < s.launches, c ∉ s.killed → s.nodeSender = some c
  configured : s.nodeSender ≠ none → s.nodeAddress ≠ none

def StageRight (s : Clusterd) (o : Opening) : Prop :=
  match o.stage with
  | .naming => s.nodeSender = none ∧ s.nodeAddress = none ∧ s.nowaiting = false
    ∧ ∃ ct, s.connecting = some ct ∧ ct.namequery = some o.coroutine
  | .named => s.nodeSender = none
  | .launching _ => s.nodeSender = none ∧ s.nodeAddress ≠ none
  | .calling address c => s.nodeSender = some c ∧ lastChange s c = some address.target

def SenderSettled (s : Clusterd) : Prop := ∀ c, s.nodeSender = some c →
    ∃ address, s.nodeAddress = some address ∧ lastChange s c = some address.target

structure ClusterdInv (s : Clusterd) : Prop extends SenderInv s where
  owner : s.connecting = none ∧ s.openings = []
    ∨ ∃ ct o, s.connecting = some ct ∧ s.openings = [o] ∧ StageRight s o
  settled : s.connecting = none → s.ready = [] → SenderSettled s

theorem ClusterdInv.init : ClusterdInv init where
  senders := nofun
  configured := fun hne => absurd rfl hne
  owner := .inl ⟨rfl, rfl⟩
  settled := nofun

theorem ClusterdInv.only (h : ClusterdInv s) (hmem : o ∈ s.openings) :
    ∃ ct, s.connecting = some ct ∧ s.openings = [o] ∧ StageRight s o := by
  rcases h.owner with ⟨-, hnil⟩ | ⟨ct, o', hct, hone, hstage⟩
  · rw [hnil] at hmem
    cases hmem
  · rw [hone, mem_singleton] at hmem
    exact ⟨ct, hct, hmem ▸ hone, hmem ▸ hstage⟩

theorem ClusterdInv.running (h : ClusterdInv s) (hct : s.connecting = some ct) :
    s.openings ≠ [] := by
  rcases h.owner with ⟨hnone, -⟩ | ⟨-, o, -, hone, -⟩
  · rw [hct] at hnone
    cases hnone
  · rw [hone]
    nofun

theorem lastChange_changenode (s : Clusterd) (i : ℕ) (address : NodeAddress) (c : ℕ) :
    lastChange (s.changenode i address c) c = some address.target := by
  rw [lastChange, changenode]
  simp [filter_append]

/-! ## Operations -/

theorem ClusterdInv.result (h : ClusterdInv s) (i : ℕ) (r : Option (Option ℕ)) :
    ClusterdInv (s.result i r) :=
  { h with }

theorem ClusterdInv.wait (h : ClusterdInv s) (hct : s.connecting = some ct) (i : ℕ) :
    ClusterdInv (s.wait ct i) := by
  refine ⟨⟨h.senders, h.configured⟩, ?_, fun hnone => nomatch hnone⟩
  rcases h.owner with ⟨hnone, -⟩ | ⟨ct', o, hct', hone, hstage⟩
  · rw [hct] at hnone
    cases hnone
  · refine .inr ⟨_, o, rfl, hone, ?_⟩
    unfold StageRight at hstage ⊢
    cases hs : o.stage with
    | naming =>
      rw [hs] at hstage
      obtain ⟨hsender, haddress, hnowaiting, ct', hct', hname⟩ := hstage
      obtain rfl := some.inj (hct.symm.trans hct')
      exact ⟨hsender, haddress, hnowaiting, _, rfl, hname⟩
    | named => rwa [hs] at hstage
    | launching text => rwa [hs] at hstage
    | calling address c => rwa [hs] at hstage

theorem release_frame (s : Clusterd) (channel : Option ℕ) :
    (s.release channel).nodeSender = s.nodeSender
      ∧ (s.release channel).nodeAddress = s.nodeAddress
      ∧ (s.release channel).openings = s.openings ∧ (s.release channel).changes = s.changes
      ∧ (s.release channel).connecting = none ∧ (s.release channel).launches = s.launches
      ∧ (s.release channel).killed = s.killed := by
  unfold release
  split
  · exact ⟨rfl, rfl, rfl, rfl, rfl, rfl, rfl⟩
  · next hnone => exact ⟨rfl, rfl, rfl, rfl, hnone, rfl, rfl⟩

theorem SenderInv.release (h : SenderInv s) (channel : Option ℕ) :
    SenderInv (s.release channel) := by
  obtain ⟨hsender, haddress, -, -, -, hlaunches, hkilled⟩ := release_frame s channel
  refine ⟨?_, ?_⟩
  · rw [hsender, hlaunches, hkilled]
    exact h.senders
  · rw [hsender, haddress]
    exact h.configured

theorem SenderInv.released (h : SenderInv s) (hopenings : s.openings = []) (hsettled : SenderSettled s)
    (channel : Option ℕ) (i : ℕ) (r : Option (Option ℕ)) :
    ClusterdInv ((s.release channel).result i r) := by
  obtain ⟨hsender, haddress, hop, hchanges, hnone, -, -⟩ := release_frame s channel
  refine ⟨⟨(h.release channel).senders, (h.release channel).configured⟩,
    .inl ⟨hnone, hop.trans hopenings⟩, fun _ _ => ?_⟩
  intro c hc
  obtain ⟨address, haddr, hlast⟩ := hsettled c (hsender.symm.trans hc)
  refine ⟨address, haddress.trans haddr, ?_⟩
  change ((s.release channel).changes.filter _).getLast?.map _ = _
  rw [hchanges]
  exact hlast

theorem SenderInv.calling (h : SenderInv s) (hct : s.connecting = some ct)
    (hopenings : s.openings = []) (hsender : s.nodeSender = some c) (i : ℕ)
    (address : NodeAddress) : ClusterdInv (s.changenode i address c) := by
  refine ⟨⟨h.senders, h.configured⟩, .inr ⟨ct, ⟨i, .calling address c⟩, hct, ?_, ?_⟩,
    fun hnone => ?_⟩
  · change s.openings ++ [_] = [_]
    rw [hopenings]
    rfl
  · exact ⟨hsender, lastChange_changenode s i address c⟩
  · exact nomatch hct.symm.trans hnone

theorem SenderInv.connect (h : SenderInv s) (hct : s.connecting = some ct)
    (hopenings : s.openings = []) (i : ℕ) : ClusterdInv (s.connect i s.nodeAddress) := by
  have hsettled (hnone : s.nodeSender = none) : SenderSettled s := by
    intro c hc
    rw [hnone] at hc
    cases hc
  unfold Clusterd.connect
  split
  · next text haddress hsender =>
    refine ⟨⟨h.senders, h.configured⟩, .inr ⟨ct, ⟨i, .launching text⟩, hct, ?_, hsender, ?_⟩,
      fun hnone => nomatch hct.symm.trans hnone⟩
    · change s.openings ++ [_] = [_]
      rw [hopenings]
      rfl
    · exact haddress ▸ nofun
  · next hsender => exact h.calling hct hopenings hsender i _
  · next hsender => exact h.calling hct hopenings hsender i _
  · next hsender => exact h.released hopenings (hsettled hsender) none i _
  · next hnone =>
    refine h.released hopenings (hsettled ?_) none i _
    by_contra hne
    exact h.configured hne hnone

theorem SenderInv.openChannel (h : SenderInv s) (hnone : s.connecting = none)
    (hopenings : s.openings = []) (i : ℕ) : ClusterdInv (s.openChannel i) := by
  unfold Clusterd.openChannel
  rw [hnone]
  simp only
  split
  · next hname =>
    obtain ⟨haddress, hnowaiting⟩ := hname
    refine ⟨⟨h.senders, h.configured⟩, .inr ⟨⟨[], some i⟩, ⟨i, .naming⟩, rfl, ?_, ?_⟩,
      fun hnone => nomatch hnone⟩
    · rw [hopenings]
      rfl
    · refine ⟨?_, haddress, hnowaiting, _, rfl, rfl⟩
      by_contra hne
      exact h.configured hne haddress
  · have hrecord : SenderInv { s with connecting := some ⟨[], none⟩ } := ⟨h.senders, h.configured⟩
    exact hrecord.connect rfl hopenings i

theorem ClusterdInv.openChannel (h : ClusterdInv s) (i : ℕ) : ClusterdInv (s.openChannel i) := by
  cases hct : s.connecting with
  | none =>
    rcases h.owner with ⟨-, hopenings⟩ | ⟨ct, -, hct', -⟩
    · exact h.toSenderInv.openChannel hct hopenings i
    · exact nomatch hct.symm.trans hct'
  | some ct =>
    unfold Clusterd.openChannel
    rw [hct]
    exact h.wait hct i

theorem SenderInv.finish (h : SenderInv s) (hopenings : s.openings = [])
    (hsender : s.nodeSender = some c) (hlast : lastChange s c = some address.target) (i : ℕ)
    (channel : Option ℕ) (r : Option (Option ℕ)) : ClusterdInv (s.finish i address channel r) := by
  obtain ⟨-, haddress, hop, -, hnone, -, -⟩ := release_frame s channel
  unfold Clusterd.finish
  split
  · next hsame =>
    refine h.released hopenings (fun c' hc' => ?_) channel i r
    obtain rfl := some.inj (hsender.symm.trans hc')
    exact ⟨address, haddress.symm.trans hsame, hlast⟩
  · exact (h.release channel).openChannel hnone (hop.trans hopenings) i

theorem SenderInv.launch (h : SenderInv s) (hct : s.connecting = some ct)
    (hopenings : s.openings = []) (hnone : s.nodeSender = none) (haddress : s.nodeAddress ≠ none)
    (i : ℕ) (text : Bytes) : ClusterdInv (s.launch i text) := by
  unfold Clusterd.launch
  rw [hnone]
  have hnew : SenderInv
      { s with launches := s.launches + 1, nodeSender := some s.launches } := by
    refine ⟨fun c hc hkilled => ?_, fun _ => haddress⟩
    rcases Nat.lt_succ_iff_lt_or_eq.mp hc with hlt | rfl
    · have hsender := h.senders c hlt hkilled
      rw [hnone] at hsender
      cases hsender
    · rfl
  exact hnew.calling hct hopenings rfl i _

theorem SenderInv.change (h : SenderInv s) (hopenings : s.openings = [])
    (hsender : s.nodeSender = some c) (hlast : lastChange s c = some address.target) (i : ℕ) :
    ClusterdInv (s.change i address c) := by
  cases address with
  | on text =>
    have hchannel : SenderInv { s with nodeChannel := some c } := ⟨h.senders, h.configured⟩
    exact hchannel.finish hopenings hsender hlast i _ _
  | off => exact h.finish hopenings hsender hlast i _ _

/-! ## Reloads -/

/-- What the entries of a reload keep: the sleeper in the wait for the name, as far as it has not
been woken, and that a node whose address has changed is on the list.  A sleeper that misses its
name as `nowaiting` is on is woken after the loop: no entry turns it off again. -/
structure LoadInv (s : Clusterd) (again : Bool) (t : Clusterd) (rest : List ConfigEntry) :
    Prop where
  senders : t.nodeSender = s.nodeSender ∧ t.launches = s.launches ∧ t.killed = s.killed
    ∧ t.changes = s.changes
  others : t.connecting = s.connecting ∧ t.ready = s.ready ∧ t.woken = s.woken
  configured : s.nodeAddress ≠ none → t.nodeAddress ≠ none
  asleep : t.openings = s.openings
      ∧ (∀ o ∈ s.openings, o.stage = .naming → (t.nowaiting = false → t.nodeAddress = none)
        ∧ (t.nowaiting = true → ∀ on, ConfigEntry.nowaiting on ∉ rest))
    ∨ ∃ i, s.openings = [⟨i, .naming⟩] ∧ t.openings = [⟨i, .named⟩]
  listed : again = false → s.nodeSender ≠ none → t.nodeAddress = s.nodeAddress

theorem ClusterdInv.asleep (h : ClusterdInv s) (hmem : o ∈ s.openings)
    (hnaming : o.stage = .naming) : s.nodeSender = none ∧ s.nodeAddress = none
      ∧ s.nowaiting = false ∧ s.openings = [⟨o.coroutine, .naming⟩]
      ∧ ∃ ct, s.connecting = some ct ∧ ct.namequery = some o.coroutine := by
  obtain ⟨ct, -, hone, hstage⟩ := h.only hmem
  rw [StageRight, hnaming] at hstage
  obtain ⟨hsender, haddress, hnowaiting, hname⟩ := hstage
  exact ⟨hsender, haddress, hnowaiting, by rw [hone, ← hnaming], hname⟩

variable {t : Clusterd} {rest : List ConfigEntry} {entry : ConfigEntry}

theorem LoadInv.start (h : ClusterdInv s) (entries : List ConfigEntry) :
    LoadInv s false s entries := by
  refine ⟨⟨rfl, rfl, rfl, rfl⟩, ⟨rfl, rfl, rfl⟩, id, .inl ⟨rfl, fun o hmem hnaming => ?_⟩,
    fun _ _ => rfl⟩
  obtain ⟨-, haddress, hnowaiting, -⟩ := h.asleep hmem hnaming
  refine ⟨fun _ => haddress, fun hon => ?_⟩
  rw [hnowaiting] at hon
  cases hon

theorem LoadInv.nowaiting {on : Bool} (h : LoadInv s again t (.nowaiting on :: rest))
    (hkeys : ((ConfigEntry.nowaiting on :: rest).map ConfigEntry.key).Nodup) :
    LoadInv s again { t with nowaiting := on } rest := by
  refine ⟨h.senders, h.others, h.configured, ?_, h.listed⟩
  rcases h.asleep with ⟨hsame, hasleep⟩ | hwoken
  · refine .inl ⟨hsame, fun o hmem hnaming => ?_⟩
    obtain ⟨haddress, hrest⟩ := hasleep o hmem hnaming
    constructor
    · intro _
      cases hon : t.nowaiting with
      | false => exact haddress hon
      | true => exact absurd mem_cons_self (hrest hon on)
    · intro _ on' hmem'
      rw [map_cons, nodup_cons] at hkeys
      exact hkeys.1 (List.mem_map.mpr ⟨_, hmem', rfl⟩)
  · exact .inr hwoken

theorem wakeName_openings (hct : s.connecting = some ct) :
    s.wakeName.openings = s.openings.map fun o =>
      if o.stage = .naming ∧ ct.namequery = some o.coroutine then { o with stage := .named }
      else o := by
  rw [wakeName, hct]

theorem wakeName_frame (s : Clusterd) : s.wakeName.nodeSender = s.nodeSender ∧ s.wakeName.launches =
    s.launches ∧ s.wakeName.killed = s.killed ∧ s.wakeName.changes = s.changes ∧
    s.wakeName.connecting = s.connecting ∧ s.wakeName.ready = s.ready ∧ s.wakeName.woken = s.woken ∧
    s.wakeName.nodeAddress = s.nodeAddress ∧ s.wakeName.nowaiting = s.nowaiting := by
  unfold wakeName
  split <;> exact ⟨rfl, rfl, rfl, rfl, rfl, rfl, rfl, rfl, rfl⟩

theorem LoadInv.woken (h : ClusterdInv s) (ht : LoadInv s again t rest) :
    t.wakeName.openings = s.openings ∧ (∀ o ∈ s.openings, o.stage ≠ .naming)
      ∨ ∃ i, s.openings = [⟨i, .naming⟩] ∧ t.wakeName.openings = [⟨i, .named⟩] := by
  cases hct : s.connecting with
  | none =>
    have hct' : t.connecting = none := ht.others.1.trans hct
    have hsame : t.wakeName = t := by rw [wakeName, hct']
    rw [hsame]
    rcases ht.asleep with ⟨hopenings, -⟩ | hwoken
    · refine .inl ⟨hopenings, fun o hmem => ?_⟩
      obtain ⟨ct, hct', -⟩ := h.only hmem
      exact nomatch hct.symm.trans hct'
    · exact .inr hwoken
  | some ct =>
    rw [wakeName_openings (ht.others.1.trans hct)]
    rcases ht.asleep with ⟨hopenings, -⟩ | ⟨i, hs, ht'⟩
    · rcases h.owner with ⟨-, hnil⟩ | ⟨ct', o, hct', hone, -⟩
      · rw [hopenings, hnil]
        exact .inl ⟨rfl, nofun⟩
      · by_cases hnaming : o.stage = .naming
        · have hmem : o ∈ s.openings := hone ▸ mem_singleton_self o
          obtain ⟨-, -, -, hasleep, ct'', hct'', hname⟩ := h.asleep hmem hnaming
          obtain rfl := some.inj (hct.symm.trans hct'')
          rw [hopenings, hasleep]
          simp [hname]
        · refine .inl ⟨?_, fun o' hmem => ?_⟩
          · rw [hopenings, hone]
            simp [hnaming]
          · rw [hone, mem_singleton] at hmem
            exact hmem ▸ hnaming
    · refine .inr ⟨i, hs, ?_⟩
      rw [ht']
      rfl

theorem setAddress_frame (s : Clusterd) (address : NodeAddress) :
    (s.setAddress address).nodeSender = s.nodeSender
      ∧ (s.setAddress address).launches = s.launches ∧ (s.setAddress address).killed = s.killed
      ∧ (s.setAddress address).changes = s.changes
      ∧ (s.setAddress address).connecting = s.connecting
      ∧ (s.setAddress address).ready = s.ready ∧ (s.setAddress address).woken = s.woken
      ∧ (s.setAddress address).nodeAddress = some address
      ∧ (s.setAddress address).nowaiting = s.nowaiting
      ∧ (s.setAddress address).openings = s.openings := by
  unfold setAddress
  split
  · next hsame => exact ⟨rfl, rfl, rfl, rfl, rfl, rfl, rfl, hsame, rfl, rfl⟩
  · exact ⟨rfl, rfl, rfl, rfl, rfl, rfl, rfl, rfl, rfl, rfl⟩

theorem wakeName_congr (hct : s'.connecting = s.connecting) (hopenings : s'.openings = s.openings) :
    s'.wakeName.openings = s.wakeName.openings := by
  unfold wakeName
  rw [hct]
  split
  · simp only [hopenings]
  · exact hopenings

theorem LoadInv.loadAddress (h : ClusterdInv s) (ht : LoadInv s again t (.address address :: rest))
    : LoadInv s (again || t.resets address) (t.loadAddress address) rest := by
  obtain ⟨hsender, hlaunches, hkilled, hchanges, hct, hready, hwoken, haddress, hnowaiting,
    hopenings⟩ := setAddress_frame t address
  obtain ⟨hsender', hlaunches', hkilled', hchanges'⟩ := ht.senders
  obtain ⟨hct', hready', hwoken'⟩ := ht.others
  have hlisted : (again || t.resets address) = false → s.nodeSender ≠ none →
      some address = s.nodeAddress := by
    intro hnot hsome
    rw [Bool.or_eq_false_iff, resets, hsender', Bool.and_eq_false_iff] at hnot
    obtain ⟨hagain, hsame | hnone⟩ := hnot
    · rw [← ht.listed hagain hsome]
      exact (not_not.mp (of_decide_eq_false hsame)).symm
    · exact absurd (not_isSome_iff_eq_none.mp (by simp [hnone])) hsome
  unfold Clusterd.loadAddress
  simp only
  split
  · next hon =>
    refine ⟨⟨hsender.trans hsender', hlaunches.trans hlaunches', hkilled.trans hkilled',
      hchanges.trans hchanges'⟩, ⟨hct.trans hct', hready.trans hready', hwoken.trans hwoken'⟩,
      fun _ => haddress ▸ nofun, ?_, fun hnot hsome => haddress.trans (hlisted hnot hsome)⟩
    rw [hopenings]
    rcases ht.asleep with ⟨hsame, hasleep⟩ | hnamed
    · refine .inl ⟨hsame, fun o hmem hnaming => ⟨fun hoff => ?_, fun _ on hmem' => ?_⟩⟩
      · rw [hon] at hoff
        cases hoff
      · rw [hnowaiting] at hon
        exact (hasleep o hmem hnaming).2 hon on (mem_cons_of_mem _ hmem')
    · exact .inr hnamed
  · obtain ⟨gsender, glaunches, gkilled, gchanges, gct, gready, gwoken, gaddress, gnowaiting⟩ :=
      wakeName_frame (t.setAddress address)
    refine ⟨⟨gsender.trans (hsender.trans hsender'), glaunches.trans (hlaunches.trans hlaunches'),
      gkilled.trans (hkilled.trans hkilled'), gchanges.trans (hchanges.trans hchanges')⟩,
      ⟨gct.trans (hct.trans hct'), gready.trans (hready.trans hready'),
        gwoken.trans (hwoken.trans hwoken')⟩, fun _ => gaddress.trans haddress ▸ nofun, ?_,
      fun hnot hsome => (gaddress.trans haddress).trans (hlisted hnot hsome)⟩
    rw [wakeName_congr hct hopenings]
    rcases ht.woken h with ⟨hsame, hnone⟩ | hnamed
    · exact .inl ⟨hsame, fun o hmem hnaming => absurd hnaming (hnone o hmem)⟩
    · exact .inr hnamed

theorem LoadInv.weaken (h : LoadInv s again t rest) : LoadInv s again t [] := by
  refine ⟨h.senders, h.others, h.configured, ?_, h.listed⟩
  rcases h.asleep with ⟨hsame, hasleep⟩ | hnamed
  · exact .inl ⟨hsame, fun o hmem hnaming => ⟨(hasleep o hmem hnaming).1, fun _ _ => nofun⟩⟩
  · exact .inr hnamed

theorem LoadInv.loadEntries (h : ClusterdInv s) (ht : LoadInv s again t entries)
    (hkeys : (entries.map ConfigEntry.key).Nodup) :
    LoadInv s (t.loadEntries again entries).2 (t.loadEntries again entries).1 [] := by
  induction entries generalizing again t with
  | nil => exact ht
  | cons entry entries ih =>
    have hkeys' : (entries.map ConfigEntry.key).Nodup := by
      rw [map_cons, nodup_cons] at hkeys
      exact hkeys.2
    cases entry with
    | nowaiting on => exact ih (ht.nowaiting hkeys) hkeys'
    | address address => exact ih (ht.loadAddress h) hkeys'
    | bad => exact ht.weaken

theorem LoadInv.owner (h : ClusterdInv s) (ht : LoadInv s again t rest)
    (hopenings : t.openings = s.openings
        ∧ (∀ o ∈ s.openings, o.stage = .naming → t.nowaiting = false ∧ t.nodeAddress = none)
      ∨ ∃ i, s.openings = [⟨i, .naming⟩] ∧ t.openings = [⟨i, .named⟩]) :
    SenderInv t ∧ (t.connecting = none ∧ t.openings = []
      ∨ ∃ ct o, t.connecting = some ct ∧ t.openings = [o] ∧ StageRight t o) := by
  obtain ⟨hsender, hlaunches, hkilled, hchanges⟩ := ht.senders
  obtain ⟨hct, -, -⟩ := ht.others
  have hlast (c : ℕ) : lastChange t c = lastChange s c := by rw [lastChange, hchanges, lastChange]
  refine ⟨⟨?_, ?_⟩, ?_⟩
  · rw [hsender, hlaunches, hkilled]
    exact h.senders
  · rw [hsender]
    exact fun hne => ht.configured (h.configured hne)
  · rcases h.owner with ⟨hnone, hnil⟩ | ⟨ct, o, hsome, hone, hstage⟩
    · refine .inl ⟨hct.trans hnone, ?_⟩
      rcases hopenings with ⟨hsame, -⟩ | ⟨i, hs, -⟩
      · exact hsame.trans hnil
      · exact nomatch hs.symm.trans hnil
    · rcases hopenings with ⟨hsame, hasleep⟩ | ⟨i, hs, hnamed⟩
      · refine .inr ⟨ct, o, hct.trans hsome, hsame.trans hone, ?_⟩
        have hmem : o ∈ s.openings := hone ▸ mem_singleton_self o
        unfold StageRight at hstage ⊢
        cases hs : o.stage with
        | naming =>
          rw [hs] at hstage
          obtain ⟨hnone, -, -, ct', hct', hname⟩ := hstage
          obtain ⟨hnowaiting, haddress⟩ := hasleep o hmem hs
          exact ⟨hsender.trans hnone, haddress, hnowaiting, ct', hct.trans hct', hname⟩
        | named =>
          rw [hs] at hstage
          exact hsender.trans hstage
        | launching text =>
          rw [hs] at hstage
          exact ⟨hsender.trans hstage.1, ht.configured hstage.2⟩
        | calling address c =>
          rw [hs] at hstage
          exact ⟨hsender.trans hstage.1, (hlast c).trans hstage.2⟩
      · obtain ⟨hnone, -⟩ := h.asleep (hs ▸ mem_singleton_self _) rfl
        exact .inr ⟨ct, _, hct.trans hsome, hnamed, hsender.trans hnone⟩

theorem LoadInv.settled (h : ClusterdInv s) (ht : LoadInv s again t rest)
    (haddress : s.nodeSender ≠ none → t.nodeAddress = s.nodeAddress)
    (hnone : s.connecting = none) (hready : s.ready = []) : SenderSettled t := by
  obtain ⟨hsender, -, -, hchanges⟩ := ht.senders
  intro c hc
  rw [hsender] at hc
  obtain ⟨address, haddr, hlast⟩ := h.settled hnone hready c hc
  refine ⟨address, (haddress (hc ▸ nofun)).trans haddr, ?_⟩
  rw [lastChange, hchanges]
  exact hlast

theorem LoadInv.loaded (h : ClusterdInv s) (ht : LoadInv s again t []) :
    ClusterdInv (t.loaded again) := by
  let u : Clusterd := if t.nowaiting then t.wakeName else t
  have hu : LoadInv s again u [] ∧ (u.openings = s.openings
        ∧ (∀ o ∈ s.openings, o.stage = .naming → u.nowaiting = false ∧ u.nodeAddress = none)
      ∨ ∃ i, s.openings = [⟨i, .naming⟩] ∧ u.openings = [⟨i, .named⟩]) := by
    by_cases hon : t.nowaiting = true
    · rw [show u = t.wakeName from if_pos hon]
      obtain ⟨gsender, glaunches, gkilled, gchanges, gct, gready, gwoken, gaddress, -⟩ :=
        wakeName_frame t
      obtain ⟨hsender, hlaunches, hkilled, hchanges⟩ := ht.senders
      obtain ⟨hct, hready, hwoken⟩ := ht.others
      have hwake := ht.woken h
      refine ⟨⟨⟨gsender.trans hsender, glaunches.trans hlaunches, gkilled.trans hkilled,
        gchanges.trans hchanges⟩, ⟨gct.trans hct, gready.trans hready, gwoken.trans hwoken⟩,
        gaddress ▸ ht.configured, ?_, gaddress ▸ ht.listed⟩, ?_⟩
      · rcases hwake with ⟨hsame, hnone⟩ | hnamed
        · exact .inl ⟨hsame, fun o hmem hnaming => absurd hnaming (hnone o hmem)⟩
        · exact .inr hnamed
      · rcases hwake with ⟨hsame, hnone⟩ | hnamed
        · exact .inl ⟨hsame, fun o hmem hnaming => absurd hnaming (hnone o hmem)⟩
        · exact .inr hnamed
    · rw [show u = t from if_neg hon]
      rw [Bool.not_eq_true] at hon
      refine ⟨ht, ?_⟩
      rcases ht.asleep with ⟨hsame, hasleep⟩ | hnamed
      · exact .inl ⟨hsame, fun o hmem hnaming => ⟨hon, (hasleep o hmem hnaming).1 hon⟩⟩
      · exact .inr hnamed
  obtain ⟨hload, hopenings⟩ := hu
  have hready : u.ready = s.ready := hload.others.2.1
  change ClusterdInv (if again then
    { u with ready := u.ready ++ [u.coroutines], coroutines := u.coroutines + 1 } else u)
  obtain ⟨hsenders, howner⟩ := hload.owner h hopenings
  cases again with
  | false =>
    refine ⟨hsenders, howner, fun hnone hnil => ?_⟩
    exact hload.settled h (fun hsome => hload.listed rfl hsome) (hload.others.1.symm.trans hnone)
      (hready.symm.trans hnil)
  | true =>
    refine ⟨⟨hsenders.senders, hsenders.configured⟩, howner, fun _ hnil => ?_⟩
    simp at hnil

def frontEntries (entries : List ConfigEntry) : List ConfigEntry := entries.takeWhile (· ≠ .bad)

theorem loadEntries_nowaiting (hoff : s.nowaiting = false)
    (hentries : ∀ entry ∈ frontEntries entries, entry ≠ .nowaiting true) :
    (s.loadEntries again entries).1.nowaiting = false := by
  induction entries generalizing again s with
  | nil => exact hoff
  | cons entry entries ih =>
    cases entry with
    | nowaiting on =>
      have hon := hentries (.nowaiting on) mem_cons_self
      have hoff : on = false := by
        cases on with
        | false => rfl
        | true => exact absurd rfl hon
      exact ih (s := { s with nowaiting := on }) hoff
        fun entry hmem => hentries entry (mem_cons_of_mem _ hmem)
    | address address =>
      refine ih ?_ fun entry hmem => hentries entry (mem_cons_of_mem _ hmem)
      unfold Clusterd.loadAddress
      simp only
      split
      · exact (setAddress_frame s address).2.2.2.2.2.2.2.2.1.trans hoff
      · rw [(wakeName_frame _).2.2.2.2.2.2.2.2]
        exact (setAddress_frame s address).2.2.2.2.2.2.2.2.1.trans hoff
    | bad => exact hoff

def KeepsAddress (s : Clusterd) : ConfigEntry → Prop
  | .address address => s.nodeAddress = some address
  | .nowaiting _ => True
  | .bad => True

instance (s : Clusterd) : (entry : ConfigEntry) → Decidable (KeepsAddress s entry)
  | .address address => inferInstanceAs (Decidable (s.nodeAddress = some address))
  | .nowaiting _ => inferInstanceAs (Decidable True)
  | .bad => inferInstanceAs (Decidable True)

theorem loadEntries_address (hentries : ∀ entry ∈ frontEntries entries, KeepsAddress s entry) :
    (s.loadEntries again entries).1.nodeAddress = s.nodeAddress := by
  induction entries generalizing again s with
  | nil => rfl
  | cons entry entries ih =>
    cases entry with
    | nowaiting on =>
      refine ih (s := { s with nowaiting := on }) fun entry hmem => ?_
      have hkeeps := hentries entry (mem_cons_of_mem _ hmem)
      cases entry with
      | address address => exact hkeeps
      | nowaiting on => trivial
      | bad => trivial
    | address address =>
      have hsame : s.nodeAddress = some address := hentries _ mem_cons_self
      have hloaded : (s.loadAddress address).nodeAddress = s.nodeAddress := by
        have hset : (s.setAddress address).nodeAddress = s.nodeAddress :=
          (setAddress_frame s address).2.2.2.2.2.2.2.1.trans hsame.symm
        unfold Clusterd.loadAddress
        simp only
        split
        · exact hset
        · exact (wakeName_frame _).2.2.2.2.2.2.2.1.trans hset
      refine (ih fun entry hmem => ?_).trans hloaded
      have hkeeps := hentries entry (mem_cons_of_mem _ hmem)
      cases entry with
      | address address' => exact hloaded.trans hkeeps
      | nowaiting on => trivial
      | bad => trivial
    | bad => rfl

/-! ## Runs -/

/-- No launch fails, and a reload that raises an error changes nothing that somebody sleeps for or
that a sender is to be told. -/
def NobodyStranded (s : Clusterd) : ClusterdAction → Prop
  | .launchFailed _ _ => False
  | .reload entries => .bad ∈ entries →
    (.nowaiting true ∈ frontEntries entries → ∀ o ∈ s.openings, o.stage ≠ .naming)
    ∧ (s.nodeSender ≠ none → s.connecting = none →
      ∀ entry ∈ frontEntries entries, KeepsAddress s entry)
  | _ => True

instance (s : Clusterd) : (a : ClusterdAction) → Decidable (NobodyStranded s a)
  | .launchFailed _ _ => inferInstanceAs (Decidable False)
  | .reload entries => inferInstanceAs (Decidable (.bad ∈ entries →
      (.nowaiting true ∈ frontEntries entries → ∀ o ∈ s.openings, o.stage ≠ .naming)
      ∧ (s.nodeSender ≠ none → s.connecting = none →
        ∀ entry ∈ frontEntries entries, KeepsAddress s entry)))
  | .request => inferInstanceAs (Decidable True)
  | .run _ => inferInstanceAs (Decidable True)
  | .wake _ _ => inferInstanceAs (Decidable True)
  | .named _ => inferInstanceAs (Decidable True)
  | .launched _ _ => inferInstanceAs (Decidable True)
  | .changed _ _ _ => inferInstanceAs (Decidable True)
  | .changeFailed _ _ _ => inferInstanceAs (Decidable True)

theorem ClusterdInv.reload (h : ClusterdInv s) (hok : NobodyStranded s (.reload entries))
    (hkeys : (entries.map ConfigEntry.key).Nodup) : ClusterdInv (s.reload entries) := by
  have hload := (LoadInv.start h entries).loadEntries h hkeys
  unfold Clusterd.reload
  simp only
  split
  · next hbad =>
    obtain ⟨hnowaiting, haddress⟩ := hok hbad
    have hopenings : (s.loadEntries false entries).1.openings = s.openings
          ∧ (∀ o ∈ s.openings, o.stage = .naming → (s.loadEntries false entries).1.nowaiting = false
              ∧ (s.loadEntries false entries).1.nodeAddress = none)
        ∨ ∃ i, s.openings = [⟨i, .naming⟩]
          ∧ (s.loadEntries false entries).1.openings = [⟨i, .named⟩] := by
      rcases hload.asleep with ⟨hsame, hasleep⟩ | hnamed
      · refine .inl ⟨hsame, fun o hmem hnaming => ?_⟩
        obtain ⟨-, -, hoff, -⟩ := h.asleep hmem hnaming
        have hoff' : (s.loadEntries false entries).1.nowaiting = false :=
          loadEntries_nowaiting hoff fun entry hentry heq =>
            hnowaiting (heq ▸ hentry) o hmem hnaming
        exact ⟨hoff', (hasleep o hmem hnaming).1 hoff'⟩
      · exact .inr hnamed
    obtain ⟨hsenders, howner⟩ := hload.owner h hopenings
    obtain ⟨hct, hready, -⟩ := hload.others
    refine ⟨hsenders, howner, fun hnone hnil => ?_⟩
    rw [hct] at hnone
    exact hload.settled h (fun hsome => loadEntries_address (haddress hsome hnone)) hnone
      (hready.symm.trans hnil)
  · exact hload.loaded h

theorem ClusterdInv.resume (h : ClusterdInv s) (hmem : o ∈ s.openings) :
    ∃ ct, s.connecting = some ct ∧ s.openings.erase o = [] ∧ StageRight s o := by
  obtain ⟨ct, hct, hone, hstage⟩ := h.only hmem
  refine ⟨ct, hct, ?_, hstage⟩
  rw [hone, erase_cons_head]

theorem ClusterdInv.wake (h : ClusterdInv s) (i : ℕ) (channel : Option ℕ) :
    ClusterdInv (s.wake i channel) := by
  unfold Clusterd.wake
  split
  · next hct => exact h.wait hct i
  · split
    · exact h.result i _
    · exact h.result i _

theorem ClusterdInv.request (h : ClusterdInv s) : ClusterdInv s.request := by
  unfold Clusterd.request
  have hnew : ClusterdInv { s with coroutines := s.coroutines + 1 } := { h with }
  split
  · exact hnew.result _ _
  · exact hnew.openChannel _

/-- Every step of every coroutine keeps the invariant. -/
theorem ClusterdInv.step (h : ClusterdInv s) {a : ClusterdAction} (hok : NobodyStranded s a)
    (hstep : machine.next s a = some s') : ClusterdInv s' := by
  have htaken (o : Opening) : SenderInv { s with openings := s.openings.erase o } :=
    ⟨h.senders, h.configured⟩
  cases a with
  | request => exact some.inj hstep ▸ h.request
  | reload entries =>
    obtain ⟨hkeys, hstep⟩ := ite_none_right_eq_some.mp hstep
    exact some.inj hstep ▸ h.reload hok hkeys
  | run i =>
    obtain ⟨hmem, hstep⟩ := ite_none_right_eq_some.mp hstep
    rw [← some.inj hstep]
    rcases h.owner with ⟨hnone, hnil⟩ | ⟨ct, o, hct, -, -⟩
    · have hrest : SenderInv { s with ready := s.ready.erase i } := ⟨h.senders, h.configured⟩
      exact hrest.openChannel hnone hnil i
    · have hrest : ClusterdInv { s with ready := s.ready.erase i } :=
        ⟨⟨h.senders, h.configured⟩, h.owner, fun hnone => nomatch hct.symm.trans hnone⟩
      exact hrest.openChannel i
  | wake i channel =>
    obtain ⟨hmem, hstep⟩ := ite_none_right_eq_some.mp hstep
    rw [← some.inj hstep]
    have hrest : ClusterdInv { s with woken := s.woken.erase (i, channel) } := { h with }
    exact hrest.wake i channel
  | named i =>
    obtain ⟨hmem, hstep⟩ := ite_none_right_eq_some.mp hstep
    rw [← some.inj hstep]
    obtain ⟨ct, hct, hnil, -⟩ := h.resume hmem
    exact (htaken _).connect hct hnil i
  | launched i text =>
    obtain ⟨hmem, hstep⟩ := ite_none_right_eq_some.mp hstep
    rw [← some.inj hstep]
    obtain ⟨ct, hct, hnil, hnone, haddress⟩ := h.resume hmem
    exact (htaken _).launch hct hnil hnone haddress i text
  | launchFailed i text => exact hok.elim
  | changed i address c =>
    obtain ⟨hmem, hstep⟩ := ite_none_right_eq_some.mp hstep
    rw [← some.inj hstep]
    obtain ⟨ct, hct, hnil, hsender, hlast⟩ := h.resume hmem
    exact (htaken _).change hnil hsender hlast i
  | changeFailed i address c =>
    obtain ⟨hmem, hstep⟩ := ite_none_right_eq_some.mp hstep
    rw [← some.inj hstep]
    obtain ⟨ct, hct, hnil, hsender, hlast⟩ := h.resume hmem
    exact (htaken _).finish hnil hsender hlast i none none

theorem clusterdInv_run (h : machine.Reach NobodyStranded s) : ClusterdInv s := by
  refine h.invariant ?_ ?_
  · rintro _ rfl
    exact .init
  · intro s a s' hinv hok hstep
    exact hinv.step hok hstep

/-! ## Those that wait -/

def StillWaits (s s' : Clusterd) : Prop := ∀ ct, s.connecting = some ct → ∀ i ∈ ct.waiting,
    (∃ ct', s'.connecting = some ct' ∧ i ∈ ct'.waiting) ∨ ∃ channel, (i, channel) ∈ s'.woken

theorem StillWaits.of_eq (hct : s'.connecting = s.connecting) : StillWaits s s' :=
  fun ct hct' _ hi => .inl ⟨ct, hct.trans hct', hi⟩

theorem stillWaits_wait (hct : s.connecting = some ct) (i : ℕ) : StillWaits s (s.wait ct i) := by
  intro ct' hct' j hj
  obtain rfl := some.inj (hct.symm.trans hct')
  exact .inl ⟨_, rfl, mem_append_left _ hj⟩

theorem stillWaits_release (s : Clusterd) (channel : Option ℕ) :
    StillWaits s (s.release channel) := by
  intro ct hct i hi
  refine .inr ⟨channel, ?_⟩
  rw [release, hct]
  exact mem_append_right _ (List.mem_map.mpr ⟨i, hi, rfl⟩)

theorem stillWaits_connect (s : Clusterd) (i : ℕ) (address : Option NodeAddress) :
    StillWaits s (s.connect i address) := by
  unfold connect
  split
  · exact .of_eq rfl
  · exact .of_eq rfl
  · exact .of_eq rfl
  · exact stillWaits_release s none
  · exact stillWaits_release s none

theorem openChannel_woken (s : Clusterd) (i : ℕ) : ∀ p ∈ s.woken, p ∈ (s.openChannel i).woken := by
  intro p hp
  unfold openChannel
  split
  · exact hp
  · split
    · exact hp
    · unfold connect
      split
      · exact hp
      · exact hp
      · exact hp
      · simpa [release, Clusterd.result] using hp
      · simpa [release, Clusterd.result] using hp

theorem stillWaits_openChannel (s : Clusterd) (i : ℕ) : StillWaits s (s.openChannel i) := by
  unfold openChannel
  split
  · next hct => exact stillWaits_wait hct i
  · next hnone =>
    intro ct hct
    exact nomatch hct.symm.trans hnone

theorem stillWaits_finish (s : Clusterd) (i : ℕ) (address : NodeAddress) (channel : Option ℕ)
    (r : Option (Option ℕ)) : StillWaits s (s.finish i address channel r) := by
  have hreleased := stillWaits_release s channel
  intro ct hct j hj
  rcases hreleased ct hct j hj with ⟨ct', hct', -⟩ | ⟨channel', hwoken⟩
  · exact nomatch hct'.symm.trans (release_frame s channel).2.2.2.2.1
  · refine .inr ⟨channel', ?_⟩
    unfold Clusterd.finish
    split
    · exact hwoken
    · exact openChannel_woken _ i _ hwoken

theorem stillWaits_step (h : ClusterdInv s) {a : ClusterdAction} (hok : NobodyStranded s a)
    (hstep : machine.next s a = some s') : StillWaits s s' := by
  cases a with
  | request =>
    rw [← some.inj hstep]
    unfold Clusterd.request
    split
    · exact .of_eq rfl
    · exact stillWaits_openChannel { s with coroutines := s.coroutines + 1 } _
  | reload entries =>
    obtain ⟨hkeys, hstep⟩ := ite_none_right_eq_some.mp hstep
    rw [← some.inj hstep]
    refine .of_eq ?_
    have hload := ((LoadInv.start h entries).loadEntries h hkeys).others.1
    unfold Clusterd.reload
    simp only
    split
    · exact hload
    · unfold Clusterd.loaded
      have hwake := (wakeName_frame (s.loadEntries false entries).1).2.2.2.2.1
      cases (s.loadEntries false entries).1.nowaiting <;>
        cases (s.loadEntries false entries).2 <;> simp [hload, hwake]
  | run i =>
    obtain ⟨-, hstep⟩ := ite_none_right_eq_some.mp hstep
    rw [← some.inj hstep]
    exact stillWaits_openChannel { s with ready := s.ready.erase i } i
  | wake i channel =>
    obtain ⟨-, hstep⟩ := ite_none_right_eq_some.mp hstep
    rw [← some.inj hstep]
    unfold Clusterd.wake
    split
    · next hct => exact stillWaits_wait hct i
    · next hnone =>
      intro ct hct
      exact nomatch hct.symm.trans hnone
  | named i =>
    obtain ⟨-, hstep⟩ := ite_none_right_eq_some.mp hstep
    rw [← some.inj hstep]
    exact stillWaits_connect { s with openings := s.openings.erase ⟨i, .named⟩ } i _
  | launched i text =>
    obtain ⟨-, hstep⟩ := ite_none_right_eq_some.mp hstep
    rw [← some.inj hstep]
    unfold Clusterd.launch
    split
    · exact .of_eq rfl
    · exact .of_eq rfl
  | launchFailed i text => exact hok.elim
  | changed i address c =>
    obtain ⟨-, hstep⟩ := ite_none_right_eq_some.mp hstep
    rw [← some.inj hstep]
    cases address with
    | on text =>
      exact stillWaits_finish
        { s with
          openings := s.openings.erase ⟨i, .calling (.on text) c⟩
          nodeChannel := some c } i _ _ _
    | off =>
      exact stillWaits_finish { s with openings := s.openings.erase ⟨i, .calling .off c⟩ } i _ _ _
  | changeFailed i address c =>
    obtain ⟨-, hstep⟩ := ite_none_right_eq_some.mp hstep
    rw [← some.inj hstep]
    exact stillWaits_finish { s with openings := s.openings.erase ⟨i, .calling address c⟩ } i _ _ _

/-! ## The node -/

def NodeQuiet (s : Clusterd) : Prop :=
  s.ready = [] ∧ s.woken = [] ∧ ∀ o ∈ s.openings, o.stage = .naming

structure NodeServed (s : Clusterd) : Prop where
  one : s.openings.length ≤ 1
  runs : s.connecting ≠ none → s.openings ≠ []
  sleeps : ∀ o ∈ s.openings, o.stage = .naming → s.nodeAddress = none ∧ s.nowaiting = false
  senders : ∀ c < s.launches, c ∉ s.killed → s.nodeSender = some c
  settled : NodeQuiet s → ∀ c, s.nodeSender = some c →
    ∃ address, s.nodeAddress = some address ∧ lastChange s c = some address.target

theorem ClusterdInv.served (h : ClusterdInv s) : NodeServed s where
  one := by
    rcases h.owner with ⟨-, hnil⟩ | ⟨ct, o, -, hone, -⟩
    · simp [hnil]
    · simp [hone]
  runs := by
    intro hne
    obtain ⟨ct, hct⟩ := ne_none_iff_exists'.mp hne
    exact h.running hct
  sleeps := by
    intro o hmem hnaming
    obtain ⟨-, haddress, hnowaiting, -⟩ := h.asleep hmem hnaming
    exact ⟨haddress, hnowaiting⟩
  senders := h.senders
  settled := by
    rintro ⟨hready, -, hnaming⟩ c hc
    rcases h.owner with ⟨hnone, -⟩ | ⟨ct, o, -, hone, -⟩
    · exact h.settled hnone hready c hc
    · have hmem : o ∈ s.openings := hone ▸ mem_singleton_self o
      obtain ⟨hsender, -⟩ := h.asleep hmem (hnaming o hmem)
      exact nomatch hc.symm.trans hsender

/-- One coroutine connects, it wakes those that wait, and the sender is told the address. -/
theorem node_never_stranded (s : Clusterd) :
    machine.Reach NobodyStranded s → NodeServed s
      ∧ ∀ a s', NobodyStranded s a → machine.next s a = some s' → StillWaits s s' := by
  intro h
  have hinv := clusterdInv_run h
  exact ⟨hinv.served, fun a s' hok hstep => stillWaits_step hinv hok hstep⟩

/-- A request connects, another one waits for it, and the address changes meanwhile: the sender is
told the new one, and both requests get the sender. -/
theorem node_follows_reload : ∃ s, NodeServed s ∧ NodeQuiet s ∧ s.nodeSender = some 0
    ∧ s.nodeAddress = some (.on [104, 58, 50]) ∧ lastChange s 0 = some (some ([104], [50]))
    ∧ s.results = [(0, some (some 0)), (1, some (some 0))] := by
  have hrun : (machine.runOk NobodyStranded init [.reload [.address (.on [104, 58, 49])], .request,
      .request, .reload [.address (.on [104, 58, 50])], .launched 0 [104, 58, 49],
      .changed 0 (.on [104, 58, 49]) 0, .wake 1 (some 0), .changed 0 (.on [104, 58, 50]) 0,
      .wake 1 (some 0)]).map
      (fun s => decide ((s.nodeSender = some 0 ∧ s.nodeAddress = some (.on [104, 58, 50])
        ∧ lastChange s 0 = some (some ([104], [50]))
        ∧ s.results = [(0, some (some 0)), (1, some (some 0))])
        ∧ s.ready = [] ∧ s.woken = [] ∧ s.openings = [])) = some true := by
    decide
  obtain ⟨s, hs, hstate⟩ := map_eq_some_iff.mp hrun
  obtain ⟨⟨hsender, haddress, hlast, hresults⟩, hready, hwoken, hopenings⟩ :=
    of_decide_eq_true hstate
  have hreach : machine.Reach NobodyStranded s := Machine.Reach.runOk (.start rfl) hs
  exact ⟨s, (node_never_stranded s hreach).1, ⟨hready, hwoken, hopenings ▸ nofun⟩, hsender,
    haddress, hlast, hresults⟩

/-- The launch for an address without a port fails; after the address has been corrected nobody
connects, and the requests wait. -/
theorem node_stranded : ∃ s ct, machine.Reachable s ∧ NodeQuiet s
    ∧ s.nodeAddress = some (.on [104, 58, 49]) ∧ s.connecting = some ct ∧ ct.waiting = [1, 2]
    ∧ s.openings = [] ∧ s.results = [(0, none)] ∧ ¬ NodeServed s := by
  have hrun : (machine.run init [.reload [.address (.on [104])], .request, .request,
      .launchFailed 0 [104], .reload [.address (.on [104, 58, 49])], .request]).map
      (fun s => decide ((s.nodeAddress = some (.on [104, 58, 49])
        ∧ s.connecting = some ⟨[1, 2], none⟩ ∧ s.results = [(0, none)])
        ∧ s.ready = [] ∧ s.woken = [] ∧ s.openings = [])) = some true := by
    decide
  obtain ⟨s, hs, hstate⟩ := map_eq_some_iff.mp hrun
  obtain ⟨⟨haddress, hct, hresults⟩, hready, hwoken, hopenings⟩ := of_decide_eq_true hstate
  refine ⟨s, _, Machine.Reachable.run (.start rfl) hs, ⟨hready, hwoken, hopenings ▸ nofun⟩,
    haddress, hct, rfl, hopenings, hresults, fun hserved => ?_⟩
  exact hserved.runs (hct ▸ nofun) hopenings

end Skynet.Analysis
