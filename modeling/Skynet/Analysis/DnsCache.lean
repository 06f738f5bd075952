import Skynet.Library.Outcome
import Skynet.Model.Dns

/-!
# What the DNS cache is told

The cache is keyed by what a packet says it was asked, and the waiting queries by the id of
the packet; `resolve` writes the one before it looks at the other, and goes on where the
names differ.  So the cache holds answers to questions asked exactly as long as the packets
are such answers.
-/

namespace Skynet.Analysis

open Library Model Dns List Option

variable {hosts : DnsName → Bool → Option (List DnsName)} {s s' : Dns} {e : DnsEvent}
  {p : DnsPacket} {content : Bytes}

/-! ## What is to hold -/

def newPuts (s s' : Dns) : List (ℕ × DnsName) := s'.puts.drop s.puts.length

/-- The packet is an answer to a query that waits: it has the query's id, and its question
and all its answers name the query's host. -/
def AnswersQuery (s : Dns) (content : Bytes) : Prop :=
  ∃ p req, unpackPacket content = .ok p ∧ s.requestPool.get p.tid = some req ∧
    p.question.name = req.name ∧ ∀ a ∈ p.answers, a.name = req.name

/-- What a step does to the cache: what is put there is for the host and the type of the
query that waits with the packet's id, nothing else gets there, and a packet that is no
answer to a query that waits changes neither the cache nor a query. -/
structure CachesAsked (s : Dns) (e : DnsEvent) (s' : Dns) : Prop where
  asked : ∀ key ∈ newPuts s s', ∃ content p req, e = .packet content ∧
    unpackPacket content = .ok p ∧ s.requestPool.get p.tid = some req ∧ key = (req.qtype, req.name)
  known : ∀ key entry, s'.cache.get key = some entry →
    s.cache.get key = some entry ∨ key ∈ newPuts s s'
  strange : ∀ content, e = .packet content → ¬AnswersQuery s content →
    s'.cache = s.cache ∧ s'.requestPool = s.requestPool ∧ s'.woken = s.woken

def CarriesAddress (a : DnsAnswer) : Prop := a.atype = qtypeA ∨ a.atype = qtypeAAAA

/-- A packet that can be read has the id of a query that waits, asks for its host, and its
answers are for that host, the addresses of the query's type; or it has the id of none and
carries no address. -/
def WellAddressed (s : Dns) : DnsEvent → Prop
  | .packet content => ∀ p, unpackPacket content = .ok p →
    match s.requestPool.get p.tid with
    | none => ∀ a ∈ p.answers, ¬CarriesAddress a
    | some req => p.question.name = req.name ∧
      ∀ a ∈ p.answers, a.name = req.name ∧ (CarriesAddress a → a.atype = req.qtype)
  | _ => True

/-! ## Packets that can be read -/

theorem unpackRdata_isSome {qtype : ℕ} {rdata : Bytes} {address : Option DnsAddress}
    (h : unpackRdata qtype rdata = .ok address) :
    address.isSome ↔ qtype = qtypeA ∨ qtype = qtypeAAAA := by
  unfold unpackRdata at h
  split at h
  · next hA =>
    cases hread : unpackNumbers 1 rdata 4 0 with
    | error fault => rw [hread] at h; cases h
    | ok as => rw [hread] at h; cases h; simp [hA]
  · next hA =>
    split at h
    · next hAAAA =>
      cases hread : unpackNumbers 2 rdata 8 0 with
      | error fault => rw [hread] at h; cases h
      | ok as => rw [hread] at h; cases h; simp [hAAAA]
    · next hAAAA => cases h; simp [hA, hAAAA]

variable {chunk : Bytes}

theorem unpackAnswer_address {left : ℕ} {r : DnsAnswer × ℕ}
    (h : unpackAnswer chunk left = .ok r) : r.1.address.isSome ↔ CarriesAddress r.1 := by
  obtain ⟨⟨name, left₁⟩, -, h⟩ := bind_eq_ok.mp h
  obtain ⟨⟨atype, left₂⟩, -, h⟩ := bind_eq_ok.mp h
  obtain ⟨⟨class', left₃⟩, -, h⟩ := bind_eq_ok.mp h
  obtain ⟨⟨ttl, left₄⟩, -, h⟩ := bind_eq_ok.mp h
  obtain ⟨⟨rdata, left₅⟩, -, h⟩ := bind_eq_ok.mp h
  obtain ⟨address, haddress, h⟩ := bind_eq_ok.mp h
  rw [← Except.ok.inj h]
  exact unpackRdata_isSome haddress

theorem unpackAnswers_address {count left : ℕ} {as : List DnsAnswer}
    (h : unpackAnswers chunk count left = .ok as) {a : DnsAnswer} (ha : a ∈ as) :
    a.address.isSome ↔ CarriesAddress a := by
  induction count generalizing left as with
  | zero =>
    rw [← Except.ok.inj h] at ha
    nomatch ha
  | succ count ih =>
    obtain ⟨r, hanswer, h⟩ := bind_eq_ok.mp h
    obtain ⟨rest, hrest, h⟩ := bind_eq_ok.mp h
    rw [← Except.ok.inj h, mem_cons] at ha
    rcases ha with rfl | ha
    · exact unpackAnswer_address hanswer
    · exact ih hrest ha

theorem unpackNumber_ok {n : ℕ} {left : ℕ} {r : ℕ × ℕ}
    (h : unpackNumber n chunk left = .ok r) : r.2 = left + n ∧ left + n ≤ chunk.length := by
  unfold unpackNumber at h
  split at h
  · next hlen => exact ⟨(Except.ok.inj h) ▸ rfl, hlen⟩
  · nomatch h

theorem unpackPacket_ok (h : unpackPacket content = .ok p) : dnsHeaderLen ≤ content.length ∧
    ∃ ancount left, unpackAnswers content ancount left = .ok p.answers := by
  obtain ⟨⟨tid, left₁⟩, h₁, h⟩ := bind_eq_ok.mp h
  obtain ⟨⟨flags, left₂⟩, h₂, h⟩ := bind_eq_ok.mp h
  obtain ⟨⟨qdcount, left₃⟩, h₃, h⟩ := bind_eq_ok.mp h
  obtain ⟨⟨ancount, left₄⟩, h₄, h⟩ := bind_eq_ok.mp h
  obtain ⟨⟨nscount, left₅⟩, h₅, h⟩ := bind_eq_ok.mp h
  obtain ⟨⟨arcount, left₆⟩, h₆, h⟩ := bind_eq_ok.mp h
  have hlen : 0 + 2 + 2 + 2 + 2 + 2 + 2 ≤ content.length := by
    rw [← (unpackNumber_ok h₁).1, ← (unpackNumber_ok h₂).1, ← (unpackNumber_ok h₃).1,
      ← (unpackNumber_ok h₄).1, ← (unpackNumber_ok h₅).1]
    exact (unpackNumber_ok h₆).2
  dsimp only at h
  split at h
  · nomatch h
  · obtain ⟨⟨question, left₇⟩, -, h⟩ := bind_eq_ok.mp h
    obtain ⟨answers, hanswers, h⟩ := bind_eq_ok.mp h
    rw [← Except.ok.inj h]
    exact ⟨hlen, ancount, left₇, hanswers⟩

theorem addresses_eq_nil_iff (h : unpackPacket content = .ok p) {qtype : ℕ}
    (hqtype : qtype = qtypeA ∨ qtype = qtypeAAAA) :
    addresses qtype p.answers = [] ↔ ∀ a ∈ p.answers, a.atype ≠ qtype := by
  obtain ⟨-, ancount, left, hanswers⟩ := unpackPacket_ok h
  simp only [addresses, filterMap_eq_nil_iff, mem_filter, decide_eq_true_eq, and_imp]
  refine forall₂_congr fun a ha => ?_
  constructor
  · intro hnone htype
    have hsome := (unpackAnswers_address hanswers ha).mpr (by rwa [CarriesAddress, htype])
    rw [hnone htype] at hsome
    nomatch hsome
  · exact fun hne htype => absurd htype hne

/-! ## Steps -/

theorem cachePut_puts (s : Dns) (qtype : ℕ) (p : DnsPacket) : (s.cachePut qtype p).puts =
    s.puts ++ if addresses qtype p.answers = [] then [] else [(qtype, p.question.name)] := by
  unfold cachePut
  split <;> simp

variable {key : ℕ × DnsName}

theorem cachePut_get (s : Dns) (qtype : ℕ) (p : DnsPacket)
    (hkey : (s.cachePut qtype p).puts = s.puts ∨ key ≠ (qtype, p.question.name)) :
    (s.cachePut qtype p).cache.get key = s.cache.get key := by
  unfold cachePut at hkey ⊢
  split
  · rfl
  · next hsome =>
    rw [if_neg hsome] at hkey
    rcases hkey with hkey | hkey
    · simp at hkey
    · exact (Table.get_put _ _ _ _).trans (if_neg hkey)

@[simp] theorem cachePut_requestPool (s : Dns) (qtype : ℕ) (p : DnsPacket) :
    (s.cachePut qtype p).requestPool = s.requestPool := by
  unfold cachePut
  split <;> rfl

@[simp] theorem cachePut_woken (s : Dns) (qtype : ℕ) (p : DnsPacket) :
    (s.cachePut qtype p).woken = s.woken := by
  unfold cachePut
  split <;> rfl

theorem genTid_cases {r : ℕ × Dns} (h : s.genTid = some r) :
    s.requestPool.get r.1 = none ∧ ∃ n, r.2 = { s with nextTid := n } := by
  obtain ⟨tid, htid, rfl⟩ := map_eq_some_iff.mp h
  split at htid
  · simpa using find?_some htid
  · next hfree =>
    rw [← some.inj htid]
    simpa using hfree

/-- A call of `dns.resolve` changes nothing, or the next id alone, or it suspends a query
under the id that `gen_tid` finds. -/
theorem resolve_cases (hosts : DnsName → Bool → Option (List DnsName)) (s : Dns)
    (name : DnsName) (ipv6 served : Bool) :
    (s.resolve hosts name ipv6 served).2 = s ∨
    (∃ n, (s.resolve hosts name ipv6 served).2 = { s with nextTid := n }) ∨
    ∃ n tid written name' qtype, s.genTid = some (tid, { s with nextTid := n }) ∧
      (s.resolve hosts name ipv6 served).2 =
        { s with nextTid := n, written := written }.suspend tid name' qtype := by
  unfold resolve
  dsimp only
  split
  · split <;> exact .inl rfl
  · split
    · exact .inl rfl
    · split
      · exact .inl rfl
      · unfold remoteResolve
        dsimp only
        split
        · exact .inl rfl
        · split
          · exact .inl rfl
          · next tid s₁ hgen =>
            obtain ⟨-, n, rfl⟩ := genTid_cases hgen
            split
            · exact .inr (.inr ⟨n, tid, _, _, _, hgen, rfl⟩)
            · exact .inr (.inl ⟨n, rfl⟩)

def packetPuts (p : DnsPacket) : List (ℕ × DnsName) :=
  (if addresses qtypeA p.answers = [] then [] else [(qtypeA, p.question.name)]) ++
    if addresses qtypeAAAA p.answers = [] then [] else [(qtypeAAAA, p.question.name)]

theorem receive_puts (s : Dns) (p : DnsPacket) : (s.receive p).puts = s.puts ++ packetPuts p := by
  unfold receive packetPuts
  dsimp only
  rw [← append_assoc, ← cachePut_puts, ← cachePut_puts]
  split <;> rfl

theorem receive_cache (s : Dns) (p : DnsPacket) :
    (s.receive p).cache = ((s.cachePut qtypeA p).cachePut qtypeAAAA p).cache := by
  unfold receive
  dsimp only
  split <;> rfl

theorem receive_get (s : Dns) (p : DnsPacket) (hkey : key ∉ packetPuts p) :
    (s.receive p).cache.get key = s.cache.get key := by
  have hput : ∀ (s : Dns) (qtype : ℕ), (addresses qtype p.answers ≠ [] →
      key ≠ (qtype, p.question.name)) → (s.cachePut qtype p).cache.get key = s.cache.get key := by
    intro s qtype hne
    apply cachePut_get
    rw [cachePut_puts]
    by_cases hnil : addresses qtype p.answers = []
    · exact .inl (by simp [hnil])
    · exact .inr (hne hnil)
  unfold packetPuts at hkey
  rw [mem_append, not_or] at hkey
  rw [receive_cache, hput, hput]
  · intro hsome heq
    exact hkey.1 (by simp [hsome, heq])
  · intro hsome heq
    exact hkey.2 (by simp [hsome, heq])

theorem mem_packetPuts (h : unpackPacket content = .ok p) :
    key ∈ packetPuts p ↔
      key.2 = p.question.name ∧ ∃ a ∈ p.answers, CarriesAddress a ∧ key.1 = a.atype := by
  have hput : ∀ qtype, qtype = qtypeA ∨ qtype = qtypeAAAA →
      (key ∈ (if addresses qtype p.answers = [] then [] else [(qtype, p.question.name)]) ↔
        key.2 = p.question.name ∧ ∃ a ∈ p.answers, a.atype = qtype ∧ key.1 = a.atype) := by
    intro qtype hqtype
    have hnil := addresses_eq_nil_iff h hqtype
    by_cases hempty : addresses qtype p.answers = []
    · rw [if_pos hempty]
      refine iff_of_false not_mem_nil ?_
      rintro ⟨-, a, ha, htype, -⟩
      exact hnil.mp hempty a ha htype
    · rw [if_neg hempty, mem_singleton, Prod.ext_iff]
      rw [hnil] at hempty
      push Not at hempty
      obtain ⟨a, ha, htype⟩ := hempty
      constructor
      · exact fun ⟨h₁, h₂⟩ => ⟨h₂, a, ha, htype, h₁.trans htype.symm⟩
      · exact fun ⟨h₂, b, _, hb, h₁⟩ => ⟨h₁.trans hb, h₂⟩
  unfold packetPuts
  rw [mem_append, hput _ (.inl rfl), hput _ (.inr rfl), ← and_or_left]
  refine and_congr_right fun _ => ?_
  constructor
  · rintro (⟨a, ha, htype, hkey⟩ | ⟨a, ha, htype, hkey⟩)
    · exact ⟨a, ha, .inl htype, hkey⟩
    · exact ⟨a, ha, .inr htype, hkey⟩
  · rintro ⟨a, ha, htype | htype, hkey⟩
    · exact .inl ⟨a, ha, htype, hkey⟩
    · exact .inr ⟨a, ha, htype, hkey⟩

theorem receive_of_some {req : DnsRequest} (hreq : s.requestPool.get p.tid = some req) :
    ∃ result, (s.receive p).woken = s.woken ++ [⟨req.co, .answer p, s.now, result⟩] ∧
      (s.receive p).requestPool = s.requestPool.put req.tid none := by
  have hnow : ((s.cachePut qtypeA p).cachePut qtypeAAAA p).now = s.now := by
    unfold cachePut
    split <;> split <;> rfl
  unfold receive
  dsimp only
  rw [cachePut_requestPool, cachePut_requestPool, hreq]
  simp [wakeup, hnow]

theorem receive_of_none (hnone : s.requestPool.get p.tid = none) :
    (s.receive p).woken = s.woken ∧ (s.receive p).requestPool = s.requestPool := by
  unfold receive
  dsimp only
  rw [cachePut_requestPool, cachePut_requestPool, hnone]
  simp

theorem quiet_step (hstep : s.next hosts e = some s') (hpacket : ∀ content, e ≠ .packet content) :
    s'.puts = s.puts ∧ ∀ key entry, s'.cache.get key = some entry →
      s.cache.get key = some entry := by
  cases e with
  | packet content => exact absurd rfl (hpacket content)
  | resolve name ipv6 served =>
    rw [← some.inj hstep]
    rcases resolve_cases hosts s name ipv6 served with hsame | ⟨n, hid⟩ |
      ⟨n, tid, written, name', qtype, -, hsuspend⟩
    · rw [hsame]
      exact ⟨rfl, fun _ _ h => h⟩
    · rw [hid]
      exact ⟨rfl, fun _ _ h => h⟩
    · rw [hsuspend]
      exact ⟨rfl, fun _ _ h => h⟩
  | timer i =>
    obtain ⟨t, -, hfire⟩ := bind_eq_some_iff.mp hstep
    split at hfire
    · rw [← some.inj hfire]
      unfold fire
      split <;> exact ⟨rfl, fun _ _ h => h⟩
    · nomatch hfire
  | tick =>
    rw [← some.inj hstep]
    exact ⟨rfl, fun _ _ h => h⟩
  | flush =>
    rw [← some.inj hstep]
    refine ⟨rfl, fun key entry h => ?_⟩
    nomatch h
  | collect qtype name =>
    rw [← some.inj hstep]
    refine ⟨rfl, fun key entry h => ?_⟩
    rw [Table.get_put] at h
    split at h
    · nomatch h
    · exact h

theorem next_packet (hosts : DnsName → Bool → Option (List DnsName)) (s : Dns)
    (h : unpackPacket content = .ok p) : s.next hosts (.packet content) = some (s.receive p) := by
  have hlen := (unpackPacket_ok h).1
  change s.receivePacket content = some (s.receive p)
  rw [receivePacket, if_neg (by omega), h]

theorem receivePacket_cases (h : s.receivePacket content = some s') :
    s' = s ∧ (∀ p, unpackPacket content ≠ .ok p) ∨
      ∃ p, unpackPacket content = .ok p ∧ s' = s.receive p := by
  unfold receivePacket at h
  split at h
  · refine .inl ⟨(some.inj h).symm, fun p hp => ?_⟩
    exact absurd (unpackPacket_ok hp).1 (by omega)
  · split at h
    · next p hp => exact .inr ⟨p, hp, (some.inj h).symm⟩
    · next hp => exact .inl ⟨(some.inj h).symm, fun p hok => by rw [hp] at hok; cases hok⟩
    · nomatch h

/-- One step: the cache is told what was asked exactly where the packet is well
addressed. -/
theorem cachesAsked_iff (hstep : s.next hosts e = some s') :
    CachesAsked s e s' ↔ WellAddressed s e := by
  by_cases hpacket : ∀ content, e ≠ .packet content
  · obtain ⟨hputs, hcache⟩ := quiet_step hstep hpacket
    refine iff_of_true ⟨?_, fun key entry h => .inl (hcache key entry h), ?_⟩ ?_
    · rw [newPuts, hputs, drop_length]
      nofun
    · exact fun content he => absurd he (hpacket content)
    · cases e with
      | packet content => exact absurd rfl (hpacket content)
      | _ => trivial
  · push Not at hpacket
    obtain ⟨content, rfl⟩ := hpacket
    rcases receivePacket_cases hstep with ⟨rfl, hnone⟩ | ⟨p, hp, rfl⟩
    · refine iff_of_true ⟨?_, fun key entry h => .inl h, fun _ _ _ => ⟨rfl, rfl, rfl⟩⟩ ?_
      · rw [newPuts, drop_length]
        nofun
      · exact fun p hp => absurd hp (hnone p)
    · have hnew : newPuts s (s.receive p) = packetPuts p := by
        rw [newPuts, receive_puts, drop_left]
      have hread : ∀ {content' : Bytes} {p' : DnsPacket},
          DnsEvent.packet content = .packet content' → unpackPacket content' = .ok p' → p' = p := by
        rintro content' p' he hp'
        rw [← (DnsEvent.packet.inj he), hp] at hp'
        exact (Except.ok.inj hp').symm
      constructor
      · intro hc q hq
        rw [hp] at hq
        cases hq
        -- What is put into the cache is for a query that waits.
        have hput : ∀ a ∈ p.answers, CarriesAddress a → ∃ req,
            s.requestPool.get p.tid = some req ∧ a.atype = req.qtype := by
          intro a ha haddr
          have hmem : (a.atype, p.question.name) ∈ newPuts s (s.receive p) := by
            rw [hnew, mem_packetPuts hp]
            exact ⟨rfl, a, ha, haddr, rfl⟩
          obtain ⟨content', p', req, he, hp', hreq, hkey⟩ := hc.asked _ hmem
          obtain rfl := hread he hp'
          exact ⟨req, hreq, congrArg Prod.fst hkey⟩
        split
        · next hnone =>
          intro a ha haddr
          obtain ⟨req, hreq, -⟩ := hput a ha haddr
          rw [hnone] at hreq
          nomatch hreq
        · next req hreq =>
          -- A query is woken, so the packet is an answer to it.
          have hanswers : AnswersQuery s content := by
            by_contra hno
            obtain ⟨result, hwoken, -⟩ := receive_of_some hreq
            have hsame := (hc.strange content rfl hno).2.2
            rw [hwoken] at hsame
            simp at hsame
          obtain ⟨p', req', hp', hreq', hname, hnames⟩ := hanswers
          obtain rfl := hread rfl hp'
          rw [hreq] at hreq'
          obtain rfl := some.inj hreq'
          refine ⟨hname, fun a ha => ⟨hnames a ha, fun haddr => ?_⟩⟩
          obtain ⟨req', hreq', htype⟩ := hput a ha haddr
          rw [hreq] at hreq'
          rw [htype, some.inj hreq']
      · intro hw
        have hgood := hw p hp
        refine ⟨?_, ?_, ?_⟩
        · intro key hkey
          rw [hnew, mem_packetPuts hp] at hkey
          obtain ⟨hname, a, ha, haddr, htype⟩ := hkey
          split at hgood
          · exact absurd haddr (hgood a ha)
          · next req hreq =>
            exact ⟨content, p, req, rfl, hp, hreq,
              Prod.ext (htype.trans ((hgood.2 a ha).2 haddr)) (hname.trans hgood.1)⟩
        · intro key entry hget
          by_cases hkey : key ∈ packetPuts p
          · exact .inr (hnew ▸ hkey)
          · exact .inl ((receive_get s p hkey) ▸ hget)
        · intro content' he hno
          obtain rfl := DnsEvent.packet.inj he
          split at hgood
          · next hnone =>
            have hempty : ∀ (s : Dns) (qtype : ℕ), qtype = qtypeA ∨ qtype = qtypeAAAA →
                s.cachePut qtype p = s := by
              intro s qtype hqtype
              refine if_pos ((addresses_eq_nil_iff hp hqtype).mpr fun a ha htype => ?_)
              exact hgood a ha (by rwa [CarriesAddress, htype])
            obtain ⟨hwoken, hpool⟩ := receive_of_none hnone
            refine ⟨?_, hpool, hwoken⟩
            rw [receive_cache, hempty _ _ (.inl rfl), hempty _ _ (.inr rfl)]
          · next req hreq =>
            exact absurd ⟨p, req, hp, hreq, hgood.1, fun a ha => (hgood.2 a ha).1⟩ hno

/-- In every run the cache is told what was asked exactly as long as the packets are well
addressed. -/
theorem cache_asked_iff (hosts : DnsName → Bool → Option (List DnsName))
    (events : List DnsEvent) : (dnsMachine hosts).Each CachesAsked .init events ↔
      (dnsMachine hosts).Each (fun s e _ => WellAddressed s e) .init events :=
  Machine.each_congr (I := fun _ => True) (fun _ _ _ _ _ => trivial)
    (fun _ _ _ _ hstep => cachesAsked_iff hstep) trivial events

def strangePacket : Bytes := [0, 9, 0x81, 0x80, 0, 1, 0, 1, 0, 0, 0, 0, 1, 97, 0, 0, 1, 0, 1,
    1, 97, 0, 0, 1, 0, 1, 0, 0, 0, 60, 0, 4, 6, 6, 6, 6]

/-- **An answer to no question.** With no query at all the packet's address goes to the
cache.
SRC: dns.lua:345-357 -/
theorem strange_packet_cached :
    ¬(dnsMachine fun _ _ => none).Each CachesAsked .init [.packet strangePacket] := by
  intro heach
  obtain ⟨hstep, -⟩ := heach _ rfl
  have hput : (1, [97]) ∈ newPuts .init (Dns.init.receive ⟨9, ⟨[97], 1, 1⟩,
      [⟨[97], 1, 1, 60, [6, 6, 6, 6], some [6, 6, 6, 6]⟩]⟩) := by decide
  obtain ⟨content, p, req, -, -, hreq, -⟩ := hstep.asked _ hput
  nomatch hreq

end Skynet.Analysis
