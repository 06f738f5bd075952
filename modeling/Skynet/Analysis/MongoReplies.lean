import Skynet.Analysis.BsonReading
import Skynet.Model.CryptBase64
import Skynet.Model.Mongo

/-!
# What `driver.reply` returns

With a result table the documents are followed to the end of the reply, and without one the
first document is compared with it.  The error document is returned as it is.

The server has to sign the exchange and to report it done.  The comparison of the nonces is
written as `not a == b`, which compares a boolean with a string and never finds a difference, so
that a server which signs the exchange is accepted with any nonce.
-/

namespace Skynet.Analysis

open Library Model List

/-! ## Documents -/

structure InsideReply (data : Bytes) (p : ℕ) : Prop where
  header : p + 4 ≤ data.length
  positive : 0 ≤ int32At data p
  length : p + int32At data p ≤ data.length

inductive Documents (data : Bytes) : ℕ → List ℕ → ℕ → Prop
  | nil (p : ℕ) : Documents data p [] p
  | cons {p q : ℕ} {ps : List ℕ} (hp : p + 4 < data.length) (hlen : 0 < int32At data p)
    (h : Documents data (p + (int32At data p).toNat) ps q) : Documents data p (p :: ps) q

variable {data : Bytes} {p q doc : ℕ} {ps done : List ℕ}

theorem Documents.le (h : Documents data p ps q) : p ≤ q := by
  induction h with
  | nil => exact le_rfl
  | cons hp hlen h ih => omega

theorem Documents.count (h : Documents data p ps q) : ps.length ≤ data.length - p := by
  induction h with
  | nil => exact Nat.zero_le _
  | cons hp hlen h ih =>
    rw [length_cons]
    omega

theorem Documents.head_mem (h : Documents data p ps q) (hne : ps ≠ []) : p ∈ ps := by
  cases h with
  | nil => exact absurd rfl hne
  | cons => exact mem_cons_self

/-- All of them lie inside exactly if the last one ends there. -/
theorem Documents.inside_iff (h : Documents data p ps q) (hp : p ≤ data.length) :
    (∀ x ∈ ps, InsideReply data x) ↔ q ≤ data.length := by
  induction h with
  | nil => simpa using hp
  | @cons p q ps hp hlen h ih =>
    rw [forall_mem_cons]
    constructor
    · rintro ⟨hfirst, hrest⟩
      have := hfirst.length
      exact (ih (by omega)).1 hrest
    · intro hq
      have := h.le
      exact ⟨⟨by omega, hlen.le, by omega⟩, (ih (by omega)).2 hq⟩

theorem setDocument_next (k : ℕ) :
    setDocument (done.map some ++ replicate k none) (done.length + 1) doc =
      (done ++ [doc]).map some ++ replicate (k - 1) none := by
  unfold setDocument
  cases k with
  | zero =>
    simp
  | succ k =>
    rw [if_pos (by simp), replicate_succ]
    simp

/-- The loop comes to the end of documents one after the other. -/
theorem replyDocs_documents (h : Documents data p ps q) (hend : data.length ≤ q + 4) (k : ℕ) :
    replyDocs data p (data.length - p) (done.length + 1)
        (done.map some ++ replicate k none) =
      (.ok (done.length + ps.length + 1, data.length - q),
        (done ++ ps).map some ++ replicate (k - ps.length) none) := by
  induction h generalizing done k with
  | nil p =>
    rw [replyDocs, if_neg (by omega)]
    simp
  | @cons p q ps hp hlen h ih =>
    have hsize : (data.length : ℤ) - p - int32At data p =
        data.length - (p + (int32At data p).toNat : ℕ) := by omega
    rw [replyDocs, if_pos (by omega), if_neg (by omega), setDocument_next, hsize]
    have hstep : replyDocs data _ _ ((done ++ [p]).length + 1) _ = _ := ih hend (k - 1)
    rw [length_append, length_singleton] at hstep
    rw [hstep, length_cons, append_assoc, Nat.sub_sub, Nat.add_comm 1 ps.length,
      Nat.add_assoc done.length 1, Nat.add_comm 1 ps.length]
    rfl

theorem documents_of_replyDocs {sz sz' : ℤ} {i i' : ℕ} {t t' : List (Option ℕ)}
    (hp : (p : ℤ) + sz = data.length) (h : replyDocs data p sz i t = (.ok (i', sz'), t')) :
    ∃ ps q, Documents data p ps q ∧ data.length ≤ q + 4 := by
  induction p, sz, i, t using replyDocs.induct data with
  | case1 doc sz i t hsz hlen =>
    rw [replyDocs, if_pos hsz, if_pos hlen] at h
    cases h
  | case2 doc sz i t hsz hlen ih =>
    rw [replyDocs, if_pos hsz, if_neg hlen] at h
    obtain ⟨ps, q, hps, hq⟩ := ih (by omega) h
    exact ⟨doc :: ps, q, .cons (by omega) (by omega) hps, hq⟩
  | case3 doc sz i t hsz => exact ⟨[], doc, .nil doc, by omega⟩

/-! ## What is returned -/

/-- What a reply is to be checked for: each pointer that is returned, and each one in the
result table, is to a document inside of the reply; when it succeeds, the table has just the
documents that the body consists of, as many as the header says. -/
structure ReplyChecked (data : Bytes) (r : MongoReply) (t : Option (List (Option ℕ))) :
    Prop where
  document : ∀ p, r.document = some p → InsideReply data p
  entries : ∀ es, t = some es → ∀ p, some p ∈ es → InsideReply data p
  tiles : ∀ id p cursorId startFrom, r = .success id p cursorId startFrom → ∀ es, t = some es →
    ∃ ps, es = ps.map some ∧ Documents data replyHeader ps data.length ∧
      (ps.length : ℤ) = replyNumber data

/-- When a reply comes out right: the error document of a failed query is inside; there is a
document if one is returned; and documents do not go on behind the end of the reply unless
they are as many as the header says, which raises an error. -/
structure ReplyHolds (data : Bytes) (earlier : Option ℕ) : Prop where
  failure : queryFailure data = true → InsideReply data replyHeader
  empty : queryFailure data = false → earlier = none → data.length = replyHeader →
    replyNumber data = 0
  overrun : queryFailure data = false → earlier ≠ none →
    ∀ ps q, Documents data replyHeader ps q → data.length < q → (ps.length : ℤ) = replyNumber data

/-- A reply that is no success leaves the table as it was. -/
theorem checked_earlier {r : MongoReply} (earlier : Option ℕ)
    (hr : ∀ id p cursorId startFrom, r ≠ .success id p cursorId startFrom) :
    ReplyChecked data r (earlier.map (replicate · none)) ↔
      ∀ p, r.document = some p → InsideReply data p := by
  refine ⟨fun h => h.document, fun h => ⟨h, ?_, fun _ _ _ _ heq => absurd heq (hr _ _ _ _)⟩⟩
  intro es hes p hp
  obtain ⟨k, -, rfl⟩ := Option.map_eq_some_iff.1 hes
  cases eq_of_mem_replicate hp

@[simp] theorem document_success {id startFrom : ℤ} {p : Option ℕ}
    {cursorId : Option Bytes} : (MongoReply.success id p cursorId startFrom).document = p :=
  rfl

theorem replySuccess_eq {sz : ℤ} {r : MongoReply} (h : replySuccess data sz = .ok r) :
    sz = 0 ∧ r.document = (if replyNumber data = 0 then none else some replyHeader) ∧
      ∃ id p cursorId startFrom, r = .success id p cursorId startFrom := by
  by_cases hsz : sz = 0
  · simp only [replySuccess, hsz, ne_eq, not_true_eq_false, if_false, Except.ok.injEq] at h
    exact ⟨hsz, by rw [← h, document_success], _, _, _, _, h.symm⟩
  · simp only [replySuccess, ne_eq, hsz, not_false_eq_true, if_true] at h
    cases h

variable (hlt : (data.length : ℤ) < 2 ^ 31) (hlong : replyHeader ≤ data.length)

include hlt hlong in
/-- Without a table. -/
theorem single_checked_iff :
    (data.length = replyHeader → replyNumber data = 0) ↔
      ∀ r, replySuccess data (if (4 : ℤ) ≤ data.length - replyHeader then
        toInt32 (data.length - replyHeader - int32At data replyHeader)
        else data.length - replyHeader) = .ok r → ReplyChecked data r none := by
  have hheader : replyHeader = 32 := rfl
  obtain ⟨hlow, hhigh, k, hk⟩ := toInt32_spec (data.length - replyHeader - int32At data replyHeader)
  have hfirst : -2 ^ 31 ≤ int32At data replyHeader ∧ int32At data replyHeader < 2 ^ 31 :=
    toInt32_bounds _
  constructor
  · intro hempty r hr
    obtain ⟨hsz, hdoc, -⟩ := replySuccess_eq hr
    refine ⟨fun p hp => ?_, by simp, by simp⟩
    rw [hdoc] at hp
    split_ifs at hp with hnumber
    cases hp
    split_ifs at hsz with hbody
    · exact ⟨by omega, by omega, by omega⟩
    · exact absurd (hempty (by omega)) hnumber
  · intro h heq
    by_contra hnumber
    unfold replySuccess at h
    rw [if_neg (by omega)] at h
    have hinside := (h _ rfl).document replyHeader (by rw [document_success, if_neg hnumber])
    have := hinside.header
    omega

include hlt in
theorem fillTable_eq (h : Documents data replyHeader ps q) (hend : data.length ≤ q + 4) (k : ℕ) :
    fillTable data (data.length - replyHeader) (replicate k none) =
      if (ps.length : ℤ) ≠ replyNumber data then
        (.ok (.mismatch (int32At data 4)), ps.map some ++ replicate (k - ps.length) none)
      else (replySuccess data (data.length - q), ps.map some) := by
  have hloop : replyDocs data _ _ (([] : List ℕ).length + 1) _ = _ := replyDocs_documents h hend k
  have hheader : replyHeader = 32 := rfl
  have hcount := h.count
  have hnumber : -2 ^ 31 ≤ replyNumber data ∧ replyNumber data < 2 ^ 31 := toInt32_bounds _
  have hcompare : ((0 + ps.length + 1 : ℕ) : ℤ) ≠ toInt32 (replyNumber data + 1) ↔
      (ps.length : ℤ) ≠ replyNumber data := by
    obtain ⟨hlow, hhigh, c, hc⟩ := toInt32_spec (replyNumber data + 1)
    omega
  simp only [length_nil, map_nil, nil_append, Nat.zero_add] at hloop hcompare
  unfold fillTable
  rw [hloop]
  simp only [hcompare, Nat.add_sub_cancel]
  rw [take_left' (length_map _)]

include hlt hlong in
/-- With a table. -/
theorem table_checked_iff (k : ℕ) :
    (∀ ps q, Documents data replyHeader ps q → data.length < q →
      (ps.length : ℤ) = replyNumber data) ↔
      ∀ r t, fillTable data (data.length - replyHeader) (replicate k none) = (.ok r, t) →
        ReplyChecked data r (some t) := by
  constructor
  · intro hover r t h
    cases hloop : replyDocs data replyHeader (data.length - replyHeader) 1
      (replicate k none) with
    | mk res t' =>
    cases res with
    | error e =>
      unfold fillTable at h
      rw [hloop] at h
      cases h
    | ok l =>
      obtain ⟨ps, q, hps, hend⟩ := documents_of_replyDocs (by omega) hloop
      rw [fillTable_eq hlt hps hend] at h
      split_ifs at h with hnumber
      · cases h
        have hq : ¬data.length < q := fun hq => hnumber (hover ps q hps hq)
        have hinside := (hps.inside_iff hlong).2 (not_lt.1 hq)
        refine ⟨fun p hp => by (cases hp), ?_, fun _ _ _ _ hr => by (cases hr)⟩
        rintro _ ⟨⟩ p hp
        obtain hp | hp := mem_append.1 hp
        · exact hinside p (by simpa using hp)
        · cases eq_of_mem_replicate hp
      · obtain ⟨hr, rfl⟩ := Prod.mk.inj h
        obtain ⟨hsz, hdoc, -⟩ := replySuccess_eq hr
        have hinside := (hps.inside_iff hlong).2 (by omega)
        obtain rfl : q = data.length := by omega
        rw [not_not] at hnumber
        refine ⟨fun p hp => ?_, ?_, ?_⟩
        · rw [hdoc] at hp
          split_ifs at hp with hzero
          cases hp
          have hne : ps ≠ [] := by
            rintro rfl
            exact hzero hnumber.symm
          exact hinside _ (hps.head_mem hne)
        · rintro _ ⟨⟩ p hp
          exact hinside p (by simpa using hp)
        · rintro - - - - - _ ⟨⟩
          exact ⟨ps, rfl, hps, hnumber⟩
  · intro h ps q hps hq
    by_contra hnumber
    have hrun := fillTable_eq hlt hps (by omega) k
    rw [if_pos hnumber] at hrun
    have hentries := (h _ _ hrun).entries _ rfl
    have hinside := (hps.inside_iff hlong).1 fun p hp =>
      hentries p (mem_append_left _ (by simpa using hp))
    omega

/-- SRC: lua-mongo.c:59-67, 207-291; mongo.lua:68-78

**A reply that was read as long as its length says is checked before use exactly where it
holds**: `op_reply` looks neither at the error document of a failed query, nor for a first
document in an empty body, nor at the end of the last document before it compares the
number. -/
theorem reply_checked_iff {header : Bytes} (hdata : (data.length : ℤ) = replyLength header)
    (earlier : Option ℕ) :
    (replyHeader ≤ data.length → ReplyHolds data earlier) ↔
      ∀ r t, opReply data (earlier.map (replicate · none)) = (.ok r, t) →
        ReplyChecked data r t := by
  have hlt : (data.length : ℤ) < 2 ^ 31 := by
    rw [hdata]
    exact (toInt32_bounds _).2
  unfold opReply
  by_cases hshort : data.length < replyHeader
  · rw [if_pos hshort]
    refine ⟨fun _ r t h => ?_, fun _ h => absurd h (not_le.2 hshort)⟩
    cases h
    exact (checked_earlier earlier (by simp)).2 (by simp [MongoReply.document])
  rw [if_neg hshort]
  have hlong := not_lt.1 hshort
  by_cases hfailure : queryFailure data = true
  · rw [if_pos hfailure]
    constructor
    · intro hok r t h
      cases h
      refine (checked_earlier earlier (by simp)).2 fun p hp => ?_
      cases hp
      exact (hok hlong).failure hfailure
    · intro h _
      exact ⟨fun _ => (h _ _ rfl).document _ rfl, by simp [hfailure], by simp [hfailure]⟩
  have hsize : toInt32 ((data.length : ℤ) - replyHeader) = data.length - replyHeader :=
    toInt32_eq (by omega) (by omega)
  rw [Bool.not_eq_true] at hfailure
  simp only [hfailure, Bool.false_eq_true, if_false, hsize]
  cases earlier with
  | none =>
    have hsingle := single_checked_iff hlt hlong
    constructor
    · rintro hok r t h
      obtain ⟨hr, rfl⟩ := Prod.mk.inj h
      exact hsingle.1 ((hok hlong).empty hfailure rfl) r hr
    · intro h _
      exact ⟨by simp [hfailure], fun _ _ => hsingle.2 fun r hr => h r none (by rw [← hr]; rfl),
        by simp⟩
  | some k =>
    have htable := table_checked_iff hlt hlong k
    constructor
    · intro hok r t h
      obtain ⟨hr, rfl⟩ := Prod.mk.inj h
      exact htable.1 ((hok hlong).overrun hfailure (by simp)) r _ (Prod.ext hr rfl)
    · intro h _
      refine ⟨by simp [hfailure], by simp, fun _ _ => htable.2 fun r t hr => ?_⟩
      exact h r (some t) (by rw [Option.map_some]; simp only [hr])

/-- A reply with two documents of five bytes. -/
def twoDocuments : Bytes :=
  replicate 28 0 ++ [2, 0, 0, 0] ++ [5, 0, 0, 0, 0] ++ [5, 0, 0, 0, 0]

theorem reply_checked_two :
    opReply twoDocuments (some (replicate 3 none)) =
        (.ok (.success 0 (some 32) none 0), some [some 32, some 37]) ∧
      ReplyChecked twoDocuments (.success 0 (some 32) none 0) (some [some 32, some 37]) := by
  have hreply : opReply twoDocuments (some (replicate 3 none)) =
      (.ok (.success 0 (some 32) none 0), some [some 32, some 37]) := by
    decide +kernel
  have hover : ∀ ps q, Documents twoDocuments replyHeader ps q → q ≤ twoDocuments.length := by
    intro ps q h
    -- behind the second document there is none
    cases h with
    | nil => decide +kernel
    | cons _ _ h =>
      cases h with
      | nil => decide +kernel
      | cons _ _ h =>
        cases h with
        | nil => decide +kernel
        | cons hp => exact absurd hp (by decide +kernel)
  have hholds : ReplyHolds twoDocuments (some 3) :=
    ⟨fun h => absurd h (by decide +kernel), fun _ => nofun, fun _ _ ps q h hq => absurd (hover ps q h) (not_le.mpr hq)⟩
  have hdata : (twoDocuments.length : ℤ) = replyLength [46, 0, 0, 0] := by
    decide +kernel
  exact ⟨hreply, (reply_checked_iff hdata (some 3)).mp (fun _ => hholds) _ _ hreply⟩

def failedQuery : Bytes := replicate 12 0 ++ 2 :: replicate 19 0

/-- **The error document of a failed query is not looked at**: without a body, the pointer is
to the end of the reply. -/
theorem failure_behind_reply : (failedQuery.length : ℤ) = replyLength [36, 0, 0, 0] ∧
    opReply failedQuery none = (.ok (.failure 0 32), none) ∧ ¬InsideReply failedQuery 32 :=
  ⟨by decide +kernel, by decide +kernel, fun h => absurd h.header (by decide)⟩

open MongoAuth Option

variable {ι : Type}

structure Conversation (ι : Type) where
  reply : SaslReply ι
  first : ServerFirst
  reply₂ : SaslReply ι

structure ScramRun (ι : Type) where
  crypt : MongoCrypt
  randomkey : Bytes
  username : Bytes
  password : Bytes
  server : List (SaslCommand ι) → Option (SaslReply ι)

namespace ScramRun

variable (run : ScramRun ι)

def nonce : Bytes := run.crypt.base64encode run.randomkey

def authenticates : Option Bool :=
  authScramSha1 run.crypt run.randomkey run.username run.password run.server

structure Replies (v : Conversation ι) : Prop where
  reply : run.server (firstCommands run.crypt run.username run.nonce) = some v.reply
  ok : v.reply.ok = true
  first : readServerFirst run.crypt v.reply = some v.first
  reply₂ : run.server (secondCommands run.crypt run.username run.password run.nonce v.reply
    v.first) = some v.reply₂
  ok₂ : v.reply₂.ok = true

def Signed (v : Conversation ι) : Prop := readSignature run.crypt v.reply₂ =
    some (some (serverSig run.crypt run.username run.password run.nonce v.first))

def Done (v : Conversation ι) : Prop :=
  v.reply₂.done = true ∨ ∃ r₃, run.server (thirdCommands run.crypt run.username run.password
    run.nonce v.reply v.first) = some r₃ ∧ r₃.ok = true ∧ r₃.done = true

def NonceKept (v : Conversation ι) : Prop := run.nonce <+: v.first.rnonce

def AcceptsGenuine : Prop := run.authenticates = some true →
    ∃ v, run.Replies v ∧ run.NonceKept v ∧ run.Signed v ∧ run.Done v

theorem fails_unless {p : Prop} [Decidable p] {x : Option Bool} :
    (if p then pure false else x) = some true ↔ ¬p ∧ x = some true := by
  by_cases h : p <;> simp [h]

theorem succeeds_if {p : Prop} [Decidable p] {x : Option Bool} :
    (if p then pure true else x) = some true ↔ p ∨ x = some true := by
  by_cases h : p <;> simp [h]

/-- **What is accepted**: an exchange that is signed and done, with any nonce. -/
theorem authenticates_iff :
    run.authenticates = some true ↔ ∃ v, run.Replies v ∧ run.Signed v ∧ run.Done v := by
  have hnot : ∀ s s' : Bytes, luaNot (.string s) ≠ .string s' := nofun
  unfold authenticates authScramSha1
  simp only [bind_eq_bind, bind_eq_some_iff, fails_unless, succeeds_if, hnot,
    not_false_eq_true, true_and, not_not, Bool.not_eq_true', Bool.not_eq_false]
  constructor
  · rintro ⟨r, hr, hok, f, hf, r₂, hr₂, hok₂, _, hsig, rfl, hdone⟩
    refine ⟨⟨r, f, r₂⟩, ⟨hr, hok, hf, hr₂, hok₂⟩, hsig, hdone.imp id ?_⟩
    rintro ⟨r₃, hr₃, hdone⟩
    exact ⟨r₃, hr₃, by simpa using hdone⟩
  · rintro ⟨⟨r, f, r₂⟩, ⟨hr, hok, hf, hr₂, hok₂⟩, hsig, hdone⟩
    refine ⟨r, hr, hok, f, hf, r₂, hr₂, hok₂, _, hsig, rfl, hdone.imp id ?_⟩
    rintro ⟨r₃, hr₃, hdone⟩
    exact ⟨r₃, hr₃, by simpa using hdone⟩

variable {run} in
theorem Replies.unique {v v' : Conversation ι} (h : run.Replies v) (h' : run.Replies v') :
    v = v' := by
  obtain ⟨r, f, r₂⟩ := v
  obtain ⟨r', f', r₂'⟩ := v'
  obtain rfl : r = r' := some.inj (h.reply.symm.trans h'.reply)
  obtain rfl : f = f' := some.inj (h.first.symm.trans h'.first)
  obtain rfl : r₂ = r₂' := some.inj (h.reply₂.symm.trans h'.reply₂)
  rfl

/-- **Only a genuine server is accepted**, for every user, key and server, exactly if the server
does not sign an exchange, and report it done, whose nonce does not begin with the client's. -/
theorem accepts_genuine_iff :
    run.AcceptsGenuine ↔ ¬∃ v, run.Replies v ∧ run.Signed v ∧ run.Done v ∧ ¬run.NonceKept v := by
  rw [AcceptsGenuine, authenticates_iff]
  constructor
  · rintro h ⟨v, hv, hsigned, hdone, hnonce⟩
    obtain ⟨v', hv', hkept, -⟩ := h ⟨v, hv, hsigned, hdone⟩
    exact hnonce (hv.unique hv' ▸ hkept)
  · rintro h ⟨v, hv, hsigned, hdone⟩
    refine ⟨v, hv, ?_, hsigned, hdone⟩
    by_contra hnonce
    exact h ⟨v, hv, hsigned, hdone, hnonce⟩

end ScramRun

/-- The base64 of `crypt`, and simple functions in the place of the hashes. -/
def plainCrypt : MongoCrypt where
  base64encode text := (CryptBase64.lb64encode text).toOption.getD []
  base64decode text := (CryptBase64.lb64decode text).toOption
  hmacSha1 key text := key ++ text
  sha1 := id
  xorStr a _ := a
  sumhexa := id
  tonumber _ := some 1

def foreignFirst : ServerFirst := ⟨ascii "r=X,s=c2FsdA==,i=1", ascii "X", ascii "salt", 1⟩

/-- A server that signs the exchange under a nonce of its own. -/
def foreignNonce : ScramRun Unit where
  crypt := plainCrypt
  randomkey := ascii "K"
  username := ascii "user"
  password := ascii "pass"
  server
    | [.start _] => some ⟨true, none, some (plainCrypt.base64encode foreignFirst.parsedS), false⟩
    | _ => some ⟨true, none, some (plainCrypt.base64encode (ascii "v=" ++ serverSig plainCrypt
        (ascii "user") (ascii "pass") (plainCrypt.base64encode (ascii "K")) foreignFirst)), true⟩

theorem foreign_nonce_accepted :
    foreignNonce.authenticates = some true ∧ ¬foreignNonce.AcceptsGenuine := by
  have haccepted : foreignNonce.authenticates = some true := by decide +kernel
  refine ⟨haccepted, fun h => ?_⟩
  obtain ⟨v, hv, hkept, -⟩ := h haccepted
  have hreply : v.reply =
      ⟨true, none, some (plainCrypt.base64encode foreignFirst.parsedS), false⟩ :=
    (some.inj hv.reply).symm
  have hread : (readServerFirst foreignNonce.crypt v.reply).map ServerFirst.rnonce =
      some (ascii "X") := by
    rw [hreply]
    decide +kernel
  rw [hv.first] at hread
  rw [ScramRun.NonceKept, show v.first.rnonce = ascii "X" from some.inj hread] at hkept
  revert hkept
  decide

end Skynet.Analysis
