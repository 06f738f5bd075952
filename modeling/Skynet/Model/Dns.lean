import Skynet.Library.LittleEndian
import Skynet.Library.LuaTable
import Skynet.Library.Machine

/-!
# The DNS client

`lualib/skynet/dns.lua`: the resolver of a service.  The queries that have no answer yet are
kept by their transaction ids, the answers that have come are kept by the names in the
packets, and every query has a timer, which cannot be cancelled.

Names are strings of bytes, and an address is the list of the numbers that are printed.  The
file of hosts is a parameter, and the server that the socket leads to is left out.  A message
of the service is one step: the coroutine that it wakes runs within it.  The queries are
numbered; the queries, the entries put into the cache and the ends of the queries are records
of the run.
-/

namespace Skynet.Model

open Library

/-! ## Data -/

/-- A host name. -/
abbrev DnsName : Type := Bytes

def maxDomainLen : ℕ := 1024

def maxLabelLen : ℕ := 63

def dnsHeaderLen : ℕ := 12

/-- `TIMEOUT`. -/
def dnsTimeout : ℕ := 30 * 100

def qtypeA : ℕ := 1

def qtypeAAAA : ℕ := 28

def qclassIN : ℕ := 1

/-- The numbers that an address is printed from: four bytes, or eight words. -/
abbrev DnsAddress : Type := List ℕ

/-- What `unpack_question` gives. -/
structure DnsQuestion where
  name : DnsName
  atype : ℕ
  class' : ℕ
  deriving DecidableEq

/-- What `unpack_answer` gives, with the address that `unpack_rdata` makes of `rdata` where
`resolve` calls it. -/
structure DnsAnswer where
  name : DnsName
  atype : ℕ
  class' : ℕ
  ttl : ℕ
  rdata : Bytes
  address : Option DnsAddress
  deriving DecidableEq

/-- A packet as `resolve` reads it. -/
structure DnsPacket where
  tid : ℕ
  question : DnsQuestion
  answers : List DnsAnswer
  deriving DecidableEq

/-- An entry of `CACHE[qtype]`. -/
structure CacheEntry where
  answers : List DnsAddress
  ttl : ℕ
  deriving DecidableEq

/-- An entry of `request_pool`; the coroutine is the number of the query. -/
structure DnsRequest where
  name : DnsName
  tid : ℕ
  qtype : ℕ
  co : ℕ
  deriving DecidableEq

/-- The coroutine that `suspend` forks: the id, when its sleep is over, and the number of the
query. -/
structure DnsTimer where
  tid : ℕ
  due : ℕ
  owner : ℕ
  deriving DecidableEq

structure DnsQuery where
  name : DnsName
  tid : ℕ
  qtype : ℕ
  started : ℕ
  deriving DecidableEq

inductive WakeCause
  | timeout (owner : ℕ)
  | answer (packet : DnsPacket)
  deriving DecidableEq

/-- Record: a query is woken, when, and what `dns.resolve` returns: the answers, or an
error. -/
structure DnsWake where
  co : ℕ
  cause : WakeCause
  time : ℕ
  result : Option (List DnsAddress)
  deriving DecidableEq

/-- The tables of the resolver, the timers that have not fired, and the records of the run:
the requests that were written, the queries, the keys that were put into the cache, and the
ends of the queries. -/
structure Dns where
  now : ℕ
  cache : Table (ℕ × DnsName) CacheEntry
  nextTid : ℕ
  requestPool : Table ℕ DnsRequest
  timers : List DnsTimer
  written : List Bytes
  queries : List DnsQuery
  puts : List (ℕ × DnsName)
  woken : List DnsWake

namespace Dns

def init : Dns := ⟨0, ∅, 1, ∅, [], [], [], [], []⟩

/-! ## Names -/

/-- `name:lower()`. -/
def lower (name : DnsName) : DnsName := name.map fun c => if 65 ≤ c ∧ c ≤ 90 then c + 32 else c

/-- What `guess_name_type` gives. -/
inductive NameType
  | ipv4
  | ipv6
  | hostname
  deriving DecidableEq

def isDigit (c : UInt8) : Bool := 48 ≤ c ∧ c ≤ 57

def isLower (c : UInt8) : Bool := 97 ≤ c ∧ c ≤ 122

def isUpper (c : UInt8) : Bool := 65 ≤ c ∧ c ≤ 90

/-- SRC: dns.lua:97-107 -/
def guessNameType (name : DnsName) : NameType :=
  if name ≠ [] ∧ name.all fun c => isDigit c || c == 46 then .ipv4
  else if 58 ∈ name then .ipv6
  else .hostname

/-- What `[_%w%-]` matches. -/
def isLabelChar (c : UInt8) : Bool := c == 95 || isDigit c || isLower c || isUpper c || c == 45

/-- The captures of `name:gmatch("([_%w%-]+)%.?")`. -/
def labels (name : DnsName) : List Bytes :=
  (name.splitOnP fun c => !isLabelChar c).filter (· ≠ [])

/-- SRC: dns.lua:180-193 -/
def verifyDomainName (name : DnsName) : Bool := name.length ≤ maxDomainLen && name ≠ [] &&
    (name.all fun c => c == 95 || isLower c || isDigit c || c == 45 || c == 46) &&
    (labels name).all fun w => w.length ≤ maxLabelLen

/-- `string.pack(">H", n)`. -/
def packH (n : ℕ) : Bytes := [.ofNat (n / 256), .ofNat n]

/-- `pack_header` of `remote_resolve`.
SRC: dns.lua:216-219, 485-489 -/
def packHeader (tid : ℕ) : Bytes :=
  packH tid ++ packH 0x100 ++ packH 1 ++ packH 0 ++ packH 0 ++ packH 0

/-- SRC: dns.lua:221-229 -/
def packQuestion (name : DnsName) (qtype qclass : ℕ) : Bytes :=
  ((labels name).flatMap fun w => .ofNat w.length :: w) ++ [0] ++ packH qtype ++ packH qclass

/-! ## Packets in -/

/-- Why a packet is not read to its end: an error is raised, or the loop of `unpack_name`
never ends. -/
inductive DnsFault
  | error
  | endless
  deriving DecidableEq

/-- `string.unpack` of an unsigned number of `n` bytes, the highest first, at a place
counted from 0. -/
def unpackNumber (n : ℕ) (chunk : Bytes) (left : ℕ) : Except DnsFault (ℕ × ℕ) :=
  if left + n ≤ chunk.length then .ok (leNat ((chunk.drop left).take n).reverse, left + n)
  else .error .error

/-- `string.unpack` of a string behind its length in `n` bytes. -/
def unpackString (n : ℕ) (chunk : Bytes) (left : ℕ) : Except DnsFault (Bytes × ℕ) := do
  let (length, left) ← unpackNumber n chunk left
  if left + length ≤ chunk.length then .ok ((chunk.drop left).take length, left + length)
  else .error .error

/-- The loop of `unpack_name`: the labels, and where it goes on.  The place decides what the
next round does, so more rounds than there are places go on for ever.
SRC: dns.lua:244-267 -/
def unpackLabels (chunk : Bytes) :
    ℕ → ℕ → List Bytes → Option ℕ → Except DnsFault (List Bytes × ℕ)
  | 0, _, _, _ => .error .endless
  | fuel + 1, left, t, jumpPointer => do
    let (tag, next) ← unpackNumber 1 chunk left
    if tag &&& 0xc0 = 0xc0 then
      let (offset, next) ← unpackNumber 2 chunk left
      unpackLabels chunk fuel (offset &&& 0x3fff) t (some (jumpPointer.getD next))
    else if tag = 0 then .ok (t, jumpPointer.getD next)
    else
      let (label, next) ← unpackString 1 chunk left
      unpackLabels chunk fuel next (t ++ [label]) jumpPointer

/-- `table.concat(t, ".")`. -/
def concatLabels (t : List Bytes) : DnsName := (t.intersperse [46]).flatten

/-- SRC: dns.lua:244-267 -/
def unpackName (chunk : Bytes) (left : ℕ) : Except DnsFault (DnsName × ℕ) := do
  let (t, left) ← unpackLabels chunk (chunk.length + 1) left [] none
  .ok (concatLabels t, left)

/-- SRC: dns.lua:269-277 -/
def unpackQuestion (chunk : Bytes) (left : ℕ) : Except DnsFault (DnsQuestion × ℕ) := do
  let (name, left) ← unpackName chunk left
  let (atype, left) ← unpackNumber 2 chunk left
  let (class', left) ← unpackNumber 2 chunk left
  .ok (⟨name, atype, class'⟩, left)

/-- `count` numbers of `n` bytes. -/
def unpackNumbers (n : ℕ) (chunk : Bytes) : ℕ → ℕ → Except DnsFault (List ℕ)
  | 0, _ => .ok []
  | count + 1, left => do
    let (a, left) ← unpackNumber n chunk left
    let as ← unpackNumbers n chunk count left
    .ok (a :: as)

/-- `unpack_rdata` for the types that `resolve` calls it with.
SRC: dns.lua:291-301 -/
def unpackRdata (qtype : ℕ) (chunk : Bytes) : Except DnsFault (Option DnsAddress) :=
  if qtype = qtypeA then (unpackNumbers 1 chunk 4 0).map some
  else if qtype = qtypeAAAA then (unpackNumbers 2 chunk 8 0).map some
  else .ok none

/-- SRC: dns.lua:279-289, 328-342 -/
def unpackAnswer (chunk : Bytes) (left : ℕ) : Except DnsFault (DnsAnswer × ℕ) := do
  let (name, left) ← unpackName chunk left
  let (atype, left) ← unpackNumber 2 chunk left
  let (class', left) ← unpackNumber 2 chunk left
  let (ttl, left) ← unpackNumber 4 chunk left
  let (rdata, left) ← unpackString 2 chunk left
  let address ← unpackRdata atype rdata
  .ok (⟨name, atype, class', ttl, rdata, address⟩, left)

/-- SRC: dns.lua:327-343 -/
def unpackAnswers (chunk : Bytes) : ℕ → ℕ → Except DnsFault (List DnsAnswer)
  | 0, _ => .ok []
  | count + 1, left => do
    let (answer, left) ← unpackAnswer chunk left
    let answers ← unpackAnswers chunk count left
    .ok (answer :: answers)

/-- The packet that `resolve` reads, with one question.
SRC: dns.lua:231-241, 310-343 -/
def unpackPacket (content : Bytes) : Except DnsFault DnsPacket := do
  let (tid, left) ← unpackNumber 2 content 0
  let (_, left) ← unpackNumber 2 content left
  let (qdcount, left) ← unpackNumber 2 content left
  let (ancount, left) ← unpackNumber 2 content left
  let (_, left) ← unpackNumber 2 content left
  let (_, left) ← unpackNumber 2 content left
  if qdcount ≠ 1 then .error .error
  else
    let (question, left) ← unpackQuestion content left
    let answers ← unpackAnswers content ancount left
    .ok ⟨tid, question, answers⟩

/-! ## The cache -/

/-- `answers_ipv4` and `answers_ipv6`. -/
def addresses (qtype : ℕ) (answers : List DnsAnswer) : List DnsAddress :=
  (answers.filter fun a => a.atype = qtype).filterMap DnsAnswer.address

/-- The smallest `ttl` of the answers with addresses, of either type.
SRC: dns.lua:340 -/
def minTtl (answers : List DnsAnswer) : ℕ :=
  (((answers.filter fun a => a.address.isSome).map DnsAnswer.ttl).min?).getD 0

/-- The answers of a type are put into the cache under the name of the question.
SRC: dns.lua:345-351 -/
def cachePut (s : Dns) (qtype : ℕ) (p : DnsPacket) : Dns :=
  if addresses qtype p.answers = [] then s
  else { s with
    cache := s.cache.put (qtype, p.question.name)
      (some ⟨addresses qtype p.answers, s.now + minTtl p.answers * 100⟩)
    puts := s.puts ++ [(qtype, p.question.name)] }

/-- SRC: dns.lua:422-429 -/
def lookupCache (s : Dns) (name : DnsName) (qtype : ℕ) (ignorettl : Bool) :
    Option (List DnsAddress) :=
  (s.cache.get (qtype, name)).bind fun r =>
    if ignorettl ∨ r.ttl > s.now then some r.answers else none

/-! ## Queries -/

/-- The smallest id, or the next one, that no query has.
SRC: dns.lua:195-214 -/
def genTid (s : Dns) : Option (ℕ × Dns) :=
  let tid :=
    if (s.requestPool.get s.nextTid).isSome then
      (List.range' 1 65535).find? fun i => (s.requestPool.get i).isNone
    else some s.nextTid
  tid.map fun tid => (tid, { s with nextTid := if tid + 1 > 65535 then 1 else tid + 1 })

/-- `suspend` up to the wait: the query is in the pool and has a timer.
SRC: dns.lua:431-450 -/
def suspend (s : Dns) (tid : ℕ) (name : DnsName) (qtype : ℕ) : Dns :=
  let co := s.queries.length
  { s with
    requestPool := s.requestPool.put tid (some ⟨name, tid, qtype, co⟩)
    timers := s.timers ++ [⟨tid, s.now + dnsTimeout, co⟩]
    queries := s.queries ++ [⟨name, tid, qtype, s.now⟩] }

/-- `suspend` behind the wait, with the answers that were given to the request.
SRC: dns.lua:451-459 -/
def wakeup (s : Dns) (req : DnsRequest) (cause : WakeCause) (answers : Option (List DnsAddress)) :
    Dns :=
  let s := { s with requestPool := s.requestPool.put req.tid none }
  let result := answers.or (s.lookupCache req.name req.qtype true)
  { s with woken := s.woken ++ [⟨req.co, cause, s.now, result⟩] }

/-- What `dns.resolve` returns or raises, or that it waits. -/
inductive Resolved
  | address (name : DnsName)
  | hosts (answers : List DnsName)
  | cached (answers : List DnsAddress)
  | illegalIp
  | illegalName
  | error
  | waits
  deriving DecidableEq

/-- `served` tells whether `touch_server` finds or opens a socket.
SRC: dns.lua:483-498 -/
def remoteResolve (s : Dns) (name : DnsName) (ipv6 served : Bool) : Resolved × Dns :=
  let qtype := if ipv6 then qtypeAAAA else qtypeA
  match s.lookupCache name qtype false with
  | some answers => (.cached answers, s)
  | none =>
    match s.genTid with
    | none => (.error, s)
    | some (tid, s) =>
      if served then
        let request := packHeader tid ++ packQuestion name qtype qclassIN
        let s := { s with written := s.written ++ [request] }
        (.waits, s.suspend tid name qtype)
      else (.error, s)

/-- `hosts` is what `local_resolve` finds.
SRC: dns.lua:500-520 -/
def resolve (hosts : DnsName → Bool → Option (List DnsName)) (s : Dns) (name : DnsName)
    (ipv6 served : Bool) : Resolved × Dns :=
  let name := lower name
  if guessNameType name ≠ .hostname then
    if (ipv6 ∧ name = "ipv4".toUTF8.toList) ∨ (!ipv6 ∧ name = "ipv6".toUTF8.toList) then
      (.illegalIp, s)
    else (.address name, s)
  else if !verifyDomainName name then (.illegalName, s)
  else
    match hosts name ipv6 with
    | some answers => (.hosts answers, s)
    | none => s.remoteResolve name ipv6 served

/-- The part of `resolve` (the callback of the socket) behind the reading of the packet: the
answers go to the cache, and the query with the id is woken, with the entry of its own name
and type.
SRC: dns.lua:345-368 -/
def receive (s : Dns) (p : DnsPacket) : Dns :=
  let s := (s.cachePut qtypeA p).cachePut qtypeAAAA p
  match s.requestPool.get p.tid with
  | none => s
  | some resp =>
    s.wakeup resp (.answer p) ((s.cache.get (resp.qtype, resp.name)).map CacheEntry.answers)

/-- The callback of the socket: a packet that raises an error changes nothing, and one that
is never read to its end is the last thing that the service does: `none`.
SRC: dns.lua:310-368 -/
def receivePacket (s : Dns) (content : Bytes) : Option Dns :=
  if content.length < dnsHeaderLen then some s
  else
    match unpackPacket content with
    | .ok p => some (s.receive p)
    | .error .error => some s
    | .error .endless => none

/-- The end of a timer's sleep: whatever query has its id is woken.
SRC: dns.lua:439-448 -/
def fire (s : Dns) (t : DnsTimer) : Dns :=
  match s.requestPool.get t.tid with
  | none => s
  | some req =>
    let s := { s with requestPool := s.requestPool.put t.tid none }
    s.wakeup req (.timeout t.owner) none

end Dns

/-- What happens in the service: a call of `dns.resolve`, a packet, the end of the sleep of
the timer at a place, a tick of the clock, a call of `dns.flush`, and the collection of an
entry of the weak tables. -/
inductive DnsEvent
  | resolve (name : DnsName) (ipv6 served : Bool)
  | packet (content : Bytes)
  | timer (i : ℕ)
  | tick
  | flush
  | collect (qtype : ℕ) (name : DnsName)
  deriving DecidableEq

namespace Dns

def next (hosts : DnsName → Bool → Option (List DnsName)) (s : Dns) : DnsEvent → Option Dns
  | .resolve name ipv6 served => some (s.resolve hosts name ipv6 served).2
  | .packet content => s.receivePacket content
  | .timer i =>
    s.timers[i]?.bind fun t =>
      if t.due ≤ s.now then some ({ s with timers := s.timers.eraseIdx i }.fire t) else none
  | .tick => some { s with now := s.now + 1 }
  | .flush => some { s with cache := ∅ }
  | .collect qtype name => some { s with cache := s.cache.put (qtype, name) none }

end Dns

/-- The resolver of a service, under any order of calls, packets and timers. -/
def dnsMachine (hosts : DnsName → Bool → Option (List DnsName)) : Machine Dns DnsEvent where
  start s := s = .init
  next := Dns.next hosts

end Skynet.Model
