import Skynet.Library.LittleEndian
import Skynet.Library.LuaTable
import Skynet.Library.Machine

/-!
# The message server

`lualib/snax/msgserver.lua` over `lualib/snax/gateserver.lua`: users that log in, connections
that authenticate for a user, and requests, whose responses are kept for a time so that they
can be sent again on a later connection.

The objects that the tables refer to, users and records of responses, are numbered; a record
is made where the handler is called, so its number is the number of the call.  The functions
of the library, of `crypt` and the configuration are parameters.  A connection that is
refused, and the number of the clients, are left out, and the socket server gives no number
to two connections.  A handler may do anything while it runs, so its end is a step of its
own; a `disconnect_handler` is the last thing that its step does, so what it does is further
steps.
-/

namespace Skynet.Model

open Library

/-! ## Data -/

/-- What the code calls outside: `tonumber`, `crypt.base64decode` and `crypt.hmac_hash`, and
`conf.expired_number`. -/
structure MsgConf (ν : Type) where
  tonumber : Bytes → Option ν
  b64decode : Bytes → Option Bytes
  hmacHash : Bytes → Bytes → Bytes
  expiredNumber : ℕ

/-- A user object; and as a record of the run, the connection that it authenticated last, as
long as that is open. -/
structure MsgUser (ν : Type) where
  secret : Bytes
  version : ν
  fd : Option ℕ
  ip : Bytes
  index : ℕ
  username : Bytes
  response : Table ℕ ℕ
  last : Option ℕ

/-- `{ return_fd, response, version, index }`, and what the coroutine of the call knows: the
user, the session and the connection of the request.  Records of the run: the connections
that the request and its duplicates came on, the version of the user when the last of them
came, and the connections that the response was sent on. -/
structure MsgRecord (ν : Type) where
  returnFd : Option ℕ
  response : Option Bytes
  version : Option ν
  index : Option ℕ
  user : ℕ
  session : ℕ
  origin : ℕ
  askedOn : List ℕ
  askedAt : ν
  sentOn : List ℕ

/-- What the server does: a message is sent on a connection (the response of a call, if it
has a number), a connection is started or closed, and the handler is called. -/
inductive MsgEffect
  | send (call : Option ℕ) (fd : ℕ) (bytes : Bytes)
  | start (fd : ℕ)
  | close (fd : ℕ)
  | handle (call : ℕ) (username message : Bytes)
  deriving DecidableEq

/-- The tables of `gateserver` and of `msgserver`, the objects, the calls that run, and
records of the run: the effects, the connections that there were, and those on which a
request was refused with "invalid fd". -/
structure MsgServer (ν : Type) where
  gate : Table ℕ Bool
  userOnline : Table Bytes ℕ
  handshake : Table ℕ Bytes
  connection : Table ℕ ℕ
  users : ℕ → MsgUser ν
  userCount : ℕ
  records : ℕ → MsgRecord ν
  recordCount : ℕ
  running : List ℕ
  out : List MsgEffect
  opened : List ℕ
  invalid : List ℕ

namespace MsgServer

variable {ν : Type} [LinearOrder ν] [Zero ν]

def noUser : MsgUser ν := ⟨[], 0, none, [], 0, [], ∅, none⟩

def noRecord : MsgRecord ν := ⟨none, none, none, none, 0, 0, 0, [], 0, []⟩

def init : MsgServer ν :=
  ⟨∅, ∅, ∅, ∅, fun _ => noUser, 0, fun _ => noRecord, 0, [], [], [], []⟩

/-! ## Small steps -/

def emit (s : MsgServer ν) (e : MsgEffect) : MsgServer ν :=
  { s with out := s.out ++ [e] }

def setUser (s : MsgServer ν) (uid : ℕ) (u : MsgUser ν) : MsgServer ν :=
  { s with users := fun i => if i = uid then u else s.users i }

def setRecord (s : MsgServer ν) (r : ℕ) (p : MsgRecord ν) : MsgServer ν :=
  { s with records := fun i => if i = r then p else s.records i }

def msgText (s : String) : Bytes :=
  s.toUTF8.toList

/-- `string.pack(">I" .. n, x)`. -/
def packI (n x : ℕ) : Bytes :=
  (leBytes n x).reverse

/-- `gateserver.closeclient`.
SRC: gateserver.lua:25-31 -/
def closeclient (s : MsgServer ν) (fd : ℕ) : MsgServer ν :=
  match s.gate.get fd with
  | none => s
  | some _ => { s with gate := s.gate.put fd none }.emit (.close fd)

/-! ## Users -/

/-- `server.logout`.
SRC: msgserver.lua:99-106 -/
def logout (s : MsgServer ν) (username : Bytes) : MsgServer ν :=
  match s.userOnline.get username with
  | none => s
  | some uid =>
    let s := { s with userOnline := s.userOnline.put username none }
    match (s.users uid).fd with
    | none => s
    | some fd =>
      let s := s.closeclient fd
      { s with connection := s.connection.put fd none }

/-- `server.login`; a user that is online is not logged in again.
SRC: msgserver.lua:108-117 -/
def login (s : MsgServer ν) (username secret : Bytes) : MsgServer ν :=
  if (s.userOnline.get username).isSome then s
  else
    let u : MsgUser ν := { noUser with secret := secret, username := username }
    { s.setUser s.userCount u with
      userOnline := s.userOnline.put username (some s.userCount)
      userCount := s.userCount + 1 }

/-! ## Connections -/

/-- `MSG.open` and `handler.connect`.
SRC: gateserver.lua:84-95; msgserver.lua:147-151 -/
def connect (s : MsgServer ν) (fd : ℕ) (addr : Bytes) : MsgServer ν :=
  { s with
    gate := s.gate.put fd (some true)
    handshake := s.handshake.put fd (some addr)
    opened := s.opened ++ [fd] }.emit (.start fd)

/-- Record: the connection is closed, for whichever user it was the last. -/
def forget (s : MsgServer ν) (fd : ℕ) : MsgServer ν :=
  { s with users := fun i =>
      if (s.users i).last = some fd then { s.users i with last := none } else s.users i }

/-- `handler.disconnect`, which is also `handler.error`.
SRC: msgserver.lua:152-164 -/
def disconnect (s : MsgServer ν) (fd : ℕ) : MsgServer ν :=
  let s := { s with handshake := s.handshake.put fd none }
  let s := s.forget fd
  match s.connection.get fd with
  | none => s
  | some uid =>
    { s.setUser uid { s.users uid with fd := none } with
      connection := s.connection.put fd none }

/-- `MSG.close`.
SRC: gateserver.lua:97-109 -/
def closed (s : MsgServer ν) (fd : ℕ) : MsgServer ν :=
  let s := if s.gate.get fd = some true then { s with gate := s.gate.put fd (some false) } else s
  s.disconnect fd

/-- What `auth` answers. -/
inductive AuthResult
  | ok
  | badRequest
  | unauthorized
  | indexExpired
  | userNotFound
  deriving DecidableEq

def AuthResult.text : AuthResult → Bytes
  | .ok => msgText "200 OK"
  | .badRequest => msgText "400 Bad Request"
  | .unauthorized => msgText "401 Unauthorized"
  | .indexExpired => msgText "403 Index Expired"
  | .userNotFound => msgText "404 User Not Found"

/-- `string.match(message, "([^:]*):([^:]*):([^:]*)")`. -/
def matchAuth (message : Bytes) : Option (Bytes × Bytes × Bytes) :=
  match message.splitOnP (· == 58) with
  | username :: index :: hmac :: _ => some (username, index, hmac)
  | _ => none

/-- `do_auth`; an error that it raises is a bad request.  A success gives the object of the
user and the index too.
SRC: msgserver.lua:167-191 -/
def doAuth (conf : MsgConf ν) (s : MsgServer ν) (message : Bytes) : AuthResult × Option (ℕ × ν) :=
  match matchAuth message with
  | none => (.userNotFound, none)
  | some (username, index, hmac) =>
    match s.userOnline.get username with
    | none => (.userNotFound, none)
    | some uid =>
      match conf.tonumber index, conf.b64decode hmac with
      | some idx, some hmac =>
        if idx ≤ (s.users uid).version then (.indexExpired, none)
        else if conf.hmacHash (s.users uid).secret (username ++ [58] ++ index) ≠ hmac then
          (.unauthorized, none)
        else (.ok, some (uid, idx))
      | _, _ => (.badRequest, none)

/-- The end of `do_auth`, where the connection becomes the user's.
SRC: msgserver.lua:187-190 -/
def accept (s : MsgServer ν) (fd : ℕ) (addr : Bytes) (uid : ℕ) (idx : ν) : MsgServer ν :=
  let u := { s.users uid with version := idx, fd := some fd, ip := addr, last := some fd }
  { s.setUser uid u with connection := s.connection.put fd (some uid) }

/-- `netpack.pack` of a message that is short enough. -/
def netpack (bytes : Bytes) : Bytes :=
  packI 2 bytes.length ++ bytes

/-- SRC: msgserver.lua:193-214 -/
def auth (conf : MsgConf ν) (s : MsgServer ν) (fd : ℕ) (addr message : Bytes) : MsgServer ν :=
  let (result, user) := s.doAuth conf message
  let s := match user with
    | none => s
    | some (uid, idx) => s.accept fd addr uid idx
  let s := s.emit (.send none fd (netpack result.text))
  if result = .ok then s else s.closeclient fd

/-! ## Requests -/

/-- The sessions of a user that have a record, with the records. -/
def sessions (s : MsgServer ν) (uid : ℕ) : List (ℕ × ℕ) :=
  (s.users uid).response.keys.filterMap fun k =>
    ((s.users uid).response.get k).map fun r => (k, r)

/-- The records that are complete go when they are old, and are aged otherwise.
SRC: msgserver.lua:218-237 -/
def retireResponse (conf : MsgConf ν) (s : MsgServer ν) (uid : ℕ) : MsgServer ν :=
  let u := s.users uid
  if u.index ≥ conf.expiredNumber * 2 then
    let complete := (s.sessions uid).filter fun e => (s.records e.2).returnFd = none
    let age := fun e : ℕ × ℕ => (s.records e.2).index.getD 0
    let gone := complete.filter fun e => age e < conf.expiredNumber
    let kept := complete.filter fun e => ¬age e < conf.expiredNumber
    let max := (kept.map fun e => age e - conf.expiredNumber).foldl max 0
    { s.setUser uid
        { u with response := u.response.putAll (gone.map Prod.fst) none, index := max + 1 } with
      records := fun r =>
        if r ∈ kept.map Prod.snd then
          { s.records r with index := (s.records r).index.map (· - conf.expiredNumber) }
        else s.records r }
  else s

/-- The end of `do_request`, with a response: it is sent if the connection to return it on is
open.
SRC: msgserver.lua:285-293 -/
def sendResponse (conf : MsgConf ν) (s : MsgServer ν) (uid r : ℕ) : MsgServer ν :=
  let s := s.setUser uid { s.users uid with index := (s.users uid).index + 1 }
  let p := s.records r
  let s :=
    match p.returnFd with
    | none => s
    | some fd =>
      if (s.connection.get fd).isSome then
        (s.setRecord r { p with returnFd := none, sentOn := p.sentOn ++ [fd] }).emit
          (.send (some r) fd (p.response.getD []))
      else s.setRecord r { p with returnFd := none }
  s.retireResponse conf uid

/-- A new record, and the handler is called.
SRC: msgserver.lua:258-261 -/
def callHandler (s : MsgServer ν) (fd uid session : ℕ) (message : Bytes) : MsgServer ν :=
  let r := s.recordCount
  let u := s.users uid
  let p : MsgRecord ν := { noRecord with
    returnFd := some fd, user := uid, session := session, origin := fd, askedOn := [fd]
    askedAt := u.version }
  { (s.setUser uid { u with response := u.response.put session (some r) }).setRecord r p with
    recordCount := r + 1
    running := s.running ++ [r] }.emit (.handle r u.username message)

/-- A duplicate: the response is sent on its connection, now or when the handler ends.
SRC: msgserver.lua:275-293 -/
def duplicate (conf : MsgConf ν) (s : MsgServer ν) (fd uid r : ℕ) : MsgServer ν :=
  let p := s.records r
  let u := s.users uid
  let s := s.setRecord r { p with
    returnFd := some fd, version := some u.version, index := some u.index
    askedOn := p.askedOn ++ [fd], askedAt := u.version }
  if p.response = none then s else s.sendResponse conf uid r

/-- A session that has a response may be used again on the same connection, that is, with
the same version.
SRC: msgserver.lua:244-255 -/
def forgetSession (s : MsgServer ν) (uid session : ℕ) : MsgServer ν :=
  s.setUser uid { s.users uid with response := (s.users uid).response.put session none }

/-- `do_request` up to where it returns, raises an error (`false`), or waits for the handler.
SRC: msgserver.lua:242-261 -/
def doRequest (conf : MsgConf ν) (s : MsgServer ν) (fd : ℕ) (message : Bytes) :
    MsgServer ν × Bool :=
  match s.connection.get fd with
  | none => ({ s with invalid := s.invalid ++ [fd] }, false)
  | some uid =>
    if message.length < 4 then (s, false)
    else
      let session := leNat (message.drop (message.length - 4)).reverse
      let body := message.take (message.length - 4)
      match (s.users uid).response.get session with
      | none => (s.callHandler fd uid session body, true)
      | some r =>
        if (s.records r).version = some (s.users uid).version then
          let t := s.forgetSession uid session
          if (s.records r).response = none then (t, false)
          else (t.callHandler fd uid session body, true)
        else (s.duplicate conf fd uid r, true)

/-- A connection whose request raises an error is closed, if it is still authenticated.
SRC: msgserver.lua:298-308 -/
def badRequest (s : MsgServer ν) (fd : ℕ) : MsgServer ν :=
  if (s.connection.get fd).isSome then s.closeclient fd else s

/-- SRC: msgserver.lua:298-308 -/
def request (conf : MsgConf ν) (s : MsgServer ν) (fd : ℕ) (message : Bytes) : MsgServer ν :=
  let (s, ok) := s.doRequest conf fd message
  if ok then s else s.badRequest fd

/-- What `string.pack(">s2", ..)` packs: the result of the handler, or nothing where the
handler raised an error, with the flag and the session. -/
def responseOf (session : ℕ) : Option Bytes → Bytes
  | some result => result ++ [1] ++ packI 4 session
  | none => [0] ++ packI 4 session

/-- The handler of a call ends: `do_request` goes on, and raises an error where the response
is too long.
SRC: msgserver.lua:261-293 -/
def complete (conf : MsgConf ν) (s : MsgServer ν) (r : ℕ) (result : Option Bytes) : MsgServer ν :=
  let s := { s with running := s.running.erase r }
  let p := s.records r
  let response := responseOf p.session result
  if response.length > 0xffff then s.badRequest p.origin
  else
    let u := s.users p.user
    let s := s.setRecord r { p with
      response := some (packI 2 response.length ++ response)
      version := some u.version
      index := some u.index }
    s.sendResponse conf p.user r

/-- `dispatch_msg` and `handler.message`.
SRC: gateserver.lua:58-64; msgserver.lua:310-319 -/
def message (conf : MsgConf ν) (s : MsgServer ν) (fd : ℕ) (msg : Bytes) : MsgServer ν :=
  if s.gate.get fd = some true then
    match s.handshake.get fd with
    | some addr =>
      let s := s.auth conf fd addr msg
      { s with handshake := s.handshake.put fd none }
    | none => s.request conf fd msg
  else s

end MsgServer

/-! ## The machine -/

/-- What happens: a user logs in or out, a connection is opened, a message comes, the
connection is closed or fails, and a handler ends, with a result or an error. -/
inductive MsgEvent
  | login (username secret : Bytes)
  | logout (username : Bytes)
  | connect (fd : ℕ) (addr : Bytes)
  | message (fd : ℕ) (msg : Bytes)
  | closed (fd : ℕ)
  | failed (fd : ℕ)
  | complete (r : ℕ) (result : Option Bytes)
  deriving DecidableEq

namespace MsgServer

variable {ν : Type} [LinearOrder ν] [Zero ν]

def next (conf : MsgConf ν) (s : MsgServer ν) : MsgEvent → Option (MsgServer ν)
  | .login username secret => some (s.login username secret)
  | .logout username => some (s.logout username)
  | .connect fd addr => if fd ∈ s.opened then none else some (s.connect fd addr)
  | .message fd msg => some (s.message conf fd msg)
  | .closed fd => some (s.closed fd)
  | .failed fd => some (s.disconnect fd)
  | .complete r result => if r ∈ s.running then some (s.complete conf r result) else none

end MsgServer

/-- A message server, under any order of commands, messages and ends of handlers. -/
def msgMachine {ν : Type} [LinearOrder ν] [Zero ν] (conf : MsgConf ν) :
    Machine (MsgServer ν) MsgEvent where
  start s := s = .init
  next := MsgServer.next conf

end Skynet.Model
