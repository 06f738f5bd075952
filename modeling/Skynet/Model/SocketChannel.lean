import Skynet.Library.LuaTable
import Skynet.Model.Cluster

/-!
# The channel of a cluster sender

`lualib/skynet/socketchannel.lua` in session mode, as `service/clustersender.lua` uses it:
a coroutine that sent a request waits for the response with its session, the dispatch
coroutine reads the responses and wakes the coroutine that waits, and this one takes what
was left for it.

Coroutines are numbers.  Connecting, and the socket as it writes, are not modelled.
-/

namespace Skynet.Model

open Library

/-- An entry of `__result`. -/
inductive ChannelResult
  | ok (result : Bool)
  | socketError
  deriving DecidableEq, Repr

/-- An entry of `__result_data`: a table that parts are appended to, or one value. -/
inductive ResultData
  | table (parts : List LargePart)
  | value (data : LargePart)
  deriving DecidableEq, Repr

/-- A channel with `__response`.  `waiting` has the coroutines inside
`wait_for_response` with the session they wait for, `woken` those of them that `skynet.wakeup`
was called for. -/
structure SocketChannel where
  sock : Bool
  thread : Table ℕ ℕ
  result : Table ℕ ChannelResult
  resultData : Table ℕ ResultData
  waiting : Table ℕ ℕ
  woken : List ℕ

/-- What `command.req` does with the response: it returns a message, a number or nothing,
or it reports an error, of the node or of the socket. -/
inductive SenderReply
  | ret (msg : Option Bytes)
  | number (n : ℕ)
  | negativeSize
  | failed (data : Option ResultData)
  | socketError
  deriving DecidableEq, Repr

namespace SocketChannel

/-- `skynet.wakeup` of a coroutine that sleeps. -/
def wakeup (c : SocketChannel) (co : ℕ) : SocketChannel :=
  if (c.waiting.get co).isSome then { c with woken := c.woken ++ [co] } else c

/-- `close_channel_socket`, then `wakeup_all` without an error message.
SRC: socketchannel.lua:49-66 -/
def breakDown (c : SocketChannel) : SocketChannel :=
  let cos := c.thread.entries.map Sigma.snd
  let c := { c with
    sock := false
    thread := ∅
    result := c.result.putAll cos (some .socketError)
    resultData := c.resultData.putAll cos none }
  cos.foldl wakeup c

/-- `wait_for_response` up to its wait, after the request is written.
SRC: socketchannel.lua:141-145, 448-451 -/
def request (c : SocketChannel) (session co : ℕ) : SocketChannel := { c with
    thread := c.thread.put session (some co)
    waiting := c.waiting.put co (some session) }

/-- A round of `dispatch_by_session` with what `response` returned.
SRC: socketchannel.lua:82-118 -/
def dispatchBySession (c : SocketChannel) : Option UnpackedResponse → SocketChannel
  | some ⟨session, resultOk, resultData, padding⟩ =>
    match c.thread.get session with
    | some co =>
      if padding ∧ resultOk then
        -- while the coroutine waits there is a table or nothing
        let result := match c.resultData.get co with
          | some (.table parts) => parts
          | _ => []
        { c with resultData := c.resultData.put co (some (.table (result ++ [resultData]))) }
      else
        let data := match resultOk, c.resultData.get co with
          | true, some (.table parts) => .table (parts ++ [resultData])
          | _, _ => .value resultData
        wakeup { c with
          thread := c.thread.put session none
          result := c.result.put co (some (.ok resultOk))
          resultData := c.resultData.put co (some data) } co
    | none => { c with thread := c.thread.put session none }
  | none => c.breakDown

/-- What `command.req` makes of what `wait_for_response` returns or raises.
SRC: socketchannel.lua:448-468, clustersender.lua:32-44 -/
def reply : Option ChannelResult → Option ResultData → SenderReply
  | some .socketError, _ => .socketError
  | some (.ok true), some (.table parts) =>
    match lconcat parts with
    | .buffer bytes => .ret (some bytes)
    | .nothing => .ret none
    | .negativeSize => .negativeSize
  | some (.ok true), some (.value (.string s)) => .ret (some s)
  | some (.ok true), some (.value (.number n)) => .number n
  | some (.ok true), none => .ret none
  | some (.ok false), data => .failed data
  | none, data => .failed data

/-- The rest of `wait_for_response` and of `command.req`, in a coroutine that was woken:
the session it waited for and its reply. -/
def resumed (c : SocketChannel) (co : ℕ) : SocketChannel × List (ℕ × SenderReply) :=
  if co ∈ c.woken then
    match c.waiting.get co with
    | some session =>
      ({ c with
          result := c.result.put co none
          resultData := c.resultData.put co none
          waiting := c.waiting.put co none
          woken := c.woken.filter (· ≠ co) },
        [(session, reply (c.result.get co) (c.resultData.get co))])
    | none => ({ c with woken := c.woken.filter (· ≠ co) }, [])
  else (c, [])

/-- What happens at a channel: a coroutine sends a request with a session and waits, a frame
comes in, a coroutine that waits is resumed. -/
inductive Event
  | request (session co : ℕ)
  | frame (bytes : Bytes)
  | resumed (co : ℕ)

/-- `read_response`: the header, then as many bytes as it says.
SRC: clustersender.lua:55-59 -/
def readResponse (frame : Bytes) : Option UnpackedResponse :=
  match readPackage frame with
  | some (package, []) => lunpackresponse package
  | _ => none

/-- One event.  After the socket broke down the dispatch coroutine reads no more. -/
def step (c : SocketChannel) : Event → SocketChannel × List (ℕ × SenderReply)
  | .request session co => (c.request session co, [])
  | .frame bytes => (if c.sock then c.dispatchBySession (readResponse bytes) else c, [])
  | .resumed co => c.resumed co

end SocketChannel

end Skynet.Model
