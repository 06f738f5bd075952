import Mathlib.Data.Finset.Card
import Skynet.Library.Machine

/-!
# Subscriptions to a multicast channel

`service/multicastd.lua` on the owner node of one channel and on any number of other nodes.
Requests of the services of a node come at any time; a call to another node yields, and
other requests are handled before its answer.  A connection between two nodes keeps the
order of the messages, except that answers may be handled in any order among themselves.

A call of SUBR is known by the service whose SUB makes it, which stands for its session.
The address of the owner node is looked up in the datacenter first, which yields as well.
-/

namespace Skynet.Model

open Library Function

/-- `channel[c]`, the group of subscribers as a set, and `channel_n[c]`, of one
`multicastd`.
SRC: multicastd.lua:8-9 -/
structure McTables (σ : Type) where
  channel : Option (Finset σ)
  channelN : Option ℤ
  deriving DecidableEq

inductive UpMessage (σ : Type)
  | subr (source : σ)
  | usubr
  | del
  deriving DecidableEq, Repr

/-- What the owner node sends to a node: the answer of SUBR, which is true when there is no
such channel, and DELR. -/
inductive DownMessage (σ : Type)
  | answer (source : σ) (missing : Bool)
  | delr
  deriving DecidableEq, Repr

/-- The owner's tables with `channel_remote[c]`, the nodes a running DEL has still to send
DELR to, the tables of the other nodes, their SUBs that look up the owner's address, and the
messages on their way, oldest first. -/
structure MulticastState (ι σ : Type) where
  owner : McTables σ
  channelRemote : Option (Finset ι)
  deleting : Finset ι
  node : ι → McTables σ
  asking : ι → List σ
  up : ι → List (UpMessage σ)
  down : ι → List (DownMessage σ)

/-- What happens next. -/
inductive MulticastAction (ι σ : Type)
  /-- SUB, USUB and DEL of services of the owner node. -/
  | ownerSub (source : σ)
  | ownerUsub (source : σ)
  | ownerDel
  /-- A running DEL sends DELR to a node. -/
  | sendDelr (i : ι)
  /-- SUB, USUB and DEL of services of another node. -/
  | sub (i : ι) (source : σ)
  | usub (i : ι) (source : σ)
  | del (i : ι)
  /-- A SUB has the address of the owner and calls SUBR. -/
  | call (i : ι) (source : σ)
  /-- The owner handles the next message of a node. -/
  | up (i : ι)
  /-- A node handles a message of the owner, the one at this place. -/
  | down (i : ι) (place : ℕ)
  deriving DecidableEq, Repr

namespace McTables

variable {σ : Type} [DecidableEq σ]

def empty : McTables σ := ⟨none, none⟩

/-- The services that `publish` redirects a message to: none where the group is nil or
empty.
SRC: multicastd.lua:79-91 -/
def publish (t : McTables σ) : Finset σ := t.channel.getD ∅

/-- The end of SUB.
SRC: multicastd.lua:155-159 -/
def join (t : McTables σ) (source : σ) : McTables σ :=
  match t.channel with
  | none => t
  | some group =>
    if source ∈ group then t
    else ⟨some (insert source group), t.channelN.map (· + 1)⟩

/-- SUB after SUBR has found the channel: the double check and the end.
SRC: multicastd.lua:148-159 -/
def joinRemote (t : McTables σ) (source : σ) : McTables σ :=
  join (if t.channel.isNone then ⟨some ∅, some 0⟩ else t) source

/-- USUB up to the test of `channel_n`; without a channel the `assert` fails.
SRC: multicastd.lua:172-177 -/
def leave (t : McTables σ) (source : σ) : McTables σ :=
  match t.channel with
  | none => t
  | some group =>
    if source ∈ group then ⟨some (group.erase source), t.channelN.map (· - 1)⟩ else t

/-- The service is subscribed, and USUB takes `channel_n` to 0. -/
def Empties (t : McTables σ) (source : σ) : Prop :=
  (∃ group, t.channel = some group ∧ source ∈ group) ∧ t.channelN = some 1

instance (t : McTables σ) (source : σ) : Decidable (t.Empties source) :=
  decidable_of_iff ((t.channel.any fun group => source ∈ group) ∧ t.channelN = some 1)
    (by simp [Empties, Option.any_eq_true])

end McTables

namespace MulticastState

variable {ι σ : Type} [DecidableEq ι] [DecidableEq σ]

def putNode (s : MulticastState ι σ) (i : ι) (t : McTables σ) : MulticastState ι σ :=
  { s with node := update s.node i t }

def sendUp (s : MulticastState ι σ) (i : ι) (m : UpMessage σ) : MulticastState ι σ :=
  { s with up := update s.up i (s.up i ++ [m]) }

def sendDown (s : MulticastState ι σ) (i : ι) (m : DownMessage σ) : MulticastState ι σ :=
  { s with down := update s.down i (s.down i ++ [m]) }

/-- DEL on the owner node, up to the loop that sends DELR.
SRC: multicastd.lua:43-59 -/
def ownerDel (s : MulticastState ι σ) : MulticastState ι σ := { s with
    owner := .empty
    channelRemote := none
    deleting := s.deleting ∪ s.channelRemote.getD ∅ }

/-- SUBR.
SRC: multicastd.lua:123-136 -/
def subr (s : MulticastState ι σ) (i : ι) (source : σ) : MulticastState ι σ :=
  if s.owner.channel.isNone then s.sendDown i (.answer source true)
  else
    { s with channelRemote := some (insert i (s.channelRemote.getD ∅)) }.sendDown i
      (.answer source false)

/-- USUBR; without a group the `assert` fails.
SRC: multicastd.lua:163-169 -/
def usubr (s : MulticastState ι σ) (i : ι) : MulticastState ι σ :=
  { s with channelRemote := s.channelRemote.map (·.erase i) }

def ownerHandles (s : MulticastState ι σ) (i : ι) : UpMessage σ → MulticastState ι σ
  | .subr source => s.subr i source
  | .usubr => s.usubr i
  | .del => s.ownerDel

/-- A node handles a message of the owner.
SRC: multicastd.lua:35-39, 145-159 -/
def nodeHandles (s : MulticastState ι σ) (i : ι) : DownMessage σ → MulticastState ι σ
  | .answer _ true => s
  | .answer source false => s.putNode i ((s.node i).joinRemote source)
  | .delr => s.putNode i .empty

/-- SUB on a node that is not the owner.
SRC: multicastd.lua:140-160 -/
def sub (s : MulticastState ι σ) (i : ι) (source : σ) : MulticastState ι σ :=
  if (s.node i).channel.isNone then
    { s with asking := update s.asking i (source :: s.asking i) }
  else s.putNode i ((s.node i).join source)

/-- USUB on a node that is not the owner.
SRC: multicastd.lua:172-188 -/
def usub (s : MulticastState ι σ) (i : ι) (source : σ) : MulticastState ι σ :=
  if (s.node i).Empties source then (s.putNode i .empty).sendUp i .usubr
  else s.putNode i ((s.node i).leave source)

/-- One step of one node. -/
def next (s : MulticastState ι σ) : MulticastAction ι σ → Option (MulticastState ι σ)
  | .ownerSub source => some { s with owner := s.owner.join source }
  | .ownerUsub source => some { s with owner := s.owner.leave source }
  | .ownerDel => some s.ownerDel
  | .sendDelr i =>
    if i ∈ s.deleting then
      some ({ s with deleting := s.deleting.erase i }.sendDown i .delr)
    else none
  | .sub i source => some (s.sub i source)
  | .usub i source => some (s.usub i source)
  | .del i => some (s.sendUp i .del)
  | .call i source =>
    if source ∈ s.asking i then
      some ({ s with asking := update s.asking i ((s.asking i).erase source) }.sendUp i
        (.subr source))
    else none
  | .up i =>
    match s.up i with
    | [] => none
    | m :: ms => some ({ s with up := update s.up i ms }.ownerHandles i m)
  | .down i place =>
    match (s.down i)[place]? with
    | none => none
    | some m =>
      -- only answers overtake, and only answers
      if place = 0 ∨ (m ≠ .delr ∧ .delr ∉ (s.down i).take place) then
        some ({ s with down := update s.down i ((s.down i).eraseIdx place) }.nodeHandles
          i m)
      else none

/-- NEW has made the channel.
SRC: multicastd.lua:23-32 -/
def init : MulticastState ι σ where
  owner := ⟨some ∅, some 0⟩
  channelRemote := none
  deleting := ∅
  node := fun _ => .empty
  asking := fun _ => []
  up := fun _ => []
  down := fun _ => []

/-- No message is on its way and no request is unfinished. -/
def Quiescent (s : MulticastState ι σ) : Prop :=
  s.deleting = ∅ ∧ ∀ i, s.asking i = [] ∧ s.up i = [] ∧ s.down i = []

/-- The services of a node that a publish reaches while the state stays as it is: those of
the owner's group, and those of the groups of the nodes in `channel_remote`.
SRC: multicastd.lua:68-92 -/
def reached (s : MulticastState ι σ) : Option ι → Finset σ
  | none => s.owner.publish
  | some i => if i ∈ s.channelRemote.getD ∅ then (s.node i).publish else ∅

/-- The tables of a node, the owner's for `none`. -/
def tables (s : MulticastState ι σ) : Option ι → McTables σ
  | none => s.owner
  | some i => s.node i

/-- A SUB of the node waits for the answer of its SUBR. -/
def Waiting (s : MulticastState ι σ) (i : ι) : Prop :=
  (∃ source, .subr source ∈ s.up i) ∨ ∃ source missing, .answer source missing ∈ s.down i

end MulticastState

/-- One channel under any interleaving of the nodes. -/
def multicastMachine (ι σ : Type) [DecidableEq ι] [DecidableEq σ] :
    Machine (MulticastState ι σ) (MulticastAction ι σ) where
  start s := s = .init
  next := MulticastState.next

/-- `channel_n` counts the subscribers of every node; and when no message is on its way, the
nodes in `channel_remote` are those with a subscriber, and a publish reaches every
subscriber. -/
structure SubscriptionsAgree {ι σ : Type} [DecidableEq ι] [DecidableEq σ]
    (s : MulticastState ι σ) : Prop where
  counted : ∀ k, (s.tables k).channelN = (s.tables k).channel.map fun group => (group.card : ℤ)
  remote_iff : s.Quiescent → ∀ i, i ∈ s.channelRemote.getD ∅ ↔
    ∃ group, (s.node i).channel = some group ∧ group.Nonempty
  reached_eq : s.Quiescent → ∀ k, s.reached k = (s.tables k).channel.getD ∅

/-- The step is not a USUB that empties the group of a node while the owner still has the
channel and a SUB of that node waits for its answer. -/
def NoSubWaits {ι σ : Type} [DecidableEq σ] (s : MulticastState ι σ) :
    MulticastAction ι σ → Prop
  | .usub i source =>
    s.owner.channel ≠ none → (s.node i).Empties source → ¬ s.Waiting i
  | _ => True

end Skynet.Model
