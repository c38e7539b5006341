import Spdz.Network.Links
import Spdz.Network.Medium

/-!
# A postal network

For simulations, messages lie in unbounded queues, one for each ordered pair of parties. Sending
always succeeds. On the way a message may be tampered with, and all messages are recorded as they
were sent.

* `Tampering`, `TamperRule` — what befalls which message.
* `Post` — the queues and the record, a medium.
* `Post.transcript` — the record.
-/

namespace Spdz

/-- What befalls a message on its way. -/
inductive Tampering where
  | drop
  | duplicate
  /-- Flip bits of the byte at a position, if there is one. -/
  | flip (position : Nat) (mask : UInt8)
  /-- Keep only the first bytes. -/
  | cut (length : Nat)
  | append (tail : Bytes)
  | replace (message : Bytes)

/-- What arrives in place of a message. -/
def Tampering.apply (message : Bytes) : Tampering → List Bytes
  | drop => []
  | duplicate => [message, message]
  | flip position mask => [message.modify position (· ^^^ mask)]
  | cut length => [message.take length]
  | append tail => [message ++ tail]
  | replace message => [message]

/-- One message that is tampered with. -/
structure TamperRule where
  sender : PartyId
  receiver : PartyId
  /-- Its number among those sent on this link, from zero. -/
  position : Nat
  tampering : Tampering

/-- The postal network. -/
structure Post where
  parties : Nat
  rules : List TamperRule := []
  /-- The messages that were not received yet, the oldest first. -/
  queues : Links (List Bytes) := {}
  /-- All messages as they were sent, the oldest first. -/
  sent : Links (List Bytes) := {}
  /-- The parties that have left. -/
  closed : List PartyId := []

namespace Post

/-- Put messages into a queue, unrecorded. -/
def enqueue (sender receiver : PartyId) (messages : List Bytes) (post : Post) : Post :=
  { post with queues := post.queues.modify sender receiver (· ++ messages) }

/-- What arrives in place of a message with the given number on its link. -/
def tamper (rules : List TamperRule) (sender receiver : PartyId) (position : Nat)
    (message : Bytes) : List Bytes :=
  let concerns (rule : TamperRule) : Bool :=
    rule.sender = sender ∧ rule.receiver = receiver ∧ rule.position = position
  (rules.filter concerns).foldl
    (fun messages rule => messages.flatMap fun message => rule.tampering.apply message) [message]

/-- Record a message and queue what arrives in its place. -/
def send (sender receiver : PartyId) (message : Bytes) (post : Post) : Post :=
  let position := (post.sent.get sender receiver).length
  let recorded := { post with sent := post.sent.modify sender receiver (· ++ [message]) }
  recorded.enqueue sender receiver (tamper post.rules sender receiver position message)

/-- The oldest message of a queue. -/
def take (receiver sender : PartyId) (post : Post) : Arrival × Post :=
  match post.queues.get sender receiver with
  | message :: later =>
    (.message message, { post with queues := post.queues.set sender receiver later })
  | [] => (if sender ∈ post.closed then .broken else .nothing, post)

/-- A party leaves. -/
def close (party : PartyId) (post : Post) : Post := { post with closed := party :: post.closed }

instance : Medium Post where
  parties := parties
  send := fun sender receiver message post => (true, post.send sender receiver message)
  take := take
  watch := fun _ => .inTurn
  close := close

/-- All messages as they were sent, by sender and receiver; links without messages are left
out. -/
def transcript (post : Post) : List (PartyId × PartyId × List Bytes) :=
  let all := List.range' 1 post.parties
  let links := all.flatMap fun sender => all.map fun receiver =>
    (sender, receiver, post.sent.get sender receiver)
  links.filter fun (_, _, messages) => !messages.isEmpty

end Post

end Spdz
