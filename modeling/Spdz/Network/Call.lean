import Spdz.Bytes
import Spdz.PartyId

/-!
# Calls on the network

Parties are linked pairwise by channels that deliver in order. A party acts on them by four calls.
It never sends to itself: its own contribution stays with it.

* `Call` — what a party asks of the network, and `Call.Reply`, what it gets when the call succeeds.
* `TransportError` — why a call failed.
-/

namespace Spdz

/-- Why a call failed, with the party at the other end of the channel. -/
inductive TransportError where
  | send (peer : PartyId)
  | receive (peer : PartyId)
  | unknownParty (peer : PartyId)
  deriving DecidableEq

/-- The reason in words. -/
def TransportError.message : TransportError → String
  | .send peer => s!"Error while sending message to {peer}"
  | .receive peer => s!"Error while receiving message from {peer}"
  | .unknownParty peer => s!"No channel to party {peer}"

/-- What a party asks of the network. -/
inductive Call where
  | send (peer : PartyId) (message : Bytes)
  /-- Wait for the next message of one party. -/
  | receive (peer : PartyId)
  /-- Send the same message to every other party. -/
  | sendAll (message : Bytes)
  /-- Wait for one message of every other party, and get them in ascending order of parties. -/
  | receiveAll

/-- What a successful call gives. -/
abbrev Call.Reply : Call → Type
  | .send .. => Unit
  | .receive _ => Bytes
  | .sendAll _ => Unit
  | .receiveAll => List (PartyId × Bytes)

end Spdz
