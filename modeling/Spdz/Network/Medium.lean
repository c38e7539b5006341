import Spdz.Network.Exchange

/-!
# Media that calls are made on

A medium carries messages between parties. It is asked to pass on one message or to hand out one;
how the four calls of a party are made of such requests is the same for all media. A receiving call
for which nothing is there has to wait, and is made again later.

* `Medium` — what carries messages; `Watch` — how it is waited on for messages of all parties.
* `Progress` — how far a call has come.
* `Medium.poll` — make a call, or make it again after waiting.
-/

namespace Spdz

/-- What a medium has for a receiver. -/
inductive Arrival where
  | message (bytes : Bytes)
  /-- Nothing so far. -/
  | nothing
  /-- No message: the channel ended, or what came was none. -/
  | broken

/-- How one waits for a message of each party. -/
inductive Watch where
  /-- For one party after the other. -/
  | inTurn
  /-- For all at once. A broken channel ends the wait as soon as it is seen. -/
  | together
  /-- For all at once, but what their channels bring is taken up in order: a broken channel counts
  only when all parties before it have sent. -/
  | inOrder
  deriving DecidableEq

/-- What carries messages between parties `1` to `parties`. -/
class Medium (μ : Type) where
  parties : μ → Nat
  /-- Pass on a message; false if that cannot be done. -/
  send : (sender receiver : PartyId) → Bytes → μ → Bool × μ
  /-- Hand out the next message of a sender. -/
  take : (receiver sender : PartyId) → μ → Arrival × μ
  /-- How one waits for messages of all parties. -/
  watch : μ → Watch
  /-- A party leaves. -/
  close : PartyId → μ → μ

/-- Messages that a waiting call already has. -/
abbrev Held := List (PartyId × Bytes)

/-- How far a call has come. -/
inductive Progress (made : Call) where
  | settled (reply : Except TransportError made.Reply)
  | waiting (held : Held)

namespace Medium

variable {μ : Type} [Medium μ]

/-- Send a message to parties in turn, up to the first that cannot be reached. -/
def sendEach (self : PartyId) (message : Bytes) :
    List PartyId → μ → Except TransportError Unit × μ
  | [], medium => (.ok (), medium)
  | peer :: peers, medium =>
    match send self peer message medium with
    | (true, medium) => sendEach self message peers medium
    | (false, medium) => (.error (.send peer), medium)

/-- Collect one message of each party, in ascending order, those held included. `complete` tells
whether all parties so far have sent; the result tells it of all parties. -/
def gather (watch : Watch) (self : PartyId) (held : Held) :
    (complete : Bool) → List PartyId → μ → Except TransportError (Bool × Held) × μ
  | complete, [], medium => (.ok (complete, []), medium)
  | complete, peer :: peers, medium =>
    let arrival : Arrival × μ := match held.lookup peer with
      | some message => (.message message, medium)
      | none => take self peer medium
    match arrival with
    | (.message message, medium) =>
      let (rest, medium) := gather watch self held complete peers medium
      (rest.map fun (complete, messages) => (complete, (peer, message) :: messages), medium)
    | (.nothing, medium) =>
      if watch = .inTurn then (.ok (false, []), medium)
      else gather watch self held false peers medium
    | (.broken, medium) =>
      if watch = .inOrder ∧ !complete then gather watch self held false peers medium
      else (.error (.receive peer), medium)

/-- Make a call, given the messages that it already has. There are channels to the other parties
only. -/
def poll (self : PartyId) (held : Held) (medium : μ) : (made : Call) → Progress made × μ
  | .send peer message =>
    if peer ∈ peersOf self (parties medium) then
      match send self peer message medium with
      | (true, medium) => (.settled (.ok ()), medium)
      | (false, medium) => (.settled (.error (.send peer)), medium)
    else (.settled (.error (.unknownParty peer)), medium)
  | .receive peer =>
    if peer ∈ peersOf self (parties medium) then
      match take self peer medium with
      | (.message message, medium) => (.settled (.ok message), medium)
      | (.nothing, medium) => (.waiting [], medium)
      | (.broken, medium) => (.settled (.error (.receive peer)), medium)
    else (.settled (.error (.unknownParty peer)), medium)
  | .sendAll message =>
    let (sent, medium) := sendEach self message (peersOf self (parties medium)) medium
    (.settled sent, medium)
  | .receiveAll =>
    match gather (watch medium) self held true (peersOf self (parties medium)) medium with
    | (.error e, medium) => (.settled (.error e), medium)
    | (.ok (true, messages), medium) => (.settled (.ok messages), medium)
    | (.ok (false, messages), medium) => (.waiting messages, medium)

end Medium

end Spdz
