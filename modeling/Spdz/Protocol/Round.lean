import Spdz.Error
import Spdz.Network.Exchange
import Spdz.Party

/-!
# Protocols and their rounds

A protocol is a state machine driven by round numbers 0, 1, 2, … until it reports that it is done.
All parties evaluate the same protocols at the same round numbers and in the same order, and what is
sent in one round is received in the next. So many protocols can be advanced side by side without
any party waiting for a message that is yet to be sent.

* `Status` — what a round reports.
* `Round` — the effect of one round on the protocol, on the party and on the network.
* `Protocol`, `HasOutput` — a type of protocol states, and its result.
* `Round.draw`, `Round.sendElements`, `Round.receiveElements`, `Round.record` — what rounds are made
  of.

When a round fails, what it had changed until then stays changed, in the protocol and in the party.
-/

namespace Spdz

/-- What a round of a protocol reports. -/
inductive Status where
  | hasMoreRounds
  | isDone
  deriving DecidableEq

/-- What a party does with its own state and the network. -/
abbrev Action (F : FieldSpec) (σ : Type) := StateT (Party F σ) Exchange

/-- One round of a protocol with states `P`. -/
abbrev Round (F : FieldSpec) (σ P : Type) := ExceptT Error (StateT P (Action F σ))

/-- A protocol, given by the states it goes through. -/
class Protocol (F : FieldSpec) (σ P : Type) where
  /-- The local computation and the messages of a round. -/
  evaluate : (round : Nat) → Round F σ P Status

/-- A protocol with a result. -/
class HasOutput (P : Type) (Out : outParam Type) where
  /-- How the protocol is called. -/
  name : P → String
  /-- The result, once there is one. -/
  output : P → Option Out

namespace Round

variable {F : FieldSpec} {σ P Q α : Type}

/-! ## Composition -/

/-- The state of the party. -/
def party : Round F σ P (Party F σ) := getThe (Party F σ)

/-- A result, or the error that stands in its place. -/
def ofExcept {ε : Type} (wrap : ε → Error) : Except ε α → Round F σ P α
  | .ok result => pure result
  | .error e => throw (wrap e)

/-- A round of a part of the protocol. What it changes in that part stays, also when it fails. -/
def within (part : P → Q) (replace : Q → P → P) (round : Round F σ Q α) : Round F σ P α :=
  ExceptT.mk fun state => do
    let (result, inner) ← round.run (part state)
    return (result, replace inner state)

/-- A round of another protocol, whose state is lost when it fails. -/
def apart (inner : Q) (round : Round F σ Q α) : Round F σ P (α × Q) :=
  ExceptT.mk fun state => do
    let (result, inner) ← round.run inner
    return (result.map fun value => (value, inner), state)

/-! ## The network -/

/-- Make a call on the network. -/
def call (made : Call) : Round F σ P made.Reply := do
  ofExcept .transport (← (Exchange.perform made : Exchange _))

/-- Send elements to every other party. -/
def sendElements (elements : List (Elem F)) : Round F σ P Unit :=
  call (.sendAll (Elem.encodeList elements))

/-- The elements that a party sent in a message. -/
def decodeFrom (peer : PartyId) (message : Bytes) (count : Nat) : Round F σ P (List (Elem F)) :=
  -- there is a result, since no protocol asks for more than two elements
  ofExcept (.malformedMessage peer) ((Elem.decodeList F message count).getD (.ok []))

theorem decodeFrom_of_eq (peer : PartyId) {message : Bytes} {count : Nat}
    {result : Except CodecError (List (Elem F))}
    (read : Elem.decodeList F message count = some result) :
    (decodeFrom peer message count : Round F σ P _) = ofExcept (.malformedMessage peer) result := by
  rw [decodeFrom, read, Option.getD_some]

/-- Receive `count` elements from a party. -/
def receiveElements (peer : PartyId) (count : Nat) : Round F σ P (List (Elem F)) := do
  decodeFrom peer (← call (.receive peer)) count

/-- Receive `count` elements from every other party, in ascending order of parties. -/
def receiveElementsFromAll (count : Nat) : Round F σ P (List (PartyId × List (Elem F))) := do
  (← call .receiveAll).mapM fun (peer, message) => do
    return (peer, ← decodeFrom peer message count)

/-! ## Preprocessed items and openings -/

/-- Draw a preprocessed item. -/
def draw [Supplier F σ] (item : Item) : Round F σ P (item.Value F) := do
  let party ← party
  let (value, supplier) := Supplier.draw item party.supplier
  set { party with supplier }
  ofExcept .preprocessing value

/-- Record an opening for the next check. -/
def record (share : Share F) (value : Elem F) : Round F σ P Unit :=
  modifyThe (Party F σ) fun party => { party with opened := party.opened.push share value }

end Round

/-- The sum of this party's own element and the elements that the others sent at a position. -/
def sumAt {F : FieldSpec} (own : Elem F) (received : List (PartyId × List (Elem F)))
    (position : Nat) : Elem F :=
  received.foldl (fun sum (_, elements) => sum + elements.getD position 0) own

end Spdz
