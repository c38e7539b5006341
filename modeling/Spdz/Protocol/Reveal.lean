import Spdz.Protocol.Broadcast

/-!
# Committed revelation

Every party commits to a value before any of them is shown, then all are shown and checked. So no
party can choose its value by those of the others, which is what tossing a coin together needs.
Among more than two parties the commitments and the openings are also validated as broadcasts.

* `Reveal` — the protocol; its result is the list of all values in order of parties.

Two parties take three rounds: commit, open, check. More parties take five: commit, compare the
commitments, open, compare the openings, and a last comparison.
-/

namespace Spdz

variable {F : FieldSpec} {σ : Type}

/-! ## Places for each party -/

/-- The entry for a party in a list with a place for each. -/
def placeOf {α : Type} (places : List (Option α)) (party : PartyId) :
    Except Error (Option α) :=
  match party with
  | 0 => .error (.transport (.unknownParty 0))
  | index + 1 =>
    match places[index]? with
    | some entry => .ok entry
    | none => .error (.transport (.unknownParty party))

/-- The list with an entry put in the place of a party. -/
def place {α : Type} (places : List (Option α)) (party : PartyId) (entry : α) :
    Except Error (List (Option α)) := do
  let _ ← placeOf places party
  return places.set (party - 1) (some entry)

/-! ## The protocol -/

/-- Reveal the values of all parties at once. -/
structure Reveal (F : FieldSpec) where
  value : Elem F
  /-- What opens this party's commitment, until it is used up. -/
  opening : Option (Opening F) := none
  /-- The commitments in order of parties. -/
  commitments : List (Option Commitment) := []
  validation : Option BroadcastValidation := none
  /-- The values shown, before their comparison. -/
  values : List (Elem F) := []
  output : Option (List (Elem F)) := none

namespace Reveal

/-- A call that the protocol has no round for. -/
def noRound {α : Type} (round : Nat) : Round F σ (Reveal F) α :=
  throw (.invalidRound "CommitmentProtocol" round)

/-- A round of the comparison under way. -/
def validate (round : Nat) : Round F σ (Reveal F) Unit := do
  match (← get).validation with
  | none => noRound round
  | some validation =>
    discard <| Round.within (fun _ => validation)
      (fun validation state => { state with validation := some validation })
      (BroadcastValidation.evaluate round)

/-- Commit to the value and send the commitment. -/
def commit : Round F σ (Reveal F) Unit := do
  let party ← Round.party
  let ((commitment, opening), rng) := Commitment.commit (← get).value party.rng
  set { party with rng }
  Round.call (.sendAll commitment.digest)
  let places : List (Option Commitment) := List.replicate party.parties none
  modify fun state => { state with commitments := places }
  let commitments ← Round.ofExcept id (place places party.id commitment)
  modify fun state => { state with commitments, opening := some opening }

/-- Keep the commitment that a party sent. -/
def keepCommitment (peer : PartyId) (message : Bytes) : Round F σ (Reveal F) Unit := do
  let commitment ← Round.ofExcept (.malformedMessage peer) (Commitment.ofBytes message)
  let commitments ← Round.ofExcept id (place (← get).commitments peer commitment)
  modify fun state => { state with commitments }

/-- Receive all commitments. Among more than two parties they are to be compared. -/
def receiveCommitments : Round F σ (Reveal F) Unit := do
  (← Round.call .receiveAll).forM fun (peer, message) => keepCommitment peer message
  if (← Round.party).parties > 2 then
    modify fun state =>
      let digests := (state.commitments.filterMap id).map (·.digest)
      { state with validation := some { values := digests } }

/-- Send this party's opening. -/
def sendOpening : Round F σ (Reveal F) Unit := do
  match (← get).opening with
  | none => noRound 1
  | some opening => Round.call (.sendAll opening.toBytes)

/-- Put the opening that a party sent in its place, if it opens that party's commitment. -/
def checkOpening (places : List (Option (Opening F))) (peer : PartyId) (message : Bytes) :
    Round F σ (Reveal F) (List (Option (Opening F))) := do
  let opening ← Round.ofExcept (.malformedMessage peer) (Opening.ofBytes F message)
  match ← Round.ofExcept id (placeOf (← get).commitments peer) with
  | some commitment =>
    if commitment.verify opening then Round.ofExcept id (place places peer opening)
    else throw (.commitmentMismatch peer)
  | none => throw (.commitmentMismatch peer)

/-- Receive and check all openings. The result is their bytes, in order of parties. -/
def receiveOpenings : Round F σ (Reveal F) (List Bytes) := do
  let party ← Round.party
  match (← get).opening with
  | none => noRound 2
  | some own =>
    modify fun state => { state with opening := none }
    let received ← Round.call .receiveAll
    let places ← received.foldlM (fun places (peer, message) => checkOpening places peer message)
      (List.replicate party.parties none)
    let places ← Round.ofExcept id (place places party.id own)
    let openings := places.filterMap id
    modify fun state => { state with values := openings.map (·.value) }
    return openings.map (·.toBytes)

/-- Make the values shown the result. -/
def finish : Round F σ (Reveal F) Status := do
  modify fun state => { state with output := some state.values, values := [] }
  return .isDone

/-- The rounds for two parties and for more. -/
def evaluate (round : Nat) : Round F σ (Reveal F) Status := do
  let validated : Bool := (← Round.party).parties > 2
  match round, validated with
  | 0, _ =>
    commit
    return .hasMoreRounds
  | 1, true =>
    receiveCommitments
    validate 0
    return .hasMoreRounds
  | 1, false =>
    receiveCommitments
    sendOpening
    return .hasMoreRounds
  | 2, true =>
    validate 1
    sendOpening
    return .hasMoreRounds
  | 2, false =>
    discard receiveOpenings
    finish
  | 3, true =>
    let openings ← receiveOpenings
    modify fun state => { state with validation := some { values := openings } }
    validate 0
    return .hasMoreRounds
  | 4, true =>
    validate 1
    finish
  | _, _ => noRound round

instance : Protocol F σ (Reveal F) := ⟨evaluate⟩
instance : HasOutput (Reveal F) (List (Elem F)) := ⟨fun _ => "CommitmentProtocol", output⟩

end Reveal

end Spdz
