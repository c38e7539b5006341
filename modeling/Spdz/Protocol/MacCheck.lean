import Spdz.Field.Sampling
import Spdz.Protocol.Reveal

/-!
# The check of opened values

All openings since the last check are confirmed at once. The parties toss a coin together and expand
it into a public random coefficient `r j` for each record. Each party then computes

`sigma = (sum of r j * mac j) - alpha * (sum of r j * value j)`

from its shares of the records and of the key `alpha`. The sigmas are revealed together and must sum
to zero: a single wrong value makes the sum differ from zero unless the coefficients happen to
cancel it, which they do with probability `1 / p` in a field of `p` elements.

* `coefficients` — the coefficients that a coin expands to.
* `sigma` — this party's share of the sum, for given coefficients.
* `MacCheck` — the protocol.
-/

namespace Spdz

variable {F : FieldSpec} {σ : Type}

/-! ## Coefficients and sums -/

/-- The public coefficients that the coins of all parties expand to. -/
def coefficients (coins : List (Elem F)) (count : Nat) : List (Elem F) :=
  let source := ChaCha.ofSeed (sha3 (Elem.sum coins).encode)
  (WordSource.collect (Elem.random F) count source).1

/-- This party's share of the combination of all records, which is zero if every value is right. -/
def sigma (keyShare : Elem F) (coefficients : List (Elem F)) (records : List (OpenedValue F)) :
    Elem F :=
  let terms := coefficients.zip records
  let mac := Elem.sum (terms.map fun (r, record) => r * record.share.mac)
  let opened := Elem.sum (terms.map fun (r, record) => r * record.value)
  mac - keyShare * opened

/-! ## The protocol -/

/-- How far a check has got. -/
inductive CheckStage (F : FieldSpec) where
  /-- Not begun, or ended by an error. -/
  | idle
  /-- The coin is being tossed. -/
  | coin (toss : Reveal F)
  /-- The sigmas are being revealed, since the given round. -/
  | sigma (start : Nat) (sigmas : Reveal F)
  | passed

/-- Check and clear the pending opened values. They are taken from the party when the check
begins. -/
structure MacCheck (F : FieldSpec) where
  stage : CheckStage F := .idle
  /-- The records that are being checked. -/
  records : List (OpenedValue F) := []

namespace MacCheck

/-- A call that the protocol has no round for. -/
def noRound {α : Type} (round : Nat) : Round F σ (MacCheck F) α :=
  throw (.invalidRound "MacCheckProtocol" round)

/-- Enter a stage. -/
def enter (stage : CheckStage F) : Round F σ (MacCheck F) Unit :=
  modify fun state => { state with stage }

/-- Take the pending records from the party and draw this party's part of the coin. -/
def begin : Round F σ (MacCheck F) Unit := do
  let party ← Round.party
  let (records, opened) := party.opened.drain
  let (coin, rng) := Elem.random F party.rng
  set { party with opened, rng }
  set { stage := .coin { value := coin }, records : MacCheck F }

/-- A round of the coin toss. When it ends, the sigmas are committed to in the same round. -/
def tossCoin [Supplier F σ] (round : Nat) (toss : Reveal F) : Round F σ (MacCheck F) Status := do
  let (status, toss) ← Round.apart toss (Reveal.evaluate round)
  match status, toss.output with
  | .hasMoreRounds, _ => enter (.coin toss)
  | .isDone, none => noRound round
  | .isDone, some coins =>
    let records := (← get).records
    let keyShare := (← Round.party).keyShare
    let value := Spdz.sigma keyShare (coefficients coins records.length) records
    let (_, sigmas) ← Round.apart { value } (Reveal.evaluate 0)
    enter (.sigma round sigmas)
  return .hasMoreRounds

/-- A round of revealing the sigmas. When it ends, their sum decides. -/
def revealSigmas (round start : Nat) (sigmas : Reveal F) : Round F σ (MacCheck F) Status := do
  if round < start then noRound round
  let (status, sigmas) ← Round.apart sigmas (Reveal.evaluate (round - start))
  match status, sigmas.output with
  | .hasMoreRounds, _ =>
    enter (.sigma start sigmas)
    return .hasMoreRounds
  | .isDone, none => noRound round
  | .isDone, some values =>
    if Elem.sum values ≠ 0 then throw .macCheckFailed
    enter .passed
    return .isDone

/-- Go on from the stage reached. An error leaves the check idle. -/
def evaluate [Supplier F σ] (round : Nat) : Round F σ (MacCheck F) Status := do
  match round, (← get).stage with
  | 0, .idle => begin
  | _, _ => pure ()
  match (← get).stage with
  | .coin toss =>
    enter .idle
    tossCoin round toss
  | .sigma start sigmas =>
    enter .idle
    revealSigmas round start sigmas
  | .idle | .passed => noRound round

instance [Supplier F σ] : Protocol F σ (MacCheck F) := ⟨evaluate⟩
instance : HasOutput (MacCheck F) Unit where
  name _ := "MacCheckProtocol"
  output state := match state.stage with
    | .passed => some ()
    | _ => none

end MacCheck

end Spdz
