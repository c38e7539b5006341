import Spdz.Evaluation.Schedule
import Spdz.Protocol.Gate

/-!
# Sessions

A session evaluates batches of protocols for one party and keeps the account of it. After each batch
the pending openings are checked if there are enough of them. The first error ends the session:
every later call fails with that cause and touches nothing.

* `Session` — the party's state, the counters, and the cause if the session has ended.
* `Session.start` — a session on a given seat of the network.
* `Session.runBatch`, `Session.runAll`, `Session.run` — evaluate protocols.
* `Session.macCheck`, `Session.checkpoint`, `Session.finish` — confirm what was opened.
* `Session.input`, `Session.multiply`, `Session.openAll`, … — evaluate a single protocol.
-/

namespace Spdz

/-- What a session has done. -/
structure Stats where
  /-- Batches evaluated. -/
  batches : Nat := 0
  /-- Rounds of all batches, those of checks left out. -/
  rounds : Nat := 0
  /-- Checks that passed. -/
  macChecks : Nat := 0
  deriving DecidableEq

/-- A place in the network: which party sits there, among how many. -/
structure Seat where
  party : PartyId
  parties : Nat
  deriving DecidableEq

/-- The evaluation of protocols by one party. -/
structure Session (F : FieldSpec) (σ : Type) where
  party : Party F σ
  stats : Stats := {}
  /-- Category and words of the error that ended the session. -/
  aborted : Option (Category × String) := none

/-- What a session does until it ends with a result, whatever the result is. -/
abbrev Sessional (F : FieldSpec) (σ : Type) := StateT (Session F σ) Exchange

/-- What a session does until it succeeds or fails. -/
abbrev Evaluation (F : FieldSpec) (σ : Type) := ExceptT Error (Sessional F σ)

namespace Session

variable {F : FieldSpec} {σ P Out : Type}

/-- A session of a party. The seat must be that party's. -/
def start (party : Party F σ) (seat : Seat) : Except Error (Session F σ) :=
  if seat.party ≠ party.id ∨ seat.parties ≠ party.parties then
    .error (.config (.networkMismatch party.id party.parties seat.party seat.parties))
  else .ok { party }

/-! ## Driving protocols -/

/-- The error that every call meets once the session has ended. -/
def ended (session : Session F σ) : Option Error :=
  session.aborted.map fun (category, cause) => .aborted category cause

/-- Fail if the session has ended. -/
def ensureActive : Evaluation F σ Unit := do
  if let some e := (← getThe (Session F σ)).ended then throw e

/-- An action of the party within its session. -/
def byParty {α : Type} (action : Action F σ α) : Sessional F σ α := fun session => do
  let (result, party) ← action.run session.party
  return (result, { session with party })

/-- Drive protocols to completion and count the rounds. An error ends the session. -/
def drive [Protocol F σ P] (protocols : List P) : Sessional F σ (Except Error Nat × List P) := do
  match (← get).ended with
  | some e => return (.error e, protocols)
  | none =>
    let (result, protocols) ← byParty (driveRounds protocols)
    if let .error e := result then
      modify fun session => { session with aborted := some (e.category, e.message) }
    return (result, protocols)

/-! ## Checks -/

section Checks

variable [Supplier F σ]

/-- Check all pending openings. -/
def macCheck : Evaluation F σ Unit := do
  let (result, _) ← (drive [({} : MacCheck F)] : Sessional F σ _)
  discard (liftExcept result)
  modifyThe (Session F σ) fun session =>
    { session with stats.macChecks := session.stats.macChecks + 1 }

/-- Check the pending openings, if there are any. What was opened before is then confirmed. -/
def checkpoint : Evaluation F σ Unit := do
  ensureActive
  if !(← getThe (Session F σ)).party.opened.isEmpty then macCheck

/-- A last check; the result is the account of the session. -/
def finish : Evaluation F σ Stats := do
  checkpoint
  return (← getThe (Session F σ)).stats

/-! ## Batches -/

/-- Account for a batch, and check the pending openings if there are too many. -/
def settle (rounds : Nat) : Evaluation F σ Unit := do
  modifyThe (Session F σ) fun session =>
    { session with
      stats.batches := session.stats.batches + 1
      stats.rounds := session.stats.rounds + rounds }
  let party := (← getThe (Session F σ)).party
  if party.opened.reaches party.config.openedThreshold then macCheck

/-- Evaluate a batch of independent protocols. They are given back in the states they reached, also
after an error. -/
def runBatch [Protocol F σ P] (protocols : List P) :
    Sessional F σ (Except Error Unit × List P) := do
  match ← drive protocols with
  | (.error e, protocols) => return (.error e, protocols)
  | (.ok rounds, protocols) => return (← (settle rounds).run, protocols)

/-- The result of a protocol that is done. -/
def outputOf [HasOutput P Out] (protocol : P) : Except Error Out :=
  match HasOutput.output protocol with
  | some output => .ok output
  | none => .error (.unfinished (HasOutput.name protocol))

/-- Evaluate a batch of protocols and collect their results in order. -/
def runAll [Protocol F σ P] [HasOutput P Out] (protocols : List P) :
    Evaluation F σ (List Out) := do
  let (result, protocols) ← (runBatch protocols : Sessional F σ _)
  liftExcept result
  liftExcept (protocols.mapM outputOf)

/-- Evaluate a single protocol. -/
def run [Protocol F σ P] [HasOutput P Out] (protocol : P) : Evaluation F σ Out := do
  let (result, protocols) ← (runBatch [protocol] : Sessional F σ _)
  liftExcept result
  liftExcept (outputOf (protocols.headD protocol))

/-! ## Single protocols -/

/-- A share of the value that the inputter provides. At other parties the value does not matter. -/
def input (inputter : PartyId) (value : Option (Elem F)) : Evaluation F σ (Share F) :=
  run (Input.new value inputter)

/-- The same, with an inputter that need not be trusted to treat all alike. -/
def inputChecked (inputter : PartyId) (value : Option (Elem F)) : Evaluation F σ (Share F) :=
  run (CheckedInput.new value inputter)

/-- A share of the product of two shared values. -/
def multiply (x y : Share F) : Evaluation F σ (Share F) := run ({ x, y } : Multiply F)

/-- Reveal a shared value to all. It is confirmed only by the next check. -/
def openAll (share : Share F) : Evaluation F σ (Elem F) := run ({ share } : Open F)

/-- Reveal a shared value to one party. -/
def openTo (share : Share F) (target : PartyId) : Evaluation F σ (Option (Elem F)) :=
  run ({ share, target } : OpenTo F)

/-- A share of a random element. -/
def randomElement : Evaluation F σ (Share F) := run ({} : RandomElement F)

end Checks

end Session

end Spdz
