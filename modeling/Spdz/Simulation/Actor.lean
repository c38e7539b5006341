import Spdz.Simulation.Script

/-!
# Actors

An actor is a party that follows a script. It has a session, or the parts of one, and keeps shares
under names for later steps.

* `Actor` — the party's state.
* `Actor.follow` — a step, as an exchange that ends with the entry for the log.
-/

namespace Spdz

/-- What an actor has of a session. -/
inductive Stage (F : FieldSpec) (σ : Type) where
  | whole (session : Session F σ)
  /-- The party's state, without a session around it. -/
  | split (party : Party F σ)
  /-- The session has been finished. -/
  | gone

/-- A party that follows a script. -/
structure Actor (F : FieldSpec) (σ : Type) where
  seat : Seat
  stage : Stage F σ
  /-- Shares by the names under which they were kept last. -/
  kept : List (String × Share F) := []
  /-- The protocols that are evaluated by hand, by label. -/
  protocols : List (String × ScriptedProtocol F) := []

namespace Actor

variable {F : FieldSpec} {σ α : Type}

/-- What a step ends with: an entry, and what has become of the actor. -/
abbrev Outcome (F : FieldSpec) (σ : Type) := Entry F × Actor F σ

/-! ## Shares that were kept -/

/-- The share kept under a name, or the name. -/
def lookup (actor : Actor F σ) (name : String) : Except String (Share F) :=
  match actor.kept.lookup name with
  | some share => .ok share
  | none => .error name

/-- The share that an operand means, or the name under which there is none. -/
def operand (actor : Actor F σ) : Operand F → Except String (Share F)
  | .literal share => .ok share
  | .kept name => actor.lookup name

/-- Keep a share under a name. -/
def keep (actor : Actor F σ) (name : String) (share : Share F) : Actor F σ :=
  { actor with kept := (name, share) :: actor.kept }

/-- Keep what is a share under the given name, if there is one. Several shares are kept under the
name followed by their positions. -/
def keepOutput (actor : Actor F σ) (keepAs : Option String) (output : Output F) : Actor F σ :=
  match keepAs, output with
  | some name, .share share => actor.keep name share
  | some name, .shares shares =>
    shares.zipIdx.foldl
      (fun actor (share, position) => actor.keep s!"{name}.{position}" share) actor
  | _, _ => actor

/-- Keep the results of a batch, as far as there are any. -/
def keepOutputs (actor : Actor F σ) (parts : List (BatchPart F))
    (outputs : List (Option (Output F))) : Actor F σ :=
  (parts.zip outputs).foldl
    (fun actor (part, output) =>
      match output with
      | some output => actor.keepOutput part.keepAs output
      | none => actor)
    actor

/-- Build a protocol, unless it needs a share that was not kept. -/
def build (actor : Actor F σ) : Blueprint F → Except String (ScriptedProtocol F)
  | .input inputter value => return .gate (.input (.new (value.ofParty actor.seat.party) inputter))
  | .checkedInput inputter value =>
    return .gate (.checkedInput (.new (value.ofParty actor.seat.party) inputter))
  | .multiply x y => return .gate (.multiply { x := ← actor.operand x, y := ← actor.operand y })
  | .openAll share => return .gate (.openAll { share := ← actor.operand share })
  | .openTo share target => return .gate (.openTo { share := ← actor.operand share, target })
  | .element => return .gate (.element {})
  | .bit => return .gate (.bit {})
  | .pipe length => return .gate (.pipe { length })
  | .known value => return .gate (.known { value })
  | .reveal value => return .gate (.reveal { value := (value.ofParty actor.seat.party).getD 0 })
  | .validation values => return .gate (.validation { values })
  | .macCheck => return .gate (.macCheck {})
  | .hollow rounds => return .hollow rounds

/-- Carry on with a share or protocol, or leave an entry about the share that is missing. -/
def given (actor : Actor F σ) (needed : Except String α)
    (next : α → Exchange (Outcome F σ)) : Exchange (Outcome F σ) :=
  match needed with
  | .ok value => next value
  | .error name => return (.unset name, actor)

/-! ## The session and the party -/

/-- Let the session do something that may fail. -/
def within (actor : Actor F σ) (work : Evaluation F σ α)
    (entry : α → Actor F σ → Outcome F σ) : Exchange (Outcome F σ) := do
  match actor.stage with
  | .whole session =>
    let (result, session) ← work.run.run session
    let actor := { actor with stage := .whole session }
    match result with
    | .ok value => return entry value actor
    | .error e => return (.failed e, actor)
  | _ => return (.skipped, actor)

/-- An entry about the session. -/
def about (actor : Actor F σ) (entry : Session F σ → Entry F) : Exchange (Outcome F σ) :=
  match actor.stage with
  | .whole session => return (entry session, actor)
  | _ => return (.skipped, actor)

/-- Let the party do something by itself, whether or not there is a session around it. -/
def byParty (actor : Actor F σ) (work : Party F σ → Entry F × Party F σ) : Outcome F σ :=
  match actor.stage with
  | .whole session =>
    let (entry, party) := work session.party
    (entry, { actor with stage := .whole { session with party } })
  | .split party =>
    let (entry, party) := work party
    (entry, { actor with stage := .split party })
  | .gone => (.skipped, actor)

/-- Make a call on the network, which a session would not let through. -/
def byHand (actor : Actor F σ) (made : Call) (entry : made.Reply → Entry F) :
    Exchange (Outcome F σ) := do
  match actor.stage with
  | .split _ =>
    match ← Exchange.perform made with
    | .ok reply => return (entry reply, actor)
    | .error e => return (.callFailed e, actor)
  | _ => return (.skipped, actor)

/-! ## Steps -/

section Steps

variable [Supplier F σ]

/-- The share that a computation gives. -/
def compute (actor : Actor F σ) (party : Party F σ) : Computation F → Except String (Share F)
  | .literal share => return share
  | .zero => return 0
  | .add x y => return (← actor.lookup x) + (← actor.lookup y)
  | .sub x y => return (← actor.lookup x) - (← actor.lookup y)
  | .neg x => return -(← actor.lookup x)
  | .double x => return (← actor.lookup x).double
  | .scale x factor => return (← actor.lookup x).scale factor
  | .ofPublic value => return .ofPublic value party.keyShare party.id
  | .addPublic x value => return (← actor.lookup x).addPublic value party.keyShare party.id

/-- An entry for a result, which is kept. -/
def showOutput (keepAs : Option String) (output : Output F) (actor : Actor F σ) :
    Outcome F σ :=
  (.output output, actor.keepOutput keepAs output)

/-- Call the session's function for a protocol, or run the protocol if there is none. -/
def call (actor : Actor F σ) (keepAs : Option String) (protocol : Blueprint F) :
    Exchange (Outcome F σ) :=
  let value (contribution : Contribution F) := contribution.ofParty actor.seat.party
  match protocol with
  | .input inputter own =>
    actor.within (Session.input inputter (value own)) fun share => showOutput keepAs (.share share)
  | .checkedInput inputter own =>
    actor.within (Session.inputChecked inputter (value own)) fun share =>
      showOutput keepAs (.share share)
  | .multiply x y =>
    actor.given (actor.operand x) fun x => actor.given (actor.operand y) fun y =>
      actor.within (Session.multiply x y) fun share => showOutput keepAs (.share share)
  | .openAll share =>
    actor.given (actor.operand share) fun share =>
      actor.within (Session.openAll share) fun value => showOutput keepAs (.value value)
  | .openTo share target =>
    actor.given (actor.operand share) fun share =>
      actor.within (Session.openTo share target) fun value => showOutput keepAs (.target value)
  | .element =>
    actor.within Session.randomElement fun share => showOutput keepAs (.share share)
  | other =>
    actor.given (actor.build other) fun protocol =>
      actor.within (Session.run protocol) fun output => showOutput keepAs output

/-- Run a batch; the results are shown and kept also if it fails. -/
def batch (actor : Actor F σ) (parts : List (BatchPart F)) : Exchange (Outcome F σ) :=
  actor.given (parts.mapM fun part => actor.build part.protocol) fun protocols => do
    match actor.stage with
    | .whole session =>
      let work : Sessional F σ _ := Session.runBatch protocols
      let ((result, protocols), session) ← work.run session
      let actor := { actor with stage := .whole session }
      let outputs := protocols.map ScriptedProtocol.output
      let failure := match result with
        | .ok () => none
        | .error e => some e
      return (.batch outputs failure, actor.keepOutputs parts outputs)
    | _ => return (.skipped, actor)

/-- Evaluate one round of a protocol by hand. -/
def evaluate (actor : Actor F σ) (keepAs : Option String) (label : String) (round : Nat)
    (blueprint : Blueprint F) : Exchange (Outcome F σ) :=
  let protocol := match actor.protocols.lookup label with
    | some protocol => .ok protocol
    | none => actor.build blueprint
  actor.given protocol fun protocol => do
    match actor.stage with
    | .split party =>
      let work : Action F σ _ := (Protocol.evaluate round : Round F σ _ _).run protocol
      let ((report, protocol), party) ← work.run party
      let actor := { actor with
        stage := .split party, protocols := (label, protocol) :: actor.protocols }
      let output := protocol.output
      let actor := match output with
        | some output => actor.keepOutput keepAs output
        | none => actor
      return (.evaluated report output, actor)
    | _ => return (.skipped, actor)

/-- Finish the session, which is gone afterwards. -/
def finish (actor : Actor F σ) : Exchange (Outcome F σ) := do
  let (entry, actor) ← actor.within Session.finish fun stats actor => (.stats stats, actor)
  match actor.stage with
  | .whole _ => return (entry, { actor with stage := .gone })
  | _ => return (entry, actor)

/-- Carry out an instruction. -/
def carryOut (actor : Actor F σ) (keepAs : Option String) :
    Instruction F → Exchange (Outcome F σ)
  | .compute computation =>
    match actor.stage with
    | .whole session =>
      actor.given (actor.compute session.party computation) fun share =>
        return showOutput keepAs (.share share) actor
    | _ => return (.skipped, actor)
  | .call protocol => actor.call keepAs protocol
  | .macCheck => actor.within Session.macCheck fun _ => showOutput none .unit
  | .checkpoint => actor.within Session.checkpoint fun _ => showOutput none .unit
  | .finish => actor.finish
  | .run protocol =>
    actor.given (actor.build protocol) fun protocol =>
      actor.within (Session.run protocol) fun output => showOutput keepAs output
  | .runAll parts =>
    actor.given (parts.mapM fun part => actor.build part.protocol) fun protocols =>
      actor.within (Session.runAll protocols) fun outputs actor =>
        (.outputs outputs, actor.keepOutputs parts (outputs.map some))
  | .batch parts => actor.batch parts
  | .stats => actor.about fun session => .stats session.stats
  | .aborted => actor.about fun session => .aborted (session.aborted.map (·.1))
  | .keyShare => return actor.byParty fun party => (.element party.keyShare, party)
  | .seat => return actor.byParty fun party => (.seat ⟨party.id, party.parties⟩, party)
  | .pending => return actor.byParty fun party => (.openings party.opened.toList, party)
  | .drain =>
    return actor.byParty fun party =>
      let (records, opened) := party.opened.drain
      (.openings records, { party with opened })
  | .push share value =>
    actor.given (actor.operand share) fun share =>
      return actor.byParty fun party =>
        (.unit, { party with opened := party.opened.push share value })
  | .shift position change =>
    return actor.byParty fun party =>
      let shifted := party.opened.toList.modify position fun record =>
        { record with value := record.value + change }
      (.unit, { party with opened := ⟨shifted⟩ })
  | .draw item =>
    return actor.byParty fun party =>
      let (value, supplier) := Supplier.draw item party.supplier
      let entry := match value with
        | .ok value => .item item value
        | .error e => .drawFailed e
      (entry, { party with supplier })
  | .split =>
    match actor.stage with
    | .whole session => return (.unit, { actor with stage := .split session.party })
    | _ => return (.skipped, actor)
  | .join =>
    match actor.stage with
    | .split party =>
      match Session.start party actor.seat with
      | .ok session => return (.unit, { actor with stage := .whole session })
      | .error e => return (.failed e, actor)
    | _ => return (.skipped, actor)
  | .evaluate label round blueprint => actor.evaluate keepAs label round blueprint
  | .send peer message => actor.byHand (.send peer message.bytes) fun _ => .unit
  | .sendAll message => actor.byHand (.sendAll message.bytes) fun _ => .unit
  | .receive peer => actor.byHand (.receive peer) .message
  | .receiveAll => actor.byHand .receiveAll .messages

/-- Follow a step of the script, if it is for this party. -/
def follow (step : Step F) (actor : Actor F σ) : Exchange (Outcome F σ) :=
  match step.only with
  | none => actor.carryOut step.keepAs step.instruction
  | some parties =>
    if actor.seat.party ∈ parties then actor.carryOut step.keepAs step.instruction
    else return (.skipped, actor)

end Steps

end Actor

end Spdz
