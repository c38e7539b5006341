import Mathlib.Tactic.SplitIfs
import Spdz.Evaluation.Session
import Spdz.Proofs.Evaluation.Tagged

/-!
# What a session does with its party

A session drives protocols and checks, and keeps account of them around that.  Here its functions are
written as what they do to a session, and those that make calls are given labels as well.

* `Session.run_macCheck`, `Session.run_settle`, `Session.run_run`, … — the functions, as what they do
  to a session.
* `Phase`, `Session.runBatchTagged` — a batch with a label for each phase, round and position.
* **`Session.plain_runBatchTagged`** — without labels this is `Session.runBatch`.
-/

namespace Spdz

variable {F : FieldSpec} {σ P Out Λ α : Type}

/-- The two phases of a batch: the batch itself, and the check that may follow. -/
inductive Phase where
  | batch
  | check
  deriving DecidableEq

/-- What a session does until it ends with a result, with labelled calls. -/
abbrev TaggedSessional (F : FieldSpec) (σ Λ : Type) := StateT (Session F σ) (Labelled Λ)

namespace Session

/-! ## Accounts -/

/-- The session with one more check that passed. -/
def countCheck (session : Session F σ) : Session F σ :=
  { session with stats.macChecks := session.stats.macChecks + 1 }

/-- The session with one more batch of so many rounds. -/
def countBatch (rounds : Nat) (session : Session F σ) : Session F σ :=
  { session with
    stats.batches := session.stats.batches + 1
    stats.rounds := session.stats.rounds + rounds }

/-- Whether so many openings are pending that a check is due. -/
def isDue (session : Session F σ) : Bool :=
  session.party.opened.reaches session.party.config.openedThreshold

section Checks

variable [Supplier F σ]

/-- A check, as what it does to a session. -/
theorem run_macCheck : (macCheck : Evaluation F σ Unit).run = (do
    match ← (drive [({} : MacCheck F)] : Sessional F σ _) with
    | (.error e, _) => return .error e
    | (.ok _, _) =>
      modify countCheck
      return .ok ()) := by
  refine (ExceptT.run_bind_lift _ _).trans (congrArg _ (funext ?_))
  rintro ⟨result | rounds, _⟩ <;> rfl

/-- The account of a batch, as what it does to a session. -/
theorem run_settle (rounds : Nat) (session : Session F σ) :
    (settle rounds : Evaluation F σ Unit).run.run session
      = if session.isDue then (macCheck : Evaluation F σ Unit).run.run (session.countBatch rounds)
        else pure (.ok (), session.countBatch rounds) := by
  have counted : (settle rounds : Evaluation F σ Unit).run.run session
      = (if session.isDue then (macCheck : Evaluation F σ Unit) else pure ()).run.run
          (session.countBatch rounds) := rfl
  rw [counted]
  split_ifs <;> rfl

/-- A batch of one protocol, as what it does to a session. -/
theorem run_run [Protocol F σ P] [HasOutput P Out] (protocol : P) (session : Session F σ) :
    (run protocol : Evaluation F σ Out).run.run session
      = (runBatch [protocol]).run session >>= fun ((result, protocols), session) =>
          .done (result >>= fun _ => outputOf (protocols.headD protocol), session) := by
  have lifted : (run protocol : Evaluation F σ Out).run
      = (runBatch [protocol] : Sessional F σ _) >>= fun done =>
          (liftExcept done.1 >>= fun _ =>
            liftExcept (outputOf (done.2.headD protocol)) : Evaluation F σ Out).run :=
    ExceptT.run_bind_lift _ _
  rw [lifted]
  refine congrArg ((runBatch [protocol]).run session >>= ·) (funext ?_)
  rintro ⟨⟨result | _, protocols⟩, session⟩
  · rfl
  · show (liftExcept (outputOf (protocols.headD protocol)) : Evaluation F σ Out).run.run session
      = .done (outputOf (protocols.headD protocol), session)
    cases outputOf (protocols.headD protocol) <;> rfl

/-- A batch whose results are collected, as what it does to a session. -/
theorem run_runAll [Protocol F σ P] [HasOutput P Out] (protocols : List P) (session : Session F σ) :
    (runAll protocols : Evaluation F σ (List Out)).run.run session
      = (runBatch protocols).run session >>= fun ((result, protocols), session) =>
          .done (result >>= fun _ => protocols.mapM outputOf, session) := by
  have lifted : (runAll protocols : Evaluation F σ (List Out)).run
      = (runBatch protocols : Sessional F σ _) >>= fun done =>
          (liftExcept done.1 >>= fun _ =>
            liftExcept (done.2.mapM outputOf) : Evaluation F σ (List Out)).run :=
    ExceptT.run_bind_lift _ _
  rw [lifted]
  refine congrArg ((runBatch protocols).run session >>= ·) (funext ?_)
  rintro ⟨⟨result | _, protocols⟩, session⟩
  · rfl
  · show (liftExcept (protocols.mapM outputOf) : Evaluation F σ (List Out)).run.run session
      = .done (protocols.mapM outputOf, session)
    cases protocols.mapM outputOf <;> rfl

/-- The results of protocols that are all done. -/
theorem mapM_outputOf [HasOutput P Out] {protocols : List P} {out : List Out}
    (shown : protocols.map HasOutput.output = out.map some) :
    protocols.mapM outputOf = .ok out := by
  induction protocols generalizing out with
  | nil =>
      obtain rfl : out = [] := by simpa using shown.symm
      rfl
  | cons protocol protocols ih =>
      cases out with
      | nil => simp at shown
      | cons o out =>
          obtain ⟨first, others⟩ := List.cons.inj shown
          have here : outputOf protocol = .ok o := by rw [outputOf, first]
          rw [List.mapM_cons, here, ih others]
          rfl

/-- A checkpoint of a session that has not ended. -/
theorem run_checkpoint {session : Session F σ} (active : session.aborted = none) :
    (checkpoint : Evaluation F σ Unit).run.run session
      = if session.party.opened.isEmpty then .done (.ok (), session)
        else (macCheck : Evaluation F σ Unit).run.run session := by
  obtain ⟨party, stats, aborted⟩ := session
  obtain rfl : aborted = none := active
  have going : (checkpoint : Evaluation F σ Unit).run.run ⟨party, stats, none⟩
      = (if !party.opened.isEmpty then macCheck else pure () : Evaluation F σ Unit).run.run
          ⟨party, stats, none⟩ := rfl
  rw [going]
  cases party.opened.isEmpty <;> rfl

/-- The last check, as what it does to a session. -/
theorem run_finish (session : Session F σ) :
    (finish : Evaluation F σ Stats).run.run session
      = (checkpoint : Evaluation F σ Unit).run.run session >>= fun (result, session) =>
          .done (result.map fun _ => session.stats, session) := by
  refine congrArg _ (funext ?_)
  rintro ⟨result | _, session⟩ <;> rfl

end Checks

/-! ## With labels -/

/-- An action of the party within its session. -/
def byPartyTagged (action : TaggedAction F σ Λ α) : TaggedSessional F σ Λ α := fun session => do
  let (result, party) ← action.run session.party
  return (result, { session with party })

/-- Drive protocols to completion. -/
def driveTagged [Protocol F σ P] (tag : (round position : Nat) → Λ) (protocols : List P) :
    TaggedSessional F σ Λ (Except Error Nat × List P) := do
  match (← get).ended with
  | some e => return (.error e, protocols)
  | none =>
    let (result, protocols) ← byPartyTagged (driveRoundsTagged tag protocols)
    if let .error e := result then
      modify fun session => { session with aborted := some (e.category, e.message) }
    return (result, protocols)

/-- The session once its party has driven protocols. -/
def driven {α : Type} (result : Except Error α) (party : Party F σ) (session : Session F σ) :
    Session F σ :=
  match result with
  | .ok _ => { session with party }
  | .error e => { session with party, aborted := some (e.category, e.message) }

/-- What driving protocols does to a session that has not ended. -/
theorem run_driveTagged [Protocol F σ P] (tag : (round position : Nat) → Λ) (protocols : List P)
    {session : Session F σ} (active : session.aborted = none) :
    (driveTagged tag protocols).run session
      = (driveRoundsTagged tag protocols).run session.party >>= fun ((result, protocols), party) =>
          .done ((result, protocols), session.driven result party) := by
  have going : session.ended = none := by rw [ended, active, Option.map_none]
  have started : (driveTagged tag protocols).run session
      = (match session.ended with
        | some e => return (.error e, protocols)
        | none => do
          let (result, protocols) ← byPartyTagged (driveRoundsTagged tag protocols)
          if let .error e := result then
            modify fun session => { session with aborted := some (e.category, e.message) }
          return (result, protocols) : TaggedSessional F σ Λ _).run session := rfl
  rw [started, going]
  refine (bind_assoc (m := Labelled Λ) _ _ _).trans (congrArg _ (funext ?_))
  rintro ⟨⟨result | rounds, protocols⟩, party⟩ <;> rfl

section Checks

variable [Supplier F σ] (tag : Phase → (round position : Nat) → Λ)

/-- Check all pending openings. -/
def macCheckTagged : TaggedSessional F σ Λ (Except Error Unit) := do
  match ← driveTagged (tag .check) [({} : MacCheck F)] with
  | (.error e, _) => return .error e
  | (.ok _, _) =>
    modify countCheck
    return .ok ()

/-- Account for a batch, and check the pending openings if there are too many. -/
def settleTagged (rounds : Nat) : TaggedSessional F σ Λ (Except Error Unit) := fun session =>
  if session.isDue then (macCheckTagged tag).run (session.countBatch rounds)
  else pure (.ok (), session.countBatch rounds)

/-- Evaluate a batch of independent protocols. -/
def runBatchTagged [Protocol F σ P] (protocols : List P) :
    TaggedSessional F σ Λ (Except Error Unit × List P) := do
  match ← driveTagged (tag .batch) protocols with
  | (.error e, protocols) => return (.error e, protocols)
  | (.ok rounds, protocols) => return (← settleTagged tag rounds, protocols)

end Checks

/-! ## Without labels -/

theorem plain_driveTagged [Protocol F σ P] (tag : (round position : Nat) → Λ) (protocols : List P)
    (session : Session F σ) :
    ((driveTagged tag protocols).run session).plain = (drive protocols).run session := by
  refine Labelled.plain_run_bind rfl fun state session => ?_
  have driven : ((byPartyTagged (driveRoundsTagged tag protocols)).run session).plain
      = (byParty (driveRounds protocols)).run session := by
    refine (Labelled.plain_bind _ _).trans ?_
    rw [plain_driveRoundsTagged]
    rfl
  cases state.ended with
  | some e => rfl
  | none =>
      refine Labelled.plain_run_bind driven ?_
      rintro ⟨result, protocols⟩ session
      cases result <;> rfl

/-- The same without labels. -/
theorem run_drive [Protocol F σ P] (protocols : List P) {session : Session F σ}
    (active : session.aborted = none) : (drive protocols).run session
      = (driveRounds protocols).run session.party >>= fun ((result, protocols), party) =>
          .done ((result, protocols), session.driven result party) := by
  rw [← plain_driveTagged fun _ _ => (), run_driveTagged _ _ active]
  refine (Labelled.plain_bind _ _).trans ?_
  rw [plain_driveRoundsTagged]
  rfl

/-- Protocols fail in the first round. -/
theorem run_drive_of_fails [Protocol F σ P] {protocols : List P} {session : Session F σ} {e : Error}
    {slots : List (Slot P)} {S : Party F σ} (active : session.aborted = none) (any : protocols ≠ [])
    (fails : (Slot.advance 0 (protocols.map fun protocol => { protocol })).run session.party
      = .done ((.error e, slots), S)) :
    (drive protocols).run session = .done ((.error e, slots.map (·.protocol)),
      session.driven (.error e : Except Error Nat) S) := by
  obtain ⟨first, others, rfl⟩ := List.exists_cons_of_ne_nil any
  have due : (((first :: others).map fun protocol => { protocol }).any fun slot : Slot P =>
      slot.active) = true := rfl
  have driven : (driveRounds (first :: others)).run session.party
      = .done ((.error e, slots.map (·.protocol)), S) := by
    rw [driveRounds, StateT.run_bind, show maxRounds = 18446744073709551615 + 1 from rfl,
      Slot.driveFrom, if_pos due, StateT.run_bind, fails]
    rfl
  rw [run_drive _ active, driven]
  rfl

/-- A session that has ended drives nothing. -/
theorem run_drive_of_ended [Protocol F σ P] (protocols : List P) {session : Session F σ} {e : Error}
    (stopped : session.ended = some e) : (drive protocols).run session
      = .done ((.error e, protocols), session) := by
  have started : (drive protocols).run session
      = (match session.ended with
        | some e => return (.error e, protocols)
        | none => do
          let (result, protocols) ← byParty (driveRounds protocols)
          if let .error e := result then
            modify fun session => { session with aborted := some (e.category, e.message) }
          return (result, protocols) : Sessional F σ _).run session := rfl
  rw [started, stopped]
  rfl

/-- When there is only one label, it says nothing. -/
theorem driveTagged_unit [Protocol F σ P] (protocols : List P) (session : Session F σ) :
    (driveTagged (fun _ _ => ()) protocols).run session
      = ((drive protocols).run session).labelled () := by
  rw [← plain_driveTagged fun _ _ => (), Labelled.labelled_plain_unit]

variable [Supplier F σ] (tag : Phase → (round position : Nat) → Λ)

theorem plain_macCheckTagged (session : Session F σ) :
    ((macCheckTagged tag).run session).plain
      = (macCheck : Evaluation F σ Unit).run.run session := by
  rw [run_macCheck]
  refine Labelled.plain_run_bind (plain_driveTagged (tag .check) _ session) ?_
  rintro ⟨result, _⟩ session
  cases result <;> rfl

theorem plain_settleTagged (rounds : Nat) (session : Session F σ) :
    ((settleTagged tag rounds).run session).plain
      = (settle rounds : Evaluation F σ Unit).run.run session := by
  rw [run_settle, ← plain_macCheckTagged tag]
  by_cases due : session.isDue
  · rw [if_pos due]
    exact congrArg Labelled.plain (if_pos due)
  · rw [if_neg due]
    exact congrArg Labelled.plain (if_neg due)

/-- **Without labels this is how a session runs a batch.** -/
theorem plain_runBatchTagged [Protocol F σ P] (protocols : List P) (session : Session F σ) :
    ((runBatchTagged tag protocols).run session).plain = (runBatch protocols).run session := by
  refine Labelled.plain_run_bind (plain_driveTagged (tag .batch) protocols session) ?_
  rintro ⟨result, protocols⟩ session
  cases result with
  | error e => rfl
  | ok rounds => exact Labelled.plain_run_bind (plain_settleTagged tag rounds session) fun _ _ => rfl

theorem macCheckTagged_unit (session : Session F σ) :
    (macCheckTagged fun _ _ _ => ()).run session
      = ((macCheck : Evaluation F σ Unit).run.run session).labelled () := by
  rw [← plain_macCheckTagged fun _ _ _ => (), Labelled.labelled_plain_unit]

theorem settleTagged_unit (rounds : Nat) (session : Session F σ) :
    (settleTagged (fun _ _ _ => ()) rounds).run session
      = ((settle rounds : Evaluation F σ Unit).run.run session).labelled () := by
  rw [← plain_settleTagged fun _ _ _ => (), Labelled.labelled_plain_unit]

theorem runBatchTagged_unit [Protocol F σ P] (protocols : List P) (session : Session F σ) :
    (runBatchTagged (fun _ _ _ => ()) protocols).run session
      = ((runBatch protocols).run session).labelled () := by
  rw [← plain_runBatchTagged fun _ _ _ => (), Labelled.labelled_plain_unit]

end Session

end Spdz
