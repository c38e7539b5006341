import Spdz.Proofs.Evaluation.Embedded
import Spdz.Proofs.Evaluation.Histories

/-!
# The history of a session

A caller of a session calls its methods one after the other, and each drives a batch and perhaps a
check after it.  What the caller does in the end is a list of calls, even if each depends on the
results of those before.  Here every such list gets the history of all batches that are driven for it,
whatever the peers send and wherever the session ends.

* `Session.Evolves` — a session drives batches, one after the other.
* `Task` — a call with its arguments; `Task.perform`, what the session does.
* **`Task.conducts_perform`** — every call drives at most its batch and a check.
* **`Task.exists_reports`** — and so do the calls of a whole session, one after the other.
-/

namespace Spdz

variable {F : FieldSpec} {σ P Out α : Type}

/-- A batch that a session has driven. -/
structure Drive (F : FieldSpec) (σ : Type) where
  gates : List (Gate F)
  turns : List (Turn F σ (Gate F))
  result : Except Error Nat

namespace Session

variable [Supplier F σ] {session session' session'' : Session F σ}

/-- **Evolves.**  The session drives the batches, each as its party is after the one before.  Accounts
may change at any time, and nothing is driven any more once the session has ended. -/
inductive Evolves : Session F σ → List (Drive F σ) → Session F σ → Prop where
  | rest {session session' : Session F σ} (party : session'.party = session.party)
      (aborted : session'.aborted = session.aborted) : Evolves session [] session'
  | drive {session session' : Session F σ} {d : Drive F σ} {drives : List (Drive F σ)}
      {slots : List (Slot (Gate F))} {S : Party F σ} (active : session.aborted = none)
      (history : Slot.Drives maxRounds 0 (d.gates.map fun protocol => { protocol }) session.party
        d.turns d.result slots S)
      (later : Evolves (session.driven d.result S) drives session') :
    Evolves session (d :: drives) session'

namespace Evolves

variable {drives others : List (Drive F σ)} {d : Drive F σ}

/-- Accounts do not matter. -/
theorem of_same (evolves : Evolves session drives session'')
    (party : session.party = session'.party) (aborted : session.aborted = session'.aborted) :
    Evolves session' drives session'' := by
  induction evolves generalizing session' with
  | rest sameParty sameAborted => exact .rest (sameParty.trans party) (sameAborted.trans aborted)
  | @drive session _ d _ _ S active history later ih =>
      have going : (session.driven d.result S).party = (session'.driven d.result S).party ∧
          (session.driven d.result S).aborted = (session'.driven d.result S).aborted := by
        cases d.result with
        | ok rounds => exact ⟨rfl, aborted⟩
        | error e => exact ⟨rfl, rfl⟩
      rw [party] at history
      exact .drive (aborted.symm.trans active) history (ih going.1 going.2)

theorem append (first : Evolves session drives session') (second : Evolves session' others session'') :
    Evolves session (drives ++ others) session'' := by
  induction first with
  | rest party aborted => exact second.of_same party aborted
  | drive active history _ ih => exact .drive active history (ih second)

theorem to_same (evolves : Evolves session drives session') (party : session''.party = session'.party)
    (aborted : session''.aborted = session'.aborted) : Evolves session drives session'' := by
  simpa using evolves.append (.rest party aborted)

/-- The turns of all batches, one after the other. -/
theorem chained (evolves : Evolves session drives session') :
    Turn.Chained session.party (drives.flatMap (·.turns)) session'.party := by
  induction evolves with
  | rest party _ => exact party
  | @drive session _ d _ _ S _ history _ ih =>
      have party : (session.driven d.result S).party = S := by cases d.result <;> rfl
      exact Turn.chained_append.mpr ⟨_, history.chained, party ▸ ih⟩

theorem exists_history (evolves : Evolves session drives session') (among : d ∈ drives) :
    ∃ slots S slots' S', Slot.Drives maxRounds 0 slots S d.turns d.result slots' S' := by
  induction evolves with
  | rest => cases among
  | drive _ history _ ih =>
      obtain rfl | within := List.mem_cons.mp among
      · exact ⟨_, _, _, _, history⟩
      · exact ih within

theorem genuine (evolves : Evolves session drives session') :
    ∀ t ∈ drives.flatMap (·.turns), t.Genuine := by
  intro t among
  obtain ⟨d, driven, within⟩ := List.mem_flatMap.mp among
  obtain ⟨_, _, _, _, history⟩ := evolves.exists_history driven
  exact history.genuine t within

/-- The session goes on only as long as every batch succeeds. -/
theorem exists_rounds (evolves : Evolves session drives session') (active : session'.aborted = none) :
    session.aborted = none ∧ ∀ d ∈ drives, ∃ rounds, d.result = .ok rounds := by
  induction evolves with
  | rest _ aborted => exact ⟨aborted.symm.trans active, by simp⟩
  | @drive _ _ d _ _ _ before _ _ ih =>
      obtain ⟨going, others⟩ := ih active
      refine ⟨before, List.forall_mem_cons.mpr ⟨?_, others⟩⟩
      cases result : d.result with
      | ok rounds => exact ⟨rounds, rfl⟩
      | error e =>
          rw [result] at going
          cases going

end Evolves

/-! ## What a session drives -/

variable {least most : List (List (Gate F))}

omit [Supplier F σ] in
/-- Driving protocols is a batch with a history, unless the session has ended. -/
theorem exists_driven [Protocol F σ P] {protocols protocols' : List P} {result : Except Error Nat}
    (ends : ((drive protocols).run session).Ends ((result, protocols'), session')) :
    (∃ e, session.ended = some e ∧ result = .error e ∧ session' = session) ∨
      session.aborted = none ∧ ∃ turns slots S,
        Slot.Drives maxRounds 0 (protocols.map fun protocol => { protocol }) session.party turns result
          slots S ∧ protocols' = slots.map (·.protocol) ∧ session' = session.driven result S := by
  cases active : session.aborted with
  | some cause =>
      have stopped : session.ended = some (.aborted cause.1 cause.2) := by
        rw [ended, active, Option.map_some]
      rw [run_drive_of_ended protocols stopped] at ends
      cases ends
      exact .inl ⟨_, stopped, rfl, rfl⟩
  | none =>
      rw [run_drive protocols active] at ends
      obtain ⟨⟨⟨outcome, between⟩, S⟩, before, same⟩ := Exchange.ends_bind.mp ends
      cases same
      rw [driveRounds, StateT.run_bind] at before
      obtain ⟨⟨⟨outcome, slots⟩, S⟩, driven, same⟩ := Exchange.ends_bind.mp before
      cases same
      obtain ⟨turns, history⟩ := Slot.exists_drives driven
      exact .inr ⟨rfl, turns, slots, S, history, rfl, rfl⟩

/-- A check is driven, and counts if it passes. -/
theorem macCheck_cases {result : Except Error Unit}
    (ends : ((macCheck : Evaluation F σ Unit).run.run session).Ends (result, session')) :
    ∃ outcome checks between,
      ((drive [({} : MacCheck F)] : Sessional F σ _).run session).Ends ((outcome, checks), between) ∧
        match outcome with
        | .ok _ => result = .ok () ∧ session' = between.countCheck
        | .error e => result = .error e ∧ session' = between := by
  rw [run_macCheck, StateT.run_bind] at ends
  obtain ⟨⟨⟨outcome, checks⟩, between⟩, before, after⟩ := Exchange.ends_bind.mp ends
  refine ⟨outcome, checks, between, before, ?_⟩
  cases outcome <;> cases after <;> exact ⟨rfl, rfl⟩

/-- A check drives the one gate that it is. -/
theorem exists_drive_check {result : Except Error Unit}
    (ends : ((macCheck : Evaluation F σ Unit).run.run session).Ends (result, session')) :
    ∃ outcome protocols between,
      ((drive [(Gate.macCheck {} : Gate F)] : Sessional F σ _).run session).Ends
        ((outcome, protocols), between) ∧ result = outcome.map (fun _ => ()) ∧
        between.party = session'.party ∧ between.aborted = session'.aborted := by
  obtain ⟨outcome, checks, between, before, after⟩ := macCheck_cases ends
  have embeds : Embeds (F := F) σ (Gate.macCheck (F := F)) := fun _ _ => rfl
  have one : [(Gate.macCheck {} : Gate F)] = [{}].map Gate.macCheck := rfl
  refine ⟨outcome, checks.map Gate.macCheck, between, ?_, ?_⟩
  · rw [one, drive_embed embeds, StateT.run_map]
    exact Exchange.ends_map.mpr ⟨_, before, rfl⟩
  · cases outcome <;> obtain ⟨rfl, rfl⟩ := after <;> exact ⟨rfl, rfl, rfl⟩

/-- A batch is driven and, if it succeeds, accounted for; then a check follows if one is due. -/
theorem runBatch_cases [Protocol F σ P] {protocols protocols' : List P} {result : Except Error Unit}
    (ends : ((runBatch protocols).run session).Ends ((result, protocols'), session')) :
    ∃ outcome between, ((drive protocols).run session).Ends ((outcome, protocols'), between) ∧
      match outcome with
      | .error e => result = .error e ∧ session' = between
      | .ok rounds =>
        if between.isDue then
          ((macCheck : Evaluation F σ Unit).run.run (between.countBatch rounds)).Ends (result, session')
        else result = .ok () ∧ session' = between.countBatch rounds := by
  rw [runBatch, StateT.run_bind] at ends
  obtain ⟨⟨⟨outcome, driven⟩, between⟩, batch, after⟩ := Exchange.ends_bind.mp ends
  cases outcome with
  | error e =>
      cases after
      exact ⟨.error e, between, batch, rfl, rfl⟩
  | ok rounds =>
      obtain ⟨⟨settled, _⟩, check, same⟩ := Exchange.ends_bind.mp after
      cases same
      refine ⟨.ok rounds, between, batch, ?_⟩
      replace check := (congrArg (Exchange.Ends · _) (run_settle rounds between)).mp check
      dsimp only
      split_ifs at check ⊢
      · exact check
      · cases check
        exact ⟨rfl, rfl⟩

/-- A checkpoint is a check, or there is no need for one, or the session has ended. -/
theorem checkpoint_cases {result : Except Error Unit}
    (ends : ((checkpoint : Evaluation F σ Unit).run.run session).Ends (result, session')) :
    ((macCheck : Evaluation F σ Unit).run.run session).Ends (result, session') ∨
      session' = session ∧ (result = .ok () → session.aborted = none ∧ session.party.opened = {}) := by
  cases active : session.aborted with
  | some cause =>
      have stopped : (checkpoint : Evaluation F σ Unit).run.run session
          = .done (.error (.aborted cause.1 cause.2), session) := by
        obtain ⟨party, stats, aborted⟩ := session
        obtain rfl : aborted = some cause := active
        rfl
      rw [stopped] at ends
      cases ends
      exact .inr ⟨rfl, fun succeeds => by cases succeeds⟩
  | none =>
      rw [run_checkpoint active] at ends
      split_ifs at ends with empty
      · cases ends
        exact .inr ⟨rfl, fun _ => ⟨rfl, congrArg OpenedValues.mk (List.isEmpty_iff.mp empty)⟩⟩
      · exact .inl ends

/-- The last check is a checkpoint. -/
theorem exists_checkpoint {given : Except Error Stats}
    (ends : ((finish : Evaluation F σ Stats).run.run session).Ends (given, session')) :
    ∃ result, ((checkpoint : Evaluation F σ Unit).run.run session).Ends (result, session') ∧
      given = result.map fun _ => session'.stats := by
  rw [run_finish] at ends
  obtain ⟨⟨result, _⟩, before, same⟩ := Exchange.ends_bind.mp ends
  cases same
  exact ⟨result, before, rfl⟩

/-- **Conducts.**  Whatever comes from the network, the session drives some of the first of the batches
in `most`.  If it succeeds, these are at least those in `least`, and the session has not ended. -/
def Conducts (least most : List (List (Gate F))) (x : Sessional F σ (Except Error α)) : Prop :=
  ∀ session result session', (x.run session).Ends (result, session') → ∃ drives,
    drives.map (·.gates) <+: most ∧ session.Evolves drives session' ∧
      (result.isOk → least <+: drives.map (·.gates) ∧ session'.aborted = none)

/-- A method that ends as another does. -/
theorem Conducts.of_ends {β : Type} {x : Sessional F σ (Except Error α)} {y : Sessional F σ (Except Error β)}
    (conducts : Conducts least most x)
    (same : ∀ session given session', (y.run session).Ends (given, session') →
      ∃ result, (x.run session).Ends (result, session') ∧ (given.isOk → result.isOk)) :
    Conducts least most y := by
  intro session given session' ends
  obtain ⟨result, before, succeeds⟩ := same session given session' ends
  obtain ⟨drives, within, evolves, done⟩ := conducts session result session' before
  exact ⟨drives, within, evolves, done ∘ succeeds⟩

/-- A batch that is driven, as the history of the session. -/
theorem exists_evolves {gates protocols : List (Gate F)} {result : Except Error Nat}
    (ends : ((drive gates : Sessional F σ _).run session).Ends ((result, protocols), session')) :
    ∃ drives, drives.map (·.gates) <+: [gates] ∧ session.Evolves drives session' ∧
      (result.isOk → drives.map (·.gates) = [gates] ∧ session'.aborted = none) := by
  obtain ⟨e, -, rfl, rfl⟩ | ⟨active, turns, slots, S, history, -, rfl⟩ := exists_driven ends
  · exact ⟨[], List.nil_prefix, .rest rfl rfl, fun succeeds => by cases succeeds⟩
  · refine ⟨[⟨gates, turns, result⟩], List.prefix_rfl, .drive active history (.rest rfl rfl), ?_⟩
    intro succeeds
    cases result with
    | error e => cases succeeds
    | ok rounds => exact ⟨rfl, active⟩

theorem conducts_macCheck :
    Conducts [[Gate.macCheck {}]] [[.macCheck {}]] (macCheck : Evaluation F σ Unit).run := by
  intro session result session' ends
  obtain ⟨outcome, _, between, driven, rfl, party, aborted⟩ := exists_drive_check ends
  obtain ⟨drives, within, evolves, done⟩ := exists_evolves driven
  refine ⟨drives, within, evolves.to_same party.symm aborted.symm, fun succeeds => ?_⟩
  cases outcome with
  | error e => cases succeeds
  | ok rounds =>
      obtain ⟨whole, active⟩ := done rfl
      exact ⟨whole ▸ List.prefix_rfl, aborted.symm.trans active⟩

theorem conducts_checkpoint :
    Conducts [] [[Gate.macCheck {}]] (checkpoint : Evaluation F σ Unit).run := by
  intro session result session' ends
  obtain checks | ⟨rfl, active⟩ := checkpoint_cases ends
  · obtain ⟨drives, within, evolves, done⟩ := conducts_macCheck session result session' checks
    exact ⟨drives, within, evolves, fun succeeds => ⟨List.nil_prefix, (done succeeds).2⟩⟩
  · refine ⟨[], List.nil_prefix, .rest rfl rfl, fun succeeds => ⟨List.nil_prefix, (active ?_).1⟩⟩
    cases result with
    | error e => cases succeeds
    | ok _ => rfl

theorem conducts_finish : Conducts [] [[Gate.macCheck {}]] (finish : Evaluation F σ Stats).run := by
  refine conducts_checkpoint.of_ends fun session given session' ends => ?_
  obtain ⟨result, before, rfl⟩ := exists_checkpoint ends
  exact ⟨result, before, by cases result <;> exact id⟩

/-- A batch, and the check that may be due after it. -/
theorem conducts_runBatch (gates : List (Gate F)) :
    Conducts [gates] [gates, [.macCheck {}]] ((·.1) <$> (runBatch gates : Sessional F σ _)) := by
  intro session result session' ends
  rw [StateT.run_map] at ends
  obtain ⟨⟨⟨outcome, protocols⟩, _⟩, before, same⟩ := Exchange.ends_map.mp ends
  cases same
  obtain ⟨driven, between, batch, after⟩ := runBatch_cases before
  obtain ⟨drives, within, evolves, done⟩ := exists_evolves batch
  cases driven with
  | error e =>
      obtain ⟨rfl, rfl⟩ := after
      refine ⟨drives, within.trans (List.prefix_append [gates] _), evolves, fun succeeds => ?_⟩
      cases succeeds
  | ok rounds =>
      obtain ⟨whole, going⟩ := done rfl
      -- from here on the session differs from `between` in its accounts only
      dsimp only at after
      split_ifs at after with due
      · obtain ⟨checks, checked, later, passed⟩ := conducts_macCheck _ _ _ after
        have both : (drives ++ checks).map (·.gates) = [gates] ++ checks.map (·.gates) := by
          rw [List.map_append, whole]
        refine ⟨drives ++ checks, ?_, evolves.append (later.of_same rfl rfl), fun succeeds => ?_⟩
        · rw [both]
          exact (List.prefix_append_right_inj _).mpr checked
        · rw [both]
          exact ⟨List.prefix_append _ _, (passed succeeds).2⟩
      · obtain ⟨rfl, rfl⟩ := after
        exact ⟨drives, whole ▸ List.prefix_append [gates] _, evolves.to_same rfl rfl,
          fun _ => ⟨whole ▸ List.prefix_rfl, going⟩⟩

/-! ## Calls -/

omit [Supplier F σ] in
/-- Calls are made one after the other. -/
theorem ends_mapM_cons {ι : Type*} {perform : ι → Sessional F σ α} {call : ι} {calls : List ι}
    {results : List α} :
    (((call :: calls).mapM perform).run session).Ends (results, session') ↔
      ∃ result between later, ((perform call).run session).Ends (result, between) ∧
        ((calls.mapM perform).run between).Ends (later, session') ∧ results = result :: later := by
  rw [List.mapM_cons, StateT.run_bind, Exchange.ends_bind]
  constructor
  · rintro ⟨⟨result, between⟩, first, next⟩
    rw [StateT.run_bind] at next
    obtain ⟨⟨later, _⟩, others, same⟩ := Exchange.ends_bind.mp next
    cases same
    exact ⟨result, between, later, first, others, rfl⟩
  · rintro ⟨result, between, later, first, others, rfl⟩
    refine ⟨(result, between), first, ?_⟩
    rw [StateT.run_bind]
    exact Exchange.ends_bind.mpr ⟨(later, session'), others, .done _⟩

/-- A call of a session's methods, with its arguments. -/
inductive Task (F : FieldSpec) where
  | runBatch (gates : List (Gate F))
  | runAll (gates : List (Gate F))
  | run (gate : Gate F)
  | macCheck
  | checkpoint
  | finish
  | input (inputter : PartyId) (value : Option (Elem F))
  | inputChecked (inputter : PartyId) (value : Option (Elem F))
  | multiply (x y : Share F)
  | openAll (share : Share F)
  | openTo (share : Share F) (target : PartyId)
  | randomElement

/-- How a call has ended, and the batches that have been driven for it. -/
structure Report (F : FieldSpec) (σ : Type) where
  result : Except Error Unit
  drives : List (Drive F σ)

namespace Task

/-- Whether a method succeeds, without its result. -/
def outcome (x : Evaluation F σ α) : Sessional F σ (Except Error Unit) :=
  (fun result => result.map fun _ => ()) <$> x.run

/-- What the session does for a call. -/
def perform : Task F → Sessional F σ (Except Error Unit)
  | runBatch gates => (·.1) <$> Session.runBatch gates
  | runAll gates => outcome (Session.runAll gates : Evaluation F σ (List (Output F)))
  | run gate => outcome (Session.run gate : Evaluation F σ (Output F))
  | macCheck => outcome Session.macCheck
  | checkpoint => outcome Session.checkpoint
  | finish => outcome Session.finish
  | input inputter value => outcome (Session.input inputter value)
  | inputChecked inputter value => outcome (Session.inputChecked inputter value)
  | multiply x y => outcome (Session.multiply x y)
  | openAll share => outcome (Session.openAll share)
  | openTo share target => outcome (Session.openTo share target)
  | randomElement => outcome Session.randomElement

/-- The protocols that a call is about. -/
def gates : Task F → List (Gate F)
  | runBatch gates | runAll gates => gates
  | run gate => [gate]
  | macCheck | checkpoint | finish => []
  | input inputter value => [.input (.new value inputter)]
  | inputChecked inputter value => [.checkedInput (.new value inputter)]
  | multiply x y => [.multiply { x, y }]
  | openAll share => [.openAll { share }]
  | openTo share target => [.openTo { share, target }]
  | randomElement => [.element {}]

/-- The batch that a call is about: that of its protocols, or the check that it asks for. -/
def due : Task F → List (List (Gate F))
  | macCheck => [[.macCheck {}]]
  | checkpoint | finish => []
  | task => [task.gates]

/-- The batches that a call can drive: that of its protocols, if there is one, and a check. -/
def batches : Task F → List (List (Gate F))
  | macCheck | checkpoint | finish => [[.macCheck {}]]
  | task => [task.gates, [.macCheck {}]]

/-- **Admits.**  For the call some of the first of its batches are driven, and if it succeeds all that
are due. -/
def Admits (task : Task F) (report : Report F σ) : Prop :=
  report.drives.map (·.gates) <+: task.batches ∧
    (report.result.isOk → task.due <+: report.drives.map (·.gates))

omit [Supplier F σ] in
/-- Results do not matter for what a session does. -/
theorem ends_outcome {x : Evaluation F σ α} {result : Except Error Unit} :
    ((outcome x).run session).Ends (result, session') ↔
      ∃ given, (x.run.run session).Ends (given, session') ∧ result = given.map fun _ => () := by
  rw [outcome, StateT.run_map, Exchange.ends_map]
  constructor
  · rintro ⟨⟨given, _⟩, ends, same⟩
    cases same
    exact ⟨given, ends, rfl⟩
  · rintro ⟨given, ends, rfl⟩
    exact ⟨_, ends, rfl⟩

omit [Supplier F σ] in
theorem outcome_map {β : Type} (f : α → β) (x : Evaluation F σ α) : outcome (f <$> x) = outcome x := by
  rw [outcome, ExceptT.run_map, outcome, Functor.map_map]
  refine congrArg (· <$> x.run) (funext fun result => ?_)
  cases result <;> rfl

end Task

namespace Conducts

theorem outcome {x : Evaluation F σ α} (conducts : Conducts least most x.run) :
    Conducts least most (Task.outcome x) := by
  refine conducts.of_ends fun session result session' ends => ?_
  obtain ⟨given, inner, rfl⟩ := Task.ends_outcome.mp ends
  exact ⟨given, inner, by cases given <;> exact id⟩

/-- A method that is a batch, and then tells something about its protocols. -/
theorem of_runBatch {gates : List (Gate F)} {x : Evaluation F σ α} (tell : List (Gate F) → Except Error α)
    (told : ∀ session, x.run.run session = (runBatch gates).run session >>=
      fun ((result, protocols), session) => .done (result >>= fun _ => tell protocols, session)) :
    Conducts [gates] [gates, [.macCheck {}]] x.run := by
  refine (conducts_runBatch gates).of_ends fun session given session' ends => ?_
  rw [told] at ends
  obtain ⟨⟨⟨verdict, protocols⟩, _⟩, before, same⟩ := Exchange.ends_bind.mp ends
  cases same
  refine ⟨verdict, ?_, by cases verdict <;> exact fun _ => by trivial⟩
  rw [StateT.run_map]
  exact Exchange.ends_map.mpr ⟨_, before, rfl⟩

end Conducts

namespace Task

theorem conducts_run (gate : Gate F) : Conducts [[gate]] [[gate], [.macCheck {}]]
    (outcome (Session.run gate : Evaluation F σ (Output F))) :=
  Conducts.outcome <| .of_runBatch (fun protocols => outputOf (protocols.headD gate)) (run_run gate)

/-- A method for a single protocol runs the gate that the protocol is. -/
theorem conducts_embedded [Protocol F σ P] [HasOutput P Out] (wrap : P → Gate F)
    (convert : Out → Output F) (embeds : Embeds (F := F) σ wrap)
    (name : ∀ p, HasOutput.name (wrap p) = HasOutput.name p)
    (output : ∀ p, HasOutput.output (wrap p) = (HasOutput.output p).map convert) (p : P) :
    Conducts [[wrap p]] [[wrap p], [.macCheck {}]]
      (outcome (Session.run p : Evaluation F σ Out)) := by
  have conducts := conducts_run (σ := σ) (wrap p)
  rwa [run_embed embeds name output, outcome_map] at conducts

/-- **Every call drives at most its batch and a check.** -/
theorem conducts_perform (task : Task F) :
    Conducts task.due task.batches (task.perform : Sessional F σ (Except Error Unit)) := by
  cases task with
  | runBatch gates => exact conducts_runBatch gates
  | runAll gates =>
      exact .outcome <| .of_runBatch (fun protocols => protocols.mapM outputOf) (run_runAll gates)
  | run gate => exact conducts_run gate
  | macCheck => exact conducts_macCheck.outcome
  | checkpoint => exact conducts_checkpoint.outcome
  | finish => exact conducts_finish.outcome
  | input inputter value =>
      exact conducts_embedded .input .share (fun _ _ => rfl) (fun _ => rfl) (fun _ => rfl) _
  | inputChecked inputter value =>
      exact conducts_embedded .checkedInput .share (fun _ _ => rfl) (fun _ => rfl) (fun _ => rfl) _
  | multiply x y =>
      exact conducts_embedded .multiply .share (fun _ _ => rfl) (fun _ => rfl) (fun _ => rfl) _
  | openAll share =>
      exact conducts_embedded .openAll .value (fun _ _ => rfl) (fun _ => rfl) (fun _ => rfl) _
  | openTo share target =>
      exact conducts_embedded .openTo .target (fun _ _ => rfl) (fun _ => rfl) (fun _ => rfl) _
  | randomElement =>
      exact conducts_embedded .element .share (fun _ _ => rfl) (fun _ => rfl) (fun _ => rfl) _

variable {tasks : List (Task F)} {results : List (Except Error Unit)}

/-- **The calls of a whole session** drive their batches one after the other. -/
theorem exists_reports (ends : ((tasks.mapM perform : Sessional F σ _).run session).Ends
      (results, session')) :
    ∃ reports : List (Report F σ), reports.map (·.result) = results ∧
      List.Forall₂ Task.Admits tasks reports ∧
        session.Evolves (reports.flatMap (·.drives)) session' := by
  induction tasks generalizing session results with
  | nil =>
      cases ends
      exact ⟨[], rfl, .nil, .rest rfl rfl⟩
  | cons task tasks ih =>
      obtain ⟨result, between, later, first, others, rfl⟩ := ends_mapM_cons.mp ends
      obtain ⟨drives, within, evolves, done⟩ := task.conducts_perform session result between first
      obtain ⟨reports, same, all, onwards⟩ := ih others
      refine ⟨⟨result, drives⟩ :: reports, congrArg _ same, .cons ?_ all, evolves.append onwards⟩
      exact ⟨within, fun succeeds => (done succeeds).1⟩

/-- The last call of a session. -/
theorem exists_last {task : Task F} (last : tasks.getLast? = some task)
    (ends : ((tasks.mapM perform : Sessional F σ _).run session).Ends (results, session')) :
    ∃ result between, results.getLast? = some result ∧
      ((task.perform).run between).Ends (result, session') := by
  induction tasks generalizing session results with
  | nil => cases last
  | cons first tasks ih =>
      obtain ⟨result, between, later, here, others, rfl⟩ := ends_mapM_cons.mp ends
      cases tasks with
      | nil =>
          cases others
          obtain rfl : first = task := by simpa using last
          exact ⟨result, session, rfl, here⟩
      | cons second tasks =>
          obtain ⟨final, before, shown, ended⟩ := ih (by simpa using last) others
          obtain ⟨_, _, _, _, _, rfl⟩ := ends_mapM_cons.mp others
          exact ⟨final, before, by simpa using shown, ended⟩

end Task

end Session

end Spdz
