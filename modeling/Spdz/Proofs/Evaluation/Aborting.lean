import Spdz.Proofs.Evaluation.Batches
import Spdz.Proofs.Evaluation.Tasks

/-!
# How errors end a session

A session ends with the first error of what it drives, be it a batch or a check, and then every later
call fails with that cause and does nothing else.  This holds for protocols of any kind, a caller's own
included.

* `Session.Strict`, `Session.Refuses` — methods that an error ends, and that do nothing once ended.
* `Session.Errand` — a call about protocols of any kind; `Errand.perform`, what the session does.
* `Errand.conduct` — the same in two parts: what is driven, and what the call makes of it.
* **`Errand.abort_absorbs`** — an error of what is driven is the answer to every later call.
-/

namespace Spdz

variable {F : FieldSpec} {σ P Out α β : Type}

namespace Session

/-! ## Errors that end a session -/

section Ending

/-- What a result leaves behind as the cause of the end. -/
def causeOf : Except Error α → Option (Category × String)
  | .ok _ => none
  | .error e => some (e.category, e.message)

/-- **Strict.**  A session that has not ended is ended by an error and by nothing else. -/
def Strict (x : Sessional F σ (Except Error α)) : Prop :=
  ∀ (session : Session F σ) (result : Except Error α) (session' : Session F σ),
    session.aborted = none → (x.run session).Ends (result, session') →
      session'.aborted = causeOf result

/-- **Refuses.**  A session that has ended does nothing but name the cause. -/
def Refuses (x : Sessional F σ (Except Error α)) : Prop :=
  ∀ session category cause, session.aborted = some (category, cause) →
    x.run session = .done (.error (.aborted category cause), session)

variable {x : Sessional F σ (Except Error α)} {f : Except Error α → Except Error β}

/-- Another result for the same errors. -/
theorem Strict.map (strict : Strict x) (same : ∀ result, causeOf (f result) = causeOf result) :
    Strict (f <$> x) := by
  intro session result session' active ends
  rw [StateT.run_map] at ends
  obtain ⟨⟨given, _⟩, before, shown⟩ := Exchange.ends_map.mp ends
  cases shown
  rw [same]
  exact strict session given _ active before

theorem Refuses.map (refuses : Refuses x) (same : ∀ e, f (.error e) = .error e) :
    Refuses (f <$> x) := by
  intro session category cause aborted
  rw [StateT.run_map, refuses session category cause aborted]
  exact congrArg (fun result => Exchange.done (result, session)) (same _)

theorem ended_of_aborted {session : Session F σ} {category : Category} {cause : String}
    (aborted : session.aborted = some (category, cause)) :
    session.ended = some (.aborted category cause) := by
  rw [ended, aborted, Option.map_some]

/-- What is driven ends the session if it fails. -/
theorem aborted_of_drive [Protocol F σ P] {protocols protocols' : List P} {result : Except Error Nat}
    {session session' : Session F σ} (active : session.aborted = none)
    (ends : ((drive protocols).run session).Ends ((result, protocols'), session')) :
    session'.aborted = causeOf result := by
  rw [run_drive protocols active] at ends
  obtain ⟨⟨⟨outcome, _⟩, S⟩, -, same⟩ := Exchange.ends_bind.mp ends
  cases same
  cases result with
  | error e => rfl
  | ok rounds => exact active

end Ending

section Methods

variable [Supplier F σ]

theorem strict_macCheck : Strict (macCheck : Evaluation F σ Unit).run := by
  intro session result session' active ends
  obtain ⟨outcome, _, between, before, after⟩ := macCheck_cases ends
  have caused := aborted_of_drive active before
  cases outcome <;> obtain ⟨rfl, rfl⟩ := after <;> exact caused

theorem refuses_macCheck : Refuses (macCheck : Evaluation F σ Unit).run := by
  intro session category cause aborted
  rw [run_macCheck, StateT.run_bind, run_drive_of_ended _ (ended_of_aborted aborted)]
  rfl

theorem strict_checkpoint : Strict (checkpoint : Evaluation F σ Unit).run := by
  intro session result session' active ends
  rw [run_checkpoint active] at ends
  split_ifs at ends with empty
  · cases ends
    exact active
  · exact strict_macCheck session result session' active ends

theorem refuses_checkpoint : Refuses (checkpoint : Evaluation F σ Unit).run := by
  rintro ⟨party, stats, _⟩ category cause aborted
  cases aborted
  rfl

theorem strict_finish : Strict (finish : Evaluation F σ Stats).run := by
  intro session given session' active ends
  obtain ⟨result, before, rfl⟩ := exists_checkpoint ends
  refine (strict_checkpoint session result session' active before).trans ?_
  cases result <;> rfl

theorem refuses_finish : Refuses (finish : Evaluation F σ Stats).run := by
  intro session category cause aborted
  refine (run_finish session).trans ?_
  rw [refuses_checkpoint session category cause aborted]
  rfl

/-- A batch, with the check that may be due after it. -/
theorem aborted_of_runBatch [Protocol F σ P] {protocols protocols' : List P}
    {result : Except Error Unit} {session session' : Session F σ} (active : session.aborted = none)
    (ends : ((runBatch protocols).run session).Ends ((result, protocols'), session')) :
    session'.aborted = causeOf result := by
  obtain ⟨outcome, between, batch, after⟩ := runBatch_cases ends
  have caused := aborted_of_drive active batch
  cases outcome with
  | error e =>
      obtain ⟨rfl, rfl⟩ := after
      exact caused
  | ok rounds =>
      dsimp only at after
      split_ifs at after with due
      · exact strict_macCheck (between.countBatch rounds) _ _ caused after
      · obtain ⟨rfl, rfl⟩ := after
        exact caused

/-- The protocols of a batch are given back as they are. -/
theorem run_runBatch_of_aborted [Protocol F σ P] (protocols : List P) {session : Session F σ}
    {category : Category} {cause : String} (aborted : session.aborted = some (category, cause)) :
    (runBatch protocols).run session
      = .done ((.error (.aborted category cause), protocols), session) := by
  rw [runBatch, StateT.run_bind, run_drive_of_ended _ (ended_of_aborted aborted)]
  rfl

end Methods

/-- A batch is driven as its history tells. -/
theorem ends_drive [Protocol F σ P] {protocols : List P} {result : Except Error Nat}
    {session : Session F σ} {turns : List (Turn F σ P)} {slots : List (Slot P)} {S : Party F σ}
    (active : session.aborted = none)
    (history : Slot.Drives maxRounds 0 (protocols.map fun protocol => { protocol }) session.party turns
      result slots S) :
    ((drive protocols).run session).Ends
      ((result, slots.map (·.protocol)), session.driven result S) := by
  rw [run_drive protocols active, driveRounds, StateT.run_bind]
  exact Exchange.ends_bind.mpr ⟨_, Exchange.ends_bind.mpr ⟨_, history.ends, .done _⟩, .done _⟩

/-- A batch that succeeds and is followed by no check ends as its history tells. -/
theorem ends_runBatch [Supplier F σ] [Protocol F σ P] {protocols : List P} {rounds : Nat}
    {session : Session F σ} {turns : List (Turn F σ P)} {slots : List (Slot P)} {S : Party F σ}
    (active : session.aborted = none)
    (history : Slot.Drives maxRounds 0 (protocols.map fun protocol => { protocol }) session.party turns
      (.ok rounds) slots S)
    (few : ¬ (session.driven (.ok rounds : Except Error _) S).isDue) :
    ((runBatch protocols).run session).Ends ((.ok (), slots.map (·.protocol)),
      (session.driven (.ok rounds : Except Error _) S).countBatch rounds) := by
  have settled := (run_settle (F := F) (σ := σ) rounds (session.driven (.ok rounds : Except Error _) S)).trans
    (if_neg few)
  rw [runBatch, StateT.run_bind]
  refine Exchange.ends_bind.mpr ⟨_, ends_drive active history, ?_⟩
  exact Exchange.ends_bind.mpr ⟨_, (congrArg (Exchange.Ends · _) settled).mpr (.done _), .done _⟩

/-- A check that passes ends as its history tells. -/
theorem ends_macCheck [Supplier F σ] {rounds : Nat} {session : Session F σ}
    {turns : List (Turn F σ (MacCheck F))} {slots : List (Slot (MacCheck F))} {S : Party F σ}
    (active : session.aborted = none)
    (history : Slot.Drives maxRounds 0 (([{}] : List (MacCheck F)).map fun protocol => { protocol })
      session.party turns (.ok rounds) slots S) :
    ((macCheck : Evaluation F σ Unit).run.run session).Ends
      (.ok (), (session.driven (.ok rounds : Except Error _) S).countCheck) := by
  rw [run_macCheck, StateT.run_bind]
  exact Exchange.ends_bind.mpr ⟨_, ends_drive active history, .done _⟩

/-! ## Calls -/

/-- A call of a session's methods, with its arguments.  Protocols can be of any kind. -/
inductive Errand (F : FieldSpec) (σ : Type) : Type 1 where
  | runBatch {P : Type} [Protocol F σ P] (protocols : List P)
  | runAll {P Out : Type} [Protocol F σ P] [HasOutput P Out] (protocols : List P)
  | run {P Out : Type} [Protocol F σ P] [HasOutput P Out] (protocol : P)
  | macCheck
  | checkpoint
  | finish
  | input (inputter : PartyId) (value : Option (Elem F))
  | inputChecked (inputter : PartyId) (value : Option (Elem F))
  | multiply (x y : Share F)
  | openAll (share : Share F)
  | openTo (share : Share F) (target : PartyId)
  | randomElement

namespace Errand

variable [Supplier F σ]

/-- What the session does for a call. -/
def perform : Errand F σ → Sessional F σ (Except Error Unit)
  | runBatch protocols => (·.1) <$> Session.runBatch protocols
  | runAll protocols => Task.outcome (Session.runAll protocols)
  | run protocol => Task.outcome (Session.run protocol)
  | macCheck => Task.outcome Session.macCheck
  | checkpoint => Task.outcome Session.checkpoint
  | finish => Task.outcome Session.finish
  | input inputter value => Task.outcome (Session.input inputter value)
  | inputChecked inputter value => Task.outcome (Session.inputChecked inputter value)
  | multiply x y => Task.outcome (Session.multiply x y)
  | openAll share => Task.outcome (Session.openAll share)
  | openTo share target => Task.outcome (Session.openTo share target)
  | randomElement => Task.outcome Session.randomElement

/-- A batch, and what is then read off its protocols. -/
def batch [Protocol F σ P] (read : List P → Except Error Unit) (protocols : List P) :
    Sessional F σ (Except Error (Except Error Unit)) :=
  (fun (result, protocols) => result.map fun _ => read protocols) <$> Session.runBatch protocols

/-- A batch of one protocol, whose result is then collected. -/
def single [Protocol F σ P] [HasOutput P Out] (protocol : P) :
    Sessional F σ (Except Error (Except Error Unit)) :=
  batch (fun protocols => (outputOf (protocols.headD protocol)).map fun _ => ()) [protocol]

/-- A call in two parts.  The result is that of what is driven, the batch and the check after it, and if
that succeeds it is what the call makes of it. -/
def conduct : Errand F σ → Sessional F σ (Except Error (Except Error Unit))
  | runBatch protocols => batch (fun _ => .ok ()) protocols
  | runAll protocols => batch (fun protocols => (protocols.mapM outputOf).map fun _ => ()) protocols
  | run protocol => single protocol
  | macCheck => Except.map .ok <$> Task.outcome Session.macCheck
  | checkpoint => Except.map .ok <$> Task.outcome Session.checkpoint
  | finish => Except.map .ok <$> Task.outcome Session.finish
  | input inputter value => single (Input.new value inputter)
  | inputChecked inputter value => single (CheckedInput.new value inputter)
  | multiply x y => single ({ x, y } : Multiply F)
  | openAll share => single ({ share } : Open F)
  | openTo share target => single ({ share, target } : OpenTo F)
  | randomElement => single ({} : RandomElement F)

/-! ### The two parts -/

/-- A method that is a batch, and then reads something off its protocols. -/
theorem outcome_eq_batch [Protocol F σ P] {protocols : List P} {x : Evaluation F σ α}
    (read : List P → Except Error α)
    (told : ∀ session, x.run.run session = (Session.runBatch protocols).run session >>=
      fun ((result, protocols), session) => .done (result >>= fun _ => read protocols, session)) :
    Task.outcome x = (· >>= id) <$> batch (fun protocols => (read protocols).map fun _ => ()) protocols := by
  refine StateT.ext fun session => ?_
  rw [Task.outcome, batch, StateT.run_map, told, StateT.run_map, StateT.run_map, map_bind,
    Functor.map_map, ← bind_pure_comp]
  refine congrArg _ (funext ?_)
  rintro ⟨⟨result | _, protocols⟩, session⟩ <;> rfl

theorem outcome_run [Protocol F σ P] [HasOutput P Out] (protocol : P) :
    Task.outcome (Session.run protocol : Evaluation F σ Out) = (· >>= id) <$> single protocol :=
  outcome_eq_batch (fun protocols => outputOf (protocols.headD protocol)) (run_run protocol)

omit [Supplier F σ] in
theorem map_ok_bind (x : Sessional F σ (Except Error Unit)) :
    x = (· >>= id) <$> Except.map Except.ok <$> x := by
  rw [Functor.map_map]
  refine (id_map x).symm.trans (congrArg (· <$> x) (funext fun result => ?_))
  cases result <;> rfl

/-- **The two parts make up the call.** -/
theorem perform_eq_conduct (errand : Errand F σ) : errand.perform = (· >>= id) <$> errand.conduct := by
  cases errand with
  | runBatch protocols =>
      rw [perform, conduct, batch, Functor.map_map]
      refine congrArg (· <$> Session.runBatch protocols) (funext ?_)
      rintro ⟨result | _, protocols⟩ <;> rfl
  | runAll protocols => exact outcome_eq_batch (fun protocols => protocols.mapM outputOf) (run_runAll _)
  | macCheck | checkpoint | finish => exact map_ok_bind _
  | run | input | inputChecked | multiply | openAll | openTo | randomElement => exact outcome_run _

theorem strict_batch [Protocol F σ P] (read : List P → Except Error Unit) (protocols : List P) :
    Strict (batch read protocols : Sessional F σ _) := by
  intro session result session' active ends
  rw [batch, StateT.run_map] at ends
  obtain ⟨⟨⟨verdict, _⟩, _⟩, before, same⟩ := Exchange.ends_map.mp ends
  cases same
  refine (aborted_of_runBatch active before).trans ?_
  cases verdict <;> rfl

theorem refuses_batch [Protocol F σ P] (read : List P → Except Error Unit) (protocols : List P) :
    Refuses (batch read protocols : Sessional F σ _) := by
  intro session category cause aborted
  rw [batch, StateT.run_map, run_runBatch_of_aborted protocols aborted]
  rfl

omit [Supplier F σ] in
theorem causeOf_map (f : α → β) (result : Except Error α) :
    causeOf (result.map f) = causeOf result := by
  cases result <;> rfl

theorem strict_conduct (errand : Errand F σ) : Strict errand.conduct := by
  cases errand with
  | runBatch | runAll | run | input | inputChecked | multiply | openAll | openTo | randomElement =>
      rw [conduct]
      exact strict_batch _ _
  | macCheck => exact (strict_macCheck.map (causeOf_map _)).map (causeOf_map _)
  | checkpoint => exact (strict_checkpoint.map (causeOf_map _)).map (causeOf_map _)
  | finish => exact (strict_finish.map (causeOf_map _)).map (causeOf_map _)

theorem refuses_conduct (errand : Errand F σ) : Refuses errand.conduct := by
  cases errand with
  | runBatch | runAll | run | input | inputChecked | multiply | openAll | openTo | randomElement =>
      rw [conduct]
      exact refuses_batch _ _
  | macCheck => exact (refuses_macCheck.map fun _ => rfl).map fun _ => rfl
  | checkpoint => exact (refuses_checkpoint.map fun _ => rfl).map fun _ => rfl
  | finish => exact (refuses_finish.map fun _ => rfl).map fun _ => rfl

theorem refuses_perform (errand : Errand F σ) : Refuses errand.perform :=
  errand.perform_eq_conduct ▸ errand.refuses_conduct.map fun _ => rfl

/-- What is driven fails the call. -/
theorem ends_perform {errand : Errand F σ} {session session' : Session F σ}
    {result : Except Error (Except Error Unit)}
    (ends : (errand.conduct.run session).Ends (result, session')) :
    (errand.perform.run session).Ends (result >>= id, session') := by
  rw [perform_eq_conduct, StateT.run_map]
  exact Exchange.ends_map.mpr ⟨_, ends, rfl⟩

/-- A batch that fails, with its history. -/
theorem ends_batch_of_fails [Protocol F σ P] {protocols : List P} {session : Session F σ} {e : Error}
    {turns : List (Turn F σ P)} {slots : List (Slot P)} {S : Party F σ}
    (read : List P → Except Error Unit) (active : session.aborted = none)
    (history : Slot.Drives maxRounds 0 (protocols.map fun protocol => { protocol }) session.party turns
      (.error e) slots S) :
    ((batch read protocols).run session).Ends (.error e, session.driven (.error e : Except _ Nat) S) := by
  rw [batch, StateT.run_map, Session.runBatch, StateT.run_bind]
  exact Exchange.ends_map.mpr ⟨_, Exchange.ends_bind.mpr ⟨_, ends_drive active history, .done _⟩, rfl⟩

/-! ### Sessions that have ended -/

/-- **A session that has ended answers every call with the cause**, and nothing else happens. -/
theorem run_mapM_of_aborted {session : Session F σ} {category : Category} {cause : String}
    (aborted : session.aborted = some (category, cause)) (errands : List (Errand F σ)) :
    (errands.mapM perform).run session
      = .done (errands.map fun _ => .error (.aborted category cause), session) := by
  induction errands with
  | nil => rfl
  | cons errand errands ih =>
      rw [List.mapM_cons, StateT.run_bind, errand.refuses_perform session category cause aborted]
      change (do
        let others ← errands.mapM perform
        return .error (.aborted category cause) :: others : Sessional F σ _).run session = _
      rw [StateT.run_bind, ih]
      rfl

/-- **An error of what is driven is the answer to every later call.**  It ends the session, unless the
session has ended before.  From then on no call makes a call on the network or changes anything: every
result is the first cause. -/
theorem abort_absorbs {errand : Errand F σ} {session session' : Session F σ} {e : Error}
    (fails : (errand.conduct.run session).Ends (.error e, session')) :
    ∃ category cause, session'.aborted = some (category, cause) ∧
      (category, cause) = session.aborted.getD (e.category, e.message) ∧
      (errand.perform.run session).Ends (.error e, session') ∧
      ∀ later : List (Errand F σ), (later.mapM perform).run session'
        = .done (later.map fun _ => .error (.aborted category cause), session') := by
  cases aborted : session.aborted with
  | none =>
      have ended := errand.strict_conduct session _ session' aborted fails
      exact ⟨_, _, ended, rfl, ends_perform fails, run_mapM_of_aborted ended⟩
  | some first =>
      have same := fails
      rw [errand.refuses_conduct session first.1 first.2 aborted] at same
      cases same
      exact ⟨_, _, aborted, rfl, ends_perform fails, run_mapM_of_aborted aborted⟩

/-- The first of two parties cannot reach the second when it opens a value.  Whatever it tries later, the
answer is that the second party could not be reached. -/
theorem abort_absorbs_unreachable :
    ∃ session session' : Session .f251 (Party.SimulatedSupplier .f251), session.aborted = none ∧
      ((openAll 0).conduct.run session).Ends (.error (.transport (.send 2)), session') ∧
      session'.aborted = some (.unreachable, "Error while sending message to 2") ∧
      ∀ later : List (Errand .f251 (Party.SimulatedSupplier .f251)),
        (later.mapM perform).run session' = .done (later.map fun _ =>
          .error (.aborted .unreachable "Error while sending message to 2"), session') := by
  obtain ⟨T, begun⟩ := Session.exists_hasBegun .f251 (by decide : 1 ≤ 2)
    (rfl : ({} : Config).strategy = .simulated 0) fun i => Config.validate_default (by decide)
  obtain ⟨_, S, -, started⟩ := (begun 1 ⟨by decide, by decide⟩).exists_party
  have active : (T 1).aborted = none := started ▸ rfl
  have unsent : Turn.Genuine ⟨0, 0, (({ share := 0 } : Open .f251), (T 1).party),
      .error (.transport (.send 2)), (({ share := 0 } : Open .f251), (T 1).party)⟩ :=
    .call (.error (.send 2)) (.done _)
  have history : Slot.Drives maxRounds 0
      (([{ share := 0 }] : List (Open .f251)).map fun protocol => { protocol }) (T 1).party _
      (.error (.transport (.send 2))) _ (T 1).party := .fails rfl (.fails unsent)
  have fails : ((openAll 0).conduct.run (T 1)).Ends (.error (.transport (.send 2)),
      (T 1).driven (.error (.transport (.send 2)) : Except Error Nat) (T 1).party) := by
    rw [conduct]
    exact ends_batch_of_fails _ active history
  obtain ⟨category, cause, ended, same, -, refuses⟩ := abort_absorbs fails
  rw [active] at same
  cases same
  exact ⟨T 1, _, active, fails, ended, refuses⟩

end Errand

end Session

end Spdz
