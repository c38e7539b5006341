import Spdz.Proofs.Evaluation.LifeCycle

/-!
# The ledger of a session

A session keeps an account of what it has done.  Here its calls are given a ledger, in which every batch
that is driven for a caller is entered, and every check that the session drives of its own accord, each
with all its turns.  The account is then what the ledger adds up to.

* `Entry` — a batch or a check, with its history.
* `Plan`, `Plan.Follows` — what a call has the session drive, and all the ways this can go.
* **`Errand.follows`** — every call goes as planned.
* `Ledger`, **`Errand.exists_ledger`** — the calls of a whole session, with their entries.
* **`scheduler_contract`** — batches keep to the schedule, and the account agrees with the ledger.
-/

namespace Spdz

variable {F : FieldSpec} {σ P : Type}

namespace Session

/-! ## Entries -/

/-- A batch that a session has driven for a caller, or a check that it has driven of its own accord.  A
check that a caller has put in a batch is a protocol like any other. -/
inductive Entry (F : FieldSpec) (σ : Type) : Type 1 where
  | batch {P : Type} [Protocol F σ P] (protocols : List P) (turns : List (Turn F σ P))
      (result : Except Error Nat)
  | check (turns : List (Turn F σ (MacCheck F))) (result : Except Error Nat)

namespace Entry

/-- The number of rounds of a batch that has succeeded. -/
def batchRounds : Entry F σ → Option Nat
  | batch _ _ (.ok rounds) => some rounds
  | _ => none

/-- Whether it is a check of the session's own that has passed. -/
def isPassed : Entry F σ → Bool
  | check _ (.ok _) => true
  | _ => false

/-- **Scheduled.**  All calls of protocols are made on schedule. -/
def Scheduled : Entry F σ → Prop
  | batch protocols turns result => Slot.Schedule protocols.length turns result
  | check turns result => Slot.Schedule 1 turns result

end Entry

/-- The account once the entries are added to it. -/
def account (stats : Stats) (entries : List (Entry F σ)) : Stats where
  batches := stats.batches + (entries.filterMap Entry.batchRounds).length
  rounds := stats.rounds + (entries.filterMap Entry.batchRounds).sum
  macChecks := stats.macChecks + entries.countP Entry.isPassed

theorem account_append (stats : Stats) (entries others : List (Entry F σ)) :
    account stats (entries ++ others) = account (account stats entries) others := by
  simp only [account, List.filterMap_append, List.length_append, List.sum_append, List.countP_append,
    Nat.add_assoc]

/-! ## Plans -/

/-- What a call has a session drive: a batch and the check that may be due after it, or a check, or a
check if there is anything to check. -/
inductive Plan (F : FieldSpec) (σ : Type) : Type 1 where
  | batch {P : Type} [Protocol F σ P] (protocols : List P)
  | check
  | checkpoint

variable [Supplier F σ] {session session' session'' : Session F σ} {entries : List (Entry F σ)}
  {verdict : Except Error Unit}

/-- **Follows.**  The ways in which a plan can go, with the entries that are made, the verdict on all that
was driven, and the session after it. -/
inductive Plan.Follows : Plan F σ → Session F σ → List (Entry F σ) → Except Error Unit →
    Session F σ → Prop where
  /-- A session that has ended does nothing. -/
  | refuses {plan : Plan F σ} {session : Session F σ} {e : Error} (stopped : session.ended = some e) :
    Follows plan session [] (.error e) session
  | rejects {session : Session F σ} {turns : List (Turn F σ (MacCheck F))} {e : Error}
      {checks : List (MacCheck F)} {S : Party F σ} (active : session.aborted = none)
      (history : Slot.History [{}] session.party turns (.error e) checks S) :
    Follows .check session [.check turns (.error e)] (.error e)
      (session.driven (.error e : Except _ Nat) S)
  | confirms {session : Session F σ} {turns : List (Turn F σ (MacCheck F))} {rounds : Nat}
      {checks : List (MacCheck F)} {S : Party F σ} (active : session.aborted = none)
      (history : Slot.History [{}] session.party turns (.ok rounds) checks S) :
    Follows .check session [.check turns (.ok rounds)] (.ok ())
      (session.driven (.ok rounds : Except Error _) S).countCheck
  /-- There is nothing to check. -/
  | skips {session : Session F σ} (active : session.aborted = none)
      (nothing : session.party.opened.isEmpty) : Follows .checkpoint session [] (.ok ()) session
  | needs {session session' : Session F σ} {entries : List (Entry F σ)} {verdict : Except Error Unit}
      (something : ¬ session.party.opened.isEmpty)
      (check : Follows .check session entries verdict session') :
    Follows .checkpoint session entries verdict session'
  | fails {P : Type} [Protocol F σ P] {session : Session F σ} {protocols protocols' : List P}
      {turns : List (Turn F σ P)} {e : Error} {S : Party F σ} (active : session.aborted = none)
      (history : Slot.History protocols session.party turns (.error e) protocols' S) :
    Follows (.batch protocols) session [.batch protocols turns (.error e)] (.error e)
      (session.driven (.error e : Except _ Nat) S)
  | succeeds {P : Type} [Protocol F σ P] {session : Session F σ} {protocols protocols' : List P}
      {turns : List (Turn F σ P)} {rounds : Nat} {S : Party F σ} (active : session.aborted = none)
      (history : Slot.History protocols session.party turns (.ok rounds) protocols' S)
      (few : ¬ (session.driven (.ok rounds : Except Error _) S).isDue) :
    Follows (.batch protocols) session [.batch protocols turns (.ok rounds)] (.ok ())
      ((session.driven (.ok rounds : Except Error _) S).countBatch rounds)
  /-- The batch leaves so much to check that it is settled by a check. -/
  | settles {P : Type} [Protocol F σ P] {session session' : Session F σ}
      {protocols protocols' : List P} {turns : List (Turn F σ P)} {rounds : Nat} {S : Party F σ}
      {entries : List (Entry F σ)} {verdict : Except Error Unit} (active : session.aborted = none)
      (history : Slot.History protocols session.party turns (.ok rounds) protocols' S)
      (due : (session.driven (.ok rounds : Except Error _) S).isDue)
      (check : Follows .check ((session.driven (.ok rounds : Except Error _) S).countBatch rounds)
        entries verdict session') :
    Follows (.batch protocols) session (.batch protocols turns (.ok rounds) :: entries) verdict session'

namespace Plan.Follows

variable {plan : Plan F σ}

/-- **The account agrees with the entries.** -/
theorem stats_eq (follows : plan.Follows session entries verdict session') :
    session'.stats = account session.stats entries := by
  induction follows with
  | refuses | skips | rejects | confirms | fails | succeeds => rfl
  | needs _ _ ih => exact ih
  | settles _ _ _ _ ih =>
      rw [ih, ← List.singleton_append, account_append]
      rfl

/-- Everything is driven on schedule. -/
theorem scheduled (follows : plan.Follows session entries verdict session') :
    ∀ entry ∈ entries, entry.Scheduled := by
  induction follows with
  | refuses | skips => simp
  | rejects _ history | confirms _ history | fails _ history | succeeds _ history =>
      exact List.forall_mem_singleton.mpr history.schedule
  | needs _ _ ih => exact ih
  | settles _ history _ _ ih => exact List.forall_mem_cons.mpr ⟨history.schedule, ih⟩

end Plan.Follows

/-! ## Calls -/

omit [Supplier F σ] in
/-- Driving protocols is a whole batch, unless the session has ended. -/
theorem exists_history_of_drive [Protocol F σ P] {protocols protocols' : List P}
    {result : Except Error Nat}
    (ends : ((drive protocols).run session).Ends ((result, protocols'), session')) :
    (∃ e, session.ended = some e ∧ result = .error e ∧ session' = session) ∨
      session.aborted = none ∧ ∃ turns S,
        Slot.History protocols session.party turns result protocols' S ∧
          session' = session.driven result S := by
  obtain stopped | ⟨active, turns, slots, S, drives, rfl, rfl⟩ := exists_driven ends
  · exact .inl stopped
  · exact .inr ⟨active, turns, S, ⟨slots, drives, rfl⟩, rfl⟩

theorem follows_macCheck (ends : ((macCheck : Evaluation F σ Unit).run.run session).Ends
      (verdict, session')) : ∃ entries, Plan.check.Follows session entries verdict session' := by
  obtain ⟨outcome, checks, between, driven, after⟩ := macCheck_cases ends
  obtain ⟨e, stopped, rfl, rfl⟩ | ⟨active, turns, S, history, rfl⟩ := exists_history_of_drive driven
  · obtain ⟨rfl, rfl⟩ := after
    exact ⟨[], .refuses stopped⟩
  · cases outcome <;> obtain ⟨rfl, rfl⟩ := after
    · exact ⟨_, .rejects active history⟩
    · exact ⟨_, .confirms active history⟩

theorem follows_checkpoint (ends : ((checkpoint : Evaluation F σ Unit).run.run session).Ends
      (verdict, session')) : ∃ entries, Plan.checkpoint.Follows session entries verdict session' := by
  cases aborted : session.aborted with
  | some cause =>
      rw [refuses_checkpoint session cause.1 cause.2 aborted] at ends
      cases ends
      exact ⟨[], .refuses (ended_of_aborted aborted)⟩
  | none =>
      rw [run_checkpoint aborted] at ends
      split_ifs at ends with empty
      · cases ends
        exact ⟨[], .skips aborted empty⟩
      · obtain ⟨entries, follows⟩ := follows_macCheck ends
        exact ⟨entries, .needs empty follows⟩

theorem follows_runBatch [Protocol F σ P] {protocols protocols' : List P}
    (ends : ((runBatch protocols).run session).Ends ((verdict, protocols'), session')) :
    ∃ entries, (Plan.batch protocols).Follows session entries verdict session' := by
  obtain ⟨outcome, between, batch, after⟩ := runBatch_cases ends
  obtain ⟨e, stopped, rfl, rfl⟩ | ⟨active, turns, S, history, rfl⟩ := exists_history_of_drive batch
  · obtain ⟨rfl, rfl⟩ := after
    exact ⟨[], .refuses stopped⟩
  · cases outcome with
    | error e =>
        obtain ⟨rfl, rfl⟩ := after
        exact ⟨_, .fails active history⟩
    | ok rounds =>
        dsimp only at after
        split_ifs at after with due
        · obtain ⟨entries, check⟩ := follows_macCheck after
          exact ⟨_, .settles active history due check⟩
        · obtain ⟨rfl, rfl⟩ := after
          exact ⟨_, .succeeds active history due⟩

namespace Errand

/-- What the call has the session drive. -/
def plan : Errand F σ → Plan F σ
  | runBatch protocols | runAll protocols => .batch protocols
  | run protocol => .batch [protocol]
  | macCheck => .check
  | checkpoint | finish => .checkpoint
  | input inputter value => .batch [Input.new value inputter]
  | inputChecked inputter value => .batch [CheckedInput.new value inputter]
  | multiply x y => .batch [({ x, y } : Multiply F)]
  | openAll share => .batch [({ share } : Open F)]
  | openTo share target => .batch [({ share, target } : OpenTo F)]
  | randomElement => .batch [({} : RandomElement F)]

theorem follows_batch [Protocol F σ P] {read : List P → Except Error Unit} {protocols : List P}
    {result : Except Error (Except Error Unit)}
    (ends : ((batch read protocols).run session).Ends (result, session')) :
    ∃ entries, (Plan.batch protocols).Follows session entries (result.map fun _ => ()) session' := by
  rw [batch, StateT.run_map] at ends
  obtain ⟨⟨⟨verdict, _⟩, _⟩, before, same⟩ := Exchange.ends_map.mp ends
  cases same
  obtain ⟨entries, follows⟩ := follows_runBatch before
  exact ⟨entries, by cases verdict <;> exact follows⟩

omit [Supplier F σ] in
theorem ends_map_outcome {α : Type} {x : Evaluation F σ α} {result : Except Error (Except Error Unit)}
    (ends : ((Except.map .ok <$> Task.outcome x : Sessional F σ _).run session).Ends (result, session')) :
    ∃ given, (x.run.run session).Ends (given, session') ∧
      result.map (fun _ => ()) = given.map fun _ => () := by
  rw [StateT.run_map] at ends
  obtain ⟨⟨verdict, _⟩, before, same⟩ := Exchange.ends_map.mp ends
  cases same
  obtain ⟨given, inner, rfl⟩ := Task.ends_outcome.mp before
  exact ⟨given, inner, by cases given <;> rfl⟩

/-- **Every call goes as planned.** -/
theorem follows {errand : Errand F σ} {result : Except Error (Except Error Unit)}
    (ends : (errand.conduct.run session).Ends (result, session')) :
    ∃ entries, errand.plan.Follows session entries (result.map fun _ => ()) session' := by
  cases errand with
  | runBatch | runAll | run | input | inputChecked | multiply | openAll | openTo | randomElement =>
      rw [conduct] at ends
      exact follows_batch ends
  | macCheck =>
      obtain ⟨given, inner, same⟩ := ends_map_outcome ends
      rw [same]
      cases given <;> exact follows_macCheck inner
  | checkpoint =>
      obtain ⟨given, inner, same⟩ := ends_map_outcome ends
      rw [same]
      cases given <;> exact follows_checkpoint inner
  | finish =>
      obtain ⟨given, inner, same⟩ := ends_map_outcome ends
      obtain ⟨result, before, rfl⟩ := exists_checkpoint inner
      rw [same]
      obtain ⟨entries, follows⟩ := follows_checkpoint before
      exact ⟨entries, by cases result <;> exact follows⟩

/-- The answer to a call is the error of what is driven, if there is one. -/
theorem follows_perform {errand : Errand F σ} {result : Except Error Unit}
    (ends : (errand.perform.run session).Ends (result, session')) :
    ∃ entries verdict, errand.plan.Follows session entries verdict session' ∧
      ∀ e, verdict = .error e → result = .error e := by
  rw [perform_eq_conduct, StateT.run_map] at ends
  obtain ⟨⟨given, _⟩, before, same⟩ := Exchange.ends_map.mp ends
  cases same
  obtain ⟨entries, goes⟩ := follows before
  refine ⟨entries, _, goes, fun e failed => ?_⟩
  cases given <;> cases failed
  rfl

end Errand

/-! ## Whole sessions -/

/-- **Ledger.**  The calls of a session, one after the other, each with the entries that are made for it.
A call fails if what it has the session drive fails. -/
inductive Ledger : Session F σ → List (Errand F σ) → List (List (Entry F σ)) →
    List (Except Error Unit) → Session F σ → Prop where
  | nil (session : Session F σ) : Ledger session [] [] [] session
  | cons {session between session' : Session F σ} {errand : Errand F σ} {errands : List (Errand F σ)}
      {entries : List (Entry F σ)} {ledger : List (List (Entry F σ))} {verdict : Except Error Unit}
      {result : Except Error Unit} {results : List (Except Error Unit)}
      (follows : errand.plan.Follows session entries verdict between)
      (told : ∀ e, verdict = .error e → result = .error e)
      (later : Ledger between errands ledger results session') :
    Ledger session (errand :: errands) (entries :: ledger) (result :: results) session'

namespace Ledger

variable {errands : List (Errand F σ)} {ledger : List (List (Entry F σ))}
  {results : List (Except Error Unit)}

/-- **The calls of every session have a ledger.** -/
theorem exists_of_ends (ends : ((errands.mapM Errand.perform : Sessional F σ _).run session).Ends
      (results, session')) : ∃ ledger, Ledger session errands ledger results session' := by
  induction errands generalizing session results with
  | nil =>
      cases ends
      exact ⟨[], .nil _⟩
  | cons errand errands ih =>
      obtain ⟨result, between, later, first, others, rfl⟩ := ends_mapM_cons.mp ends
      obtain ⟨entries, verdict, follows, told⟩ := Errand.follows_perform first
      obtain ⟨ledger, onwards⟩ := ih others
      exact ⟨entries :: ledger, .cons follows told onwards⟩

theorem stats_eq (made : Ledger session errands ledger results session') :
    session'.stats = account session.stats ledger.flatten := by
  induction made with
  | nil => rfl
  | cons follows _ _ ih => rw [ih, follows.stats_eq, List.flatten_cons, account_append]

theorem scheduled (made : Ledger session errands ledger results session') :
    ∀ entry ∈ ledger.flatten, entry.Scheduled := by
  induction made with
  | nil => simp
  | cons follows _ _ ih =>
      rw [List.flatten_cons]
      exact List.forall_mem_append.mpr ⟨follows.scheduled, ih⟩

end Ledger

/-- What a check of the session's own adds to the account. -/
theorem Plan.Follows.stats_of_check (follows : Plan.check.Follows session entries verdict session') :
    session'.stats
      = { session.stats with macChecks := session.stats.macChecks + if verdict.isOk then 1 else 0 } := by
  cases follows <;> rfl

/-- **What a batch adds to the account.**  It counts once it has been driven, and so do its rounds, whatever
the check says that may be due after it. -/
theorem stats_of_runBatch [Protocol F σ P] {protocols protocols' : List P}
    (active : session.aborted = none)
    (ends : ((runBatch protocols).run session).Ends ((verdict, protocols'), session')) :
    ∃ turns outcome S, Slot.History protocols session.party turns outcome protocols' S ∧
      match outcome with
      | .error e => verdict = .error e ∧ session'.stats = session.stats
      | .ok rounds => session'.stats =
          { batches := session.stats.batches + 1
            rounds := session.stats.rounds + rounds
            macChecks := session.stats.macChecks
              + if (session.driven outcome S).isDue && verdict.isOk then 1 else 0 } := by
  obtain ⟨outcome, between, batch, after⟩ := runBatch_cases ends
  obtain ⟨e, stopped, -⟩ | ⟨-, turns, S, history, rfl⟩ := exists_history_of_drive batch
  · rw [ended, active] at stopped
    cases stopped
  · refine ⟨turns, outcome, S, history, ?_⟩
    cases outcome with
    | error e =>
        obtain ⟨rfl, rfl⟩ := after
        exact ⟨rfl, rfl⟩
    | ok rounds =>
        dsimp only at after ⊢
        split_ifs at after with due
        · obtain ⟨entries, check⟩ := follows_macCheck after
          rw [check.stats_of_check, due, Bool.true_and]
          rfl
        · obtain ⟨rfl, rfl⟩ := after
          rw [Bool.eq_false_of_not_eq_true due]
          rfl

/-- **The contract of the scheduler.**  However the protocols of a batch behave, driving them is what its
histories tell, and these keep to the schedule.  A batch that is run adds one batch and its rounds to the
account once it has been driven, and nothing if that fails; a check that is due after it adds one check if
it passes.  So after any calls the account has grown by just what their ledger adds up to: one batch and
its rounds for each that was driven, one check for each of the session's own that passed. -/
theorem scheduler_contract :
    (∀ {P : Type} [Protocol F σ P] (protocols protocols' : List P) (S S' : Party F σ)
        (result : Except Error Nat),
      (((driveRounds protocols).run S).Ends ((result, protocols'), S') ↔
        ∃ turns, Slot.History protocols S turns result protocols' S') ∧
      ∀ turns, Slot.History protocols S turns result protocols' S' →
        Slot.Schedule protocols.length turns result) ∧
    (∀ {P : Type} [Protocol F σ P] (protocols protocols' : List P) (session session' : Session F σ)
        (verdict : Except Error Unit), session.aborted = none →
      ((runBatch protocols).run session).Ends ((verdict, protocols'), session') →
      ∃ turns outcome S, Slot.History protocols session.party turns outcome protocols' S ∧
        match outcome with
        | .error e => verdict = .error e ∧ session'.stats = session.stats
        | .ok rounds => session'.stats =
            { batches := session.stats.batches + 1
              rounds := session.stats.rounds + rounds
              macChecks := session.stats.macChecks
                + if (session.driven outcome S).isDue && verdict.isOk then 1 else 0 }) ∧
    ∀ (errands : List (Errand F σ)) (session session' : Session F σ)
        (results : List (Except Error Unit)),
      ((errands.mapM Errand.perform : Sessional F σ _).run session).Ends (results, session') →
      ∃ ledger, Ledger session errands ledger results session' ∧
        (∀ entry ∈ ledger.flatten, entry.Scheduled) ∧
        session'.stats = account session.stats ledger.flatten := by
  refine ⟨fun protocols protocols' S S' result => ⟨Slot.History.ends_iff, fun _ => Slot.History.schedule⟩,
    fun protocols protocols' session session' verdict active ends => ?_,
    fun errands session session' results ends => ?_⟩
  · exact stats_of_runBatch active ends
  · obtain ⟨ledger, made⟩ := Ledger.exists_of_ends ends
    exact ⟨ledger, made, made.scheduled, made.stats_eq⟩

/-- One of two parties runs a batch that shares a constant and opens a share of zero. -/
theorem ends_constantAndOpening : ∃ session' : Session .f251 (Party.SimulatedSupplier .f251),
    ((([.runBatch constantAndOpening] : List (Errand .f251 _)).mapM Errand.perform).run
      { party := MacCheck.idleParty 1 }).Ends ([.ok ()], session') ∧
    session'.stats = { batches := 1, rounds := 2, macChecks := 0 } ∧ session'.party.opened.size = 1 := by
  obtain ⟨turns, slots', S', history, size, config⟩ := drives_constantAndOpening (maxRounds - 3)
  have few : ¬ ({ party := S' } : Session .f251 _).isDue := by
    rw [isDue, OpenedValues.reaches, size, config]
    decide
  have batch : ((runBatch constantAndOpening).run { party := MacCheck.idleParty 1 }).Ends _ :=
    ends_runBatch rfl history few
  exact ⟨_, ends_mapM_cons.mpr ⟨_, _, [], Exchange.ends_map.mpr ⟨_, batch, rfl⟩, .done _, rfl⟩, rfl, size⟩

/-- The ledger of this has a batch of two rounds, and no check. -/
theorem scheduler_contract_of_two :
    ∃ (session' : Session .f251 (Party.SimulatedSupplier .f251)) (ledger : List (List (Entry .f251 _))),
      ((([.runBatch constantAndOpening] : List (Errand .f251 _)).mapM Errand.perform).run
        { party := MacCheck.idleParty 1 }).Ends ([.ok ()], session') ∧
      Ledger { party := MacCheck.idleParty 1 } [.runBatch constantAndOpening] ledger [.ok ()] session' ∧
      (∀ entry ∈ ledger.flatten, entry.Scheduled) ∧
      account {} ledger.flatten = { batches := 1, rounds := 2, macChecks := 0 } := by
  obtain ⟨session', ends, stats, -⟩ := ends_constantAndOpening
  obtain ⟨ledger, made, scheduled, counted⟩ := scheduler_contract.2.2 _ _ _ _ ends
  exact ⟨session', ledger, ends, made, scheduled, counted.symm.trans stats⟩

end Session

end Spdz
