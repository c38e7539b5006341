import Spdz.Proofs.Evaluation.Aborting
import Spdz.Proofs.Gates.Delivering
import Spdz.Simulation.Script

/-!
# Results that are missing

Whether a protocol has a result is found out only when its batch has succeeded.  If one that is done has
none, the call fails and the session goes on.  A protocol that delivers never comes to that, and those of
the library all do.

* `Slot.Drives.delivered` — protocols that deliver all have a result when the batch is done.
* `Errand.Delivers` — calls that collect results of protocols that deliver.
* **`Errand.failure_aborts_or_unfinished`** — every error ends the session but that of a protocol without
  a result.
* `Errand.unfinished_aborts_nothing` — and that error does not.
-/

namespace Spdz

variable {F : FieldSpec} {σ P Out : Type}

/-! ## Batches of protocols that deliver -/

namespace Slot

variable [Protocol F σ P] [HasOutput P Out] {limit round position : Nat} {slots slots' : List (Slot P)}
  {S S' : Party F σ} {turns : List (Turn F σ P)}

/-- **Delivered.**  If the protocol of the slot is done, it has a result. -/
def Delivered (slot : Slot P) : Prop := slot.active = false → (HasOutput.output slot.protocol).isSome

theorem Advances.delivered (delivers : Protocol.Delivers F σ P) {result : Except Error Unit}
    (advances : Advances round position slots S turns result slots' S')
    (all : ∀ slot ∈ slots, slot.Delivered) : ∀ slot ∈ slots', slot.Delivered := by
  induction advances with
  | nil => exact all
  | idle _ ih =>
      obtain ⟨here, others⟩ := List.forall_mem_cons.mp all
      exact List.forall_mem_cons.mpr ⟨here, ih others⟩
  | fails =>
      obtain ⟨-, others⟩ := List.forall_mem_cons.mp all
      exact List.forall_mem_cons.mpr ⟨nofun, others⟩
  | @turn _ p p' _ _ S S' _ _ status _ genuine _ ih =>
      obtain ⟨-, others⟩ := List.forall_mem_cons.mp all
      refine List.forall_mem_cons.mpr ⟨fun idle => ?_, ih others⟩
      cases status with
      | hasMoreRounds => cases idle
      | isDone => exact delivers _ p S p' S' genuine

/-- **Protocols that deliver all have a result** when the batch is done. -/
theorem Drives.delivered (delivers : Protocol.Delivers F σ P) {rounds : Nat}
    (drives : Drives limit round slots S turns (.ok rounds) slots' S')
    (all : ∀ slot ∈ slots, slot.Delivered) :
    ∀ slot ∈ slots', (HasOutput.output slot.protocol).isSome := by
  generalize outcome : (.ok rounds : Except Error Nat) = result at drives
  induction drives with
  | spent | fails => cases outcome
  | done idle =>
      intro slot among
      exact all slot among (Bool.not_eq_true _ ▸ List.any_eq_false.mp idle slot among)
  | more _ advances _ ih => exact ih (advances.delivered delivers all) outcome

end Slot

namespace Session

namespace Errand

variable [Supplier F σ]

/-! ## Calls that collect results -/

/-- **Delivers.**  The results that the call collects are those of protocols that have one whenever they
are done. -/
def Delivers : Errand F σ → Prop
  | @runAll _ _ P _ _ _ _ | @run _ _ P _ _ _ _ => Protocol.Delivers F σ P
  | _ => True

/-- A batch that succeeds has a history. -/
theorem exists_history [Protocol F σ P] {protocols protocols' : List P} {session session' : Session F σ}
    (ends : ((Session.runBatch protocols).run session).Ends ((.ok (), protocols'), session')) :
    ∃ turns rounds slots S, Slot.Drives maxRounds 0 (protocols.map fun protocol => { protocol })
      session.party turns (.ok rounds) slots S ∧ protocols' = slots.map (·.protocol) := by
  obtain ⟨outcome, between, batch, after⟩ := runBatch_cases ends
  cases outcome with
  | error e => cases after.1
  | ok rounds =>
      obtain ⟨e, -, failed, -⟩ | ⟨-, turns, slots, S, history, given, -⟩ := exists_driven batch
      · cases failed
      · exact ⟨turns, rounds, slots, S, history, given⟩

theorem length_of_runBatch [Protocol F σ P] {protocols protocols' : List P}
    {session session' : Session F σ}
    (ends : ((Session.runBatch protocols).run session).Ends ((.ok (), protocols'), session')) :
    protocols'.length = protocols.length := by
  obtain ⟨_, _, slots, _, history, rfl⟩ := exists_history ends
  rw [List.length_map, history.length, List.length_map]

/-- Protocols that deliver all have a result after a batch that succeeds. -/
theorem delivered_of_runBatch [Protocol F σ P] [HasOutput P Out] (delivers : Protocol.Delivers F σ P)
    {protocols protocols' : List P} {session session' : Session F σ}
    (ends : ((Session.runBatch protocols).run session).Ends ((.ok (), protocols'), session')) :
    ∀ p ∈ protocols', (HasOutput.output p).isSome := by
  obtain ⟨_, _, slots, _, history, rfl⟩ := exists_history ends
  refine List.forall_mem_map.mpr (history.delivered delivers (List.forall_mem_map.mpr ?_))
  -- all protocols are active at first
  exact fun _ _ => nofun

omit [Supplier F σ] in
theorem outputOf_eq_error [HasOutput P Out] {p : P} {e : Error} (failed : outputOf p = .error e) :
    HasOutput.output p = none ∧ e = .unfinished (HasOutput.name p) := by
  cases shown : HasOutput.output p with
  | none =>
      rw [outputOf, shown] at failed
      exact ⟨rfl, (Except.error.inj failed).symm⟩
  | some output =>
      rw [outputOf, shown] at failed
      cases failed

omit [Supplier F σ] in
theorem mapM_outputOf_eq_error [HasOutput P Out] {protocols : List P} {e : Error}
    (failed : protocols.mapM outputOf = .error e) :
    ∃ p ∈ protocols, HasOutput.output p = none ∧ e = .unfinished (HasOutput.name p) := by
  induction protocols with
  | nil => cases failed
  | cons p protocols ih =>
      rw [List.mapM_cons] at failed
      cases first : outputOf p with
      | error e' =>
          rw [first] at failed
          cases failed
          exact ⟨p, List.mem_cons_self, outputOf_eq_error first⟩
      | ok output =>
          rw [first] at failed
          cases others : protocols.mapM outputOf with
          | error e' =>
              rw [others] at failed
              cases failed
              obtain ⟨q, among, missing⟩ := ih others
              exact ⟨q, List.mem_cons_of_mem p among, missing⟩
          | ok outputs =>
              rw [others] at failed
              cases failed

/-- What a batch that was driven can still fail with is a result that is missing. -/
theorem unfinished_of_batch [Protocol F σ P] [HasOutput P Out] {read : List P → Except Error Unit}
    {protocols : List P} {e : Error} {session session' : Session F σ}
    (missing : ∀ protocols', protocols'.length = protocols.length → read protocols' = .error e →
      ∃ p ∈ protocols', HasOutput.output p = none ∧ e = .unfinished (HasOutput.name p))
    (ends : ((batch read protocols).run session).Ends (.ok (.error e), session')) :
    ¬ Protocol.Delivers F σ P ∧ ∃ name, e = .unfinished name := by
  rw [batch, StateT.run_map] at ends
  obtain ⟨⟨⟨verdict, protocols'⟩, _⟩, before, same⟩ := Exchange.ends_map.mp ends
  cases verdict with
  | error e' => cases same
  | ok _ =>
      obtain ⟨failed, rfl⟩ := Prod.mk.inj same
      obtain ⟨p, among, none, rfl⟩ :=
        missing protocols' (length_of_runBatch before) (Except.ok.inj failed).symm
      refine ⟨fun delivers => ?_, _, rfl⟩
      have some := delivered_of_runBatch delivers before p among
      rw [none] at some
      cases some

theorem unfinished_of_single [Protocol F σ P] [HasOutput P Out] {p : P} {e : Error}
    {session session' : Session F σ}
    (ends : ((single p).run session).Ends (.ok (.error e), session')) :
    ¬ Protocol.Delivers F σ P ∧ ∃ name, e = .unfinished name := by
  refine unfinished_of_batch (fun protocols' length failed => ?_) ends
  obtain ⟨q, rfl⟩ := List.length_eq_one_iff.mp length
  cases outcome : outputOf q with
  | error e' =>
      rw [List.headD_cons, outcome] at failed
      cases failed
      exact ⟨q, List.mem_singleton_self q, outputOf_eq_error outcome⟩
  | ok output =>
      rw [List.headD_cons, outcome] at failed
      cases failed

/-- The first of two parties runs a protocol that is done at once and has no result. -/
theorem exists_hollow : ∃ session : Session .f251 (Party.SimulatedSupplier .f251),
    session.aborted = none ∧ session.party.opened.isEmpty ∧
      ((run (ScriptedProtocol.hollow 1 : ScriptedProtocol .f251)).perform.run session).Ends
        (.error (.unfinished "HollowProtocol"), session.countBatch 1) := by
  obtain ⟨T, begun⟩ := Session.exists_hasBegun .f251 (by decide : 1 ≤ 2)
    (rfl : ({} : Config).strategy = .simulated 0) fun i => Config.validate_default (by decide)
  obtain ⟨deck, -, -, simulated⟩ := exists_deck_simulated .f251 (by decide : 1 ≤ 2)
    (rfl : ({} : Config).strategy = .simulated 0)
  obtain ⟨entropy, S, created, started⟩ := (begun 1 ⟨by decide, by decide⟩).exists_party
  obtain ⟨-, -, config, opened, -⟩ := simulated 1 entropy S created
  have active : (T 1).aborted = none := started ▸ rfl
  have nothing : Turn.Genuine ⟨0, 0, ((.hollow 1 : ScriptedProtocol .f251), (T 1).party), .ok .isDone,
      ((.hollow 1 : ScriptedProtocol .f251), (T 1).party)⟩ := .done _
  have history : Slot.Drives maxRounds 0
      ([(.hollow 1 : ScriptedProtocol .f251)].map fun protocol => { protocol }) (T 1).party _ (.ok 1) _
      (T 1).party := .more rfl (.turn nothing (.nil _ _)) (.done rfl)
  have idle : ¬ (T 1).isDue := by
    rw [isDue, started, opened, config]
    decide
  have batch : ((Session.runBatch [(.hollow 1 : ScriptedProtocol .f251)]).run (T 1)).Ends
      ((.ok (), [.hollow 1]), (T 1).countBatch 1) := ends_runBatch active history idle
  refine ⟨T 1, active, ?_, ?_⟩
  · rw [started, opened]
    rfl
  · rw [perform]
    refine Task.ends_outcome.mpr ⟨.error (.unfinished "HollowProtocol"), ?_, rfl⟩
    rw [run_run]
    exact Exchange.ends_bind.mpr ⟨_, batch, .done _⟩

/-- **An error ends the session**, unless all was driven and a protocol that is done has no result. -/
theorem failure_aborts_or_unfinished {errand : Errand F σ} {session session' : Session F σ} {e : Error}
    (active : session.aborted = none) (fails : (errand.perform.run session).Ends (.error e, session')) :
    session'.aborted = some (e.category, e.message) ∨
      session'.aborted = none ∧ ¬ errand.Delivers ∧ ∃ name, e = .unfinished name := by
  rw [perform_eq_conduct, StateT.run_map] at fails
  obtain ⟨⟨result, _⟩, ends, same⟩ := Exchange.ends_map.mp fails
  have caused := errand.strict_conduct session result _ active ends
  cases result with
  | error e' =>
      cases same
      exact .inl caused
  | ok outcome =>
      cases same
      refine .inr ⟨caused, ?_⟩
      cases errand with
      | runBatch protocols =>
          rw [conduct, batch, StateT.run_map] at ends
          obtain ⟨⟨⟨verdict, _⟩, _⟩, -, same⟩ := Exchange.ends_map.mp ends
          cases verdict <;> cases same
      | macCheck | checkpoint | finish =>
          rw [conduct, StateT.run_map] at ends
          obtain ⟨⟨verdict, _⟩, -, same⟩ := Exchange.ends_map.mp ends
          cases verdict <;> cases same
      | runAll protocols =>
          rw [conduct] at ends
          refine unfinished_of_batch (fun protocols' _ failed => ?_) ends
          cases outputs : protocols'.mapM outputOf with
          | error e' =>
              rw [outputs] at failed
              cases failed
              exact mapM_outputOf_eq_error outputs
          | ok _ =>
              rw [outputs] at failed
              cases failed
      | run protocol => exact unfinished_of_single ends
      | input => exact absurd Input.delivers (unfinished_of_single ends).1
      | inputChecked => exact absurd CheckedInput.delivers (unfinished_of_single ends).1
      | multiply => exact absurd Multiply.delivers (unfinished_of_single ends).1
      | openAll => exact absurd Open.delivers (unfinished_of_single ends).1
      | openTo => exact absurd OpenTo.delivers (unfinished_of_single ends).1
      | randomElement => exact absurd RandomElement.delivers (unfinished_of_single ends).1

/-- The call for the protocol without a result fails, and ends nothing. -/
theorem failure_aborts_or_unfinished_hollow :
    ∃ session session' : Session .f251 (Party.SimulatedSupplier .f251), session.aborted = none ∧
      ((run (ScriptedProtocol.hollow 1 : ScriptedProtocol .f251)).perform.run session).Ends
        (.error (.unfinished "HollowProtocol"), session') ∧ session'.aborted = none ∧
      ¬ Protocol.Delivers .f251 (Party.SimulatedSupplier .f251) (ScriptedProtocol .f251) := by
  obtain ⟨session, active, -, fails⟩ := exists_hollow
  obtain ended | ⟨going, missing, -⟩ := failure_aborts_or_unfinished active fails
  · exact absurd (active.symm.trans ended) nofun
  · exact ⟨session, session.countBatch 1, active, fails, going, missing⟩

/-- **Not every error ends the session**: the protocol without a result fails the call, and later calls
succeed. -/
theorem unfinished_aborts_nothing :
    ∃ session session' : Session .f251 (Party.SimulatedSupplier .f251), session.aborted = none ∧
      ((run (ScriptedProtocol.hollow 1 : ScriptedProtocol .f251)).perform.run session).Ends
        (.error (.unfinished "HollowProtocol"), session') ∧
      session'.aborted = none ∧ checkpoint.perform.run session' = .done (.ok (), session') := by
  obtain ⟨session, active, empty, fails⟩ := exists_hollow
  have going : (session.countBatch 1).aborted = none := active
  refine ⟨session, session.countBatch 1, active, fails, going, ?_⟩
  rw [perform, Task.outcome, StateT.run_map, run_checkpoint going]
  exact congrArg (_ <$> ·) (if_pos empty)

end Errand

end Session

end Spdz
