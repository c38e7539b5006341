import Spdz.Proofs.Evaluation.Conservation
import Spdz.Proofs.Evaluation.Ledger
import Spdz.Proofs.Evaluation.Legs

/-!
# The openings that are pending

A batch can open as much as it likes.  But once a session has answered a call with success, there are
fewer openings pending than the threshold of its party, and after a check there are none.  So what a
caller has been given is never far from being confirmed.

* `Party.Valid`, `Protocol.KeepsValid` — settings that suit the party, and protocols that leave it so.
* `Plan.Follows.opened_of_check` — a check that passes leaves nothing pending.
* **`Plan.Follows.size_lt`** — whatever a call drives with success leaves little pending.
* `Settles` — how a batch that has been driven is settled.
* **`bounded_openings`** — the bound after every call of a session.
-/

namespace Spdz

variable {F : FieldSpec} {σ P Out : Type}

/-! ## Valid settings -/

namespace Party

variable {S S' : Party F σ}

/-- **Valid.**  The settings of the party suit it. -/
def Valid (S : Party F σ) : Prop := S.config.validate S.parties S.id F.bits = .ok ()

/-- A party is only ever created with such settings. -/
theorem valid_of_create {id : PartyId} {parties : Nat} {config : Config} {supplier : σ} {rng : ChaCha}
    (created : create F id parties config supplier rng = .ok S) : S.Valid := by
  rw [create] at created
  cases valid : config.validate parties id F.bits with
  | error e =>
      rw [valid] at created
      cases created
  | ok _ =>
      rw [valid] at created
      cases created
      exact valid

theorem Valid.threshold_pos (valid : S.Valid) : 0 < S.config.openedThreshold := by
  rw [Valid, Config.validate] at valid
  split_ifs at valid with _ _ _ _ none
  exact Nat.pos_of_ne_zero none

theorem Valid.of_settings (valid : S.Valid) (same : S'.settings = S.settings) : S'.Valid := by
  obtain ⟨id, parties, config⟩ : S'.id = S.id ∧ S'.parties = S.parties ∧ S'.config = S.config := by
    simpa [settings] using same
  rw [Valid, id, parties, config]
  exact valid

end Party

/-- **Keeps valid.**  No turn of the protocol leaves the party with settings that do not suit it.  Since
parties are only created with settings that do, a protocol has no others to give it. -/
def Protocol.KeepsValid (F : FieldSpec) (σ P : Type) [Protocol F σ P] : Prop :=
  ∀ t : Turn F σ P, t.Genuine → t.before.2.Valid → t.after.2.Valid

/-- The protocols of the library leave the settings alone. -/
theorem Library.keepsValid [Supplier F σ] [Protocol F σ P] [HasOutput P Out] [Library F σ P] :
    Protocol.KeepsValid F σ P :=
  fun _ genuine valid => valid.of_settings genuine.settings

theorem Slot.History.valid [Protocol F σ P] {protocols protocols' : List P} {S S' : Party F σ}
    {turns : List (Turn F σ P)} {result : Except Error Nat} (keeps : Protocol.KeepsValid F σ P)
    (history : History protocols S turns result protocols' S') (valid : S.Valid) : S'.Valid := by
  obtain ⟨slots, drives, -⟩ := history
  exact (drives.chained.kept (fun t among => keeps t (drives.genuine t among)) valid).2

namespace Session

variable [Supplier F σ] {session session' driven : Session F σ} {entries : List (Entry F σ)}
  {verdict : Except Error Unit} {plan : Plan F σ}

/-! ## What a call leaves pending -/

omit [Supplier F σ] in
theorem isDue_iff : session.isDue ↔ session.party.config.openedThreshold ≤ session.party.opened.size := by
  simp [isDue, OpenedValues.reaches]

/-- The protocols of a caller's batch keep the settings valid. -/
def Plan.KeepsValid : Plan F σ → Prop
  | @batch _ _ P _ _ => Protocol.KeepsValid F σ P
  | check | checkpoint => True

namespace Plan.Follows

theorem valid (follows : plan.Follows session entries verdict session') (keeps : plan.KeepsValid)
    (start : session.party.Valid) : session'.party.Valid := by
  induction follows with
  | refuses | skips => exact start
  | rejects _ history | confirms _ history => exact history.valid Library.keepsValid start
  | needs _ _ ih => exact ih trivial start
  | fails _ history | succeeds _ history => exact history.valid keeps start
  | settles _ history _ _ ih => exact ih trivial (history.valid keeps start)

/-- A check that passes leaves nothing pending. -/
theorem opened_of_check (follows : Plan.check.Follows session entries (.ok ()) session') :
    session'.party.opened = {} := by
  cases follows with
  | confirms active history =>
      obtain ⟨slots, drives, rfl⟩ := history
      exact opened_of_macCheck (ends_macCheck active drives)

theorem opened_of_checkpoint (follows : Plan.checkpoint.Follows session entries (.ok ()) session') :
    session'.party.opened = {} := by
  cases follows with
  | skips _ nothing => exact congrArg OpenedValues.mk (List.isEmpty_iff.mp nothing)
  | needs _ check => exact check.opened_of_check

/-- **Whatever is driven with success leaves less pending than the threshold.** -/
theorem size_lt (follows : plan.Follows session entries (.ok ()) session') (keeps : plan.KeepsValid)
    (start : session.party.Valid) :
    session'.party.opened.size < session'.party.config.openedThreshold := by
  have positive := (follows.valid keeps start).threshold_pos
  cases plan with
  | check =>
      rw [follows.opened_of_check]
      exact positive
  | checkpoint =>
      rw [follows.opened_of_checkpoint]
      exact positive
  | batch protocols =>
      cases follows with
      | succeeds _ _ few => exact Nat.not_le.mp (isDue_iff.not.mp few)
      | settles _ _ _ check =>
          rw [check.opened_of_check]
          exact positive

end Plan.Follows

/-! ## Batches -/

/-- **Settles.**  How a batch that has been driven is settled.  An error is the verdict on it.  Otherwise
it counts, and if as much is pending as the threshold says, or more, a check gives the verdict and leaves
nothing pending if it passes. -/
def Settles (driven : Session F σ) (outcome : Except Error Nat) (verdict : Except Error Unit)
    (session' : Session F σ) : Prop :=
  match outcome with
  | .error e => verdict = .error e ∧ session' = driven
  | .ok rounds =>
    if driven.party.config.openedThreshold ≤ driven.party.opened.size then
      ((macCheck : Evaluation F σ Unit).run.run (driven.countBatch rounds)).Ends (verdict, session') ∧
        (verdict = .ok () → session'.party.opened = {})
    else verdict = .ok () ∧ session' = driven.countBatch rounds

theorem settles_of_runBatch [Protocol F σ P] {protocols protocols' : List P}
    (ends : ((runBatch protocols).run session).Ends ((verdict, protocols'), session')) :
    ∃ outcome driven, ((drive protocols).run session).Ends ((outcome, protocols'), driven) ∧
      driven.Settles outcome verdict session' := by
  obtain ⟨outcome, driven, batch, after⟩ := runBatch_cases ends
  refine ⟨outcome, driven, batch, ?_⟩
  cases outcome with
  | error e => exact after
  | ok rounds =>
      simp only [isDue_iff] at after
      rw [Settles]
      split_ifs at after ⊢
      · exact ⟨after, fun passed => opened_of_macCheck (passed ▸ after)⟩
      · exact after

/-- The answer to a call for a batch that is run: the error of the verdict on it, if there is one. -/
def Answers {α : Type} [Protocol F σ P] (protocols : List P) (session : Session F σ)
    (answer : Except Error α) (session' : Session F σ) : Prop :=
  ∃ outcome protocols' driven verdict, ((drive protocols).run session).Ends
      ((outcome, protocols'), driven) ∧ driven.Settles outcome verdict session' ∧
    ∀ e, verdict = .error e → answer = .error e

/-- A method that runs a batch, and then tells something about its protocols. -/
theorem answers_of_told {α : Type} [Protocol F σ P] {protocols : List P} {x : Evaluation F σ α}
    {answer : Except Error α} (tell : List P → Except Error α)
    (told : x.run.run session = (runBatch protocols).run session >>=
      fun ((result, protocols), session) => .done (result >>= fun _ => tell protocols, session))
    (ends : (x.run.run session).Ends (answer, session')) : Answers protocols session answer session' := by
  rw [told] at ends
  obtain ⟨⟨⟨verdict, protocols'⟩, _⟩, batch, same⟩ := Exchange.ends_bind.mp ends
  cases same
  obtain ⟨outcome, driven, drives, settles⟩ := settles_of_runBatch batch
  exact ⟨outcome, protocols', driven, verdict, drives, settles, fun e failed => by rw [failed]; rfl⟩

/-! ## Whole sessions -/

theorem Ledger.valid {errands : List (Errand F σ)} {ledger : List (List (Entry F σ))}
    {results : List (Except Error Unit)} (made : Ledger session errands ledger results session')
    (keeps : ∀ errand ∈ errands, errand.plan.KeepsValid) (start : session.party.Valid) :
    session'.party.Valid := by
  induction made with
  | nil => exact start
  | cons follows _ _ ih =>
      obtain ⟨first, others⟩ := List.forall_mem_cons.mp keeps
      exact ih others (follows.valid first start)

/-- **Few openings are pending.**  Let a session of a party with valid settings be called in any way, with
any batches of protocols that leave the settings valid, and let peers and network do anything.  After
every call that succeeds there are fewer openings pending than the threshold, which is not zero, and after
a check, a checkpoint or the end there are none.  A batch that leaves as many as the threshold or more is
settled by a check, and if this passes there are none.  If it fails, so do the calls that would tell the
results of the batch. -/
theorem bounded_openings (errands : List (Errand F σ)) {results : List (Except Error Unit)}
    {between : Session F σ} (valid : session.party.Valid)
    (keeps : ∀ errand ∈ errands, errand.plan.KeepsValid)
    (before : ((errands.mapM Errand.perform : Sessional F σ _).run session).Ends (results, between)) :
    0 < between.party.config.openedThreshold ∧
    (∀ (errand : Errand F σ) (session' : Session F σ), errand.plan.KeepsValid →
      (errand.perform.run between).Ends (.ok (), session') →
      session'.party.opened.size < session'.party.config.openedThreshold ∧
        (errand = .macCheck ∨ errand = .checkpoint ∨ errand = .finish → session'.party.opened = {})) ∧
    ∀ {P : Type} [Protocol F σ P] (protocols : List P) (session' : Session F σ),
      (∀ verdict protocols', ((runBatch protocols).run between).Ends ((verdict, protocols'), session') →
        ∃ outcome driven, ((drive protocols).run between).Ends ((outcome, protocols'), driven) ∧
          driven.Settles outcome verdict session') ∧
      ∀ {Out : Type} [HasOutput P Out],
        (∀ (p : P) (answer : Except Error Out),
          ((run p : Evaluation F σ Out).run.run between).Ends (answer, session') →
          Answers [p] between answer session') ∧
        ∀ answer : Except Error (List Out),
          ((runAll protocols : Evaluation F σ (List Out)).run.run between).Ends (answer, session') →
          Answers protocols between answer session' := by
  obtain ⟨ledger, made⟩ := Ledger.exists_of_ends before
  have going := made.valid keeps valid
  refine ⟨going.threshold_pos, fun errand session' keepsToo ends => ?_, fun protocols session' =>
    ⟨fun _ _ => settles_of_runBatch,
      fun p _ => answers_of_told (fun protocols => outputOf (protocols.headD p)) (run_run p between),
      fun _ => answers_of_told (fun protocols => protocols.mapM outputOf) (run_runAll protocols between)⟩⟩
  obtain ⟨entries, verdict, follows, told⟩ := Errand.follows_perform ends
  obtain rfl : verdict = .ok () := by
    cases verdict with
    | ok _ => rfl
    | error e => cases told e rfl
  refine ⟨follows.size_lt keepsToo going, ?_⟩
  rintro (rfl | rfl | rfl)
  · exact follows.opened_of_check
  · exact follows.opened_of_checkpoint
  · exact follows.opened_of_checkpoint

/-- Settings with which each opening is checked at once. -/
def eager : Config := { openedThreshold := 1 }

/-- A share of zero is opened. -/
def zeroOpening : List (Request .f251) := [.openAll fun _ => 0]

/-- The batch of the first party for this. -/
def zeroBatch : List (Gate .f251) := zeroOpening.map (Request.gate 1)

/-- The first of two parties with these settings opens a share of zero, and the check passes. -/
theorem exists_opening_checked :
    ∃ (session driven session' : Session .f251 (Party.SimulatedSupplier .f251)) (rounds : Nat)
      (gates : List (Gate .f251)),
      session.HasBegun 2 eager 1 ∧ session.party.Valid ∧
      ((drive zeroBatch).run session).Ends ((.ok rounds, gates), driven) ∧
      driven.party.opened.size = 1 ∧
      ((settle rounds : Evaluation .f251 _ Unit).run.run driven).Ends (.ok (), session') ∧
      session'.party.config.openedThreshold = 1 ∧
      session'.stats = { batches := 1, rounds, macChecks := 1 } := by
  have first : IsMember 2 1 := ⟨by decide, by decide⟩
  have valid (i : PartyId) (member : IsMember 2 i) : eager.validate 2 i FieldSpec.f251.bits = .ok () :=
    Config.validate_threshold (by decide) member (by decide)
  obtain ⟨T, begun⟩ := Session.exists_hasBegun .f251 (by decide) (rfl : eager.strategy = .simulated 0) valid
  obtain ⟨deck, parties, -, aligned⟩ :=
    exists_deck_begun .f251 (by decide : 1 ≤ 2) (rfl : eager.strategy = .simulated 0)
  have start := aligned T begun
  have ready : ∀ request ∈ zeroOpening, request.Ready deck := by simp [zeroOpening, Request.Ready]
  have zero : deck.Authentic fun _ => 0 := IsSharing.zero.authentic
  have driven := aligned_afterDrive start ready
  obtain ⟨_, ⟨rounds, gates, -, rfl⟩, drives⟩ := (ensures_drive (.inl rfl) start
    (by simp [zeroOpening, Request.IsArithmetic]) ready).ends
  obtain ⟨_, rfl, settles⟩ := (ensures_settle driven rounds).ends
  have settings := start.inStep
  have reached := driven.inStep.config
  rw [parties] at drives settles reached
  obtain ⟨stats, nothing⟩ := (begun 1 first).blank
  have size : (afterDrive deck (fun _ => 0) zeroOpening T 1).party.opened.size = 1 := by
    simp [afterDrive, Request.effect, nothing, OpenedValues.size, zeroOpening, Request.allRecords,
      Request.records]
  have due : (afterDrive deck (fun _ => 0) zeroOpening T 1).isDue := by
    rw [isDue, OpenedValues.reaches, size, reached 1 first]
    rfl
  have passes : settlement 2 (afterDrive deck (fun _ => 0) zeroOpening T) = .ok () := by
    rw [← parties]
    exact (driven.settled rounds).passes ⟨trivial, by simp [zeroOpening, Request.Authentic, zero]⟩
  refine ⟨T 1, _, settled 2 rounds (afterDrive deck (fun _ => 0) zeroOpening T) 1, rounds, _,
    begun 1 first, ?_, drives 1 first, size, ?_, ?_⟩
  · have member : IsMember deck.parties 1 := parties.symm ▸ first
    rw [Party.Valid, settings.config 1 member, settings.parties 1 member, settings.id 1 member, parties]
    exact valid 1 first
  · rw [← passes]
    exact settles 1 first
  · rw [settlement, if_pos due] at passes
    rw [settled, if_pos due, passes]
    refine ⟨congrArg Config.openedThreshold (reached 1 first), ?_⟩
    simp [verified, countCheck, Session.driven, countBatch, afterDrive, stats]

/-- One opening reaches a threshold of one, so the batch is settled by a check.  It passes, and fewer
openings than one are pending. -/
theorem bounded_openings_of_two :
    ∃ (session driven session' : Session .f251 (Party.SimulatedSupplier .f251)) (rounds : Nat)
      (gates : List (Gate .f251)),
      session.HasBegun 2 eager 1 ∧ session.party.Valid ∧
      ((drive zeroBatch).run session).Ends ((.ok rounds, gates), driven) ∧
      driven.party.opened.size = 1 ∧
      ((([.runBatch zeroBatch] : List (Errand .f251 _)).mapM Errand.perform).run session).Ends
        ([.ok ()], session') ∧
      session'.stats = { batches := 1, rounds, macChecks := 1 } ∧
      session'.party.config.openedThreshold = 1 ∧
      session'.party.opened.size < session'.party.config.openedThreshold ∧
      (∃ outcome between, ((drive zeroBatch).run session).Ends ((outcome, gates), between) ∧
        between.Settles outcome (.ok ()) session') ∧
      0 < session'.party.config.openedThreshold := by
  obtain ⟨session, driven, session', rounds, gates, begun, valid, drives, size, settles, threshold, stats⟩ :=
    exists_opening_checked
  let errand : Errand .f251 (Party.SimulatedSupplier .f251) := .runBatch zeroBatch
  have keeps : errand.plan.KeepsValid := Library.keepsValid
  have batch : ((runBatch zeroBatch).run session).Ends ((.ok (), gates), session') := by
    rw [runBatch, StateT.run_bind]
    exact Exchange.ends_bind.mpr ⟨_, drives, Exchange.ends_bind.mpr ⟨_, settles, .done _⟩⟩
  have performed : (errand.perform.run session).Ends (.ok (), session') :=
    Exchange.ends_map.mpr ⟨_, batch, rfl⟩
  have ends : (([errand].mapM Errand.perform).run session).Ends ([.ok ()], session') :=
    ends_mapM_cons.mpr ⟨_, _, [], performed, .done _, rfl⟩
  obtain ⟨-, bound, batches⟩ := bounded_openings [] valid (by simp) (.done _)
  exact ⟨session, driven, session', rounds, gates, begun, valid, drives, size, ends, stats, threshold,
    (bound _ session' keeps performed).1, (batches _ session').1 _ _ batch,
    (bounded_openings _ valid (List.forall_mem_singleton.mpr keeps) ends).1⟩

end Session

end Spdz
