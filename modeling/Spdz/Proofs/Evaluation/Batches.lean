import Spdz.Proofs.Evaluation.Session
import Spdz.Proofs.Gates.Revealed

/-!
# Batches of all sessions

When all parties run batches in their sessions, nothing waits in the channels between two batches.  So
what they do from one such point to the next can be put together like what a single program does, and
nobody has to look at the network any more.

* `Concludes` — from empty channels all parties come to results and to empty channels again;
  `Concludes.bind` puts two such parts together.
* `Aligned` — the sessions are active and their parties in step.
* `Settled` — how a batch or a check may end for all parties.
* **`Aligned.concludes_runBatch`** — a batch of protocols that go well.
-/

namespace Spdz

variable {n : Nat} {Λ α β : Type} {Fits : Λ → Λ → Prop}

/-! ## From empty channels to empty channels -/

/-- **Concludes.**  If nothing waits in the channels, all parties come to results with `post` and then
nothing waits again.  What is taken meanwhile fits the calls that take it. -/
def Concludes (n : Nat) (Fits : Λ → Λ → Prop) (tree : PartyId → Labelled Λ α)
    (post : (PartyId → α) → Prop) : Prop :=
  ∀ taken, Entrant.AllFit Fits taken → ∃ result taken',
    Joint n tree (fun i j => ⟨[], taken i j⟩) result (fun i j => ⟨[], taken' i j⟩) ∧
      post result ∧ Entrant.AllFit Fits taken'

namespace Concludes

variable {tree tree' : PartyId → Labelled Λ α} {post post' : (PartyId → α) → Prop}

theorem pure {result : PartyId → α} (holds : post result) :
    Concludes n Fits (fun i => .done (result i)) post :=
  fun taken fit => ⟨result, taken, .pure _ _, holds, fit⟩

/-- One part after the other. -/
theorem bind {next : PartyId → α → Labelled Λ β} {final : (PartyId → β) → Prop}
    (first : Concludes n Fits tree post)
    (second : ∀ result, post result → Concludes n Fits (fun i => next i (result i)) final) :
    Concludes n Fits (fun i => tree i >>= next i) final := by
  intro taken fit
  obtain ⟨result, taken₁, run, holds, fit₁⟩ := first taken fit
  obtain ⟨result', taken₂, run', holds', fit₂⟩ := second result holds taken₁ fit₁
  exact ⟨result', taken₂, run.bind run', holds', fit₂⟩

/-- Only members count. -/
theorem congr (concludes : Concludes n Fits tree post) (same : ∀ i, IsMember n i → tree i = tree' i) :
    Concludes n Fits tree' post := by
  intro taken fit
  obtain ⟨result, taken', run, rest⟩ := concludes taken fit
  exact ⟨result, taken', run.congr same (fun _ _ _ _ => rfl) (fun _ _ => rfl) fun _ _ _ _ => rfl, rest⟩

theorem weaken (concludes : Concludes n Fits tree post) (weaker : ∀ result, post result → post' result) :
    Concludes n Fits tree post' := by
  intro taken fit
  obtain ⟨result, taken', run, holds, fit'⟩ := concludes taken fit
  exact ⟨result, taken', run, weaker result holds, fit'⟩

end Concludes

variable {F : FieldSpec} {σ P : Type}

/-- A batch of protocols that go well. -/
theorem Entrant.concludes {G : Type} [Protocol F σ P] {Inv Late : G → (PartyId → Party F σ) → Prop}
    {tag : (round position : Nat) → Λ} {E : List (Entrant P)} {g g' : G}
    (weaken : ∀ g S, Inv g S → Late g S) (go : Entrant.GoAll Inv Late n 0 E g g')
    {S : PartyId → Party F σ} (inv : Inv g S) (fresh : Fresh E) (short : longest E < maxRounds)
    (fitting : ∀ round position, Fits (tag (round + 1) position) (tag round position)) :
    Concludes n Fits (fun i => (driveRoundsTagged tag (E.map fun e => e.protocol i)).run (S i))
      fun result => ∃ (p : List (PartyId → P)) (S' : PartyId → Party F σ),
        result = (fun i => ((.ok (longest E), p.map fun p => p i), S' i)) ∧ Late g' S' ∧
          List.Forall₂ (fun e p => e.post p) E p := by
  intro taken fit
  obtain ⟨p, S', taken', run, late, posts, fit'⟩ :=
    joint_driveRounds tag weaken go inv fresh short fitting fit
  exact ⟨_, taken', run, ⟨p, S', rfl, late, posts⟩, fit'⟩

/-- A check of all parties by itself. -/
theorem MacCheck.concludes [Supplier F σ] {S : PartyId → Party F σ} (seated : Seated n S)
    {tag : (round position : Nat) → Λ}
    (fitting : ∀ round position, Fits (tag (round + 1) position) (tag round position)) :
    Concludes n Fits (fun i => (driveRoundsTagged tag [({} : MacCheck F)]).run (S i))
      fun result => result = fun i =>
        (((verdict n S).map fun _ => rounds n, [ended n S i]), checked n S i) := by
  intro taken fit
  refine ⟨_, _, joint_check seated tag taken, rfl, fun i j entry mem => ?_⟩
  rcases List.mem_append.mp mem with old | new
  · exact fit i j entry old
  · obtain ⟨round, -, posted⟩ := List.mem_flatMap.mp new
    cases round with
    | zero => simp [sentIn_zero] at posted
    | succ round =>
        obtain ⟨letter, here, rfl⟩ := List.mem_map.mp posted
        rw [label_of_mem_posted here]
        exact fitting round 0

/-! ## In sessions -/

namespace Session

variable {T : PartyId → Session F σ}

/-- Sessions that have not ended drive protocols. -/
theorem concludes_drive [Protocol F σ P] {tag : (round position : Nat) → Λ}
    {protocols : PartyId → List P} (active : ∀ i, IsMember n i → (T i).aborted = none)
    {post : (PartyId → (Except Error Nat × List P) × Party F σ) → Prop}
    (concludes : Concludes n Fits
      (fun i => (driveRoundsTagged tag (protocols i)).run (T i).party) post) :
    Concludes n Fits (fun i => (driveTagged tag (protocols i)).run (T i)) fun result =>
      ∃ given, post given ∧
        result = fun i => ((given i).1, (T i).driven (given i).1.1 (given i).2) := by
  refine Concludes.congr ?_ fun i member => (run_driveTagged tag (protocols i) (active i member)).symm
  exact concludes.bind fun given holds => .pure ⟨given, holds, rfl⟩

/-- The session once its party has checked what was opened. -/
def verified (verdict : Except Error Unit) (party : Party F σ) (session : Session F σ) :
    Session F σ :=
  match verdict with
  | .ok () => (session.driven (.ok ()) party).countCheck
  | .error e => session.driven (.error e : Except Error Unit) party

/-- Sessions that have not ended check what was opened. -/
theorem concludes_macCheck [Supplier F σ] {tag : Phase → (round position : Nat) → Λ}
    (active : ∀ i, IsMember n i → (T i).aborted = none)
    (seated : MacCheck.Seated n fun i => (T i).party)
    (fitting : ∀ phase round position,
      Fits (tag phase (round + 1) position) (tag phase round position)) :
    Concludes n Fits (fun i => (macCheckTagged tag).run (T i)) fun result =>
      result = fun i => (MacCheck.verdict n fun i => (T i).party,
        (T i).verified (MacCheck.verdict n fun i => (T i).party)
          (MacCheck.checked n (fun i => (T i).party) i)) := by
  refine (concludes_drive active (MacCheck.concludes seated (fitting .check))).bind ?_
  rintro _ ⟨_, rfl, rfl⟩
  cases MacCheck.verdict n fun i => (T i).party with
  | error e => exact .pure rfl
  | ok _ => exact .pure rfl

/-- How a batch of all parties is settled: by a check, if one is due. -/
def settlement [Supplier F σ] (n : Nat) (T : PartyId → Session F σ) : Except Error Unit :=
  if (T 1).isDue then MacCheck.verdict n fun i => (T i).party else .ok ()

/-- The sessions once it is settled. -/
def settled [Supplier F σ] (n rounds : Nat) (T : PartyId → Session F σ) (i : PartyId) :
    Session F σ :=
  if (T 1).isDue then
    ((T i).countBatch rounds).verified (MacCheck.verdict n fun i => (T i).party)
      (MacCheck.checked n (fun i => (T i).party) i)
  else (T i).countBatch rounds

/-- A check leaves the supplier alone. -/
theorem supplier_verified [Supplier F σ] (n : Nat) (verdict : Except Error Unit)
    (T : PartyId → Session F σ) (i : PartyId) :
    ((T i).verified verdict (MacCheck.checked n (fun i => (T i).party) i)).party.supplier
      = (T i).party.supplier := by
  cases verdict <;> rfl

theorem supplier_settled [Supplier F σ] (n rounds : Nat) (T : PartyId → Session F σ) (i : PartyId) :
    (settled n rounds T i).party.supplier = (T i).party.supplier := by
  rw [settled]
  split_ifs
  · exact supplier_verified n _ (fun i => (T i).countBatch rounds) i
  · rfl

/-- A check that fails ends the session. -/
theorem aborted_settled [Supplier F σ] {rounds : Nat} {e : Error} (fails : settlement n T = .error e)
    (i : PartyId) : (settled n rounds T i).aborted = some (e.category, e.message) := by
  rw [settlement] at fails
  split_ifs at fails with due
  rw [settled, if_pos due, fails]
  rfl

/-- Sessions that have not ended settle a batch, if a check is due for all or for none. -/
theorem concludes_settle [Supplier F σ] {tag : Phase → (round position : Nat) → Λ}
    (active : ∀ i, IsMember n i → (T i).aborted = none)
    (seated : MacCheck.Seated n fun i => (T i).party)
    (same : ∀ i, IsMember n i → (T i).isDue = (T 1).isDue) (rounds : Nat)
    (fitting : ∀ phase round position,
      Fits (tag phase (round + 1) position) (tag phase round position)) :
    Concludes n Fits (fun i => (settleTagged tag rounds).run (T i)) fun result =>
      result = fun i => (settlement n T, settled n rounds T i) := by
  by_cases due : (T 1).isDue
  · have checks := concludes_macCheck (T := fun i => (T i).countBatch rounds) active seated fitting
    refine Concludes.congr (checks.weaken ?_) fun i member => (if_pos (same i member ▸ due)).symm
    rintro _ rfl
    simp only [settlement, settled, if_pos due]
    rfl
  · refine Concludes.congr (.pure ?_) fun i member => (if_neg (same i member ▸ due)).symm
    simp only [settlement, settled, if_neg due]

end Session

/-! ## Sessions in step -/

/-- The sessions of all parties are active, and their parties are in step. -/
structure Aligned (deck : Deck F) (config : Config) (trusted : Prop) (drawn : Item → Nat)
    (T : PartyId → Session F (Party.SimulatedSupplier F)) : Prop where
  active : ∀ i, IsMember deck.parties i → (T i).aborted = none
  inStep : InStep deck config trusted drawn fun i => (T i).party

/-- A session that has just begun, of a party with simulated items. -/
def Session.HasBegun (n : Nat) (config : Config) (i : PartyId)
    (session : Session F (Party.SimulatedSupplier F)) : Prop :=
  ∃ entropy S, Party.simulated F i n config entropy = .ok S ∧
    Session.start S ⟨i, n⟩ = .ok session

theorem Session.HasBegun.exists_party {config : Config} {i : PartyId}
    {session : Session F (Party.SimulatedSupplier F)} (begun : session.HasBegun n config i) :
    ∃ entropy S, Party.simulated F i n config entropy = .ok S ∧ session = { party := S } := by
  obtain ⟨entropy, S, created, start⟩ := begun
  rw [Session.start] at start
  split_ifs at start
  exact ⟨entropy, S, created, (Except.ok.inj start).symm⟩

/-- A session that has just begun has done nothing, and its party has opened nothing. -/
theorem Session.HasBegun.blank {config : Config} {i : PartyId}
    {session : Session F (Party.SimulatedSupplier F)} (begun : session.HasBegun n config i) :
    session.stats = {} ∧ session.party.opened = {} := by
  obtain ⟨entropy, S, created, rfl⟩ := begun.exists_party
  refine ⟨rfl, ?_⟩
  rw [Party.simulated] at created
  split at created
  · cases created
  · cases valid : config.validate n i F.bits with
    | error e =>
        rw [valid] at created
        cases created
    | ok _ =>
        simp only [valid, Party.withGenerator, Party.create] at created
        cases created
        rfl

/-- Sessions can begin whenever the settings are valid. -/
theorem Session.exists_hasBegun (F : FieldSpec) (one : 1 ≤ n) {config : Config} {seed : UInt8}
    (strategy : config.strategy = .simulated seed)
    (valid : ∀ i, IsMember n i → config.validate n i F.bits = .ok ()) :
    ∃ T : PartyId → Session F (Party.SimulatedSupplier F),
      ∀ i, IsMember n i → (T i).HasBegun n config i := by
  have each : ∀ i, IsMember n i → ∃ session : Session F (Party.SimulatedSupplier F),
      session.HasBegun n config i := by
    intro i member
    have created : ∃ S, Party.simulated F i n config [] = .ok S ∧ S.id = i ∧ S.parties = n := by
      simp only [Party.simulated, strategy, valid i member, Party.withGenerator, Party.create, bind,
        Except.bind]
      exact ⟨_, rfl, rfl, rfl⟩
    obtain ⟨S, simulated, id, parties⟩ := created
    refine ⟨{ party := S }, [], S, simulated, ?_⟩
    rw [Session.start, if_neg]
    simp [id, parties]
  classical
  choose T begun using each
  have first : IsMember n 1 := ⟨le_rfl, one⟩
  refine ⟨fun i => if member : IsMember n i then T i member else T 1 first, fun i member => ?_⟩
  simp only [dif_pos member]
  exact begun i member

/-- The default settings are valid over the small field, with any threshold. -/
theorem Config.validate_threshold {i : PartyId} (two : 2 ≤ n) (member : IsMember n i) {threshold : Nat}
    (pos : 0 < threshold) :
    ({ openedThreshold := threshold } : Config).validate n i FieldSpec.f251.bits = .ok () := by
  have low : i ≠ 0 := Nat.one_le_iff_ne_zero.mp member.1
  have high : ¬ i > n := Nat.not_lt.mpr member.2
  simp [Config.validate, low, high, Nat.not_lt.mpr two, Nat.ne_of_gt pos]

theorem Config.validate_default {i : PartyId} (two : 2 ≤ n) (member : IsMember n i) :
    ({} : Config).validate n i FieldSpec.f251.bits = .ok () :=
  validate_threshold two member (by decide : 0 < 10000)

/-- **Sessions that have just begun are aligned**, if the parties of each group have the same settings.
Groups with equal seeds have their items from one deck. -/
theorem exists_deck_begun_of_seed (F : FieldSpec) (one : 1 ≤ n) (length : Nat) (seed : UInt8) :
    ∃ deck : Deck F, deck.parties = n ∧ deck.length = length ∧
      ∀ config : Config, config.strategy = .simulated seed → config.pipeLength = length →
        ∀ T : PartyId → Session F (Party.SimulatedSupplier F),
          (∀ i, IsMember n i → (T i).HasBegun n config i) →
          Aligned deck config True (fun _ => 0) T := by
  obtain ⟨deck, rfl, length, simulated⟩ := exists_deck_of_seed F one length seed
  refine ⟨deck, rfl, length, fun config strategy same T begun => ?_⟩
  have started : ∀ i, IsMember deck.parties i → (T i).aborted = none ∧ (T i).party.id = i ∧
      (T i).party.parties = deck.parties ∧ (T i).party.config = config ∧
      (T i).party.opened = {} ∧ Stocked deck i (fun _ => 0) (T i).party.supplier := by
    intro i member
    obtain ⟨entropy, S, created, whole⟩ := (begun i member).exists_party
    rw [whole]
    exact ⟨rfl, simulated config strategy same i entropy S created⟩
  refine ⟨fun i member => (started i member).1, fun i member => (started i member).2.1,
    fun i member => (started i member).2.2.1, fun i member => (started i member).2.2.2.1,
    fun i member => (started i member).2.2.2.2.2, [], fun i member => ?_, fun _ _ mem => ?_⟩
  · rw [(started i member).2.2.2.2.1]
    rfl
  · exact absurd mem List.not_mem_nil

/-- The same for one group. -/
theorem exists_deck_begun (F : FieldSpec) (one : 1 ≤ n) {config : Config} {seed : UInt8}
    (strategy : config.strategy = .simulated seed) :
    ∃ deck : Deck F, deck.parties = n ∧ deck.length = config.pipeLength ∧
      ∀ T : PartyId → Session F (Party.SimulatedSupplier F),
        (∀ i, IsMember n i → (T i).HasBegun n config i) →
        Aligned deck config True (fun _ => 0) T := by
  obtain ⟨deck, parties, length, begun⟩ := exists_deck_begun_of_seed F one config.pipeLength seed
  exact ⟨deck, parties, length, begun config strategy rfl⟩

/-- How a check or a batch may end for all parties.  It can only fail if what was opened cannot be
trusted, and then it does so for all. -/
structure Settled (deck : Deck F) (config : Config) (trusted : Prop) (drawn : Item → Nat)
    (verdict : Except Error Unit) (T : PartyId → Session F (Party.SimulatedSupplier F)) : Prop where
  known : verdict = .ok () ∨ verdict = .error .macCheckFailed
  passes : trusted → verdict = .ok ()
  aligned : verdict = .ok () → Aligned deck config trusted drawn T

namespace Aligned

variable {deck : Deck F} {config : Config} {trusted : Prop} {drawn : Item → Nat}
  {T : PartyId → Session F (Party.SimulatedSupplier F)} {tag : Phase → (round position : Nat) → Λ}

theorem seated (aligned : Aligned deck config trusted drawn T) :
    MacCheck.Seated deck.parties fun i => (T i).party :=
  fun i member => ⟨aligned.inStep.id i member, aligned.inStep.parties i member⟩

theorem imp {trusted' : Prop} (better : trusted' → trusted)
    (aligned : Aligned deck config trusted drawn T) : Aligned deck config trusted' drawn T :=
  ⟨aligned.active, aligned.inStep.imp better⟩

/-- Accounts do not matter. -/
theorem countBatch (aligned : Aligned deck config trusted drawn T) (rounds : Nat) :
    Aligned deck config trusted drawn fun i => (T i).countBatch rounds :=
  ⟨aligned.active, aligned.inStep⟩

/-- A check is due for all or for none. -/
theorem isDue_eq (aligned : Aligned deck config trusted drawn T) {i : PartyId}
    (member : IsMember deck.parties i) : (T i).isDue = (T 1).isDue := by
  obtain ⟨records, common, -⟩ := aligned.inStep.records
  have first : IsMember deck.parties 1 := ⟨le_rfl, deck.one⟩
  simp [Session.isDue, OpenedValues.reaches, OpenedValues.size, common i member, common 1 first,
    aligned.inStep.config i member, aligned.inStep.config 1 first]

/-- What a check makes of the sessions. -/
theorem verified (aligned : Aligned deck config trusted drawn T) :
    Settled deck config trusted drawn (MacCheck.verdict deck.parties fun i => (T i).party)
      fun i => (T i).verified (MacCheck.verdict deck.parties fun i => (T i).party)
        (MacCheck.checked deck.parties (fun i => (T i).party) i) := by
  refine ⟨?_, fun trust => ?_, fun passed => ⟨fun i member => ?_, ?_⟩⟩
  · rw [MacCheck.verdict]
    split_ifs
    · exact .inl rfl
    · exact .inr rfl
  · obtain ⟨values, sound⟩ := aligned.inStep.sound trust
    exact if_pos (MacCheck.discrepancy_eq_zero sound)
  · rw [passed]
    exact aligned.active i member
  · simp only [passed]
    exact aligned.inStep.drained.withRng _

/-- What is made of the sessions when a batch is settled. -/
theorem settled (aligned : Aligned deck config trusted drawn T) (rounds : Nat) :
    Settled deck config trusted drawn (Session.settlement deck.parties T)
      (Session.settled deck.parties rounds T) := by
  by_cases due : (T 1).isDue
  · have checks := (aligned.countBatch rounds).verified
    have same : Session.settled deck.parties rounds T = _ := funext fun i => if_pos due
    rw [Session.settlement, if_pos due, same]
    exact checks
  · have same : Session.settled deck.parties rounds T = _ := funext fun i => if_neg due
    rw [Session.settlement, if_neg due, same]
    exact ⟨.inl rfl, fun _ => rfl, fun _ => aligned.countBatch rounds⟩

/-- **A check** has the same verdict for all. -/
theorem concludes_macCheck (aligned : Aligned deck config trusted drawn T)
    (fitting : ∀ phase round position,
      Fits (tag phase (round + 1) position) (tag phase round position)) :
    Concludes deck.parties Fits (fun i => (Session.macCheckTagged tag).run (T i)) fun result =>
      ∃ verdict T', result = (fun i => (verdict, T' i)) ∧
        Settled deck config trusted drawn verdict T' :=
  (Session.concludes_macCheck aligned.active aligned.seated fitting).weaken
    fun _ same => ⟨_, _, same, aligned.verified⟩

/-- The account of a batch, with the check that may be due. -/
theorem concludes_settle (aligned : Aligned deck config trusted drawn T) (rounds : Nat)
    (fitting : ∀ phase round position,
      Fits (tag phase (round + 1) position) (tag phase round position)) :
    Concludes deck.parties Fits (fun i => (Session.settleTagged tag rounds).run (T i)) fun result =>
      ∃ verdict T', result = (fun i => (verdict, T' i)) ∧
        Settled deck config trusted drawn verdict T' :=
  (Session.concludes_settle aligned.active aligned.seated (fun _ => aligned.isDue_eq) rounds
    fitting).weaken fun _ same => ⟨_, _, same, aligned.settled rounds⟩

/-- **A batch of protocols that go well.**  All parties have what the protocols are to end with, and
the same verdict on what was opened. -/
theorem concludes_runBatch [Protocol F (Party.SimulatedSupplier F) P]
    (aligned : Aligned deck config True drawn T) {E : List (Entrant P)} {drawn' : Item → Nat}
    (go : Entrant.GoAll (InStep deck config True) (InStep deck config trusted) deck.parties 0 E drawn
      drawn')
    (fresh : Entrant.Fresh E) (short : Entrant.longest E < maxRounds)
    (fitting : ∀ phase round position,
      Fits (tag phase (round + 1) position) (tag phase round position)) :
    Concludes deck.parties Fits
      (fun i => (Session.runBatchTagged tag (E.map fun e => e.protocol i)).run (T i)) fun result =>
        ∃ verdict p T', result = (fun i => ((verdict, p.map fun p => p i), T' i)) ∧
          List.Forall₂ (fun e p => e.post p) E p ∧ Settled deck config trusted drawn' verdict T' := by
  have driven := Session.concludes_drive aligned.active (Entrant.concludes
    (fun _ _ inStep => inStep.weaken) go aligned.inStep fresh short (fitting .batch))
  refine driven.bind ?_
  rintro _ ⟨_, ⟨p, S', rfl, inStep, posts⟩, rfl⟩
  have going : Aligned deck config trusted drawn' fun i =>
      (T i).driven (.ok (Entrant.longest E) : Except Error Nat) (S' i) := ⟨aligned.active, inStep⟩
  refine (going.concludes_settle (Entrant.longest E) fitting).bind ?_
  rintro _ ⟨verdict, T', rfl, settled⟩
  exact .pure ⟨verdict, p, T', rfl, posts, settled⟩

end Aligned

end Spdz
