import Mathlib.Data.List.SplitLengths
import Spdz.Proofs.Evaluation.Legs

/-!
# Schedules

The same requests can be made in one batch, or one by one, or in any batches between, and checks can
be made after any of them or be forced by a threshold.  None of this changes what comes out, unless a
check fails.

* `Session.Leg.told` — the outputs of all requests, as the answers to the calls of a schedule.
* **`Session.Leg.ensures_schedule`** — how a schedule may end for all parties.
* **`Session.Leg.transparent`** — outputs, records and draws do not depend on the schedule.
* `Session.Leg.differ_for_two` — what depends on it: where a check fails, and what is in a batch with
  something that cannot be done.
-/

namespace Spdz

variable {F : FieldSpec}

namespace Session

namespace Leg

variable {deck : Deck F} {config : Config} {trusted : Prop} {drawn : Item → Nat}
  {T : Sessions F} {notes : Notes F}

/-! ## Schedules of all sessions -/

/-- What is requested in a schedule. -/
def allRequests (legs : List (Leg F)) : List (Request F) := legs.flatMap Leg.requests

/-- The outputs of all requests, as the answers to the calls of a schedule. -/
def told (legs : List (Leg F)) (outputs : List (Output F)) : List (Answer F) :=
  ((legs.map fun leg => (Leg.requests leg).length).splitLengths outputs).map fun part =>
    .ok (part.map some)

/-- The answer to a call after a check that has failed. -/
def refused : Answer F :=
  .error (.aborted Error.macCheckFailed.category Error.macCheckFailed.message)

theorem told_cons {leg : Leg F} {legs : List (Leg F)} {outputs others : List (Output F)}
    (all : outputs.length = leg.requests.length) :
    told (leg :: legs) (outputs ++ others) = .ok (outputs.map some) :: told legs others := by
  simp [told, ← all]

/-- All calls of a schedule have succeeded for all parties. -/
def AllSucceed (deck : Deck F) (config : Config) (trusted : Prop) (drawn : Item → Nat)
    (T : Sessions F) (notes : Notes F) (legs : List (Leg F))
    (result : Endings F (List (Answer F))) : Prop :=
  ∃ (notes' : Notes F) (T' : Sessions F),
    Served deck drawn T notes (allRequests legs) notes' T' ∧
      Aligned deck config (TrustedAfter deck trusted (allRequests legs))
        (Request.afterAll drawn (allRequests legs)) T' ∧
      ∀ i, IsMember deck.parties i → result i
        = ((told legs (Request.outcomes deck i drawn (allRequests legs)), notes' i), T' i)

/-- A check of a schedule has failed for all parties.  The calls before it have succeeded, those
after it were refused. -/
def OneFails (deck : Deck F) (trusted : Prop) (drawn : Item → Nat)
    (T : Sessions F) (notes : Notes F) (legs : List (Leg F))
    (result : Endings F (List (Answer F))) : Prop :=
  ¬ TrustedAfter deck trusted (allRequests legs) ∧
    ∃ (done : List (Leg F)) (leg : Leg F) (later : List (Leg F)) (notes' : Notes F) (T' : Sessions F),
      legs = done ++ leg :: later ∧
      Served deck drawn T notes (allRequests (done ++ [leg])) notes' T' ∧
      ∀ i, IsMember deck.parties i → result i
        = ((told done (Request.outcomes deck i drawn (allRequests legs))
              ++ .error .macCheckFailed :: later.map fun _ => refused, notes' i), T' i)

section Parts

variable {leg : Leg F} {legs : List (Leg F)} {notes' : Notes F} {T' : Sessions F}
  {result : Endings F (List (Answer F))}

/-- The result of a schedule that has begun with a call. -/
abbrev precede (answer : PartyId → Answer F) (result : Endings F (List (Answer F))) :
    Endings F (List (Answer F)) :=
  fun i => ((answer i :: (result i).1.1, (result i).1.2), (result i).2)

theorem trustedAfter_cons : TrustedAfter deck trusted (allRequests (leg :: legs)) ↔
    TrustedAfter deck (TrustedAfter deck trusted leg.requests) (allRequests legs) := by
  rw [TrustedAfter, allRequests, List.flatMap_cons, List.forall_mem_append, ← and_assoc]
  rfl

/-- The outputs of a call, and those of the calls after it. -/
theorem told_outcomes_cons (i : PartyId) (next : List (Leg F)) :
    told (leg :: next) (Request.outcomes deck i drawn (allRequests (leg :: legs)))
      = .ok ((Request.outcomes deck i drawn leg.requests).map some) :: told next
          (Request.outcomes deck i (Request.afterAll drawn leg.requests) (allRequests legs)) := by
  rw [allRequests, List.flatMap_cons, Request.outcomes_append]
  exact told_cons (Request.length_outcomes ..)

theorem AllSucceed.cons (served : Served deck drawn T notes leg.requests notes' T')
    (later : AllSucceed deck config (TrustedAfter deck trusted leg.requests)
      (Request.afterAll drawn leg.requests) T' notes' legs result) :
    AllSucceed deck config trusted drawn T notes (leg :: legs)
      (precede (fun i => .ok ((Request.outcomes deck i drawn leg.requests).map some)) result) := by
  obtain ⟨notes'', T'', served', aligned, ended⟩ := later
  refine ⟨notes'', T'', served.append served', ?_, fun i member => ?_⟩
  · rw [allRequests, List.flatMap_cons, Request.afterAll_append]
    exact aligned.imp trustedAfter_cons.mp
  · rw [precede, ended i member, told_outcomes_cons]

theorem OneFails.cons (served : Served deck drawn T notes leg.requests notes' T')
    (later : OneFails deck (TrustedAfter deck trusted leg.requests)
      (Request.afterAll drawn leg.requests) T' notes' legs result) :
    OneFails deck trusted drawn T notes (leg :: legs)
      (precede (fun i => .ok ((Request.outcomes deck i drawn leg.requests).map some)) result) := by
  obtain ⟨distrust, done, failing, later, notes'', T'', rfl, served', ended⟩ := later
  refine ⟨mt trustedAfter_cons.mp distrust, leg :: done, failing, later, notes'', T'', rfl,
    served.append served', fun i member => ?_⟩
  rw [precede, ended i member, told_outcomes_cons]
  rfl

/-- The calls after a check that has failed are refused. -/
theorem OneFails.head (served : Served deck drawn T notes leg.requests notes' T')
    (distrust : ¬ TrustedAfter deck trusted leg.requests) :
    OneFails deck trusted drawn T notes (leg :: legs) fun i =>
      ((.error .macCheckFailed :: legs.map fun _ => refused, notes' i), T' i) := by
  refine ⟨fun trust => distrust (trustedAfter_cons.mp trust).1, [], leg, legs, notes', T', rfl, ?_,
    fun _ _ => rfl⟩
  simpa [allRequests] using served

end Parts

/-- **How schedules end.** -/
theorem ensures_schedule (declared : F.IsDeclared) (aligned : Aligned deck config trusted drawn T)
    {legs : List (Leg F)} (arithmetic : ∀ request ∈ allRequests legs, request.IsArithmetic)
    (ready : ∀ request ∈ allRequests legs, request.Ready deck) :
    Ensures deck.parties (fun i => ((legs.mapM (performNoted i)).run (notes i)).run (T i))
      fun result => AllSucceed deck config trusted drawn T notes legs result ∨
        OneFails deck trusted drawn T notes legs result := by
  induction legs generalizing trusted drawn T notes with
  | nil => exact Ensures.done (.inl ⟨notes, T, .nil, aligned.imp And.left, fun _ _ => rfl⟩)
  | cons leg legs ih =>
      obtain ⟨arithmetic, laterArithmetic⟩ := List.forall_mem_append.mp arithmetic
      obtain ⟨ready, laterReady⟩ := List.forall_mem_append.mp ready
      simp only [run_cons]
      refine (ensures_performNoted declared aligned arithmetic ready).bind ?_
      rintro result ⟨notes', T', served, succeeds | fails⟩
      · obtain ⟨aligned', succeeds⟩ := succeeds
        have later : Ensures deck.parties
            (fun i => ((legs.mapM (performNoted i)).run (notes' i)).run (T' i)) _ :=
          ih aligned' laterArithmetic laterReady
        have going : Ensures deck.parties
            (fun i => ((legs.mapM (performNoted i)).run (notes' i)).run (T' i)
              >>= fun ((answers, notes), session) => .done
                ((.ok ((Request.outcomes deck i drawn leg.requests).map some) :: answers, notes), session))
            fun result => AllSucceed deck config trusted drawn T notes (leg :: legs) result ∨
              OneFails deck trusted drawn T notes (leg :: legs) result :=
          later.bind fun _ ends => Ensures.done (ends.imp (.cons served) (.cons served))
        refine going.congr fun i member => ?_
        rw [succeeds i member]
      · obtain ⟨distrust, fails⟩ := fails
        refine Ensures.of_done (fun i member => ?_) (.inr (.head served distrust))
        obtain ⟨failed, aborted⟩ := fails i member
        rw [failed]
        simp only [run_mapM_of_aborted i aborted]
        rfl

/-- What is ensured of a schedule with notes is also what the sessions come to without them. -/
theorem inevitable_schedule {n : Nat} {legs : List (Leg F)} {post : (Endings F (List (Answer F))) → Prop}
    (ensures : Ensures n (fun i => ((legs.mapM (performNoted i)).run []).run (T i)) post) :
    ∃ (result : Endings F (List (Answer F)))
      (after : PartyId → PartyId → Link Unit), post result ∧
      (Net.start n (fun i => (((legs.mapM (performNoted i)).run []).run (T i)).labelled ())
        fun _ _ => {}).Inevitable (.ended n result after) ∧
      (Net.start n (fun i => ((legs.mapM (perform i)).run (T i)).labelled ())
        fun _ _ => {}).Inevitable (.ended n (fun i => ((result i).1.1, (result i).2)) after) ∧
      ∀ i j, (after i j).waiting = [] := by
  obtain ⟨result, after, holds, noted, plain, empty⟩ :=
    ensures.inevitable_map fun result => (result.1.1, result.2)
  have erased : ∀ i, (fun result => (result.1.1, result.2)) <$>
      ((legs.mapM (performNoted i)).run []).run (T i) = (legs.mapM (perform i)).run (T i) := fun i =>
    Noted.Erases.mapM (fun leg => erases_performNoted leg) legs [] (T i)
  simp only [erased] at plain
  exact ⟨result, after, holds, noted, plain, empty⟩

/-- **How batches are cut and where checks are made does not matter.**  For all sessions with simulated
items that have the seed and the length of pipes in common, whatever their other settings are, there is
a deck such that the following holds of those that have just begun, and of any that are aligned.  Let
there be requests that give no party a reason to fail, and let all parties make them in the order
given, by one schedule: in batches of any sizes, with checks between them or without.  Then, however
the parties' steps are interleaved, they come to one and the same end.

Each request has the same output at each party in every schedule, the same openings are recorded in the
same order, and the supplier is left in the same state, unless a check fails.  Then it has been like this
before that check, and all calls after it are refused.  No check fails if what is opened or multiplied
are sharings that are authenticated. -/
theorem transparent (declared : F.IsDeclared) {n : Nat} (one : 1 ≤ n) (length : Nat) (seed : UInt8) :
    ∃ deck : Deck F, deck.parties = n ∧ deck.length = length ∧
      (∀ config : Config, config.strategy = .simulated seed → config.pipeLength = length →
        ∀ T : Sessions F,
          (∀ i, IsMember n i → (T i).HasBegun n config i) →
          Aligned deck config True (fun _ => 0) T) ∧
      ∀ (drawn : Item → Nat) (requests : List (Request F)),
        (∀ request ∈ requests, request.IsArithmetic ∧ request.Ready deck) →
        ∀ (config : Config) (T : Sessions F),
          Aligned deck config True drawn T →
        ∀ legs : List (Leg F), allRequests legs = requests →
        ∃ (answers : PartyId → List (Answer F)) (notes : Notes F)
          (T' : Sessions F)
          (after : PartyId → PartyId → Link Unit),
          (Net.start n (fun i => (((legs.mapM (performNoted i)).run []).run (T i)).labelled ())
              fun _ _ => {}).Inevitable (.ended n (fun i => ((answers i, notes i), T' i)) after) ∧
          (Net.start n (fun i => ((legs.mapM (perform i)).run (T i)).labelled ())
              fun _ _ => {}).Inevitable (.ended n (fun i => (answers i, T' i)) after) ∧
          (∀ i j, (after i j).waiting = []) ∧
          ((∀ i, IsMember n i →
              answers i = told legs (Request.outcomes deck i drawn requests) ∧
              notes i = (Request.allRecords deck drawn requests).map (fun record => record.ofParty i) ∧
              (T' i).party.supplier = Request.supplyAll requests (T i).party.supplier) ∨
            (¬ ∀ request ∈ requests, request.Authentic deck) ∧
              ∃ (done : List (Leg F)) (leg : Leg F) (later : List (Leg F)), legs = done ++ leg :: later ∧
                ∀ i, IsMember n i →
                  answers i = told done (Request.outcomes deck i drawn requests)
                    ++ .error .macCheckFailed :: later.map (fun _ => refused) ∧
                  notes i = (Request.allRecords deck drawn (allRequests (done ++ [leg]))).map
                    (fun record => record.ofParty i) ∧
                  (T' i).party.supplier
                    = Request.supplyAll (allRequests (done ++ [leg])) (T i).party.supplier) := by
  obtain ⟨deck, rfl, length, begun⟩ := exists_deck_begun_of_seed F one length seed
  refine ⟨deck, rfl, length, begun, ?_⟩
  rintro drawn _ fine config T aligned legs rfl
  obtain ⟨result, after, ends, noted, plain, empty⟩ := inevitable_schedule
    (ensures_schedule declared aligned (fun request mem => (fine request mem).1)
      fun request mem => (fine request mem).2)
  refine ⟨fun i => (result i).1.1, fun i => (result i).1.2, fun i => (result i).2, after, noted, plain,
    empty, ?_⟩
  obtain ⟨notes', T', served, -, ended⟩ | ⟨distrust, done, leg, later, notes', T', rfl, served, ended⟩ := ends
  · refine .inl fun i member => ?_
    have here := ended i member
    exact ⟨congrArg (·.1.1) here, (congrArg (·.1.2) here).trans (served.noted i member),
      (congrArg (·.2.party.supplier) here).trans (served.supplier i member)⟩
  · refine .inr ⟨fun authentic => distrust ⟨trivial, authentic⟩, done, leg, later, rfl, fun i member => ?_⟩
    have here := ended i member
    exact ⟨congrArg (·.1.1) here, (congrArg (·.1.2) here).trans (served.noted i member),
      (congrArg (·.2.party.supplier) here).trans (served.supplier i member)⟩

/-- **Comes to.**  However the steps of the parties are interleaved, they end with these answers. -/
def ComesTo (n : Nat) (legs : List (Leg F)) (T : Sessions F)
    (answers : PartyId → List (Answer F)) : Prop :=
  ∃ (answers' : PartyId → List (Answer F)) (T' : Sessions F)
    (after : PartyId → PartyId → Link Unit),
    (Net.start n (fun i => ((legs.mapM (perform i)).run (T i)).labelled ())
      fun _ _ => {}).Inevitable (.ended n (fun i => (answers' i, T' i)) after) ∧
    ∀ i, IsMember n i → answers' i = answers i

theorem ComesTo.congr {n : Nat} {legs : List (Leg F)} {answers answers' : PartyId → List (Answer F)}
    (comes : ComesTo n legs T answers) (same : ∀ i, IsMember n i → answers i = answers' i) :
    ComesTo n legs T answers' := by
  obtain ⟨result, T', after, run, ended⟩ := comes
  exact ⟨result, T', after, run, fun i member => (ended i member).trans (same i member)⟩

/-- Requests of several kinds. -/
def scheduled : List (Request .f251) :=
  [.input 1 fun i => if i = 1 then some (.ofNat _ 7) else none, .multiply (fun _ => 0) fun _ => 0,
    .openAll fun _ => 0, .element, .known 3]

/-- They are made in one batch. -/
def atOnce : List (Leg .f251) := [.runAll scheduled]

/-- They are made in smaller batches, with checks between them. -/
def inParts : List (Leg .f251) :=
  [.runBatch (scheduled.take 2), .macCheck, .run (.openAll fun _ => 0), .checkpoint,
    .runAll (scheduled.drop 3)]

/-- Three parties come to the same outputs in both ways, also if each opening is checked at once. -/
theorem transparent_of_three : FieldSpec.f251.IsDeclared ∧ 1 ≤ 3 ∧
    ∃ T T' : Sessions .f251,
      (∀ i, IsMember 3 i → (T i).HasBegun 3 {} i) ∧
      (∀ i, IsMember 3 i → (T' i).HasBegun 3 { openedThreshold := 1 } i) ∧
      ∃ outputs : PartyId → List (Output .f251),
        ComesTo 3 atOnce T (fun i => told atOnce (outputs i)) ∧
        ComesTo 3 inParts T' (fun i => told inParts (outputs i)) := by
  obtain ⟨T, begun⟩ := exists_hasBegun .f251 (by decide : 1 ≤ 3) (rfl : ({} : Config).strategy = _)
    fun i member => Config.validate_default (by decide) member
  obtain ⟨T', begun'⟩ := exists_hasBegun .f251 (by decide : 1 ≤ 3)
    (rfl : ({ openedThreshold := 1 } : Config).strategy = _)
    fun i member => Config.validate_threshold (by decide) member (by decide)
  obtain ⟨deck, parties, -, aligned, agrees⟩ :=
    transparent (.inl rfl : FieldSpec.f251.IsDeclared) (by decide : 1 ≤ 3) 200 0
  have zero : deck.Authentic fun _ => 0 := IsSharing.zero.authentic
  have fine : ∀ request ∈ scheduled, request.IsArithmetic ∧ request.Ready deck := by
    simp [scheduled, Request.IsArithmetic, Request.Ready, parties, IsMember]
  have authentic : ∀ request ∈ scheduled, request.Authentic deck := by
    simp [scheduled, Request.Authentic, zero]
  have comes : ∀ (config : Config) (T : Sessions .f251),
      Aligned deck config True (fun _ => 0) T → ∀ legs, allRequests legs = scheduled →
      ComesTo 3 legs T fun i => told legs (Request.outcomes deck i (fun _ => 0) scheduled) := by
    intro config T aligned legs all
    obtain ⟨answers, _, T', after, -, run, -, same | ⟨distrust, -⟩⟩ :=
      agrees _ scheduled fine config T aligned legs all
    · exact ⟨answers, T', after, run, fun i member => (same i member).1⟩
    · exact absurd authentic distrust
  exact ⟨.inl rfl, by decide, T, T', begun, begun', _, comes {} T (aligned {} rfl rfl T begun) atOnce rfl,
    comes _ T' (aligned _ rfl rfl T' begun') inParts rfl⟩

/-! ## Where schedules differ -/

/-- What is ensured of the answers of a schedule, its parties come to. -/
theorem comesTo_of_ensures {n : Nat} {legs : List (Leg F)} {answers : PartyId → List (Answer F)}
    (ensures : Ensures n (fun i => ((legs.mapM (performNoted i)).run []).run (T i))
      fun result => ∀ i, IsMember n i → (result i).1.1 = answers i) : ComesTo n legs T answers := by
  obtain ⟨result, after, same, -, run, -⟩ := inevitable_schedule ensures
  exact ⟨_, _, after, run, same⟩

section Checks

variable (leg : Leg F) (declared : F.IsDeclared) (aligned : Aligned deck config trusted drawn T)
  (batch : leg.IsBatch) (arithmetic : ∀ request ∈ leg.requests, request.IsArithmetic)
  (ready : ∀ request ∈ leg.requests, request.Ready deck)

include declared aligned batch arithmetic ready

/-- A batch that meets no check, or one that passes, has all outputs. -/
theorem comesTo_outcomes
    (passes : settlement deck.parties (afterDrive deck drawn leg.requests T) = .ok ()) :
    ComesTo deck.parties [leg] T
      fun i => [.ok ((Request.outcomes deck i drawn leg.requests).map some)] := by
  refine comesTo_of_ensures ?_
  simp only [run_cons]
  refine (ensures_told declared aligned batch arithmetic ready).bind ?_
  rintro result ⟨rounds, ended⟩
  refine Ensures.done fun i member => ?_
  rw [ended i member, passes]
  rfl

/-- After a batch whose check fails nothing more is done. -/
theorem comesTo_refused (legs : List (Leg F))
    (fails : settlement deck.parties (afterDrive deck drawn leg.requests T) = .error .macCheckFailed) :
    ComesTo deck.parties (leg :: legs) T
      fun _ => .error .macCheckFailed :: legs.map fun _ => refused := by
  refine comesTo_of_ensures ?_
  simp only [run_cons]
  refine (ensures_told declared aligned batch arithmetic ready).bind ?_
  rintro result ⟨rounds, ended⟩
  let after (i : PartyId) : (List (Answer F) × List (OpenedValue F)) × Session F _ :=
    ((.error .macCheckFailed :: legs.map fun _ => refused, (result i).1.2),
      settled deck.parties rounds (afterDrive deck drawn leg.requests T) i)
  have all : ∀ i, IsMember deck.parties i →
      (after i).1.1 = .error .macCheckFailed :: legs.map fun _ => refused := fun _ _ => rfl
  refine Ensures.of_done (fun i member => ?_) all
  rw [ended i member, fails]
  simp only [run_mapM_of_aborted i (aborted_settled fails i), after, ended i member]
  rfl

/-- After a batch that meets no check another one fails. -/
theorem comesTo_outcomes_then {next : Leg F} {e : Error}
    (fails : next.FailsAtOnce (Party.SimulatedSupplier F) e)
    (passes : settlement deck.parties (afterDrive deck drawn leg.requests T) = .ok ()) :
    ComesTo deck.parties [leg, next] T
      fun i => [.ok ((Request.outcomes deck i drawn leg.requests).map some), .error e] := by
  refine comesTo_of_ensures ?_
  simp only [run_cons, bind_assoc]
  refine (ensures_told declared aligned batch arithmetic ready).bind ?_
  rintro result ⟨rounds, ended⟩
  have settles := ((aligned_afterDrive aligned ready).settled rounds).aligned passes
  have active : ∀ i, IsMember deck.parties i → (result i).2.aborted = none := fun i member => by
    rw [ended i member]
    exact settles.active i member
  refine (fails.ensures active).bind ?_
  rintro result' failed
  refine Ensures.done fun i member => ?_
  rw [ended i member, failed i member, passes]
  rfl

end Checks

theorem comesTo_error {n : Nat} {leg : Leg F} {e : Error}
    (fails : leg.FailsAtOnce (Party.SimulatedSupplier F) e)
    (active : ∀ i, IsMember n i → (T i).aborted = none) :
    ComesTo n [leg] T fun _ => [.error e] := by
  refine comesTo_of_ensures ?_
  simp only [run_cons]
  refine (fails.ensures active).bind ?_
  rintro result failed
  refine Ensures.done fun i member => ?_
  rw [failed i member]
  rfl

/-- Shares of zero of which one has a wrong mac. -/
def tampered (i : PartyId) : Share .f251 := ⟨0, if i = 1 then 1 else 0⟩

/-- A session of one of two parties, just begun. -/
def young (threshold : Nat) (i : PartyId) : Session .f251 (Party.SimulatedSupplier .f251) where
  party :=
    { id := i, parties := 2, config := { openedThreshold := threshold }
      supplier :=
        { party := i, parties := 2, keyShare := (DealerFactory.new .f251 2 i 0).keyShare
          batchSize := 16, pipeLength := 200, seed := (ChaCha.fill 32 (ChaCha.ofSeed [])).1
          factory := DealerFactory.new .f251 2 i 0 }
      rng := (ChaCha.fill 32 (ChaCha.ofSeed [])).2 }

theorem hasBegun_young {threshold : Nat} (pos : 0 < threshold) {i : PartyId} (member : IsMember 2 i) :
    (young threshold i).HasBegun 2 { openedThreshold := threshold } i := by
  have valid := Config.validate_threshold (le_refl 2) member pos
  refine ⟨[], (young threshold i).party, ?_, ?_⟩
  · simp only [Party.simulated, valid, Party.withGenerator, Party.create, bind, Except.bind]
    rfl
  · rw [Session.start, if_neg]
    · rfl
    · simp [young]

/-- The coin of a young session. -/
theorem coinOf_young (threshold : Nat) (i : PartyId) :
    MacCheck.coinOf (young threshold i).party = .ofNat .f251 51 := MacCheck.random_fill

/-- Its opening leaves a discrepancy. -/
theorem discrepancy_young (deck : Deck .f251) :
    MacCheck.discrepancy 2 (fun i =>
      (afterDrive deck (fun _ => 0) [.openAll tampered] (young 1) i).party) ≠ 0 := by
  have zero : deck.opened tampered = 0 := by
    simp [Deck.opened, tampered]
  have coins : ∑ i ∈ Finset.Icc 1 2, MacCheck.coinOf (young 1 i).party = Elem.ofNat .f251 102 := by
    simp only [coinOf_young]
    decide
  have records : ∀ i, (afterDrive deck (fun _ => 0) [.openAll tampered] (young 1) i).party.opened.toList
      = [⟨tampered i, 0⟩] := fun i => by
    rw [← zero]
    rfl
  have share : ∀ i, MacCheck.discrepancyShare 2 (fun i =>
      (afterDrive deck (fun _ => 0) [.openAll tampered] (young 1) i).party) i
      = if i = 1 then MacCheck.coefficient (.ofNat .f251 102) 0 else 0 := fun i => by
    rw [← coins, MacCheck.discrepancyShare, records]
    simp [MacCheck.combination, MacCheck.macAt, MacCheck.valueAt, tampered]
    rfl
  have member : 1 ∈ Finset.Icc 1 2 := Finset.mem_Icc.mpr ⟨le_rfl, by decide⟩
  rw [MacCheck.discrepancy, Finset.sum_congr rfl fun i _ => share i, Finset.sum_ite_eq', if_pos member]
  exact MacCheck.coefficient_ne_zero

/-- To a party that does not exist nothing can be opened. -/
theorem openTo_failsAtOnce (x : PartyId → Share F) :
    (Leg.run (.openTo x 0)).FailsAtOnce (Party.SimulatedSupplier F) (.preprocessing (.noSuchParty 0)) where
  batch := trivial
  any := List.cons_ne_nil _ _
  fails _ _ := ⟨_, _, rfl⟩

theorem known_openTo_failsAtOnce (value : Elem F) (x : PartyId → Share F) :
    (Leg.runAll [.known value, .openTo x 0]).FailsAtOnce (Party.SimulatedSupplier F)
      (.preprocessing (.noSuchParty 0)) where
  batch := trivial
  any := List.cons_ne_nil _ _
  fails _ _ := ⟨_, _, rfl⟩

/-- **Where schedules differ.**  Of two parties one has a wrong mac, and the shares are opened twice.  In
one batch with no check after it both openings have their outputs.  If each opening is checked at once,
the first check fails, and nothing is opened after it.  And if something cannot be done, nothing else of
its batch has an output, but what is in a batch before it has. -/
theorem differ_for_two :
    (∀ i, IsMember 2 i → (young 10000 i).HasBegun 2 {} i) ∧
    (∀ i, IsMember 2 i → (young 1 i).HasBegun 2 { openedThreshold := 1 } i) ∧
    (∀ i, (young 1 i).party.supplier = (young 10000 i).party.supplier) ∧
    ComesTo 2 [.runAll [.openAll tampered, .openAll tampered]] (young 10000)
      (fun _ => [.ok [some (.value 0), some (.value 0)]]) ∧
    ComesTo 2 [.run (.openAll tampered), .run (.openAll tampered)] (young 1)
      (fun _ => [.error .macCheckFailed, refused]) ∧
    ComesTo 2 [.run (.known 1), .run (.openTo tampered 0)] (young 10000)
      (fun i => [.ok [some (.share (.ofPublic 1 (young 10000 i).party.keyShare i))],
        .error (.preprocessing (.noSuchParty 0))]) ∧
    ComesTo 2 [.runAll [.known 1, .openTo tampered 0]] (young 10000)
      (fun _ => [.error (.preprocessing (.noSuchParty 0))]) := by
  obtain ⟨deck, parties, -, begun⟩ := exists_deck_begun_of_seed .f251 (by decide : 1 ≤ 2) 200 0
  have aligned : ∀ threshold, 0 < threshold → Aligned deck { openedThreshold := threshold } True
      (fun _ => 0) (young threshold) := fun threshold pos =>
    begun { openedThreshold := threshold } rfl rfl _ fun i member => hasBegun_young pos member
  have zero : deck.opened tampered = 0 := by
    simp [Deck.opened, tampered]
  have shared : ∀ i, IsMember 2 i → deck.keyShare i = (young 10000 i).party.keyShare := fun i member =>
    ((aligned 10000 (by decide)).inStep.keyShare (parties.symm ▸ member)).symm
  have declared : FieldSpec.f251.IsDeclared := .inl rfl
  have unchecked : ∀ requests : List (Request .f251),
      ((Request.allRecords deck (fun _ => 0) requests).map fun record => record.ofParty 1).length < 10000 →
      settlement deck.parties (afterDrive deck (fun _ => 0) requests (young 10000)) = .ok () :=
    fun requests few => if_neg (by
      simpa [Session.isDue, OpenedValues.reaches, OpenedValues.size, afterDrive, Request.effect, young]
        using few)
  have fails : settlement deck.parties (afterDrive deck (fun _ => 0) [.openAll tampered] (young 1))
      = .error .macCheckFailed := by
    have due : (afterDrive deck (fun _ => 0) [.openAll tampered] (young 1) 1).isDue := by
      simp [Session.isDue, OpenedValues.reaches, OpenedValues.size, afterDrive, Request.effect, young,
        Request.allRecords, Request.records]
    rw [settlement, if_pos due, MacCheck.verdict, parties]
    exact if_neg (discrepancy_young deck)
  refine ⟨fun i member => hasBegun_young (by decide) member, fun i member => hasBegun_young (by decide) member,
    fun _ => rfl, ?_, ?_, ?_, ?_⟩
  · have both : ComesTo deck.parties [.runAll [.openAll tampered, .openAll tampered]] (young 10000) _ :=
      comesTo_outcomes _ declared (aligned 10000 (by decide)) trivial
        (by simp [Leg.requests, Request.IsArithmetic]) (by simp [Leg.requests, Request.Ready])
        (unchecked _ (by simp [Leg.requests, Request.allRecords, Request.records]))
    rw [parties] at both
    refine both.congr fun i _ => ?_
    simp [Leg.requests, Request.outcomes, Request.outcome, zero]
  · have first : ComesTo deck.parties [.run (.openAll tampered), .run (.openAll tampered)] (young 1) _ :=
      comesTo_refused (.run (.openAll tampered)) declared (aligned 1 (by decide)) trivial
        (by simp [Leg.requests, Request.IsArithmetic]) (by simp [Leg.requests, Request.Ready])
        [.run (.openAll tampered)] fails
    rw [parties] at first
    exact first
  · have first : ComesTo deck.parties [.run (.known 1), .run (.openTo tampered 0)] (young 10000) _ :=
      comesTo_outcomes_then (.run (.known 1)) declared (aligned 10000 (by decide)) trivial
        (by simp [Leg.requests, Request.IsArithmetic]) (by simp [Leg.requests, Request.Ready])
        (openTo_failsAtOnce tampered)
        (unchecked _ (by simp [Leg.requests, Request.allRecords, Request.records]))
    rw [parties] at first
    refine first.congr fun i member => ?_
    simp [Leg.requests, Request.outcomes, Request.outcome, shared i member]
  · rw [← parties]
    exact comesTo_error (known_openTo_failsAtOnce 1 tampered) (aligned 10000 (by decide)).active

end Leg

end Session

end Spdz
