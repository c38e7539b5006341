import Spdz.Proofs.Simulation.Following
import Spdz.Proofs.Simulation.Steps

/-!
# A computation of all parties is the computation in plain

All parties follow one script with simulated items, and the same script is carried out in plain.  As
long as that has a meaning, no step fails for any party, what is shown is what was computed, and what
is kept are sharings of it.

* `Stands` — a step came to the same for all parties and in plain.
* `Together.ensures_carryOut` — a single step, for each kind of instruction.
* `Refines` — what all parties have after a step; **`Actor.refinement`**, they have it after each.
-/

namespace Spdz

variable {F : FieldSpec} {α : Type}

/-! ## Protocols of a script -/

namespace Request

variable {deck : Deck F} {config : Config} {drawn : Item → Nat} {requests : List (Request F)}

/-- A single protocol of a script goes well as its gate does. -/
theorem departs_scripted (declared : F.IsDeclared) {request : Request F} (ready : request.Ready deck)
    (authentic : request.Authentic deck) :
    Departs deck.parties (InStep deck config True) (InStep deck config True)
      (fun p : PartyId → ScriptedProtocol F => ∃ out : PartyId → Output F,
        (∀ i, IsMember deck.parties i → HasOutput.output (p i) = some (out i)) ∧
        request.Results deck drawn out)
      (request.left deck.parties) 0 (fun i => .gate (request.gate i)) (fun _ => []) drawn
      (request.after drawn) :=
  (request.departs declared ready fun _ : True => authentic).embed (fun _ _ => rfl)
    fun _ fulfilled => fulfilled

/-- The protocols of a script that all parties have for the requests of a batch. -/
def scripted (deck : Deck F) (drawn : Item → Nat) (requests : List (Request F)) :
    List (Entrant (ScriptedProtocol F)) :=
  (entrants deck drawn requests).map (Entrant.embed .gate)

theorem map_protocol_scripted (i : PartyId) :
    (scripted deck drawn requests).map (fun e => e.protocol i)
      = requests.map fun request => .gate (request.gate i) := by
  have gates : (entrants deck drawn requests).map (fun e => e.protocol i)
      = requests.map fun request => request.gate i := map_protocol_entrants requests i
  have wrapped := congrArg (List.map ScriptedProtocol.gate) gates
  rw [List.map_map, List.map_map] at wrapped
  rw [scripted, List.map_map]
  exact wrapped

theorem goAll_scripted (declared : F.IsDeclared)
    (ready : ∀ request ∈ requests, request.Ready deck)
    (authentic : ∀ request ∈ requests, request.Authentic deck) :
    Entrant.GoAll (InStep deck config True) (InStep deck config True) deck.parties 0
      (scripted deck drawn requests) drawn (afterAll drawn requests) :=
  (goAll_entrants declared ready fun _ => authentic).embed fun _ _ => rfl

theorem fresh_scripted : Entrant.Fresh (scripted deck drawn requests) :=
  List.forall_mem_map.mpr (fresh_entrants requests)

theorem longest_scripted_lt : Entrant.longest (scripted deck drawn requests) < maxRounds := by
  rw [scripted, Entrant.longest_embed]
  exact longest_entrants_lt requests

/-- What they show when all is well. -/
theorem exists_outputs_scripted {protocols : List (PartyId → ScriptedProtocol F)}
    (posts : List.Forall₂ (fun e p => e.post p) (scripted deck drawn requests) protocols) :
    ∃ outs, AllResults deck drawn requests outs ∧ ∀ i, IsMember deck.parties i →
      protocols.map (fun protocol => (protocol i).output) = outs.map fun out => some (out i) := by
  obtain ⟨gates, rfl, fulfilled⟩ := Entrant.of_forall₂_embed posts
  obtain ⟨outs, results, shown⟩ := exists_outputs fulfilled
  refine ⟨outs, results, fun i member => ?_⟩
  rw [← shown i member, List.map_map]
  rfl

end Request

/-! ## A single step -/

/-- A step came to the same for all parties and in plain. -/
structure Stands (deck : Deck F) (config : Config) (report : Plain.Report F) (plain : Plain F)
    (outcome : PartyId → Actor.Outcome F (Party.SimulatedSupplier F)) : Prop where
  shows : report.Shows deck.parties deck.key fun i => (outcome i).1
  together : Together deck config plain fun i => (outcome i).2

/-- Only members count. -/
theorem Stands.congr {deck : Deck F} {config : Config} {report : Plain.Report F} {plain : Plain F}
    {outcome outcome' : PartyId → Actor.Outcome F (Party.SimulatedSupplier F)}
    (stands : Stands deck config report plain outcome)
    (same : ∀ i, IsMember deck.parties i → outcome i = outcome' i) :
    Stands deck config report plain outcome' where
  shows := stands.shows.congr fun i member => congrArg Prod.fst (same i member)
  together := stands.together.congr fun i member => congrArg Prod.snd (same i member)

namespace Together

variable {deck : Deck F} {config : Config} {tape : Tape F} {plain plain' : Plain F}
  {A : PartyId → SimulatedActor F} {T : PartyId → Session F (Party.SimulatedSupplier F)}
  {drawn drawn' : Item → Nat} {keepAs : Option String}

/-- All sessions do something that succeeds. -/
theorem ensures_within (stage : ∀ i, IsMember deck.parties i → (A i).stage = .whole (T i))
    {work : PartyId → Evaluation F (Party.SimulatedSupplier F) α} {holds : (PartyId → α) → Prop}
    (ensures : Ensures deck.parties (fun i => (work i).run.run (T i))
      (Answered deck config drawn' holds))
    (entry : α → SimulatedActor F → Actor.Outcome F (Party.SimulatedSupplier F)) :
    Ensures deck.parties (fun i => (A i).within (work i) entry) fun outcome => ∃ answer T',
      (∀ i, IsMember deck.parties i →
        outcome i = entry (answer i) { A i with stage := .whole (T' i) }) ∧
      holds answer ∧ Aligned deck config True drawn' T' := by
  have going : Ensures deck.parties (fun i => (work i).run.run (T i) >>= fun result =>
      .done ((A i).concluded entry result)) fun outcome => ∃ answer T',
        (∀ i, IsMember deck.parties i →
          outcome i = entry (answer i) { A i with stage := .whole (T' i) }) ∧
        holds answer ∧ Aligned deck config True drawn' T' := by
    refine ensures.bind ?_
    rintro result ⟨answer, T', answers, holds, aligned⟩
    exact Ensures.done ⟨answer, T', fun i member =>
      congrArg (Actor.concluded entry (A i)) (answers i member), holds, aligned⟩
  exact going.congr fun i member => (Actor.within_whole (stage i member) (work i) entry).symm

/-- All sessions check what was opened. -/
theorem ensures_unit (together : Together deck config plain A)
    (stage : ∀ i, IsMember deck.parties i → (A i).stage = .whole (T i)) (counts : plain.Counts drawn)
    {work : Evaluation F (Party.SimulatedSupplier F) Unit}
    (ensures : Ensures deck.parties (fun i => work.run.run (T i))
      (Answered deck config drawn fun _ => True)) :
    Ensures deck.parties (fun i => (A i).within work fun _ => Actor.showOutput none .unit)
      (Stands deck config (.result .unit) plain) := by
  refine (ensures_within stage ensures fun _ => Actor.showOutput none .unit).weaken ?_
  rintro outcome ⟨_, T', same, -, aligned⟩
  have stands : Stands deck config (.result .unit) plain
      fun i => Actor.showOutput none .unit { A i with stage := .whole (T' i) } :=
    ⟨⟨_, fun _ _ => rfl, fun _ _ => rfl⟩, together.advance aligned counts rfl⟩
  exact stands.congr fun i member => (same i member).symm

/-- All parties compute by themselves. -/
theorem ensures_compute (together : Together deck config plain A) (going : plain.finished = false)
    {computation : Computation F} {v : Elem F} (value : plain.compute computation = some v) :
    Ensures deck.parties (fun i => (A i).carryOut keepAs (.compute computation))
      (Stands deck config (.result (.shared v)) (plain.keep keepAs (.shared v))) := by
  obtain ⟨T, drawn, stage, aligned, counts⟩ := together.session going
  obtain ⟨z, computed, sharing⟩ := together.compute aligned value
  have shows : (Plain.Result.shared v).Shows deck.parties deck.key fun i => .share (z i) :=
    ⟨z, fun _ _ => rfl, sharing⟩
  have stands : Stands deck config (.result (.shared v)) (plain.keep keepAs (.shared v))
      fun i => Actor.showOutput keepAs (.share (z i)) (A i) :=
    ⟨⟨_, fun _ _ => rfl, shows⟩, together.keep shows keepAs⟩
  refine Ensures.of_done (fun i member => ?_) stands
  simp only [Actor.carryOut, stage i member, computed i member, Actor.given]
  rfl

/-- All parties run a protocol. -/
theorem ensures_run (together : Together deck config plain A) (going : plain.finished = false)
    (declared : F.IsDeclared) (tells : tape.Tells deck) {protocol : Blueprint F}
    {result : Plain.Result F}
    (value : plain.evaluate deck.parties deck.length tape protocol = some (result, plain')) :
    Ensures deck.parties (fun i => (A i).carryOut keepAs (.run protocol))
      (Stands deck config (.result result) (plain'.keep keepAs result)) := by
  obtain ⟨T, drawn, stage, aligned, counts⟩ := together.session going
  obtain ⟨request, computes, built⟩ := together.build tells value
  have within := ensures_within stage (aligned.ensures_run
    (request.departs_scripted declared computes.ready computes.authentic) (request.rounds_lt deck.parties)
    fun _ shown => shown)
    (Actor.showOutput keepAs)
  refine (within.weaken ?_).congr fun i member => ?_
  · rintro outcome ⟨out, T', same, results, aligned'⟩
    have shows := computes.shows drawn counts out results
    have stands : Stands deck config (.result result) (plain'.keep keepAs result)
        fun i => Actor.showOutput keepAs (out i) { A i with stage := .whole (T' i) } :=
      ⟨⟨_, fun _ _ => rfl, shows⟩, (together.advance aligned' (computes.counts drawn counts)
        computes.kept).keep shows keepAs⟩
    exact stands.congr fun i member => (same i member).symm
  · rw [Actor.carryOut, built i member]
    rfl

/-- All parties run a batch whose results are collected. -/
theorem ensures_runAll (together : Together deck config plain A) (going : plain.finished = false)
    (declared : F.IsDeclared) (tells : tape.Tells deck) {parts : List (BatchPart F)}
    {results : List (Plain.Result F)}
    (value : Plain.evaluateAll deck.parties deck.length tape (parts.map (·.protocol)) plain
      = some (results, plain')) :
    Ensures deck.parties (fun i => (A i).carryOut keepAs (.runAll parts))
      (Stands deck config (.results results) (plain'.keepAll parts results)) := by
  obtain ⟨T, drawn, stage, aligned, counts⟩ := together.session going
  obtain ⟨requests, computes, built⟩ := together.buildAll tells value
  have outputs : ∀ p, List.Forall₂ (fun e p => e.post p) (Request.scripted deck drawn requests) p →
      ∃ out : PartyId → List (Output F), (∀ i, IsMember deck.parties i →
        (p.map fun p => p i).map HasOutput.output = (out i).map some) ∧
        ∃ outs : List (PartyId → Output F), (out = fun i => outs.map fun out => out i) ∧
          Request.AllResults deck drawn requests outs := by
    intro p posts
    obtain ⟨outs, all, shown⟩ := Request.exists_outputs_scripted posts
    refine ⟨fun i => outs.map fun out => out i, fun i member => ?_, outs, rfl, all⟩
    rw [List.map_map, List.map_map]
    exact shown i member
  have call := aligned.ensures_runAll
    (Request.goAll_scripted declared computes.ready computes.authentic) Request.fresh_scripted
    Request.longest_scripted_lt outputs
  have within := ensures_within stage call fun outputs actor =>
    (.outputs outputs, actor.keepOutputs parts (outputs.map some))
  refine (within.weaken ?_).congr fun i member => ?_
  · rintro outcome ⟨_, T', same, ⟨outs, rfl, all⟩, aligned'⟩
    have shows := computes.shows drawn counts outs all
    have stands : Stands deck config (.results results) (plain'.keepAll parts results) fun i =>
        (.outputs (outs.map fun out => out i), Actor.keepOutputs
          { A i with stage := .whole (T' i) } parts (outs.map fun out => some (out i))) :=
      ⟨⟨outs, fun _ _ => rfl, shows⟩, (together.advance aligned' (computes.counts drawn counts)
        computes.kept).keepAll shows⟩
    refine stands.congr fun i member => ?_
    rw [same i member, List.map_map]
    rfl
  · rw [Actor.carryOut, built i member, Request.map_protocol_scripted]
    rfl

/-- All parties run a batch and show its results. -/
theorem ensures_batch (together : Together deck config plain A) (going : plain.finished = false)
    (declared : F.IsDeclared) (tells : tape.Tells deck) {parts : List (BatchPart F)}
    {results : List (Plain.Result F)}
    (value : Plain.evaluateAll deck.parties deck.length tape (parts.map (·.protocol)) plain
      = some (results, plain')) :
    Ensures deck.parties (fun i => (A i).carryOut keepAs (.batch parts))
      (Stands deck config (.batch results) (plain'.keepAll parts results)) := by
  obtain ⟨T, drawn, stage, aligned, counts⟩ := together.session going
  obtain ⟨requests, computes, built⟩ := together.buildAll tells value
  have batch := aligned.ensures_runBatch
    (Request.goAll_scripted declared computes.ready computes.authentic) Request.fresh_scripted
    Request.longest_scripted_lt
  have going : Ensures deck.parties (fun i => (Session.runBatch
      ((Request.scripted deck drawn requests).map fun e => e.protocol i)).run (T i) >>= fun result =>
        .done ((A i).showBatch parts result))
      (Stands deck config (.batch results) (plain'.keepAll parts results)) := by
    refine batch.bind ?_
    rintro _ ⟨p, T', rfl, posts, aligned'⟩
    obtain ⟨outs, all, shown⟩ := Request.exists_outputs_scripted posts
    have shows := computes.shows drawn counts outs all
    have stands : Stands deck config (.batch results) (plain'.keepAll parts results) fun i =>
        (.batch (outs.map fun out => some (out i)) none, Actor.keepOutputs
          { A i with stage := .whole (T' i) } parts (outs.map fun out => some (out i))) :=
      ⟨⟨outs, fun _ _ => rfl, shows⟩, (together.advance aligned' (computes.counts drawn counts)
        computes.kept).keepAll shows⟩
    refine Ensures.done (stands.congr fun i member => ?_)
    simp only [Actor.showBatch, List.map_map, ← shown i member]
    rfl
  refine going.congr fun i member => ?_
  rw [Request.map_protocol_scripted]
  exact (Actor.batch_whole (stage i member) (built i member)).symm

/-- All parties finish. -/
theorem ensures_finish (together : Together deck config plain A) (going : plain.finished = false) :
    Ensures deck.parties (fun i => (A i).carryOut keepAs .finish)
      (Stands deck config .stats { plain with finished := true }) := by
  obtain ⟨T, drawn, stage, aligned, -⟩ := together.session going
  refine (ensures_within stage aligned.ensures_finish fun stats actor => (.stats stats, actor)).bind ?_
  rintro outcome ⟨stats, T', same, -⟩
  have stands : Stands deck config .stats { plain with finished := true }
      fun i => (.stats (stats i), { A i with stage := .gone }) :=
    ⟨⟨stats, fun _ _ => rfl⟩, ⟨together.seat, together.kept⟩, fun active => Bool.noConfusion active⟩
  refine Ensures.of_done (fun i member => ?_) stands
  rw [same i member]
  rfl

/-- **A step that has a meaning** succeeds for all parties. -/
theorem ensures_follow (together : Together deck config plain A) (declared : F.IsDeclared)
    (tells : tape.Tells deck) {step : Step F} {report : Plain.Report F}
    (value : plain.follow deck.parties deck.length tape step = some (report, plain')) :
    Ensures deck.parties (fun i => (A i).follow step) (Stands deck config report plain') := by
  obtain ⟨instruction, keepAs, only⟩ := step
  simp only [Plain.follow] at value
  split_ifs at value with excluded
  obtain ⟨going, all⟩ := not_or.mp excluded
  rw [Bool.not_eq_true] at going
  obtain rfl : only = none := not_not.mp all
  show Ensures deck.parties (fun i => (A i).carryOut keepAs instruction) _
  cases instruction with
  | compute computation =>
      simp only [Plain.carryOut, bind, Option.bind_eq_some_iff, pure, Option.some.injEq] at value
      obtain ⟨v, computed, same⟩ := value
      obtain ⟨rfl, rfl⟩ := Prod.mk.inj same
      exact together.ensures_compute going computed
  | call protocol =>
      simp only [Plain.carryOut, bind, Option.bind_eq_some_iff, pure, Option.some.injEq] at value
      obtain ⟨⟨result, plain₁⟩, evaluated, same⟩ := value
      obtain ⟨rfl, rfl⟩ := Prod.mk.inj same
      exact (together.ensures_run going declared tells evaluated).congr fun i _ =>
        ((A i).call_eq_run keepAs protocol).symm
  | run protocol =>
      simp only [Plain.carryOut, bind, Option.bind_eq_some_iff, pure, Option.some.injEq] at value
      obtain ⟨⟨result, plain₁⟩, evaluated, same⟩ := value
      obtain ⟨rfl, rfl⟩ := Prod.mk.inj same
      exact together.ensures_run going declared tells evaluated
  | runAll parts =>
      simp only [Plain.carryOut, bind, Option.bind_eq_some_iff, pure, Option.some.injEq] at value
      obtain ⟨⟨results, plain₁⟩, evaluated, same⟩ := value
      obtain ⟨rfl, rfl⟩ := Prod.mk.inj same
      exact together.ensures_runAll going declared tells evaluated
  | batch parts =>
      simp only [Plain.carryOut, bind, Option.bind_eq_some_iff, pure, Option.some.injEq] at value
      obtain ⟨⟨results, plain₁⟩, evaluated, same⟩ := value
      obtain ⟨rfl, rfl⟩ := Prod.mk.inj same
      exact together.ensures_batch going declared tells evaluated
  | macCheck =>
      obtain ⟨rfl, rfl⟩ := Prod.mk.inj (Option.some.inj value)
      obtain ⟨T, drawn, stage, aligned, counts⟩ := together.session going
      exact together.ensures_unit stage counts aligned.ensures_macCheck
  | checkpoint =>
      obtain ⟨rfl, rfl⟩ := Prod.mk.inj (Option.some.inj value)
      obtain ⟨T, drawn, stage, aligned, counts⟩ := together.session going
      exact together.ensures_unit stage counts aligned.ensures_checkpoint
  | finish =>
      obtain ⟨rfl, rfl⟩ := Prod.mk.inj (Option.some.inj value)
      exact together.ensures_finish going
  | _ => exact absurd value (by simp [Plain.carryOut])

end Together

/-! ## Whole scripts -/

/-- **Refines.**  What all parties have after a step: entries that show what the step came to, and
under the same names sharings of all values that are kept. -/
structure Refines {σ : Type} (n : Nat) (key : Elem F) (now : Plain.Report F × Plain F)
    (outcome : PartyId → Actor.Outcome F σ) : Prop where
  shows : now.1.Shows n key fun i => (outcome i).1
  kept : Keeps n key (fun i => (outcome i).2.kept) now.2.kept

/-- All steps of a script, by induction on the steps that are left. -/
theorem Together.ensures_perform {deck : Deck F} {config : Config} {tape : Tape F} {plain : Plain F}
    {A : PartyId → SimulatedActor F} (together : Together deck config plain A)
    (declared : F.IsDeclared) (tells : tape.Tells deck) {script : List (Step F)}
    {trace : List (Plain.Report F × Plain F)}
    (value : Plain.perform deck.parties deck.length tape script plain = some trace) :
    Ensures deck.parties (fun i => (A i).perform script) fun outcomes =>
      ∃ steps : List (PartyId → Actor.Outcome F (Party.SimulatedSupplier F)),
        (outcomes = fun i => steps.map fun outcome => outcome i) ∧
        List.Forall₂ (Refines deck.parties deck.key) trace steps := by
  induction script generalizing plain A trace with
  | nil =>
      obtain rfl : [] = trace := Option.some.inj value
      exact Ensures.done ⟨[], rfl, .nil⟩
  | cons step script ih =>
      simp only [Plain.perform, bind, Option.bind_eq_some_iff, pure, Option.some.injEq] at value
      obtain ⟨⟨report, plain'⟩, followed, later, rest, rfl⟩ := value
      refine (together.ensures_follow declared tells followed).bind fun outcome stands => ?_
      refine (ih stands.together rest).bind ?_
      rintro _ ⟨steps, rfl, refines⟩
      exact Ensures.done ⟨outcome :: steps, rfl, .cons ⟨stands.shows, stands.together.kept⟩ refines⟩

/-- **Refinement of the computation in plain.**  For parties with the same valid settings that
simulate their items, there are a key and a tape of random values such that the following holds of
all sessions that have just begun.  Their shares of the key add up to it.  Let all parties follow one
script that has a meaning in plain.  Then, however their steps are interleaved, they come to one and
the same end, and there is no deadlock on the way.  In the end nothing waits in the channels.  No
step has failed for any party, each has shown what was computed in plain, and after each the parties
keep sharings of what is kept in plain, authenticated by the key. -/
theorem Actor.refinement (declared : F.IsDeclared) {n : Nat} (one : 1 ≤ n) {config : Config}
    {seed : UInt8} (strategy : config.strategy = .simulated seed) :
    ∃ (key : Elem F) (tape : Tape F), (∀ k, tape.base k * tape.inverse k = 1) ∧
      ∀ T : PartyId → Session F (Party.SimulatedSupplier F),
        (∀ i, IsMember n i → (T i).HasBegun n config i) →
        ∑ i ∈ Finset.Icc 1 n, (T i).party.keyShare = key ∧
        ∀ (script : List (Step F)) (trace : List (Plain.Report F × Plain F)),
          Plain.perform n config.pipeLength tape script {} = some trace →
          ∃ (steps : List (PartyId → Actor.Outcome F (Party.SimulatedSupplier F)))
            (after : PartyId → PartyId → Link Unit),
            (Net.start n (fun i => (perform script ({ seat := ⟨i, n⟩, stage := .whole (T i) } :
                SimulatedActor F)).labelled ()) fun _ _ => {}).Inevitable
              (.ended n (fun i => steps.map fun outcome => outcome i) after) ∧
            (∀ i j, (after i j).waiting = []) ∧
            List.Forall₂ (Refines n key) trace steps := by
  obtain ⟨deck, rfl, length, begun⟩ := exists_deck_begun F one strategy
  obtain ⟨tape, tells⟩ := deck.exists_tape declared
  refine ⟨deck.key, tape, fun k => (tells.pipe k).1, fun T started => ?_⟩
  have aligned := begun T started
  constructor
  · rw [← deck.keys]
    refine Finset.sum_congr rfl fun i mem => ?_
    exact aligned.inStep.keyShare (Finset.mem_Icc.mp mem)
  · intro script trace value
    have together : Together deck config {} fun i =>
        { seat := ⟨i, deck.parties⟩, stage := .whole (T i) } :=
      ⟨⟨fun _ _ => rfl, .nil⟩, fun _ => ⟨T, _, fun _ _ => rfl, aligned, rfl, rfl, rfl⟩⟩
    rw [← length] at value
    obtain ⟨_, after, ⟨steps, rfl, refines⟩, inevitable, empty⟩ :=
      (together.ensures_perform declared tells value).inevitable
    exact ⟨steps, after, inevitable, empty, refines⟩

/-- Two inputs and their product, which is opened to all, and one of them to one party. -/
def productScript : List (Step .f251) :=
  [{ instruction := .call (.input 1 (.each [some 5])), keepAs := some "x" },
    { instruction := .run (.checkedInput 3 (.common (some 7))), keepAs := some "y" },
    { instruction := .call (.multiply (.kept "x") (.kept "y")), keepAs := some "product" },
    { instruction := .runAll [⟨.openAll (.kept "product"), none⟩, ⟨.openTo (.kept "x") 2, none⟩] },
    { instruction := .finish }]

/-- Three parties that have just begun follow the script, and each comes to know what it should. -/
theorem Actor.refinement_of_three : FieldSpec.f251.IsDeclared ∧ 1 ≤ 3 ∧
    ({} : Config).strategy = .simulated 0 ∧
    ∃ T : PartyId → Session .f251 (Party.SimulatedSupplier .f251),
      (∀ i, IsMember 3 i → (T i).HasBegun 3 {} i) ∧
      ∃ (outcomes : PartyId → List (Outcome .f251 (Party.SimulatedSupplier .f251)))
        (after : PartyId → PartyId → Link Unit),
        (Net.start 3 (fun i => (perform productScript ({ seat := ⟨i, 3⟩, stage := .whole (T i) } :
            SimulatedActor .f251)).labelled ()) fun _ _ => {}).Inevitable (.ended 3 outcomes after) ∧
        ∀ i, IsMember 3 i → ((outcomes i).map (·.1))[3]?
          = some (.outputs [.value 35, .target (if i = 2 then some 5 else none)]) := by
  obtain ⟨T, begun⟩ := Session.exists_hasBegun .f251 (by decide : 1 ≤ 3)
    (rfl : ({} : Config).strategy = .simulated 0) fun i => Config.validate_default (by decide)
  obtain ⟨key, tape, -, computes⟩ :=
    refinement (.inl rfl) (by decide : 1 ≤ 3) (rfl : ({} : Config).strategy = .simulated 0)
  obtain ⟨trace, value, reports⟩ : ∃ trace,
      Plain.perform 3 ({} : Config).pipeLength tape productScript {} = some trace ∧
        trace.map (·.1) = [.result (.shared 5), .result (.shared 7), .result (.shared 35),
          .results [.value 35, .target 2 5], .stats] := ⟨_, rfl, rfl⟩
  obtain ⟨steps, after, inevitable, -, refines⟩ := (computes T begun).2 productScript trace value
  have shown : List.Forall₂ (fun report outcome => report.Shows 3 key fun i => (outcome i).1)
      (trace.map (·.1)) steps :=
    List.forall₂_map_left_iff.mpr (refines.imp fun _ _ here => here.shows)
  rw [reports] at shown
  simp only [List.forall₂_cons_left_iff, List.forall₂_nil_left_iff] at shown
  obtain ⟨_, _, -, ⟨_, _, -, ⟨_, _, -, ⟨fourth, _, shows, ⟨_, _, -, rfl, rfl⟩, rfl⟩, rfl⟩, rfl⟩,
    rfl⟩ := shown
  obtain ⟨outs, entries, opened⟩ := shows
  refine ⟨.inl rfl, by decide, rfl, T, begun, _, after, inevitable, fun i member => ?_⟩
  simp only [List.forall₂_cons_left_iff, List.forall₂_nil_left_iff] at opened
  obtain ⟨value, _, toAll, ⟨target, _, toOne, rfl, rfl⟩, rfl⟩ := opened
  have entry := entries i member
  rw [List.map_cons, List.map_cons, List.map_nil, toAll i member, toOne i member] at entry
  exact congrArg some entry

end Spdz
