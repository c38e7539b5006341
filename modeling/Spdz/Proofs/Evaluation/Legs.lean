import Spdz.Proofs.Evaluation.Aborting
import Spdz.Proofs.Evaluation.Calls
import Spdz.Proofs.Evaluation.Noted
import Spdz.Proofs.Gates.Outcomes

/-!
# The calls of a schedule

Requests can be made in batches whose results are collected or not, or one by one, and checks can be
made between them.  All of these calls are one step of the parties: they draw what the requests need and
record what these open, and then all of them succeed, or a check fails for all.

* `Session.Leg` — a call; `Leg.perform`, what the session does; `Leg.performNoted`, the same with notes.
* **`Session.Leg.erases_performNoted`** — without notes it is the same.
* `Session.Served`, `Session.Leg.Ends` — what all parties have done, and how a call may end for them.
* **`Session.Leg.ensures_performNoted`** — calls end like this.
-/

namespace Spdz

variable {F : FieldSpec} {σ : Type}

namespace Session

/-! ## Calls -/

/-- A call of a schedule: for some of the requests, or for a check. -/
inductive Leg (F : FieldSpec) where
  | runBatch (requests : List (Request F))
  | runAll (requests : List (Request F))
  | run (request : Request F)
  | macCheck
  | checkpoint

/-- What a caller gets: an error, or what there is of the results of the requests. -/
abbrev Answer (F : FieldSpec) := Except Error (List (Option (Output F)))

/-- The sessions of all parties. -/
abbrev Sessions (F : FieldSpec) := PartyId → Session F (Party.SimulatedSupplier F)

/-- What all parties have noted. -/
abbrev Notes (F : FieldSpec) := PartyId → List (OpenedValue F)

/-- What all parties end with: something, their notes and their sessions. -/
abbrev Endings (F : FieldSpec) (α : Type) :=
  PartyId → (α × List (OpenedValue F)) × Session F (Party.SimulatedSupplier F)

namespace Leg

/-- What is requested. -/
def requests : Leg F → List (Request F)
  | runBatch requests | runAll requests => requests
  | run request => [request]
  | macCheck | checkpoint => []

/-- The protocols that a party has for it. -/
def gates (i : PartyId) (leg : Leg F) : List (Gate F) := leg.requests.map fun request => request.gate i

section Performing

variable [Supplier F σ] (i : PartyId)

/-- What a session does. -/
def perform : Leg F → Sessional F σ (Answer F)
  | runBatch requests => do
    let (result, gates) ← Session.runBatch (requests.map fun request => request.gate i)
    return result.map fun _ => gates.map Gate.output
  | runAll requests =>
    (·.map (·.map some)) <$> (Session.runAll (requests.map fun request => request.gate i) :
      Evaluation F σ (List (Output F))).run
  | run request =>
    (·.map ([some ·])) <$> (Session.run (request.gate i) : Evaluation F σ (Output F)).run
  | macCheck => (·.map fun _ => []) <$> (Session.macCheck : Evaluation F σ Unit).run
  | checkpoint => (·.map fun _ => []) <$> (Session.checkpoint : Evaluation F σ Unit).run

/-- What the caller gets when a batch has ended. -/
def answer (leg : Leg F) (result : Except Error Unit) (gates : List (Gate F)) : Answer F :=
  match leg with
  | runAll _ => (result >>= fun _ => gates.mapM outputOf).map (·.map some)
  | run request => (result >>= fun _ => outputOf (gates.headD (request.gate i))).map ([some ·])
  | _ => result.map fun _ => gates.map Gate.output

/-- What a session does, with notes of what the protocols record. -/
def performNoted : Leg F → Noted F σ (Answer F)
  | macCheck => liftM (macCheck.perform i : Sessional F σ (Answer F))
  | checkpoint => liftM (checkpoint.perform i : Sessional F σ (Answer F))
  | leg => do
    let (result, gates) ← runBatchNoted (leg.gates i)
    return leg.answer i result gates

/-- The calls that are batches. -/
def IsBatch : Leg F → Prop
  | runBatch _ | runAll _ | run _ => True
  | macCheck | checkpoint => False

variable {i} {leg : Leg F}

/-- All batches are one method, with different answers. -/
theorem perform_eq (batch : leg.IsBatch) : (leg.perform i : Sessional F σ (Answer F)) = (do
    let (result, gates) ← Session.runBatch (leg.gates i)
    return leg.answer i result gates) := by
  cases leg with
  | runBatch requests => rfl
  | runAll requests =>
      refine StateT.ext fun session => ?_
      rw [perform, StateT.run_map, run_runAll, map_bind]
      rfl
  | run request =>
      refine StateT.ext fun session => ?_
      rw [perform, StateT.run_map, run_run, map_bind]
      rfl
  | macCheck | checkpoint => exact batch.elim

theorem performNoted_eq (batch : leg.IsBatch) : (leg.performNoted i : Noted F σ (Answer F)) = (do
    let (result, gates) ← runBatchNoted (leg.gates i)
    return leg.answer i result gates) := by
  cases leg with
  | runBatch _ | runAll _ | run _ => rfl
  | macCheck | checkpoint => exact batch.elim

/-- **Without notes this is what the session does.** -/
theorem erases_performNoted (leg : Leg F) :
    (leg.performNoted i : Noted F σ (Answer F)).Erases (leg.perform i) := by
  have batches : leg.IsBatch → (leg.performNoted i : Noted F σ (Answer F)).Erases (leg.perform i) := by
    intro batch
    rw [perform_eq batch, performNoted_eq batch]
    exact (erases_runBatchNoted _).bind fun _ => .pure _
  cases leg with
  | runBatch _ | runAll _ | run _ => exact batches trivial
  | macCheck | checkpoint => exact .lift _

theorem answer_error (e : Error) (gates : List (Gate F)) : leg.answer i (.error e) gates = .error e := by
  cases leg <;> rfl

/-- If all went well, the caller gets what the protocols have. -/
theorem answer_ok {gates : List (Gate F)} {outputs : List (Output F)}
    (shown : gates.map Gate.output = outputs.map some)
    (all : outputs.length = leg.requests.length) :
    leg.answer i (.ok ()) gates = .ok (outputs.map some) := by
  cases leg with
  | runBatch _ | macCheck | checkpoint => exact congrArg Except.ok shown
  | runAll requests =>
      have collected : gates.mapM outputOf = .ok outputs := mapM_outputOf shown
      exact congrArg (Except.map (·.map some)) collected
  | run request =>
      obtain ⟨output, rfl⟩ := List.length_eq_one_iff.mp all
      obtain ⟨gate, rfl, has⟩ := List.map_eq_singleton_iff.mp shown
      have shown : HasOutput.output gate = some output := has
      have result : outputOf gate = .ok output := by rw [outputOf, shown]
      exact congrArg (Except.map ([some ·])) result

/-- **Fails at once.**  In the first round of a batch a protocol fails, whatever its party has. -/
structure FailsAtOnce (σ : Type) [Supplier F σ] (leg : Leg F) (e : Error) : Prop where
  batch : leg.IsBatch
  any : leg.requests ≠ []
  fails : ∀ (i : PartyId) (S : Party F σ), ∃ slots S',
    (Slot.advance 0 ((leg.gates i).map fun protocol => { protocol })).run S
      = .done ((.error e, slots), S')

theorem FailsAtOnce.performNoted {e : Error} (fails : leg.FailsAtOnce σ e) {session : Session F σ}
    (active : session.aborted = none) (notes : List (OpenedValue F)) :
    ∃ result, ((leg.performNoted i).run notes).run session = .done result ∧ result.1.1 = .error e := by
  obtain ⟨slots, S, first⟩ := fails.fails i session.party
  have gates : leg.gates i ≠ [] := by simpa [Leg.gates] using fails.any
  rw [performNoted_eq fails.batch, StateT.run_bind, StateT.run_bind, run_runBatchNoted,
    run_drive_of_fails active gates first]
  exact ⟨_, rfl, answer_error e _⟩

variable (i)

/-! ## Schedules -/

/-- The calls of a schedule are made one after the other. -/
theorem run_cons (leg : Leg F) (legs : List (Leg F)) (notes : List (OpenedValue F))
    (session : Session F σ) :
    (((leg :: legs).mapM (performNoted i)).run notes).run session
      = ((leg.performNoted i).run notes).run session >>= fun ((answer, notes), session) =>
          ((legs.mapM (performNoted i)).run notes).run session >>= fun ((answers, notes), session) =>
            .done ((answer :: answers, notes), session) := by
  rw [List.mapM_cons]
  rfl

variable {session : Session F σ} {category : Category} {cause : String}

theorem run_performNoted_of_aborted (aborted : session.aborted = some (category, cause))
    (notes : List (OpenedValue F)) (leg : Leg F) :
    ((leg.performNoted i).run notes).run session
      = .done ((.error (.aborted category cause), notes), session) := by
  have batches : leg.IsBatch → ((leg.performNoted i).run notes).run session
      = .done ((.error (.aborted category cause), notes), session) := by
    intro batch
    rw [performNoted_eq batch, StateT.run_bind, StateT.run_bind, run_runBatchNoted,
      run_drive_of_ended _ (ended_of_aborted aborted)]
    have nothing : notes ++ session.party.opened.toList.drop session.party.opened.size = notes := by
      simp [OpenedValues.size]
    refine (congrArg (fun noted => Exchange.done
      ((leg.answer i (.error (.aborted category cause)) (leg.gates i), noted), session)) nothing).trans ?_
    rw [answer_error]
  cases leg with
  | runBatch _ | runAll _ | run _ => exact batches trivial
  | macCheck =>
      have refuses : Refuses (macCheck.perform i : Sessional F σ (Answer F)) :=
        refuses_macCheck.map fun _ => rfl
      rw [performNoted, Noted.run_lift, refuses session category cause aborted]
      rfl
  | checkpoint =>
      have refuses : Refuses (checkpoint.perform i : Sessional F σ (Answer F)) :=
        refuses_checkpoint.map fun _ => rfl
      rw [performNoted, Noted.run_lift, refuses session category cause aborted]
      rfl

/-- A session that has ended does nothing more. -/
theorem run_mapM_of_aborted (aborted : session.aborted = some (category, cause))
    (notes : List (OpenedValue F)) (legs : List (Leg F)) :
    ((legs.mapM (performNoted i)).run notes).run session
      = .done ((legs.map fun _ => .error (.aborted category cause), notes), session) := by
  induction legs with
  | nil => rfl
  | cons leg legs ih =>
      rw [run_cons, run_performNoted_of_aborted i aborted]
      exact congrArg (· >>= fun ((answers, notes), session) =>
        .done ((.error (.aborted category cause) :: answers, notes), session)) ih

end Performing

end Leg

/-! ## Batches of all sessions -/

section Joint

variable {deck : Deck F} {config : Config} {trusted : Prop} {drawn : Item → Nat}
  {T : Sessions F} {notes : Notes F}
  {requests : List (Request F)}

/-- The sessions of all parties when the protocols of a batch have been driven. -/
def afterDrive (deck : Deck F) (drawn : Item → Nat) (requests : List (Request F))
    (T : Sessions F) (i : PartyId) :
    Session F (Party.SimulatedSupplier F) :=
  { T i with party := Request.effect deck drawn requests (fun i => (T i).party) i }

theorem aligned_afterDrive (aligned : Aligned deck config trusted drawn T)
    (ready : ∀ request ∈ requests, request.Ready deck) :
    Aligned deck config (trusted ∧ ∀ request ∈ requests, request.Authentic deck)
      (Request.afterAll drawn requests) (afterDrive deck drawn requests T) :=
  ⟨aligned.active, Request.inStep_effect ready aligned.inStep⟩

/-- All parties settle a batch alike. -/
theorem ensures_settle (aligned : Aligned deck config trusted drawn T) (rounds : Nat) :
    Ensures deck.parties
      (fun i => (settle rounds : Evaluation F (Party.SimulatedSupplier F) Unit).run.run (T i))
      fun result => result = fun i => (settlement deck.parties T, settled deck.parties rounds T i) := by
  have settles : Concludes deck.parties (fun _ _ : Unit => True)
      (fun i => (settleTagged (fun _ _ _ => ()) rounds).run (T i)) _ :=
    concludes_settle aligned.active aligned.seated (fun _ => aligned.isDue_eq) rounds fun _ _ _ => trivial
  simp only [settleTagged_unit] at settles
  exact settles

/-- **What driving a batch leads to.** -/
theorem ensures_drive (declared : F.IsDeclared) (aligned : Aligned deck config trusted drawn T)
    (arithmetic : ∀ request ∈ requests, request.IsArithmetic)
    (ready : ∀ request ∈ requests, request.Ready deck) :
    Ensures deck.parties (fun i => (drive (requests.map fun request => request.gate i)).run (T i))
      fun result => ∃ (rounds : Nat) (gates : List (PartyId → Gate F)),
        (∀ i, IsMember deck.parties i → gates.map (fun gate => (gate i).output)
          = (Request.outcomes deck i drawn requests).map some) ∧
        result = fun i => ((.ok rounds, gates.map fun gate => gate i),
          afterDrive deck drawn requests T i) := by
  let E := Request.travellers deck drawn requests
  have untrusted : InStep deck config False drawn fun i => (T i).party :=
    aligned.inStep.imp False.elim
  have rounds : Concludes deck.parties (fun _ _ : Unit => True)
      (fun i => (driveRoundsTagged (fun _ _ => ()) (requests.map fun request => request.gate i)).run
        (T i).party)
      fun result => ∃ gates : List (PartyId → Gate F),
        List.Forall₂ (fun e p => e.post p) (Traveller.entrants E) gates ∧
        result = fun i => ((.ok (Entrant.longest (Traveller.entrants E)), gates.map fun gate => gate i),
          Request.effect deck drawn requests (fun i => (T i).party) i) := by
    intro taken fit
    obtain ⟨gates, S', taken', run, ⟨rfl, -⟩, posts, fit'⟩ := Traveller.joint_driveRounds
      (fun _ _ => ()) (Request.goAll_travellers declared arithmetic ready untrusted)
      ⟨rfl, drawn, untrusted⟩ Request.fresh_travellers Request.longest_travellers_lt (fun _ _ => trivial) fit
    refine ⟨_, taken', ?_, ⟨gates, posts, rfl⟩, fit'⟩
    simp only [Request.map_protocol_travellers, Request.passage_travellers] at run
    exact run
  have driven := concludes_drive aligned.active rounds
  simp only [driveTagged_unit] at driven
  refine Concludes.weaken driven ?_
  rintro _ ⟨_, ⟨gates, posts, rfl⟩, rfl⟩
  exact ⟨_, gates, fun i member => Request.outcomes_of_posts posts member, rfl⟩

/-- **What a batch leads to**, with the check that may be due after it. -/
theorem ensures_runBatchNoted (declared : F.IsDeclared) (aligned : Aligned deck config trusted drawn T)
    (arithmetic : ∀ request ∈ requests, request.IsArithmetic)
    (ready : ∀ request ∈ requests, request.Ready deck) :
    Ensures deck.parties
      (fun i => ((runBatchNoted (requests.map fun request => request.gate i)).run (notes i)).run (T i))
      fun result => ∃ (rounds : Nat) (gates : List (PartyId → Gate F)),
        (∀ i, IsMember deck.parties i → gates.map (fun gate => (gate i).output)
          = (Request.outcomes deck i drawn requests).map some) ∧
        result = fun i => (((settlement deck.parties (afterDrive deck drawn requests T),
            gates.map fun gate => gate i),
          notes i ++ (Request.allRecords deck drawn requests).map fun record => record.ofParty i),
          settled deck.parties rounds (afterDrive deck drawn requests T) i) := by
  have driven := aligned_afterDrive aligned ready
  simp only [run_runBatchNoted]
  refine (ensures_drive declared aligned arithmetic ready).bind ?_
  rintro _ ⟨rounds, gates, shown, rfl⟩
  refine Ensures.bind (ensures_settle driven rounds) ?_
  rintro _ rfl
  refine Ensures.done ⟨rounds, gates, shown, funext fun i => ?_⟩
  have added : (afterDrive deck drawn requests T i).party.opened.toList.drop (T i).party.opened.size
      = (Request.allRecords deck drawn requests).map fun record => record.ofParty i :=
    List.drop_left
  rw [added]

/-- **Served.**  All parties have drawn what requests need, and have noted what they open. -/
structure Served (deck : Deck F) (drawn : Item → Nat)
    (T : Sessions F) (notes : Notes F)
    (requests : List (Request F)) (notes' : Notes F)
    (T' : Sessions F) : Prop where
  noted : ∀ i, IsMember deck.parties i → notes' i
    = notes i ++ (Request.allRecords deck drawn requests).map fun record => record.ofParty i
  supplier : ∀ i, IsMember deck.parties i →
    (T' i).party.supplier = Request.supplyAll requests (T i).party.supplier

theorem Served.nil : Served deck drawn T notes [] notes T where
  noted _ _ := (List.append_nil _).symm
  supplier _ _ := rfl

theorem Served.append {notes' notes'' : Notes F}
    {T' T'' : Sessions F} {others : List (Request F)}
    (first : Served deck drawn T notes requests notes' T')
    (second : Served deck (Request.afterAll drawn requests) T' notes' others notes'' T'') :
    Served deck drawn T notes (requests ++ others) notes'' T'' where
  noted i member := by
    rw [second.noted i member, first.noted i member, Request.allRecords_append, List.map_append,
      List.append_assoc]
  supplier i member := by
    rw [second.supplier i member, first.supplier i member, Request.supplyAll_append]

/-- What can be trusted after the requests. -/
abbrev TrustedAfter (deck : Deck F) (trusted : Prop) (requests : List (Request F)) : Prop :=
  trusted ∧ ∀ request ∈ requests, request.Authentic deck

namespace Leg

/-- The call has succeeded for all parties. -/
def Succeeds (deck : Deck F) (config : Config) (trusted : Prop) (drawn : Item → Nat)
    (leg : Leg F) (notes' : Notes F)
    (T' : Sessions F) (result : Endings F (Answer F)) : Prop :=
  Aligned deck config (TrustedAfter deck trusted leg.requests) (Request.afterAll drawn leg.requests) T' ∧
    ∀ i, IsMember deck.parties i → result i
      = ((.ok ((Request.outcomes deck i drawn leg.requests).map some), notes' i), T' i)

/-- The call has ended with a check that has failed for all parties. -/
def Fails (deck : Deck F) (trusted : Prop) (leg : Leg F) (notes' : Notes F)
    (T' : Sessions F) (result : Endings F (Answer F)) : Prop :=
  ¬ TrustedAfter deck trusted leg.requests ∧ ∀ i, IsMember deck.parties i →
    result i = ((.error .macCheckFailed, notes' i), T' i) ∧
      (T' i).aborted = some (Error.macCheckFailed.category, Error.macCheckFailed.message)

/-- How a call may end for all parties.  It can only fail in a check, and only if what was opened cannot
be trusted. -/
def Ends (deck : Deck F) (config : Config) (trusted : Prop) (drawn : Item → Nat)
    (T : Sessions F) (notes : Notes F)
    (leg : Leg F) (result : Endings F (Answer F)) : Prop :=
  ∃ (notes' : Notes F) (T' : Sessions F),
    Served deck drawn T notes leg.requests notes' T' ∧
      (leg.Succeeds deck config trusted drawn notes' T' result ∨ leg.Fails deck trusted notes' T' result)

/-- **What a call that is a batch leads to**, with the check that may be due after it. -/
theorem ensures_told (declared : F.IsDeclared) (aligned : Aligned deck config trusted drawn T)
    {leg : Leg F} (batch : leg.IsBatch)
    (arithmetic : ∀ request ∈ leg.requests, request.IsArithmetic)
    (ready : ∀ request ∈ leg.requests, request.Ready deck) :
    Ensures deck.parties (fun i => ((leg.performNoted i).run (notes i)).run (T i))
      fun result => ∃ rounds, ∀ i, IsMember deck.parties i → result i
        = (((settlement deck.parties (afterDrive deck drawn leg.requests T)).map fun _ =>
              (Request.outcomes deck i drawn leg.requests).map some,
            notes i ++ (Request.allRecords deck drawn leg.requests).map fun record => record.ofParty i),
          settled deck.parties rounds (afterDrive deck drawn leg.requests T) i) := by
  have performed : ∀ i, ((leg.performNoted i).run (notes i)).run (T i)
      = ((runBatchNoted (leg.requests.map fun request => request.gate i)).run (notes i)).run (T i)
          >>= fun (((result, gates), notes), session) =>
            .done ((leg.answer i result gates, notes), session) := fun i => by
    rw [performNoted_eq batch]
    rfl
  simp only [performed]
  refine (ensures_runBatchNoted declared aligned arithmetic ready).bind ?_
  rintro _ ⟨rounds, gates, shown, rfl⟩
  refine Ensures.done ⟨rounds, fun i member => ?_⟩
  have has : (gates.map fun gate => gate i).map Gate.output
      = (Request.outcomes deck i drawn leg.requests).map some :=
    (List.map_map ..).trans (shown i member)
  cases settlement deck.parties (afterDrive deck drawn leg.requests T) with
  | error e => simp only [answer_error, Except.map]
  | ok _ => simp only [answer_ok has (Request.length_outcomes ..), Except.map]

/-- A call that is a batch. -/
theorem ensures_batch (declared : F.IsDeclared) (aligned : Aligned deck config trusted drawn T)
    {leg : Leg F} (batch : leg.IsBatch)
    (arithmetic : ∀ request ∈ leg.requests, request.IsArithmetic)
    (ready : ∀ request ∈ leg.requests, request.Ready deck) :
    Ensures deck.parties (fun i => ((leg.performNoted i).run (notes i)).run (T i))
      (leg.Ends deck config trusted drawn T notes) := by
  refine (ensures_told declared aligned batch arithmetic ready).weaken ?_
  rintro result ⟨rounds, ended⟩
  have settles := (aligned_afterDrive aligned ready).settled rounds
  refine ⟨_, settled deck.parties rounds (afterDrive deck drawn leg.requests T),
    ⟨fun _ _ => rfl, fun i _ => supplier_settled ..⟩, ?_⟩
  obtain passes | fails := settles.known
  · refine .inl ⟨settles.aligned passes, fun i member => ?_⟩
    rw [ended i member, passes]
    rfl
  · refine .inr ⟨fun trust => ?_, fun i member => ⟨?_, aborted_settled fails i⟩⟩
    · cases fails.symm.trans (settles.passes trust)
    · rw [ended i member, fails]
      rfl

/-- A batch that fails at once does so for all parties, and nothing is sent. -/
theorem FailsAtOnce.ensures {n : Nat} {leg : Leg F} {e : Error}
    (fails : leg.FailsAtOnce (Party.SimulatedSupplier F) e)
    (active : ∀ i, IsMember n i → (T i).aborted = none) :
    Ensures n (fun i => ((leg.performNoted i).run (notes i)).run (T i))
      fun result => ∀ i, IsMember n i → (result i).1.1 = .error e := by
  have each : ∀ i, ∃ result, IsMember n i →
      ((leg.performNoted i).run (notes i)).run (T i) = .done result ∧ result.1.1 = .error e := by
    intro i
    by_cases member : IsMember n i
    · obtain ⟨result, ended, failed⟩ := fails.performNoted (active i member) (notes i)
      exact ⟨result, fun _ => ⟨ended, failed⟩⟩
    · exact ⟨((.error e, []), T i), fun here => absurd here member⟩
  choose result ended using each
  have all : ∀ i, IsMember n i → (result i).1.1 = .error e := fun i member => (ended i member).2
  exact Ensures.of_done (fun i member => (ended i member).1) all

/-- A call that is a check. -/
theorem ensures_check (aligned : Aligned deck config trusted drawn T) {leg : Leg F}
    (nothing : leg.requests = []) :
    Ensures deck.parties (fun i => (Session.macCheck : Evaluation F _ Unit).run.run (T i)
        >>= fun (verdict, session) => .done ((verdict.map fun _ => [], notes i), session))
      (leg.Ends deck config trusted drawn T notes) := by
  have checks : Concludes deck.parties (fun _ _ : Unit => True)
      (fun i => (macCheckTagged fun _ _ _ => ()).run (T i)) _ :=
    concludes_macCheck aligned.active aligned.seated fun _ _ _ => trivial
  simp only [macCheckTagged_unit] at checks
  refine Ensures.bind checks ?_
  rintro _ rfl
  have verified := aligned.verified
  have served : Served deck drawn T notes leg.requests notes fun i =>
      (T i).verified (MacCheck.verdict deck.parties fun i => (T i).party)
        (MacCheck.checked deck.parties (fun i => (T i).party) i) := by
    rw [nothing]
    exact ⟨fun _ _ => (List.append_nil _).symm, fun i _ => supplier_verified deck.parties _ T i⟩
  refine Ensures.done ⟨notes, _, served, ?_⟩
  rw [Succeeds, Fails, nothing]
  obtain passes | fails := verified.known
  · refine .inl ⟨(verified.aligned passes).imp And.left, fun i member => ?_⟩
    rw [passes]
    rfl
  · refine .inr ⟨fun trust => ?_, fun i _ => ?_⟩
    · cases fails.symm.trans (verified.passes trust.1)
    · rw [fails]
      exact ⟨rfl, rfl⟩

/-- A checkpoint is a check for all or for none. -/
theorem ensures_checkpoint (aligned : Aligned deck config trusted drawn T) :
    Ensures deck.parties (fun i => ((checkpoint.performNoted i).run (notes i)).run (T i))
      (checkpoint.Ends deck config trusted drawn T notes) := by
  obtain ⟨empty, pending⟩ := aligned.inStep.exists_isEmpty
  have performed : ∀ i, IsMember deck.parties i →
      ((checkpoint.performNoted i).run (notes i)).run (T i)
        = (if empty then .done (.ok (), T i)
            else (Session.macCheck : Evaluation F _ Unit).run.run (T i))
          >>= fun (verdict, session) => .done ((verdict.map fun _ => [], notes i), session) :=
    fun i member => by
      rw [← pending i member, ← run_checkpoint (aligned.active i member)]
      exact bind_assoc (m := Exchange) _ _ _
  cases empty with
  | true =>
      have nothing : checkpoint.Ends deck config trusted drawn T notes
          fun i => ((.ok [], notes i), T i) :=
        ⟨notes, T, .nil, .inl ⟨aligned.imp And.left, fun _ _ => rfl⟩⟩
      refine Ensures.of_done (fun i member => ?_) nothing
      rw [performed i member]
      rfl
  | false =>
      refine (ensures_check aligned rfl).congr fun i member => ?_
      rw [performed i member]
      rfl

/-- **How calls end**, whatever they are. -/
theorem ensures_performNoted (declared : F.IsDeclared) (aligned : Aligned deck config trusted drawn T)
    {leg : Leg F} (arithmetic : ∀ request ∈ leg.requests, request.IsArithmetic)
    (ready : ∀ request ∈ leg.requests, request.Ready deck) :
    Ensures deck.parties (fun i => ((leg.performNoted i).run (notes i)).run (T i))
      (leg.Ends deck config trusted drawn T notes) := by
  cases leg with
  | runBatch _ | runAll _ | run _ => exact ensures_batch declared aligned trivial arithmetic ready
  | macCheck =>
      have performed : ∀ i, ((macCheck.performNoted i).run (notes i)).run (T i)
          = (Session.macCheck : Evaluation F _ Unit).run.run (T i)
            >>= fun (verdict, session) => .done ((verdict.map fun _ => [], notes i), session) :=
        fun i => bind_assoc (m := Exchange) _ _ _
      simp only [performed]
      exact ensures_check aligned rfl
  | checkpoint => exact ensures_checkpoint aligned

end Leg

end Joint

end Session

end Spdz
