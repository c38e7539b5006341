import Spdz.Proofs.Evaluation.Batches
import Spdz.Proofs.Gates.Requests
import Spdz.Proofs.Network.Ends

/-!
# Calls of all sessions

A call on a session is an exchange that ends with a result and the session after it.  If all parties
make the same call, and what it opens can be trusted, it succeeds for all of them.

* `Ensures` — from empty channels all parties come to results and to empty channels again.
* **`Aligned.ensures_run`**, `Aligned.ensures_runAll`, `Aligned.ensures_checkpoint`, … — the calls of
  all parties.
-/

namespace Spdz

/-! ## Exchanges of all parties -/

section Ensuring

variable {n : Nat} {α β : Type} {x x' : PartyId → Exchange α} {post post' : (PartyId → α) → Prop}

/-- **Ensures.**  If nothing waits in the channels, all parties come to results with `post` and then
nothing waits again. -/
def Ensures (n : Nat) (x : PartyId → Exchange α) (post : (PartyId → α) → Prop) : Prop :=
  Concludes n (fun _ _ : Unit => True) (fun i => (x i).labelled ()) post

namespace Ensures

theorem done {result : PartyId → α} (holds : post result) :
    Ensures n (fun i => .done (result i)) post := Concludes.pure holds

/-- One part after the other. -/
theorem bind {next : PartyId → α → Exchange β} {final : (PartyId → β) → Prop}
    (first : Ensures n x post)
    (second : ∀ result, post result → Ensures n (fun i => next i (result i)) final) :
    Ensures n (fun i => x i >>= next i) final := by
  simp only [Ensures, Exchange.labelled_bind]
  exact Concludes.bind first second

/-- Only members count. -/
theorem congr (ensures : Ensures n x post) (same : ∀ i, IsMember n i → x i = x' i) :
    Ensures n x' post :=
  Concludes.congr ensures fun i member => congrArg _ (same i member)

theorem weaken (ensures : Ensures n x post) (weaker : ∀ result, post result → post' result) :
    Ensures n x post' := Concludes.weaken ensures weaker

/-- Members that are done at once. -/
theorem of_done {result : PartyId → α} (same : ∀ i, IsMember n i → x i = .done (result i))
    (holds : post result) : Ensures n x post :=
  (done holds).congr fun i member => (same i member).symm

/-- What is ensured is inevitable, in new channels. -/
theorem inevitable (ensures : Ensures n x post) :
    ∃ (result : PartyId → α) (after : PartyId → PartyId → Link Unit), post result ∧
      (Net.start n (fun i => (x i).labelled ()) fun _ _ => {}).Inevitable (.ended n result after) ∧
      ∀ i j, (after i j).waiting = [] := by
  obtain ⟨result, taken, run, holds, -⟩ := ensures (fun _ _ => []) fun _ _ _ _ => trivial
  exact ⟨result, _, holds, run.inevitable, fun _ _ => rfl⟩

/-- The same, also for what is made of the results. -/
theorem inevitable_map (ensures : Ensures n x post) (f : α → β) :
    ∃ (result : PartyId → α) (after : PartyId → PartyId → Link Unit), post result ∧
      (Net.start n (fun i => (x i).labelled ()) fun _ _ => {}).Inevitable (.ended n result after) ∧
      (Net.start n (fun i => (f <$> x i).labelled ()) fun _ _ => {}).Inevitable
        (.ended n (fun i => f (result i)) after) ∧
      ∀ i j, (after i j).waiting = [] := by
  obtain ⟨result, taken, run, holds, -⟩ := ensures (fun _ _ => []) fun _ _ _ _ => trivial
  have made : Joint n (fun i => (x i).labelled () >>= fun a => .done (f a)) (fun _ _ => {})
      (fun i => f (result i)) fun i j => ⟨[], taken i j⟩ := run.bind (.pure _ _)
  have parts : (fun i => (f <$> x i).labelled ())
      = fun i => (x i).labelled () >>= fun a => .done (f a) := funext fun i => by
    rw [map_eq_pure_bind, Exchange.labelled_bind]
    rfl
  refine ⟨result, _, holds, run.inevitable, ?_, fun _ _ => rfl⟩
  rw [parts]
  exact made.inevitable

/-- What is ensured for all, each party can come to by itself. -/
theorem ends (ensures : Ensures n x post) : ∃ result : PartyId → α, post result ∧
    ∀ i, IsMember n i → (x i).Ends (result i) := by
  obtain ⟨result, taken, run, holds, -⟩ := ensures (fun _ _ => []) fun _ _ _ _ => trivial
  refine ⟨result, holds, fun i member => ?_⟩
  have ended := Joint.ends run member
  rwa [Exchange.plain_labelled] at ended

end Ensures

end Ensuring

variable {F : FieldSpec} {σ P Out : Type}

/-! ## Calls of all sessions -/

/-- **Answered.**  A call has succeeded for all parties, their answers satisfy `holds`, and so many
items of each kind are drawn now. -/
def Answered {α : Type} (deck : Deck F) (config : Config) (drawn : Item → Nat)
    (holds : (PartyId → α) → Prop)
    (result : PartyId → Except Error α × Session F (Party.SimulatedSupplier F)) : Prop :=
  ∃ (answer : PartyId → α) (T : PartyId → Session F (Party.SimulatedSupplier F)),
    (∀ i, IsMember deck.parties i → result i = (.ok (answer i), T i)) ∧ holds answer ∧
      Aligned deck config True drawn T

namespace Aligned

variable {deck : Deck F} {config : Config} {drawn drawn' : Item → Nat}
  {T : PartyId → Session F (Party.SimulatedSupplier F)}

theorem ensures_macCheck (aligned : Aligned deck config True drawn T) :
    Ensures deck.parties
      (fun i => (Session.macCheck : Evaluation F (Party.SimulatedSupplier F) Unit).run.run (T i))
      (Answered deck config drawn fun _ => True) := by
  have concludes : Concludes deck.parties (fun _ _ : Unit => True)
      (fun i => (Session.macCheckTagged fun _ _ _ => ()).run (T i)) _ :=
    aligned.concludes_macCheck fun _ _ _ => trivial
  simp only [Session.macCheckTagged_unit] at concludes
  refine Concludes.weaken concludes ?_
  rintro _ ⟨verdict, T', rfl, settled⟩
  have passed := settled.passes trivial
  exact ⟨fun _ => (), T', fun _ _ => by rw [passed], trivial, settled.aligned passed⟩

/-- A checkpoint is a check for all or for none. -/
theorem ensures_checkpoint (aligned : Aligned deck config True drawn T) :
    Ensures deck.parties
      (fun i => (Session.checkpoint : Evaluation F (Party.SimulatedSupplier F) Unit).run.run (T i))
      (Answered deck config drawn fun _ => True) := by
  obtain ⟨empty, pending⟩ := aligned.inStep.exists_isEmpty
  have checks : ∀ i, IsMember deck.parties i → _ = _ := fun i member =>
    Session.run_checkpoint (aligned.active i member)
  cases empty with
  | true =>
      have nothing : Answered deck config drawn (fun _ : PartyId → Unit => True)
          fun i => (.ok (), T i) := ⟨fun _ => (), T, fun _ _ => rfl, trivial, aligned⟩
      refine Ensures.of_done (fun i member => ?_) nothing
      rw [checks i member, pending i member, if_pos rfl]
  | false =>
      refine aligned.ensures_macCheck.congr fun i member => ?_
      rw [checks i member, pending i member, if_neg Bool.false_ne_true]

theorem ensures_finish (aligned : Aligned deck config True drawn T) :
    Ensures deck.parties
      (fun i => (Session.finish : Evaluation F (Party.SimulatedSupplier F) Stats).run.run (T i))
      (Answered deck config drawn fun _ => True) := by
  simp only [Session.run_finish]
  refine aligned.ensures_checkpoint.bind ?_
  rintro result ⟨_, T', answers, -, aligned'⟩
  refine Ensures.done ⟨fun i => (T' i).stats, T', fun i member => ?_, trivial, aligned'⟩
  simp only [answers i member]
  rfl

variable [Protocol F (Party.SimulatedSupplier F) P]

/-- **A batch of protocols that go well.** -/
theorem ensures_runBatch (aligned : Aligned deck config True drawn T) {E : List (Entrant P)}
    (go : Entrant.GoAll (InStep deck config True) (InStep deck config True) deck.parties 0 E drawn
      drawn')
    (fresh : Entrant.Fresh E) (short : Entrant.longest E < maxRounds) :
    Ensures deck.parties (fun i => (Session.runBatch (E.map fun e => e.protocol i)).run (T i))
      fun result => ∃ p T', result = (fun i => ((.ok (), p.map fun p => p i), T' i)) ∧
        List.Forall₂ (fun e p => e.post p) E p ∧ Aligned deck config True drawn' T' := by
  have concludes : Concludes deck.parties (fun _ _ : Unit => True) (fun i =>
      (Session.runBatchTagged (fun _ _ _ => ()) (E.map fun e => e.protocol i)).run (T i)) _ :=
    aligned.concludes_runBatch go fresh short fun _ _ _ => trivial
  simp only [Session.runBatchTagged_unit] at concludes
  refine Concludes.weaken concludes ?_
  rintro _ ⟨verdict, p, T', rfl, posts, settled⟩
  have passed := settled.passes trivial
  exact ⟨p, T', by rw [passed], posts, settled.aligned passed⟩

variable [HasOutput P Out]

/-- A batch whose results are collected.  Each protocol is to end with a result. -/
theorem ensures_runAll (aligned : Aligned deck config True drawn T) {E : List (Entrant P)}
    (go : Entrant.GoAll (InStep deck config True) (InStep deck config True) deck.parties 0 E drawn
      drawn')
    (fresh : Entrant.Fresh E) (short : Entrant.longest E < maxRounds)
    {holds : (PartyId → List Out) → Prop}
    (outputs : ∀ p, List.Forall₂ (fun e p => e.post p) E p → ∃ out : PartyId → List Out,
      (∀ i, IsMember deck.parties i →
        (p.map fun p => p i).map HasOutput.output = (out i).map some) ∧ holds out) :
    Ensures deck.parties
      (fun i => (Session.runAll (E.map fun e => e.protocol i) :
        Evaluation F (Party.SimulatedSupplier F) (List Out)).run.run (T i))
      (Answered deck config drawn' holds) := by
  simp only [Session.run_runAll]
  refine (aligned.ensures_runBatch go fresh short).bind ?_
  rintro _ ⟨p, T', rfl, posts, aligned'⟩
  obtain ⟨out, shown, holds⟩ := outputs p posts
  refine Ensures.done ⟨out, T', fun i member => ?_, holds, aligned'⟩
  simp only [Session.mapM_outputOf (shown i member)]
  rfl

/-- **A single protocol that goes well** and ends with a result. -/
theorem ensures_run (aligned : Aligned deck config True drawn T) {p : PartyId → P}
    {post : (PartyId → P) → Prop} {left : Nat}
    (departs : Departs deck.parties (InStep deck config True) (InStep deck config True) post left 0 p
      (fun _ => []) drawn drawn')
    (short : left + 1 < maxRounds) {holds : (PartyId → Out) → Prop}
    (output : ∀ p, post p → ∃ out : PartyId → Out,
      (∀ i, IsMember deck.parties i → HasOutput.output (p i) = some (out i)) ∧ holds out) :
    Ensures deck.parties
      (fun i => (Session.run (p i) : Evaluation F (Party.SimulatedSupplier F) Out).run.run (T i))
      (Answered deck config drawn' holds) := by
  let entrant : Entrant P := ⟨p, fun _ => [], left + 1, post⟩
  have go : Entrant.GoAll (InStep deck config True) (InStep deck config True) deck.parties 0
      [entrant] drawn drawn' := ⟨drawn', departs, rfl⟩
  have fresh : Entrant.Fresh [entrant] :=
    List.forall_mem_singleton.mpr ⟨Nat.succ_pos left, rfl⟩
  simp only [Session.run_run]
  refine (aligned.ensures_runBatch go fresh (by simpa [Entrant.longest, entrant] using short)).bind ?_
  rintro _ ⟨_, T', rfl, posts, aligned'⟩
  cases posts with
  | cons here nothing =>
      cases nothing
      obtain ⟨out, shown, holds⟩ := output _ here
      refine Ensures.done ⟨out, T', fun i member => ?_, holds, aligned'⟩
      simp only [Session.outputOf, List.map_cons, List.headD_cons, shown i member]
      rfl

omit [Protocol F (Party.SimulatedSupplier F) P] in
/-- **A batch of requests** that are ready, with shares that can be trusted. -/
theorem ensures_requests (aligned : Aligned deck config True drawn T) (declared : F.IsDeclared)
    (requests : List (Request F)) (ready : ∀ request ∈ requests, request.Ready deck)
    (authentic : ∀ request ∈ requests, request.Authentic deck) :
    Ensures deck.parties
      (fun i => (Session.runBatch (requests.map fun request => request.gate i)).run (T i))
      fun result => ∃ (gates : List (PartyId → Gate F)) (T' : PartyId → Session F _),
        result = (fun i => ((.ok (), gates.map fun gate => gate i), T' i)) ∧
          Aligned deck config True (Request.afterAll drawn requests) T' := by
  have gates : ∀ i, (requests.map fun request => request.gate i)
      = (Request.entrants deck drawn requests).map fun e => e.protocol i :=
    fun i => (Request.map_protocol_entrants requests i).symm
  simp only [gates]
  refine (aligned.ensures_runBatch (Request.goAll_entrants declared ready fun _ => authentic)
    (Request.fresh_entrants requests) (Request.longest_entrants_lt requests)).weaken ?_
  rintro _ ⟨gates, T', rfl, -, aligned'⟩
  exact ⟨gates, T', rfl, aligned'⟩

end Aligned

end Spdz
