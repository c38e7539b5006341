import Spdz.Proofs.Evaluation.Batches
import Spdz.Proofs.Gates.Requests

/-!
# Messages that find their protocol

Messages carry no mark of the protocol or the round that they belong to.  Here each call of a batch is
labelled with the place where it is made, and what is sent with the label of the call that sends it.
So it can be said, and proved, that every message is taken at its place: by the same protocol in the
next round, however the parties' steps are interleaved.

* `Place` — a phase, a round and a position; `Place.Follows`, where a message is to be taken.
* **`Session.lockstep`** — batches of sessions with simulated items keep in lock step.
-/

namespace Spdz

variable {F : FieldSpec}

/-- Where a call of a batch is made. -/
structure Place where
  phase : Phase
  round : Nat
  position : Nat
  deriving DecidableEq

/-- What is sent at a place is to be taken by the same protocol in the next round. -/
def Place.Follows (taking sending : Place) : Prop :=
  taking.phase = sending.phase ∧ taking.position = sending.position ∧
    taking.round = sending.round + 1

/-! ## Lock step -/

section Lockstep

variable {n : Nat} {config : Config} {deck : Deck F} {drawn : Item → Nat}
  {T : PartyId → Session F (Party.SimulatedSupplier F)} {requests : List (Request F)}

/-- A batch of requests that are ready. -/
theorem Aligned.concludes_requests (aligned : Aligned deck config True drawn T)
    (declared : F.IsDeclared) (ready : ∀ request ∈ requests, request.Ready deck) :
    Concludes deck.parties Place.Follows
      (fun i => (Session.runBatchTagged Place.mk (requests.map fun request => request.gate i)).run
        (T i))
      fun result => ∃ (verdict : Except Error Unit) (gates : List (PartyId → Gate F))
          (T' : PartyId → Session F (Party.SimulatedSupplier F))
          (outputs : List (PartyId → Output F)),
        result = (fun i => ((verdict, gates.map fun gate => gate i), T' i)) ∧
        Request.AllResults deck drawn requests outputs ∧
        (∀ i, IsMember deck.parties i →
          gates.map (fun gate => (gate i).output) = outputs.map fun out => some (out i)) ∧
        Settled deck config (∀ request ∈ requests, request.Authentic deck)
          (Request.afterAll drawn requests) verdict T' := by
  have gates : ∀ i, (requests.map fun request => request.gate i)
      = (Request.entrants deck drawn requests).map fun e => e.protocol i :=
    fun i => (Request.map_protocol_entrants requests i).symm
  simp only [gates]
  refine (aligned.concludes_runBatch (Request.goAll_entrants declared ready fun authentic => authentic)
    (Request.fresh_entrants requests) (Request.longest_entrants_lt requests)
    fun _ _ _ => ⟨rfl, rfl, rfl⟩).weaken ?_
  rintro _ ⟨verdict, gates, T', rfl, posts, settled⟩
  obtain ⟨outputs, results, shown⟩ := Request.exists_outputs posts
  exact ⟨verdict, gates, T', outputs, rfl, results, shown, settled⟩

/-- **Lock step.**  Let all parties run a batch of the same requests, with no reason to fail, in
sessions with simulated items: new ones, or any that are aligned, as they are again after each batch
that ends well.  Then, however the parties' steps are interleaved, they come to one and the same end,
and there is no deadlock on the way.  All that is taken at any time was sent at the same position in
the round before.  In the end nothing waits in the channels, all parties have the results of all
requests, and they agree on whether what was opened can be trusted. -/
theorem Session.lockstep (declared : F.IsDeclared) (two : 2 ≤ n) {seed : UInt8}
    (strategy : config.strategy = .simulated seed) :
    ∃ deck : Deck F, deck.parties = n ∧ deck.length = config.pipeLength ∧
      (∀ T, (∀ i, IsMember n i → (T i).HasBegun n config i) →
        Aligned deck config True (fun _ => 0) T) ∧
      ∀ drawn T, Aligned deck config True drawn T →
      ∀ requests : List (Request F), (∀ request ∈ requests, request.Ready deck) →
      ∃ (verdict : Except Error Unit) (gates : List (PartyId → Gate F))
        (T' : PartyId → Session F (Party.SimulatedSupplier F)) (outputs : List (PartyId → Output F))
        (after : PartyId → PartyId → Link Place) (unmarked : PartyId → PartyId → Link Unit),
        (Net.start n (fun i => (runBatchTagged Place.mk
            (requests.map fun request => request.gate i)).run (T i)) fun _ _ => {}).Inevitable
          (.ended n (fun i => ((verdict, gates.map fun gate => gate i), T' i)) after) ∧
        (∀ now, (Net.start n (fun i => (runBatchTagged Place.mk
            (requests.map fun request => request.gate i)).run (T i)) fun _ _ => {}).Reaches now →
          ∀ a b, ∀ entry ∈ (now.channels a b).taken, entry.1.Follows entry.2.label) ∧
        (∀ i j, (after i j).waiting = []) ∧
        Request.AllResults deck drawn requests outputs ∧
        (∀ i, IsMember n i →
          gates.map (fun gate => (gate i).output) = outputs.map fun out => some (out i)) ∧
        Settled deck config (∀ request ∈ requests, request.Authentic deck)
          (Request.afterAll drawn requests) verdict T' ∧
        (Net.start n (fun i => ((runBatch
            (requests.map fun request => request.gate i)).run (T i)).labelled ())
            fun _ _ => {}).Inevitable
          (.ended n (fun i => ((verdict, gates.map fun gate => gate i), T' i)) unmarked) := by
  obtain ⟨deck, rfl, length, begun⟩ := exists_deck_begun F (Nat.le_of_succ_le two) strategy
  refine ⟨deck, rfl, length, begun, fun drawn T aligned requests ready => ?_⟩
  obtain ⟨_, taken, run, ⟨verdict, gates, T', outputs, rfl, results, shown, settled⟩, fit⟩ :=
    aligned.concludes_requests declared ready (fun _ _ => []) fun _ _ _ mem =>
      absurd mem List.not_mem_nil
  have plain := (run.relabel fun _ => ()).inevitable
  simp only [← Labelled.labelled_plain, plain_runBatchTagged] at plain
  have inevitable := run.inevitable
  refine ⟨verdict, gates, T', outputs, _, _, inevitable, fun now reaches a b entry mem => ?_,
    fun _ _ => rfl, results, shown, settled, plain⟩
  have later := (inevitable.reachable now reaches).taken_extends a b
  exact fit (seat a) (seat b) entry (later.subset mem)

/-- A mixed batch for three parties. -/
def mixedRequests : List (Request .f251) :=
  [.input 1 fun i => if i = 1 then some 1 else none, .multiply (fun _ => 0) fun _ => 0,
    .openAll fun _ => 0, .validation [], .macCheck, .reveal fun _ => 1]

/-- Three parties that have just begun run a mixed batch, and what they open is confirmed. -/
theorem Session.lockstep_of_three : FieldSpec.f251.IsDeclared ∧ 2 ≤ 3 ∧
    ({} : Config).strategy = .simulated 0 ∧
    ∃ T : PartyId → Session .f251 (Party.SimulatedSupplier .f251),
      (∀ i, IsMember 3 i → (T i).HasBegun 3 {} i) ∧
      ∃ (gates : List (PartyId → Gate .f251))
        (T' : PartyId → Session .f251 (Party.SimulatedSupplier .f251))
        (after : PartyId → PartyId → Link Unit),
        (Net.start 3 (fun i => ((runBatch
            (mixedRequests.map fun request => request.gate i)).run (T i)).labelled ())
            fun _ _ => {}).Inevitable
          (.ended 3 (fun i => ((.ok (), gates.map fun gate => gate i), T' i)) after) := by
  obtain ⟨T, begun⟩ := exists_hasBegun .f251 (by decide : 1 ≤ 3)
    (rfl : ({} : Config).strategy = .simulated 0) fun i => Config.validate_default (by decide)
  obtain ⟨deck, parties, -, aligned, lockstep⟩ :=
    lockstep (.inl rfl) (by decide : 2 ≤ 3) (rfl : ({} : Config).strategy = .simulated 0)
  have zero : deck.Authentic fun _ => 0 := IsSharing.zero.authentic
  have ready : ∀ request ∈ mixedRequests, request.Ready deck := by
    simp [mixedRequests, Request.Ready, parties, IsMember]
  have authentic : ∀ request ∈ mixedRequests, request.Authentic deck := by
    simp [mixedRequests, Request.Authentic, zero]
  obtain ⟨verdict, gates, T', -, -, after, -, -, -, -, -, settled, inevitable⟩ :=
    lockstep _ T (aligned T begun) mixedRequests ready
  rw [settled.passes authentic] at inevitable
  exact ⟨.inl rfl, by decide, rfl, T, begun, gates, T', after, inevitable⟩

end Lockstep

end Spdz
