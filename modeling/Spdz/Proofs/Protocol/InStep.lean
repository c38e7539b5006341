import Spdz.Proofs.Preprocessing.Supply
import Spdz.Proofs.Protocol.Turn

/-!
# Parties in step

Parties are in step when they have the same settings, drew the same items so far and recorded the
same openings.  Every protocol keeps them in step, since all of them draw and record at the same
points.  Whether the records can be trusted, that is, whether they are of sharings, depends on what
was opened.

* `InStep` — the parties are in step, after so many items of each kind were drawn.
* `drawing`, `recording` — the parties after they drew or recorded together.
* `InStep.drawing`, `InStep.recording` — they are still in step.
-/

namespace Spdz

variable {F : FieldSpec}

/-- A party whose items are simulated. -/
abbrev SimulatedParty (F : FieldSpec) := Party F (Party.SimulatedSupplier F)

/-- The shares that were opened together, and to which value. -/
structure JointRecord (F : FieldSpec) where
  share : PartyId → Share F
  value : Elem F

/-- A party's record of it. -/
def JointRecord.ofParty (record : JointRecord F) (i : PartyId) : OpenedValue F :=
  ⟨record.share i, record.value⟩

/-- **In step.**  So many items of each kind were drawn by all parties, and they have the same records.
If these are `trusted`, they are of sharings of the values recorded. -/
structure InStep (deck : Deck F) (config : Config) (trusted : Prop) (drawn : Item → Nat)
    (S : PartyId → SimulatedParty F) : Prop where
  id : ∀ i, IsMember deck.parties i → (S i).id = i
  parties : ∀ i, IsMember deck.parties i → (S i).parties = deck.parties
  config : ∀ i, IsMember deck.parties i → (S i).config = config
  stocked : ∀ i, IsMember deck.parties i → Stocked deck i drawn (S i).supplier
  records : ∃ records : List (JointRecord F),
    (∀ i, IsMember deck.parties i →
      (S i).opened.toList = records.map fun record => record.ofParty i) ∧
    (trusted → ∀ record ∈ records,
      IsSharing deck.parties deck.key record.share record.value)

/-- Every party draws an item. -/
def drawing (item : Item) (S : PartyId → SimulatedParty F) (i : PartyId) : SimulatedParty F :=
  { S i with supplier := (Supplier.draw (F := F) item (S i).supplier).2 }

/-- Every party records an opening. -/
def recording (record : JointRecord F) (S : PartyId → SimulatedParty F) (i : PartyId) :
    SimulatedParty F :=
  { S i with opened := (S i).opened.push (record.share i) record.value }

/-- So many items of each kind when one more was drawn. -/
def oneMore (item : Item) (drawn : Item → Nat) : Item → Nat :=
  Function.update drawn item (drawn item + 1)

namespace InStep

variable {deck : Deck F} {config : Config} {trusted : Prop} {drawn : Item → Nat}
  {S : PartyId → SimulatedParty F} {i : PartyId}

/-- All parties have records, or none has any. -/
theorem exists_isEmpty (inStep : InStep deck config trusted drawn S) :
    ∃ empty, ∀ i, IsMember deck.parties i → (S i).opened.isEmpty = empty := by
  obtain ⟨records, common, -⟩ := inStep.records
  refine ⟨records.isEmpty, fun i member => ?_⟩
  rw [OpenedValues.isEmpty, common i member, List.isEmpty_map]

/-- Records that can be trusted for one reason can be trusted for a better one. -/
theorem imp {trusted' : Prop} (better : trusted' → trusted)
    (inStep : InStep deck config trusted drawn S) : InStep deck config trusted' drawn S where
  id := inStep.id
  parties := inStep.parties
  config := inStep.config
  stocked := inStep.stocked
  records := by
    obtain ⟨records, common, sharings⟩ := inStep.records
    exact ⟨records, common, fun trust => sharings (better trust)⟩

/-- Records that can be trusted are also records that may be trusted. -/
theorem weaken (inStep : InStep deck config True drawn S) : InStep deck config trusted drawn S :=
  inStep.imp fun _ => trivial

theorem keyShare (inStep : InStep deck config trusted drawn S) (member : IsMember deck.parties i) :
    (S i).keyShare = deck.keyShare i := (inStep.stocked i member).keyShare

/-- The parties have the key together. -/
theorem sum_keyShare (inStep : InStep deck config trusted drawn S) :
    ∑ i ∈ Finset.Icc 1 deck.parties, (S i).keyShare = deck.key := by
  rw [← deck.keys]
  exact Finset.sum_congr rfl fun i mem => inStep.keyShare (Finset.mem_Icc.mp mem)

/-- A party draws its side of the next item. -/
theorem play_draw (inStep : InStep deck config trusted drawn S) (item : Item) (has : deck.Has item)
    (member : IsMember deck.parties i) {P : Type} {peers : List PartyId} {p : P} {box : Mailbox} :
    (Round.draw item : Round F _ P (item.Value F)).play peers p (S i) box
      = some (((.ok (deck.dealt i item (drawn item)), p), drawing item S i), box) := by
  obtain ⟨after, draw, -⟩ := (inStep.stocked i member).draw has
  have result : Supplier.draw (F := F) item (S i).supplier
      = (.ok (deck.dealt i item (drawn item)), after) := draw
  rw [Round.play_draw, Spdz.drawing, result]
  rfl

/-- Parties that draw together stay in step. -/
theorem drawing (inStep : InStep deck config trusted drawn S) (item : Item) (has : deck.Has item) :
    InStep deck config trusted (oneMore item drawn) (drawing item S) where
  id := inStep.id
  parties := inStep.parties
  config := inStep.config
  stocked i member := by
    obtain ⟨after, draw, stocked⟩ := (inStep.stocked i member).draw has
    have result : Supplier.draw (F := F) item (S i).supplier
        = (.ok (deck.dealt i item (drawn item)), after) := draw
    rwa [Spdz.drawing, result]
  records := inStep.records

/-- Parties that record together stay in step. -/
theorem recording (inStep : InStep deck config trusted drawn S) {record : JointRecord F}
    (sharing : trusted → IsSharing deck.parties deck.key record.share record.value) :
    InStep deck config trusted drawn (recording record S) where
  id := inStep.id
  parties := inStep.parties
  config := inStep.config
  stocked := inStep.stocked
  records := by
    obtain ⟨records, common, sharings⟩ := inStep.records
    refine ⟨records ++ [record], fun i member => ?_, fun trust other mem => ?_⟩
    · simp [Spdz.recording, common i member, JointRecord.ofParty]
    · rcases List.mem_append.mp mem with old | new
      · exact sharings trust other old
      · rw [List.mem_singleton.mp new]
        exact sharing trust

/-- Private randomness is a party's own affair. -/
theorem withRng (inStep : InStep deck config trusted drawn S) (rng : PartyId → ChaCha) :
    InStep deck config trusted drawn fun i => { S i with rng := rng i } where
  id := inStep.id
  parties := inStep.parties
  config := inStep.config
  stocked := inStep.stocked
  records := inStep.records

/-- Parties that take out all records stay in step. -/
theorem drained (inStep : InStep deck config trusted drawn S) :
    InStep deck config trusted drawn fun i => { S i with opened := {} } where
  id := inStep.id
  parties := inStep.parties
  config := inStep.config
  stocked := inStep.stocked
  records := ⟨[], fun _ _ => rfl, fun _ _ mem => absurd mem List.not_mem_nil⟩

end InStep

/-! ## Sums of what was received -/

/-- What a party adds up is the sum of what all parties sent. -/
theorem sumAt_peersOf {n : Nat} {self : PartyId} (member : IsMember n self)
    (elements : PartyId → List (Elem F)) (position : Nat) :
    sumAt ((elements self).getD position 0)
        ((peersOf self n).map fun j => (j, elements j)) position
      = ∑ i ∈ Finset.Icc 1 n, (elements i).getD position 0 :=
  (sumAt_receivedFrom _ (peersOf self n) elements position).trans
    (sum_peersOf (fun i => (elements i).getD position 0) (Finset.mem_Icc.mpr member))

end Spdz
