import Spdz.Proofs.Gates.Requests

/-!
# What requests lead to

For the requests that compute something it is determined which results the parties end with, what they
draw and which openings they record.  All is drawn in the first round and recorded in the second, and
nothing else changes in the parties.  So a batch of them leads from one state of the parties to another
that can be written down.

* `Request.IsArithmetic` — the requests that this is about.
* `Request.outcome`, `Request.records`, `Request.supply` — the results, the records and the draws.
* **`Request.setsOut`** — a request that is ready goes well, and changes the parties accordingly.
* `Request.outcomes`, `Request.allRecords`, `Request.supplyAll` — the same for a whole batch.
* **`Request.passage_travellers`** — all draws of a batch come before all its records, both in order.
-/

namespace Spdz

variable {F : FieldSpec} {deck : Deck F} {config : Config} {trusted : Prop} {drawn : Item → Nat}
  {S : PartyId → SimulatedParty F}

/-! ## Records of all parties -/

/-- Every party records openings, one after the other. -/
def recordingAll (records : List (JointRecord F)) (S : PartyId → SimulatedParty F) :
    PartyId → SimulatedParty F :=
  records.foldl (fun S record => recording record S) S

theorem recordingAll_append (records others : List (JointRecord F)) (S : PartyId → SimulatedParty F) :
    recordingAll (records ++ others) S = recordingAll others (recordingAll records S) :=
  List.foldl_append

/-- Parties that record openings together stay in step. -/
theorem InStep.recordingAll (inStep : InStep deck config trusted drawn S)
    {records : List (JointRecord F)}
    (sharings : trusted → ∀ record ∈ records, IsSharing deck.parties deck.key record.share record.value) :
    InStep deck config trusted drawn (recordingAll records S) := by
  induction records generalizing S with
  | nil => exact inStep
  | cons record records ih =>
      exact ih (inStep.recording fun trust => (List.forall_mem_cons.mp (sharings trust)).1)
        fun trust => (List.forall_mem_cons.mp (sharings trust)).2

/-- Recording changes nothing but the pending openings. -/
theorem recordingAll_apply (records : List (JointRecord F)) (S : PartyId → SimulatedParty F)
    (i : PartyId) : recordingAll records S i
      = { S i with opened := ⟨(S i).opened.toList ++ records.map fun record => record.ofParty i⟩ } := by
  induction records generalizing S with
  | nil => simp [recordingAll]
  | cons record records ih =>
      refine (ih (recording record S)).trans ?_
      simp [recording, JointRecord.ofParty]

namespace Request

/-! ## Single requests -/

/-- Inputs, products, openings, preprocessed and public values.  The other requests only exchange
what the parties have. -/
def IsArithmetic : Request F → Prop
  | reveal _ | validation _ | macCheck => False
  | _ => True

/-- **Outcome.**  What a party ends with, after so many items of each kind were drawn before. -/
def outcome (deck : Deck F) (drawn : Item → Nat) (i : PartyId) : Request F → Output F
  | input inputter value | checkedInput inputter value =>
    let index := drawn (.mask inputter)
    .share (MaskedInput.combined deck (deck.maskAt inputter index)
      ((value inputter).getD 0 - deck.maskValue inputter index) i)
  | multiply x y => .share (Multiply.product deck x y (deck.dealt · .triple (drawn .triple)) i)
  | openAll x => .value (deck.opened x)
  | openTo x target => .target (if i = target then some (deck.opened x) else none)
  | element => .share (deck.dealt i .element (drawn .element))
  | bit => .share (deck.dealt i .bit (drawn .bit))
  | pipe _ => .shares (deck.dealt i .pipe (drawn .pipe))
  | known value => .share (.ofPublic value (deck.keyShare i) i)
  | reveal value => .values ((List.range' 1 deck.parties).map value)
  | validation _ | macCheck => .unit

/-- What is opened, and to which values. -/
def records (deck : Deck F) (drawn : Item → Nat) : Request F → List (JointRecord F)
  | openAll x => [⟨x, deck.opened x⟩]
  | openTo x target =>
    let difference := maskedBy x (deck.maskAt target (drawn (.mask target)))
    [⟨difference, deck.opened difference⟩]
  | multiply x y =>
    let epsilon := Multiply.epsilon x (deck.dealt · .triple (drawn .triple))
    let delta := Multiply.delta y (deck.dealt · .triple (drawn .triple))
    [⟨epsilon, deck.opened epsilon⟩, ⟨delta, deck.opened delta⟩]
  | _ => []

/-- What it does to a supplier. -/
def supply {σ : Type} [Supplier F σ] (request : Request F) (supplier : σ) : σ :=
  match request.item with
  | some item => (Supplier.draw (F := F) item supplier).2
  | none => supplier

/-- Every party draws what it needs. -/
def draws (request : Request F) (S : PartyId → SimulatedParty F) (i : PartyId) : SimulatedParty F :=
  { S i with supplier := request.supply (S i).supplier }

/-- What each of its rounds makes of the parties. -/
def move (deck : Deck F) (drawn : Item → Nat) (request : Request F) :
    (round : Nat) → (PartyId → SimulatedParty F) → PartyId → SimulatedParty F
  | 0 => request.draws
  | 1 => recordingAll (request.records deck drawn)
  | _ => id

/-- A request that is done does nothing more. -/
theorem move_eq_id {n later : Nat} {request : Request F} (done : request.left n < later) :
    request.move deck drawn later = id := by
  obtain rfl | ⟨k, rfl⟩ : later = 1 ∨ ∃ k, later = k + 2 := by
    obtain ⟨k, rfl⟩ := Nat.exists_eq_succ_of_ne_zero (Nat.ne_of_gt (Nat.zero_lt_of_lt done))
    cases k with
    | zero => exact .inl rfl
    | succ k => exact .inr ⟨k, rfl⟩
  · cases request with
    | multiply x y | openAll x | openTo x target => exact absurd done (Nat.lt_irrefl 1)
    | _ => rfl
  · rfl

/-- What is opened is authentic if what it is made of is. -/
theorem Authentic.records {request : Request F} (authentic : request.Authentic deck) :
    ∀ record ∈ request.records deck drawn, IsSharing deck.parties deck.key record.share record.value := by
  cases request with
  | multiply x y =>
      obtain ⟨⟨a, b⟩, dealt⟩ := deck.isDealt .triple (drawn .triple)
      refine List.forall_mem_cons.mpr ⟨?_, List.forall_mem_singleton.mpr ?_⟩
      · exact (authentic.1.sub dealt.1).authentic
      · exact (authentic.2.sub dealt.2.1).authentic
  | openAll x => exact List.forall_mem_singleton.mpr authentic
  | openTo x target =>
      obtain ⟨sharing, -⟩ := deck.isDealt_mask target (drawn (.mask target))
      exact List.forall_mem_singleton.mpr (authentic.sub sharing).authentic
  | _ => exact fun _ mem => absurd mem List.not_mem_nil

/-- Parties that draw what a request needs stay in step. -/
theorem inStep_draws {request : Request F} (ready : request.Ready deck)
    (inStep : InStep deck config trusted drawn S) :
    InStep deck config trusted (request.after drawn) (request.draws S) := by
  cases request with
  | input inputter value | checkedInput inputter value => exact inStep.drawing _ ready.1
  | openTo x target => exact inStep.drawing _ ready
  | multiply x y | element | bit | pipe length => exact inStep.drawing _ trivial
  | openAll x | known value | reveal value | validation values | macCheck => exact inStep

/-- **Exactly.**  The parties are in the given states, and they are in step. -/
def Exactly (deck : Deck F) (config : Config) (given S : PartyId → SimulatedParty F) : Prop :=
  S = given ∧ ∃ drawn, InStep deck config False drawn S

theorem exactly_recordingAll {given : PartyId → SimulatedParty F} (exactly : Exactly deck config given S)
    (records : List (JointRecord F)) :
    Exactly deck config (recordingAll records given) (recordingAll records S) := by
  obtain ⟨rfl, drawn, inStep⟩ := exactly
  exact ⟨rfl, drawn, inStep.recordingAll fun never => never.elim⟩

/-- All parties have the outcome. -/
def Yields (deck : Deck F) (drawn : Item → Nat) (request : Request F) (p : PartyId → Gate F) : Prop :=
  ∀ i, IsMember deck.parties i → (p i).output = some (request.outcome deck drawn i)

/-- **A request that is ready goes well**: all parties draw what it needs, then they record what is
opened, and in the end they have its outcome. -/
theorem setsOut (declared : F.IsDeclared) {request : Request F} (arithmetic : request.IsArithmetic)
    (ready : request.Ready deck) (inStep : InStep deck config False drawn S) :
    SetsOut deck.parties (Exactly deck config) (request.move deck drawn) (request.Yields deck drawn)
      (request.left deck.parties) 0 (fun i => request.gate i) (fun _ => []) S := by
  have drawing : Exactly deck config (request.draws S) (request.draws S) :=
    ⟨rfl, _, inStep_draws ready inStep⟩
  have idle : ∀ later, request.left deck.parties < later → request.move deck drawn later = id :=
    fun later done => move_eq_id done
  rintro _ ⟨rfl, -⟩
  cases request with
  | input inputter value =>
      obtain ⟨v, present⟩ := Option.isSome_iff_exists.mp ready.2
      obtain ⟨-, known⟩ := deck.isDealt_mask inputter (drawn (.mask inputter))
      refine ⟨_, _, _, (Input.turns_zero inStep ready.1 present known).embed fun _ _ => rfl, drawing, ?_⟩
      rintro g _ ⟨rfl, _, inStep⟩
      refine ⟨_, _, _, (Input.turns_one value declared ready.1 inStep).embed fun _ _ => rfl,
        ⟨rfl, _, inStep⟩, fun i member => ?_, rfl, idle⟩
      simp only [outcome, present, Option.getD_some]
      rfl
  | checkedInput inputter value =>
      obtain ⟨v, present⟩ := Option.isSome_iff_exists.mp ready.2
      obtain ⟨-, known⟩ := deck.isDealt_mask inputter (drawn (.mask inputter))
      refine ⟨_, _, _, (CheckedInput.turns_zero inStep ready.1 present known).embed fun _ _ => rfl,
        drawing, ?_⟩
      rintro g _ ⟨rfl, _, inStep⟩
      refine ⟨_, _, _, (CheckedInput.turns_one value declared ready.1).embed fun _ _ => rfl,
        ⟨rfl, _, inStep⟩, ?_⟩
      rintro g _ ⟨rfl, _, inStep⟩
      refine ⟨_, _, _, (CheckedInput.turns_two value inStep).embed fun _ _ => rfl,
        ⟨rfl, _, inStep⟩, fun i member => ?_, rfl, idle⟩
      simp only [outcome, present, Option.getD_some]
      rfl
  | multiply x y =>
      refine ⟨_, _, _, (Multiply.turns_zero inStep).embed fun _ _ => rfl, drawing, ?_⟩
      rintro g _ ⟨rfl, _, inStep⟩
      exact ⟨_, _, _, (Multiply.turns_one declared inStep.id fun i member =>
        inStep.keyShare member).embed fun _ _ => rfl, exactly_recordingAll ⟨rfl, _, inStep⟩ _,
        fun i member => rfl, rfl, idle⟩
  | openAll x =>
      refine ⟨_, _, _, (Open.turns_zero deck.parties).embed fun _ _ => rfl, drawing, ?_⟩
      rintro g _ ⟨rfl, _, inStep⟩
      exact ⟨_, _, _, (Open.turns_one declared).embed fun _ _ => rfl,
        exactly_recordingAll ⟨rfl, _, inStep⟩ _, fun i member => rfl, rfl, idle⟩
  | openTo x target =>
      obtain ⟨sharing, known⟩ := deck.isDealt_mask target (drawn (.mask target))
      refine ⟨_, _, _, (OpenTo.turns_zero inStep ready).embed fun _ _ => rfl, drawing, ?_⟩
      rintro g _ ⟨rfl, _, inStep⟩
      refine ⟨_, _, _, (OpenTo.turns_one declared inStep.id known).embed fun _ _ => rfl,
        exactly_recordingAll ⟨rfl, _, inStep⟩ _, fun i member => ?_, rfl, idle⟩
      have opened : deck.opened (maskedBy x (deck.maskAt target (drawn (.mask target))))
          + deck.maskValue target (drawn (.mask target)) = deck.opened x := by
        rw [← sharing.value]
        simp [maskedBy, Deck.opened]
      simp only [outcome, ← opened]
      rfl
  | element =>
      exact ⟨_, _, _, (RandomElement.turns_zero inStep).embed fun _ _ => rfl, drawing,
        fun i member => rfl, rfl, idle⟩
  | bit =>
      exact ⟨_, _, _, (RandomBit.turns_zero inStep).embed fun _ _ => rfl, drawing,
        fun i member => rfl, rfl, idle⟩
  | pipe length =>
      obtain rfl : length = deck.length := ready
      exact ⟨_, _, _, (ExpPipe.turns_zero inStep).embed fun _ _ => rfl, drawing,
        fun i member => rfl, rfl, idle⟩
  | known value =>
      exact ⟨_, _, _, (KnownValue.turns_zero inStep fun _ => value).embed fun _ _ => rfl, drawing,
        fun i member => rfl, rfl, idle⟩
  | reveal _ | validation _ | macCheck => exact arithmetic.elim

/-! ## Batches -/

/-- The outcomes of all requests of a batch. -/
def outcomes (deck : Deck F) (i : PartyId) : (drawn : Item → Nat) → List (Request F) → List (Output F)
  | _, [] => []
  | drawn, request :: requests =>
    request.outcome deck drawn i :: outcomes deck i (request.after drawn) requests

/-- What is opened by all requests of a batch, in order. -/
def allRecords (deck : Deck F) : (drawn : Item → Nat) → List (Request F) → List (JointRecord F)
  | _, [] => []
  | drawn, request :: requests =>
    request.records deck drawn ++ allRecords deck (request.after drawn) requests

/-- What a batch does to a supplier. -/
def supplyAll {σ : Type} [Supplier F σ] (requests : List (Request F)) (supplier : σ) : σ :=
  requests.foldl (fun supplier request => request.supply supplier) supplier

/-- What a batch makes of the parties. -/
def effect (deck : Deck F) (drawn : Item → Nat) (requests : List (Request F))
    (S : PartyId → SimulatedParty F) (i : PartyId) : SimulatedParty F :=
  { S i with
    supplier := supplyAll requests (S i).supplier
    opened := ⟨(S i).opened.toList
      ++ (allRecords deck drawn requests).map fun record => record.ofParty i⟩ }

/-- The protocols that all parties have for the requests of a batch, with their moves. -/
def travellers (deck : Deck F) : (drawn : Item → Nat) → List (Request F) →
    List (Traveller (Gate F) (PartyId → SimulatedParty F))
  | _, [] => []
  | drawn, request :: requests =>
    { protocol := fun i => request.gate i
      came := fun _ => []
      left := request.left deck.parties + 1
      post := request.Yields deck drawn
      move := request.move deck drawn } :: travellers deck (request.after drawn) requests

variable {requests : List (Request F)}

/-- What was opened is authentic if what it is made of is. -/
theorem records_of_authentic (authentic : ∀ request ∈ requests, request.Authentic deck) :
    ∀ record ∈ allRecords deck drawn requests,
      IsSharing deck.parties deck.key record.share record.value := by
  induction requests generalizing drawn with
  | nil => exact fun _ mem => absurd mem List.not_mem_nil
  | cons request requests ih =>
      obtain ⟨here, others⟩ := List.forall_mem_cons.mp authentic
      exact List.forall_mem_append.mpr ⟨here.records, ih others⟩

theorem map_protocol_travellers (i : PartyId) :
    (travellers deck drawn requests).map (fun e => e.protocol i)
      = requests.map fun request => request.gate i := by
  induction requests generalizing drawn with
  | nil => rfl
  | cons request requests ih => exact congrArg _ ih

theorem fresh_travellers :
    Entrant.Fresh (Traveller.entrants (travellers deck drawn requests)) := by
  induction requests generalizing drawn with
  | nil => exact fun e mem => absurd mem List.not_mem_nil
  | cons request requests ih => exact List.forall_mem_cons.mpr ⟨⟨Nat.succ_pos _, rfl⟩, ih⟩

theorem longest_travellers_lt :
    Entrant.longest (Traveller.entrants (travellers deck drawn requests)) < maxRounds := by
  induction requests generalizing drawn with
  | nil => exact (by decide : 0 < maxRounds)
  | cons request requests ih => exact Nat.max_lt.mpr ⟨request.rounds_lt deck.parties, ih⟩

/-- Requests that are ready go well, one after the other. -/
theorem goAll_travellers (declared : F.IsDeclared)
    (arithmetic : ∀ request ∈ requests, request.IsArithmetic)
    (ready : ∀ request ∈ requests, request.Ready deck) (inStep : InStep deck config False drawn S) :
    Traveller.GoAll (Exactly deck config) deck.parties 0 (travellers deck drawn requests) S := by
  induction requests generalizing drawn S with
  | nil => trivial
  | cons request requests ih =>
      obtain ⟨first, others⟩ := List.forall_mem_cons.mp ready
      obtain ⟨here, arithmetic⟩ := List.forall_mem_cons.mp arithmetic
      exact ⟨setsOut declared here first inStep, ih arithmetic others (inStep_draws first inStep)⟩

/-- All parties have the outcomes of the whole batch. -/
theorem outcomes_of_posts {gates : List (PartyId → Gate F)}
    (posts : List.Forall₂ (fun e p => e.post p) (Traveller.entrants (travellers deck drawn requests))
      gates) {i : PartyId} (member : IsMember deck.parties i) :
    gates.map (fun gate => (gate i).output) = (outcomes deck i drawn requests).map some := by
  induction requests generalizing drawn gates with
  | nil =>
      cases posts
      rfl
  | cons request requests ih =>
      cases posts with
      | cons first others =>
          have here : Yields deck drawn request _ := first
          rw [List.map_cons, here i member, ih others]
          rfl

/-! ### Where a batch leads -/

theorem stage_zero (S : PartyId → SimulatedParty F) (i : PartyId) :
    Traveller.stage (travellers deck drawn requests) 0 S i
      = { S i with supplier := supplyAll requests (S i).supplier } := by
  induction requests generalizing drawn S with
  | nil => rfl
  | cons request requests ih => exact ih (request.draws S)

theorem stage_one (S : PartyId → SimulatedParty F) :
    Traveller.stage (travellers deck drawn requests) 1 S
      = recordingAll (allRecords deck drawn requests) S := by
  induction requests generalizing drawn S with
  | nil => rfl
  | cons request requests ih =>
      rw [allRecords, recordingAll_append]
      exact ih (recordingAll (request.records deck drawn) S)

/-- Each protocol is done after its rounds. -/
theorem move_travellers {e : Traveller (Gate F) (PartyId → SimulatedParty F)}
    (mem : e ∈ travellers deck drawn requests) {later : Nat} (done : e.left ≤ later ∨ 2 ≤ later) :
    e.move later = id := by
  induction requests generalizing drawn with
  | nil => exact absurd mem List.not_mem_nil
  | cons request requests ih =>
      obtain rfl | among := List.mem_cons.mp mem
      · obtain done | two := done
        · exact move_eq_id done
        · obtain ⟨k, rfl⟩ := Nat.exists_eq_add_of_le' two
          rfl
      · exact ih among

/-- **Where a batch leads.**  All draws come before all records, both in the order of the batch. -/
theorem passage_travellers (S : PartyId → SimulatedParty F) :
    Traveller.passage (travellers deck drawn requests) 0
        (Entrant.longest (Traveller.entrants (travellers deck drawn requests))) S
      = effect deck drawn requests S := by
  generalize rounds : Entrant.longest _ = longest
  have whole : Traveller.passage (travellers deck drawn requests) 0 (longest + 2) S
      = Traveller.passage (travellers deck drawn requests) 0 longest S :=
    Traveller.passage_of_idle (fun e mem later done => move_travellers mem (.inl
      ((Entrant.left_le_longest (List.mem_map_of_mem mem)).trans (rounds ▸ done)))) 2 S
  have two : Traveller.passage (travellers deck drawn requests) 0 (2 + longest) S
      = Traveller.passage (travellers deck drawn requests) 0 2 S :=
    Traveller.passage_of_idle (fun e mem later done => move_travellers mem (.inr done)) longest S
  have both : Traveller.passage (travellers deck drawn requests) 0 2 S
      = recordingAll (allRecords deck drawn requests)
          (Traveller.stage (travellers deck drawn requests) 0 S) := stage_one _
  rw [← whole, Nat.add_comm, two, both]
  funext i
  rw [recordingAll_apply, stage_zero]
  rfl

/-- Parties stay in step, and what they recorded can be trusted if what was opened is authentic. -/
theorem inStep_effect (ready : ∀ request ∈ requests, request.Ready deck)
    (inStep : InStep deck config trusted drawn S) :
    InStep deck config (trusted ∧ ∀ request ∈ requests, request.Authentic deck)
      (afterAll drawn requests) (effect deck drawn requests S) := by
  have supplied : InStep deck config trusted (afterAll drawn requests)
      fun i => { S i with supplier := supplyAll requests (S i).supplier } := by
    induction requests generalizing drawn S with
    | nil => exact inStep
    | cons request requests ih =>
        obtain ⟨first, others⟩ := List.forall_mem_cons.mp ready
        exact ih others (inStep_draws first inStep)
  have recorded : effect deck drawn requests S = recordingAll (allRecords deck drawn requests)
      fun i => { S i with supplier := supplyAll requests (S i).supplier } := by
    funext i
    rw [recordingAll_apply]
    rfl
  rw [recorded]
  exact (supplied.imp And.left).recordingAll fun trust => records_of_authentic trust.2

/-! ### Parts of a batch -/

theorem afterAll_append (requests others : List (Request F)) :
    afterAll drawn (requests ++ others) = afterAll (afterAll drawn requests) others :=
  List.foldl_append

theorem supplyAll_append {σ : Type} [Supplier F σ] (requests others : List (Request F)) (supplier : σ) :
    supplyAll (requests ++ others) supplier = supplyAll others (supplyAll requests supplier) :=
  List.foldl_append

theorem outcomes_append (i : PartyId) (requests others : List (Request F)) :
    outcomes deck i drawn (requests ++ others)
      = outcomes deck i drawn requests ++ outcomes deck i (afterAll drawn requests) others := by
  induction requests generalizing drawn with
  | nil => rfl
  | cons request requests ih => exact congrArg _ ih

theorem length_outcomes (i : PartyId) (requests : List (Request F)) :
    (outcomes deck i drawn requests).length = requests.length := by
  induction requests generalizing drawn with
  | nil => rfl
  | cons request requests ih => exact congrArg Nat.succ ih

theorem allRecords_append (requests others : List (Request F)) :
    allRecords deck drawn (requests ++ others)
      = allRecords deck drawn requests ++ allRecords deck (afterAll drawn requests) others := by
  induction requests generalizing drawn with
  | nil => rfl
  | cons request requests ih =>
      rw [List.cons_append, allRecords, allRecords, ih, List.append_assoc]
      rfl

end Request

end Spdz
