import Spdz.Proofs.Gates.Drawn
import Spdz.Proofs.Gates.Inputs
import Spdz.Proofs.Gates.Opened
import Spdz.Proofs.Gates.Revealed
import Spdz.Protocol.Gate

/-!
# What a batch is asked for

A batch has the same protocols at all parties, but each party has its own arguments for them.  A
request is one position of a batch with the arguments of all parties.  It says which gate each party
has there, when nobody has a reason to fail, and what all of them end with.

* `Request` — one position of a batch; `Request.gate`, what a party has there.
* `Request.Ready`, `Request.Authentic` — what is needed of the arguments, and what is needed for the
  records of it to be trusted.
* `Request.Results` — what the parties end with.
* **`Request.departs`** — a request that is ready goes well.
* `Request.entrants`, `Request.AllResults` — a whole batch.
-/

namespace Spdz

variable {F : FieldSpec}

/-- One position of a batch, with the arguments of all parties. -/
inductive Request (F : FieldSpec) where
  | input (inputter : PartyId) (value : PartyId → Option (Elem F))
  | checkedInput (inputter : PartyId) (value : PartyId → Option (Elem F))
  | multiply (x y : PartyId → Share F)
  | openAll (x : PartyId → Share F)
  | openTo (x : PartyId → Share F) (target : PartyId)
  | element
  | bit
  | pipe (length : Nat)
  | known (value : Elem F)
  | reveal (value : PartyId → Elem F)
  | validation (values : List Bytes)
  | macCheck

/-- Results of all parties that are a sharing of a value. -/
def Deck.Shares (deck : Deck F) (out : PartyId → Output F) (v : Elem F) : Prop :=
  ∃ z : PartyId → Share F, (∀ i, IsMember deck.parties i → out i = .share (z i)) ∧
    IsSharing deck.parties deck.key z v

namespace Request

/-- The protocol that a party has there, not yet begun. -/
def gate (i : PartyId) : Request F → Gate F
  | input inputter value => .input (.new (value i) inputter)
  | checkedInput inputter value => .checkedInput (.new (value i) inputter)
  | multiply x y => .multiply { x := x i, y := y i }
  | openAll x => .openAll { share := x i }
  | openTo x target => .openTo { share := x i, target }
  | element => .element {}
  | bit => .bit {}
  | pipe length => .pipe { length }
  | known value => .known { value }
  | reveal value => .reveal { value := value i }
  | validation values => .validation { values }
  | macCheck => .macCheck {}

/-- The number of rounds after the first, among so many parties. -/
def left (n : Nat) : Request F → Nat
  | element | bit | pipe _ | known _ => 0
  | input .. | multiply .. | openAll _ | openTo .. | validation _ => 1
  | checkedInput .. => 2
  | reveal _ => Reveal.rounds n - 1
  | macCheck => 2 * MacCheck.switch n

/-- The item that every party draws for it. -/
def item : Request F → Option Item
  | input inputter _ | checkedInput inputter _ => some (.mask inputter)
  | openTo _ target => some (.mask target)
  | multiply .. => some .triple
  | element => some .element
  | bit => some .bit
  | pipe _ => some .pipe
  | openAll _ | known _ | reveal _ | validation _ | macCheck => none

/-- So many items of each kind when it is done. -/
def after (drawn : Item → Nat) (request : Request F) : Item → Nat :=
  match request.item with
  | some item => oneMore item drawn
  | none => drawn

/-- **Ready.**  Nobody has a reason to fail: there are the parties that are meant, the inputter has a
value, and pipes are as long as they are dealt. -/
def Ready (deck : Deck F) : Request F → Prop
  | input inputter value | checkedInput inputter value =>
    IsMember deck.parties inputter ∧ (value inputter).isSome
  | openTo _ target => IsMember deck.parties target
  | pipe length => length = deck.length
  | _ => True

/-- What is opened is authentic. -/
def Authentic (deck : Deck F) : Request F → Prop
  | multiply x y => deck.Authentic x ∧ deck.Authentic y
  | openAll x | openTo x _ => deck.Authentic x
  | _ => True

/-- **Results.**  What all parties end with, after so many items of each kind were drawn before. -/
def Results (deck : Deck F) (drawn : Item → Nat) (out : PartyId → Output F) : Request F → Prop
  | input inputter value | checkedInput inputter value =>
    ∃ v, value inputter = some v ∧ deck.Shares out v
  | multiply x y => ∃ z : PartyId → Share F,
    (∀ i, IsMember deck.parties i → out i = .share (z i)) ∧
      ∀ u v, IsSharing deck.parties deck.key x u → IsSharing deck.parties deck.key y v →
        IsSharing deck.parties deck.key z (u * v)
  | openAll x => ∀ i, IsMember deck.parties i → out i = .value (deck.opened x)
  | openTo x target => ∀ i, IsMember deck.parties i →
    out i = .target (if i = target then some (deck.opened x) else none)
  | element => ∀ i, IsMember deck.parties i →
    out i = .share (deck.dealt i .element (drawn .element))
  | bit => ∀ i, IsMember deck.parties i → out i = .share (deck.dealt i .bit (drawn .bit))
  | pipe _ => ∀ i, IsMember deck.parties i → out i = .shares (deck.dealt i .pipe (drawn .pipe))
  | known value => ∀ i, IsMember deck.parties i →
    out i = .share (.ofPublic value (deck.keyShare i) i)
  | reveal value => ∀ i, IsMember deck.parties i →
    out i = .values ((List.range' 1 deck.parties).map value)
  | validation _ | macCheck => ∀ i, IsMember deck.parties i → out i = .unit

/-- All parties have results, and these are as they should be. -/
def Fulfilled (deck : Deck F) (drawn : Item → Nat) (request : Request F) (p : PartyId → Gate F) :
    Prop :=
  ∃ out : PartyId → Output F, (∀ i, IsMember deck.parties i → (p i).output = some (out i)) ∧
    request.Results deck drawn out

variable {deck : Deck F} {config : Config} {trusted : Prop} {drawn : Item → Nat}

/-- **A request that is ready goes well**, in the midst of any others. -/
theorem departs (declared : F.IsDeclared) {request : Request F} (ready : request.Ready deck)
    (authentic : trusted → request.Authentic deck) : Departs deck.parties (InStep deck config True)
    (InStep deck config trusted) (request.Fulfilled deck drawn) (request.left deck.parties) 0
    (fun i => request.gate i) (fun _ => []) drawn (request.after drawn) := by
  have shares : ∀ {P : Type} {p : PartyId → P} {output : P → Option (Share F)} {v : Elem F},
      (∃ z, (∀ i, IsMember deck.parties i → output (p i) = some (z i)) ∧
        IsSharing deck.parties deck.key z v) →
      ∃ out : PartyId → Output F,
        (∀ i, IsMember deck.parties i → (output (p i)).map Output.share = some (out i)) ∧
        deck.Shares out v := by
    rintro P p output v ⟨z, outputs, sharing⟩
    refine ⟨fun i => .share (z i), fun i member => ?_, z, fun _ _ => rfl, sharing⟩
    rw [outputs i member]
    rfl
  cases request with
  | input inputter value =>
      obtain ⟨v, present⟩ := Option.isSome_iff_exists.mp ready.2
      refine (Input.departs declared ready.1 present).embed (fun _ _ => rfl) fun p post => ?_
      obtain ⟨out, outputs, sharing⟩ := shares post
      exact ⟨out, outputs, v, present, sharing⟩
  | checkedInput inputter value =>
      obtain ⟨v, present⟩ := Option.isSome_iff_exists.mp ready.2
      refine (CheckedInput.departs declared ready.1 present).embed (fun _ _ => rfl) fun p post => ?_
      obtain ⟨out, outputs, sharing⟩ := shares post
      exact ⟨out, outputs, v, present, sharing⟩
  | multiply x y =>
      refine (Multiply.departs declared (fun trust => (authentic trust).1)
        fun trust => (authentic trust).2).embed (fun _ _ => rfl) ?_
      rintro p ⟨z, outputs, sharing⟩
      exact ⟨fun i => .share (z i), fun i member => congrArg (Option.map Output.share) (outputs i member), z,
        fun _ _ => rfl, sharing⟩
  | openAll x =>
      refine (Open.departs declared authentic).embed (fun _ _ => rfl) fun p outputs => ?_
      exact ⟨_, fun i member => congrArg (Option.map Output.value) (outputs i member), fun _ _ => rfl⟩
  | openTo x target =>
      refine (OpenTo.departs declared ready authentic).embed (fun _ _ => rfl) fun p outputs => ?_
      exact ⟨_, fun i member => congrArg (Option.map Output.target) (outputs i member), fun _ _ => rfl⟩
  | element =>
      refine RandomElement.departs.embed (fun _ _ => rfl) fun p outputs => ?_
      exact ⟨_, fun i member => congrArg (Option.map Output.share) (outputs i member), fun _ _ => rfl⟩
  | bit =>
      refine RandomBit.departs.embed (fun _ _ => rfl) fun p outputs => ?_
      exact ⟨_, fun i member => congrArg (Option.map Output.share) (outputs i member), fun _ _ => rfl⟩
  | pipe length =>
      obtain rfl : length = deck.length := ready
      refine ExpPipe.departs.embed (fun _ _ => rfl) fun p outputs => ?_
      exact ⟨_, fun i member => congrArg (Option.map Output.shares) (outputs i member), fun _ _ => rfl⟩
  | known value =>
      refine (KnownValue.departs fun _ => value).embed (fun _ _ => rfl) fun p outputs => ?_
      exact ⟨_, fun i member => congrArg (Option.map Output.share) (outputs i member), fun _ _ => rfl⟩
  | reveal value =>
      refine (Reveal.departs value).embed (fun _ _ => rfl) fun p outputs => ?_
      exact ⟨_, fun i member => congrArg (Option.map Output.values) (outputs i member), fun _ _ => rfl⟩
  | validation values =>
      refine (BroadcastValidation.departs values).embed (fun _ _ => rfl) fun p done => ?_
      refine ⟨fun _ => .unit, fun i member => ?_, fun _ _ => rfl⟩
      simp only [Gate.output, HasOutput.output, done i member, if_true, Option.map_some]
  | macCheck =>
      refine MacCheck.departs.embed (fun _ _ => rfl) fun p passed => ?_
      refine ⟨fun _ => .unit, fun i member => ?_, fun _ _ => rfl⟩
      simp only [Gate.output, HasOutput.output, passed i member, Option.map_some]

/-! ## Batches of requests -/

variable (deck)

/-- So many items of each kind once a batch is done. -/
def afterAll (drawn : Item → Nat) (requests : List (Request F)) : Item → Nat :=
  requests.foldl (fun drawn request => request.after drawn) drawn

/-- What all requests of a batch end with. -/
def AllResults : (drawn : Item → Nat) → List (Request F) → List (PartyId → Output F) → Prop
  | _, [], [] => True
  | drawn, request :: requests, out :: outputs =>
    request.Results deck drawn out ∧ AllResults (request.after drawn) requests outputs
  | _, _, _ => False

/-- The protocols that all parties have for the requests of a batch. -/
def entrants : (drawn : Item → Nat) → List (Request F) → List (Entrant (Gate F))
  | _, [] => []
  | drawn, request :: requests =>
    { protocol := fun i => request.gate i
      came := fun _ => []
      left := request.left deck.parties + 1
      post := request.Fulfilled deck drawn } :: entrants (request.after drawn) requests

variable {deck}

theorem map_protocol_entrants (requests : List (Request F)) (i : PartyId) :
    (entrants deck drawn requests).map (fun e => e.protocol i)
      = requests.map fun request => request.gate i := by
  induction requests generalizing drawn with
  | nil => rfl
  | cons request requests ih => rw [entrants, List.map_cons, List.map_cons, ih]

theorem fresh_entrants (requests : List (Request F)) :
    Entrant.Fresh (entrants deck drawn requests) := by
  induction requests generalizing drawn with
  | nil => exact fun e mem => absurd mem List.not_mem_nil
  | cons request requests ih => exact List.forall_mem_cons.mpr ⟨⟨Nat.succ_pos _, rfl⟩, ih⟩

/-- No protocol of the library has more than nine rounds, so none reaches the limit. -/
theorem rounds_lt (n : Nat) (request : Request F) : request.left n + 1 < maxRounds := by
  have few : Reveal.rounds n ≤ 5 := by
    rw [Reveal.rounds]
    split_ifs <;> decide
  have left : request.left n ≤ 8 := by
    cases request <;> simp only [left, MacCheck.switch] <;> omega
  exact Nat.lt_of_le_of_lt (Nat.succ_le_succ left) (by decide)

theorem longest_entrants_lt (requests : List (Request F)) :
    Entrant.longest (entrants deck drawn requests) < maxRounds := by
  induction requests generalizing drawn with
  | nil => exact (by decide : 0 < maxRounds)
  | cons request requests ih =>
      rw [entrants, Entrant.longest_cons]
      exact Nat.max_lt.mpr ⟨request.rounds_lt deck.parties, ih⟩

/-- Requests that are ready go well, one after the other. -/
theorem goAll_entrants (declared : F.IsDeclared) {requests : List (Request F)}
    (ready : ∀ request ∈ requests, request.Ready deck)
    (authentic : trusted → ∀ request ∈ requests, request.Authentic deck) :
    Entrant.GoAll (InStep deck config True) (InStep deck config trusted) deck.parties 0
      (entrants deck drawn requests) drawn (afterAll drawn requests) := by
  induction requests generalizing drawn with
  | nil => rfl
  | cons request requests ih =>
      obtain ⟨first, others⟩ := List.forall_mem_cons.mp ready
      exact ⟨request.after drawn,
        request.departs declared first fun trust => (List.forall_mem_cons.mp (authentic trust)).1,
        ih others fun trust => (List.forall_mem_cons.mp (authentic trust)).2⟩

/-- What protocols that are fulfilled show. -/
theorem exists_outputs {requests : List (Request F)} {gates : List (PartyId → Gate F)}
    (posts : List.Forall₂ (fun e p => e.post p) (entrants deck drawn requests) gates) :
    ∃ outputs, AllResults deck drawn requests outputs ∧ ∀ i, IsMember deck.parties i →
      gates.map (fun gate => (gate i).output) = outputs.map fun out => some (out i) := by
  induction requests generalizing drawn gates with
  | nil =>
      cases posts
      exact ⟨[], trivial, fun _ _ => rfl⟩
  | cons request requests ih =>
      cases posts with
      | cons first others =>
          obtain ⟨out, shown, results⟩ := first
          obtain ⟨outputs, all, others⟩ := ih others
          refine ⟨out :: outputs, ⟨results, all⟩, fun i member => ?_⟩
          rw [List.map_cons, List.map_cons, shown i member, others i member]

end Request

end Spdz
