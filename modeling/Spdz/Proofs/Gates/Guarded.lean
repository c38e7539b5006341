import Spdz.Proofs.Protocol.Checking
import Spdz.Proofs.Protocol.Trapping
import Spdz.Protocol.MacCheck
import Spdz.Protocol.Input
import Spdz.Protocol.Multiply
import Spdz.Protocol.Open

/-!
# Protocols without traps

The rounds in which a list is read at an index, a message is cut in pieces or bytes are copied, written
with operations that may trap.  Each is shown to be the round of the protocol, in which nothing can trap,
for any state of the protocol and anything that is received.  What makes an index good is always near at
hand: a message of one element that was read has one element, the sums are as many as this party's own
elements, a place was looked up before it is filled, and a digest is as long as a seed.

* `Trapping.evaluateInput_eq`, `Trapping.evaluateCheckedInput_eq` — inputs.
* `Trapping.evaluateOpen_eq`, `Trapping.evaluateOpenTo_eq`, `Trapping.evaluateMultiply_eq` — openings.
* `Trapping.evaluateReveal_eq` — revelations.
* `Trapping.evaluateMacCheck_eq` — the check.
-/

namespace Spdz

namespace Trapping

variable {F : FieldSpec} {σ : Type}

/-! ## Inputs -/

/-- The difference, as this party sent it or as the inputter sends it. -/
def receiveMasked : Round F σ (MaskedInput F) (Elem F) := do
  let state ← get
  match state.masked with
  | some masked => return masked
  | none =>
    let masked ← receiveElement state.inputter
    set { state with masked := some masked }
    return masked

/-- A round of an input. -/
def evaluateInput [Supplier F σ] (round : Nat) : Round F σ (Input F) Status := do
  match round with
  | 1 =>
    discard <| within Input.state (fun inner outer => { outer with state := inner }) receiveMasked
    let share ← sure (Input.masking (MaskedInput.combine 1))
    modify fun state => { state with output := some share }
    return .isDone
  | _ => sure (Input.evaluate round)

/-- A round of a checked input. -/
def evaluateCheckedInput [Supplier F σ] (round : Nat) : Round F σ (CheckedInput F) Status := do
  match round with
  | 1 =>
    let masked ←
      within CheckedInput.state (fun inner outer => { outer with state := inner }) receiveMasked
    let (_, validation) ← sure <|
      Round.apart { values := [masked.encode] } (BroadcastValidation.evaluate 0)
    modify fun state => { state with validation := some validation }
    return .hasMoreRounds
  | _ => sure (CheckedInput.evaluate round)

section Inputs

variable (declared : F.IsDeclared)

include declared

theorem receiveMasked_eq : (receiveMasked : Round F σ _ _) = sure MaskedInput.receive := by
  simp only [receiveMasked, MaskedInput.receive, receiveElement_eq declared, sure_bind, sure_get]
  refine bind_congr fun state => ?_
  cases state.masked with
  | some masked => rfl
  | none => simp

theorem evaluateInput_eq [Supplier F σ] (round : Nat) :
    (evaluateInput round : Round F σ _ _) = sure (Input.evaluate round) := by
  unfold evaluateInput
  split
  · simp [Input.evaluate, Input.masking, receiveMasked_eq declared]
  · rfl

theorem evaluateCheckedInput_eq [Supplier F σ] (round : Nat) :
    (evaluateCheckedInput round : Round F σ _ _) = sure (CheckedInput.evaluate round) := by
  unfold evaluateCheckedInput
  split
  · simp [CheckedInput.evaluate, CheckedInput.masking, receiveMasked_eq declared]
  · rfl

end Inputs

/-! ## Openings -/

/-- A round of an opening. -/
def evaluateOpen (round : Nat) : Round F σ (Open F) Status := do
  match round with
  | 1 =>
    let share := (← get).share
    let received ← receiveElementsFromAll 1
    let value ← attempt (sums [share.value] received)[0]?
    sure (Round.record share value)
    modify fun state => { state with output := some value }
    return .isDone
  | _ => sure (Open.evaluate round)

/-- A round of an opening to one party. -/
def evaluateOpenTo [Supplier F σ] (round : Nat) : Round F σ (OpenTo F) Status := do
  match round with
  | 1 =>
    let state ← get
    match state.mask with
    | none => throw (.invalidRound "OpenToPartyProtocol" 1)
    | some mask =>
      let masked := state.share - mask.mask
      let received ← receiveElementsFromAll 1
      let opened ← attempt (sums [masked.value] received)[0]?
      sure (Round.record masked opened)
      let result ←
        if (← sure Round.party).id = state.target then
          match mask.real with
          | some real => pure (some (opened + real))
          | none => throw (.preprocessing .missingMaskValue)
        else pure none
      set { state with output := some result }
      return .isDone
  | _ => sure (OpenTo.evaluate round)

/-- A round of a multiplication. -/
def evaluateMultiply [Supplier F σ] (round : Nat) : Round F σ (Multiply F) Status := do
  match round with
  | 1 =>
    let state ← get
    match state.triple with
    | none => throw (.invalidRound "MultiplyProtocol" 1)
    | some ⟨a, b, c⟩ =>
      let epsilon := state.x - a
      let delta := state.y - b
      let received ← receiveElementsFromAll 2
      let opened := sums [epsilon.value, delta.value] received
      let e ← attempt opened[0]?
      let d ← attempt opened[1]?
      sure (Round.record epsilon e)
      sure (Round.record delta d)
      let party ← sure Round.party
      let product := (c + b.scale e + a.scale d).addPublic (e * d) party.keyShare party.id
      set { state with output := some product }
      return .isDone
  | _ => sure (Multiply.evaluate round)

section Openings

variable (declared : F.IsDeclared)

include declared

theorem evaluateOpen_eq (round : Nat) :
    (evaluateOpen round : Round F σ _ _) = sure (Open.evaluate round) := by
  unfold evaluateOpen
  split
  · simp only [Open.evaluate, receiveElementsFromAll_eq declared one_le_two, getElem?_sums,
      List.getElem?_cons_zero, Option.map_some, attempt_some, pure_bind, sure_bind, sure_get,
      sure_modify, sure_pure]
  · rfl

theorem evaluateOpenTo_eq [Supplier F σ] (round : Nat) :
    (evaluateOpenTo round : Round F σ _ _) = sure (OpenTo.evaluate round) := by
  unfold evaluateOpenTo
  split
  · simp only [OpenTo.evaluate, sure_bind, sure_get]
    refine bind_congr fun state => ?_
    cases state.mask with
    | none => rfl
    | some mask =>
        obtain ⟨share, real⟩ := mask
        cases real <;>
          simp only [receiveElementsFromAll_eq declared one_le_two, getElem?_sums,
            List.getElem?_cons_zero, Option.map_some, attempt_some, pure_bind, sure_bind, sure_set,
            sure_throw, sure_pure, sure_ite]
  · rfl

theorem evaluateMultiply_eq [Supplier F σ] (round : Nat) :
    (evaluateMultiply round : Round F σ _ _) = sure (Multiply.evaluate round) := by
  unfold evaluateMultiply
  split
  · simp only [Multiply.evaluate, sure_bind, sure_get]
    refine bind_congr fun state => ?_
    cases state.triple with
    | none => rfl
    | some triple =>
        simp only [receiveElementsFromAll_eq declared le_rfl, getElem?_sums,
          List.getElem?_cons_zero, List.getElem?_cons_succ, Option.map_some, attempt_some, pure_bind,
          sure_bind, sure_set, sure_pure]
  · rfl

end Openings

/-! ## Revelations -/

/-- Commit to the value and send the commitment. -/
def commit : Round F σ (Reveal F) Unit := do
  let party ← sure Round.party
  let ((commitment, opening), rng) := Commitment.commit (← get).value party.rng
  set { party with rng }
  sure (Round.call (.sendAll commitment.digest))
  let places : List (Option Commitment) := List.replicate party.parties none
  modify fun state => { state with commitments := places }
  let commitments ← fillSlot places party.id commitment
  modify fun state => { state with commitments, opening := some opening }

theorem commit_eq : (commit : Round F σ _ _) = sure Reveal.commit := by
  simp [commit, Reveal.commit, fillSlot_eq]

/-- Keep the commitment that a party sent. -/
def keepCommitment (peer : PartyId) (message : Bytes) : Round F σ (Reveal F) Unit := do
  let commitment ← sure (Round.ofExcept (.malformedMessage peer) (Commitment.ofBytes message))
  let commitments ← fillSlot (← get).commitments peer commitment
  modify fun state => { state with commitments }

theorem keepCommitment_eq (peer : PartyId) (message : Bytes) :
    (keepCommitment peer message : Round F σ _ _) = sure (Reveal.keepCommitment peer message) := by
  simp [keepCommitment, Reveal.keepCommitment, fillSlot_eq]

/-- Receive all commitments. -/
def receiveCommitments : Round F σ (Reveal F) Unit := do
  (← sure (Round.call .receiveAll)).forM fun (peer, message) => keepCommitment peer message
  if (← sure Round.party).parties > 2 then
    modify fun state =>
      let digests := (state.commitments.filterMap id).map (·.digest)
      { state with validation := some { values := digests } }

theorem receiveCommitments_eq :
    (receiveCommitments : Round F σ _ _) = sure Reveal.receiveCommitments := by
  simp [receiveCommitments, Reveal.receiveCommitments, keepCommitment_eq, forM_sure]

/-- Put the opening that a party sent in its place, if it opens that party's commitment. -/
def checkOpening (places : List (Option (Opening F))) (peer : PartyId) (message : Bytes) :
    Round F σ (Reveal F) (List (Option (Opening F))) := do
  let opening ← decoded (.malformedMessage peer) (openingOfBytes F message)
  match ← readSlot (← get).commitments peer with
  | some commitment =>
    if commitment.verify opening then fillSlot places peer opening
    else throw (.commitmentMismatch peer)
  | none => throw (.commitmentMismatch peer)

theorem checkOpening_eq (places : List (Option (Opening F))) (peer : PartyId) (message : Bytes) :
    (checkOpening places peer message : Round F σ _ _)
      = sure (Reveal.checkOpening places peer message) := by
  simp only [checkOpening, Reveal.checkOpening, readSlot_eq, fillSlot_eq,
    decoded_eq _ (run_openingOfBytes message), sure_bind, sure_get]
  refine bind_congr fun opening => bind_congr fun state => bind_congr fun entry => ?_
  cases entry with
  | none => rfl
  | some commitment => simp

/-- Receive and check all openings. -/
def receiveOpenings : Round F σ (Reveal F) (List Bytes) := do
  let party ← sure Round.party
  match (← get).opening with
  | none => sure (Reveal.noRound 2)
  | some own =>
    modify fun state => { state with opening := none }
    let received ← sure (Round.call .receiveAll)
    let places ← received.foldlM (fun places (peer, message) => checkOpening places peer message)
      (List.replicate party.parties none)
    let places ← fillSlot places party.id own
    let openings := places.filterMap id
    modify fun state => { state with values := openings.map (·.value) }
    return openings.map (·.toBytes)

theorem receiveOpenings_eq : (receiveOpenings : Round F σ _ _) = sure Reveal.receiveOpenings := by
  simp only [receiveOpenings, Reveal.receiveOpenings, sure_bind, sure_get]
  refine bind_congr fun party => bind_congr fun state => ?_
  cases state.opening with
  | none => rfl
  | some own =>
      simp only [checkOpening_eq, foldlM_sure, fillSlot_eq, sure_bind, sure_modify, sure_pure]

/-- A round of a revelation. -/
def evaluateReveal (round : Nat) : Round F σ (Reveal F) Status := do
  let validated : Bool := (← sure Round.party).parties > 2
  match round, validated with
  | 0, _ =>
    commit
    return .hasMoreRounds
  | 1, true =>
    receiveCommitments
    sure (Reveal.validate 0)
    return .hasMoreRounds
  | 1, false =>
    receiveCommitments
    sure Reveal.sendOpening
    return .hasMoreRounds
  | 2, false =>
    discard receiveOpenings
    sure Reveal.finish
  | 3, true =>
    let openings ← receiveOpenings
    modify fun state => { state with validation := some { values := openings } }
    sure (Reveal.validate 0)
    return .hasMoreRounds
  | 2, true =>
    sure (Reveal.validate 1)
    sure Reveal.sendOpening
    return .hasMoreRounds
  | 4, true =>
    sure (Reveal.validate 1)
    sure Reveal.finish
  | _, _ => sure (Reveal.noRound round)

/-- **Nothing traps in a revelation**, whatever state it is in and whatever is received. -/
theorem evaluateReveal_eq (round : Nat) :
    (evaluateReveal round : Round F σ _ _) = sure (Reveal.evaluate round) := by
  simp only [evaluateReveal, Reveal.evaluate, sure_bind]
  refine bind_congr fun party => ?_
  split <;> simp [commit_eq, receiveCommitments_eq, receiveOpenings_eq, *]

/-! ## The check -/

/-- Number of bytes of a seed. -/
def seedLength : Nat := 32

/-- A round of the coin toss. -/
def tossCoin [Supplier F σ] (round : Nat) (toss : Reveal F) : Round F σ (MacCheck F) Status := do
  let (status, toss) ← apart toss (evaluateReveal round)
  match status, toss.output with
  | .hasMoreRounds, _ => sure (MacCheck.enter (.coin toss))
  | .isDone, none => sure (MacCheck.noRound round)
  | .isDone, some coins =>
    let records := (← get).records
    let keyShare := (← sure Round.party).keyShare
    let seed ← attempt (copy seedLength (sha3 (Elem.sum coins).encode))
    let coefficients := (WordSource.collect (Elem.random F) records.length (ChaCha.ofSeed seed)).1
    let value := sigma keyShare coefficients records
    let (_, sigmas) ← apart { value } (evaluateReveal 0)
    sure (MacCheck.enter (.sigma round sigmas))
  return .hasMoreRounds

theorem tossCoin_eq [Supplier F σ] (round : Nat) (toss : Reveal F) :
    (tossCoin round toss : Round F σ _ _) = sure (MacCheck.tossCoin round toss) := by
  have copied : ∀ coins : List (Elem F), copy seedLength (sha3 (Elem.sum coins).encode)
      = some (sha3 (Elem.sum coins).encode) := fun coins => if_pos (length_sha3 _)
  simp only [tossCoin, MacCheck.tossCoin, evaluateReveal_eq, apart_sure, sure_bind]
  refine bind_congr ?_
  rintro ⟨status, toss⟩
  cases status with
  | hasMoreRounds => simp
  | isDone =>
      cases toss.output with
      | none => simp
      | some coins =>
        simp [copied, coefficients]

/-- A round of revealing the sigmas. -/
def revealSigmas (round start : Nat) (sigmas : Reveal F) : Round F σ (MacCheck F) Status := do
  if round < start then sure (MacCheck.noRound round)
  let inner ← attempt (sub round start)
  let (status, sigmas) ← apart sigmas (evaluateReveal inner)
  match status, sigmas.output with
  | .hasMoreRounds, _ =>
    sure (MacCheck.enter (.sigma start sigmas))
    return .hasMoreRounds
  | .isDone, none => sure (MacCheck.noRound round)
  | .isDone, some values =>
    if Elem.sum values ≠ 0 then throw .macCheckFailed
    sure (MacCheck.enter .passed)
    return .isDone

theorem revealSigmas_eq (round start : Nat) (sigmas : Reveal F) :
    (revealSigmas round start sigmas : Round F σ _ _)
      = sure (MacCheck.revealSigmas round start sigmas) := by
  unfold revealSigmas MacCheck.revealSigmas
  by_cases early : round < start
  · rw [if_pos early, if_pos early]
    rfl
  · have inner : sub round start = some (round - start) := if_pos (Nat.le_of_not_lt early)
    rw [if_neg early, if_neg early, inner]
    simp only [evaluateReveal_eq, apart_sure, attempt_some, pure_bind, sure_bind]
    refine bind_congr ?_
    rintro ⟨status, sigmas⟩
    cases status with
    | hasMoreRounds => simp
    | isDone => cases sigmas.output <;> simp

/-- A round of a check that has begun. -/
def goOn [Supplier F σ] (round : Nat) : Round F σ (MacCheck F) Status := do
  match (← get).stage with
  | .coin toss =>
    sure (MacCheck.enter .idle)
    tossCoin round toss
  | .sigma start sigmas =>
    sure (MacCheck.enter .idle)
    revealSigmas round start sigmas
  | .idle | .passed => sure (MacCheck.noRound round)

theorem goOn_eq [Supplier F σ] (round : Nat) :
    (goOn round : Round F σ _ _) = sure (MacCheck.goOn round) := by
  simp only [goOn, MacCheck.goOn, sure_bind, sure_get]
  refine bind_congr fun state => ?_
  cases state.stage <;> simp [tossCoin_eq, revealSigmas_eq]

/-- A round of a check. -/
def evaluateMacCheck [Supplier F σ] (round : Nat) : Round F σ (MacCheck F) Status := do
  match round, (← get).stage with
  | 0, .idle => sure MacCheck.begin
  | _, _ => pure ()
  goOn round

theorem evaluateMacCheck_eq [Supplier F σ] (round : Nat) :
    (evaluateMacCheck round : Round F σ _ _) = sure (MacCheck.evaluate round) := by
  have whole : (MacCheck.evaluate round : Spdz.Round F σ _ _) = (do
      match round, (← get).stage with
      | 0, .idle => MacCheck.begin
      | _, _ => pure ()
      MacCheck.goOn round) := rfl
  simp only [whole, evaluateMacCheck, sure_bind, sure_get]
  refine bind_congr fun state => ?_
  -- only in round 0 and only where it is idle does a check begin; either way it goes on
  cases round with
  | zero => cases state.stage <;> simp [goOn_eq]
  | succ round => cases state.stage <;> simp [goOn_eq]

end Trapping

end Spdz
