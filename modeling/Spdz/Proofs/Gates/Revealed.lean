import Spdz.Proofs.Evaluation.Verdict
import Spdz.Proofs.Protocol.InStep

/-!
# Protocols that compare and reveal

These take several rounds, whose states and messages are known already for honest parties.  Between
their rounds the parties may be busy with other protocols, so nothing is supposed about a party but
that it has kept its place and its share of the key.

* `BroadcastValidation.departs` — the comparison of equal lists passes.
* `Reveal.departs` — everybody ends with the values of all.
* **`MacCheck.departs`** — a check of records that can be trusted passes, also in the midst of others.
-/

namespace Spdz

variable {F : FieldSpec} {deck : Deck F} {config : Config} {trusted : Prop} {drawn : Item → Nat}
  {S : PartyId → SimulatedParty F}

/-! ## Comparing -/

theorem BroadcastValidation.departs (values : List Bytes) : Departs deck.parties
    (InStep deck config True) (InStep deck config trusted)
    (fun p : PartyId → BroadcastValidation => ∀ i, IsMember deck.parties i → (p i).isDone = true)
    1 0 (fun _ => { values }) (fun _ => []) drawn drawn := by
  intro S inStep
  refine ⟨fun _ => announced { values }, S, fun _ => [broadcastDigest values], fun i _ => ?_, inStep,
    fun g S inStep => ⟨fun _ => { announced { values } with isDone := true }, S, fun _ => [],
      fun i _ => ?_, inStep, fun _ _ => rfl, rfl⟩⟩
  · exact play_evaluate_zero { values } fun _ => []
  · exact play_evaluate_same { values }

/-! ## Revealing -/

namespace Reveal

/-- The rounds after the first. -/
theorem course {o : PartyId → Opening F} (whole : ∀ j, IsMember deck.parties j → (o j).IsWhole)
    (left : Nat) {round : Nat} (begun : 0 < round) (due : round + left = rounds deck.parties) :
    Course deck.parties (InStep deck config trusted)
      (fun p : PartyId → Reveal F => ∀ i, IsMember deck.parties i →
        (p i).output = some (shown deck.parties o))
      left round (fun i => before deck.parties o i round) (sent deck.parties o round) := by
  induction left generalizing round with
  | zero =>
      obtain rfl : round = rounds deck.parties := due
      exact ⟨fun _ _ => output_before_rounds, sent_rounds⟩
  | succ left ih =>
      intro g S inStep
      refine ⟨_, S, _, fun i member => ?_, inStep, ih (Nat.succ_pos round) (by omega)⟩
      have status : (if round + 1 = rounds deck.parties then .isDone else .hasMoreRounds)
          = statusWith left := if_congr (by omega) rfl rfl
      rw [← status]
      exact play_round whole member (inStep.id i member) (inStep.parties i member) begun (by omega)

theorem departs (value : PartyId → Elem F) : Departs deck.parties (InStep deck config True)
    (InStep deck config trusted)
    (fun p : PartyId → Reveal F => ∀ i, IsMember deck.parties i →
      (p i).output = some ((List.range' 1 deck.parties).map value))
    (rounds deck.parties - 1) 0 (fun i => { value := value i }) (fun _ => []) drawn drawn := by
  intro S inStep
  have more : 1 < rounds deck.parties := by
    rw [rounds]
    split_ifs <;> decide
  have status : statusWith (rounds deck.parties - 1) = .hasMoreRounds := if_neg (by omega)
  refine ⟨_, fun i => committed (value i) (S i), _, fun i member => ?_,
    inStep.withRng _, course (o := fun i => openingOf (value i) (S i))
      (fun j _ => (Commitment.commit_spec _ _).1) _ Nat.one_pos (by omega)⟩
  rw [status]
  exact play_first (inStep.parties i member) (inStep.id i member) member rfl

end Reveal

/-! ## Checking -/

/-- Records that can be trusted are sound. -/
theorem InStep.sound (inStep : InStep deck config trusted drawn S) (trust : trusted) :
    ∃ values, MacCheck.Sound deck.parties S values := by
  obtain ⟨records, common, sharings⟩ := inStep.records
  refine ⟨records.map (·.value), fun i member => ?_, fun j small => ?_⟩
  · rw [common i member, List.map_map]
    rfl
  · rw [List.length_map] at small
    have sharing := sharings trust records[j] (List.getElem_mem small)
    have macs : ∀ i ∈ Finset.Icc 1 deck.parties,
        MacCheck.macAt (S i).opened.toList j = (records[j].share i).mac := fun i mem => by
      rw [common i (Finset.mem_Icc.mp mem)]
      simp [MacCheck.macAt, small, JointRecord.ofParty]
    rw [Finset.sum_congr rfl macs, inStep.sum_keyShare, sharing.mac]
    simp [small]

namespace MacCheck

variable {o q : PartyId → Opening F} {records : PartyId → List (OpenedValue F)}

/-- What a check is to end with. -/
def Passed (n : Nat) (p : PartyId → MacCheck F) : Prop := ∀ i, IsMember n i → (p i).stage = .passed

/-- The rounds for the sigmas alone. -/
theorem course_sigmas (whole : ∀ j, IsMember deck.parties j → (q j).IsWhole)
    (zero : ∑ j ∈ Finset.Icc 1 deck.parties, (q j).value = 0) (left : Nat) {round : Nat}
    (late : switch deck.parties < round) (due : round + left = 2 * switch deck.parties) :
    Course deck.parties (InStep deck config trusted) (Passed deck.parties) (left + 1) round
      (fun i => before deck.parties o q (records i) i round) (sent deck.parties o q round) := by
  induction left generalizing round with
  | zero =>
      obtain rfl : round = 2 * switch deck.parties := due
      intro g S inStep
      refine ⟨fun i => { stage := .passed, records := records i }, S, fun _ => [],
        fun i member => ?_, inStep, fun _ _ => rfl, rfl⟩
      refine (play_last whole member (inStep.id i member) (inStep.parties i member)).trans ?_
      rw [if_pos zero]
      rfl
  | succ left ih =>
      intro g S inStep
      exact ⟨_, S, _, fun i member => play_sigmas whole member (inStep.id i member)
        (inStep.parties i member) late (by omega), inStep,
        ih (Nat.lt_succ_of_lt late) (by omega)⟩

/-- The rounds for the coins.  What opens the sigmas is chosen when the coins are known, and until
then it does not matter. -/
theorem course_coins (whole : ∀ j, IsMember deck.parties j → (o j).IsWhole)
    {value : PartyId → Elem F}
    (computed : ∀ i, IsMember deck.parties i → Spdz.sigma (deck.keyShare i)
      (coefficients (Reveal.shown deck.parties o) (records i).length) (records i) = value i)
    (zero : ∑ i ∈ Finset.Icc 1 deck.parties, value i = 0) (left : Nat) {round : Nat}
    (begun : 0 < round) (due : round + left = switch deck.parties) :
    Course deck.parties (InStep deck config trusted) (Passed deck.parties)
      (left + (switch deck.parties + 1)) round
      (fun i => before deck.parties o o (records i) i round) (sent deck.parties o o round) := by
  have more : 1 < switch deck.parties := switch_pos
  induction left generalizing round with
  | zero =>
      obtain rfl : round = switch deck.parties := due
      rw [Nat.zero_add]
      intro g S inStep
      have status : statusWith (switch deck.parties) = .hasMoreRounds := if_neg (by omega)
      let q (i : PartyId) : Opening F := Reveal.openingOf (value i) (S i)
      have later : Course deck.parties (InStep deck config trusted) (Passed deck.parties)
          (switch deck.parties - 1 + 1) (switch deck.parties + 1)
          (fun i => before deck.parties o q (records i) i (switch deck.parties + 1))
          (sent deck.parties o q (switch deck.parties + 1)) :=
        course_sigmas (fun j _ => (Commitment.commit_spec _ _).1) zero _ (Nat.lt_succ_self _)
          (by omega)
      rw [Nat.sub_add_cancel more.le] at later
      refine ⟨_, fun i => Reveal.committed (value i) (S i), _, fun i member => ?_,
        inStep.withRng _, later⟩
      have keyShare : (S i).keyShare = deck.keyShare i := inStep.keyShare member
      have state : before deck.parties o o (records i) i (switch deck.parties)
          = before deck.parties o q (records i) i (switch deck.parties) := by
        rw [before_of_le le_rfl, before_of_le le_rfl]
      have messages : sent deck.parties o o (switch deck.parties)
          = sent deck.parties o q (switch deck.parties) := by
        rw [sent_of_le le_rfl, sent_of_le le_rfl]
      simp only [status, state, messages]
      exact play_switch whole member (inStep.id i member) (inStep.parties i member)
        ((congrArg (Spdz.sigma · _ _) keyShare).trans (computed i member)) rfl
  | succ left ih =>
      rw [Nat.succ_add]
      intro g S inStep
      have status : statusWith (left + (switch deck.parties + 1)) = .hasMoreRounds :=
        if_neg (by omega)
      have next := ih (Nat.succ_pos round) (by omega)
      refine ⟨_, S, _, fun i member => ?_, inStep, next⟩
      rw [status]
      exact play_toss whole member (inStep.id i member) (inStep.parties i member) begun (by omega)

theorem departs : Departs deck.parties (InStep deck config True) (InStep deck config trusted)
    (Passed deck.parties) (2 * switch deck.parties) 0 (fun _ => ({} : MacCheck F)) (fun _ => [])
    drawn drawn := by
  intro S inStep
  have more : 1 < switch deck.parties := switch_pos
  have status : statusWith (2 * switch deck.parties) = .hasMoreRounds := if_neg (by omega)
  obtain ⟨values, sound⟩ := inStep.sound trivial
  have computed : ∀ i, IsMember deck.parties i → Spdz.sigma (deck.keyShare i)
      (coefficients (Reveal.shown deck.parties (coinOpening S)) (S i).opened.toList.length)
      (S i).opened.toList = discrepancyShare deck.parties S i := by
    intro i member
    have sum : (Reveal.shown deck.parties (coinOpening S)).sum
        = ∑ i ∈ Finset.Icc 1 deck.parties, coinOf (S i) := sum_range' _
    rw [sigma_eq, sum, ← inStep.keyShare member]
    rfl
  have later : Course deck.parties (InStep deck config trusted) (Passed deck.parties)
      (switch deck.parties - 1 + (switch deck.parties + 1)) 1
      (fun i => before deck.parties (coinOpening S) (coinOpening S) (S i).opened.toList i 1)
      (sent deck.parties (coinOpening S) (coinOpening S) 1) :=
    course_coins (fun j _ => coinOpening_isWhole j) computed (discrepancy_eq_zero sound) _
      Nat.one_pos (by omega)
  have left : switch deck.parties - 1 + (switch deck.parties + 1) = 2 * switch deck.parties := by
    omega
  rw [left] at later
  refine ⟨_, tossing S, _, fun i member => ?_, inStep.drained.withRng _, later⟩
  rw [status]
  exact play_first (inStep.parties i member) (inStep.id i member) member rfl

end MacCheck

end Spdz
