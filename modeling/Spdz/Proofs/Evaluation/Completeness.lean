import Spdz.Proofs.Evaluation.Agreement
import Spdz.Proofs.Evaluation.Lockstep

/-!
# Honest parties come to an end

Parties that keep to a committed revelation all complete it, and those that keep to a broadcast
validation learn whether they hold the same list.  Both are driven by themselves, over channels that
keep the order, and however the steps of the parties are interleaved.

* `Reveal.joint_reveal` — a revelation of all parties.
* `BroadcastValidation.joint_validation` — a validation of all parties, on any lists.
* `BroadcastValidation.verdict` — how it ends for a party; it passes if all lists are the same, and
  fails for everybody if one differs from all others.
* **`Reveal.honest_completeness`** — how both end.
-/

namespace Spdz

variable {F : FieldSpec} {σ Λ : Type} {n : Nat}

/-! ## Revelations -/

namespace Reveal

variable (n) (x : PartyId → Elem F) (S : PartyId → Party F σ)

/-- What opens the commitment of each party. -/
def openingIn (i : PartyId) : Opening F := openingOf (x i) (S i)

/-- The state of a party's revelation before a round. -/
def stateIn (round : Nat) (i : PartyId) : Reveal F := before n (openingIn x S) i round

/-- The state of the party.  It commits in the first round. -/
def partyIn (round : Nat) (i : PartyId) : Party F σ :=
  if round = 0 then S i else committed (x i) (S i)

/-- What the parties sent in the round before. -/
def cameIn (round : Nat) : PartyId → List Bytes := sent n (openingIn x S) round

theorem stateIn_zero (i : PartyId) : stateIn n x S 0 i = { value := x i } := by
  rw [stateIn, before]
  split_ifs <;> rfl

variable {x S} in
theorem partyIn_of_pos {round : Nat} (begun : 0 < round) :
    partyIn x S round = fun i => committed (x i) (S i) :=
  funext fun _ => if_neg (Nat.ne_of_gt begun)

theorem openingIn_isWhole (i : PartyId) : (openingIn x S i).IsWhole :=
  (Commitment.commit_spec _ _).1

variable {n x S} (seated : ∀ i, IsMember n i → (S i).id = i ∧ (S i).parties = n)

include seated

/-- From round to round the parties go through these states. -/
theorem turns_reveal {round : Nat} (due : round < rounds n) :
    Turns n (Protocol.evaluate round) (stateIn n x S round) (partyIn x S round) (cameIn n x S round)
      (fun _ => .ok (if round + 1 = rounds n then .isDone else .hasMoreRounds))
      (stateIn n x S (round + 1)) (partyIn x S (round + 1)) (cameIn n x S (round + 1)) := by
  intro i member
  obtain ⟨id, parties⟩ := seated i member
  rw [partyIn_of_pos (Nat.succ_pos round)]
  rcases Nat.eq_zero_or_pos round with rfl | begun
  · have more : ¬ 0 + 1 = rounds n := by
      rw [rounds]
      split_ifs <;> decide
    rw [stateIn_zero, if_neg more, cameIn, sent_zero]
    exact play_first parties id member (rfl : openingIn x S i = _)
  · rw [partyIn_of_pos begun]
    exact play_round (S := committed (x i) (S i)) (fun j _ => openingIn_isWhole x S j) member id
      parties begun due

/-- **A revelation of all parties**, for any values and any private randomness. -/
theorem joint_reveal (tag : (round position : Nat) → Λ)
    (taken : PartyId → PartyId → List (Λ × Letter Λ)) :
    Joint n (fun i => (driveRoundsTagged tag [({ value := x i } : Reveal F)]).run (S i))
      (fun i j => ⟨[], taken i j⟩)
      (fun i => ((.ok (rounds n), [stateIn n x S (rounds n) i]), committed (x i) (S i)))
      (fun i j => ⟨[], taken i j ++ takenIn tag n (cameIn n x S) i j (List.range' 0 (rounds n))⟩) := by
  -- all rounds but the last go on, and the last one sends nothing
  obtain ⟨last, whole⟩ : ∃ last, rounds n = last + 1 := by
    rw [rounds]
    split_ifs
    · exact ⟨4, rfl⟩
    · exact ⟨2, rfl⟩
  have short : last + 1 < maxRounds := by
    rw [← whole, rounds, maxRounds]
    split_ifs <;> decide
  have early : ∀ round < last, Turns n (Protocol.evaluate round) (stateIn n x S round)
      (partyIn x S round) (cameIn n x S round) (fun _ => .ok .hasMoreRounds)
      (stateIn n x S (round + 1)) (partyIn x S (round + 1)) (cameIn n x S (round + 1)) := by
    intro round due
    have turns := turns_reveal (x := x) seated (by omega : round < rounds n)
    rwa [if_neg (by omega)] at turns
  have final : Turns n (Protocol.evaluate last) (stateIn n x S last) (partyIn x S last)
      (cameIn n x S last) (fun _ => (Except.ok () : Except Error Unit).map fun _ => .isDone)
      (stateIn n x S (last + 1)) (fun i => committed (x i) (S i)) fun _ => [] := by
    have turns := turns_reveal (x := x) seated (by omega : last < rounds n)
    have silent : cameIn n x S (last + 1) = fun _ => [] := whole ▸ sent_rounds
    rwa [if_pos whole.symm, silent, partyIn_of_pos (Nat.succ_pos last)] at turns
  have run := joint_driveRounds_alone tag early final sent_zero short taken
  simp only [stateIn_zero] at run
  rw [whole]
  exact run

end Reveal

/-! ## Validations -/

namespace BroadcastValidation

variable (lists : PartyId → List Bytes)

/-- The digests of the peers are the own one. -/
def Confirmed (n : Nat) (lists : PartyId → List Bytes) (i : PartyId) : Prop :=
  ∀ j ∈ peersOf i n, broadcastDigest (lists j) = broadcastDigest (lists i)

instance (i : PartyId) : Decidable (Confirmed n lists i) :=
  inferInstanceAs (Decidable (∀ j ∈ peersOf i n, _))

variable (n)

/-- How a validation ends for a party. -/
def verdict (i : PartyId) : Except Error Unit :=
  if Confirmed n lists i then .ok () else .error .broadcastInconsistency

/-- The state in which it ends. -/
def ended (i : PartyId) : BroadcastValidation where
  values := lists i
  digest := broadcastDigest (lists i)
  isDone := decide (Confirmed n lists i)

/-- The state of a party's validation before a round. -/
def stateIn (round : Nat) (i : PartyId) : BroadcastValidation :=
  if round = 0 then { values := lists i } else announced { values := lists i }

/-- What the parties sent in the round before. -/
def cameIn (round : Nat) (j : PartyId) : List Bytes :=
  if round = 0 then [] else [broadcastDigest (lists j)]

variable {n lists} {S : PartyId → Party F σ}

/-- Every party sends its digest. -/
theorem turns_announcement : Turns n (Protocol.evaluate 0) (stateIn lists 0) S (cameIn lists 0)
    (fun _ => .ok .hasMoreRounds) (stateIn lists 1) S (cameIn lists 1) :=
  fun i _ => play_evaluate_zero { values := lists i } _

/-- Every party compares those of the others with it. -/
theorem turns_comparison : Turns n (Protocol.evaluate 1) (stateIn lists 1) S (cameIn lists 1)
    (fun i => (verdict n lists i).map fun _ => .isDone) (ended n lists) S fun _ => [] := by
  intro i _
  refine (play_evaluate_one (announced { values := lists i }) (fun j => broadcastDigest (lists j))
    fun _ => []).trans ?_
  by_cases confirmed : Confirmed n lists i
  · have passes : verdict n lists i = .ok () := if_pos confirmed
    have state : ended n lists i = { announced { values := lists i } with isDone := true } := by
      simp [ended, announced, confirmed]
    simp only [passes, state]
    exact congrArg some (if_pos confirmed)
  · have fails : verdict n lists i = .error .broadcastInconsistency := if_neg confirmed
    have state : ended n lists i = announced { values := lists i } := by
      simp [ended, announced, confirmed]
    simp only [fails, state]
    exact congrArg some (if_neg confirmed)

variable (lists) in
/-- **A validation of all parties**, on any lists. -/
theorem joint_validation (tag : (round position : Nat) → Λ)
    (taken : PartyId → PartyId → List (Λ × Letter Λ)) :
    Joint n (fun i => (driveRoundsTagged tag [({ values := lists i } : BroadcastValidation)]).run (S i))
      (fun i j => ⟨[], taken i j⟩)
      (fun i => (((verdict n lists i).map fun _ => 2, [ended n lists i]), S i))
      (fun i j => ⟨[], taken i j ++ takenIn tag n (cameIn lists) i j (List.range' 0 2)⟩) := by
  have early : ∀ round < 1, Turns n (Protocol.evaluate round) (stateIn lists round) S
      (cameIn lists round) (fun _ => .ok .hasMoreRounds) (stateIn lists (round + 1)) S
      (cameIn lists (round + 1)) := fun round due => by
    obtain rfl : round = 0 := Nat.lt_one_iff.mp due
    exact turns_announcement
  exact joint_driveRounds_alone (S := fun _ => S) tag early turns_comparison rfl (by decide) taken

/-! ### What the lists have to do with it -/

/-- Nobody complains about equal lists. -/
theorem verdict_of_equal (equal : ∀ j k, IsMember n j → IsMember n k → lists j = lists k)
    {i : PartyId} (member : IsMember n i) : verdict n lists i = .ok () :=
  if_pos fun j peer => by rw [equal j i (mem_peersOf.mp peer).1 member]

/-- Among two or more parties everybody has a peer that notices an odd list, or is the odd one. -/
theorem verdict_of_odd (two : 2 ≤ n) {odd : PartyId} (member : IsMember n odd)
    (differs : ∀ j ∈ peersOf odd n, broadcastDigest (lists j) ≠ broadcastDigest (lists odd))
    {i : PartyId} (other : IsMember n i) : verdict n lists i = .error .broadcastInconsistency := by
  refine if_neg fun confirmed => ?_
  by_cases same : i = odd
  · subst same
    obtain ⟨j, peer⟩ : ∃ j, j ∈ peersOf i n := by
      refine List.exists_mem_of_length_pos ?_
      rw [length_peersOf member]
      omega
    exact differs j peer (confirmed j peer)
  · have seen : odd ∈ peersOf i n := mem_peersOf.mpr ⟨member, Ne.symm same⟩
    exact differs i (mem_peersOf.mpr ⟨other, same⟩) (confirmed odd seen).symm

end BroadcastValidation

/-! ## Both together -/

namespace Reveal

open BroadcastValidation in
/-- **Honest completeness.**  Parties that reveal their values together all come to the end of it after
three rounds, if they are two, or else five; they then have the values of all in order of parties, and
no message is left over.  This is so for any values and private randomness, and however their steps are
interleaved.  Parties that compare their lists all pass if these are equal, and all of them find an
inconsistency if one list differs from all others, unless two different lists have the same digest.
Two such lists are a collision, as long as each of their strings is one that a machine could hold. -/
theorem honest_completeness (two : 2 ≤ n) (x : PartyId → Elem F) (S : PartyId → Party F σ)
    (seated : ∀ i, IsMember n i → (S i).id = i ∧ (S i).parties = n) :
    (∃ (last : PartyId → Reveal F) (after : PartyId → PartyId → Link Unit),
      (Net.start n (fun i => ((driveRounds [({ value := x i } : Reveal F)]).run (S i)).labelled ())
        fun _ _ => {}).Inevitable
          (.ended n (fun i => ((.ok (if n = 2 then 3 else 5), [last i]), committed (x i) (S i))) after) ∧
      (∀ i, HasOutput.output (last i) = some ((List.range' 1 n).map x)) ∧
      ∀ i j, (after i j).waiting = []) ∧
    ∀ lists : PartyId → List Bytes,
      ∃ (answer : PartyId → Except Error Nat) (last : PartyId → BroadcastValidation)
        (after : PartyId → PartyId → Link Unit),
        (Net.start n (fun i =>
          ((driveRounds [({ values := lists i } : BroadcastValidation)]).run (S i)).labelled ())
          fun _ _ => {}).Inevitable (.ended n (fun i => ((answer i, [last i]), S i)) after) ∧
        (∀ i j, (after i j).waiting = []) ∧
        ((∀ j k, IsMember n j → IsMember n k → lists j = lists k) →
          ∀ i, IsMember n i → answer i = .ok 2 ∧ HasOutput.output (last i) = some ()) ∧
        ∀ odd, IsMember n odd → (∀ j ∈ peersOf odd n, lists j ≠ lists odd) →
          (∀ i, IsMember n i → answer i = .error .broadcastInconsistency) ∨
          ∃ j ∈ peersOf odd n, lists j ≠ lists odd ∧
            broadcastDigest (lists j) = broadcastDigest (lists odd) ∧
            ((∀ i, IsMember n i → ∀ value ∈ lists i, value.length < UInt64.size) →
              Collision (broadcastInput (lists j)) (broadcastInput (lists odd))) := by
  constructor
  · have run := (joint_reveal (x := x) seated (fun _ _ => ()) fun _ _ => []).inevitable
    have count : rounds n = if n = 2 then 3 else 5 := by
      simp only [rounds]
      split_ifs <;> omega
    simp only [driveRoundsTagged_unit] at run
    rw [← count]
    exact ⟨_, _, run, fun _ => output_before_rounds, fun _ _ => rfl⟩
  · intro lists
    have run := (joint_validation (n := n) lists (S := S) (fun _ _ => ()) fun _ _ => []).inevitable
    simp only [driveRoundsTagged_unit] at run
    refine ⟨_, _, _, run, fun _ _ => rfl, fun equal i member => ?_, fun odd member differs => ?_⟩
    · have passes := verdict_of_equal equal member
      have confirmed : Confirmed n lists i := by
        by_contra doubt
        simp [verdict, doubt] at passes
      rw [passes]
      exact ⟨rfl, by simp [HasOutput.output, BroadcastValidation.ended, confirmed]⟩
    · -- different lists may still have one digest, which is what the second outcome is about
      by_cases apart : ∀ j ∈ peersOf odd n, broadcastDigest (lists j) ≠ broadcastDigest (lists odd)
      · refine .inl fun i other => ?_
        rw [verdict_of_odd two member apart other]
        rfl
      · simp only [not_forall, not_not] at apart
        obtain ⟨j, peer, same⟩ := apart
        refine .inr ⟨j, peer, differs j peer, same, fun short => ?_⟩
        have inputs : broadcastInput (lists j) ≠ broadcastInput (lists odd) := fun equal =>
          differs j peer
            (broadcastInput_inj_of_lt (short j (mem_peersOf.mp peer).1) (short odd member) equal)
        exact ⟨inputs, same⟩

/-- Three parties reveal their own numbers, and compare lists of which the second is or is not odd. -/
theorem honest_completeness_of_three :
    2 ≤ 3 ∧ (∀ i, IsMember 3 i → (plainParty i).id = i ∧ (plainParty i).parties = 3) ∧
    (∃ (last : PartyId → Reveal .f251) (after : PartyId → PartyId → Link Unit),
      (Net.start 3 (fun i => ((driveRounds [({ value := Elem.ofNat .f251 i } : Reveal .f251)]).run
          (plainParty i)).labelled ()) fun _ _ => {}).Inevitable
        (.ended 3 (fun i => ((.ok 5, [last i]), committed (Elem.ofNat .f251 i) (plainParty i))) after) ∧
      ∀ i, HasOutput.output (last i)
        = some [Elem.ofNat .f251 1, Elem.ofNat .f251 2, Elem.ofNat .f251 3]) ∧
    ∀ second : List Bytes, ∃ (answer : PartyId → Except Error Nat) (last : PartyId → BroadcastValidation)
      (after : PartyId → PartyId → Link Unit),
      (Net.start 3 (fun i => ((driveRounds
          [({ values := if i = 2 then second else [[7]] } : BroadcastValidation)]).run
          (plainParty i)).labelled ()) fun _ _ => {}).Inevitable
        (.ended 3 (fun i => ((answer i, [last i]), plainParty i)) after) ∧
      (second = [[7]] → answer 1 = .ok 2) ∧
      (second = [] → (∀ i, IsMember 3 i → answer i = .error .broadcastInconsistency) ∨
        Collision (broadcastInput [[7]]) (broadcastInput [])) := by
  have two : 2 ≤ 3 := by decide
  have seated : ∀ i, IsMember 3 i → (plainParty i).id = i ∧ (plainParty i).parties = 3 :=
    fun _ _ => ⟨rfl, rfl⟩
  obtain ⟨⟨last, after, run, values, -⟩, compare⟩ :=
    honest_completeness two (fun i => Elem.ofNat .f251 i) plainParty seated
  refine ⟨two, seated, ⟨last, after, run, values⟩, fun second => ?_⟩
  obtain ⟨answer, last, after, run, -, equal, different⟩ :=
    compare fun i => if i = 2 then second else [[7]]
  refine ⟨answer, last, after, run, ?_, ?_⟩
  · rintro rfl
    exact (equal (fun j k _ _ => by simp) 1 ⟨by decide, by decide⟩).1
  · rintro rfl
    have peers : ∀ j ∈ peersOf 2 3, j ≠ 2 := fun j peer => (mem_peersOf.mp peer).2
    rcases different 2 ⟨by decide, by decide⟩ (fun j peer => by simp [peers j peer]) with
      fails | ⟨j, peer, -, -, collide⟩
    · exact .inl fails
    · have short : ∀ i, IsMember 3 i →
          ∀ value ∈ (if i = 2 then [] else [[7]] : List Bytes), value.length < UInt64.size := by
        intro i _ value mem
        split_ifs at mem
        · simp at mem
        · simp [List.mem_singleton.mp mem]
      have collision := collide short
      rw [if_neg (peers j peer), if_pos rfl] at collision
      exact .inr collision

end Reveal

end Spdz
