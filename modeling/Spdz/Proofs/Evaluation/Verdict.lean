import Spdz.Proofs.Evaluation.Lockstep
import Spdz.Proofs.Protocol.MacCheck
import Spdz.Proofs.Random.Drawn

/-!
# The verdict of a check

A check that all parties drive together ends the same way for all of them, and which way it is says
one linear equation over everything that the parties hold: their records, their shares of the key
and the coefficients that their coins determine.

* `MacCheck.coefficient` — the stream of coefficients that the sum of the coins determines.
* `MacCheck.discrepancy` — the combination of all parties' records that should be zero.
-/

namespace Spdz

namespace MacCheck

variable {F : FieldSpec} {σ Λ : Type}

/-! ## Coefficients and sigmas -/

/-- The stream of coefficients that the sum of all coins determines. -/
def coefficient (sum : Elem F) (j : Nat) : Elem F :=
  WordSource.drawn (Elem.random F) (ChaCha.ofSeed (sha3 sum.encode)) j

theorem coefficients_eq (coins : List (Elem F)) (count : Nat) :
    coefficients coins count = (List.range count).map (coefficient coins.sum) := by
  rw [coefficients, WordSource.collect_fst, Elem.sum_eq]
  rfl

/-- The mac share of a record, and the value it was opened to. -/
def macAt (records : List (OpenedValue F)) (j : Nat) : Elem F :=
  (records[j]?.map fun record => record.share.mac).getD 0

@[inherit_doc macAt]
def valueAt (records : List (OpenedValue F)) (j : Nat) : Elem F :=
  (records[j]?.map fun record => record.value).getD 0

/-- A combination of something of all records. -/
theorem sum_zip (r : Nat → Elem F) (f : OpenedValue F → Elem F) (records : List (OpenedValue F)) :
    ((((List.range records.length).map r).zip records).map fun (c, record) => c * f record).sum
      = ∑ j ∈ Finset.range records.length, r j * (records[j]?.map f).getD 0 := by
  induction records generalizing r with
  | nil => rfl
  | cons record records ih =>
      rw [List.length_cons, List.range_succ_eq_map, List.map_cons, List.map_map, List.zip_cons_cons,
        List.map_cons, List.sum_cons, ih, Finset.sum_range_succ', add_comm]
      rfl

/-- This party's sigma, as sums over its records. -/
theorem sigma_eq (keyShare : Elem F) (coins : List (Elem F)) (records : List (OpenedValue F)) :
    sigma keyShare (coefficients coins records.length) records
      = ∑ j ∈ Finset.range records.length, coefficient coins.sum j * macAt records j
        - keyShare * ∑ j ∈ Finset.range records.length, coefficient coins.sum j * valueAt records j := by
  simp only [sigma, coefficients_eq, Elem.sum_eq]
  rw [sum_zip _ (fun record => record.share.mac), sum_zip _ (fun record => record.value)]
  rfl

/-- A party's combination of its records with given coefficients, its share of what should be zero. -/
def combination (r : Nat → Elem F) (keyShare : Elem F) (records : List (OpenedValue F)) : Elem F :=
  ∑ j ∈ Finset.range records.length, r j * macAt records j
    - keyShare * ∑ j ∈ Finset.range records.length, r j * valueAt records j

/-! ## A check of all parties -/

section Check

variable [Supplier F σ] (n : Nat) (S : PartyId → Party F σ)

/-- The coefficients that the coins of all parties determine. -/
def commonCoefficient : Nat → Elem F := coefficient (∑ i ∈ Finset.Icc 1 n, coinOf (S i))

/-- This party's share of the discrepancy. -/
def discrepancyShare (i : PartyId) : Elem F :=
  combination (commonCoefficient n S) (S i).keyShare (S i).opened.toList

/-- The combination of the records of all parties that is zero if all is well. -/
def discrepancy : Elem F := ∑ i ∈ Finset.Icc 1 n, discrepancyShare n S i

/-- The records of all parties are those of the same openings, each rightly authenticated. -/
structure Sound (values : List (Elem F)) : Prop where
  common : ∀ i, IsMember n i → (S i).opened.toList.map (·.value) = values
  authentic : ∀ j < values.length, ∑ i ∈ Finset.Icc 1 n, macAt (S i).opened.toList j
    = (∑ i ∈ Finset.Icc 1 n, (S i).keyShare) * values.getD j 0

/-- The parties once they have committed to their coins, and once to their sigmas. -/
def tossing (i : PartyId) : Party F σ := Reveal.committed (coinOf (S i)) (begun (S i))

@[inherit_doc tossing]
def checked (i : PartyId) : Party F σ := Reveal.committed (discrepancyShare n S i) (tossing S i)

/-- What opens the coins. -/
def coinOpening (i : PartyId) : Opening F := Reveal.openingOf (coinOf (S i)) (begun (S i))

/-- What opens the sigmas. -/
def sigmaOpening (i : PartyId) : Opening F :=
  Reveal.openingOf (discrepancyShare n S i) (tossing S i)

variable {n S}

/-- Sound records leave no discrepancy, whatever the coefficients are. -/
theorem discrepancy_eq_zero {values : List (Elem F)} (sound : Sound n S values) :
    discrepancy n S = 0 := by
  have length : ∀ i ∈ Finset.Icc 1 n, (S i).opened.toList.length = values.length := fun i mem => by
    rw [← sound.common i (Finset.mem_Icc.mp mem), List.length_map]
  have value : ∀ i ∈ Finset.Icc 1 n, ∀ j, valueAt (S i).opened.toList j = values.getD j 0 :=
    fun i mem j => by
      rw [← sound.common i (Finset.mem_Icc.mp mem)]
      simp [valueAt, List.getD_eq_getElem?_getD]
  have shares : ∀ i ∈ Finset.Icc 1 n, discrepancyShare n S i
      = ∑ j ∈ Finset.range values.length, commonCoefficient n S j * macAt (S i).opened.toList j
        - (S i).keyShare
          * ∑ j ∈ Finset.range values.length, commonCoefficient n S j * values.getD j 0 :=
    fun i mem => by simp only [discrepancyShare, combination, length i mem, value i mem]
  have macs : ∀ j ∈ Finset.range values.length,
      ∑ i ∈ Finset.Icc 1 n, commonCoefficient n S j * macAt (S i).opened.toList j
      = (∑ i ∈ Finset.Icc 1 n, (S i).keyShare) * (commonCoefficient n S j * values.getD j 0) :=
    fun j mem => by
      rw [← Finset.mul_sum, sound.authentic j (Finset.mem_range.mp mem)]
      ring
  rw [discrepancy, Finset.sum_congr rfl shares, Finset.sum_sub_distrib, Finset.sum_comm,
    Finset.sum_congr rfl macs, ← Finset.mul_sum, ← Finset.sum_mul, sub_self]

/-! ### Round by round -/

variable (n S) in
/-- The state of a party's check before a round. -/
def stateIn (round : Nat) (i : PartyId) : MacCheck F :=
  if round = 0 then {}
  else before n (coinOpening S) (sigmaOpening n S) (S i).opened.toList i round

variable (n S) in
/-- The state of a party before a round. -/
def partyIn (round : Nat) (i : PartyId) : Party F σ :=
  if round = 0 then S i else if round ≤ switch n then tossing S i else checked n S i

variable (n S) in
/-- What the parties sent in the round before. -/
def sentIn (round : Nat) : PartyId → List Bytes :=
  sent n (coinOpening S) (sigmaOpening n S) round

variable (n S) in
/-- How a check ends. -/
def verdict : Except Error Unit :=
  if discrepancy n S = 0 then .ok () else .error .macCheckFailed

variable (n S) in
/-- The state in which a party's check ends. -/
def ended (i : PartyId) : MacCheck F where
  stage := if discrepancy n S = 0 then .passed else .idle
  records := (S i).opened.toList

variable (n S) in
/-- Every party has its place. -/
def Seated : Prop := ∀ i, IsMember n i → (S i).id = i ∧ (S i).parties = n

omit [Supplier F σ] in
theorem coinOpening_isWhole (i : PartyId) : (coinOpening S i).IsWhole :=
  (Commitment.commit_spec _ _).1

theorem sigmaOpening_isWhole (i : PartyId) : (sigmaOpening n S i).IsWhole :=
  (Commitment.commit_spec _ _).1

theorem partyIn_of_le {round : Nat} (late : 0 < round) (early : round ≤ switch n) :
    partyIn n S round = tossing S := funext fun _ => by
  rw [partyIn, if_neg (Nat.ne_of_gt late), if_pos early]

theorem partyIn_of_lt {round : Nat} (late : switch n < round) :
    partyIn n S round = checked n S := funext fun _ => by
  rw [partyIn, if_neg (by omega), if_neg (Nat.not_le.mpr late)]

theorem stateIn_of_pos {round : Nat} (late : 0 < round) (i : PartyId) :
    stateIn n S round i
      = before n (coinOpening S) (sigmaOpening n S) (S i).opened.toList i round :=
  if_neg (Nat.ne_of_gt late)

theorem sentIn_zero : sentIn n S 0 = fun _ => [] := by
  rw [sentIn, sent_of_le (Nat.zero_le _)]
  exact Reveal.sent_zero

/-- From round to round the parties go through these states. -/
theorem turns_check (seated : Seated n S) {round : Nat} (due : round < 2 * switch n) :
    Turns n (Protocol.evaluate round) (stateIn n S round) (partyIn n S round) (sentIn n S round)
      (fun _ => .ok .hasMoreRounds) (stateIn n S (round + 1)) (partyIn n S (round + 1))
      (sentIn n S (round + 1)) := by
  intro i member
  obtain ⟨id, parties⟩ := seated i member
  have more : 1 < switch n := switch_pos
  rw [stateIn_of_pos (Nat.succ_pos round)]
  rcases Nat.eq_zero_or_pos round with rfl | late
  · rw [partyIn_of_le Nat.one_pos more.le, sentIn_zero]
    exact play_first parties id member (rfl : coinOpening S i = _)
  · have id' : (tossing S i).id = i := id
    have parties' : (tossing S i).parties = n := parties
    have coins : ∀ j, IsMember n j → (coinOpening S j).IsWhole := fun j _ => coinOpening_isWhole j
    have sigmas : ∀ j, IsMember n j → (sigmaOpening n S j).IsWhole :=
      fun j _ => sigmaOpening_isWhole j
    rw [stateIn_of_pos late]
    rcases Nat.lt_trichotomy round (switch n) with early | rfl | after
    · rw [partyIn_of_le late early.le, partyIn_of_le (Nat.succ_pos _) early]
      exact play_toss coins member id' parties' late early
    · rw [partyIn_of_le late le_rfl, partyIn_of_lt (Nat.lt_succ_self _)]
      have sum : (Reveal.shown n (coinOpening S)).sum = ∑ i ∈ Finset.Icc 1 n, coinOf (S i) :=
        sum_range' _
      have computed : Spdz.sigma (tossing S i).keyShare
          (coefficients (Reveal.shown n (coinOpening S)) (S i).opened.toList.length)
          (S i).opened.toList = discrepancyShare n S i := by
        rw [sigma_eq, sum]
        rfl
      exact play_switch coins member id' parties' computed rfl
    · rw [partyIn_of_lt after, partyIn_of_lt (Nat.lt_succ_of_lt after)]
      exact play_sigmas sigmas member (S := checked n S i) id parties after due

/-- The last round decides. -/
theorem turns_verdict (seated : Seated n S) :
    Turns n (Protocol.evaluate (2 * switch n)) (stateIn n S (2 * switch n))
      (partyIn n S (2 * switch n)) (sentIn n S (2 * switch n))
      (fun _ => (verdict n S).map fun _ => .isDone) (ended n S) (checked n S) fun _ => [] := by
  intro i member
  obtain ⟨id, parties⟩ := seated i member
  have more : 1 < switch n := switch_pos
  have sigmas : ∀ j, IsMember n j → (sigmaOpening n S j).IsWhole :=
    fun j _ => sigmaOpening_isWhole j
  have sum : ∑ j ∈ Finset.Icc 1 n, (sigmaOpening n S j).value = discrepancy n S := rfl
  rw [stateIn_of_pos (by omega), partyIn_of_lt (by omega)]
  refine (play_last sigmas member (S := checked n S i) id parties).trans ?_
  rw [sum]
  simp only [verdict, ended]
  split_ifs <;> rfl

/-- **A check of all parties**, for any records, shares of the key and private randomness. -/
theorem joint_check (seated : Seated n S) (tag : (round position : Nat) → Λ)
    (taken : PartyId → PartyId → List (Λ × Letter Λ)) :
    Joint n (fun i => (driveRoundsTagged tag [({} : MacCheck F)]).run (S i))
      (fun i j => ⟨[], taken i j⟩)
      (fun i => (((verdict n S).map fun _ => rounds n, [ended n S i]), checked n S i))
      (fun i j => ⟨[], taken i j ++ takenIn tag n (sentIn n S) i j (List.range' 0 (rounds n))⟩) := by
  have short : 2 * switch n + 1 < maxRounds := by
    simp only [switch, Reveal.rounds, maxRounds]
    split_ifs <;> decide
  exact joint_driveRounds_alone tag (fun round due => turns_check seated due)
    (turns_verdict seated) sentIn_zero short taken

/-! ### What is seen of it -/

/-- Everybody sends one message in each round but the last. -/
theorem exists_sentIn {round : Nat} (begun : 0 < round) (due : round ≤ 2 * switch n) (j : PartyId) :
    ∃ message, sentIn n S round j = [message] := by
  have whole : switch n + 1 = Reveal.rounds n := switch_add_one
  rcases Nat.lt_or_ge (switch n) round with late | early
  · rw [sentIn, sent_of_lt late]
    exact Reveal.exists_sent (by omega) (by omega) j
  · rw [sentIn, sent_of_le early]
    exact Reveal.exists_sent begun (by omega) j

/-- Everybody shows its share of the discrepancy to everybody. -/
theorem exists_shownIn (n : Nat) (S : PartyId → Party F σ) :
    ∃ round, 0 < round ∧ round ≤ 2 * switch n ∧
      ∀ j, sentIn n S round j = [(sigmaOpening n S j).toBytes] := by
  have whole : switch n + 1 = Reveal.rounds n := switch_add_one
  obtain ⟨round, late, due, shown⟩ := Reveal.exists_shown n (sigmaOpening n S)
  refine ⟨switch n + round, by omega, by omega, fun j => ?_⟩
  rw [sentIn, sent_of_lt (by omega), Nat.add_sub_cancel_left]
  exact shown j

/-- The messages of each round are taken in the next one. -/
theorem labels_takenIn {i j : PartyId} (peer : j ∈ peersOf i n) :
    (takenIn (fun round _ => round) n (sentIn n S) i j (List.range' 0 (rounds n))).map
        (fun (label, letter) => (label, letter.label))
      = (List.range (2 * switch n)).map fun round => (round + 1, round) := by
  have each : ∀ round ∈ List.range' 1 (2 * switch n),
      ((posted n (round - 1) (sentIn n S round) i j).map (Prod.mk round)).map
        (fun (label, letter) => (label, letter.label)) = [(round, round - 1)] := by
    intro round mem
    rw [List.mem_range'_1] at mem
    obtain ⟨message, sent⟩ := exists_sentIn (S := S) mem.1 (by omega : round ≤ 2 * switch n) i
    simp [posted, peer, sent]
  rw [takenIn, rounds, List.range'_succ, List.flatMap_cons, sentIn_zero, posted_nil, List.map_nil,
    List.nil_append, List.map_flatMap, List.flatMap_congr each]
  refine (List.flatMap_pure_eq_map (fun round => (round, round - 1)) _).trans ?_
  rw [List.range'_eq_map_range, List.map_map]
  exact List.map_congr_left fun round _ => by simp [Nat.add_comm 1]

/-- The opening of each party's share of the discrepancy is among the messages. -/
theorem exists_shown_takenIn {i j : PartyId} (peer : j ∈ peersOf i n)
    (tag : (round position : Nat) → Λ) :
    ∃ entry ∈ takenIn tag n (sentIn n S) i j (List.range' 0 (rounds n)),
      entry.2.bytes = (sigmaOpening n S i).toBytes := by
  obtain ⟨round, late, due, shown⟩ := exists_shownIn n S
  have here : round ∈ List.range' 0 (rounds n) := by
    rw [List.mem_range'_1, rounds]
    omega
  refine ⟨(tag round 0, ⟨tag (round - 1) 0, (sigmaOpening n S i).toBytes⟩), ?_, rfl⟩
  refine List.mem_flatMap.mpr ⟨round, here, ?_⟩
  simp [posted, peer, shown]

theorem rounds_eq (two : 2 ≤ n) : rounds n = if n = 2 then 5 else 9 := by
  simp only [rounds, switch, Reveal.rounds]
  split_ifs <;> omega

/-! ### The verdict -/

theorem map_verdict (two : 2 ≤ n) : ((verdict n S).map fun _ => rounds n)
    = if discrepancy n S = 0 then .ok (if n = 2 then 5 else 9) else .error .macCheckFailed := by
  rw [← rounds_eq two, verdict]
  split_ifs <;> rfl

/-- **The verdict.**  Whenever all parties drive a check, whatever their records, their shares of the
key and their private randomness are, all of them end it with the same verdict, however their steps
are interleaved: they pass if there is no discrepancy, and fail otherwise.  With each message
labelled by the round that sends it, it is seen that every round but the last sends one message that
the next round takes, and that everybody shows its share of the discrepancy. -/
theorem unanimous_verdict (two : 2 ≤ n) (seated : Seated n S) :
    (∃ after : PartyId → PartyId → Link Unit,
      (Net.start n (fun i => ((driveRounds [({} : MacCheck F)]).run (S i)).labelled ())
        fun _ _ => {}).Inevitable
          (.ended n (fun i => ((if discrepancy n S = 0 then .ok (if n = 2 then 5 else 9)
            else .error .macCheckFailed, [ended n S i]), checked n S i)) after) ∧
      ∀ i j, (after i j).waiting = []) ∧
    (∃ after : PartyId → PartyId → Link Nat,
      (Net.start n (fun i =>
        (driveRoundsTagged (fun round _ => round) [({} : MacCheck F)]).run (S i))
        fun _ _ => {}).Inevitable
          (.ended n (fun i => ((if discrepancy n S = 0 then .ok (if n = 2 then 5 else 9)
            else .error .macCheckFailed, [ended n S i]), checked n S i)) after) ∧
      ∀ i, ∀ j ∈ peersOf i n,
        (after i j).taken.map (fun (label, letter) => (label, letter.label))
          = (List.range (if n = 2 then 4 else 8)).map (fun round => (round + 1, round)) ∧
        ∃ entry ∈ (after i j).taken, ∃ opening : Opening F,
          entry.2.bytes = opening.toBytes ∧ opening.value = discrepancyShare n S i) ∧
    (∀ i, ((driveRoundsTagged (fun round _ => round) [({} : MacCheck F)]).run (S i)).plain
      = (driveRounds [({} : MacCheck F)]).run (S i)) ∧
    (∀ i, (checked n S i).opened = {}) ∧
    ∀ values, Sound n S values → discrepancy n S = 0 := by
  refine ⟨?_, ?_, fun i => plain_driveRoundsTagged _ _ _, fun _ => rfl,
    fun values => discrepancy_eq_zero⟩
  · have run := (joint_check seated (fun _ _ => ()) fun _ _ => []).inevitable
    simp only [driveRoundsTagged_unit, map_verdict two] at run
    exact ⟨_, run, fun _ _ => rfl⟩
  · have run := (joint_check seated (fun round _ => round) fun _ _ => []).inevitable
    simp only [map_verdict two] at run
    refine ⟨_, run, fun i j peer => ⟨?_, ?_⟩⟩
    · have count : (if n = 2 then 4 else 8) = 2 * switch n := by
        have whole := rounds_eq two
        rw [rounds] at whole
        split_ifs at whole ⊢ <;> omega
      rw [count]
      exact labels_takenIn peer
    · obtain ⟨entry, mem, bytes⟩ := exists_shown_takenIn (S := S) peer fun round _ => round
      exact ⟨entry, mem, sigmaOpening n S i, bytes, rfl⟩

/-- A party of two, with simulated items and nothing to check. -/
def idleParty (i : PartyId) : Party .f251 (Party.SimulatedSupplier .f251) where
  id := i
  parties := 2
  config := {}
  supplier :=
    { party := i, parties := 2, keyShare := 0, batchSize := 1, pipeLength := 1, seed := []
      factory := ⟨2, 0, 0⟩ }
  rng := ChaCha.ofSeed []

/-- A party of two that has a share of the key, and has opened the values 5 and 9.  The macs are right if
nothing is added to the first one of the first party. -/
def loadedParty (shift : Elem .f251) (i : PartyId) : Party .f251 (Party.SimulatedSupplier .f251) :=
  { idleParty i with
    supplier := { (idleParty i).supplier with keyShare := .ofNat _ (if i = 1 then 3 else 4) }
    opened := ⟨if i = 1 then
        [⟨⟨.ofNat _ 2, .ofNat _ 10 + shift⟩, .ofNat _ 5⟩, ⟨⟨.ofNat _ 4, .ofNat _ 20⟩, .ofNat _ 9⟩]
      else [⟨⟨.ofNat _ 3, .ofNat _ 25⟩, .ofNat _ 5⟩, ⟨⟨.ofNat _ 5, .ofNat _ 43⟩, .ofNat _ 9⟩]⟩
    rng := (ChaCha.fill 32 (ChaCha.ofSeed [])).2 }

/-- The coin that comes after the first 32 bytes of a stream. -/
theorem random_fill : (Elem.random .f251 (ChaCha.fill 32 (ChaCha.ofSeed [])).2).1 = .ofNat .f251 51 := by
  decide +kernel

/-- The first coefficient that two such coins determine. -/
theorem coefficient_ne_zero : coefficient (.ofNat .f251 102) 0 ≠ 0 := by decide +kernel

theorem commonCoefficient_loadedParty (shift : Elem .f251) :
    commonCoefficient 2 (loadedParty shift) = coefficient (.ofNat .f251 102) := by
  have coins : ∑ i ∈ Finset.Icc 1 2, coinOf (loadedParty shift i) = Elem.ofNat .f251 102 := by
    rw [Finset.sum_congr rfl fun i _ => show coinOf (loadedParty shift i) = _ from random_fill]
    decide
  rw [commonCoefficient, coins]

theorem combination_loadedParty (r : Nat → Elem .f251) (shift : Elem .f251) :
    combination r (loadedParty shift 1).keyShare (loadedParty shift 1).opened.toList
      + combination r (loadedParty shift 2).keyShare (loadedParty shift 2).opened.toList
      = r 0 * shift := by
  have first : (loadedParty shift 1).keyShare = .ofNat _ 3 := rfl
  have second : (loadedParty shift 2).keyShare = .ofNat _ 4 := rfl
  rw [first, second]
  apply Elem.toZMod_injective
  simp [combination, macAt, valueAt, loadedParty, Finset.sum_range_succ]
  ring

theorem discrepancy_loadedParty (shift : Elem .f251) :
    discrepancy 2 (loadedParty shift) = coefficient (.ofNat .f251 102) 0 * shift := by
  have parties : Finset.Icc 1 2 = {1, 2} := rfl
  rw [discrepancy, parties, Finset.sum_pair (by decide), discrepancyShare, discrepancyShare,
    commonCoefficient_loadedParty, combination_loadedParty]

theorem sound_loadedParty : Sound 2 (loadedParty 0) [5, 9] where
  common i _ := by
    rw [loadedParty]
    split <;> rfl
  authentic j small := by
    match j, small with
    | 0, _ => decide
    | 1, _ => decide

/-- Two such parties pass in five rounds if their macs are right, and if one is off by one, both fail. -/
theorem unanimous_verdict_loaded : 2 ≤ 2 ∧ Seated 2 (loadedParty 0) ∧ Seated 2 (loadedParty 1) ∧
    (∀ shift i, (loadedParty shift i).keyShare ≠ 0 ∧ (loadedParty shift i).opened.size = 2) ∧
    Sound 2 (loadedParty 0) [5, 9] ∧
    (∃ after : PartyId → PartyId → Link Unit,
      (Net.start 2 (fun i => ((driveRounds [({} : MacCheck .f251)]).run (loadedParty 0 i)).labelled ())
        fun _ _ => {}).Inevitable
          (.ended 2 (fun i => ((.ok 5, [ended 2 (loadedParty 0) i]), checked 2 (loadedParty 0) i))
            after)) ∧
    ∃ after : PartyId → PartyId → Link Unit,
      (Net.start 2 (fun i => ((driveRounds [({} : MacCheck .f251)]).run (loadedParty 1 i)).labelled ())
        fun _ _ => {}).Inevitable
          (.ended 2 (fun i => ((.error .macCheckFailed, [ended 2 (loadedParty 1) i]),
            checked 2 (loadedParty 1) i)) after) := by
  have seated (shift : Elem .f251) : Seated 2 (loadedParty shift) := fun _ _ => ⟨rfl, rfl⟩
  have loaded (shift : Elem .f251) (i : PartyId) :
      (loadedParty shift i).keyShare ≠ 0 ∧ (loadedParty shift i).opened.size = 2 := by
    constructor
    · show Elem.ofNat .f251 (if i = 1 then 3 else 4) ≠ 0
      split <;> decide
    · rw [OpenedValues.size, loadedParty]
      split <;> rfl
  have off : discrepancy 2 (loadedParty 1) ≠ 0 := by
    -- said of any element, so that the coefficient is not computed once more
    have unscaled (c : Elem .f251) : c * 1 = c := mul_one c
    rw [discrepancy_loadedParty, unscaled]
    exact coefficient_ne_zero
  obtain ⟨⟨after, passes, -⟩, -, -, -, sound⟩ := unanimous_verdict (le_refl 2) (seated 0)
  obtain ⟨⟨after', fails, -⟩, -⟩ := unanimous_verdict (le_refl 2) (seated 1)
  rw [if_pos (sound _ sound_loadedParty), if_pos rfl] at passes
  rw [if_neg off] at fails
  exact ⟨le_refl 2, seated 0, seated 1, loaded, sound_loadedParty, ⟨after, passes⟩, after', fails⟩

end Check

end MacCheck

end Spdz
