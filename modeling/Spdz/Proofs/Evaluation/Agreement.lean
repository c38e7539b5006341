import Spdz.Evaluation.Schedule
import Spdz.Proofs.Protocol.Accepted

/-!
# Agreement on what was revealed

Among more than two parties some may cheat: they send anything they like, and different things to
different peers.  A party that completes a revelation all the same has seen exactly the messages of
honest peers with certain openings.  Two honest parties that complete it have compared the openings
they saw, so these are the same unless two different byte strings have one digest.

* `Reveal.Completes` — a party completes a revelation, whatever its peers are.
* `Reveal.Completes.exists_seen` — what it must have seen then.
* **`Reveal.agreement`** — two honest parties that complete it have the same values.
-/

namespace Spdz

/-! ## A protocol that succeeds -/

namespace Slot

variable {F : FieldSpec} {σ P : Type} [Protocol F σ P] {peers : List PartyId} {p : P}
  {S S' : Party F σ} {box box' : Mailbox} {limit round count : Nat} {ended : List (Slot P)}

/-- Driving a protocol is evaluating a round of it, and driving it on. -/
theorem run_driveFrom : (driveFrom (limit + 1) round [⟨p, true⟩]).run S
    = ((Protocol.evaluate round : Round F σ P _).run p).run S >>= fun
      | ((.error e, p), S) => pure ((.error e, [⟨p, true⟩]), S)
      | ((.ok status, p), S) =>
        (driveFrom limit (round + 1) [⟨p, status == .hasMoreRounds⟩]).run S := by
  simp only [driveFrom, List.any_cons, Bool.true_or, if_true, advance, StateT.run_bind, bind_assoc]
  refine congrArg _ (funext ?_)
  rintro ⟨⟨result | status, p⟩, S⟩ <;> rfl

@[inherit_doc run_driveFrom]
theorem play_driveFrom :
    ((driveFrom (limit + 1) round [⟨p, true⟩]).run S).play peers box
      = ((Protocol.evaluate round : Round F σ P _).play peers p S box).bind fun
        | (((.error e, p), S), box) => some (((.error e, [⟨p, true⟩]), S), box)
        | (((.ok status, p), S), box) =>
          ((driveFrom limit (round + 1) [⟨p, status == .hasMoreRounds⟩]).run S).play peers box := by
  rw [run_driveFrom, Exchange.play_bind]
  refine congrArg _ (funext ?_)
  rintro ⟨⟨⟨result | status, p⟩, S⟩, box⟩ <;> rfl

/-- Driving a protocol to its end succeeds only if each of its rounds does. -/
theorem of_play_driveFrom
    (play : ((driveFrom (limit + 1) round [⟨p, true⟩]).run S).play peers box
      = some (((.ok count, ended), S'), box')) :
    ∃ status p₁ S₁ box₁, (Protocol.evaluate round : Round F σ P _).play peers p S box
        = some (((.ok status, p₁), S₁), box₁) ∧
      ((driveFrom limit (round + 1) [⟨p₁, status == .hasMoreRounds⟩]).run S₁).play peers box₁
        = some (((.ok count, ended), S'), box') := by
  rw [play_driveFrom] at play
  obtain ⟨⟨⟨⟨result, p₁⟩, S₁⟩, box₁⟩, evaluated, play⟩ := Option.bind_eq_some_iff.mp play
  cases result with
  | error e => simp at play
  | ok status => exact ⟨status, p₁, S₁, box₁, evaluated, play⟩

/-- Driving a protocol is advancing its slot. -/
theorem play_driveRounds {result : Except Error Nat} {p' : P} {active : Bool}
    (play : ((driveFrom maxRounds 0 [⟨p, true⟩]).run S).play peers box
      = some (((result, [⟨p', active⟩]), S'), box')) :
    ((driveRounds [p]).run S).play peers box = some (((result, [p']), S'), box') := by
  rw [driveRounds, StateT.run_bind, Exchange.play_bind, List.map_singleton, play]
  rfl

@[inherit_doc play_driveRounds]
theorem of_play_driveRounds {p' : P}
    (play : ((driveRounds [p]).run S).play peers box = some (((.ok count, [p']), S'), box')) :
    ∃ slots, ((driveFrom maxRounds 0 [⟨p, true⟩]).run S).play peers box
        = some (((.ok count, slots), S'), box') ∧ slots.map (·.protocol) = [p'] := by
  rw [driveRounds, StateT.run_bind, Exchange.play_bind] at play
  obtain ⟨⟨⟨⟨result, slots⟩, S₁⟩, box₁⟩, driven, finished⟩ := Option.bind_eq_some_iff.mp play
  have same : some (((result, slots.map (·.protocol)), S₁), box₁)
      = some (((.ok count, [p']), S'), box') := finished
  simp only [Option.some.injEq, Prod.mk.injEq] at same
  obtain ⟨⟨⟨rfl, protocols⟩, rfl⟩, rfl⟩ := same
  exact ⟨slots, driven, protocols⟩

/-- Nothing is done for a protocol at its end. -/
theorem play_driveFrom_idle :
    ((driveFrom (F := F) (σ := σ) (limit + 1) round [⟨p, false⟩]).run S).play peers box
      = some (((.ok round, [⟨p, false⟩]), S), box) := rfl

end Slot

namespace Reveal

variable {F : FieldSpec} {σ : Type} {n : Nat} {i j : PartyId} {S : Party F σ} {x : Elem F}
  {came sent : PartyId → List Bytes} {values : List (Elem F)}

/-! ## What was seen -/

/-- All that a party sends to each peer, when the openings of all parties are `o`. -/
def transcript (n : Nat) (o : PartyId → Opening F) (j : PartyId) : List Bytes :=
  [(o j).digest, broadcastDigest (digests n o), (o j).toBytes, broadcastDigest (openings n o)]

/-- The party `i` of `n` completes a revelation of `x`.  The messages `came` come from its peers,
whatever these are, it sends `sent` to them, and it ends with `values`. -/
structure Completes (n : Nat) (i : PartyId) (x : Elem F) (S : Party F σ)
    (came sent : PartyId → List Bytes) (values : List (Elem F)) : Prop where
  member : IsMember n i
  id : S.id = i
  parties : S.parties = n
  run : ∃ count r S' left, r.output = some values ∧
    ((driveRounds [({ value := x } : Reveal F)]).run S).play (peersOf i n)
        (.among (peersOf i n) came [])
      = some (((.ok count, [r]), S'), ⟨left, sent⟩)

/-- **What was seen.**  Whoever completes a revelation has seen the messages of honest peers with
certain openings. -/
theorem Completes.exists_seen (many : n > 2) (completes : Completes n i x S came sent values) :
    ∃ o : PartyId → Opening F, o i = openingOf x S ∧ (∀ j, IsMember n j → (o j).IsWhole) ∧
      values = shown n o ∧
      ∀ j ∈ peersOf i n, transcript n o j <+: came j ∧ sent j = transcript n o i := by
  obtain ⟨member, id, parties, count, r, S', left, output, play⟩ := completes
  obtain ⟨ended, play, protocols⟩ := Slot.of_play_driveRounds play
  obtain ⟨limit, enough⟩ : ∃ limit, maxRounds = limit + 6 := ⟨maxRounds - 6, rfl⟩
  rw [enough] at play
  obtain ⟨_, _, _, _, zero, play⟩ := Slot.of_play_driveFrom play
  cases (play_first (o := fun _ => openingOf x S) parties id member rfl).symm.trans zero
  have more : (committed x S).parties > 2 := parties ▸ many
  have id' : (committed x S).id = i := id
  have parties' : (committed x S).parties = n := parties
  have begun : before n (fun _ => openingOf x S) i 1 = _ := if_pos many
  have whole : (openingOf x S).IsWhole := (Commitment.commit_spec x S.rng).1
  obtain ⟨_, _, _, _, one, play⟩ := Slot.of_play_driveFrom play
  obtain ⟨c, _, mine, came₁, rfl, rfl, rfl, rfl⟩ := of_play_one more begun one
  obtain ⟨_, _, _, _, two, play⟩ := Slot.of_play_driveFrom play
  obtain ⟨_, came₂, rfl, rfl, rfl, rfl⟩ := of_play_two more rfl two
  obtain ⟨_, _, _, _, three, play⟩ := Slot.of_play_driveFrom play
  obtain ⟨o, _, self, opened, came₃, rfl, rfl, rfl, rfl⟩ :=
    of_play_three more member id' parties' mine rfl whole three
  obtain ⟨_, _, _, _, four, play⟩ := Slot.of_play_driveFrom play
  obtain ⟨_, came₄, rfl, rfl, rfl, rfl⟩ := of_play_four more parties' rfl four
  cases Slot.play_driveFrom_idle.symm.trans play
  have digests : (List.range' 1 n).map c = digests n o := List.map_congr_left fun j mem => by
    rw [List.mem_range'_1] at mem
    exact (opened j ⟨mem.1, by omega⟩).1.symm
  refine ⟨o, self, fun j member => (opened j member).2, ?_, fun j mem => ⟨?_, ?_⟩⟩
  · obtain rfl : before n o i 5 = r := List.singleton_inj.mp protocols
    have ended : (before n o i (rounds n)).output = some (shown n o) := output_before_rounds
    rw [rounds, if_pos many] at ended
    exact Option.some.inj (output.symm.trans ended)
  · rw [Mailbox.eq_of_among came₁ j mem, Mailbox.eq_of_among came₂ j mem,
      Mailbox.eq_of_among came₃ j mem, Mailbox.eq_of_among came₄ j mem, digests,
      ← (opened j (mem_peersOf.mp mem).1).1]
    exact ⟨_, rfl⟩
  · simp only [if_pos mem, digests, transcript, self, sent_of_many many, sentOfMany,
      List.nil_append, List.cons_append]

/-! ## Agreement -/

/-- The openings that a party has in the end, as bytes: its own, and the third message of each peer. -/
def heard (n : Nat) (i : PartyId) (own : Opening F) (came : PartyId → List Bytes) : List Bytes :=
  (List.range' 1 n).map fun k => if k = i then own.toBytes else (came k).getD 2 []

theorem heard_eq {own : Opening F} {o : PartyId → Opening F} (self : o i = own)
    (seen : ∀ k ∈ peersOf i n, transcript n o k <+: came k) : heard n i own came = openings n o := by
  refine List.map_congr_left fun k mem => ?_
  by_cases same : k = i
  · rw [if_pos same, same, self]
  · have peer : k ∈ peersOf i n := by
      rw [List.mem_range'_1] at mem
      exact mem_peersOf.mpr ⟨⟨mem.1, by omega⟩, same⟩
    obtain ⟨later, here⟩ := seen k peer
    rw [if_neg same, ← here]
    rfl

theorem getElem?_shown (o : PartyId → Opening F) {k : Nat} (member : IsMember n k) :
    (shown n o)[k - 1]? = some (o k).value := by
  obtain ⟨low, high⟩ := member
  have small : k - 1 < n := by omega
  have back : 1 + (k - 1) = k := by omega
  simp [shown, small, back]

/-- Openings that have the same bytes show the same values. -/
theorem shown_eq_of_openings {o o' : PartyId → Opening F} (same : openings n o = openings n o') :
    shown n o = shown n o' := by
  refine List.map_congr_left fun k mem => ?_
  rw [Opening.toBytes_injective (List.map_inj_left.mp same k mem)]

/-- Lists of openings with one digest are the same, or what is hashed for them collides. -/
theorem openings_eq_or_collision {o o' : PartyId → Opening F}
    (whole : ∀ k, IsMember n k → (o k).IsWhole) (whole' : ∀ k, IsMember n k → (o' k).IsWhole)
    (same : broadcastDigest (openings n o) = broadcastDigest (openings n o')) :
    openings n o = openings n o' ∨
      Collision (broadcastInput (openings n o)) (broadcastInput (openings n o')) := by
  have length : ∀ {o : PartyId → Opening F}, (∀ k, IsMember n k → (o k).IsWhole) →
      ∀ bytes ∈ openings n o, bytes.length = F.byteLength + randomnessLength F := by
    intro o whole bytes mem
    obtain ⟨k, here, rfl⟩ := List.mem_map.mp mem
    rw [List.mem_range'_1] at here
    exact Opening.length_toBytes (whole k ⟨here.1, by omega⟩)
  rcases eq_or_collision same with equal | collision
  · exact .inl (broadcastInput_inj (length whole) (length whole') equal)
  · exact .inr collision

/-- **Agreement.**  Two honest parties complete a revelation, whatever the others do and send, and
what comes from one of them to the other is what was sent, in order.  Then they have the same values,
with their own in their places, unless the openings that they heard of make for two different byte
strings with one digest.  Each value is one that its party opened after it had committed to it. -/
theorem agreement (many : n > 2) (apart : i ≠ j) {Si Sj : Party F σ} {xi xj : Elem F}
    {cameI sentI cameJ sentJ : PartyId → List Bytes} {valuesI valuesJ : List (Elem F)}
    (left : Completes n i xi Si cameI sentI valuesI) (right : Completes n j xj Sj cameJ sentJ valuesJ)
    (toI : cameI j <+: sentJ i) (toJ : cameJ i <+: sentI j) :
    (valuesI = valuesJ ∨ Collision (broadcastInput (heard n i (openingOf xi Si) cameI))
      (broadcastInput (heard n j (openingOf xj Sj) cameJ))) ∧
    valuesI.length = n ∧ valuesJ.length = n ∧
    valuesI[i - 1]? = some xi ∧ valuesI[j - 1]? = some xj ∧
    valuesJ[i - 1]? = some xi ∧ valuesJ[j - 1]? = some xj ∧
    ∀ k ∈ peersOf i n, ∃ (commitment : Commitment) (opening : Opening F) (digest : Bytes)
      (later : List Bytes), cameI k = commitment.digest :: digest :: opening.toBytes :: later ∧
        Opening.ofBytes F opening.toBytes = .ok opening ∧ commitment.verify opening = true ∧
        valuesI[k - 1]? = some opening.value := by
  obtain ⟨o, selfI, wholeI, rfl, seenI⟩ := left.exists_seen many
  obtain ⟨o', selfJ, wholeJ, rfl, seenJ⟩ := right.exists_seen many
  have peerI : j ∈ peersOf i n := mem_peersOf.mpr ⟨right.member, apart.symm⟩
  have peerJ : i ∈ peersOf j n := mem_peersOf.mpr ⟨left.member, apart⟩
  -- What one of them sent is all that it could, so it is what the other has seen.
  have fromJ : transcript n o j = transcript n o' j :=
    ((seenI j peerI).1.trans (by rwa [← (seenJ i peerJ).2])).eq_of_length rfl
  have fromI : transcript n o' i = transcript n o i :=
    ((seenJ i peerJ).1.trans (by rwa [← (seenI j peerI).2])).eq_of_length rfl
  simp only [transcript, List.cons.injEq, and_true] at fromI fromJ
  obtain ⟨-, -, bytesJ, compared⟩ := fromJ
  obtain ⟨-, -, bytesI, -⟩ := fromI
  have atJ : o j = o' j := Opening.toBytes_injective bytesJ
  have atI : o' i = o i := Opening.toBytes_injective bytesI
  have valueI : (o i).value = xi := by rw [selfI, value_openingOf]
  have valueJ : (o' j).value = xj := by rw [selfJ, value_openingOf]
  refine ⟨?_, by simp [shown], by simp [shown], ?_, ?_, ?_, ?_, fun k peer => ?_⟩
  · rw [heard_eq selfI fun k mem => (seenI k mem).1, heard_eq selfJ fun k mem => (seenJ k mem).1]
    exact (openings_eq_or_collision wholeI wholeJ compared).imp_left shown_eq_of_openings
  · rw [getElem?_shown o left.member, valueI]
  · rw [getElem?_shown o right.member, atJ, valueJ]
  · rw [getElem?_shown o' left.member, atI, valueI]
  · rw [getElem?_shown o' right.member, valueJ]
  · have member : IsMember n k := (mem_peersOf.mp peer).1
    obtain ⟨later, here⟩ := (seenI k peer).1
    refine ⟨⟨(o k).digest⟩, o k, broadcastDigest (digests n o), broadcastDigest (openings n o) :: later,
      here.symm, Opening.ofBytes_toBytes (wholeI k member), ?_, getElem?_shown o member⟩
    simp [Commitment.verify]

/-! ## Honest parties -/

/-- What a party sends from a round on. -/
def sentFrom (n : Nat) (o : PartyId → Opening F) (round left : Nat) (j : PartyId) : List Bytes :=
  (List.range' round left).flatMap fun round => Reveal.sent n o round j

theorem sentFrom_succ (o : PartyId → Opening F) (round left : Nat) : sentFrom n o round (left + 1)
    = fun j => Reveal.sent n o round j ++ sentFrom n o (round + 1) left j := by
  funext j
  simp [sentFrom, List.range'_succ]

section

variable {o : PartyId → Opening F} (whole : ∀ j, IsMember n j → (o j).IsWhole)
  (member : IsMember n i) (id : S.id = i) (parties : S.parties = n)

include whole member id parties

/-- A round when all that comes later is there already. -/
theorem play_sentFrom {round : Nat} (begun : 0 < round) (due : round < rounds n) (left : Nat)
    (out : List Bytes) :
    (Protocol.evaluate round : Round F σ _ _).play (peersOf i n) (before n o i round) S
        (.among (peersOf i n) (sentFrom n o round (left + 1)) out)
      = some (((.ok (if round + 1 = rounds n then .isDone else .hasMoreRounds),
          before n o i (round + 1)), S), .among (peersOf i n) (sentFrom n o (round + 1) left)
        (out ++ Reveal.sent n o (round + 1) i)) := by
  rw [sentFrom_succ]
  exact Round.play_early (play_round whole member id parties begun due) _

/-- Honest parties complete the rounds that are left. -/
theorem play_driveFrom_honest (left : Nat) {round limit : Nat} (begun : 0 < round)
    (due : round + left + 1 = rounds n) (out : List Bytes) :
    ((Slot.driveFrom (limit + left + 2) round [⟨before n o i round, true⟩]).run S).play (peersOf i n)
        (.among (peersOf i n) (sentFrom n o round (left + 1)) out)
      = some (((.ok (rounds n), [⟨before n o i (rounds n), false⟩]), S),
        .among (peersOf i n) (fun _ => []) (out ++ sentFrom n o (round + 1) (left + 1) i)) := by
  induction left generalizing round out with
  | zero =>
      have last : round + 1 = rounds n := due
      rw [Slot.play_driveFrom, play_sentFrom whole member id parties begun (by omega),
        Option.bind_some, last, if_pos rfl]
      refine Slot.play_driveFrom_idle.trans ?_
      have silent : sentFrom n o (rounds n) 0 = fun _ => [] := rfl
      simp [silent, sentFrom]
  | succ left ih =>
      have more : round + 1 ≠ rounds n := by omega
      rw [Slot.play_driveFrom, play_sentFrom whole member id parties begun (by omega),
        Option.bind_some, if_neg more]
      refine (ih (Nat.succ_pos round) (by omega) _).trans ?_
      rw [sentFrom_succ o (round + 1), List.append_assoc]

/-- Honest parties complete all rounds. -/
theorem play_driveRounds_honest (own : o i = openingOf x S) :
    ((driveRounds [({ value := x } : Reveal F)]).run S).play (peersOf i n)
        (.among (peersOf i n) (sentFrom n o 1 (rounds n - 1)) [])
      = some (((.ok (rounds n), [before n o i (rounds n)]), committed x S),
        .among (peersOf i n) (fun _ => []) (sentFrom n o 1 (rounds n) i)) := by
  obtain ⟨left, due⟩ : ∃ left, rounds n = left + 2 := by
    unfold rounds
    split_ifs
    · exact ⟨3, rfl⟩
    · exact ⟨1, rfl⟩
  obtain ⟨limit, enough⟩ : ∃ limit, maxRounds = limit + left + 3 := by
    have few : left < 4 := by
      unfold rounds at due
      split_ifs at due <;> omega
    have many : 10 < maxRounds := by decide
    exact ⟨maxRounds - left - 3, by omega⟩
  have first : (Protocol.evaluate 0 : Round F σ _ _).play (peersOf i n) ({ value := x } : Reveal F) S
      (.among (peersOf i n) (sentFrom n o 1 (left + 1)) [])
      = some (((.ok .hasMoreRounds, before n o i 1), committed x S),
        .among (peersOf i n) (sentFrom n o 1 (left + 1)) (Reveal.sent n o 1 i)) :=
    play_first parties id member own
  have others : ((Slot.driveFrom (limit + left + 2) 1 [⟨before n o i 1, true⟩]).run
      (committed x S)).play _ _ = _ :=
    play_driveFrom_honest (S := committed x S) whole member id parties left Nat.one_pos (by omega)
      (Reveal.sent n o 1 i)
  have all : sentFrom n o 1 (left + 2) i
      = Reveal.sent n o 1 i ++ sentFrom n o (1 + 1) (left + 1) i := by
    rw [sentFrom_succ]
  have driven : ((Slot.driveFrom maxRounds 0 [⟨({ value := x } : Reveal F), true⟩]).run S).play
      (peersOf i n) (.among (peersOf i n) (sentFrom n o 1 (rounds n - 1)) [])
      = some (((.ok (rounds n), [⟨before n o i (rounds n), false⟩]), committed x S),
        .among (peersOf i n) (fun _ => []) (sentFrom n o 1 (rounds n) i)) := by
    rw [enough, Slot.play_driveFrom, due, Nat.add_sub_cancel (left + 1) 1, first, Option.bind_some,
      all]
    exact due ▸ others
  exact Slot.play_driveRounds driven

end

/-- **Honest parties complete a revelation**, each with the messages of the others. -/
theorem completes_honest {S : PartyId → Party F σ} {x : PartyId → Elem F} {o : PartyId → Opening F}
    (own : ∀ j, o j = openingOf (x j) (S j)) (member : IsMember n i) (id : (S i).id = i)
    (parties : (S i).parties = n) :
    Completes n i (x i) (S i) (sentFrom n o 1 (rounds n - 1))
      (fun k => if k ∈ peersOf i n then sentFrom n o 1 (rounds n) i else []) (shown n o) where
  member := member
  id := id
  parties := parties
  run := by
    have whole : ∀ j, IsMember n j → (o j).IsWhole := fun j _ => by
      rw [own]
      exact (Commitment.commit_spec _ _).1
    exact ⟨_, _, _, _, output_before_rounds,
      play_driveRounds_honest whole member id parties (own i)⟩

/-- A party of three with no randomness of its own. -/
def plainParty (i : PartyId) : Party .f251 Unit where
  id := i
  parties := 3
  config := {}
  supplier := ()
  rng := ChaCha.ofSeed []

/-- Among three honest parties that reveal zeros, two have the same list of zeros. -/
theorem agreement_of_three : ∃ (came sent : PartyId → PartyId → List Bytes)
    (values : PartyId → List (Elem .f251)),
    (∀ i, IsMember 3 i → Completes 3 i 0 (plainParty i) (came i) (sent i) (values i)) ∧
    came 1 2 <+: sent 2 1 ∧ came 2 1 <+: sent 1 2 ∧
    (values 1)[0]? = some 0 ∧ (values 1)[1]? = some 0 ∧ (values 1).length = 3 := by
  have complete : ∀ i, IsMember 3 i → _ := fun i member =>
    completes_honest (S := plainParty) (x := fun _ => 0) (o := fun j => openingOf 0 (plainParty j))
      (fun _ => rfl) member rfl rfl
  have early : ∀ j, sentFrom 3 (fun j => openingOf 0 (plainParty j)) 1 4 j
      <+: sentFrom 3 (fun j => openingOf 0 (plainParty j)) 1 5 j := fun j => by
    rw [sentFrom, sentFrom, List.range'_1_concat, List.flatMap_append]
    exact List.prefix_append _ _
  obtain ⟨-, length, -, first, second, -⟩ := agreement (by decide : 3 > 2) (by decide : 1 ≠ 2)
    (complete 1 ⟨by decide, by decide⟩) (complete 2 ⟨by decide, by decide⟩) (early 2) (early 1)
  exact ⟨_, _, _, complete, early 2, early 1, first, second, length⟩

end Reveal

end Spdz
