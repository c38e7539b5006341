import Spdz.Proofs.Protocol.Accepted

/-!
# What a party withholds

A party that takes part in a revelation sends what opens its commitment in the second round if there are
two parties, and in the third one if there are more.  Before that it waits for the commitments of its
peers, and for the digests by which these are compared.  Here it is said call by call what happens in each
round, whatever the peers send and whichever call fails.

* `Reveal.Refused` — what has happened when the party gives up before it has sent the opening.
* `Reveal.Committed`, `Reveal.cleared` — what has happened when it sends the opening.
* `Reveal.of_runs_zero` … `Reveal.of_runs_two_of_many` — the rounds up to there.
* `Reveal.of_runs_three`, `Reveal.of_runs_last` — the rounds after it.
-/

namespace Spdz

namespace Reveal

variable {F : FieldSpec} {σ : Type} {n : Nat} {i : PartyId} {peers : List PartyId} {S : Party F σ}
  {x : Elem F} {own : Opening F} {c : PartyId → Bytes} {events : List Event}

/-! ## Messages to and from all -/

/-- Peers' messages, received from all after a message was sent to all. -/
def exchanged (n : Nat) (i : PartyId) (own : Bytes) (message : PartyId → Bytes) : List Event :=
  [⟨.sendAll own, .ok ()⟩, ⟨.receiveAll, .ok ((peersOf i n).map fun j => (j, message j))⟩]

/-- A message was to be sent to all, and one of each peer to be received, but a call has failed. -/
inductive Lost (message : Bytes) : List Event → TransportError → Prop where
  | unsent (cause : TransportError) : Lost message [⟨.sendAll message, .error cause⟩] cause
  | missing (cause : TransportError) :
    Lost message [⟨.sendAll message, .ok ()⟩, ⟨.receiveAll, .error cause⟩] cause

/-- The digests `c` are the own one, and well-formed ones that came from all peers. -/
structure Committed (n : Nat) (i : PartyId) (digest : Bytes) (c : PartyId → Bytes) : Prop where
  own : c i = digest
  length : ∀ j ∈ peersOf i n, (c j).length = digestLength

/-- The digest by which the parties compare all commitments, in order of parties. -/
def comparison (n : Nat) (c : PartyId → Bytes) : Bytes := broadcastDigest ((List.range' 1 n).map c)

/-- **The runs that end in an error before the opening was sent.**  A commitment does not come or is
malformed, or the digest of a peer does not come or is different.  Of the value they depend on the digest
alone. -/
inductive Refused (n : Nat) (i : PartyId) (digest : Bytes) : List Event → Error → Prop where
  | uncommitted {events : List Event} {cause : TransportError} (lost : Lost digest events cause) :
    Refused n i digest events (.transport cause)
  | malformed {c : PartyId → Bytes} {j : PartyId} (peer : j ∈ peersOf i n)
      (wrong : (c j).length ≠ digestLength) :
    Refused n i digest (exchanged n i digest c)
      (.malformedMessage j (.invalidLength digestLength (c j).length))
  | unvalidated (many : n > 2) {c : PartyId → Bytes} (committed : Committed n i digest c)
      {events : List Event} {cause : TransportError} (lost : Lost (comparison n c) events cause) :
    Refused n i digest (exchanged n i digest c ++ events) (.transport cause)
  | different (many : n > 2) {c other : PartyId → Bytes} (committed : Committed n i digest c)
      (differ : ∃ j ∈ peersOf i n, other j ≠ comparison n c) :
    Refused n i digest (exchanged n i digest c ++ exchanged n i (comparison n c) other)
      .broadcastInconsistency

/-- What has happened when the opening is sent. -/
def cleared (n : Nat) (i : PartyId) (digest : Bytes) (c : PartyId → Bytes) : List Event :=
  exchanged n i digest c ++ if n > 2 then exchanged n i (comparison n c) fun _ => comparison n c else []

/-! ## The parts of a round -/

section Parts

variable {β : Type} {next : PUnit → Round F σ (Reveal F) β} {r : Reveal F}
  {out : (Except Error β × Reveal F) × Party F σ}

/-- The state of a party that has received the commitments `c`. -/
def collected (n : Nat) (own : Opening F) (c : PartyId → Bytes) (many : Prop) [Decidable many] :
    Reveal F where
  value := own.value
  opening := some own
  commitments := spread n fun j => some ⟨c j⟩
  validation := if many then some { values := (List.range' 1 n).map c } else none

/-- Commitments are put in their places, up to one that is malformed. -/
theorem of_runs_keepCommitments {senders : List PartyId} (members : ∀ j ∈ senders, IsMember n j)
    {message : PartyId → Bytes} {entry : PartyId → Option Commitment}
    (places : r.commitments = spread n entry)
    (runs : (((senders.map fun j => (j, message j)).forM fun (j, message) =>
      (keepCommitment j message : Round F σ _ _)) >>= next).Runs peers r S events out) :
    (∃ j ∈ senders, (message j).length ≠ digestLength ∧ ∃ r', events = [] ∧
      out = ((.error (.malformedMessage j (.invalidLength digestLength (message j).length)), r'), S)) ∨
    (∀ j ∈ senders, (message j).length = digestLength) ∧
      (next ⟨⟩).Runs peers
        { r with commitments := spread n fun k => if k ∈ senders then some ⟨message k⟩ else entry k } S
        events out := by
  induction senders generalizing r entry with
  | nil =>
      refine .inr ⟨by simp, ?_⟩
      simpa [List.forM, ← places] using runs
  | cons j senders ih =>
      simp only [List.map_cons, List.forM, bind_assoc, keepCommitment] at runs
      by_cases length : (message j).length = digestLength
      · simp only [Commitment.ofBytes_of_length length, Round.runs_ofExcept_ok_bind, Round.runs_get_bind,
          places, place_spread _ (members j (by simp)), Round.runs_modify_bind] at runs
        obtain ⟨k, mem, wrong⟩ | ⟨lengths, runs⟩ := ih (fun k mem => members k (by simp [mem])) rfl runs
        · exact .inl ⟨k, by simp [mem], wrong⟩
        · rw [fill_cons entry (fun k => Commitment.mk (message k))] at runs
          exact .inr ⟨List.forall_mem_cons.mpr ⟨length, lengths⟩, runs⟩
      · simp only [Commitment.ofBytes_of_length_ne length, Round.runs_ofExcept_error_bind] at runs
        exact .inl ⟨j, by simp, length, _, runs⟩

/-- The commitments of the peers are received and joined with the own one. -/
theorem of_runs_receiveCommitments
    (runs : (receiveCommitments >>= next).Runs (peersOf i n) (pledged n i own) S events out) :
    (∃ cause r', events = [⟨.receiveAll, .error cause⟩] ∧
      out = ((.error (.transport cause), r'), S)) ∨
    ∃ c : PartyId → Bytes, c i = own.digest ∧ ∃ later, events
        = ⟨.receiveAll, .ok ((peersOf i n).map fun j => (j, c j))⟩ :: later ∧
      ((∃ j ∈ peersOf i n, (c j).length ≠ digestLength ∧ ∃ r', later = [] ∧
        out = ((.error (.malformedMessage j (.invalidLength digestLength (c j).length)), r'), S)) ∨
      (∀ j ∈ peersOf i n, (c j).length = digestLength) ∧
        (next ⟨⟩).Runs (peersOf i n) (collected n own c (S.parties > 2)) S later out) := by
  simp only [receiveCommitments, bind_assoc] at runs
  obtain ⟨cause, rfl, rfl⟩ | ⟨_, later, rfl, ⟨message, rfl⟩, runs⟩ := Round.runs_call_bind.mp runs
  · exact .inl ⟨cause, _, rfl, rfl⟩
  · have other : ∀ j ∈ peersOf i n, Function.update message i own.digest j = message j :=
      fun j mem => Function.update_of_ne (mem_peersOf.mp mem).2 ..
    refine .inr ⟨Function.update message i own.digest, Function.update_self .., later, ?_, ?_⟩
    · rw [List.map_congr_left fun j mem => by rw [← other j mem]]
    · obtain ⟨j, mem, wrong, r', rfl, rfl⟩ | ⟨lengths, runs⟩ :=
        of_runs_keepCommitments (fun j mem => (mem_peersOf.mp mem).1) rfl runs
      · exact .inl ⟨j, mem, by rwa [other j mem], r', rfl, by rw [other j mem]⟩
      · refine .inr ⟨fun j mem => by rw [other j mem, lengths j mem], ?_⟩
        simp only [pledged, spread_commitments message, Round.runs_party_bind] at runs
        by_cases many : S.parties > 2
        · simp only [if_pos many, Round.runs_modify_bind, filterMap_spread, List.map_map] at runs
          simp only [collected, if_pos many]
          exact runs
        · simp only [if_neg many, pure_bind] at runs
          simp only [collected, if_neg many]
          exact runs

/-- A comparison begins, unless sending fails. -/
theorem of_runs_validate_zero {v : BroadcastValidation} (present : r.validation = some v)
    (runs : (validate 0 >>= next).Runs peers r S events out) :
    (∃ cause r', events = [⟨.sendAll (broadcastDigest v.values), .error cause⟩] ∧
      out = ((.error (.transport cause), r'), S)) ∨
    ∃ later, events = ⟨.sendAll (broadcastDigest v.values), .ok ()⟩ :: later ∧
      (next ⟨⟩).Runs peers { r with validation := some v.announced } S later out := by
  simp only [validate, bind_assoc, Round.runs_get_bind, present, Round.discard_eq, pure_bind] at runs
  obtain ⟨e, v', S', part, rfl⟩ | ⟨_, v', S', _, after, part, runs, rfl⟩ :=
    Round.of_runs_within_bind runs
  · obtain ⟨cause, rfl, same⟩ | ⟨-, same⟩ := BroadcastValidation.of_runs_zero part
    · cases same
      exact .inl ⟨cause, _, rfl, rfl⟩
    · cases same
  · obtain ⟨cause, -, same⟩ | ⟨rfl, same⟩ := BroadcastValidation.of_runs_zero part
    · cases same
    · cases same
      exact .inr ⟨after, rfl, runs⟩

/-- A comparison ends, well if all digests come and are equal. -/
theorem of_runs_validate_one {v : BroadcastValidation} (present : r.validation = some v)
    (runs : (validate 1 >>= next).Runs peers r S events out) :
    (∃ cause r', events = [⟨.receiveAll, .error cause⟩] ∧
      out = ((.error (.transport cause), r'), S)) ∨
    ∃ (message : PartyId → Bytes) (later : List Event),
      events = ⟨.receiveAll, .ok (peers.map fun j => (j, message j))⟩ :: later ∧
      ((∃ j ∈ peers, message j ≠ v.digest) ∧ later = [] ∧
        (∃ r', out = ((.error .broadcastInconsistency, r'), S)) ∨
      (∀ j ∈ peers, message j = v.digest) ∧
        (next ⟨⟩).Runs peers { r with validation := some { v with isDone := true } } S later out) := by
  simp only [validate, bind_assoc, Round.runs_get_bind, present, Round.discard_eq, pure_bind] at runs
  obtain ⟨e, v', S', part, rfl⟩ | ⟨_, v', S', _, after, part, runs, rfl⟩ :=
    Round.of_runs_within_bind runs
  · obtain ⟨cause, rfl, same⟩ | ⟨message, rfl, ⟨differ, same⟩ | ⟨-, same⟩⟩ :=
      BroadcastValidation.of_runs_one part
    · cases same
      exact .inl ⟨cause, _, rfl, rfl⟩
    · cases same
      exact .inr ⟨message, [], rfl, .inl ⟨differ, rfl, _, rfl⟩⟩
    · cases same
  · obtain ⟨cause, -, same⟩ | ⟨message, rfl, ⟨-, same⟩ | ⟨equal, same⟩⟩ :=
      BroadcastValidation.of_runs_one part
    · cases same
    · cases same
    · cases same
      exact .inr ⟨message, after, rfl, .inr ⟨equal, runs⟩⟩

/-- The opening is sent, or that fails. -/
theorem of_runs_sendOpening (present : r.opening = some own)
    (runs : (sendOpening >>= next).Runs peers r S events out) :
    (∃ cause, events = [⟨.sendAll own.toBytes, .error cause⟩] ∧
      out = ((.error (.transport cause), r), S)) ∨
    ∃ later, events = ⟨.sendAll own.toBytes, .ok ()⟩ :: later ∧
      (next ⟨⟩).Runs peers r S later out := by
  simp only [sendOpening, bind_assoc, Round.runs_get_bind, present] at runs
  obtain failed | ⟨_, later, rfl, -, runs⟩ := Round.runs_call_bind.mp runs
  · exact .inl failed
  · exact .inr ⟨later, rfl, runs⟩

end Parts

/-! ## The rounds up to the opening -/

section Rounds

variable {r : Reveal F} {out : (Except Error Status × Reveal F) × Party F σ}

/-- In the first round the commitment is sent. -/
theorem of_runs_zero (parties : S.parties = n) (id : S.id = i) (member : IsMember n i)
    (runs : (evaluate 0 : Round F σ _ _).Runs peers { value := x } S events out) :
    (∃ cause r', events = [⟨.sendAll (openingOf x S).digest, .error cause⟩] ∧
      out = ((.error (.transport cause), r'), committed x S)) ∨
    (events = [⟨.sendAll (openingOf x S).digest, .ok ()⟩] ∧
      out = ((.ok .hasMoreRounds, pledged n i (openingOf x S)), committed x S)) := by
  subst parties id
  have commits := (Commitment.commit_spec x S.rng).2.2
  simp only [evaluate, commit, bind_assoc, Round.runs_party_bind, Round.runs_get_bind,
    Round.runs_setParty_bind] at runs
  obtain ⟨cause, rfl, rfl⟩ | ⟨_, later, rfl, -, runs⟩ := Round.runs_call_bind.mp runs
  · exact .inl ⟨cause, _, by rw [commits]; rfl, rfl⟩
  · simp only [Round.runs_modify_bind, commits, replicate_eq_spread, place_spread _ member,
      Round.runs_ofExcept_ok_bind, Round.runs_pure] at runs
    obtain ⟨rfl, rfl⟩ := runs
    exact .inr ⟨by rw [commits]; rfl, rfl⟩

/-- The second round of two parties ends in an error or sends the opening. -/
theorem of_runs_one_of_two (few : ¬ n > 2) (parties : S.parties = n)
    (runs : (evaluate 1 : Round F σ _ _).Runs (peersOf i n) (pledged n i own) S events out) :
    (∃ e r', Refused n i own.digest (⟨.sendAll own.digest, .ok ()⟩ :: events) e ∧
      out = ((.error e, r'), S)) ∨
    ∃ c reply, Committed n i own.digest c ∧ (⟨.sendAll own.digest, .ok ()⟩ : Event) :: events
        = cleared n i own.digest c ++ [⟨.sendAll own.toBytes, reply⟩] ∧
      out.2 = S ∧ ∀ status, out.1.1 = .ok status → status = .hasMoreRounds := by
  rw [evaluate, Round.runs_party_bind, parties, decide_eq_false few] at runs
  obtain ⟨cause, r', rfl, rfl⟩ | ⟨c, mine, later, rfl, ⟨j, peer, wrong, r', rfl, rfl⟩ | ⟨length, sent⟩⟩ :=
    of_runs_receiveCommitments runs
  · exact .inl ⟨_, r', .uncommitted (.missing cause), rfl⟩
  · exact .inl ⟨_, r', .malformed peer wrong, rfl⟩
  · obtain ⟨cause, rfl, rfl⟩ | ⟨_, rfl, ended⟩ := of_runs_sendOpening rfl sent
    · refine .inr ⟨c, .error cause, ⟨mine, length⟩, ?_, rfl, fun _ ok => by cases ok⟩
      rw [cleared, if_neg few]
      rfl
    · obtain ⟨rfl, rfl⟩ := Round.runs_pure.mp ended
      refine .inr ⟨c, .ok (), ⟨mine, length⟩, ?_, rfl, fun _ ok => (Except.ok.inj ok).symm⟩
      rw [cleared, if_neg few]
      rfl

/-- The second round of more parties ends in an error or sends the digest of the commitments. -/
theorem of_runs_one_of_many (many : n > 2) (parties : S.parties = n)
    (runs : (evaluate 1 : Round F σ _ _).Runs (peersOf i n) (pledged n i own) S events out) :
    (∃ e r', Refused n i own.digest (⟨.sendAll own.digest, .ok ()⟩ :: events) e ∧
      out = ((.error e, r'), S)) ∨
    ∃ c, Committed n i own.digest c ∧ (⟨.sendAll own.digest, .ok ()⟩ : Event) :: events
        = exchanged n i own.digest c ++ [⟨.sendAll (comparison n c), .ok ()⟩] ∧
      out = ((.ok .hasMoreRounds, holding n own c false), S) := by
  rw [evaluate, Round.runs_party_bind, parties, decide_eq_true many] at runs
  obtain ⟨cause, r', rfl, rfl⟩ | ⟨c, mine, later, rfl, ⟨j, peer, wrong, r', rfl, rfl⟩ | ⟨length, sent⟩⟩ :=
    of_runs_receiveCommitments runs
  · exact .inl ⟨_, r', .uncommitted (.missing cause), rfl⟩
  · exact .inl ⟨_, r', .malformed peer wrong, rfl⟩
  · obtain ⟨cause, r', rfl, rfl⟩ | ⟨_, rfl, ended⟩ := of_runs_validate_zero (if_pos (parties ▸ many)) sent
    · exact .inl ⟨_, r', .unvalidated many ⟨mine, length⟩ (.unsent cause), rfl⟩
    · obtain ⟨rfl, rfl⟩ := Round.runs_pure.mp ended
      exact .inr ⟨c, ⟨mine, length⟩, rfl, rfl⟩

/-- The third round of more parties ends in an error or sends the opening. -/
theorem of_runs_two_of_many (many : n > 2) (parties : S.parties = n)
    (committed : Committed n i own.digest c)
    (runs : (evaluate 2 : Round F σ _ _).Runs (peersOf i n) (holding n own c false) S events out) :
    (∃ e r', Refused n i own.digest
        (exchanged n i own.digest c ++ ⟨.sendAll (comparison n c), .ok ()⟩ :: events) e ∧
      out = ((.error e, r'), S)) ∨
    ∃ reply, exchanged n i own.digest c ++ ⟨.sendAll (comparison n c), .ok ()⟩ :: events
        = cleared n i own.digest c ++ [⟨.sendAll own.toBytes, reply⟩] ∧
      out.2 = S ∧ ∀ status, out.1.1 = .ok status → status = .hasMoreRounds := by
  rw [evaluate, Round.runs_party_bind, parties, decide_eq_true many] at runs
  obtain ⟨cause, r', rfl, rfl⟩ | ⟨other, later, rfl, ⟨differ, rfl, r', rfl⟩ | ⟨equal, sent⟩⟩ :=
    of_runs_validate_one rfl runs
  · exact .inl ⟨_, r', .unvalidated many committed (.missing cause), rfl⟩
  · exact .inl ⟨_, r', .different many committed differ, rfl⟩
  · have same : (peersOf i n).map (fun j => (j, other j))
        = (peersOf i n).map fun j => (j, comparison n c) :=
      List.map_congr_left fun j mem => congrArg _ (equal j mem)
    obtain ⟨cause, rfl, rfl⟩ | ⟨_, rfl, ended⟩ := of_runs_sendOpening rfl sent
    · refine .inr ⟨.error cause, ?_, rfl, fun _ ok => by cases ok⟩
      rw [cleared, if_pos many, same, List.append_assoc]
      rfl
    · obtain ⟨rfl, rfl⟩ := Round.runs_pure.mp ended
      refine .inr ⟨.ok (), ?_, rfl, fun _ ok => (Except.ok.inj ok).symm⟩
      rw [cleared, if_pos many, same, List.append_assoc]
      rfl

/-! ## The rounds after it -/

theorem quiet_checkOpening (places : List (Option (Opening F))) (peer : PartyId) (message : Bytes) :
    Round.Quiet peers (checkOpening places peer message : Round F σ _ _) := by
  refine (Round.quiet_ofExcept _ _).bind fun opening => .get_bind fun r =>
    (Round.quiet_ofExcept _ _).bind fun commitment => ?_
  cases commitment with
  | none => exact Round.quiet_throw _
  | some commitment =>
      show Round.Quiet peers (if commitment.verify opening then _ else _)
      split_ifs
      · exact Round.quiet_ofExcept _ _
      · exact Round.quiet_throw _

theorem quiet_receiveOpenings : Round.Quiet peers (receiveOpenings : Round F σ _ _) := by
  refine .party_bind fun party => .get_bind fun r => ?_
  cases r.opening with
  | none => exact Round.quiet_throw _
  | some own =>
      refine .modify_bind (.receiveAll_bind fun received => ?_)
      refine (Round.Quiet.foldlM (fun places received => quiet_checkOpening places _ _) _ _).bind
        fun _ => ?_
      exact (Round.quiet_ofExcept _ _).bind fun _ => .modify_bind (Round.quiet_pure _)

theorem quiet_validate_one : Round.Quiet peers (validate 1 : Round F σ _ _) := by
  refine .get_bind fun r => ?_
  cases r.validation with
  | none => exact Round.quiet_throw _
  | some v =>
      show Round.Quiet peers (discard _)
      rw [Round.discard_eq]
      refine (Round.Quiet.within ?_).bind fun _ => Round.quiet_pure _
      refine .receiveAll_bind fun received => .get_bind fun v => ?_
      have passed : Round.Quiet peers (modify (fun v => { v with isDone := true }) >>= fun _ =>
        pure Status.isDone : Round F σ BroadcastValidation _) := .modify_bind (Round.quiet_pure _)
      show Round.Quiet peers (if _ then _ else _)
      split_ifs
      · exact (Round.quiet_throw _).bind fun _ => passed
      · exact passed

theorem of_runs_finish (runs : (finish : Round F σ _ _).Runs peers r S events out) :
    events = [] ∧ out.1.1 = .ok .isDone ∧ out.2 = S := by
  simp only [finish, Round.runs_modify_bind, Round.runs_pure] at runs
  obtain ⟨rfl, rfl⟩ := runs
  exact ⟨rfl, rfl, rfl⟩

/-- Something quiet and the end of the revelation. -/
theorem of_runs_bind_finish {α : Type} {x : Round F σ (Reveal F) α} (quiet : Round.Quiet peers x)
    (runs : (x >>= fun _ => finish).Runs peers r S events out) :
    sentIn events = [] ∧ ∀ status, out.1.1 = .ok status → status = .isDone := by
  obtain ⟨e, r', S', part, rfl⟩ | ⟨_, r', S', before, after, part, rest, rfl⟩ := Round.runs_bind.mp runs
  · exact ⟨(quiet _ _ _ _ part).1, fun status ok => by cases ok⟩
  · obtain ⟨rfl, done, -⟩ := of_runs_finish rest
    refine ⟨by rw [List.append_nil, (quiet _ _ _ _ part).1], fun status ok => ?_⟩
    exact (Except.ok.inj (done.symm.trans ok)).symm

/-- The last round of two parties, and of more. -/
theorem of_runs_last {round : Nat}
    (last : (¬ S.parties > 2 ∧ round = 2) ∨ (S.parties > 2 ∧ round = 4))
    (runs : (evaluate round : Round F σ _ _).Runs peers r S events out) :
    sentIn events = [] ∧ ∀ status, out.1.1 = .ok status → status = .isDone := by
  rw [evaluate, Round.runs_party_bind] at runs
  obtain ⟨few, rfl⟩ | ⟨many, rfl⟩ := last
  · rw [decide_eq_false few] at runs
    have quiet : Round.Quiet peers (discard receiveOpenings : Round F σ (Reveal F) _) := by
      rw [Round.discard_eq]
      exact quiet_receiveOpenings.bind fun _ => Round.quiet_pure _
    exact of_runs_bind_finish quiet runs
  · rw [decide_eq_true many] at runs
    exact of_runs_bind_finish quiet_validate_one runs

/-- Before it, among more than two parties, the digest of the openings is sent. -/
theorem of_runs_three (many : S.parties > 2)
    (runs : (evaluate 3 : Round F σ _ _).Runs peers r S events out) :
    (∃ shown, sentIn events <+: [broadcastDigest shown]) ∧ out.2 = S := by
  rw [evaluate, Round.runs_party_bind, decide_eq_true many] at runs
  obtain ⟨e, r', S', part, rfl⟩ | ⟨openings, r', S', before, after, part, rest, rfl⟩ :=
    Round.runs_bind.mp runs
  · obtain ⟨nothing, same⟩ := quiet_receiveOpenings _ _ _ _ part
    exact ⟨⟨[], by rw [nothing]; exact List.nil_prefix⟩, same⟩
  · obtain ⟨nothing, rfl⟩ := quiet_receiveOpenings _ _ _ _ part
    obtain ⟨cause, _, rfl, rfl⟩ | ⟨later, rfl, ended⟩ := of_runs_validate_zero rfl rest
    · exact ⟨⟨openings, by rw [sentIn_append, nothing]; exact List.prefix_refl _⟩, rfl⟩
    · obtain ⟨rfl, rfl⟩ := Round.runs_pure.mp ended
      exact ⟨⟨openings, by rw [sentIn_append, nothing]; exact List.prefix_refl _⟩, rfl⟩

end Rounds

end Reveal

end Spdz
