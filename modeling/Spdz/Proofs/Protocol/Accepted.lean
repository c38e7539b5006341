import Mathlib.Tactic.Choose
import Spdz.Proofs.Protocol.Reveal

/-!
# What a party accepts

The peers of a party may send anything.  If a revelation among more than two parties succeeds all the
same, then what they sent was of the right form: commitments of the right length, the digests that
the party computed itself, and openings that fit the commitments.  Round by round it is said here
what follows for the messages, and what the party then sends and holds.

* `Reveal.of_play_keepCommitments`, `Reveal.of_play_checkOpenings` — what was accepted.
* `Reveal.of_play_one` … `Reveal.of_play_four` — the rounds after the first.  In the end the party
  is where it would be among honest peers with the openings that it accepted.
-/

namespace Spdz

namespace Reveal

variable {F : FieldSpec} {σ : Type} {n : Nat} {peers : List PartyId} {S S' : Party F σ}
  {came : PartyId → List Bytes} {out : List Bytes} {box box' : Mailbox} {r r' : Reveal F}
  {status : Status}

/-! ## Loops over the peers -/

/-- Only commitments of the right length are kept. -/
theorem of_play_keepCommitment {j : PartyId} {message : Bytes}
    (play : (keepCommitment j message : Round F σ _ _).play peers r S box
      = some (((.ok (), r'), S'), box')) : message.length = digestLength := by
  by_contra length
  simp [keepCommitment, Round.play_bind, Commitment.ofBytes_of_length_ne length] at play

/-- All commitments that were kept have the right length. -/
theorem of_play_keepCommitments {senders : List PartyId} {message : PartyId → Bytes}
    (play : ((senders.map fun j => (j, message j)).forM fun (j, message) =>
        (keepCommitment j message : Round F σ _ _)).play peers r S box
      = some (((.ok (), r'), S'), box')) : ∀ j ∈ senders, (message j).length = digestLength := by
  induction senders generalizing r S box with
  | nil => simp
  | cons j senders ih =>
      rw [List.map_cons, List.forM] at play
      obtain ⟨_, _, _, _, first, others⟩ := Round.of_play_bind play
      exact List.forall_mem_cons.mpr ⟨of_play_keepCommitment first, ih others⟩

/-- Only openings are accepted that fit the commitment of their sender. -/
theorem of_play_checkOpening {j : PartyId} (member : IsMember n j) {message : Bytes}
    {entry : PartyId → Option Commitment} (places : r.commitments = spread n entry)
    {given given' : List (Option (Opening F))}
    (play : (checkOpening given j message : Round F σ _ _).play peers r S box
      = some (((.ok given', r'), S'), box')) :
    ∃ opening, Opening.ofBytes F message = .ok opening ∧ entry j = some ⟨opening.digest⟩ := by
  cases read : Opening.ofBytes F message with
  | error e => simp [checkOpening, Round.play_bind, read] at play
  | ok opening =>
      refine ⟨opening, rfl, ?_⟩
      cases here : entry j with
      | none =>
          simp [checkOpening, Round.play_bind, read, places, placeOf_spread _ member, here] at play
      | some commitment =>
          have verified : commitment.verify opening = true := by
            by_contra wrong
            simp [checkOpening, Round.play_bind, read, places, placeOf_spread _ member, here,
              wrong] at play
          have digest : commitment.digest = opening.digest := by
            simpa [Commitment.verify] using verified
          rw [← digest]

/-- All openings that were accepted fit the commitments of their senders. -/
theorem of_play_checkOpenings {senders : List PartyId} (members : ∀ j ∈ senders, IsMember n j)
    {message : PartyId → Bytes} {entry : PartyId → Option Commitment}
    (places : r.commitments = spread n entry) {given : PartyId → Option (Opening F)}
    {all : List (Option (Opening F))}
    (play : ((senders.map fun j => (j, message j)).foldlM (fun places (j, message) =>
        (checkOpening places j message : Round F σ _ _)) (spread n given)).play peers r S box
      = some (((.ok all, r'), S'), box')) :
    ∀ j ∈ senders, ∃ opening, Opening.ofBytes F (message j) = .ok opening ∧
      entry j = some ⟨opening.digest⟩ := by
  induction senders generalizing given box with
  | nil => simp
  | cons j senders ih =>
      rw [List.map_cons, List.foldlM_cons] at play
      obtain ⟨_, _, _, _, first, others⟩ := Round.of_play_bind play
      obtain ⟨opening, read, fits⟩ := of_play_checkOpening (members j (by simp)) places first
      rw [play_checkOpening (members j (by simp)) read r places fits] at first
      cases first
      exact List.forall_mem_cons.mpr ⟨⟨opening, read, fits⟩,
        ih (fun k mem => members k (by simp [mem])) others⟩

/-- Commitments were received from all peers, and have the right length. -/
theorem of_play_receiveCommitments
    (play : (receiveCommitments : Round F σ _ _).play peers r S (.among peers came out)
      = some (((.ok (), r'), S'), box')) :
    ∃ (message : PartyId → Bytes) (later : PartyId → List Bytes),
      Mailbox.among peers came out = .among peers (fun j => message j :: later j) out ∧
      ∀ j ∈ peers, (message j).length = digestLength := by
  obtain ⟨_, _, _, _, received, others⟩ := Round.of_play_bind play
  obtain ⟨message, later, inbox⟩ := Round.of_play_receiveAll received
  rw [inbox, Round.play_receiveAll] at received
  cases received
  obtain ⟨_, _, _, _, kept, -⟩ := Round.of_play_bind others
  exact ⟨message, later, inbox, of_play_keepCommitments kept⟩

/-- Openings were received from all peers, and fit their commitments. -/
theorem of_play_receiveOpenings (parties : S.parties = n) (members : ∀ j ∈ peers, IsMember n j)
    {entry : PartyId → Option Commitment} (places : r.commitments = spread n entry)
    {own : Opening F} (pending : r.opening = some own) {all : List Bytes}
    (play : (receiveOpenings : Round F σ _ _).play peers r S (.among peers came out)
      = some (((.ok all, r'), S'), box')) :
    ∃ (message : PartyId → Bytes) (later : PartyId → List Bytes),
      Mailbox.among peers came out = .among peers (fun j => message j :: later j) out ∧
      ∀ j ∈ peers, ∃ opening, Opening.ofBytes F (message j) = .ok opening ∧
        entry j = some ⟨opening.digest⟩ := by
  rw [receiveOpenings, Round.play_bind, Round.play_party, Option.bind_some, Round.proceed_ok,
    Round.play_bind, Round.play_get, Option.bind_some, Round.proceed_ok, pending, Round.play_bind,
    Round.play_modify, Option.bind_some, Round.proceed_ok] at play
  obtain ⟨_, _, _, _, received, others⟩ := Round.of_play_bind play
  obtain ⟨message, later, inbox⟩ := Round.of_play_receiveAll received
  rw [inbox, Round.play_receiveAll] at received
  cases received
  rw [parties, replicate_eq_spread] at others
  obtain ⟨_, _, _, _, opened, -⟩ := Round.of_play_bind others
  exact ⟨message, later, inbox, of_play_checkOpenings (r := { r with opening := none }) members places opened⟩

/-- A comparison that passed found the own digest everywhere. -/
theorem of_play_validate_one {value : Elem F} {opening : Option (Opening F)}
    {commitments : List (Option Commitment)} {v : BroadcastValidation} {values : List (Elem F)}
    {output : Option (List (Elem F))}
    (play : (validate 1 : Round F σ _ _).play peers
        ⟨value, opening, commitments, some v, values, output⟩ S (.among peers came out)
      = some (((.ok (), r'), S'), box')) :
    ∃ later : PartyId → List Bytes,
      Mailbox.among peers came out = .among peers (fun j => v.digest :: later j) out := by
  rw [validate, Round.play_bind, Round.play_get, Option.bind_some, Round.proceed_ok] at play
  obtain ⟨_, play⟩ := Round.of_play_discard play
  obtain ⟨_, compared, -⟩ := Round.of_play_within play
  obtain ⟨later, inbox, -⟩ := BroadcastValidation.of_play_evaluate_one compared
  exact ⟨later, inbox⟩

/-! ## Rounds among more than two parties -/

section Rounds

variable {i : PartyId} {own : Opening F} {c : PartyId → Bytes} {o : PartyId → Opening F}

/-- The state of a party that has sent its commitment to `own`. -/
def pledged (n : Nat) (i : PartyId) (own : Opening F) : Reveal F where
  value := own.value
  opening := some own
  commitments := spread n (Function.update (fun _ => none) i (some ⟨own.digest⟩))

/-- The state of a party that received the commitments `c`, of which its own is to `own`. -/
def holding (n : Nat) (own : Opening F) (c : PartyId → Bytes) (compared : Bool) : Reveal F where
  value := own.value
  opening := some own
  commitments := spread n fun j => some ⟨c j⟩
  validation := announced ((List.range' 1 n).map c) compared

/-- The commitments of the peers, joined with the own one. -/
theorem spread_commitments (message : PartyId → Bytes) (digest : Bytes) :
    (spread n fun k => if k ∈ peersOf i n then some (Commitment.mk (message k))
      else Function.update (fun _ => none) i (some ⟨digest⟩) k)
      = spread n fun k => some ⟨Function.update message i digest k⟩ := by
  rw [spread_update fun k => Commitment.mk (message k)]
  refine spread_congr fun k _ => ?_
  by_cases same : k = i
  · simp [same]
  · simp [same]

/-- The second round accepts commitments of the right length. -/
theorem of_play_one (many : S.parties > 2)
    (begun : r = pledged n i own)
    (play : (evaluate 1 : Round F σ _ _).play (peersOf i n) r S (.among (peersOf i n) came out)
      = some (((.ok status, r'), S'), box')) :
    ∃ (c : PartyId → Bytes) (later : PartyId → List Bytes), c i = own.digest ∧
      Mailbox.among (peersOf i n) came out = .among (peersOf i n) (fun j => c j :: later j) out ∧
      status = .hasMoreRounds ∧ r' = holding n own c false ∧ S' = S ∧
      box' = .among (peersOf i n) later (out ++ [broadcastDigest ((List.range' 1 n).map c)]) := by
  rw [evaluate, Round.play_bind, Round.play_party, Option.bind_some, Round.proceed_ok,
    decide_eq_true many] at play
  obtain ⟨_, _, _, _, received, others⟩ := Round.of_play_bind play
  obtain ⟨message, later, inbox, length⟩ := of_play_receiveCommitments received
  rw [inbox, begun, pledged, play_receiveCommitments (fun j mem => (mem_peersOf.mp mem).1) length _ rfl
    (spread_commitments message own.digest), if_pos many, filterMap_spread, List.map_map] at received
  cases received
  simp only [Round.play_bind, play_validate_zero, Option.bind_some, Round.proceed_ok,
    Round.play_pure] at others
  cases others
  refine ⟨Function.update message i own.digest, later, Function.update_self .., ?_, rfl, rfl, rfl, rfl⟩
  refine inbox.trans (Mailbox.among_congr fun j mem => ?_)
  have other : j ≠ i := (mem_peersOf.mp mem).2
  rw [Function.update_of_ne other]

/-- The third round accepts the digest of the own list of commitments. -/
theorem of_play_two (many : S.parties > 2) (begun : r = holding n own c false)
    (play : (evaluate 2 : Round F σ _ _).play peers r S (.among peers came out)
      = some (((.ok status, r'), S'), box')) :
    ∃ later : PartyId → List Bytes, Mailbox.among peers came out
        = .among peers (fun j => broadcastDigest ((List.range' 1 n).map c) :: later j) out ∧
      status = .hasMoreRounds ∧ r' = holding n own c true ∧ S' = S ∧
      box' = .among peers later (out ++ [own.toBytes]) := by
  rw [evaluate, Round.play_bind, Round.play_party, Option.bind_some, Round.proceed_ok,
    decide_eq_true many, begun] at play
  obtain ⟨_, _, _, _, compared, others⟩ := Round.of_play_bind play
  obtain ⟨later, inbox⟩ := of_play_validate_one compared
  rw [inbox, holding, announced, play_validate_one, if_pos fun _ _ => rfl] at compared
  cases compared
  simp only [sendOpening, Round.play_bind, Round.play_get, Round.play_sendAll, Option.bind_some,
    Round.proceed_ok, Round.play_pure] at others
  cases others
  exact ⟨later, inbox, rfl, rfl, rfl, rfl⟩

/-- Openings that fit the commitments of the peers, joined with the own one. -/
theorem exists_openings (mine : c i = own.digest) (whole : own.IsWhole)
    {message : PartyId → Bytes}
    (accepted : ∀ j ∈ peersOf i n, ∃ opening, Opening.ofBytes F (message j) = .ok opening ∧
      c j = opening.digest) :
    ∃ o : PartyId → Opening F, o i = own ∧
      (∀ j ∈ peersOf i n, Opening.ofBytes F (message j) = .ok (o j)) ∧
      ∀ j, IsMember n j → (o j).digest = c j ∧ (o j).IsWhole := by
  have : Inhabited (Opening F) := ⟨own⟩
  choose! given read fits using accepted
  have self : Function.update given i own i = own := Function.update_self ..
  have peer : ∀ j ∈ peersOf i n, Function.update given i own j = given j := fun j mem =>
    Function.update_of_ne (mem_peersOf.mp mem).2 ..
  refine ⟨Function.update given i own, self, fun j mem => ?_, fun j member => ?_⟩
  · rw [peer j mem]
    exact read j mem
  · by_cases same : j = i
    · rw [same, self]
      exact ⟨mine.symm, whole⟩
    · have mem : j ∈ peersOf i n := mem_peersOf.mpr ⟨member, same⟩
      rw [peer j mem]
      exact ⟨(fits j mem).symm, (Opening.toBytes_of_ofBytes (read j mem)).2⟩

/-- The fourth round accepts openings of all commitments. -/
theorem of_play_three (many : S.parties > 2) (member : IsMember n i) (id : S.id = i)
    (parties : S.parties = n) (mine : c i = own.digest) (begun : r = holding n own c true)
    (whole : own.IsWhole)
    (play : (evaluate 3 : Round F σ _ _).play (peersOf i n) r S (.among (peersOf i n) came out)
      = some (((.ok status, r'), S'), box')) :
    ∃ (o : PartyId → Opening F) (later : PartyId → List Bytes), o i = own ∧
      (∀ j, IsMember n j → (o j).digest = c j ∧ (o j).IsWhole) ∧
      Mailbox.among (peersOf i n) came out
        = .among (peersOf i n) (fun j => (o j).toBytes :: later j) out ∧
      status = .hasMoreRounds ∧ r' = before n o i 4 ∧ S' = S ∧
      box' = .among (peersOf i n) later (out ++ [broadcastDigest (openings n o)]) := by
  rw [evaluate, Round.play_bind, Round.play_party, Option.bind_some, Round.proceed_ok,
    decide_eq_true many, begun] at play
  obtain ⟨_, _, _, _, received, others⟩ := Round.of_play_bind play
  obtain ⟨message, later, inbox, accepted⟩ :=
    of_play_receiveOpenings parties (fun j mem => (mem_peersOf.mp mem).1) rfl rfl received
  obtain ⟨o, self, read, opened⟩ := exists_openings mine whole fun j mem => by
    simpa using accepted j mem
  have commitments : (spread n fun j => some (Commitment.mk (c j))) = allCommitments n o :=
    spread_congr fun j member => by rw [(opened j member).1]
  have commitment : ∀ j ∈ peersOf i n,
      some (Commitment.mk (c j)) = some (Commitment.mk (o j).digest) := fun j mem => by
    rw [(opened j (mem_peersOf.mp mem).1).1]
  have sent : Mailbox.among (peersOf i n) (fun j => message j :: later j) out
      = .among (peersOf i n) (fun j => (o j).toBytes :: later j) out :=
    Mailbox.among_congr fun j mem => by rw [(Opening.toBytes_of_ofBytes (read j mem)).1]
  subst id
  rw [inbox, play_receiveOpenings parties member read _ rfl commitment (by rw [self]; rfl)]
    at received
  cases received
  simp only [Round.play_bind, Round.play_modify, play_validate_zero, Option.bind_some,
    Round.proceed_ok, Round.play_pure] at others
  cases others
  have state : before n o S.id 4 = beforeOfMany n o S.id 4 := if_pos (parties ▸ many)
  refine ⟨o, later, self, opened, inbox.trans sent, rfl, ?_, rfl, rfl⟩
  rw [state, beforeOfMany, self, ← commitments]
  rfl

/-- The last round accepts the digest of the own list of openings. -/
theorem of_play_four (many : S.parties > 2) (parties : S.parties = n) (begun : r = before n o i 4)
    (play : (evaluate 4 : Round F σ _ _).play peers r S (.among peers came out)
      = some (((.ok status, r'), S'), box')) :
    ∃ later : PartyId → List Bytes, Mailbox.among peers came out
        = .among peers (fun j => broadcastDigest (openings n o) :: later j) out ∧
      status = .isDone ∧ r' = before n o i 5 ∧ S' = S ∧ box' = .among peers later out := by
  have state : before n o i 4 = beforeOfMany n o i 4 := if_pos (parties ▸ many)
  rw [evaluate, Round.play_bind, Round.play_party, Option.bind_some, Round.proceed_ok,
    decide_eq_true many, begun, state] at play
  obtain ⟨_, _, _, _, compared, others⟩ := Round.of_play_bind play
  obtain ⟨later, inbox⟩ := of_play_validate_one compared
  rw [inbox, beforeOfMany, announced, play_validate_one, if_pos fun _ _ => rfl] at compared
  cases compared
  simp only [finish, Round.play_bind, Round.play_modify, Option.bind_some, Round.proceed_ok,
    Round.play_pure] at others
  cases others
  exact ⟨later, inbox, rfl, (if_pos (parties ▸ many)).symm, rfl, rfl⟩

end Rounds

end Reveal

end Spdz
