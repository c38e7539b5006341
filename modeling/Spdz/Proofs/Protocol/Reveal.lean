import Spdz.Proofs.Commitment
import Spdz.Proofs.Protocol.Broadcast
import Spdz.Protocol.Reveal

/-!
# The turns of a committed revelation

What a party holds at each point of a revelation is a place for every party, so its states are
described by families over the parties.  Honest parties all go through the same states, which are
written down here round by round; what a single party accepts from peers of any kind is said apart.

* `spread` — a list with a place for each party.
* `Reveal.before`, `Reveal.sent` — the states and messages of an honest revelation.
* **`Reveal.play_round`** — the rounds lead from each of these states to the next.
-/

namespace Spdz

/-! ## Places -/

section Places

variable {n : Nat} {α : Type}

/-- The only error of a look at the places is that there is none for the party. -/
theorem eq_of_placeOf_error {places : List (Option α)} {i : PartyId} {e : Error}
    (failed : placeOf places i = .error e) : e = .transport (.unknownParty i) := by
  unfold placeOf at failed
  split at failed
  · exact (Except.error.inj failed).symm
  · split at failed
    · cases failed
    · exact (Except.error.inj failed).symm

theorem eq_of_place_error {places : List (Option α)} {i : PartyId} {a : α} {e : Error}
    (failed : place places i a = .error e) : e = .transport (.unknownParty i) := by
  rw [place] at failed
  cases found : placeOf places i with
  | error e' =>
      rw [found] at failed
      cases failed
      exact eq_of_placeOf_error found
  | ok entry =>
      rw [found] at failed
      cases failed

/-- The places of all parties, in order. -/
def spread (n : Nat) (entry : PartyId → Option α) : List (Option α) := (List.range' 1 n).map entry

theorem spread_congr {f g : PartyId → Option α} (same : ∀ i, IsMember n i → f i = g i) :
    spread n f = spread n g := by
  refine List.map_congr_left fun i mem => same i ?_
  rw [List.mem_range'_1] at mem
  exact ⟨mem.1, by omega⟩

theorem replicate_eq_spread : List.replicate n (none : Option α) = spread n fun _ => none := by
  simp [spread]

theorem getElem?_spread (entry : PartyId → Option α) {index : Nat} (small : index < n) :
    (spread n entry)[index]? = some (entry (index + 1)) := by
  simp [spread, small, Nat.add_comm]

theorem placeOf_spread (entry : PartyId → Option α) {i : PartyId} (member : IsMember n i) :
    placeOf (spread n entry) i = .ok (entry i) := by
  obtain ⟨low, high⟩ := member
  cases i with
  | zero => exact absurd low (by decide)
  | succ index => simp [placeOf, getElem?_spread entry (Nat.lt_of_succ_le high)]

/-- Putting an entry in its place. -/
theorem place_spread (entry : PartyId → Option α) {i : Nat} (member : IsMember n i) (a : α) :
    place (spread n entry) i a = .ok (spread n (Function.update entry i (some a))) := by
  have set : (spread n entry).set (i - 1) (some a)
      = spread n (Function.update entry i (some a)) := by
    refine List.ext_getElem? fun index => ?_
    rw [List.getElem?_set]
    by_cases small : index < n
    · rw [getElem?_spread _ small, getElem?_spread _ small]
      obtain ⟨low, high⟩ := member
      by_cases here : i - 1 = index
      · have at_i : index + 1 = i := by omega
        rw [if_pos here, at_i, Function.update_self]
        simp [spread, small, here]
      · have other : index + 1 ≠ i := by omega
        rw [if_neg here, Function.update_of_ne other]
    · have beyond : n ≤ index := Nat.le_of_not_lt small
      have apart : i - 1 ≠ index := by
        have high := member.2
        have low := member.1
        omega
      rw [if_neg apart]
      simp [spread, beyond]
  rw [place, placeOf_spread entry member]
  exact congrArg _ set

/-- What is in the places, when all are filled. -/
theorem filterMap_spread (entry : PartyId → α) :
    (spread n fun i => some (entry i)).filterMap id = (List.range' 1 n).map entry := by
  simp [spread, List.filterMap_map]

end Places

namespace Reveal

variable {F : FieldSpec} {σ : Type} {n : Nat} {peers : List PartyId} {S : Party F σ}
  {came : PartyId → List Bytes} {out : List Bytes} {box : Mailbox}

/-! ## The parts of the protocol -/

/-- What opens the commitment of a party. -/
def openingOf (value : Elem F) (S : Party F σ) : Opening F := (Commitment.commit value S.rng).1.2

@[simp] theorem value_openingOf (value : Elem F) (S : Party F σ) :
    (openingOf value S).value = value := rfl

/-- The party after it has committed to a value. -/
def committed (value : Elem F) (S : Party F σ) : Party F σ :=
  { S with rng := (Commitment.commit value S.rng).2 }

theorem play_commit (r : Reveal F) (parties : S.parties = n) (member : IsMember n S.id) :
    (commit : Round F σ _ _).play peers r S (.among peers came out)
      = some (((.ok (),
          { r with
            opening := some (openingOf r.value S)
            commitments := spread n (Function.update (fun _ => none) S.id
              (some ⟨(openingOf r.value S).digest⟩)) }),
          committed r.value S),
        .among peers came (out ++ [(openingOf r.value S).digest])) := by
  subst parties
  have commits := (Commitment.commit_spec r.value S.rng).2.2
  simp only [commit, Round.play_bind, Round.play_party, Round.play_get, Option.bind_some,
    Round.proceed_ok, Round.play_setParty, Round.play_sendAll, Round.play_modify,
    replicate_eq_spread, place_spread _ member, Round.play_ofExcept_ok, commits]
  rfl

/-- A commitment of the right length is put in its place. -/
theorem play_keepCommitment {j : PartyId} (member : IsMember n j) {message : Bytes}
    (length : message.length = digestLength) (r : Reveal F) {entry : PartyId → Option Commitment}
    (places : r.commitments = spread n entry) :
    (keepCommitment j message : Round F σ _ _).play peers r S box = some (((.ok (),
      { r with commitments := spread n (Function.update entry j (some ⟨message⟩)) }), S), box) := by
  simp only [keepCommitment, Round.play_bind, Commitment.ofBytes_of_length length,
    Round.play_ofExcept_ok, Option.bind_some, Round.proceed_ok, Round.play_get, places,
    place_spread _ member, Round.play_modify]

/-- Places that were filled one after the other. -/
theorem fill_cons {α : Type} (entry : PartyId → Option α) (given : PartyId → α) (j : PartyId)
    (senders : List PartyId) :
    (fun k => if k ∈ senders then some (given k) else Function.update entry j (some (given j)) k)
      = fun k => if k ∈ j :: senders then some (given k) else entry k := by
  funext k
  by_cases same : k = j
  · subst same; simp
  · simp [same]

/-- Commitments of the right length are put in their places. -/
theorem play_keepCommitments {senders : List PartyId} (members : ∀ j ∈ senders, IsMember n j)
    {message : PartyId → Bytes} (length : ∀ j ∈ senders, (message j).length = digestLength)
    (r : Reveal F) {entry : PartyId → Option Commitment} (places : r.commitments = spread n entry) :
    ((senders.map fun j => (j, message j)).forM fun (j, message) =>
        (keepCommitment j message : Round F σ _ _)).play peers r S box
      = some (((.ok (), { r with commitments := spread n fun k =>
          if k ∈ senders then some ⟨message k⟩ else entry k }), S), box) := by
  induction senders generalizing r entry with
  | nil => simp [← places]
  | cons j senders ih =>
      rw [List.map_cons, List.forM, Round.play_bind,
        play_keepCommitment (members j (by simp)) (length j (by simp)) r places, Option.bind_some,
        Round.proceed_ok, ih (fun k mem => members k (by simp [mem]))
          (fun k mem => length k (by simp [mem])) _ rfl,
        fill_cons entry (fun k => Commitment.mk (message k))]

/-- An opening of the commitment that its sender made is put in its place. -/
theorem play_checkOpening {j : PartyId} (member : IsMember n j) {message : Bytes}
    {opening : Opening F} (read : Opening.ofBytes F message = .ok opening) (r : Reveal F)
    {entry : PartyId → Option Commitment} (places : r.commitments = spread n entry)
    (fits : entry j = some ⟨opening.digest⟩) (given : PartyId → Option (Opening F)) :
    (checkOpening (spread n given) j message : Round F σ _ _).play peers r S box
      = some (((.ok (spread n (Function.update given j (some opening))), r), S), box) := by
  have verified : Commitment.verify ⟨opening.digest⟩ opening = true := by simp [Commitment.verify]
  simp only [checkOpening, Round.play_bind, read, Round.play_ofExcept_ok, Option.bind_some,
    Round.proceed_ok, Round.play_get, places, placeOf_spread _ member, fits, verified, if_true,
    place_spread _ member]

/-- Openings that fit their commitments are put in their places. -/
theorem play_checkOpenings {senders : List PartyId} (members : ∀ j ∈ senders, IsMember n j)
    {message : PartyId → Bytes} {opening : PartyId → Opening F}
    (read : ∀ j ∈ senders, Opening.ofBytes F (message j) = .ok (opening j)) (r : Reveal F)
    {entry : PartyId → Option Commitment} (places : r.commitments = spread n entry)
    (fits : ∀ j ∈ senders, entry j = some ⟨(opening j).digest⟩)
    (given : PartyId → Option (Opening F)) :
    ((senders.map fun j => (j, message j)).foldlM (fun places (j, message) =>
        (checkOpening places j message : Round F σ _ _)) (spread n given)).play peers r S box
      = some (((.ok (spread n fun k => if k ∈ senders then some (opening k) else given k), r), S),
          box) := by
  induction senders generalizing given with
  | nil => simp
  | cons j senders ih =>
      rw [List.map_cons, List.foldlM_cons, Round.play_bind,
        play_checkOpening (members j (by simp)) (read j (by simp)) r places (fits j (by simp)),
        Option.bind_some, Round.proceed_ok, ih (fun k mem => members k (by simp [mem]))
          (fun k mem => read k (by simp [mem])) (fun k mem => fits k (by simp [mem])),
        fill_cons given opening]

/-- Commitments of the right length are received from all peers. -/
theorem play_receiveCommitments (members : ∀ j ∈ peers, IsMember n j)
    {message : PartyId → Bytes} (length : ∀ j ∈ peers, (message j).length = digestLength)
    (r : Reveal F) {entry : PartyId → Option Commitment} (places : r.commitments = spread n entry)
    {all : List (Option Commitment)}
    (filled : (spread n fun k => if k ∈ peers then some ⟨message k⟩ else entry k) = all)
    (later : PartyId → List Bytes) :
    (receiveCommitments : Round F σ _ _).play peers r S
        (.among peers (fun j => message j :: later j) out)
      = some (((.ok (), { r with
          commitments := all
          validation := if S.parties > 2
            then some { values := (all.filterMap id).map (·.digest) } else r.validation }), S),
        .among peers later out) := by
  subst filled
  simp only [receiveCommitments, Round.play_bind, Round.play_receiveAll, Option.bind_some,
    Round.proceed_ok, play_keepCommitments members length r places, Round.play_party]
  split_ifs <;> simp only [Round.play_modify, Round.play_pure]

/-- Openings that fit the commitments are received from all peers and joined with the own one. -/
theorem play_receiveOpenings (parties : S.parties = n) (self : IsMember n S.id)
    {message : PartyId → Bytes} {opening : PartyId → Opening F}
    (read : ∀ j ∈ peersOf S.id n, Opening.ofBytes F (message j) = .ok (opening j)) (r : Reveal F)
    {entry : PartyId → Option Commitment} (places : r.commitments = spread n entry)
    (fits : ∀ j ∈ peersOf S.id n, entry j = some ⟨(opening j).digest⟩)
    (pending : r.opening = some (opening S.id)) (later : PartyId → List Bytes) :
    (receiveOpenings : Round F σ _ _).play (peersOf S.id n) r S
        (.among (peersOf S.id n) (fun j => message j :: later j) out)
      = some (((.ok ((List.range' 1 n).map fun j => (opening j).toBytes), { r with
          opening := none
          values := (List.range' 1 n).map fun j => (opening j).value }), S),
        .among (peersOf S.id n) later out) := by
  have members : ∀ j ∈ peersOf S.id n, IsMember n j := fun j mem => (mem_peersOf.mp mem).1
  have all : spread n (Function.update
      (fun k => if k ∈ peersOf S.id n then some (opening k) else none) S.id (some (opening S.id)))
      = spread n fun k => some (opening k) := by
    refine spread_congr fun k member => ?_
    by_cases same : k = S.id
    · rw [same, Function.update_self]
    · rw [Function.update_of_ne same, if_pos (mem_peersOf.mpr ⟨member, same⟩)]
  have loop : ∀ box : Mailbox, ((((peersOf S.id n).map fun j => (j, message j)).foldlM
      (fun places (j, message) => (checkOpening places j message : Round F σ _ _))
      (spread n fun _ => none)).play (peersOf S.id n) { r with opening := none } S box) = _ :=
    fun box => play_checkOpenings members read { r with opening := none } places fits fun _ => none
  simp only [receiveOpenings, Round.play_bind, Round.play_party, Round.play_get, Option.bind_some,
    Round.proceed_ok, pending, Round.play_modify, Round.play_receiveAll, parties,
    replicate_eq_spread, loop, place_spread _ self, Round.play_ofExcept_ok, all, filterMap_spread,
    List.map_map, Round.play_pure, Function.comp_def]

section Comparison

variable {value : Elem F} {opening : Option (Opening F)} {commitments : List (Option Commitment)}
  {v : BroadcastValidation} {values : List (Elem F)} {output : Option (List (Elem F))}

/-- A comparison begins. -/
theorem play_validate_zero :
    (validate 0 : Round F σ _ _).play peers
        ⟨value, opening, commitments, some v, values, output⟩ S (.among peers came out)
      = some (((.ok (), ⟨value, opening, commitments, some v.announced, values, output⟩), S),
          .among peers came (out ++ [broadcastDigest v.values])) := by
  simp only [validate, Round.play_bind, Round.play_get, Option.bind_some, Round.proceed_ok,
    Round.play_discard, Round.play_within, BroadcastValidation.play_evaluate_zero,
    Option.map_some, Round.play_pure]

/-- A comparison ends, well if all digests are equal. -/
theorem play_validate_one (message : PartyId → Bytes) (later : PartyId → List Bytes) :
    (validate 1 : Round F σ _ _).play peers
        ⟨value, opening, commitments, some v, values, output⟩ S
        (.among peers (fun peer => message peer :: later peer) out)
      = some (if ∀ peer ∈ peers, message peer = v.digest
          then (((.ok (), ⟨value, opening, commitments, some { v with isDone := true }, values,
            output⟩), S), .among peers later out)
          else (((.error .broadcastInconsistency, ⟨value, opening, commitments, some v, values,
            output⟩), S), .among peers later out)) := by
  simp only [validate, Round.play_bind, Round.play_get, Option.bind_some, Round.proceed_ok,
    Round.play_discard, Round.play_within, BroadcastValidation.play_evaluate_one, Option.map_some]
  split_ifs <;> rfl

end Comparison

/-! ## Honest revelations -/

section Honest

variable (n : Nat) (o : PartyId → Opening F)

/-- Among more than two parties there are two comparisons. -/
def rounds : Nat := if n > 2 then 5 else 3

/-- The digests of all commitments, in order of parties. -/
def digests : List Bytes := (List.range' 1 n).map fun j => (o j).digest

/-- The bytes of all openings. -/
def openings : List Bytes := (List.range' 1 n).map fun j => (o j).toBytes

/-- The values of all parties. -/
def shown : List (Elem F) := (List.range' 1 n).map fun j => (o j).value

/-- What a party sent in the round before, among two parties. -/
def sentOfTwo (j : PartyId) : (round : Nat) → List Bytes
  | 1 => [(o j).digest]
  | 2 => [(o j).toBytes]
  | _ => []

/-- The same among more. -/
def sentOfMany (j : PartyId) : (round : Nat) → List Bytes
  | 1 => [(o j).digest]
  | 2 => [broadcastDigest (digests n o)]
  | 3 => [(o j).toBytes]
  | 4 => [broadcastDigest (openings n o)]
  | _ => []

/-- What a party sent in the round before. -/
def sent (round : Nat) (j : PartyId) : List Bytes :=
  if n > 2 then sentOfMany n o j round else sentOfTwo o j round

/-- The commitments before any was received, and after. -/
def ownCommitment (i : PartyId) : List (Option Commitment) :=
  spread n (Function.update (fun _ => none) i (some ⟨(o i).digest⟩))

@[inherit_doc ownCommitment]
def allCommitments : List (Option Commitment) := spread n fun j => some ⟨(o j).digest⟩

/-- A validation whose digest was sent, and one that has passed. -/
def announced (values : List Bytes) (isDone : Bool) : Option BroadcastValidation :=
  some { values, digest := broadcastDigest values, isDone }

/-- The state of one of two parties before a round. -/
def beforeOfTwo (i : PartyId) : (round : Nat) → Reveal F
  | 0 => { value := (o i).value }
  | 1 => { value := (o i).value, opening := some (o i), commitments := ownCommitment n o i }
  | 2 => { value := (o i).value, opening := some (o i), commitments := allCommitments n o }
  | _ =>
    { value := (o i).value, commitments := allCommitments n o, output := some (shown n o) }

/-- The state of one of more parties. -/
def beforeOfMany (i : PartyId) : (round : Nat) → Reveal F
  | 0 => { value := (o i).value }
  | 1 => { value := (o i).value, opening := some (o i), commitments := ownCommitment n o i }
  | 2 =>
    { value := (o i).value, opening := some (o i), commitments := allCommitments n o
      validation := announced (digests n o) false }
  | 3 =>
    { value := (o i).value, opening := some (o i), commitments := allCommitments n o
      validation := announced (digests n o) true }
  | 4 =>
    { value := (o i).value, commitments := allCommitments n o
      validation := announced (openings n o) false, values := shown n o }
  | _ =>
    { value := (o i).value, commitments := allCommitments n o
      validation := announced (openings n o) true, output := some (shown n o) }

/-- The state of a party before a round. -/
def before (i : PartyId) (round : Nat) : Reveal F :=
  if n > 2 then beforeOfMany n o i round else beforeOfTwo n o i round

variable {n o} {i : PartyId}

theorem sent_of_many (many : n > 2) (round : Nat) :
    sent n o round = fun j => sentOfMany n o j round := funext fun _ => if_pos many

theorem sent_of_two (few : ¬ n > 2) (round : Nat) :
    sent n o round = fun j => sentOfTwo o j round := funext fun _ => if_neg few

/-- Something of each peer, joined with what the party has itself. -/
theorem spread_update {α : Type} (given : PartyId → α) (mine : α) :
    (spread n fun k => if k ∈ peersOf i n then some (given k)
      else Function.update (fun _ => none) i (some mine) k)
      = spread n fun k => some (Function.update given i mine k) := by
  refine spread_congr fun k member => ?_
  by_cases same : k = i
  · subst same; simp [not_mem_peersOf_self]
  · simp [mem_peersOf, member, same]

/-- All parties' entries are there once those of the peers have been added to the own one. -/
theorem completed {α : Type} (given : PartyId → α) :
    (spread n fun k => if k ∈ peersOf i n then some (given k)
      else Function.update (fun _ => none) i (some (given i)) k) = spread n fun k => some (given k) := by
  rw [spread_update, Function.update_eq_self]

/-- Every party commits. -/
theorem play_first (parties : S.parties = n) (id : S.id = i) (member : IsMember n i)
    {value : Elem F} (own : o i = openingOf value S) :
    (evaluate 0 : Round F σ _ _).play peers { value } S (.among peers came out)
      = some (((.ok .hasMoreRounds, before n o i 1), committed value S),
          .among peers came (out ++ sent n o 1 i)) := by
  subst id
  have commits : (commit : Round F σ _ _).play peers { value } S (.among peers came out) = _ :=
    play_commit { value } parties member
  have state : before n o S.id 1 = {
      value, opening := some (openingOf value S), commitments := ownCommitment n o S.id } := by
    simp only [before, beforeOfMany, beforeOfTwo, own, value_openingOf, ite_self]
  have message : sent n o 1 S.id = [(openingOf value S).digest] := by
    simp only [sent, sentOfMany, sentOfTwo, own, ite_self]
  simp only [evaluate, Round.play_bind, Round.play_party, Option.bind_some, Round.proceed_ok,
    commits, Round.play_pure, state, message, ownCommitment, own]

/-- What the peers committed to is received. -/
theorem play_receiveCommitments_honest (member : IsMember n i) (parties : S.parties = n)
    (out : List Bytes) (r : Reveal F) (own : r.commitments = ownCommitment n o i) :
    (receiveCommitments : Round F σ _ _).play (peersOf i n) r S
        (.among (peersOf i n) (fun j => [(o j).digest]) out)
      = some (((.ok (), { r with
          commitments := allCommitments n o
          validation := if n > 2 then some { values := digests n o } else r.validation }), S),
        .among (peersOf i n) (fun _ => []) out) := by
  have values : ((allCommitments n o).filterMap id).map (·.digest) = digests n o := by
    rw [allCommitments, filterMap_spread, List.map_map]
    rfl
  rw [← values, ← parties]
  subst parties
  exact play_receiveCommitments (fun j mem => (mem_peersOf.mp mem).1)
    (fun j _ => by simp [Opening.digest]) r own
    (completed fun j => Commitment.mk (o j).digest) fun _ => []

/-- What the peers opened is received. -/
theorem play_receiveOpenings_honest (whole : ∀ j, IsMember n j → (o j).IsWhole)
    (member : IsMember n i) (id : S.id = i) (parties : S.parties = n) (out : List Bytes) (r : Reveal F)
    (all : r.commitments = allCommitments n o) (pending : r.opening = some (o i)) :
    (receiveOpenings : Round F σ _ _).play (peersOf i n) r S
        (.among (peersOf i n) (fun j => [(o j).toBytes]) out)
      = some (((.ok (openings n o), { r with opening := none, values := shown n o }), S),
        .among (peersOf i n) (fun _ => []) out) := by
  subst id
  exact play_receiveOpenings parties member
    (fun j mem => Opening.ofBytes_toBytes (whole j (mem_peersOf.mp mem).1)) r all (fun _ _ => rfl)
    pending fun _ => []

/-- **Round by round.**  From the second round on honest parties go from one state to the next, each
with the messages that the others sent the round before. -/
theorem play_round (whole : ∀ j, IsMember n j → (o j).IsWhole) (member : IsMember n i)
    (id : S.id = i) (parties : S.parties = n) {round : Nat} (begun : 0 < round)
    (due : round < rounds n) :
    (evaluate round : Round F σ _ _).play (peersOf i n) (before n o i round) S
        (.among (peersOf i n) (sent n o round) out)
      = some (((.ok (if round + 1 = rounds n then .isDone else .hasMoreRounds),
          before n o i (round + 1)), S),
        .among (peersOf i n) (fun _ => []) (out ++ sent n o (round + 1) i)) := by
  have received := play_receiveCommitments_honest (o := o) member parties
  have opened := play_receiveOpenings_honest whole member id parties
  by_cases many : n > 2
  · have more : S.parties > 2 := parties ▸ many
    simp only [rounds, before, sent_of_many many, if_pos many] at due received ⊢
    have four : round = 1 ∨ round = 2 ∨ round = 3 ∨ round = 4 := by omega
    rcases four with rfl | rfl | rfl | rfl
    all_goals simp only [evaluate, Round.play_bind, Round.play_party, Option.bind_some,
      Round.proceed_ok, more, decide_true, beforeOfMany, sentOfMany]
    · simp only [received, play_validate_zero, Option.bind_some, Round.proceed_ok, Round.play_pure,
        Round.play_bind]
      rfl
    · simp only [announced, play_validate_one, implies_true, if_true, Option.bind_some,
        Round.proceed_ok, sendOpening, Round.play_bind, Round.play_get, Round.play_sendAll,
        Round.play_pure]
      rfl
    · simp only [opened, Round.play_modify, play_validate_zero, Option.bind_some, Round.proceed_ok,
        Round.play_bind, Round.play_pure]
      rfl
    · simp only [announced, play_validate_one, implies_true, if_true, Option.bind_some,
        Round.proceed_ok, finish, Round.play_bind, Round.play_modify, Round.play_pure]
      simp
  · have more : ¬ S.parties > 2 := parties ▸ many
    simp only [rounds, before, sent_of_two many, if_neg many] at due received ⊢
    have two : round = 1 ∨ round = 2 := by omega
    rcases two with rfl | rfl
    all_goals simp only [evaluate, Round.play_bind, Round.play_party, Option.bind_some,
      Round.proceed_ok, more, decide_false, beforeOfTwo, sentOfTwo]
    · simp only [received, Option.bind_some, Round.proceed_ok, sendOpening, Round.play_bind,
        Round.play_get, Round.play_sendAll, Round.play_pure]
      rfl
    · simp only [Round.play_discard, opened, Option.bind_some, Round.proceed_ok, finish,
        Round.play_bind, Round.play_modify, Round.play_pure]
      simp

/-- In the end everybody has the values of all, and nothing is sent any more. -/
theorem output_before_rounds : (before n o i (rounds n)).output = some (shown n o) := by
  by_cases many : n > 2
  · simp only [before, rounds, if_pos many, beforeOfMany]
  · simp only [before, rounds, if_neg many, beforeOfTwo]

theorem sent_zero : sent n o 0 = fun _ => [] := by
  by_cases many : n > 2
  · simp only [sent_of_many many, sentOfMany]
  · simp only [sent_of_two many, sentOfTwo]

/-- In between everybody sends one message a round. -/
theorem exists_sent {round : Nat} (begun : 0 < round) (due : round < rounds n) (j : PartyId) :
    ∃ message, sent n o round j = [message] := by
  by_cases many : n > 2
  · simp only [rounds, if_pos many, sent_of_many many] at due ⊢
    have four : round = 1 ∨ round = 2 ∨ round = 3 ∨ round = 4 := by omega
    rcases four with rfl | rfl | rfl | rfl <;> exact ⟨_, rfl⟩
  · simp only [rounds, if_neg many, sent_of_two many] at due ⊢
    have two : round = 1 ∨ round = 2 := by omega
    rcases two with rfl | rfl <;> exact ⟨_, rfl⟩

/-- In one of the rounds in between everybody shows what opens its commitment. -/
theorem exists_shown (n : Nat) (o : PartyId → Opening F) :
    ∃ round, 0 < round ∧ round < rounds n ∧ ∀ j, sent n o round j = [(o j).toBytes] := by
  by_cases many : n > 2
  · exact ⟨3, by decide, by simp [rounds, many], fun j => by simp [sent_of_many many, sentOfMany]⟩
  · exact ⟨2, by decide, by simp [rounds, many], fun j => by simp [sent_of_two many, sentOfTwo]⟩

theorem sent_rounds : sent n o (rounds n) = fun _ => [] := by
  by_cases many : n > 2
  · simp only [sent_of_many many, rounds, if_pos many, sentOfMany]
  · simp only [sent_of_two many, rounds, if_neg many, sentOfTwo]

end Honest

end Reveal

end Spdz
