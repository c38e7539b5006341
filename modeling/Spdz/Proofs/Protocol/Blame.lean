import Mathlib.Order.Bounds.Basic
import Spdz.Proofs.Field.Decoding
import Spdz.Proofs.Protocol.Facing
import Spdz.Proofs.Protocol.Reveal

/-!
# Who is to blame

A round that reads a message of each sender stops at the first one that is not what it asks for, and the
error says whose message that was.  What is asked for is said here without the decoders: so many encoded
elements, as many bytes as a digest has, or an opening of what the sender has committed to.

* `Demand` — what a round asks of the senders; `Demand.Reads`, `Demand.Fits`, a message that is read and
  one that is as it should be.
* `Demand.verdict`, `Demand.fault` — what becomes of one message, and of all of them.
* **`Demand.exact`** — the error names the lowest of the senders whose message does not fit.
* `Round.Finds.receiveElementsFromAll`, `Reveal.finds_receiveCommitments`,
  `Reveal.finds_receiveOpenings` — rounds that read messages.
* **`Reveal.blames_evaluate`** — the rounds of a revelation.
-/

namespace Spdz

variable {F : FieldSpec} {σ P α β : Type}

/-! ## The lowest fault -/

/-- A search in ascending order finds the lowest that there is. -/
theorem findSome?_eq_some_iff_isLeast {senders : List PartyId} (ascending : senders.Pairwise (· < ·))
    {verdict : PartyId → Option α} {a : α} : senders.findSome? verdict = some a
      ↔ ∃ j, IsLeast {k | k ∈ senders ∧ verdict k ≠ none} j ∧ verdict j = some a := by
  induction senders with
  | nil => simp [IsLeast]
  | cons first others ih =>
      obtain ⟨low, later⟩ := List.pairwise_cons.mp ascending
      rw [List.findSome?_cons]
      cases here : verdict first with
      | some b =>
          have least : IsLeast {k | k ∈ first :: others ∧ verdict k ≠ none} first := by
            refine ⟨⟨List.mem_cons_self, by simp [here]⟩, ?_⟩
            rintro k ⟨among, -⟩
            rcases List.mem_cons.mp among with rfl | among
            · exact le_rfl
            · exact (low k among).le
          constructor
          · intro same
            exact ⟨first, least, here.trans same⟩
          · rintro ⟨j, other, found⟩
            obtain rfl := least.unique other
            exact here.symm.trans found
      | none =>
          have same : {k | k ∈ first :: others ∧ verdict k ≠ none}
              = {k | k ∈ others ∧ verdict k ≠ none} := by
            ext k
            simp only [Set.mem_ofPred_eq, List.mem_cons]
            refine ⟨fun ⟨among, bad⟩ => ⟨among.resolve_left ?_, bad⟩, fun ⟨among, bad⟩ => ⟨.inr among, bad⟩⟩
            rintro rfl
            exact bad here
          rw [same]
          exact ih later

theorem findSome?_cons_eq_or (verdict : PartyId → Option α) (first : PartyId) (others : List PartyId) :
    (first :: others).findSome? verdict = (verdict first).or (others.findSome? verdict) := by
  rw [List.findSome?_cons]
  cases verdict first <;> rfl

/-! ## Demands -/

/-- **Demand.**  What a round asks of the messages that it reads, and of whom. -/
inductive Demand where
  | nothing
  | elements (senders : List PartyId) (count : Nat)
  | commitments (senders : List PartyId)
  /-- Openings of what each sender has committed to. -/
  | openings (senders : List PartyId) (committed : PartyId → Bytes)

namespace Demand

/-- The parties whose messages are read. -/
def senders : Demand → List PartyId
  | nothing => []
  | elements senders _ | commitments senders | openings senders _ => senders

/-- **Reads.**  The bytes encode something of the kind that is asked for. -/
def Reads (F : FieldSpec) : Demand → Bytes → Prop
  | nothing, _ => True
  | elements _ count, bytes => ∃ xs : List (Elem F), xs.length = count ∧ bytes = Elem.encodeList xs
  | commitments _, bytes => bytes.length = digestLength
  | openings .., bytes => ∃ opening : Opening F, opening.IsWhole ∧ bytes = opening.toBytes

/-- **Fits.**  The message of a sender is what is asked for. -/
def Fits (F : FieldSpec) (demand : Demand) (message : PartyId → Bytes) (j : PartyId) : Prop :=
  demand.Reads F (message j) ∧
    match demand with
    | openings _ committed => sha3 (message j) = committed j
    | _ => True

/-- What the round makes of the message of a sender. -/
def verdict (F : FieldSpec) (demand : Demand) (message : PartyId → Bytes) (j : PartyId) : Option Error :=
  match demand with
  | nothing => none
  | elements _ count =>
    match Elem.decodeList F (message j) count with
    | some (.error cause) => some (.malformedMessage j cause)
    | _ => none
  | commitments _ =>
    match Commitment.ofBytes (message j) with
    | .error cause => some (.malformedMessage j cause)
    | .ok _ => none
  | openings _ committed =>
    match Opening.ofBytes F (message j) with
    | .error cause => some (.malformedMessage j cause)
    | .ok opening => if committed j = opening.digest then none else some (.commitmentMismatch j)

/-- The first message that does not fit. -/
def fault (F : FieldSpec) (demand : Demand) (message : PartyId → Bytes) : Option Error :=
  demand.senders.findSome? (demand.verdict F message)

/-- The number of bytes that is asked for is one that a machine word holds. -/
def Countable (F : FieldSpec) : Demand → Prop
  | elements _ count => count * F.byteLength < UInt64.size
  | _ => True

/-- **Proper.**  The senders are in ascending order, and what is asked of them can be counted. -/
structure IsProper (F : FieldSpec) (demand : Demand) : Prop where
  ascending : demand.senders.Pairwise (· < ·)
  countable : demand.Countable F

theorem IsProper.nothing : nothing.IsProper F := ⟨.nil, trivial⟩

variable {demand : Demand} {message : PartyId → Bytes} {j : PartyId}

/-- A message fits, or it is read and the sender has committed to something else, or it is not read. -/
theorem verdict_cases (countable : demand.Countable F) (message : PartyId → Bytes) (j : PartyId) :
    (demand.Fits F message j ∧ demand.verdict F message j = none) ∨
    (demand.Reads F (message j) ∧ ¬ demand.Fits F message j ∧
      demand.verdict F message j = some (.commitmentMismatch j)) ∨
    (¬ demand.Reads F (message j) ∧ ¬ demand.Fits F message j ∧
      ∃ cause, demand.verdict F message j = some (.malformedMessage j cause)) := by
  have unread (cause : CodecError) (none : ¬ demand.Reads F (message j))
      (found : demand.verdict F message j = some (.malformedMessage j cause)) :
      ¬ demand.Reads F (message j) ∧ ¬ demand.Fits F message j ∧
        ∃ cause, demand.verdict F message j = some (.malformedMessage j cause) :=
    ⟨none, fun fits => none fits.1, cause, found⟩
  cases demand with
  | nothing => exact .inl ⟨⟨trivial, trivial⟩, rfl⟩
  | elements senders count =>
      obtain ⟨result, read⟩ := Elem.exists_decodeList_of_fits countable (message j)
      have whole (xs : List (Elem F)) := Elem.decodeList_eq_ok_iff countable (message j) xs
      cases result with
      | ok xs => exact .inl ⟨⟨⟨xs, (whole xs).mp read⟩, trivial⟩, by simp only [verdict, read]⟩
      | error cause =>
          refine .inr (.inr (unread cause ?_ (by simp only [verdict, read])))
          rintro ⟨xs, encodes⟩
          rw [(whole xs).mpr encodes] at read
          cases read
  | commitments senders =>
      by_cases length : (message j).length = digestLength
      · have read := Commitment.ofBytes_of_length length
        exact .inl ⟨⟨length, trivial⟩, by simp only [verdict, read]⟩
      · have read := Commitment.ofBytes_of_length_ne length
        exact .inr (.inr (unread _ length (by simp only [verdict, read]; rfl)))
  | openings senders committed =>
      cases read : Opening.ofBytes F (message j) with
      | error cause =>
          refine .inr (.inr (unread cause ?_ (by simp only [verdict, read])))
          rintro ⟨opening, whole, same⟩
          rw [same, Opening.ofBytes_toBytes whole] at read
          cases read
      | ok opening =>
          obtain ⟨same, whole⟩ := Opening.toBytes_of_ofBytes read
          have reads : Reads F (openings senders committed) (message j) := ⟨opening, whole, same.symm⟩
          have digest : opening.digest = sha3 (message j) := congrArg sha3 same
          by_cases fits : committed j = opening.digest
          · exact .inl ⟨⟨reads, (fits.trans digest).symm⟩, by simp only [verdict, read, if_pos fits]⟩
          · refine .inr (.inl ⟨reads, fun whole => fits (whole.2.symm.trans digest.symm), ?_⟩)
            simp only [verdict, read, if_neg fits]

/-- **The error names the lowest of the senders whose message does not fit**, as one that has sent
something else than what is asked for, or as one that has committed to something else. -/
theorem exact (proper : demand.IsProper F) {peers : List PartyId} {x : Round F σ P α} {p : P}
    {S : Party F σ} {Post : α → P → Party F σ → Prop}
    (blames : x.Blames peers message p S (demand.fault F message) Post) :
    (∀ j, (∃ cause, (x.upon peers message p S).1.1 = .error (.malformedMessage j cause))
      ↔ IsLeast {k | k ∈ demand.senders ∧ ¬ demand.Fits F message k} j ∧
        ¬ demand.Reads F (message j)) ∧
    ∀ j, (x.upon peers message p S).1.1 = .error (.commitmentMismatch j)
      ↔ IsLeast {k | k ∈ demand.senders ∧ ¬ demand.Fits F message k} j ∧
        demand.Reads F (message j) := by
  have unfit : {k | k ∈ demand.senders ∧ demand.verdict F message k ≠ none}
      = {k | k ∈ demand.senders ∧ ¬ demand.Fits F message k} := by
    ext k
    refine and_congr_right fun _ => ?_
    rcases demand.verdict_cases proper.countable message k
      with ⟨fits, found⟩ | ⟨-, unfit, found⟩ | ⟨-, unfit, _, found⟩ <;> simp [*]
  have lowest (e : Error) : demand.fault F message = some e ↔
      ∃ k, IsLeast {k | k ∈ demand.senders ∧ ¬ demand.Fits F message k} k ∧
        demand.verdict F message k = some e :=
    unfit ▸ findSome?_eq_some_iff_isLeast proper.ascending
  constructor
  · intro j
    simp only [blames.error_iff (e := .malformedMessage j _) id, lowest]
    constructor
    · rintro ⟨cause, k, least, found⟩
      rcases demand.verdict_cases proper.countable message k
        with ⟨-, fine⟩ | ⟨-, -, other⟩ | ⟨unread, -, _, same⟩
      · simp [fine] at found
      · simp [other] at found
      · obtain ⟨rfl, -⟩ : k = j ∧ _ := by simpa [same] using found
        exact ⟨least, unread⟩
    · rintro ⟨least, unread⟩
      rcases demand.verdict_cases proper.countable message j
        with ⟨fits, -⟩ | ⟨reads, -⟩ | ⟨-, -, cause, found⟩
      · exact absurd fits.1 unread
      · exact absurd reads unread
      · exact ⟨cause, j, least, found⟩
  · intro j
    simp only [blames.error_iff (e := .commitmentMismatch j) id, lowest]
    constructor
    · rintro ⟨k, least, found⟩
      rcases demand.verdict_cases proper.countable message k
        with ⟨-, fine⟩ | ⟨reads, -, same⟩ | ⟨-, -, _, other⟩
      · simp [fine] at found
      · obtain rfl : k = j := by simpa [same] using found
        exact ⟨least, reads⟩
      · simp [other] at found
    · rintro ⟨least, reads⟩
      rcases demand.verdict_cases proper.countable message j
        with ⟨fits, -⟩ | ⟨-, -, found⟩ | ⟨unread, -⟩
      · exact absurd fits least.1.2
      · exact ⟨j, least, found⟩
      · exact absurd reads unread

end Demand

/-! ## Elements -/

namespace Round

variable {peers : List PartyId} {message : PartyId → Bytes} {p : P} {S : Party F σ} {count : Nat}

/-- The message of one sender is read. -/
theorem Finds.decodeFrom (senders : List PartyId) (j : PartyId) :
    Finds peers message (Round.decodeFrom j (message j) count : Round F σ P _) p S
      ((Demand.elements senders count).verdict F message j) fun _ _ _ => True := by
  refine .last ?_
  cases read : Elem.decodeList F (message j) count with
  | none =>
      have fine : (Demand.elements senders count).verdict F message j = none := by
        simp only [Demand.verdict, read]
      exact fine ▸ .ofExcept_ok (congrArg (Option.getD · (.ok [])) read) (.pure trivial)
  | some result =>
      rw [Round.decodeFrom_of_eq j read]
      cases result with
      | ok xs =>
          have fine : (Demand.elements senders count).verdict F message j = none := by
            simp only [Demand.verdict, read]
          exact fine ▸ .ofExcept_ok rfl (.pure trivial)
      | error cause =>
          have found : (Demand.elements senders count).verdict F message j
              = some (.malformedMessage j cause) := by simp only [Demand.verdict, read]
          exact found ▸ .ofExcept_error rfl

theorem Finds.receiveElements {peer : PartyId} :
    Finds peers message (Round.receiveElements peer count : Round F σ P _) p S
      ((Demand.elements [peer] count).fault F message) fun _ _ _ => True := by
  have single : (Demand.elements [peer] count).fault F message
      = (Demand.elements [peer] count).verdict F message peer := by
    simp [Demand.fault, Demand.senders]
  rw [single]
  exact .hearFrom (.decodeFrom [peer] peer)

/-- The messages of all senders are read one after the other. -/
theorem Finds.decodeAll (among senders : List PartyId) (p : P) (S : Party F σ) :
    Finds peers message ((senders.map fun j => (j, message j)).mapM fun (j, bytes) => do
        return (j, ← Round.decodeFrom j bytes count) : Round F σ P (List (PartyId × List (Elem F)))) p S
      (senders.findSome? ((Demand.elements among count).verdict F message)) fun _ _ _ => True := by
  induction senders generalizing p S with
  | nil => exact .pure trivial
  | cons j senders ih =>
      rw [List.map_cons, List.mapM_cons, findSome?_cons_eq_or]
      have first : Finds peers message (do return (j, ← Round.decodeFrom j (message j) count) :
          Round F σ P (PartyId × List (Elem F))) p S
            ((Demand.elements among count).verdict F message j) fun _ _ _ => True :=
        (Finds.decodeFrom among j).andThen fun _ _ _ _ => .pure trivial
      refine first.bind fun _ p S _ => ?_
      exact (ih p S).andThen fun _ _ _ _ => .pure trivial

theorem Finds.receiveElementsFromAll :
    Finds peers message (Round.receiveElementsFromAll count : Round F σ P _) p S
      ((Demand.elements peers count).fault F message) fun _ _ _ => True :=
  .hear (.decodeAll peers peers p S)

end Round

/-! ## Revelations -/

open Round

theorem BroadcastValidation.civil_evaluate {S : Party F σ} (round : Nat) (v : BroadcastValidation) :
    Civil (evaluate round : Round F σ _ _) v S fun _ _ _ => True := by
  match round with
  | 0 => exact .get (.modify (.call (fun _ => trivial) fun _ => .pure trivial))
  | 1 =>
      refine .call (fun _ => trivial) fun received => .get ?_
      dsimp only
      split
      · exact .refuse trivial
      · exact .modify (.pure trivial)
  | _ + 2 => exact .throw trivial

namespace Reveal

variable {n : Nat} {peers : List PartyId} {message : PartyId → Bytes} {S : Party F σ} {r : Reveal F}

/-- A message is kept as the commitment of its sender if it is as long as a digest. -/
theorem finds_keepCommitment (senders : List PartyId) {j : PartyId} (member : IsMember n j)
    {entry : PartyId → Option Commitment} (places : r.commitments = spread n entry) :
    Finds peers message (keepCommitment j (message j) : Round F σ _ _) r S
      ((Demand.commitments senders).verdict F message j) fun _ r' S' =>
        r' = { r with commitments := spread n (Function.update entry j (some ⟨message j⟩)) } ∧
          S' = S := by
  by_cases length : (message j).length = digestLength
  · have read := Commitment.ofBytes_of_length length
    have fine : (Demand.commitments senders).verdict F message j = none := by
      simp only [Demand.verdict, read]
    rw [fine]
    refine .ofExcept_ok read (.get ?_)
    rw [places]
    exact .ofExcept_ok (place_spread entry member ⟨message j⟩) (.last (.modify (.pure ⟨rfl, rfl⟩)))
  · have read := Commitment.ofBytes_of_length_ne length
    have found : (Demand.commitments senders).verdict F message j
        = some (.malformedMessage j (.invalidLength digestLength (message j).length)) := by
      simp only [Demand.verdict, read]
    exact found ▸ .ofExcept_error read

theorem finds_keepCommitments (among : List PartyId) {senders : List PartyId}
    (members : ∀ j ∈ senders, IsMember n j) {entry : PartyId → Option Commitment}
    (places : r.commitments = spread n entry) :
    Finds peers message ((senders.map fun j => (j, message j)).forM fun (j, bytes) =>
        (keepCommitment j bytes : Round F σ _ _)) r S
      (senders.findSome? ((Demand.commitments among).verdict F message)) fun _ r' S' =>
        r' = { r with commitments := spread n fun k =>
          if k ∈ senders then some ⟨message k⟩ else entry k } ∧ S' = S := by
  induction senders generalizing r entry with
  | nil => exact .pure ⟨by simp [← places], rfl⟩
  | cons j senders ih =>
      obtain ⟨member, members⟩ := List.forall_mem_cons.mp members
      rw [findSome?_cons_eq_or]
      refine (finds_keepCommitment among member places).bind ?_
      rintro _ _ _ ⟨rfl, rfl⟩
      refine (ih members rfl).weaken ?_
      rintro _ _ _ ⟨rfl, rfl⟩
      exact ⟨by rw [fill_cons entry (fun k => Commitment.mk (message k))], rfl⟩

/-- The commitments of all peers are kept, if each of them is one. -/
theorem finds_receiveCommitments (members : ∀ j ∈ peers, IsMember n j)
    {entry : PartyId → Option Commitment} (places : r.commitments = spread n entry) :
    Finds peers message (receiveCommitments : Round F σ _ _) r S
      ((Demand.commitments peers).fault F message) fun _ r' S' =>
        r'.opening = r.opening ∧
        r'.commitments = spread n (fun k => if k ∈ peers then some ⟨message k⟩ else entry k) ∧
          S' = S := by
  refine .hear ((finds_keepCommitments peers members places).andThen ?_)
  rintro _ _ _ ⟨rfl, rfl⟩
  refine .party ?_
  split
  · exact .last (.modify (.pure ⟨rfl, rfl, rfl⟩))
  · exact .pure ⟨rfl, rfl, rfl⟩

/-- An opening is put in its place if it opens the commitment of its sender. -/
theorem finds_checkOpening (senders : List PartyId) {j : PartyId} (member : IsMember n j)
    {entry : PartyId → Option Commitment} (places : r.commitments = spread n entry)
    {committed : PartyId → Bytes} (here : entry j = some ⟨committed j⟩)
    (given : PartyId → Option (Opening F)) :
    Finds peers message (checkOpening (spread n given) j (message j) : Round F σ _ _) r S
      ((Demand.openings senders committed).verdict F message j) fun filled r' S' =>
        (∃ given', filled = spread n given') ∧ r' = r ∧ S' = S := by
  cases read : Opening.ofBytes F (message j) with
  | error cause =>
      have found : (Demand.openings senders committed).verdict F message j
          = some (.malformedMessage j cause) := by simp only [Demand.verdict, read]
      exact found ▸ .ofExcept_error read
  | ok opening =>
      have verdict : (Demand.openings senders committed).verdict F message j
          = if committed j = opening.digest then none else some (.commitmentMismatch j) := by
        simp only [Demand.verdict, read]
      rw [verdict]
      refine .ofExcept_ok read (.get ?_)
      rw [places]
      refine .ofExcept_ok (placeOf_spread entry member) ?_
      rw [here]
      by_cases fits : committed j = opening.digest
      · have verified : Commitment.verify ⟨committed j⟩ opening = true := Commitment.verify_iff.mpr fits
        simp only [verified, if_pos fits, if_true]
        exact .last (.ofExcept_ok (place_spread given member opening) (.pure ⟨⟨_, rfl⟩, rfl, rfl⟩))
      · have refused : Commitment.verify ⟨committed j⟩ opening = false :=
          Bool.eq_false_iff.mpr fun verified => fits (Commitment.verify_iff.mp verified)
        simp only [refused, if_neg fits]
        exact .last .refuse

theorem finds_checkOpenings (among : List PartyId) {senders : List PartyId}
    (members : ∀ j ∈ senders, IsMember n j) {entry : PartyId → Option Commitment}
    (places : r.commitments = spread n entry) {committed : PartyId → Bytes}
    (kept : ∀ j ∈ senders, entry j = some ⟨committed j⟩) (given : PartyId → Option (Opening F)) :
    Finds peers message ((senders.map fun j => (j, message j)).foldlM (fun filled (j, bytes) =>
        (checkOpening filled j bytes : Round F σ _ _)) (spread n given)) r S
      (senders.findSome? ((Demand.openings among committed).verdict F message)) fun filled r' S' =>
        (∃ given', filled = spread n given') ∧ r' = r ∧ S' = S := by
  induction senders generalizing given with
  | nil => exact .pure ⟨⟨given, rfl⟩, rfl, rfl⟩
  | cons j senders ih =>
      obtain ⟨member, members⟩ := List.forall_mem_cons.mp members
      obtain ⟨here, kept⟩ := List.forall_mem_cons.mp kept
      rw [findSome?_cons_eq_or, List.map_cons, List.foldlM_cons]
      refine (finds_checkOpening among member places here given).bind ?_
      rintro _ _ _ ⟨⟨given', rfl⟩, rfl, rfl⟩
      exact ih members kept given'

/-- The openings of all peers are checked. -/
theorem finds_receiveOpenings (member : IsMember n S.id) (parties : S.parties = n)
    (members : ∀ j ∈ peers, IsMember n j) (opening : r.opening.isSome)
    {entry : PartyId → Option Commitment} (places : r.commitments = spread n entry)
    {committed : PartyId → Bytes} (kept : ∀ j ∈ peers, entry j = some ⟨committed j⟩) :
    Finds peers message (receiveOpenings : Round F σ _ _) r S
      ((Demand.openings peers committed).fault F message) fun _ _ _ => True := by
  obtain ⟨own, opening⟩ := Option.isSome_iff_exists.mp opening
  have unopened : { r with opening := none }.commitments = spread n entry := places
  refine .party (.get ?_)
  rw [opening, parties, replicate_eq_spread]
  refine .modify (.hear ((finds_checkOpenings peers members unopened kept _).andThen ?_))
  rintro _ _ _ ⟨⟨given', rfl⟩, rfl, rfl⟩
  exact .ofExcept_ok (place_spread given' member own) (.modify (.pure trivial))

/-! ### The rounds -/

/-- A comparison under way accuses nobody, and leaves commitments and opening alone. -/
theorem civil_validate (round : Nat) (r : Reveal F) :
    Civil (validate round : Round F σ _ _) r S fun _ r' _ =>
      r'.opening = r.opening ∧ r'.commitments = r.commitments := by
  refine .get ?_
  cases r.validation with
  | none => exact .throw trivial
  | some v =>
      exact .last (.discard (.within ((BroadcastValidation.civil_evaluate round v).weaken
        (fun _ _ _ => id) fun _ _ _ _ => .pure ⟨rfl, rfl⟩)))

theorem civil_sendOpening (r : Reveal F) :
    Civil (sendOpening : Round F σ _ _) r S fun _ r' _ =>
      r'.opening = r.opening ∧ r'.commitments = r.commitments := by
  refine .get ?_
  cases held : r.opening with
  | none => exact .throw trivial
  | some opening => exact .last (.call (fun _ => trivial) fun _ => .pure ⟨held, rfl⟩)

theorem civil_commit (member : IsMember n S.id) (parties : S.parties = n) (r : Reveal F) :
    Civil (commit : Round F σ _ _) r S fun _ r' _ =>
      r'.opening.isSome ∧ ∃ entry, r'.commitments = spread n entry := by
  refine .party (.get (.setParty (.call (fun _ => trivial) fun _ => .modify ?_)))
  rw [parties, replicate_eq_spread]
  refine .ofExcept (fun e failed => ?_) fun commitments placed => ?_
  · rw [place_spread _ member] at failed
    cases failed
  · rw [place_spread _ member] at placed
    cases placed
    exact .last (.modify (.pure ⟨rfl, _, rfl⟩))

/-- What a revelation asks for in the round after those in which the messages were heard. -/
def demand (n : Nat) (i : PartyId) : List (PartyId → Bytes) → Demand
  | [_] => .commitments (peersOf i n)
  | _ :: committed :: later =>
    if later.length = (if n > 2 then 1 else 0) then .openings (peersOf i n) committed else .nothing
  | _ => .nothing

theorem isProper_demand (n : Nat) (i : PartyId) (heard : List (PartyId → Bytes)) :
    (demand n i heard).IsProper F := by
  match heard with
  | [] => exact .nothing
  | [_] => exact ⟨pairwise_peersOf i, trivial⟩
  | _ :: committed :: later =>
      rw [demand]
      by_cases now : later.length = (if n > 2 then 1 else 0)
      · rw [if_pos now]
        exact ⟨pairwise_peersOf i, trivial⟩
      · rw [if_neg now]
        exact .nothing

/-- **Hears.**  What a revelation holds that was driven through rounds in which the messages were heard:
what opens its own commitment, and then the commitments of the others as well. -/
def Hears (n : Nat) (i : PartyId) : List (PartyId → Bytes) → Reveal F → Prop
  | [], _ => True
  | [_], r => r.opening.isSome ∧ ∃ entry, r.commitments = spread n entry
  | _ :: committed :: later, r => later.length ≤ (if n > 2 then 1 else 0) → r.opening.isSome ∧
      ∃ entry, r.commitments = spread n entry ∧ ∀ j ∈ peersOf i n, entry j = some ⟨committed j⟩

/-- **A round of a revelation** stops at the lowest commitment or opening that does not fit, and blames
nobody else. -/
theorem blames_evaluate (member : IsMember n S.id) (parties : S.parties = n)
    {heard : List (PartyId → Bytes)} (hears : r.Hears n S.id heard) :
    Blames (peersOf S.id n) message (evaluate heard.length : Round F σ _ _) r S
      ((demand n S.id heard).fault F message) fun _ r' _ => r'.Hears n S.id (heard ++ [message]) := by
  have members : ∀ j ∈ peersOf S.id n, IsMember n j := fun j peer => (mem_peersOf.mp peer).1
  match heard with
  | [] =>
      exact .of_civil (.party (.bind (civil_commit member parties r) fun _ _ _ holds => .pure holds))
  | [_] =>
      obtain ⟨opening, entry, places⟩ := hears
      -- the commitments are kept in their places, and what follows leaves them there
      have kept {r' r'' : Reveal F} (same : r''.opening = r'.opening ∧ r''.commitments = r'.commitments)
          (known : r'.opening = r.opening ∧ r'.commitments = spread n fun k =>
            if k ∈ peersOf S.id n then some ⟨message k⟩ else entry k) :
          r''.opening.isSome ∧ ∃ entry, r''.commitments = spread n entry ∧
            ∀ j ∈ peersOf S.id n, entry j = some ⟨message j⟩ :=
        ⟨by rw [same.1, known.1]; exact opening, _, same.2.trans known.2, fun j peer => if_pos peer⟩
      refine .party ?_
      by_cases many : S.parties > 2
      · simp only [List.length_singleton, many, decide_true]
        refine .of_finds (finds_receiveCommitments members places) ?_
        rintro _ r' _ ⟨own, filled, rfl⟩
        exact .bind (civil_validate 0 r') fun _ _ _ same => .pure fun _ => kept same ⟨own, filled⟩
      · simp only [List.length_singleton, many, decide_false]
        refine .of_finds (finds_receiveCommitments members places) ?_
        rintro _ r' _ ⟨own, filled, rfl⟩
        exact .bind (civil_sendOpening r') fun _ _ _ same => .pure fun _ => kept same ⟨own, filled⟩
  | _ :: committed :: later =>
      refine .party ?_
      by_cases many : S.parties > 2
      · have bound : (if n > 2 then 1 else 0) = 1 := if_pos (parties ▸ many)
        simp only [Hears, bound] at hears
        simp only [demand, Hears, List.cons_append, bound, List.length_cons, List.length_append, many,
          decide_true]
        match later with
        | [] =>
            obtain ⟨opening, entry, places, own⟩ := hears (by simp)
            refine .of_civil (.bind (civil_validate 1 r) fun _ r₁ _ first => ?_)
            refine .bind (civil_sendOpening r₁) fun _ r' _ second => .pure fun _ => ?_
            refine ⟨?_, entry, (second.2.trans first.2).trans places, own⟩
            rw [second.1, first.1]
            exact opening
        | [_] =>
            obtain ⟨opening, entry, places, own⟩ := hears (by simp)
            refine .of_finds (finds_receiveOpenings member parties members opening places own) ?_
            intro _ r' _ _
            exact .modify (.bind (civil_validate 0 _) fun _ _ _ _ => .pure fun early => by simp at early)
        | [_, _] =>
            exact .of_civil (.bind (civil_validate 1 r) fun _ _ _ _ =>
              .modify (.pure fun early => by simp at early))
        | _ :: _ :: _ :: _ => exact .of_civil (.throw trivial)
      · have bound : (if n > 2 then 1 else 0) = 0 := if_neg (parties ▸ many)
        simp only [Hears, bound] at hears
        simp only [demand, Hears, List.cons_append, bound, List.length_cons, List.length_append, many,
          decide_false]
        match later with
        | [] =>
            obtain ⟨opening, entry, places, own⟩ := hears (by simp)
            refine .discard (.of_finds (finds_receiveOpenings member parties members opening places own) ?_)
            exact fun _ _ _ _ => .modify (.pure fun early => by simp at early)
        | [_] | [_, _] | _ :: _ :: _ :: _ => exact .of_civil (.throw trivial)

end Reveal

end Spdz
