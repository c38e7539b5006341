import Spdz.Proofs.Evaluation.LifeCycle
import Spdz.Proofs.Protocol.Blame

/-!
# Whom the gates blame

A gate is driven in order over a network that brings a message of each peer in each round, with any bytes
in it.  Only some rounds read what they are brought.  If one of these finds a message that it cannot use,
it blames the sender of the lowest such message and nobody else, and if it finds none it blames nobody.

* `Gate.Driven` — a gate that has gone through its rounds in order.
* `Gate.demand` — what a gate asks of its peers in each round.
* `Open.blames_evaluate`, `Input.blames_evaluate`, … — the rounds of the gates.
* **`Gate.blame_exact`** — whom a round blames, and for what.
-/

namespace Spdz

open Round

variable {F : FieldSpec} {σ P : Type} {S : Party F σ} {peers : List PartyId} {message : PartyId → Bytes}
  {heard : List (PartyId → Bytes)}

/-! ## Openings and products -/

/-- What is asked for in the second round only. -/
def Demand.second (demand : Demand) : List (PartyId → Bytes) → Demand
  | [_] => demand
  | _ => nothing

theorem Demand.IsProper.second {demand : Demand} (proper : demand.IsProper F)
    (heard : List (PartyId → Bytes)) : (demand.second heard).IsProper F := by
  match heard with
  | [_] => exact proper
  | [] | _ :: _ :: _ => exact .nothing

theorem Open.blames_evaluate (p : Open F) :
    Blames peers message (evaluate heard.length : Round F σ _ _) p S
      (((Demand.elements peers 1).second heard).fault F message) fun _ _ _ => True := by
  match heard with
  | [] => exact .of_civil (.get (.sendElements (fun _ => trivial) (.pure trivial)))
  | [_] =>
      exact .get (.of_finds .receiveElementsFromAll fun _ _ _ _ => .record (.modify (.pure trivial)))
  | _ :: _ :: _ => exact .of_civil (.get (.throw trivial))

section Suppliers

variable [Supplier F σ]

theorem OpenTo.blames_evaluate {p : OpenTo F} (masked : heard.length = 1 → p.mask.isSome) :
    Blames peers message (evaluate heard.length : Round F σ _ _) p S
      (((Demand.elements peers 1).second heard).fault F message) fun _ p' _ =>
        (heard ++ [message]).length = 1 → p'.mask.isSome := by
  match heard with
  | [] =>
      exact .of_civil (.get (.draw (fun _ _ => trivial) fun mask supplier =>
        .sendElements (fun _ => trivial) (.set (.pure fun _ => rfl))))
  | [_] =>
      obtain ⟨mask, drawn⟩ := Option.isSome_iff_exists.mp (masked rfl)
      refine .get ?_
      simp only [List.length_singleton, drawn]
      refine .of_finds .receiveElementsFromAll fun _ p' S' _ => .record (.party ?_)
      split
      · cases mask.real with
        | some real => exact .resume (.set (.pure nofun))
        | none => exact .refuse trivial
      · exact .resume (.set (.pure nofun))
  | _ :: _ :: _ => exact .of_civil (.get (.throw trivial))

theorem Multiply.blames_evaluate {p : Multiply F} (drawn : heard.length = 1 → p.triple.isSome) :
    Blames peers message (evaluate heard.length : Round F σ _ _) p S
      (((Demand.elements peers 2).second heard).fault F message) fun _ p' _ =>
        (heard ++ [message]).length = 1 → p'.triple.isSome := by
  match heard with
  | [] =>
      exact .of_civil (.get (.draw (fun _ _ => trivial) fun triple supplier =>
        .sendElements (fun _ => trivial) (.set (.pure fun _ => rfl))))
  | [_] =>
      obtain ⟨triple, drawn⟩ := Option.isSome_iff_exists.mp (drawn rfl)
      refine .get ?_
      simp only [List.length_singleton, drawn]
      exact .of_finds .receiveElementsFromAll fun _ _ _ _ =>
        .record (.record (.party (.set (.pure nofun))))
  | _ :: _ :: _ => exact .of_civil (.get (.throw trivial))

/-! ## Inputs -/

namespace MaskedInput

variable {m : MaskedInput F}

/-- What an input asks for: the difference of the inputter, except at the inputter itself. -/
def demand (i inputter : PartyId) : List (PartyId → Bytes) → Demand :=
  Demand.second (if inputter = i then .nothing else .elements [inputter] 1)

omit [Supplier F σ] in
theorem isProper_demand (declared : F.IsDeclared) (i inputter : PartyId)
    (heard : List (PartyId → Bytes)) : (demand i inputter heard).IsProper F := by
  refine Demand.IsProper.second ?_ heard
  by_cases own : inputter = i
  · rw [if_pos own]
    exact .nothing
  · rw [if_neg own]
    exact ⟨List.pairwise_singleton _ _, declared.fits one_le_two⟩

/-- **Hears.**  What is known of a masked input that was driven through rounds in which the messages were
heard: before its second round only the inputter has the difference. -/
def Hears (i inputter : PartyId) : List (PartyId → Bytes) → MaskedInput F → Prop
  | [], m => m.inputter = inputter ∧ m.masked = none
  | [_], m => m.inputter = inputter ∧
      (inputter = i → m.masked.isSome) ∧ (inputter ≠ i → m.masked = none)
  | _, _ => True

theorem civil_send {inputter : PartyId} (hears : m.Hears S.id inputter []) :
    Civil (send : Round F σ _ _) m S fun _ m' _ => m'.Hears S.id inputter [message] := by
  obtain ⟨rfl, unmasked⟩ := hears
  refine .get (.draw (fun _ _ => trivial) fun mask supplier => .set (.party ?_))
  split
  · rename_i own
    cases m.input with
    | none => exact .throw trivial
    | some input =>
        cases mask.real with
        | none => exact .throw trivial
        | some real =>
            exact .sendElements (fun _ => trivial)
              (.last (.set (.pure ⟨rfl, fun _ => rfl, fun other => absurd own.symm other⟩)))
  · rename_i other
    exact .pure ⟨rfl, fun own => absurd own.symm other, fun _ => unmasked⟩

omit [Supplier F σ] in
theorem finds_receive {inputter : PartyId} {first : PartyId → Bytes}
    (hears : m.Hears S.id inputter [first]) :
    Finds peers message (receive : Round F σ _ _) m S
      ((demand S.id inputter [first]).fault F message) fun _ _ _ => True := by
  obtain ⟨rfl, own, others⟩ := hears
  refine .get ?_
  by_cases inputs : m.inputter = S.id
  · obtain ⟨masked, known⟩ := Option.isSome_iff_exists.mp (own inputs)
    rw [demand, if_pos inputs, known]
    exact .pure trivial
  · rw [demand, if_neg inputs, others inputs]
    exact Finds.receiveElements.andThen fun _ _ _ _ => .set (.pure trivial)

theorem civil_combine (round : Nat) (m : MaskedInput F) :
    Civil (combine round : Round F σ _ _) m S fun _ _ _ => True := by
  refine .get ?_
  split
  · exact .party (.pure trivial)
  · exact .throw trivial

end MaskedInput

theorem Input.blames_evaluate {p : Input F} {inputter : PartyId}
    (hears : p.state.Hears S.id inputter heard) :
    Blames peers message (evaluate heard.length : Round F σ _ _) p S
      ((MaskedInput.demand S.id inputter heard).fault F message) fun _ p' _ =>
        p'.state.Hears S.id inputter (heard ++ [message]) := by
  match heard with
  | [] =>
      exact .of_civil (.within ((MaskedInput.civil_send hears).weaken (fun _ _ _ => id)
        fun _ _ _ hears => .pure hears))
  | [_] =>
      have received : Finds peers message (masking MaskedInput.receive : Round F σ _ _) p S _
          fun _ _ _ => True := .within (MaskedInput.finds_receive hears)
      refine .discard (.of_finds received fun _ p' S' _ => ?_)
      exact .within ((MaskedInput.civil_combine 1 p'.state).weaken (fun _ _ _ => id)
        fun _ _ _ _ => .modify (.pure trivial))
  | _ :: _ :: _ => exact .of_civil (.throw trivial)

theorem CheckedInput.blames_evaluate {p : CheckedInput F} {inputter : PartyId}
    (hears : p.state.Hears S.id inputter heard) :
    Blames peers message (evaluate heard.length : Round F σ _ _) p S
      ((MaskedInput.demand S.id inputter heard).fault F message) fun _ p' _ =>
        p'.state.Hears S.id inputter (heard ++ [message]) := by
  match heard with
  | [] =>
      exact .of_civil (.within ((MaskedInput.civil_send hears).weaken (fun _ _ _ => id)
        fun _ _ _ hears => .pure hears))
  | [_] =>
      have received : Finds peers message (masking MaskedInput.receive : Round F σ _ _) p S _
          fun _ _ _ => True := .within (MaskedInput.finds_receive hears)
      refine .of_finds received fun masked p' S' _ => ?_
      exact .apart ((BroadcastValidation.civil_evaluate 0 _).weaken (fun _ _ _ => id)
        fun _ _ _ _ => .modify (.pure trivial))
  | [_, _] =>
      refine .of_civil (.get ?_)
      cases p.validation with
      | none => exact .throw trivial
      | some v =>
          refine .discard (.within ((BroadcastValidation.civil_evaluate 1 v).weaken (fun _ _ _ => id) ?_))
          exact fun _ _ _ _ => .within ((MaskedInput.civil_combine 2 p.state).weaken (fun _ _ _ => id)
            fun _ _ _ _ => .modify (.pure trivial))
  | _ :: _ :: _ :: _ => exact .of_civil (.throw trivial)

/-! ## Preprocessed and public values -/

theorem RandomElement.civil_evaluate (round : Nat) (p : RandomElement F) :
    Civil (evaluate round : Round F σ _ _) p S fun _ _ _ => True := by
  match round with
  | 0 => exact .draw (fun _ _ => trivial) fun share supplier => .set (.pure trivial)
  | _ + 1 => exact .refuse trivial

theorem RandomBit.civil_evaluate (round : Nat) (p : RandomBit F) :
    Civil (evaluate round : Round F σ _ _) p S fun _ _ _ => True := by
  match round with
  | 0 => exact .draw (fun _ _ => trivial) fun share supplier => .set (.pure trivial)
  | _ + 1 => exact .refuse trivial

theorem ExpPipe.civil_evaluate (round : Nat) (p : ExpPipe F) :
    Civil (evaluate round : Round F σ _ _) p S fun _ _ _ => True := by
  match round with
  | 0 =>
      refine .draw (fun _ _ => trivial) fun pipe supplier => .get ?_
      dsimp only
      split
      · exact .refuse trivial
      · exact .modify (.pure trivial)
  | _ + 1 => exact .refuse trivial

theorem KnownValue.civil_evaluate (round : Nat) (p : KnownValue F) :
    Civil (evaluate round : Round F σ _ _) p S fun _ _ _ => True := by
  match round with
  | 0 => exact .party (.modify (.pure trivial))
  | _ + 1 => exact .refuse trivial

/-! ## Gates -/

namespace Gate

/-- What a gate asks of its peers in the round after those in which the messages were heard. -/
def demand (n : Nat) (i : PartyId) : Gate F → List (PartyId → Bytes) → Demand
  | openAll _ | openTo _ => Demand.second (.elements (peersOf i n) 1)
  | multiply _ => Demand.second (.elements (peersOf i n) 2)
  | input p => MaskedInput.demand i p.state.inputter
  | checkedInput p => MaskedInput.demand i p.state.inputter
  | reveal _ => Reveal.demand n i
  | _ => fun _ => .nothing

/-- **Driven.**  The gate, as party `i` among `n`, has gone through its rounds in order, with these
messages in each of them.  What else the party does between the rounds is left open. -/
inductive Driven (σ : Type) [Supplier F σ] (n : Nat) (i : PartyId) (gate₀ : Gate F) :
    List (PartyId → Bytes) → Gate F → Prop where
  | new : Driven σ n i gate₀ [] gate₀
  | round {heard : List (PartyId → Bytes)} {gate gate' : Gate F} {message : PartyId → Bytes}
      {S S' : Party F σ} (before : Driven σ n i gate₀ heard gate) (id : S.id = i)
      (parties : S.parties = n)
      (goes : (evaluate heard.length : Round F σ _ _).upon (peersOf i n) message gate S
        = ((.ok .hasMoreRounds, gate'), S')) : Driven σ n i gate₀ (heard ++ [message]) gate'

variable {n : Nat} {i : PartyId} {gate₀ gate : Gate F}

theorem upon_embeds [Protocol F σ P] {wrap : P → Gate F} (embeds : Embeds (F := F) σ wrap) {round : Nat}
    {p : P} : (evaluate round : Round F σ _ _).upon peers message (wrap p) S =
      match (Protocol.evaluate round : Round F σ P Status).upon peers message p S with
      | ((result, p'), S') => ((result, wrap p'), S') := by
  have same := congrArg (fun turn => Exchange.upon (bringing peers message) (turn.run S)) (embeds round p)
  exact same.trans (upon_within (fun _ => p) (fun p _ => wrap p) (Protocol.evaluate round))

/-- What each round of a protocol keeps, and whom it blames, carries over to a gate that is driven. -/
theorem Driven.blames [Protocol F σ P] {wrap : P → Gate F} (embeds : Embeds (F := F) σ wrap)
    {I : List (PartyId → Bytes) → P → Prop} {demand : List (PartyId → Bytes) → Demand} {p₀ : P}
    (start : I [] p₀)
    (step : ∀ heard p (S : Party F σ) message, S.id = i → S.parties = n → I heard p →
      Blames (peersOf i n) message (Protocol.evaluate heard.length) p S ((demand heard).fault F message)
        fun _ p' _ => I (heard ++ [message]) p')
    (driven : Driven σ n i (wrap p₀) heard gate) (id : S.id = i) (parties : S.parties = n) :
    Blames (peersOf i n) message (evaluate heard.length : Round F σ _ _) gate S
      ((demand heard).fault F message) fun _ _ _ => True := by
  have kept : ∃ p, gate = wrap p ∧ I heard p := by
    induction driven with
    | new => exact ⟨p₀, rfl, start⟩
    | @round heard gate gate' message S S' _ id parties goes ih =>
        obtain ⟨p, rfl, here⟩ := ih
        have blames := step heard p S message id parties here
        rw [upon_embeds embeds] at goes
        unfold Blames at blames
        generalize upon (peersOf i n) message _ p S = ended at blames goes
        obtain ⟨⟨result, p'⟩, T⟩ := ended
        obtain ⟨⟨rfl, rfl⟩, rfl⟩ : (result = .ok .hasMoreRounds ∧ wrap p' = gate') ∧ T = S' := by
          simpa using goes
        generalize (demand heard).fault F message = fault at blames
        cases fault with
        | none => exact ⟨p', rfl, blames⟩
        | some fault => exact blames.elim
  obtain ⟨p, rfl, here⟩ := kept
  have blames := step heard p S message id parties here
  unfold Blames at blames ⊢
  rw [upon_embeds embeds]
  generalize upon (peersOf i n) message _ p S = ended at blames ⊢
  generalize (demand heard).fault F message = fault at blames ⊢
  obtain ⟨⟨e | a, p'⟩, T⟩ := ended <;> cases fault <;> first | exact blames | trivial

/-- A protocol whose rounds have civil errors only blames nobody. -/
theorem Driven.blames_none [Protocol F σ P] {wrap : P → Gate F} (embeds : Embeds (F := F) σ wrap) {p₀ : P}
    (civil : ∀ round (p : P) (S : Party F σ), Civil (Protocol.evaluate round) p S fun _ _ _ => True)
    (driven : Driven σ n i (wrap p₀) heard gate) (id : S.id = i) (parties : S.parties = n) :
    Blames (peersOf i n) message (evaluate heard.length : Round F σ _ _) gate S none fun _ _ _ => True := by
  have blames : Blames (peersOf i n) message (evaluate heard.length : Round F σ _ _) gate S
      ((Function.const _ Demand.nothing heard).fault F message) fun _ _ _ => True :=
    driven.blames (I := fun _ _ => True) embeds trivial
      (fun heard p S _ _ _ _ => .of_civil (civil heard.length p S)) id parties
  exact blames

theorem isProper_demand (declared : F.IsDeclared) (n : Nat) (i : PartyId) (gate : Gate F)
    (heard : List (PartyId → Bytes)) : (gate.demand n i heard).IsProper F := by
  have few {count : Nat} (two : count ≤ 2) : (Demand.elements (peersOf i n) count).IsProper F :=
    ⟨pairwise_peersOf i, declared.fits two⟩
  cases gate with
  | openAll p => exact (few one_le_two).second heard
  | openTo p => exact (few one_le_two).second heard
  | multiply p => exact (few le_rfl).second heard
  | input p => exact MaskedInput.isProper_demand declared i p.state.inputter heard
  | checkedInput p => exact MaskedInput.isProper_demand declared i p.state.inputter heard
  | reveal p => exact Reveal.isProper_demand n i heard
  | _ => exact .nothing

/-- A round of a gate that was driven in order stops at the lowest message that does not fit. -/
theorem blames_evaluate (member : IsMember n i) (other : ¬ gate₀.IsCheck) (unused : gate₀.IsUnused)
    (driven : Driven σ n i gate₀ heard gate) (id : S.id = i) (parties : S.parties = n) :
    Blames (peersOf i n) message (evaluate heard.length : Round F σ _ _) gate S
      ((gate₀.demand n i heard).fault F message) fun _ _ _ => True := by
  cases gate₀ with
  | macCheck check => exact absurd ⟨check, rfl⟩ other
  | openAll p =>
      exact driven.blames (I := fun _ _ => True) (fun _ _ => rfl) trivial
        (fun _ p _ _ _ _ _ => Open.blames_evaluate p) id parties
  | openTo p =>
      exact driven.blames (I := fun heard p => heard.length = 1 → p.mask.isSome) (fun _ _ => rfl) nofun
        (fun _ _ _ _ _ _ masked => OpenTo.blames_evaluate masked) id parties
  | multiply p =>
      exact driven.blames (I := fun heard p => heard.length = 1 → p.triple.isSome) (fun _ _ => rfl) nofun
        (fun _ _ _ _ _ _ drawn => Multiply.blames_evaluate drawn) id parties
  | input p =>
      obtain ⟨value, inputter, rfl⟩ := unused
      refine driven.blames (I := fun heard p => p.state.Hears i inputter heard) (fun _ _ => rfl) ⟨rfl, rfl⟩
        ?_ id parties
      rintro heard p S message rfl - hears
      exact Input.blames_evaluate hears
  | checkedInput p =>
      obtain ⟨value, inputter, rfl⟩ := unused
      refine driven.blames (I := fun heard p => p.state.Hears i inputter heard) (fun _ _ => rfl) ⟨rfl, rfl⟩
        ?_ id parties
      rintro heard p S message rfl - hears
      exact CheckedInput.blames_evaluate hears
  | reveal p =>
      refine driven.blames (I := fun heard r => r.Hears n i heard) (fun _ _ => rfl) trivial ?_ id parties
      rintro heard p S message rfl parties hears
      exact Reveal.blames_evaluate member parties hears
  | validation p =>
      exact driven.blames_none (fun _ _ => rfl)
        (fun round p _ => BroadcastValidation.civil_evaluate round p) id parties
  | element p =>
      exact driven.blames_none (fun _ _ => rfl)
        (fun round p _ => RandomElement.civil_evaluate round p) id parties
  | bit p =>
      exact driven.blames_none (fun _ _ => rfl) (fun round p _ => RandomBit.civil_evaluate round p) id parties
  | pipe p =>
      exact driven.blames_none (fun _ _ => rfl) (fun round p _ => ExpPipe.civil_evaluate round p) id parties
  | known p =>
      exact driven.blames_none (fun _ _ => rfl) (fun round p _ => KnownValue.civil_evaluate round p) id parties

/-- **Blame is exact.**  A gate is driven in order over a network that brings a message of each peer in
each round, whatever bytes it has.  A round says of a party that it has sent a malformed message if and
only if this party is the lowest of the senders whose message is not what the round asks for, and its
bytes do not encode anything of the kind that is asked for; and it says of a party that its opening does
not match its commitment, which is cheating, if and only if this party is the lowest such sender and its
bytes encode an opening, but not one of what it has committed to itself.  Rounds that ask for nothing
accuse nobody. -/
theorem blame_exact (declared : F.IsDeclared) (member : IsMember n i) (other : ¬ gate₀.IsCheck)
    (unused : gate₀.IsUnused) (driven : Driven σ n i gate₀ heard gate) (id : S.id = i)
    (parties : S.parties = n) (message : PartyId → Bytes) :
    let demand := gate₀.demand n i heard
    let answer := ((evaluate heard.length : Round F σ _ _).upon (peersOf i n) message gate S).1.1
    (∀ j, (∃ cause, answer = .error (.malformedMessage j cause))
      ↔ IsLeast {k | k ∈ demand.senders ∧ ¬ demand.Fits F message k} j ∧
        ¬ demand.Reads F (message j)) ∧
    (∀ j, answer = .error (.commitmentMismatch j)
      ↔ IsLeast {k | k ∈ demand.senders ∧ ¬ demand.Fits F message k} j ∧
        demand.Reads F (message j)) ∧
    ∀ j cause, (Error.commitmentMismatch j).category = .cheating ∧
      (Error.malformedMessage j cause).category = .violation := by
  have blames : Blames _ message _ gate S _ _ := blames_evaluate member other unused driven id parties
  have ⟨malformed, mismatch⟩ := Demand.exact (isProper_demand declared n i gate₀ heard) blames
  exact ⟨malformed, mismatch, fun _ _ => ⟨rfl, rfl⟩⟩

end Gate

end Suppliers

namespace Gate

/-- The second of three parties. -/
def secondParty : Party .f251 (Party.SimulatedSupplier .f251) := { MacCheck.idleParty 2 with parties := 3 }

/-- In the second round of an opening the first of three parties sends a single byte, and the third one
sends 251, which is no element.  The first one is blamed. -/
theorem blame_exact_first :
    let bad (j : PartyId) : Bytes := if j = 1 then [7] else 251 :: List.replicate 7 0
    ∃ gate, Driven (Party.SimulatedSupplier .f251) 3 2 (openAll { share := ⟨3, 5⟩ } : Gate .f251)
        [fun _ => []] gate ∧
      (∃ cause, ((evaluate 1 : Round _ _ _ _).upon (peersOf 2 3) bad gate secondParty).1.1
        = .error (.malformedMessage 1 cause)) ∧
      ∀ cause, ((evaluate 1 : Round _ _ _ _).upon (peersOf 2 3) bad gate secondParty).1.1
        ≠ .error (.malformedMessage 3 cause) := by
  intro bad
  have driven : Driven (Party.SimulatedSupplier .f251) 3 2 (openAll { share := ⟨3, 5⟩ } : Gate .f251)
      ([] ++ [fun _ => []]) (openAll { share := ⟨3, 5⟩ }) :=
    .round (S := secondParty) .new rfl rfl rfl
  have other : ¬ (openAll { share := ⟨3, 5⟩ } : Gate .f251).IsCheck := nofun
  have unused : (openAll { share := ⟨3, 5⟩ } : Gate .f251).IsUnused := ⟨_, rfl⟩
  obtain ⟨malformed, -, -⟩ := blame_exact (.inl rfl) (⟨by decide, by decide⟩ : IsMember 3 2) other unused
    driven (S := secondParty) rfl rfl bad
  have short : ¬ (Demand.elements (peersOf 2 3) 1).Reads .f251 (bad 1) := by
    rintro ⟨xs, one, same⟩
    have lengths := congrArg List.length same
    rw [Elem.length_encodeList, one] at lengths
    exact absurd lengths (by decide)
  have least : IsLeast {k | k ∈ peersOf 2 3 ∧
      ¬ (Demand.elements (peersOf 2 3) 1).Fits .f251 bad k} 1 :=
    ⟨⟨by decide, fun fits => short fits.1⟩, fun k unfit => (mem_peersOf.mp unfit.1).1.1⟩
  refine ⟨_, driven, (malformed 1).mpr ⟨least, short⟩, fun cause third => ?_⟩
  have also := ((malformed 3).mp ⟨cause, third⟩).1
  exact absurd (also.unique least) (by decide)

end Gate

end Spdz
