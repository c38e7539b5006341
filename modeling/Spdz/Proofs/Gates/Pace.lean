import Spdz.Proofs.Gates.Pending
import Spdz.Proofs.Protocol.Leads
import Spdz.Proofs.Protocol.MacCheck
import Spdz.Proofs.Protocol.Revealing

/-!
# The pace of the protocols

Each protocol has a fixed number of rounds, which depends on the number of parties at most.  In all
rounds before the last it reports that there are more and shows no result, and in the last one that it
is done, and then it has one.  This holds of most protocols in any state, so that no message and no item
of the supplier can hold them up; a check has to be at the stage that is due in the round.

* `Round.Paces` — what a round of a protocol with so many rounds may do.
* `Input.paces`, `Reveal.paces`, … — the protocols keep to their number of rounds.
* `MacCheck.Due`, **`MacCheck.paces`** — so does a check at the stage that is due.
* `Gate.rounds`, `Gate.Due`, **`Gate.paces`** — all gates do.
-/

namespace Spdz

variable {F : FieldSpec} {σ P Out : Type}

/-- **Paces.**  A round of a protocol with so many rounds.  If it fails, the error is one that rounds
have and the result is what it was.  If it succeeds, the protocol is done and has a result in the last
round, and in rounds before it has more and the result is what it was. -/
def Round.Paces [HasOutput P Out] (rounds round : Nat) (x : Round F σ P Status) (p : P)
    (S : Party F σ) : Prop :=
  x.Leads p S
    (fun e p' S' => e.OfRound ∧ S'.settings = S.settings ∧ HasOutput.output p' = HasOutput.output p)
    fun status p' S' => S'.settings = S.settings ∧
      match status with
      | .hasMoreRounds => round + 1 < rounds ∧ HasOutput.output p' = HasOutput.output p
      | .isDone => round + 1 = rounds ∧ (HasOutput.output p').isSome

/-- **Paces when due.**  The same of a protocol that has to be in a state that is due in the round.  The
state that it leaves is then due in the next one. -/
def Round.PacesWhen [HasOutput P Out] (due : (round : Nat) → P → Prop) (rounds round : Nat)
    (x : Round F σ P Status) (p : P) (S : Party F σ) : Prop :=
  x.Leads p S
    (fun e p' S' => e.OfRound ∧ S'.settings = S.settings ∧ HasOutput.output p' = HasOutput.output p)
    fun status p' S' => S'.settings = S.settings ∧
      match status with
      | .hasMoreRounds => HasOutput.output p' = HasOutput.output p ∧
          (due round p → round + 1 < rounds ∧ due (round + 1) p')
      | .isDone => (HasOutput.output p').isSome ∧ (due round p → round + 1 = rounds)

open Round

/-! ## Broadcasts and revelations -/

section Public

variable {S : Party F σ}

theorem BroadcastValidation.paces (round : Nat) (v : BroadcastValidation) :
    Paces 2 round (evaluate round : Round F σ _ _) v S := by
  match round with
  | 0 =>
      exact .get (.modify (.call (fun _ => ⟨trivial, rfl, rfl⟩) fun _ =>
        .pure ⟨rfl, by decide, rfl⟩))
  | 1 =>
      refine .call (fun _ => ⟨trivial, rfl, rfl⟩) fun received => .get ?_
      dsimp only
      split
      · exact .refuse ⟨trivial, rfl, rfl⟩
      · exact .modify (.pure ⟨rfl, rfl, rfl⟩)
  | _ + 2 => exact .throw ⟨trivial, rfl, rfl⟩

theorem Open.paces (round : Nat) (p : Open F) : Paces 2 round (evaluate round : Round F σ _ _) p S := by
  refine .get ?_
  match round with
  | 0 => exact .sendElements (fun _ => ⟨trivial, rfl, rfl⟩) (.pure ⟨rfl, by decide, rfl⟩)
  | 1 =>
      exact .receiveElementsFromAll (fun _ => ⟨trivial, rfl, rfl⟩) (fun _ _ => ⟨trivial, rfl, rfl⟩)
        fun received => .record (.modify (.pure ⟨rfl, rfl, rfl⟩))
  | _ + 2 => exact .throw ⟨trivial, rfl, rfl⟩

namespace Reveal

variable {r r' : Reveal F} {S' : Party F σ} {round : Nat}

/-- A revelation goes on in all rounds before its last one, -/
theorem Outcome.paces_more (outcome : Outcome r S round .hasMoreRounds r' S') :
    round + 1 < rounds S.parties ∧ HasOutput.output r' = HasOutput.output r := by
  have many (more : S.parties > 2) : rounds S.parties = 5 := if_pos more
  have least : 3 ≤ rounds S.parties := by
    rw [rounds]
    split <;> decide
  cases outcome with
  | commits becomes => exact ⟨by omega, congrArg (·.2.2.2) becomes⟩
  | compares early same =>
      refine ⟨?_, congrArg (·.2.2.2) same⟩
      rcases early with rfl | ⟨rfl, more⟩
      · omega
      · rw [many more]
        decide
  | shows more _ _ becomes => exact ⟨by rw [many more]; decide, congrArg (·.2.2.2) becomes⟩

/-- and is done in this one, with a result. -/
theorem Outcome.paces_done (outcome : Outcome r S round .isDone r' S') :
    round + 1 = rounds S.parties ∧ (HasOutput.output r').isSome := by
  have few (two : ¬ S.parties > 2) : rounds S.parties = 3 := if_neg two
  have many (more : S.parties > 2) : rounds S.parties = 5 := if_pos more
  cases outcome with
  | ends more becomes =>
      refine ⟨(many more).symm, ?_⟩
      rw [show HasOutput.output r' = _ from congrArg (·.2.2.2) becomes]
      rfl
  | endsOfTwo two _ _ becomes =>
      refine ⟨(few two).symm, ?_⟩
      rw [show HasOutput.output r' = _ from congrArg (·.2.2.2) becomes]
      rfl

theorem paces (r : Reveal F) (round : Nat) :
    Paces (rounds S.parties) round (evaluate round : Round F σ _ _) r S := by
  refine (leads_evaluate round r).weaken ?_ ?_
  · rintro e r' S' ⟨ofRound, rfl | rfl, still⟩
    all_goals exact ⟨ofRound, rfl, still⟩
  · intro status r' S' outcome
    have settings : S'.settings = S.settings := by rcases outcome.party with rfl | rfl <;> rfl
    cases status with
    | hasMoreRounds => exact ⟨settings, outcome.paces_more⟩
    | isDone => exact ⟨settings, outcome.paces_done⟩

end Reveal

end Public

section Suppliers

variable [Supplier F σ] {S : Party F σ}

/-! ## Inputs -/

namespace MaskedInput

variable (m : MaskedInput F)

/-- Nothing is shown of a masked input. -/
theorem bides_send : Bides (fun _ => ()) (send : Round F σ _ _) m S := by
  refine .get (.draw (fun _ _ => ⟨trivial, rfl, rfl⟩) fun mask supplier => .set (.party ?_))
  split
  · cases m.input with
    | none => exact .throw ⟨trivial, rfl, rfl⟩
    | some input =>
        cases mask.real with
        | none => exact .throw ⟨trivial, rfl, rfl⟩
        | some real =>
            exact .sendElements (fun _ => ⟨trivial, rfl, rfl⟩) (.last (.set (.pure ⟨rfl, rfl⟩)))
  · exact .pure ⟨rfl, rfl⟩

omit [Supplier F σ] in
theorem bides_receive : Bides (fun _ => ()) (receive : Round F σ _ _) m S := by
  refine .get ?_
  cases m.masked with
  | some masked => exact .pure ⟨rfl, rfl⟩
  | none =>
      exact .receiveElements (fun _ => ⟨trivial, rfl, rfl⟩) (fun _ _ => ⟨trivial, rfl, rfl⟩)
        fun elements => .set (.pure ⟨rfl, rfl⟩)

theorem bides_combine (round : Nat) : Bides (fun _ => ()) (combine round : Round F σ _ _) m S := by
  refine .get ?_
  split
  · exact .party (.pure ⟨rfl, rfl⟩)
  · exact .throw ⟨trivial, rfl, rfl⟩

end MaskedInput

theorem Input.paces (round : Nat) (p : Input F) :
    Paces 2 round (evaluate round : Round F σ _ _) p S := by
  match round with
  | 0 =>
      refine .within ((MaskedInput.bides_send p.state).weaken ?_ ?_)
      · exact fun _ _ _ ⟨ofRound, settings, _⟩ => ⟨ofRound, settings, rfl⟩
      · exact fun _ _ _ ⟨settings, _⟩ => .pure ⟨settings, by decide, rfl⟩
  | 1 =>
      refine .discard (.within ((MaskedInput.bides_receive p.state).weaken ?_ ?_))
      · exact fun _ _ _ ⟨ofRound, settings, _⟩ => ⟨ofRound, settings, rfl⟩
      · intro _ m T ⟨settings, _⟩
        refine .within (((MaskedInput.bides_combine m 1).trans (p := p.state) settings rfl).weaken ?_ ?_)
        · exact fun _ _ _ ⟨ofRound, settings, _⟩ => ⟨ofRound, settings, rfl⟩
        · exact fun _ _ _ ⟨settings, _⟩ => .modify (.pure ⟨settings, rfl, rfl⟩)
  | _ + 2 => exact .throw ⟨trivial, rfl, rfl⟩

theorem CheckedInput.paces (round : Nat) (p : CheckedInput F) :
    Paces 3 round (evaluate round : Round F σ _ _) p S := by
  match round with
  | 0 =>
      refine .within ((MaskedInput.bides_send p.state).weaken ?_ ?_)
      · exact fun _ _ _ ⟨ofRound, settings, _⟩ => ⟨ofRound, settings, rfl⟩
      · exact fun _ _ _ ⟨settings, _⟩ => .pure ⟨settings, by decide, rfl⟩
  | 1 =>
      refine .within ((MaskedInput.bides_receive p.state).weaken ?_ ?_)
      · exact fun _ _ _ ⟨ofRound, settings, _⟩ => ⟨ofRound, settings, rfl⟩
      · intro masked m T ⟨settings, _⟩
        refine .apart ((BroadcastValidation.paces 0 _).weaken ?_ ?_)
        · exact fun _ _ _ ⟨ofRound, later, _⟩ => ⟨ofRound, later.trans settings, rfl⟩
        · exact fun _ _ _ ⟨later, _⟩ => .modify (.pure ⟨later.trans settings, by decide, rfl⟩)
  | 2 =>
      refine .get ?_
      cases p.validation with
      | none => exact .throw ⟨trivial, rfl, rfl⟩
      | some v =>
          refine .discard (.within ((BroadcastValidation.paces 1 v).weaken ?_ ?_))
          · exact fun _ _ _ ⟨ofRound, settings, _⟩ => ⟨ofRound, settings, rfl⟩
          · intro _ v T ⟨settings, _⟩
            refine .within (((MaskedInput.bides_combine p.state 2).trans (p := p.state) settings rfl).weaken ?_ ?_)
            · exact fun _ _ _ ⟨ofRound, settings, _⟩ => ⟨ofRound, settings, rfl⟩
            · exact fun _ _ _ ⟨settings, _⟩ => .modify (.pure ⟨settings, rfl, rfl⟩)
  | _ + 3 => exact .throw ⟨trivial, rfl, rfl⟩

/-! ## Openings and products -/

theorem OpenTo.paces (round : Nat) (p : OpenTo F) :
    Paces 2 round (evaluate round : Round F σ _ _) p S := by
  refine .get ?_
  dsimp only
  split
  · exact .draw (fun _ _ => ⟨trivial, rfl, rfl⟩) fun mask supplier =>
      .sendElements (fun _ => ⟨trivial, rfl, rfl⟩) (.set (.pure ⟨rfl, by decide, rfl⟩))
  · rename_i mask _
    refine .receiveElementsFromAll (fun _ => ⟨trivial, rfl, rfl⟩) (fun _ _ => ⟨trivial, rfl, rfl⟩)
      fun received => .record (.party ?_)
    split
    · cases mask.real with
      | some real => exact .resume (.set (.pure ⟨rfl, rfl, rfl⟩))
      | none => exact .refuse ⟨trivial, rfl, rfl⟩
    · exact .resume (.set (.pure ⟨rfl, rfl, rfl⟩))
  · exact .throw ⟨trivial, rfl, rfl⟩

theorem Multiply.paces (round : Nat) (p : Multiply F) :
    Paces 2 round (evaluate round : Round F σ _ _) p S := by
  refine .get ?_
  dsimp only
  split
  · exact .draw (fun _ _ => ⟨trivial, rfl, rfl⟩) fun triple supplier =>
      .sendElements (fun _ => ⟨trivial, rfl, rfl⟩) (.set (.pure ⟨rfl, by decide, rfl⟩))
  · exact .receiveElementsFromAll (fun _ => ⟨trivial, rfl, rfl⟩) (fun _ _ => ⟨trivial, rfl, rfl⟩)
      fun received => .record (.record (.party (.set (.pure ⟨rfl, rfl, rfl⟩))))
  · exact .throw ⟨trivial, rfl, rfl⟩

/-! ## Preprocessed and public values -/

theorem RandomElement.paces (round : Nat) (p : RandomElement F) :
    Paces 1 round (evaluate round : Round F σ _ _) p S := by
  match round with
  | 0 =>
      exact .draw (fun _ _ => ⟨trivial, rfl, rfl⟩) fun share supplier => .set (.pure ⟨rfl, rfl, rfl⟩)
  | _ + 1 => exact .refuse ⟨trivial, rfl, rfl⟩

theorem RandomBit.paces (round : Nat) (p : RandomBit F) :
    Paces 1 round (evaluate round : Round F σ _ _) p S := by
  match round with
  | 0 =>
      exact .draw (fun _ _ => ⟨trivial, rfl, rfl⟩) fun share supplier => .set (.pure ⟨rfl, rfl, rfl⟩)
  | _ + 1 => exact .refuse ⟨trivial, rfl, rfl⟩

theorem ExpPipe.paces (round : Nat) (p : ExpPipe F) :
    Paces 1 round (evaluate round : Round F σ _ _) p S := by
  match round with
  | 0 =>
      refine .draw (fun _ _ => ⟨trivial, rfl, rfl⟩) fun pipe supplier => .get ?_
      dsimp only
      split
      · exact .refuse ⟨trivial, rfl, rfl⟩
      · exact .modify (.pure ⟨rfl, rfl, rfl⟩)
  | _ + 1 => exact .refuse ⟨trivial, rfl, rfl⟩

theorem KnownValue.paces (round : Nat) (p : KnownValue F) :
    Paces 1 round (evaluate round : Round F σ _ _) p S := by
  match round with
  | 0 => exact .party (.modify (.pure ⟨rfl, rfl, rfl⟩))
  | _ + 1 => exact .refuse ⟨trivial, rfl, rfl⟩

/-! ## Checks -/

namespace MacCheck

/-- **Due.**  A check among so many parties is at the stage that is due before a round. -/
def Due (n round : Nat) (c : MacCheck F) : Prop :=
  match c.stage with
  | .idle => round = 0
  | .coin _ => round ≤ switch n
  | .sigma start _ => start = switch n ∧ start < round
  | .passed => False

variable {c : MacCheck F}

omit [Supplier F σ] in
theorem output_eq_none (other : c.stage ≠ .passed) : HasOutput.output c = none := by
  obtain ⟨stage, records⟩ := c
  cases stage with
  | passed => exact absurd rfl other
  | idle | coin | sigma => rfl

variable {c' : MacCheck F} {round : Nat}

theorem Outcome.paces_error {e : Error} (outcome : Outcome c S round (.error e) c') :
    e.OfRound ∧ HasOutput.output c' = HasOutput.output c := by
  cases outcome with
  | refuses ofRound => exact ⟨ofRound, rfl⟩
  | breaks ofRound busy => exact ⟨ofRound, (output_eq_none fun passed => busy (.inr passed)).symm⟩

/-- A check that goes on leaves the stage that is due in the next round. -/
theorem Outcome.paces_more (outcome : Outcome c S round (.ok .hasMoreRounds) c') :
    HasOutput.output c' = HasOutput.output c ∧
      (Due S.parties round c → round + 1 < rounds S.parties ∧ Due S.parties (round + 1) c') := by
  have whole : switch S.parties + 1 = Reveal.rounds S.parties := switch_add_one
  have positive : 1 < switch S.parties := switch_pos
  have twice : rounds S.parties = 2 * switch S.parties + 1 := rfl
  cases outcome with
  | tosses stage goes =>
      have early := goes.paces_more.1
      have due : round + 1 ≤ switch S.parties := by omega
      exact ⟨(output_eq_none (by rw [stage]; nofun)).symm, fun _ => ⟨by omega, due⟩⟩
  | sums stage _ goes =>
      have last := goes.paces_done.1
      have due : round = switch S.parties ∧ round < round + 1 := by omega
      exact ⟨(output_eq_none (by rw [stage]; nofun)).symm, fun _ => ⟨by omega, due⟩⟩
  | @reveals start _ _ _ stage later goes =>
      have early := goes.paces_more.1
      refine ⟨(output_eq_none (by rw [stage]; nofun)).symm, fun due => ?_⟩
      rw [Due, stage] at due
      have next : start = switch S.parties ∧ start < round + 1 := by omega
      exact ⟨by omega, next⟩

/-- The round in which a check passes is the last one. -/
theorem Outcome.paces_done (outcome : Outcome c S round (.ok .isDone) c') :
    (HasOutput.output c').isSome ∧ (Due S.parties round c → round + 1 = rounds S.parties) := by
  have whole : switch S.parties + 1 = Reveal.rounds S.parties := switch_add_one
  have twice : rounds S.parties = 2 * switch S.parties + 1 := rfl
  cases outcome with
  | passes stage later _ goes =>
      have last := goes.paces_done.1
      refine ⟨rfl, fun due => ?_⟩
      rw [Due, stage] at due
      omega

/-- A check that goes on keeps its pace. -/
theorem paces_goOn (round : Nat) (c : MacCheck F) :
    PacesWhen (Due S.parties) (rounds S.parties) round (goOn round : Round F σ _ _) c S := by
  intro result c' S' ends
  obtain ⟨outcome, draws⟩ := ends_goOn ends
  have settings : S'.settings = S.settings := draws.kept.1
  cases result with
  | error e => exact ⟨outcome.paces_error.1, settings, outcome.paces_error.2⟩
  | ok status =>
      cases status with
      | hasMoreRounds => exact ⟨settings, outcome.paces_more⟩
      | isDone => exact ⟨settings, outcome.paces_done⟩

/-- **A check keeps its pace** if it is at the stage that is due. -/
theorem paces (round : Nat) (c : MacCheck F) :
    PacesWhen (Due S.parties) (rounds S.parties) round (evaluate round : Round F σ _ _) c S := by
  intro result c' S' ends
  by_cases begun : round = 0 ∧ c.stage = .idle
  · obtain ⟨rfl, idle⟩ := begun
    have nothing : HasOutput.output c = none := output_eq_none (by rw [idle]; nofun)
    have paces := paces_goOn 0 _ result c' S' (ends_goOn_of_begin idle ends)
    -- what has begun is due in the first round
    have due : Due S.parties 0 (started S) := Nat.zero_le _
    cases result with
    | error e =>
        obtain ⟨ofRound, settings, shown⟩ := paces
        exact ⟨ofRound, settings, shown.trans nothing.symm⟩
    | ok status =>
        obtain ⟨settings, after⟩ := paces
        refine ⟨settings, ?_⟩
        cases status with
        | hasMoreRounds => exact ⟨after.1.trans nothing.symm, fun _ => after.2 due⟩
        | isDone => exact ⟨after.1, fun _ => after.2 due⟩
  · rw [run_evaluate begun] at ends
    exact paces_goOn round c result c' S' ends

omit [Supplier F σ] in
theorem rounds_eq_ite (n : Nat) : rounds n = if n > 2 then 9 else 5 := by
  simp only [rounds, switch, Reveal.rounds]
  split <;> rfl

end MacCheck

/-! ## Gates -/

namespace Gate

/-- The number of rounds that a gate takes among so many parties. -/
def rounds (n : Nat) : Gate F → Nat
  | element _ | bit _ | pipe _ | known _ => 1
  | input _ | openAll _ | openTo _ | multiply _ | validation _ => 2
  | checkedInput _ => 3
  | reveal _ => if n > 2 then 5 else 3
  | macCheck _ => if n > 2 then 9 else 5

/-- **Due.**  A gate that takes so many rounds among so many parties is in a state that is due before a
round.  Only checks go by what they have done before. -/
def Due (n rounds round : Nat) (gate : Gate F) : Prop :=
  gate.rounds n = rounds ∧
    match gate with
    | macCheck check => MacCheck.Due n round check
    | _ => True

omit [Supplier F σ] in
/-- What paces, paces as a kind of gate. -/
theorem paces_within [HasOutput P Out] (wrap : P → Gate F) {convert : Out → Output F}
    (output : ∀ p, (wrap p).output = (HasOutput.output p).map convert) {rounds round : Nat}
    (due : ∀ p, (wrap p).Due S.parties rounds (round + 1)) {x : Round F σ P Status} {p : P}
    (paces : Paces rounds round x p S) :
    PacesWhen (Due S.parties rounds) rounds round
      (Round.within (fun _ => p) (fun p _ => wrap p) x) (wrap p) S := by
  refine .within_last (Leads.weaken paces ?_ ?_)
  · rintro e p' S' ⟨ofRound, settings, shown⟩
    exact ⟨ofRound, settings, (output p').trans (shown ▸ (output p).symm)⟩
  · rintro status p' S' ⟨settings, after⟩
    refine ⟨settings, ?_⟩
    cases status with
    | hasMoreRounds =>
        exact ⟨(output p').trans (after.2 ▸ (output p).symm), fun _ => ⟨after.1, due p'⟩⟩
    | isDone =>
        refine ⟨?_, fun _ => after.1⟩
        have shown : HasOutput.output (wrap p') = (HasOutput.output p').map convert := output p'
        rw [shown, Option.isSome_map]
        exact after.2

/-- **All gates keep their pace**, if they are in a state that is due. -/
theorem paces (round : Nat) (gate : Gate F) :
    PacesWhen (Due S.parties (gate.rounds S.parties)) (gate.rounds S.parties) round
      (evaluate round : Round F σ _ _) gate S := by
  refine .get ?_
  cases gate with
  | input p =>
      exact paces_within input (fun _ => rfl) (fun _ => ⟨rfl, trivial⟩) (Input.paces round p)
  | checkedInput p =>
      exact paces_within checkedInput (fun _ => rfl) (fun _ => ⟨rfl, trivial⟩) (CheckedInput.paces round p)
  | multiply p =>
      exact paces_within multiply (fun _ => rfl) (fun _ => ⟨rfl, trivial⟩) (Multiply.paces round p)
  | reveal p =>
      exact paces_within reveal (fun _ => rfl) (fun _ => ⟨rfl, trivial⟩) (Reveal.paces p round)
  | validation p =>
      exact paces_within validation (fun _ => rfl) (fun _ => ⟨rfl, trivial⟩) (BroadcastValidation.paces round p)
  | openAll p =>
      exact paces_within openAll (fun _ => rfl) (fun _ => ⟨rfl, trivial⟩) (Open.paces round p)
  | openTo p =>
      exact paces_within openTo (fun _ => rfl) (fun _ => ⟨rfl, trivial⟩) (OpenTo.paces round p)
  | element p =>
      exact paces_within element (fun _ => rfl) (fun _ => ⟨rfl, trivial⟩) (RandomElement.paces round p)
  | bit p =>
      exact paces_within bit (fun _ => rfl) (fun _ => ⟨rfl, trivial⟩) (RandomBit.paces round p)
  | pipe p =>
      exact paces_within pipe (fun _ => rfl) (fun _ => ⟨rfl, trivial⟩) (ExpPipe.paces round p)
  | known p =>
      exact paces_within known (fun _ => rfl) (fun _ => ⟨rfl, trivial⟩) (KnownValue.paces round p)
  | macCheck c =>
      have whole : MacCheck.rounds S.parties = (macCheck c).rounds S.parties :=
        MacCheck.rounds_eq_ite S.parties
      refine .within_last ((MacCheck.paces round c).weaken ?_ ?_)
      · rintro e c' S' ⟨ofRound, settings, shown⟩
        exact ⟨ofRound, settings, congrArg (Option.map fun _ => Output.unit) shown⟩
      · rintro status c' S' ⟨settings, after⟩
        rw [whole] at after
        refine ⟨settings, ?_⟩
        cases status with
        | hasMoreRounds =>
            refine ⟨congrArg (Option.map fun _ => Output.unit) after.1, fun due => ?_⟩
            obtain ⟨early, next⟩ := after.2 due.2
            exact ⟨early, rfl, next⟩
        | isDone => exact ⟨Option.isSome_map.trans after.1, fun due => after.2 due.2⟩

end Gate

end Suppliers

end Spdz
