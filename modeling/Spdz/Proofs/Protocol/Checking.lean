import Spdz.Proofs.Protocol.MacCheck
import Spdz.Proofs.Protocol.Revealing

/-!
# What a round of a check can do

A check is called with the number of a round, and nothing but its stage tells it what to do then.  A round
that fails leaves a check idle that was under way.  One that succeeds tosses the coin, or commits to the
share of what the coins make of the records, or reveals the shares, or passes since they sum to zero.

* `MacCheck.sumSigmas`, `MacCheck.goOn` — parts of a round that have no name in its text.
* `MacCheck.run_begin`, `MacCheck.ends_goOn_of_begin` — a check that begins, and goes on as any other.
* `MacCheck.Outcome`, **`MacCheck.ends_goOn`** — all that a round can do.
-/

namespace Spdz

open Round

variable {F : FieldSpec} {σ : Type}

namespace MacCheck

/-! ## The parts of a round -/

/-- A round of revealing the sigmas whose number is right. -/
def sumSigmas (round start : Nat) (sigmas : Reveal F) : Round F σ (MacCheck F) Status := do
  let (status, sigmas) ← Round.apart sigmas (Reveal.evaluate (round - start))
  match status, sigmas.output with
  | .hasMoreRounds, _ =>
    enter (.sigma start sigmas)
    return .hasMoreRounds
  | .isDone, none => noRound round
  | .isDone, some values =>
    if Elem.sum values ≠ 0 then throw .macCheckFailed
    enter .passed
    return .isDone

theorem revealSigmas_eq (round start : Nat) (sigmas : Reveal F) :
    (revealSigmas round start sigmas : Round F σ _ _)
      = if round < start then noRound round >>= fun _ : Unit => sumSigmas round start sigmas
        else sumSigmas round start sigmas := rfl

variable [Supplier F σ] {S S' : Party F σ} {c c' : MacCheck F} {round : Nat}
  {result : Except Error Status}

/-- What a check does at its stage. -/
def goOn (round : Nat) : Round F σ (MacCheck F) Status := do
  match (← get).stage with
  | .coin toss =>
    enter .idle
    tossCoin round toss
  | .sigma start sigmas =>
    enter .idle
    revealSigmas round start sigmas
  | .idle | .passed => noRound round

/-- A check that does not begin now does what is due at its stage. -/
theorem run_evaluate (begun : ¬ (round = 0 ∧ c.stage = .idle)) :
    ((evaluate round : Round F σ _ _).run c).run S = ((goOn round).run c).run S := by
  obtain ⟨stage, records⟩ := c
  cases round with
  | succ round => rfl
  | zero =>
      cases stage with
      | idle => exact absurd ⟨rfl, rfl⟩ begun
      | coin | sigma | passed => rfl

/-- The check once it has taken the records of the party. -/
def started (S : Party F σ) : MacCheck F where
  stage := .coin { value := coinOf S }
  records := S.opened.toList

omit [Supplier F σ] in
/-- What a check does when it begins. -/
theorem run_begin (c : MacCheck F) :
    ((begin : Round F σ _ _).run c).run S = pure ((.ok (), started S), begun S) := by
  simp only [begin]
  rfl

/-- A check that begins takes the records and goes on with the toss of a coin. -/
theorem ends_goOn_of_begin (idle : c.stage = .idle)
    (ends : (((evaluate 0 : Round F σ _ _).run c).run S).Ends ((result, c'), S')) :
    (((goOn 0 : Round F σ _ _).run (started S)).run (begun S)).Ends ((result, c'), S') := by
  obtain ⟨stage, records⟩ := c
  obtain rfl : stage = .idle := idle
  have whole : ((evaluate 0 : Round F σ _ _).run ⟨.idle, records⟩).run S
      = ((begin >>= fun _ => goOn 0 : Round F σ _ _).run ⟨.idle, records⟩).run S := rfl
  rw [whole] at ends
  obtain ⟨x, before, after⟩ := Exchange.ends_bind.mp ends
  obtain rfl := Exchange.ends_pure.mp ((congrArg (Exchange.Ends · x) (run_begin _)).mp before)
  exact after

/-! ## All that a round can do -/

omit [Supplier F σ] in
/-- Randomness for one commitment may be drawn from the party, and nothing else happens to it. -/
def Draws (S S' : Party F σ) : Prop := S' = S ∨ ∃ value, S' = Reveal.committed value S

omit [Supplier F σ] in
theorem Draws.of_reveal {value : Elem F} (party : S' = S ∨ S' = Reveal.committed value S) :
    Draws S S' := party.imp_right fun drawn => ⟨value, drawn⟩

omit [Supplier F σ] in
theorem Draws.kept (draws : Draws S S') : S'.settings = S.settings ∧ S'.opened = S.opened := by
  rcases draws with rfl | ⟨value, rfl⟩
  · exact ⟨rfl, rfl⟩
  · exact ⟨rfl, rfl⟩

/-- The check has nothing to go on with. -/
def Rests (c : MacCheck F) : Prop := c.stage = .idle ∨ c.stage = .passed

/-- This party's share of what the coins make of the records. -/
def ownSigma (S : Party F σ) (coins : List (Elem F)) (records : List (OpenedValue F)) : Elem F :=
  Spdz.sigma S.keyShare (coefficients coins records.length) records

/-- **Outcome.**  What a round makes of a check that goes on. -/
inductive Outcome (c : MacCheck F) (S : Party F σ) (round : Nat) :
    Except Error Status → MacCheck F → Prop where
  | refuses {e : Error} (ofRound : e.OfRound) (rests : c.Rests) : Outcome c S round (.error e) c
  | breaks {e : Error} (ofRound : e.OfRound) (busy : ¬ c.Rests) :
    Outcome c S round (.error e) { stage := .idle, records := c.records }
  | tosses {toss toss' : Reveal F} {T : Party F σ} (stage : c.stage = .coin toss)
    (goes : toss.Outcome S round .hasMoreRounds toss' T) :
    Outcome c S round (.ok .hasMoreRounds) { stage := .coin toss', records := c.records }
  /-- The coins are out, and the check commits to its share. -/
  | sums {toss toss' sigmas : Reveal F} {coins : List (Elem F)} {T : Party F σ}
    (stage : c.stage = .coin toss)
    (shows : (((Reveal.evaluate round : Round F σ _ _).run toss).run S).Ends
      ((.ok .isDone, toss'), S))
    (goes : toss.Outcome S round .isDone toss' S) (output : toss'.output = some coins)
    (commits : Reveal.Outcome { value := ownSigma S coins c.records } S 0 .hasMoreRounds sigmas T) :
    Outcome c S round (.ok .hasMoreRounds) { stage := .sigma round sigmas, records := c.records }
  | reveals {start : Nat} {sigmas sigmas' : Reveal F} {T : Party F σ}
    (stage : c.stage = .sigma start sigmas) (later : start ≤ round)
    (goes : sigmas.Outcome S (round - start) .hasMoreRounds sigmas' T) :
    Outcome c S round (.ok .hasMoreRounds) { stage := .sigma start sigmas', records := c.records }
  /-- The shares are out, and they sum to zero. -/
  | passes {start : Nat} {sigmas sigmas' : Reveal F} {values : List (Elem F)}
    (stage : c.stage = .sigma start sigmas) (later : start ≤ round)
    (shows : (((Reveal.evaluate (round - start) : Round F σ _ _).run sigmas).run S).Ends
      ((.ok .isDone, sigmas'), S))
    (goes : sigmas.Outcome S (round - start) .isDone sigmas' S)
    (output : sigmas'.output = some values) (zero : Elem.sum values = 0) :
    Outcome c S round (.ok .isDone) { stage := .passed, records := c.records }

theorem Outcome.records (outcome : Outcome c S round result c') : c'.records = c.records := by
  cases outcome <;> rfl

/-- The rest of a round leads to one of the outcomes of the check with which the round began. -/
abbrev Ensues (x : Round F σ (MacCheck F) Status) (c d : MacCheck F) (S : Party F σ) (round : Nat) :
    Prop :=
  x.Leads d S (fun e c' S' => Outcome c S round (.error e) c' ∧ Draws S S')
    fun status c' S' => Outcome c S round (.ok status) c' ∧ Draws S S'

variable {records : List (OpenedValue F)}

theorem ensues_tossCoin {toss : Reveal F} :
    Ensues (tossCoin round toss : Round F σ _ _) ⟨.coin toss, records⟩ ⟨.idle, records⟩ S round := by
  have breaks {e : Error} (ofRound : e.OfRound) :
      Outcome ⟨.coin toss, records⟩ S round (.error e) ⟨.idle, records⟩ := .breaks ofRound (by simp [Rests])
  refine .apart ((Reveal.leads_evaluate round toss).and_ends.weaken ?_ ?_)
  · rintro e toss' T ⟨ofRound, party, -⟩
    exact ⟨breaks ofRound, .of_reveal party⟩
  rintro status toss' T ⟨ends, goes⟩
  have draws : Draws S T := .of_reveal goes.party
  dsimp only
  split
  · exact .modify (.pure ⟨.tosses rfl goes, draws⟩)
  · exact .refuse ⟨breaks trivial, draws⟩
  · rename_i coins output
    obtain ⟨rfl, -⟩ := goes.of_done
    refine .get (.party (.apart ((Reveal.leads_evaluate 0 _).weaken ?_ ?_)))
    · rintro e sigmas U ⟨ofRound, party, -⟩
      exact ⟨breaks ofRound, .of_reveal party⟩
    intro status sigmas U commits
    have draws : Draws T U := .of_reveal commits.party
    cases status with
    | hasMoreRounds => exact .modify (.pure ⟨.sums rfl ends goes output commits, draws⟩)
    | isDone => exact absurd commits.of_done.2 (Nat.lt_irrefl 0)

theorem ensues_revealSigmas {start : Nat} {sigmas : Reveal F} :
    Ensues (revealSigmas round start sigmas : Round F σ _ _) ⟨.sigma start sigmas, records⟩
      ⟨.idle, records⟩ S round := by
  have breaks {e : Error} (ofRound : e.OfRound) :
      Outcome ⟨.sigma start sigmas, records⟩ S round (.error e) ⟨.idle, records⟩ :=
    .breaks ofRound (by simp [Rests])
  rw [Ensues, revealSigmas_eq]
  split
  · exact .refuse ⟨breaks trivial, .inl rfl⟩
  · have later : start ≤ round := by omega
    refine .apart ((Reveal.leads_evaluate _ sigmas).and_ends.weaken ?_ ?_)
    · rintro e sigmas' T ⟨ofRound, party, -⟩
      exact ⟨breaks ofRound, .of_reveal party⟩
    rintro status sigmas' T ⟨ends, goes⟩
    have draws : Draws S T := .of_reveal goes.party
    dsimp only
    split
    · exact .modify (.pure ⟨.reveals rfl later goes, draws⟩)
    · exact .throw ⟨breaks trivial, draws⟩
    · rename_i values output
      obtain ⟨rfl, -⟩ := goes.of_done
      split
      · exact .refuse ⟨breaks trivial, draws⟩
      · rename_i zero
        exact .modify (.pure ⟨.passes rfl later ends goes output (not_not.mp zero), draws⟩)

/-- **All that a round can do** to a check that goes on. -/
theorem ends_goOn (ends : (((goOn round : Round F σ _ _).run c).run S).Ends ((result, c'), S')) :
    Outcome c S round result c' ∧ Draws S S' := by
  have ensues : Ensues (goOn round : Round F σ _ _) c c S round := by
    obtain ⟨stage, records⟩ := c
    refine .get ?_
    cases stage with
    | coin toss => exact .modify ensues_tossCoin
    | sigma start sigmas => exact .modify ensues_revealSigmas
    | idle => exact .throw ⟨.refuses trivial (.inl rfl), .inl rfl⟩
    | passed => exact .throw ⟨.refuses trivial (.inr rfl), .inl rfl⟩
  have leads := ensues result c' S' ends
  cases result with
  | error e => exact leads
  | ok status => exact leads

end MacCheck

end Spdz
