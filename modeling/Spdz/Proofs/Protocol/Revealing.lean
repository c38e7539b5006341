import Spdz.Proofs.Protocol.Leads
import Spdz.Proofs.Protocol.Reveal

/-!
# What a round of a revelation can do

Peers and network may do anything, and the rounds may come in any order.  A round that succeeds then
commits to the value, or compares something, or shows the values, among them the one that this party has
committed to, or ends the revelation with what was shown so far.

* `Round.Stays` — rounds that leave the party as it is.
* `Reveal.core` — what a revelation comes down to.
* `Reveal.Outcome`, **`Reveal.leads_evaluate`** — all that a round can do.
* `Reveal.Bears`, **`Reveal.Outcome.bears`** — a revelation of a value shows this value, unless the round
  in which the values are shown is left out.
-/

namespace Spdz

variable {F : FieldSpec} {σ P α β : Type} {S : Party F σ}

/-- **Stays.**  However the round ends, the party and what is shown of the protocol are as before. -/
def Round.Stays (shown : P → β) (x : Round F σ P α) (p : P) (S : Party F σ) : Prop :=
  x.Leads p S (fun e p' S' => e.OfRound ∧ S' = S ∧ shown p' = shown p)
    fun _ p' S' => S' = S ∧ shown p' = shown p

/-- It does so also after other rounds that do. -/
theorem Round.Stays.trans {shown : P → β} {x : Round F σ P α} {p q : P} (stays : x.Stays shown q S)
    (same : shown q = shown p) :
    x.Leads q S (fun e p' S' => e.OfRound ∧ S' = S ∧ shown p' = shown p)
      fun _ p' S' => S' = S ∧ shown p' = shown p :=
  stays.weaken (fun _ _ _ ⟨ofRound, party, still⟩ => ⟨ofRound, party, still.trans same⟩)
    fun _ _ _ ⟨party, still⟩ => ⟨party, still.trans same⟩

open Round

theorem BroadcastValidation.stays_evaluate (round : Nat) (v : BroadcastValidation) :
    Stays (fun _ => ()) (evaluate round : Round F σ _ _) v S := by
  match round with
  | 0 =>
      exact .get (.modify (.call (fun _ => ⟨trivial, rfl, rfl⟩) fun _ => .pure ⟨rfl, rfl⟩))
  | 1 =>
      refine .call (fun _ => ⟨trivial, rfl, rfl⟩) fun received => .get ?_
      dsimp only
      split
      · exact .refuse ⟨trivial, rfl, rfl⟩
      · exact .modify (.pure ⟨rfl, rfl⟩)
  | _ + 2 => exact .throw ⟨trivial, rfl, rfl⟩

namespace Reveal

variable {r r' : Reveal F}

/-! ## Parts that change nothing -/

/-- The value, what opens its commitment, the values shown, and the result. -/
def core (r : Reveal F) : Elem F × Option (Opening F) × List (Elem F) × Option (List (Elem F)) :=
  (r.value, r.opening, r.values, r.output)

theorem stays_validate (round : Nat) (r : Reveal F) :
    Stays core (validate round : Round F σ _ _) r S := by
  refine .get ?_
  cases r.validation with
  | none => exact .throw ⟨trivial, rfl, rfl⟩
  | some v =>
      refine .last (.discard (.within ?_))
      exact (BroadcastValidation.stays_evaluate round v).weaken
        (fun _ _ _ ⟨ofRound, party, _⟩ => ⟨ofRound, party, rfl⟩)
        fun _ _ _ ⟨party, _⟩ => .pure ⟨party, rfl⟩

theorem stays_keepCommitment (r : Reveal F) (peer : PartyId) (message : Bytes) :
    Stays core (keepCommitment peer message : Round F σ _ _) r S := by
  refine .ofExcept (fun _ _ => ⟨trivial, rfl, rfl⟩) fun commitment _ => .get ?_
  refine .ofExcept (fun e failed => ⟨?_, rfl, rfl⟩) fun commitments _ =>
    .last (.modify (.pure ⟨rfl, rfl⟩))
  rw [eq_of_place_error failed]
  trivial

theorem stays_receiveCommitments (r : Reveal F) :
    Stays core (receiveCommitments : Round F σ _ _) r S := by
  refine .call (fun _ => ⟨trivial, rfl, rfl⟩) fun received => ?_
  refine .bind (.forM (I := fun p T => T = S ∧ p.core = r.core) ⟨rfl, rfl⟩ ?_) ?_
  · rintro ⟨peer, message⟩ p _ ⟨rfl, same⟩
    exact (stays_keepCommitment p peer message).trans same
  · rintro _ p _ ⟨rfl, same⟩
    refine .party ?_
    split
    · exact .last (.modify (.pure ⟨rfl, same⟩))
    · exact .pure ⟨rfl, same⟩

theorem stays_sendOpening (r : Reveal F) : Stays core (sendOpening : Round F σ _ _) r S := by
  refine .get ?_
  cases r.opening with
  | none => exact .throw ⟨trivial, rfl, rfl⟩
  | some opening => exact .last (.call (fun _ => ⟨trivial, rfl, rfl⟩) fun _ => .pure ⟨rfl, rfl⟩)

theorem stays_checkOpening (r : Reveal F) (places : List (Option (Opening F))) (peer : PartyId)
    (message : Bytes) : Stays core (checkOpening places peer message : Round F σ _ _) r S := by
  refine .ofExcept (fun _ _ => ⟨trivial, rfl, rfl⟩) fun opening _ => .get ?_
  refine .ofExcept (fun e failed => ⟨?_, rfl, rfl⟩) fun entry _ => ?_
  · rw [eq_of_placeOf_error failed]
    trivial
  · cases entry with
    | none => exact .throw ⟨trivial, rfl, rfl⟩
    | some commitment =>
        dsimp only
        split
        · refine .last (.ofExcept (fun e failed => ⟨?_, rfl, rfl⟩) fun places _ => .pure ⟨rfl, rfl⟩)
          rw [eq_of_place_error failed]
          trivial
        · exact .throw ⟨trivial, rfl, rfl⟩

/-! ## Committing and showing -/

/-- A commitment is made to the value. -/
theorem leads_commit (r : Reveal F) : (commit : Round F σ _ _).Leads r S
    (fun e r' S' => e.OfRound ∧ S' = committed r.value S ∧ r'.output = r.output)
    fun _ r' S' => S' = committed r.value S ∧
      r'.core = (r.value, some (openingOf r.value S), r.values, r.output) := by
  refine .party (.get (.setParty (.call (fun _ => ⟨trivial, rfl, rfl⟩) fun _ => .modify ?_)))
  refine .ofExcept (fun e failed => ⟨?_, rfl, rfl⟩) fun commitments _ =>
    .last (.modify (.pure ⟨rfl, rfl⟩))
  rw [eq_of_place_error failed]
  trivial

/-- What is put in a place is there. -/
theorem mem_of_place {places filled : List (Option α)} {i : PartyId} {a : α}
    (placed : place places i a = .ok filled) : a ∈ filled.filterMap id := by
  rw [place] at placed
  cases here : placeOf places i with
  | error e =>
      rw [here] at placed
      cases placed
  | ok entry =>
      rw [here] at placed
      obtain rfl : places.set (i - 1) (some a) = filled := Except.ok.inj placed
      have small : i - 1 < places.length := by
        unfold placeOf at here
        split at here
        · cases here
        · rename_i index
          split at here
          · rename_i found
            exact (List.getElem?_eq_some_iff.mp found).1
          · cases here
      exact List.mem_filterMap.mpr ⟨some a, List.mem_set small (some a), rfl⟩

/-- The values are shown, among them the one that this party has committed to. -/
theorem leads_receiveOpenings (r : Reveal F) : (receiveOpenings : Round F σ _ _).Leads r S
    (fun e r' S' => e.OfRound ∧ S' = S ∧ r'.output = r.output)
    fun _ r' S' => S' = S ∧ ∃ own values, r.opening = some own ∧ own.value ∈ values ∧
      r'.core = (r.value, none, values, r.output) := by
  refine .party (.get ?_)
  cases r.opening with
  | none => exact .throw ⟨trivial, rfl, rfl⟩
  | some own =>
      refine .modify (.call (fun _ => ⟨trivial, rfl, rfl⟩) fun received => ?_)
      refine .bind (.foldlM (I := fun p T => T = S ∧ p.core = (r.value, none, r.values, r.output))
        ⟨rfl, rfl⟩ ?_) ?_
      · rintro places ⟨peer, message⟩ p _ ⟨rfl, same⟩
        refine (stays_checkOpening p places peer message).weaken ?_ ?_
        · rintro e q T ⟨ofRound, rfl, still⟩
          exact ⟨ofRound, rfl, congrArg (·.2.2.2) (still.trans same)⟩
        · rintro _ q T ⟨rfl, still⟩
          exact ⟨rfl, still.trans same⟩
      · rintro places p _ ⟨rfl, same⟩
        have output : p.output = r.output := congrArg (·.2.2.2) same
        refine .ofExcept (fun e failed => ⟨?_, rfl, output⟩) fun filled placed =>
          .modify (.pure ⟨rfl, own, _, rfl, List.mem_map_of_mem (mem_of_place placed), ?_⟩)
        · rw [eq_of_place_error failed]
          trivial
        · simp only [core, Prod.mk.injEq] at same ⊢
          exact ⟨same.1, same.2.1, trivial, same.2.2.2⟩

/-! ## All that a round can do -/

/-- **Outcome.**  What a round that succeeds makes of a revelation and of the party. -/
inductive Outcome (r : Reveal F) (S : Party F σ) :
    (round : Nat) → Status → Reveal F → Party F σ → Prop where
  | commits {r' : Reveal F}
      (becomes : r'.core = (r.value, some (openingOf r.value S), r.values, r.output)) :
    Outcome r S 0 .hasMoreRounds r' (committed r.value S)
  | compares {r' : Reveal F} {round : Nat} (early : round = 1 ∨ round = 2 ∧ S.parties > 2)
      (same : r'.core = r.core) : Outcome r S round .hasMoreRounds r' S
  /-- Among more than two parties the values are still to be compared when they are shown, -/
  | shows {r' : Reveal F} {own : Opening F} {values : List (Elem F)} (many : S.parties > 2)
      (opening : r.opening = some own) (among : own.value ∈ values)
      (becomes : r'.core = (r.value, none, values, r.output)) : Outcome r S 3 .hasMoreRounds r' S
  /-- and whatever was shown is the result at the end. -/
  | ends {r' : Reveal F} (many : S.parties > 2)
      (becomes : r'.core = (r.value, r.opening, [], some r.values)) : Outcome r S 4 .isDone r' S
  | endsOfTwo {r' : Reveal F} {own : Opening F} {values : List (Elem F)} (two : ¬ S.parties > 2)
      (opening : r.opening = some own) (among : own.value ∈ values)
      (becomes : r'.core = (r.value, none, [], some values)) : Outcome r S 2 .isDone r' S

/-- The party draws randomness for a commitment, and that is all that can happen to it. -/
theorem Outcome.party {r r' : Reveal F} {S S' : Party F σ} {round : Nat} {status : Status}
    (outcome : Outcome r S round status r' S') : S' = S ∨ S' = committed r.value S := by
  cases outcome with
  | commits => exact .inr rfl
  | compares | shows | ends | endsOfTwo => exact .inl rfl

/-- A revelation ends in a later round than it begins, and leaves the party as it is then. -/
theorem Outcome.of_done {r r' : Reveal F} {S S' : Party F σ} {round : Nat}
    (outcome : Outcome r S round .isDone r' S') : S' = S ∧ 0 < round := by
  cases outcome with
  | ends | endsOfTwo => exact ⟨rfl, by decide⟩

/-- **All that a round can do.** -/
theorem leads_evaluate (round : Nat) (r : Reveal F) : (evaluate round : Round F σ _ _).Leads r S
    (fun e r' S' => e.OfRound ∧ (S' = S ∨ S' = committed r.value S) ∧ r'.output = r.output)
    fun status r' S' => Outcome r S round status r' S' := by
  have stays {x : Round F σ (Reveal F) Unit} {q : Reveal F} (stays : Stays core x q S)
      (same : q.core = r.core) : x.Leads q S
        (fun e r' S' => e.OfRound ∧ (S' = S ∨ S' = committed r.value S) ∧ r'.output = r.output)
        fun _ r' S' => S' = S ∧ r'.core = r.core :=
    (stays.trans same).weaken
      (fun _ _ _ ⟨ofRound, party, still⟩ => ⟨ofRound, .inl party, congrArg (·.2.2.2) still⟩)
      fun _ _ _ => id
  have opens : (receiveOpenings : Round F σ _ _).Leads r S
      (fun e r' S' => e.OfRound ∧ (S' = S ∨ S' = committed r.value S) ∧ r'.output = r.output) _ :=
    (leads_receiveOpenings r).weaken
      (fun _ _ _ ⟨ofRound, party, still⟩ => ⟨ofRound, .inl party, still⟩) fun _ _ _ => id
  refine .party ?_
  dsimp only
  split
  · refine .bind ((leads_commit r).weaken ?_ fun _ _ _ => id) ?_
    · exact fun _ _ _ ⟨ofRound, party, still⟩ => ⟨ofRound, .inr party, still⟩
    · rintro _ r' _ ⟨rfl, becomes⟩
      exact .pure (.commits becomes)
  · refine .bind (stays (stays_receiveCommitments r) rfl) ?_
    rintro _ q _ ⟨rfl, same⟩
    refine .bind (stays (stays_validate 0 q) same) ?_
    rintro _ r' _ ⟨rfl, same⟩
    exact .pure (.compares (.inl rfl) same)
  · refine .bind (stays (stays_receiveCommitments r) rfl) ?_
    rintro _ q _ ⟨rfl, same⟩
    refine .bind (stays (stays_sendOpening q) same) ?_
    rintro _ r' _ ⟨rfl, same⟩
    exact .pure (.compares (.inl rfl) same)
  · rename_i more
    refine .bind (stays (stays_validate 1 r) rfl) ?_
    rintro _ q _ ⟨rfl, same⟩
    refine .bind (stays (stays_sendOpening q) same) ?_
    rintro _ r' _ ⟨rfl, same⟩
    exact .pure (.compares (.inr ⟨rfl, of_decide_eq_true more⟩) same)
  · rename_i two
    refine .discard (.bind opens ?_)
    rintro _ q _ ⟨rfl, own, values, opening, among, becomes⟩
    refine .modify (.pure (.endsOfTwo (of_decide_eq_false two) opening among ?_))
    simp only [core, Prod.mk.injEq] at becomes ⊢
    exact ⟨becomes.1, becomes.2.1, trivial, congrArg some becomes.2.2.1⟩
  · rename_i more
    refine .bind opens ?_
    rintro _ q _ ⟨rfl, own, values, opening, among, becomes⟩
    refine .modify (.bind ((stays_validate 0 _).weaken ?_ fun _ _ _ => id) ?_)
    · rintro e r' T ⟨ofRound, party, still⟩
      exact ⟨ofRound, .inl party, congrArg (·.2.2.2) (still.trans becomes)⟩
    · rintro _ r' _ ⟨rfl, still⟩
      exact .pure (.shows (of_decide_eq_true more) opening among (still.trans becomes))
  · rename_i more
    refine .bind (stays (stays_validate 1 r) rfl) ?_
    rintro _ q _ ⟨rfl, same⟩
    refine .modify (.pure (.ends (of_decide_eq_true more) ?_))
    simp only [core, Prod.mk.injEq] at same ⊢
    exact ⟨same.1, same.2.1, trivial, congrArg some same.2.2.1⟩
  · exact .throw ⟨trivial, .inl rfl, rfl⟩

/-! ## The own value -/

/-- **Bears.**  The revelation is one of this value, which is what its opening opens.  If values were
shown, this is one of them. -/
structure Bears (own : Elem F) (shown : Prop) (r : Reveal F) : Prop where
  value : r.value = own
  opening : ∀ opening, r.opening = some opening → opening.value = own
  values : own ∈ r.values ∨ r.values = [] ∧ ¬ shown

/-- A new revelation. -/
theorem Bears.start (own : Elem F) : Bears own False { value := own } where
  value := rfl
  opening := nofun
  values := .inr ⟨rfl, id⟩

variable {own : Elem F} {shown : Prop} {round : Nat} {status : Status} {S' : Party F σ}

theorem Bears.mono {shown' : Prop} (bears : r.Bears own shown) (weaker : shown' → shown) :
    r.Bears own shown' where
  value := bears.value
  opening := bears.opening
  values := bears.values.imp_right fun ⟨empty, hidden⟩ => ⟨empty, fun shown' => hidden (weaker shown')⟩

/-- **A revelation goes on with its value**, and shows it in the round for that. -/
theorem Outcome.bears (outcome : Outcome r S round status r' S') (bears : r.Bears own shown) :
    match status with
    | .hasMoreRounds => r'.Bears own (shown ∨ round = 3)
    | .isDone => ∃ values, r'.output = some values ∧ (own ∈ values ∨ values = [] ∧ ¬ shown) := by
  obtain ⟨value, opens, values⟩ := bears
  cases outcome with
  | commits becomes =>
      simp only [core, Prod.mk.injEq] at becomes
      obtain ⟨value', opening', values', -⟩ := becomes
      refine ⟨value'.trans value, ?_, ?_⟩
      · intro opening here
        rw [opening'] at here
        obtain rfl := Option.some.inj here
        exact value
      · rw [values']
        simpa using values
  | compares early same =>
      simp only [core, Prod.mk.injEq] at same
      obtain ⟨value', opening', values', -⟩ := same
      have before : round ≠ 3 := by omega
      refine ⟨value'.trans value, fun opening here => opens opening (opening'.symm.trans here), ?_⟩
      rw [values']
      simpa [before] using values
  | shows many opening among becomes =>
      simp only [core, Prod.mk.injEq] at becomes
      obtain ⟨value', opening', values', -⟩ := becomes
      refine ⟨value'.trans value, fun opening here => ?_, .inl ?_⟩
      · rw [opening'] at here
        cases here
      · rw [values', ← opens _ opening]
        exact among
  | ends many becomes => exact ⟨_, congrArg (·.2.2.2) becomes, values⟩
  | endsOfTwo two opening among becomes =>
      exact ⟨_, congrArg (·.2.2.2) becomes, .inl (opens _ opening ▸ among)⟩

end Reveal

end Spdz
