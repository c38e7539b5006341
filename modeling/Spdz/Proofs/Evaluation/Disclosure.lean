import Spdz.Proofs.Evaluation.Agreement
import Spdz.Proofs.Protocol.Withheld

/-!
# Commit before reveal

A party that takes part in a revelation shows what opens its commitment only when all peers have
committed themselves, and among more than two parties only when it has made sure that all of them got the
same commitments.  Whatever the peers send and whichever call fails, its run either ends in an error before
that, and then nobody has seen more of the value than the digest, or the opening is sent once.

* `Slot.of_runs_driveFrom`, `Slot.of_runs_driveRounds` — the runs of a single protocol, round by round.
* `Reveal.disclosed_driveFrom` — the runs from the round on that sends the opening.
* **`Reveal.commit_before_reveal`** — every run of a revelation.
-/

namespace Spdz

/-! ## Driving a single protocol -/

namespace Slot

variable {F : FieldSpec} {σ P : Type} [Protocol F σ P] {peers : List PartyId} {p : P}
  {S : Party F σ} {limit round : Nat} {events : List Event}
  {out : (Except Error Nat × List (Slot P)) × Party F σ}

/-- A protocol is driven on from where a round of it has ended. -/
theorem of_runs_driveFrom
    (runs : ((driveFrom (limit + 1) round [⟨p, true⟩]).run S).Runs peers events out) :
    (∃ e p' S', (Protocol.evaluate round : Round F σ P _).Runs peers p S events ((.error e, p'), S') ∧
      out = ((.error e, [⟨p', true⟩]), S')) ∨
    ∃ status p' S' before after,
      (Protocol.evaluate round : Round F σ P _).Runs peers p S before ((.ok status, p'), S') ∧
      ((driveFrom limit (round + 1) [⟨p', status == .hasMoreRounds⟩]).run S').Runs peers after out ∧
      events = before ++ after := by
  rw [run_driveFrom, Exchange.runs_bind] at runs
  obtain ⟨⟨⟨result | status, p'⟩, S'⟩, before, after, first, second, rfl⟩ := runs
  · obtain ⟨rfl, rfl⟩ := Exchange.runs_pure.mp second
    exact .inl ⟨_, p', S', (List.append_nil before).symm ▸ first, rfl⟩
  · exact .inr ⟨status, p', S', before, after, first, second, rfl⟩

/-- Nothing is done for a protocol at its end. -/
theorem of_runs_driveFrom_idle
    (runs : ((driveFrom (F := F) (limit + 1) round [⟨p, false⟩]).run S).Runs peers events out) :
    events = [] ∧ out = ((.ok round, [⟨p, false⟩]), S) := Exchange.runs_pure.mp runs

/-- Driving a protocol is advancing its slot. -/
theorem of_runs_driveRounds {result : Except Error Nat} {ps : List P} {S' : Party F σ}
    (runs : ((driveRounds [p]).run S).Runs peers events ((result, ps), S')) :
    ∃ slots, ((driveFrom maxRounds 0 [⟨p, true⟩]).run S).Runs peers events ((result, slots), S') := by
  rw [driveRounds, StateT.run_bind, Exchange.runs_bind] at runs
  obtain ⟨⟨⟨result', slots⟩, S''⟩, before, after, driven, finished, rfl⟩ := runs
  obtain ⟨rfl, same⟩ := Exchange.runs_pure.mp finished
  cases same
  exact ⟨slots, (List.append_nil before).symm ▸ driven⟩

end Slot

namespace Reveal

variable {F : FieldSpec} {σ : Type} {n : Nat} {i : PartyId} {peers : List PartyId} {S : Party F σ}
  {x : Elem F} {own : Opening F} {events : List Event}

/-- Driving the last round sends nothing more. -/
theorem sentIn_driveFrom_last {limit round : Nat} {r : Reveal F}
    {out : (Except Error Nat × List (Slot (Reveal F))) × Party F σ}
    (last : (¬ S.parties > 2 ∧ round = 2) ∨ (S.parties > 2 ∧ round = 4))
    (runs : ((Slot.driveFrom (limit + 2) round [⟨r, true⟩]).run S).Runs peers events out) :
    sentIn events = [] := by
  obtain ⟨e, r', S', part, -⟩ | ⟨status, r', S', before, after, part, rest, rfl⟩ :=
    Slot.of_runs_driveFrom runs
  · exact (of_runs_last last part).1
  · obtain ⟨nothing, done⟩ := of_runs_last last part
    obtain rfl : status = .isDone := done status rfl
    obtain ⟨rfl, -⟩ := Slot.of_runs_driveFrom_idle rest
    rw [sentIn_append, nothing]
    rfl

/-- Driving the rounds after the opening was sent. -/
theorem sentIn_driveFrom {limit : Nat} {r : Reveal F} (parties : S.parties = n)
    {out : (Except Error Nat × List (Slot (Reveal F))) × Party F σ}
    (runs : ((Slot.driveFrom (limit + 3) (if n > 2 then 3 else 2) [⟨r, true⟩]).run S).Runs peers
      events out) : ∃ shown, sentIn events <+: if n > 2 then [broadcastDigest shown] else [] := by
  by_cases many : n > 2
  · rw [if_pos many] at runs
    simp only [if_pos many]
    obtain ⟨e, r', S', part, -⟩ | ⟨status, r', S', before, after, part, rest, rfl⟩ :=
      Slot.of_runs_driveFrom runs
    · exact (of_runs_three (parties ▸ many) part).1
    · obtain ⟨⟨shown, few⟩, rfl⟩ := of_runs_three (parties ▸ many) part
      have nothing : sentIn after = [] := by
        cases status with
        | hasMoreRounds => exact sentIn_driveFrom_last (.inr ⟨parties ▸ many, rfl⟩) rest
        | isDone =>
          obtain ⟨rfl, -⟩ := Slot.of_runs_driveFrom_idle rest
          rfl
      exact ⟨shown, by rwa [sentIn_append, nothing, List.append_nil]⟩
  · rw [if_neg many] at runs
    simp only [if_neg many]
    exact ⟨[], by rw [sentIn_driveFrom_last (.inl ⟨parties ▸ many, rfl⟩) runs]⟩

/-- **From the round on that sends the opening**, a run ends in an error there or sends it, and then it
sends no more than a digest.  Before this round there were the events `given`. -/
theorem disclosed_driveFrom {limit round : Nat} {r : Reveal F} (parties : S.parties = n)
    (now : round + 1 = if n > 2 then 3 else 2) {given : List Event}
    {out : (Except Error Nat × List (Slot (Reveal F))) × Party F σ}
    (sends : ∀ {events : List Event} {out : (Except Error Status × Reveal F) × Party F σ},
      (evaluate round : Round F σ _ _).Runs (peersOf i n) r S events out →
      (∃ e r', Refused n i own.digest (given ++ events) e ∧ out = ((.error e, r'), S)) ∨
      ∃ c reply, Committed n i own.digest c ∧ given ++ events
          = cleared n i own.digest c ++ [⟨.sendAll own.toBytes, reply⟩] ∧
        out.2 = S ∧ ∀ status, out.1.1 = .ok status → status = .hasMoreRounds)
    (runs : ((Slot.driveFrom (limit + 4) round [⟨r, true⟩]).run S).Runs (peersOf i n) events out) :
    (∃ e, Refused n i own.digest (given ++ events) e ∧ out.1.1 = .error e) ∨
    ∃ c reply later shown, Committed n i own.digest c ∧
      given ++ events = cleared n i own.digest c ++ ⟨.sendAll own.toBytes, reply⟩ :: later ∧
      sentIn later <+: if n > 2 then [broadcastDigest shown] else [] := by
  obtain ⟨e, r', S', part, rfl⟩ | ⟨status, r', S', before, after, part, rest, rfl⟩ :=
    Slot.of_runs_driveFrom runs
  · obtain ⟨_, _, refused, same⟩ | ⟨c, reply, committed, all, -⟩ := sends part
    · cases same
      exact .inl ⟨e, refused, rfl⟩
    · exact .inr ⟨c, reply, [], [], committed, all, List.nil_prefix⟩
  · obtain ⟨_, _, _, same⟩ | ⟨c, reply, committed, all, rfl, goes⟩ := sends part
    · cases same
    · obtain rfl : status = .hasMoreRounds := goes status rfl
      rw [now] at rest
      obtain ⟨shown, few⟩ := sentIn_driveFrom parties rest
      refine .inr ⟨c, reply, after, shown, committed, ?_, few⟩
      rw [← List.append_assoc, all, List.append_assoc]
      rfl

/-- **Commit before reveal.**  Whatever the peers send, and whichever call fails, there are two kinds of
runs.  Some end in an error since a commitment or a digest is missing, malformed or different.  Then the
messages depend on the value through the digest of the commitment alone.  In all others the party has got
well-formed commitments from all peers, and, if there are more than two parties, from each of them the
digest of all commitments in order of parties.  Then it sends its opening, and this once, for what it sends
later is the digest of a list at most. -/
theorem commit_before_reveal (member : IsMember n i) (id : S.id = i) (parties : S.parties = n)
    {result : Except Error Nat} {protocols : List (Reveal F)} {S' : Party F σ}
    (runs : ((driveRounds [({ value := x } : Reveal F)]).run S).Runs (peersOf i n) events
      ((result, protocols), S')) :
    (∃ e, Refused n i (openingOf x S).digest events e ∧ result = .error e) ∨
    ∃ c reply later shown, Committed n i (openingOf x S).digest c ∧
      events = cleared n i (openingOf x S).digest c
        ++ ⟨.sendAll (openingOf x S).toBytes, reply⟩ :: later ∧
      sentIn later <+: if n > 2 then [broadcastDigest shown] else [] := by
  obtain ⟨slots, runs⟩ := Slot.of_runs_driveRounds runs
  obtain ⟨limit, enough⟩ : ∃ limit, maxRounds = limit + 6 := ⟨maxRounds - 6, rfl⟩
  rw [enough] at runs
  have parties' : (committed x S).parties = n := parties
  obtain ⟨e, r, _, zero, same⟩ | ⟨status, r, S₀, before, after, zero, rest, rfl⟩ :=
    Slot.of_runs_driveFrom runs
  · obtain ⟨cause, _, rfl, first⟩ | ⟨-, first⟩ := of_runs_zero parties id member zero
    · cases first
      cases same
      exact .inl ⟨_, .uncommitted (.unsent cause), rfl⟩
    · cases first
  · obtain ⟨cause, _, -, first⟩ | ⟨rfl, first⟩ := of_runs_zero parties id member zero
    · cases first
    · cases first
      by_cases many : n > 2
      · obtain ⟨e, r₁, S₁, one, same⟩ | ⟨status, r₁, S₁, before, later, one, rest', rfl⟩ :=
          Slot.of_runs_driveFrom rest
        · obtain ⟨_, _, refused, here⟩ | ⟨c, -, -, here⟩ := of_runs_one_of_many many parties' one
          · cases here
            cases same
            exact .inl ⟨e, refused, rfl⟩
          · cases here
        · obtain ⟨_, _, -, here⟩ | ⟨c, received, all, here⟩ := of_runs_one_of_many many parties' one
          · cases here
          · cases here
            have events : ([⟨.sendAll (openingOf x S).digest, .ok ()⟩] : List Event) ++ (before ++ later)
                = (exchanged n i (openingOf x S).digest c ++ [⟨.sendAll (comparison n c), .ok ()⟩])
                  ++ later := by
              rw [← all]
              rfl
            rw [events]
            refine disclosed_driveFrom parties' (if_pos many).symm (fun two => ?_) rest'
            rw [List.append_assoc]
            obtain refused | ⟨reply, all, same, goes⟩ := of_runs_two_of_many many parties' received two
            · exact .inl refused
            · exact .inr ⟨c, reply, received, all, same, goes⟩
      · exact disclosed_driveFrom parties' (if_neg many).symm (of_runs_one_of_two many parties') rest

/-- Among three parties with no randomness that reveal zeros, the first one sends its opening. -/
theorem commit_before_reveal_plain : IsMember 3 1 ∧ (plainParty 1).id = 1 ∧ (plainParty 1).parties = 3 ∧
    ∃ (events : List Event) (count : Nat) (r : Reveal .f251) (S' : Party .f251 Unit),
      ((driveRounds [({ value := 0 } : Reveal .f251)]).run (plainParty 1)).Runs (peersOf 1 3) events
        ((.ok count, [r]), S') ∧
      ∃ c reply later shown, Committed 3 1 (openingOf 0 (plainParty 1)).digest c ∧
        events = cleared 3 1 (openingOf 0 (plainParty 1)).digest c
          ++ ⟨.sendAll (openingOf 0 (plainParty 1)).toBytes, reply⟩ :: later ∧
        sentIn later <+: [broadcastDigest shown] := by
  have member : IsMember 3 1 := ⟨by decide, by decide⟩
  obtain ⟨-, -, -, count, r, S', left, -, play⟩ := completes_honest (S := plainParty) (x := fun _ => 0)
    (o := fun j => openingOf 0 (plainParty j)) (fun _ => rfl) member rfl rfl
  obtain ⟨events, runs⟩ := Exchange.exists_runs_of_play play
  refine ⟨member, rfl, rfl, events, count, r, S', runs, ?_⟩
  obtain ⟨e, -, failed⟩ | ⟨c, reply, later, shown, committed, all, few⟩ :=
    commit_before_reveal member rfl rfl runs
  · cases failed
  · exact ⟨c, reply, later, shown, committed, all, few⟩

end Reveal

end Spdz
