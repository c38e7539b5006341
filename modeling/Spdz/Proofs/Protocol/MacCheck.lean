import Spdz.Proofs.Field.Ring
import Spdz.Proofs.Protocol.Reveal
import Spdz.Protocol.MacCheck

/-!
# The turns of a check

A check is two revelations, one of coins and one of sigmas, that overlap in one round: where the
coins are shown, the sigmas are committed to.  So its states and messages are those of the two
revelations, and what is left to see is what the sigmas sum to.

* `MacCheck.before`, `MacCheck.sent` — the states and messages of an honest check.
* `MacCheck.play_first`, `MacCheck.play_toss`, `MacCheck.play_switch`, `MacCheck.play_sigmas` — the
  rounds before the last.
* **`MacCheck.play_last`** — the verdict: it depends on the sum of the sigmas only.
-/

namespace Spdz

namespace MacCheck

variable {F : FieldSpec} {σ : Type} {S : Party F σ} {came : PartyId → List Bytes}
  {out : List Bytes}

/-! ## States and messages -/

section States

variable (n : Nat) (o q : PartyId → Opening F) (records : List (OpenedValue F))

/-- The round in which the coins are shown and the sigmas are committed to. -/
def switch : Nat := Reveal.rounds n - 1

/-- The number of rounds. -/
def rounds : Nat := 2 * switch n + 1

/-- The state of a party before a round other than the first, with `o` the openings of the coins and
`q` those of the sigmas. -/
def before (i : PartyId) (round : Nat) : MacCheck F :=
  if round ≤ switch n then { stage := .coin (Reveal.before n o i round), records }
  else { stage := .sigma (switch n) (Reveal.before n q i (round - switch n)), records }

/-- What a party sent in the round before. -/
def sent (round : Nat) (j : PartyId) : List Bytes :=
  if round ≤ switch n then Reveal.sent n o round j else Reveal.sent n q (round - switch n) j

end States

/-- This party's coin. -/
def coinOf (S : Party F σ) : Elem F := (Elem.random F S.rng).1

/-- The party once it has taken its records out and drawn its coin. -/
def begun (S : Party F σ) : Party F σ := { S with opened := {}, rng := (Elem.random F S.rng).2 }

variable {n : Nat} {o q : PartyId → Opening F} {records : List (OpenedValue F)} {i : PartyId}

theorem switch_add_one : switch n + 1 = Reveal.rounds n := by
  simp only [switch, Reveal.rounds]
  split_ifs <;> rfl

theorem switch_pos : 1 < switch n := by
  simp only [switch, Reveal.rounds]
  split_ifs <;> decide

theorem before_of_le {round : Nat} (early : round ≤ switch n) :
    before n o q records i round = { stage := .coin (Reveal.before n o i round), records } :=
  if_pos early

theorem before_of_lt {round : Nat} (late : switch n < round) :
    before n o q records i round
      = { stage := .sigma (switch n) (Reveal.before n q i (round - switch n)), records } :=
  if_neg (Nat.not_le.mpr late)

theorem sent_of_le {round : Nat} (early : round ≤ switch n) :
    sent n o q round = Reveal.sent n o round := funext fun _ => if_pos early

theorem sent_of_lt {round : Nat} (late : switch n < round) :
    sent n o q round = Reveal.sent n q (round - switch n) :=
  funext fun _ => if_neg (Nat.not_le.mpr late)

/-! ## The parts of the protocol -/

section Parts

variable {peers : List PartyId} {c : MacCheck F} {S' S'' : Party F σ} {box box' box'' : Mailbox}
  {round start : Nat} {x x' y : Reveal F}

/-- A round of the toss that is not its last. -/
theorem play_tossCoin_more [Supplier F σ]
    (toss : (Reveal.evaluate round : Round F σ _ _).play peers x S box
      = some (((.ok .hasMoreRounds, x'), S'), box')) :
    (tossCoin round x : Round F σ _ _).play peers c S box
      = some (((.ok .hasMoreRounds, { c with stage := .coin x' }), S'), box') := by
  simp only [tossCoin, Round.play_bind, Round.play_apart, toss, Option.map_some, Except.map,
    Option.bind_some, Round.proceed_ok, enter, Round.play_modify, Round.play_pure]

/-- The last round of the toss is the first one for the sigmas. -/
theorem play_tossCoin_done [Supplier F σ] {coins : List (Elem F)} {value : Elem F}
    (toss : (Reveal.evaluate round : Round F σ _ _).play peers x S box
      = some (((.ok .isDone, x'), S'), box'))
    (shown : x'.output = some coins)
    (computed : Spdz.sigma S'.keyShare (coefficients coins c.records.length) c.records = value)
    (commits : (Reveal.evaluate 0 : Round F σ _ _).play peers { value } S' box'
      = some (((.ok .hasMoreRounds, y), S''), box'')) :
    (tossCoin round x : Round F σ _ _).play peers c S box
      = some (((.ok .hasMoreRounds, { c with stage := .sigma round y }), S''), box'') := by
  simp only [tossCoin, Round.play_bind, Round.play_apart, toss, Option.map_some, Except.map,
    Option.bind_some, Round.proceed_ok, shown, Round.play_get, Round.play_party, computed, commits,
    enter, Round.play_modify, Round.play_pure]

/-- A round for the sigmas that is not their last. -/
theorem play_revealSigmas_more (late : start ≤ round)
    (reveals : (Reveal.evaluate (round - start) : Round F σ _ _).play peers x S box
      = some (((.ok .hasMoreRounds, x'), S'), box')) :
    (revealSigmas round start x : Round F σ _ _).play peers c S box
      = some (((.ok .hasMoreRounds, { c with stage := .sigma start x' }), S'), box') := by
  simp only [revealSigmas, if_neg (Nat.not_lt.mpr late), Round.play_bind, Round.play_apart, reveals,
    Option.map_some, Except.map, Option.bind_some, Round.proceed_ok, enter, Round.play_modify,
    Round.play_pure]

/-- When the sigmas are shown, their sum decides. -/
theorem play_revealSigmas_done (late : start ≤ round) {values : List (Elem F)}
    (reveals : (Reveal.evaluate (round - start) : Round F σ _ _).play peers x S box
      = some (((.ok .isDone, x'), S'), box'))
    (shown : x'.output = some values) :
    (revealSigmas round start x : Round F σ _ _).play peers c S box
      = some (if Elem.sum values = 0
          then (((.ok .isDone, { c with stage := .passed }), S'), box')
          else (((.error .macCheckFailed, c), S'), box')) := by
  simp only [revealSigmas, if_neg (Nat.not_lt.mpr late), Round.play_bind, Round.play_apart, reveals,
    Option.map_some, Except.map, Option.bind_some, Round.proceed_ok, shown, enter]
  split_ifs <;> simp_all

end Parts

/-! ## Rounds -/

variable [Supplier F σ]

/-- The records are taken out and the coins are committed to. -/
theorem play_first (parties : S.parties = n) (id : S.id = i) (member : IsMember n i)
    (own : o i = Reveal.openingOf (coinOf S) (begun S)) {peers : List PartyId} :
    (evaluate 0 : Round F σ _ _).play peers {} S (.among peers came out)
      = some (((.ok .hasMoreRounds, before n o q S.opened.toList i 1),
          Reveal.committed (coinOf S) (begun S)),
        .among peers came (out ++ sent n o q 1 i)) := by
  have parties' : (begun S).parties = n := parties
  have id' : (begun S).id = i := id
  have toss : (Reveal.evaluate 0 : Round F σ _ _).play peers { value := coinOf S } (begun S)
      (.among peers came out) = _ := Reveal.play_first parties' id' member own
  have early : 1 ≤ switch n := Nat.le_of_lt switch_pos
  have begins : (begin : Round F σ _ _).play peers {} S (.among peers came out)
      = some (((.ok (), { stage := .coin { value := coinOf S }, records := S.opened.toList }),
          begun S), .among peers came out) := rfl
  rw [before_of_le early, sent_of_le early]
  simp only [evaluate, Round.play_bind, Round.play_get, Option.bind_some, Round.proceed_ok, begins,
    enter, Round.play_modify, play_tossCoin_more toss]

/-- A round of the toss, whatever else the party does meanwhile. -/
theorem play_toss (whole : ∀ j, IsMember n j → (o j).IsWhole) (member : IsMember n i)
    (id : S.id = i) (parties : S.parties = n) {round : Nat} (later : 0 < round)
    (due : round < switch n) :
    (evaluate round : Round F σ _ _).play (peersOf i n) (before n o q records i round) S
        (.among (peersOf i n) (sent n o q round) out)
      = some (((.ok .hasMoreRounds, before n o q records i (round + 1)), S),
        .among (peersOf i n) (fun _ => []) (out ++ sent n o q (round + 1) i)) := by
  have whole_rounds : switch n + 1 = Reveal.rounds n := switch_add_one
  have notLast : round + 1 ≠ Reveal.rounds n := by omega
  have toss : (Reveal.evaluate round : Round F σ _ _).play (peersOf i n) (Reveal.before n o i round)
      S (.among (peersOf i n) (Reveal.sent n o round) out) = _ :=
    Reveal.play_round whole member id parties later (by omega)
  rw [if_neg notLast] at toss
  obtain ⟨round, rfl⟩ := Nat.exists_eq_succ_of_ne_zero (Nat.ne_of_gt later)
  rw [before_of_le due.le, before_of_le due, sent_of_le due.le, sent_of_le due]
  simp only [evaluate, Round.play_bind, Round.play_get, Option.bind_some, Round.proceed_ok,
    enter, Round.play_modify, play_tossCoin_more toss]

/-- The coins are shown, and the sigmas that they determine are committed to. -/
theorem play_switch (whole : ∀ j, IsMember n j → (o j).IsWhole) (member : IsMember n i)
    (id : S.id = i) (parties : S.parties = n) {value : Elem F}
    (computed : Spdz.sigma S.keyShare (coefficients (Reveal.shown n o) records.length) records = value)
    (own : q i = Reveal.openingOf value S) :
    (evaluate (switch n) : Round F σ _ _).play (peersOf i n) (before n o q records i (switch n)) S
        (.among (peersOf i n) (sent n o q (switch n)) out)
      = some (((.ok .hasMoreRounds, before n o q records i (switch n + 1)),
          Reveal.committed value S),
        .among (peersOf i n) (fun _ => []) (out ++ sent n o q (switch n + 1) i)) := by
  have later : 0 < switch n := Nat.lt_of_succ_lt switch_pos
  have whole_rounds : switch n + 1 = Reveal.rounds n := switch_add_one
  have toss : (Reveal.evaluate (switch n) : Round F σ _ _).play (peersOf i n)
      (Reveal.before n o i (switch n)) S
      (.among (peersOf i n) (Reveal.sent n o (switch n)) out) = _ :=
    Reveal.play_round whole member id parties later (by omega)
  rw [if_pos whole_rounds, whole_rounds, Reveal.sent_rounds, List.append_nil] at toss
  have commits : (Reveal.evaluate 0 : Round F σ _ _).play (peersOf i n) { value } S
      (.among (peersOf i n) (fun _ => []) out) = _ := Reveal.play_first parties id member own
  have switched := play_tossCoin_done (c := { stage := .idle, records }) toss
    Reveal.output_before_rounds computed commits
  have last : switch n < switch n + 1 := Nat.lt_succ_self _
  rw [before_of_le le_rfl, before_of_lt last, sent_of_le le_rfl, sent_of_lt last,
    Nat.add_sub_cancel_left]
  generalize switch n = round at *
  obtain ⟨round, rfl⟩ := Nat.exists_eq_succ_of_ne_zero (Nat.ne_of_gt later)
  simp only [evaluate, Round.play_bind, Round.play_get, Option.bind_some, Round.proceed_ok,
    enter, Round.play_modify, switched]

/-- A round for the sigmas, whatever else the party does meanwhile. -/
theorem play_sigmas (whole : ∀ j, IsMember n j → (q j).IsWhole) (member : IsMember n i)
    (id : S.id = i) (parties : S.parties = n) {round : Nat} (late : switch n < round)
    (due : round < 2 * switch n) :
    (evaluate round : Round F σ _ _).play (peersOf i n) (before n o q records i round) S
        (.among (peersOf i n) (sent n o q round) out)
      = some (((.ok .hasMoreRounds, before n o q records i (round + 1)), S),
        .among (peersOf i n) (fun _ => []) (out ++ sent n o q (round + 1) i)) := by
  have whole_rounds : switch n + 1 = Reveal.rounds n := switch_add_one
  have notLast : round - switch n + 1 ≠ Reveal.rounds n := by omega
  have reveals : (Reveal.evaluate (round - switch n) : Round F σ _ _).play (peersOf i n)
      (Reveal.before n q i (round - switch n)) S
      (.among (peersOf i n) (Reveal.sent n q (round - switch n)) out) = _ :=
    Reveal.play_round whole member id parties (by omega) (by omega)
  rw [if_neg notLast] at reveals
  have next : round + 1 - switch n = round - switch n + 1 := by omega
  rw [before_of_lt late, before_of_lt (Nat.lt_succ_of_lt late), sent_of_lt late,
    sent_of_lt (Nat.lt_succ_of_lt late), next]
  obtain ⟨round, rfl⟩ := Nat.exists_eq_succ_of_ne_zero (Nat.ne_of_gt (Nat.zero_lt_of_lt late))
  simp only [evaluate, Round.play_bind, Round.play_get, Option.bind_some, Round.proceed_ok,
    enter, Round.play_modify, play_revealSigmas_more late.le reveals]

/-- **The verdict.**  All parties pass if the sigmas sum to zero, and fail otherwise. -/
theorem play_last (whole : ∀ j, IsMember n j → (q j).IsWhole) (member : IsMember n i)
    (id : S.id = i) (parties : S.parties = n) :
    (evaluate (2 * switch n) : Round F σ _ _).play (peersOf i n)
        (before n o q records i (2 * switch n)) S
        (.among (peersOf i n) (sent n o q (2 * switch n)) out)
      = some (if ∑ j ∈ Finset.Icc 1 n, (q j).value = 0
          then (((.ok .isDone, { stage := .passed, records }), S),
            .among (peersOf i n) (fun _ => []) out)
          else (((.error .macCheckFailed, { stage := .idle, records }), S),
            .among (peersOf i n) (fun _ => []) out)) := by
  have positive : 1 < switch n := switch_pos
  have late : switch n < 2 * switch n := by omega
  have whole_rounds : 2 * switch n - switch n + 1 = Reveal.rounds n := by
    rw [← switch_add_one]
    omega
  have reveals : (Reveal.evaluate (2 * switch n - switch n) : Round F σ _ _).play (peersOf i n)
      (Reveal.before n q i (2 * switch n - switch n)) S
      (.among (peersOf i n) (Reveal.sent n q (2 * switch n - switch n)) out) = _ :=
    Reveal.play_round whole member id parties (by omega) (by omega)
  rw [if_pos whole_rounds, whole_rounds, Reveal.sent_rounds, List.append_nil] at reveals
  have sum : Elem.sum (Reveal.shown n q) = ∑ j ∈ Finset.Icc 1 n, (q j).value := by
    rw [Elem.sum_eq, Reveal.shown, sum_range']
  rw [before_of_lt late, sent_of_lt late, ← sum]
  generalize switch n = start, 2 * switch n = round at *
  obtain ⟨round, rfl⟩ := Nat.exists_eq_succ_of_ne_zero (Nat.ne_of_gt (Nat.zero_lt_of_lt late))
  simp only [evaluate, Round.play_bind, Round.play_get, Option.bind_some, Round.proceed_ok,
    enter, Round.play_modify,
    play_revealSigmas_done late.le reveals Reveal.output_before_rounds]

end MacCheck

end Spdz
