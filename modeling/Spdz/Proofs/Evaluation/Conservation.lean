import Spdz.Proofs.Evaluation.Calls
import Spdz.Proofs.Evaluation.Tasks
import Spdz.Proofs.Gates.Noting

/-!
# Nothing opened escapes the checks

What is opened waits in the party's list of pending openings until a check takes it.  Here it is said,
over the history of a whole session, that no record is lost on the way or taken twice, whatever the
peers send and wherever the session ends.

* `Turn.Records`, `Turn.taken` — the records that are made in a turn, and those that a check takes.
* `Turn.Records.balance`, `Turn.balance` — the balance of a turn and of many.
* `Accounted`, `Confirmed` — all records are accounted for, and confirmed.
* **`Session.nothing_escapes`** — all records of a session are accounted for, and confirmed once it is
  finished.
-/

namespace Spdz

variable {F : FieldSpec} {σ : Type}

/-! ## The balance of turns -/

namespace Turn

/-- The records that are taken if a check begins in the turn: those that it holds then. -/
def taken (t : Turn F σ (Gate F)) : Option (List (OpenedValue F)) :=
  match t.round, t.before.1, t.after.1 with
  | 0, .macCheck ⟨.idle, _⟩, .macCheck check => some check.records
  | _, _, _ => none

variable {t : Turn F σ (Gate F)} {turns : List (Turn F σ (Gate F))} {S S' : Party F σ}

/-- Only a check that is new takes records, and only in its first round. -/
theorem taken_eq_none (other : ¬ (t.round = 0 ∧ ∃ records, t.before.1 = .macCheck ⟨.idle, records⟩)) :
    t.taken = none := by
  rw [taken]
  split
  · rename_i records _ first new _
    exact absurd ⟨first, records, new⟩ other
  · rfl

theorem round_of_taken (takes : t.taken.isSome) : t.round = 0 := by
  by_contra late
  rw [taken_eq_none fun first => late first.1] at takes
  cases takes

variable [Supplier F σ]

/-- **Records.**  These records are made in the turn: the round, which comes to what the turn comes to,
notes them on its way. -/
def Records (t : Turn F σ (Gate F)) (records : List (OpenedValue F)) : Prop :=
  (((Noting.evaluate t.round).run t.before.1).run t.before.2).run.Ends
    (((t.result, t.after.1), t.after.2), records)

/-- Notes can be taken in any turn. -/
theorem Genuine.exists_records (genuine : t.Genuine) : ∃ records, t.Records records := by
  have forgotten : ((Noting.forget (Noting.evaluate t.round)).run t.before.1 t.before.2).Ends
      ((t.result, t.after.1), t.after.2) := by
    rw [Noting.forget_evaluate]
    exact genuine
  obtain ⟨⟨_, records⟩, ends, same⟩ := Exchange.ends_map.mp forgotten
  cases same
  exact ⟨records, ends⟩

theorem Records.genuine {records : List (OpenedValue F)} (noted : t.Records records) : t.Genuine := by
  have forgotten : ((Noting.forget (Noting.evaluate t.round)).run t.before.1 t.before.2).Ends
      ((t.result, t.after.1), t.after.2) := Exchange.ends_map.mpr ⟨_, noted, rfl⟩
  rw [Noting.forget_evaluate] at forgotten
  exact forgotten

/-- A check stays a check. -/
theorem Genuine.exists_check {check : MacCheck F} (genuine : t.Genuine)
    (before : t.before.1 = .macCheck check) : ∃ check', t.after.1 = .macCheck check' ∧
      (((MacCheck.evaluate t.round : Round F σ _ _).run check).run t.before.2).Ends
        ((t.result, check'), t.after.2) := by
  have embeds : Embeds (F := F) σ (Gate.macCheck (F := F)) := fun _ _ => rfl
  rw [Genuine, before] at genuine
  exact embeds.ends genuine

/-- **What a turn does to the pending openings.**  Either a check begins and takes them all, or they
stay and gain the records that are made. -/
theorem Records.takes_or_adds {records : List (OpenedValue F)} (noted : t.Records records) :
    (t.taken = some t.before.2.opened.toList ∧ records = [] ∧ t.after.2.opened.toList = []) ∨
      (t.taken = none ∧ t.after.2.opened.toList = t.before.2.opened.toList ++ records) := by
  by_cases check : t.before.1.IsCheck
  · obtain ⟨check, gate⟩ := check
    obtain ⟨check', after, ends⟩ := noted.genuine.exists_check gate
    have nothing : records = [] := by
      rw [Records, gate] at noted
      exact Noting.notes_of_check noted
    by_cases begins : t.round = 0 ∧ check.stage = .idle
    · rw [begins.1] at ends
      obtain ⟨all, left⟩ := MacCheck.ends_begin begins.2 ends
      refine .inl ⟨?_, nothing, left⟩
      obtain ⟨stage, held⟩ := check
      obtain rfl : stage = .idle := begins.2
      rw [taken, begins.1, gate, after]
      exact congrArg some all
    · -- a check that goes on, or is called out of turn, takes nothing
      obtain ⟨-, same⟩ := MacCheck.moves_evaluate begins _ _ _ ends
      refine .inr ⟨taken_eq_none ?_, by rw [nothing, List.append_nil, same]⟩
      rintro ⟨first, records, new⟩
      rw [gate] at new
      cases new
      exact begins ⟨first, rfl⟩
  · refine .inr ⟨taken_eq_none ?_, Noting.booked_evaluate check t.round _ _ _ _ noted⟩
    rintro ⟨-, records, new⟩
    exact check ⟨_, new⟩

/-- **The balance of a turn.** -/
theorem Records.balance {records : List (OpenedValue F)} (noted : t.Records records) :
    t.before.2.opened.toList ++ records = t.taken.getD [] ++ t.after.2.opened.toList := by
  obtain ⟨takes, rfl, nothing⟩ | ⟨leaves, gained⟩ := noted.takes_or_adds
  · rw [takes, nothing, Option.getD_some]
  · rw [leaves, gained, Option.getD_none, List.nil_append]

/-- **The balance of many turns.**  What was pending or was recorded is taken, or is still pending. -/
theorem balance {pushed : List (List (OpenedValue F))} (noted : List.Forall₂ Records turns pushed)
    (chained : Chained S turns S') :
    S.opened.toList ++ pushed.flatten = (turns.filterMap taken).flatten ++ S'.opened.toList := by
  induction noted generalizing S with
  | nil =>
      obtain rfl : S' = S := chained
      simp
  | @cons t records turns pushed first others ih =>
      obtain ⟨rfl, later⟩ := chained
      have drained : ((t :: turns).filterMap taken).flatten
          = t.taken.getD [] ++ (turns.filterMap taken).flatten := by
        cases held : t.taken <;> simp [held]
      calc t.before.2.opened.toList ++ (records :: pushed).flatten
          = (t.before.2.opened.toList ++ records) ++ pushed.flatten := by
            rw [List.flatten_cons, List.append_assoc]
        _ = t.taken.getD [] ++ (t.after.2.opened.toList ++ pushed.flatten) := by
            rw [first.balance, List.append_assoc]
        _ = ((t :: turns).filterMap taken).flatten ++ S'.opened.toList := by
            rw [ih later, drained, List.append_assoc]

theorem exists_forall₂_records (genuine : ∀ t ∈ turns, t.Genuine) :
    ∃ pushed, List.Forall₂ Records turns pushed := by
  induction turns with
  | nil => exact ⟨[], .nil⟩
  | cons t turns ih =>
      obtain ⟨first, others⟩ := List.forall_mem_cons.mp genuine
      obtain ⟨records, noted⟩ := first.exists_records
      obtain ⟨pushed, later⟩ := ih others
      exact ⟨records :: pushed, .cons noted later⟩

/-- A check that has begun holds its records, and leaves the pending openings alone. -/
theorem Genuine.exists_holding {check : MacCheck F} (genuine : t.Genuine) (late : t.round ≠ 0)
    (before : t.before.1 = .macCheck check) : ∃ check', t.after.1 = .macCheck check' ∧
      check'.records = check.records ∧ t.before.2.opened.toList = t.after.2.opened.toList := by
  obtain ⟨check', after, ends⟩ := genuine.exists_check before
  have begun : ¬ (t.round = 0 ∧ check.stage = .idle) := fun begins => late begins.1
  obtain ⟨records, opened⟩ := MacCheck.moves_evaluate begun _ _ _ ends
  exact ⟨check', after, records.symm, opened⟩

omit [Supplier F σ] in
/-- Turns that leave the pending openings alone, one after the other. -/
theorem Chained.toList_opened (chained : Chained S turns S')
    (same : ∀ t ∈ turns, t.after.2.opened.toList = t.before.2.opened.toList) :
    S'.opened.toList = S.opened.toList := by
  induction turns generalizing S with
  | nil =>
      obtain rfl : S' = S := chained
      rfl
  | cons t turns ih =>
      obtain ⟨here, others⟩ := List.forall_mem_cons.mp same
      obtain ⟨rfl, later⟩ := chained
      exact (ih later others).trans here

omit [Supplier F σ] in
/-- What a check has taken it holds. -/
theorem exists_check_of_taken {records : List (OpenedValue F)} (takes : t.taken = some records) :
    ∃ check, t.after.1 = .macCheck check ∧ check.records = records := by
  rw [taken] at takes
  split at takes
  · rename_i check _ _ after
    exact ⟨check, after, Option.some.inj takes⟩
  · cases takes

end Turn

/-! ## A check by itself -/

namespace Slot.Drives

variable [Supplier F σ] {limit round rounds : Nat} {slots slots' : List (Slot (Gate F))}
  {turns : List (Turn F σ (Gate F))} {S S' : Party F σ} {result : Except Error Nat}

/-- Checks that have begun leave the pending openings alone. -/
theorem toList_opened (late : round ≠ 0)
    (drives : Drives limit round slots S turns result slots' S')
    (checks : ∀ slot ∈ slots, slot.protocol.IsCheck) :
    S'.opened.toList = S.opened.toList := by
  have all : ∀ t ∈ turns, t.before.1.IsCheck := by
    refine drives.before_of_kept Gate.IsCheck (fun t genuine => ?_) checks
    rintro ⟨check, before⟩
    obtain ⟨check', after, -⟩ := genuine.exists_check before
    exact ⟨check', after⟩
  refine drives.chained.toList_opened fun t among => ?_
  obtain ⟨check, before⟩ := all t among
  have lateToo : t.round ≠ 0 := by
    have here := drives.round_le t among
    omega
  obtain ⟨_, -, -, same⟩ := (drives.genuine t among).exists_holding lateToo before
  exact same.symm

/-- A check that succeeds by itself leaves nothing pending. -/
theorem toList_opened_of_check
    (drives : Drives limit 0 [{ protocol := .macCheck {} }] S turns (.ok rounds) slots' S') :
    S'.opened.toList = [] := by
  cases drives with
  | done idle => cases idle
  | more _ advances later =>
      -- in its first round the check takes all, and in later rounds nothing is added
      cases advances with
      | turn genuine others =>
          cases others
          obtain ⟨check, after, ends⟩ := Turn.Genuine.exists_check genuine rfl
          obtain ⟨-, nothing⟩ := MacCheck.ends_begin rfl ends
          rw [later.toList_opened (Nat.succ_ne_zero 0) (by simpa using ⟨check, after⟩)]
          exact nothing

end Slot.Drives

/-! ## Whole sessions -/

section Sessions

variable [Supplier F σ]

/-- **Accounted.**  Wherever the history is cut, the records that were made until then are those that the
checks have taken until then, in this order, and those that are pending.  No protocol takes records
twice. -/
structure Accounted (S : Party F σ) (drives : List (Drive F σ)) (S' : Party F σ) : Prop where
  balance : ∀ done later, drives.flatMap (·.turns) = done ++ later → ∃ now,
    Turn.Chained S done now ∧ Turn.Chained now later S' ∧
      (∃ pushed, List.Forall₂ Turn.Records done pushed) ∧
      ∀ pushed, List.Forall₂ Turn.Records done pushed →
        pushed.flatten = (done.filterMap Turn.taken).flatten ++ now.opened.toList
  once : ∀ d ∈ drives, (d.turns.filter (·.taken.isSome)).Pairwise fun t u => t.position < u.position

/-- **Confirmed.**  Nothing is pending, no batch has failed, and what a check has taken it has confirmed:
it holds the same records in its last turn, and this ends well. -/
structure Confirmed (drives : List (Drive F σ)) (S' : Party F σ) : Prop where
  nothing_pending : S'.opened = {}
  nothing_failed : ∀ d ∈ drives, (∃ rounds, d.result = .ok rounds) ∧
    ∀ t ∈ d.turns, ∃ status, t.result = .ok status
  passed : ∀ d ∈ drives, ∀ t ∈ d.turns, ∀ records, t.taken = some records →
    ∃ last ∈ d.turns, last.position = t.position ∧ last.result = .ok .isDone ∧
      ∃ check, last.after.1 = .macCheck check ∧ check.records = records

namespace Session

variable {session session' : Session F σ} {drives : List (Drive F σ)}

theorem Evolves.accounted (evolves : session.Evolves drives session')
    (fresh : session.party.opened = {}) : Accounted session.party drives session'.party where
  balance := by
    intro done later cut
    have chained := evolves.chained
    have genuine := evolves.genuine
    rw [cut] at chained genuine
    obtain ⟨now, first, second⟩ := Turn.chained_append.mp chained
    refine ⟨now, first, second,
      Turn.exists_forall₂_records (List.forall_mem_append.mp genuine).1, fun pushed noted => ?_⟩
    have balance := Turn.balance noted first
    rw [fresh] at balance
    exact balance
  once := by
    intro d among
    obtain ⟨_, _, _, _, history⟩ := evolves.exists_history among
    refine List.pairwise_filter.mpr (history.ordered.imp ?_)
    intro t u ordered takes takes'
    have first := Turn.round_of_taken takes
    have first' := Turn.round_of_taken takes'
    omega

/-- Once a session has got through and left nothing pending, all that was opened is confirmed. -/
theorem Evolves.confirmed (evolves : session.Evolves drives session')
    (active : session'.aborted = none) (nothing : session'.party.opened = {}) :
    Confirmed drives session'.party := by
  have succeeds := (evolves.exists_rounds active).2
  refine ⟨nothing, fun d among => ⟨succeeds d among, fun t within => ?_⟩,
    fun d among t within records takes => ?_⟩
  · obtain ⟨_, _, _, _, history⟩ := evolves.exists_history among
    obtain ⟨rounds, result⟩ := succeeds d among
    rw [result] at history
    exact history.exists_status within
  · obtain ⟨_, _, _, _, history⟩ := evolves.exists_history among
    obtain ⟨rounds, result⟩ := succeeds d among
    rw [result] at history
    refine history.exists_last (fun gate => ∃ check, gate = .macCheck check ∧ check.records = records)
      (fun t genuine late => ?_) within (Turn.exists_check_of_taken takes)
    rintro ⟨check, before, rfl⟩
    obtain ⟨check', after, same, -⟩ := genuine.exists_holding late before
    exact ⟨check', after, same⟩

theorem opened_of_macCheck
    (ends : ((macCheck : Evaluation F σ Unit).run.run session).Ends (.ok (), session')) :
    session'.party.opened = {} := by
  obtain ⟨outcome, protocols, between, driven, succeeds, party, -⟩ := exists_drive_check ends
  obtain ⟨e, -, rfl, -⟩ | ⟨-, turns, slots, S, history, -, rfl⟩ := exists_driven driven
  · cases succeeds
  · cases outcome with
    | error e => cases succeeds
    | ok rounds =>
        have nothing : S.opened.toList = [] := history.toList_opened_of_check
        have left : session'.party = S := party.symm
        rw [left]
        exact congrArg OpenedValues.mk nothing

/-- A session that is finished has nothing pending. -/
theorem opened_of_finish {stats : Stats}
    (ends : ((finish : Evaluation F σ Stats).run.run session).Ends (.ok stats, session')) :
    session'.party.opened = {} := by
  obtain ⟨result, before, succeeds⟩ := exists_checkpoint ends
  cases result with
  | error e => cases succeeds
  | ok _ =>
      obtain checks | ⟨rfl, empty⟩ := checkpoint_cases before
      · exact opened_of_macCheck checks
      · exact (empty rfl).2

/-- **Nothing opened escapes the checks.**  Let a session of a party with nothing pending be called in
any way, with any batches, and let peers and network do anything.  Then the session drives, for each
call, at most the batch that it is about and a check.  Wherever the history of all these batches is
cut, the records that the protocols made until then are those that the checks have taken, in this order,
and those that are pending.  If the last call is to finish and succeeds, nothing is pending, nothing has failed, and
each check has confirmed all that it has taken. -/
theorem nothing_escapes {tasks : List (Task F)} {results : List (Except Error Unit)}
    (fresh : session.party.opened = {})
    (ends : ((tasks.mapM Task.perform : Sessional F σ _).run session).Ends (results, session')) :
    ∃ reports : List (Report F σ), reports.map (·.result) = results ∧
      List.Forall₂ Task.Admits tasks reports ∧
      session.Evolves (reports.flatMap (·.drives)) session' ∧
      Accounted session.party (reports.flatMap (·.drives)) session'.party ∧
      (tasks.getLast? = some .finish → results.getLast? = some (.ok ()) →
        Confirmed (reports.flatMap (·.drives)) session'.party) := by
  obtain ⟨reports, shown, within, evolves⟩ := Task.exists_reports ends
  refine ⟨reports, shown, within, evolves, evolves.accounted fresh, fun last succeeds => ?_⟩
  obtain ⟨result, between, shown, final⟩ := Task.exists_last last ends
  obtain rfl : result = .ok () := Option.some.inj (shown.symm.trans succeeds)
  obtain ⟨_, -, -, done⟩ := Task.conducts_perform .finish between _ session' final
  obtain ⟨given, finished, same⟩ := Task.ends_outcome.mp final
  cases given with
  | error e => cases same
  | ok stats => exact evolves.confirmed (done rfl).2 (opened_of_finish finished)

end Session

end Sessions

/-- A batch that opens a value beside a check, one that opens a value only, and the last check. -/
def openings : List (Session.Task .f251) :=
  [.runBatch [.openAll { share := 0 }, .macCheck {}], .runBatch [.openAll { share := 0 }], .finish]

/-- The first of three parties that have just begun can come to the end with all this, and then both
values are confirmed. -/
theorem Session.nothing_escapes_of_three :
    ∃ session session' : Session .f251 (Party.SimulatedSupplier .f251),
      session.HasBegun 3 {} 1 ∧ session.party.opened = {} ∧
      ((openings.mapM Task.perform : Sessional .f251 _ _).run session).Ends
        ([.ok (), .ok (), .ok ()], session') ∧
      ∃ reports : List (Report .f251 (Party.SimulatedSupplier .f251)),
        reports.map (·.result) = [.ok (), .ok (), .ok ()] ∧
        List.Forall₂ Task.Admits openings reports ∧
        session.Evolves (reports.flatMap (·.drives)) session' ∧
        Accounted session.party (reports.flatMap (·.drives)) session'.party ∧
        Confirmed (reports.flatMap (·.drives)) session'.party := by
  obtain ⟨T, begun⟩ := Session.exists_hasBegun .f251 (by decide : 1 ≤ 3)
    (rfl : ({} : Config).strategy = .simulated 0) fun i => Config.validate_default (by decide)
  obtain ⟨deck, parties, -, aligned⟩ := exists_deck_begun .f251 (by decide : 1 ≤ 3)
    (rfl : ({} : Config).strategy = .simulated 0)
  have first : IsMember 3 1 := ⟨by decide, by decide⟩
  have zero : deck.Authentic fun _ => 0 := IsSharing.zero.authentic
  obtain ⟨_, ⟨gates, T₁, rfl, aligned₁⟩, batch⟩ := ((aligned T begun).ensures_requests (.inl rfl)
    [.openAll fun _ => 0, .macCheck] (by simp [Request.Ready]) (by simp [Request.Authentic, zero])).ends
  obtain ⟨_, ⟨gates', T₂, rfl, aligned₂⟩, batch'⟩ := (aligned₁.ensures_requests (.inl rfl)
    [.openAll fun _ => 0] (by simp [Request.Ready]) (by simp [Request.Authentic, zero])).ends
  obtain ⟨_, ⟨stats, T₃, finished, -, -⟩, finish⟩ := aligned₂.ensures_finish.ends
  rw [parties] at batch batch' finished finish
  have fresh : (T 1).party.opened = {} := (begun 1 first).blank.2
  have ends : ((openings.mapM Task.perform : Sessional .f251 _ _).run (T 1)).Ends
      ([.ok (), .ok (), .ok ()], T₃ 1) := by
    refine ends_mapM_cons.mpr ⟨_, T₁ 1, _, ?_, ends_mapM_cons.mpr ⟨_, T₂ 1, _, ?_,
      ends_mapM_cons.mpr ⟨_, T₃ 1, [], ?_, .done _, rfl⟩, rfl⟩, rfl⟩
    · exact Exchange.ends_map.mpr ⟨_, batch 1 first, rfl⟩
    · exact Exchange.ends_map.mpr ⟨_, batch' 1 first, rfl⟩
    · exact Task.ends_outcome.mpr ⟨_, finished 1 first ▸ finish 1 first, rfl⟩
  obtain ⟨reports, shown, admits, evolves, accounted, confirmed⟩ := Session.nothing_escapes fresh ends
  exact ⟨T 1, T₃ 1, begun 1 first, fresh, ends, reports, shown, admits, evolves, accounted,
    confirmed rfl rfl⟩

end Spdz
