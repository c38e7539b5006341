import Spdz.Proofs.Evaluation.Threads
import Spdz.Proofs.Evaluation.Unfinished
import Spdz.Proofs.Evaluation.Verdict
import Spdz.Proofs.Gates.Pace

/-!
# The life of a protocol

A protocol of the library that is driven from new ends within its number of rounds, whatever the peers
send, whatever the supplier hands out and wherever it fails.  Until it is done it has no result, and
from then on it has one.  So every batch of such protocols comes to an end, and none of them is ever
found unfinished.

* `Library` — the types of the library's protocols, each as a kind of gate.
* `Gate.IsUnused` — gates as they are made.
* `Turn.OnTime` — a turn of a protocol with so many rounds.
* `Slot.Thread.onTime` — all calls of a protocol are on time, if it is unused at first.
* **`Library.life_cycle`** — the life of the protocols of a batch, and of those that a session runs.
-/

namespace Spdz

variable {F : FieldSpec} {σ P Out : Type}

/-! ## The library's protocols -/

/-- A type of protocols that are all gates of one kind, or of any kind. -/
class Library (F : FieldSpec) (σ P : Type) {Out : outParam Type} [Supplier F σ] [Protocol F σ P]
    [HasOutput P Out] where
  gate : P → Gate F
  embeds : Embeds (F := F) σ gate
  convert : Out → Output F
  output : ∀ p, HasOutput.output (gate p) = (HasOutput.output p).map convert

namespace Library

variable [Supplier F σ]

instance : Library F σ (Input F) := ⟨.input, fun _ _ => rfl, .share, fun _ => rfl⟩
instance : Library F σ (CheckedInput F) := ⟨.checkedInput, fun _ _ => rfl, .share, fun _ => rfl⟩
instance : Library F σ (Multiply F) := ⟨.multiply, fun _ _ => rfl, .share, fun _ => rfl⟩
instance : Library F σ (Reveal F) := ⟨.reveal, fun _ _ => rfl, .values, fun _ => rfl⟩
instance : Library F σ BroadcastValidation :=
  ⟨.validation, fun _ _ => rfl, fun _ => .unit, fun _ => rfl⟩
instance : Library F σ (Open F) := ⟨.openAll, fun _ _ => rfl, .value, fun _ => rfl⟩
instance : Library F σ (OpenTo F) := ⟨.openTo, fun _ _ => rfl, .target, fun _ => rfl⟩
instance : Library F σ (RandomElement F) := ⟨.element, fun _ _ => rfl, .share, fun _ => rfl⟩
instance : Library F σ (RandomBit F) := ⟨.bit, fun _ _ => rfl, .share, fun _ => rfl⟩
instance : Library F σ (ExpPipe F) := ⟨.pipe, fun _ _ => rfl, .shares, fun _ => rfl⟩
instance : Library F σ (KnownValue F) := ⟨.known, fun _ _ => rfl, .share, fun _ => rfl⟩
instance : Library F σ (MacCheck F) := ⟨.macCheck, fun _ _ => rfl, fun _ => .unit, fun _ => rfl⟩

instance : Library F σ (Gate F) where
  gate := id
  embeds round gate := (bind_pure ((Protocol.evaluate round : Round F σ (Gate F) Status).run gate)).symm
  convert := id
  output _ := (Option.map_id_apply).symm

end Library

namespace Gate

/-- **Unused.**  Gates as they are made. -/
def IsUnused : Gate F → Prop
  | input p => ∃ value inputter, p = .new value inputter
  | checkedInput p => ∃ value inputter, p = .new value inputter
  | multiply p => ∃ x y, p = { x, y }
  | reveal p => ∃ value, p = { value }
  | validation p => ∃ values, p = { values }
  | openAll p => ∃ share, p = { share }
  | openTo p => ∃ share target, p = { share, target }
  | element p => p = {}
  | bit p => p = {}
  | pipe p => ∃ length, p = { length }
  | known p => ∃ value, p = { value }
  | macCheck c => c = {}

variable {gate : Gate F}

theorem IsUnused.output_eq_none (unused : gate.IsUnused) : gate.output = none := by
  cases gate <;> simp only [IsUnused] at unused
  case element | bit | macCheck => rw [unused]; rfl
  case reveal | validation | openAll | pipe | known => obtain ⟨_, rfl⟩ := unused; rfl
  all_goals obtain ⟨_, _, rfl⟩ := unused; rfl

theorem IsUnused.due (unused : gate.IsUnused) (n : Nat) : gate.Due n (gate.rounds n) 0 := by
  cases gate with
  | macCheck c =>
      obtain rfl : c = {} := unused
      exact ⟨rfl, rfl⟩
  | _ => exact ⟨rfl, trivial⟩

theorem rounds_pos (n : Nat) (gate : Gate F) : 0 < gate.rounds n := by
  cases gate <;> simp only [rounds] <;> (try split) <;> decide

theorem rounds_le (n : Nat) (gate : Gate F) : gate.rounds n ≤ 9 := by
  cases gate <;> simp only [rounds] <;> (try split) <;> decide

end Gate

/-! ## Turns -/

namespace Turn

/-- **On time.**  The turn of a protocol with so many rounds.  Before it there is no result.  The protocol
is done if this is the last round, and then it has a result; otherwise it has none. -/
def OnTime [HasOutput P Out] (rounds : Nat) (t : Turn F σ P) : Prop :=
  t.round < rounds ∧ HasOutput.output t.before.1 = none ∧
    match t.result with
    | .ok .hasMoreRounds => t.round + 1 < rounds ∧ HasOutput.output t.after.1 = none
    | .ok .isDone => t.round + 1 = rounds ∧ (HasOutput.output t.after.1).isSome
    | .error e => e.OfRound ∧ HasOutput.output t.after.1 = none

/-- What the party of a chain is at first, and stays in each turn, it is in all turns and in the end. -/
theorem Chained.kept {I : Party F σ → Prop} {S S' : Party F σ} {turns : List (Turn F σ P)}
    (chained : Chained S turns S') (kept : ∀ t ∈ turns, I t.before.2 → I t.after.2) (start : I S) :
    (∀ t ∈ turns, I t.before.2) ∧ I S' := by
  induction turns generalizing S with
  | nil =>
      obtain rfl : S' = S := chained
      exact ⟨by simp, start⟩
  | cons t turns ih =>
      obtain ⟨rfl, later⟩ := chained
      obtain ⟨here, others⟩ := List.forall_mem_cons.mp kept
      obtain ⟨all, final⟩ := ih later others (here start)
      exact ⟨List.forall_mem_cons.mpr ⟨start, all⟩, final⟩

end Turn

section Library

variable [Supplier F σ] [Protocol F σ P] [HasOutput P Out] [library : Library F σ P]

open Library (gate)

namespace Library

variable (F σ) in
/-- The number of rounds that a protocol takes among so many parties. -/
def rounds (n : Nat) (p : P) : Nat := (gate (F := F) σ p).rounds n

theorem isSome_output (p : P) : (HasOutput.output (gate (F := F) σ p)).isSome
    = (HasOutput.output p).isSome := by
  rw [output, Option.isSome_map]

/-- A protocol without a result is a gate without one. -/
theorem output_eq_none_iff {p : P} :
    HasOutput.output (gate (F := F) σ p) = none ↔ HasOutput.output p = none := by
  rw [output, Option.map_eq_none_iff]

end Library

namespace Turn.Genuine

variable {t : Turn F σ P} {n rounds : Nat}

/-- A turn of a protocol is one of a gate. -/
theorem ends_gate (genuine : t.Genuine) :
    (((Gate.evaluate t.round : Round F σ _ _).run (gate σ t.before.1)).run t.before.2).Ends
      ((t.result, gate σ t.after.1), t.after.2) := by
  have same := (Library.embeds (F := F) (σ := σ)).evaluate t.round t.before.1
  refine (congrArg (fun x => Exchange.Ends (x.run t.before.2) _) same).mpr ?_
  rw [StateT.run_map]
  exact Exchange.ends_map.mpr ⟨_, genuine, rfl⟩

include library in
theorem settings (genuine : t.Genuine) : t.after.2.settings = t.before.2.settings := by
  have paced := Gate.paces t.round (gate σ t.before.1) t.result (gate σ t.after.1) t.after.2 genuine.ends_gate
  cases result : t.result with
  | error e =>
      rw [result] at paced
      exact paced.2.1
  | ok status =>
      rw [result] at paced
      exact paced.1

include library in
/-- A turn fails with an error that rounds have. -/
theorem ofRound (genuine : t.Genuine) {e : Error} (failed : t.result = .error e) : e.OfRound := by
  have paced := Gate.paces t.round (gate σ t.before.1) t.result (gate σ t.after.1) t.after.2
    genuine.ends_gate
  rw [failed] at paced
  exact paced.1

/-- **A turn that is due is on time**, and leaves the protocol in a state that is due in the next round. -/
theorem onTime (genuine : t.Genuine) (parties : t.before.2.parties = n)
    (due : (gate (F := F) σ t.before.1).Due n rounds t.round) (early : t.round < rounds)
    (nothing : HasOutput.output t.before.1 = none) :
    t.OnTime rounds ∧ (t.result = .ok .hasMoreRounds → t.round + 1 < rounds ∧
      (gate (F := F) σ t.after.1).Due n rounds (t.round + 1) ∧
        HasOutput.output t.after.1 = none) := by
  have paced := Gate.paces t.round (gate σ t.before.1) t.result (gate σ t.after.1) t.after.2 genuine.ends_gate
  have silent : HasOutput.output (gate (F := F) σ t.before.1) = none :=
    Library.output_eq_none_iff.mpr nothing
  rw [parties, due.1] at paced
  rw [Turn.OnTime]
  cases result : t.result with
  | error e =>
      rw [result] at paced
      obtain ⟨ofRound, -, same⟩ := paced
      exact ⟨⟨early, nothing, ofRound, Library.output_eq_none_iff.mp (same.trans silent)⟩, nofun⟩
  | ok status =>
      rw [result] at paced
      obtain ⟨-, after⟩ := paced
      cases status with
      | hasMoreRounds =>
          obtain ⟨more, next⟩ := after.2 due
          have still := Library.output_eq_none_iff.mp (after.1.trans silent)
          exact ⟨⟨early, nothing, more, still⟩, fun _ => ⟨more, next, still⟩⟩
      | isDone =>
          have shown := (Library.isSome_output t.after.1).symm.trans after.1
          exact ⟨⟨early, nothing, after.2 due, shown⟩, nofun⟩

end Turn.Genuine

/-! ## Threads -/

namespace Slot

variable {limit n rounds round k : Nat} {slot slot' : Slot P} {slots slots' : List (Slot P)}
  {calls turns : List (Turn F σ P)} {S S' : Party F σ}

/-- **All calls of a protocol are on time**, if it is in a state that is due and has no result at first.
In the end it has a result if it is done. -/
theorem Thread.onTime (thread : Thread round slot calls slot') (genuine : ∀ t ∈ calls, t.Genuine)
    (parties : ∀ t ∈ calls, t.before.2.parties = n) (active : slot.active)
    (due : (gate (F := F) σ slot.protocol).Due n rounds round) (early : round < rounds)
    (nothing : HasOutput.output slot.protocol = none) :
    (∀ t ∈ calls, t.OnTime rounds) ∧
      (HasOutput.output slot'.protocol).isSome = !slot'.active := by
  induction thread with
  | rest => exact ⟨by simp, by rw [nothing, active]; rfl⟩
  | fails failed =>
      obtain ⟨onTime, -⟩ := (genuine _ (List.mem_singleton_self _)).onTime
        (parties _ (List.mem_singleton_self _)) due early nothing
      refine ⟨List.forall_mem_singleton.mpr onTime, ?_⟩
      obtain ⟨-, -, after⟩ := onTime
      rw [failed] at after
      rw [after.2]
      rfl
  | finishes isDone =>
      obtain ⟨onTime, -⟩ := (genuine _ (List.mem_singleton_self _)).onTime
        (parties _ (List.mem_singleton_self _)) due early nothing
      refine ⟨List.forall_mem_singleton.mpr onTime, ?_⟩
      obtain ⟨-, -, after⟩ := onTime
      rw [isDone] at after
      exact after.2
  | more goesOn _ ih =>
      obtain ⟨first, others⟩ := List.forall_mem_cons.mp genuine
      obtain ⟨here, there⟩ := List.forall_mem_cons.mp parties
      obtain ⟨onTime, next⟩ := first.onTime here due early nothing
      obtain ⟨more, due', still⟩ := next goesOn
      obtain ⟨all, final⟩ := ih others there rfl due' more still
      exact ⟨List.forall_mem_cons.mpr ⟨onTime, all⟩, final⟩

omit [Supplier F σ] [Protocol F σ P] [Library F σ P] in
/-- A protocol that is done in the end has had as many calls as it takes rounds. -/
theorem Thread.length_eq (thread : Thread 0 slot calls slot') (active : slot.active)
    (finished : slot'.active = false) (onTime : ∀ t ∈ calls, t.OnTime rounds) :
    calls.length = rounds := by
  have last := List.mem_of_getLast? (thread.getLast_results active finished)
  obtain ⟨t, among, isDone⟩ := List.mem_map.mp last
  obtain ⟨-, -, after⟩ := onTime t among
  rw [isDone] at after
  have counted := thread.round_lt among
  by_contra different
  obtain ⟨u, within, late⟩ := thread.exists_call (k := rounds) (by omega)
  have early := (onTime u within).1
  omega

variable {result : Except Error Nat}

include library in
theorem Drives.settings (drives : Drives limit round slots S turns result slots' S') :
    (∀ t ∈ turns, t.before.2.settings = S.settings) ∧ S'.settings = S.settings :=
  drives.chained.kept (I := fun T => T.settings = S.settings)
    (fun t among same => (drives.genuine t among).settings.trans same) rfl

include library in
/-- A batch of the library's protocols fails with an error that rounds have, or for having too many
rounds. -/
theorem Drives.ofRound {e : Error} (drives : Drives limit round slots S turns (.error e) slots' S') :
    e.OfRound ∨ e = .tooManyRounds := by
  obtain ⟨earlier, last, rfl, failed, -⟩ | ⟨spent, -⟩ := drives.of_error
  · exact .inl ((drives.genuine last (by simp)).ofRound failed)
  · exact .inr spent

variable {protocols : List P} {p : P}

/-- **All calls of an unused protocol of a batch are on time.** -/
theorem Drives.onTime
    (drives : Drives limit 0 (protocols.map fun protocol => { protocol }) S turns result slots' S')
    (here : protocols[k]? = some p) (unused : (gate (F := F) σ p).IsUnused) :
    ∃ slot', slots'[k]? = some slot' ∧ Thread 0 { protocol := p } (Turn.callsOf k turns) slot' ∧
      (∀ t ∈ Turn.callsOf k turns, t.OnTime (Library.rounds F σ S.parties p)) ∧
        (HasOutput.output slot'.protocol).isSome = !slot'.active := by
  have first : (protocols.map fun protocol => ({ protocol } : Slot P))[k]? = some { protocol := p } := by
    rw [List.getElem?_map, here, Option.map_some]
  obtain ⟨slot', there, thread⟩ := drives.exists_thread first
  have among : ∀ t ∈ Turn.callsOf k turns, t ∈ turns := fun t call => (Turn.mem_callsOf.mp call).1
  obtain ⟨onTime, final⟩ := thread.onTime (fun t call => drives.genuine t (among t call))
    (fun t call => Party.parties_eq (drives.settings.1 t (among t call))) rfl (unused.due S.parties)
    (Gate.rounds_pos S.parties _) (Library.output_eq_none_iff.mp unused.output_eq_none)
  exact ⟨slot', there, thread, onTime, final⟩

/-- A batch of unused protocols that fails does so in a turn, since none of them takes ten rounds. -/
theorem Drives.exists_failed {e : Error}
    (drives : Drives limit 0 (protocols.map fun protocol => { protocol }) S turns (.error e) slots' S')
    (unused : ∀ p ∈ protocols, (gate (F := F) σ p).IsUnused) (enough : 9 < limit) :
    ∃ earlier last, turns = earlier ++ [last] ∧ last.result = .error e ∧
      ∀ t ∈ earlier, ∃ status, t.result = .ok status := by
  obtain failed | ⟨-, -, spent⟩ := drives.of_error
  · exact failed
  · exfalso
    obtain rfl | ⟨t, among, late⟩ := spent
    · exact absurd enough (by decide)
    · have within := drives.position_lt t among
      rw [List.length_map] at within
      have here := List.getElem?_eq_getElem within
      obtain ⟨-, -, -, onTime, -⟩ := drives.onTime here (unused _ (List.getElem_mem within))
      have early := (onTime t (Turn.mem_callsOf.mpr ⟨among, rfl⟩)).1
      have few := Gate.rounds_le S.parties (gate (F := F) σ protocols[t.position])
      rw [Library.rounds] at early
      omega

end Slot

/-! ## Sessions -/

theorem Error.OfRound.ne_unfinished {e : Error} (ofRound : e.OfRound) (name : String) :
    e ≠ .unfinished name := by
  rintro rfl
  exact ofRound

include library in
theorem Library.delivers : Protocol.Delivers F σ P := by
  intro round p S p' S' ends
  have genuine : Turn.Genuine (F := F) ⟨round, 0, (p, S), .ok .isDone, (p', S')⟩ := ends
  rw [← isSome_output (F := F) (σ := σ)]
  exact Gate.delivers round _ S _ S' genuine.ends_gate

namespace Session

variable {session session' : Session F σ} {protocols protocols' : List P} {e : Error}

include library in
theorem ne_unfinished_of_drive
    (fails : ((drive protocols).run session).Ends ((.error e, protocols'), session')) (name : String) :
    e ≠ .unfinished name := by
  obtain ⟨e', stopped, failed, -⟩ | ⟨-, turns, slots, S, history, -⟩ := exists_driven fails
  · obtain ⟨cause, -, rfl⟩ := Option.map_eq_some_iff.mp stopped
    cases failed
    nofun
  · obtain ofRound | rfl := history.ofRound
    · exact ofRound.ne_unfinished name
    · nofun

include library in
theorem ne_unfinished_of_runBatch
    (fails : ((runBatch protocols).run session).Ends ((.error e, protocols'), session')) (name : String) :
    e ≠ .unfinished name := by
  obtain ⟨outcome, between, batch, after⟩ := runBatch_cases fails
  cases outcome with
  | error e' =>
      obtain ⟨same, -⟩ := after
      cases same
      exact ne_unfinished_of_drive batch name
  | ok rounds =>
      dsimp only at after
      split_ifs at after with due
      · -- the check that was due has failed
        obtain ⟨outcome, checks, _, check, verdict⟩ := macCheck_cases after
        cases outcome with
        | error e' =>
            obtain ⟨same, -⟩ := verdict
            cases same
            exact ne_unfinished_of_drive check name
        | ok _ => cases verdict.1
      · cases after.1

theorem run_not_unfinished {p : P} {name : String} :
    ¬ ((run p : Evaluation F σ Out).run.run session).Ends (.error (.unfinished name), session') := by
  intro ends
  rw [run_run] at ends
  obtain ⟨⟨⟨outcome, protocols'⟩, _⟩, batch, same⟩ := Exchange.ends_bind.mp ends
  cases outcome with
  | error e =>
      cases same
      exact ne_unfinished_of_runBatch batch name rfl
  | ok _ =>
      obtain ⟨q, rfl⟩ := List.length_eq_one_iff.mp (Errand.length_of_runBatch batch)
      have shown := Errand.delivered_of_runBatch Library.delivers batch q (List.mem_singleton_self q)
      have missing : outputOf q = .error (.unfinished name) :=
        (congrArg Prod.fst (Exchange.ends_pure.mp same)).symm
      rw [(Errand.outputOf_eq_error missing).1] at shown
      cases shown

theorem runAll_not_unfinished {name : String} :
    ¬ ((runAll protocols : Evaluation F σ (List Out)).run.run session).Ends
      (.error (.unfinished name), session') := by
  intro ends
  rw [run_runAll] at ends
  obtain ⟨⟨⟨outcome, protocols'⟩, _⟩, batch, same⟩ := Exchange.ends_bind.mp ends
  cases outcome with
  | error e =>
      cases same
      exact ne_unfinished_of_runBatch batch name rfl
  | ok _ =>
      have missing : protocols'.mapM outputOf = .error (.unfinished name) :=
        (congrArg Prod.fst (Exchange.ends_pure.mp same)).symm
      obtain ⟨q, among, none, -⟩ := Errand.mapM_outputOf_eq_error missing
      have shown := Errand.delivered_of_runBatch Library.delivers batch q among
      rw [none] at shown
      cases shown

end Session

/-- **The life of a protocol.**  Let a batch of unused protocols of the library be driven, with peers,
network and supplier doing anything, and let there be a limit of ten rounds or more.  Each protocol is
called with the rounds from 0 on, and in none that it does not take.  Before it is done it has no
result, and when it is done, which is in its last round, it has one.  If the batch succeeds, each
protocol has had all its rounds, and the batch has had as many as the longest.  If it fails, it is
because a call of a protocol has failed, never for having too many rounds.  So when a session runs
protocols of the library it never finds one unfinished. -/
theorem Library.life_cycle :
    (∀ (protocols : List P) (S S' : Party F σ) (limit : Nat) (result : Except Error Nat)
        (slots' : List (Slot P)), (∀ p ∈ protocols, (gate (F := F) σ p).IsUnused) → 9 < limit →
      ((Slot.driveFrom limit 0 (protocols.map fun protocol => { protocol })).run S).Ends
        ((result, slots'), S') →
      ∃ turns, Slot.Drives limit 0 (protocols.map fun protocol => { protocol }) S turns result slots' S' ∧
        (∀ k p, protocols[k]? = some p → HasOutput.output p = none ∧
          ∃ slot', slots'[k]? = some slot' ∧
            Slot.Thread 0 { protocol := p } (Turn.callsOf k turns) slot' ∧
            (∀ t ∈ Turn.callsOf k turns, t.OnTime (Library.rounds F σ S.parties p)) ∧
            (HasOutput.output slot'.protocol).isSome = !slot'.active ∧
            (result.isOk → slot'.active = false ∧
              (Turn.callsOf k turns).length = Library.rounds F σ S.parties p)) ∧
        match result with
        | .ok number =>
          number = (Finset.range protocols.length).sup fun k => (Turn.callsOf k turns).length
        | .error e => e.OfRound ∧ ∃ earlier last, turns = earlier ++ [last] ∧
          last.result = .error e ∧ ∀ t ∈ earlier, ∃ status, t.result = .ok status) ∧
    ∀ (session session' : Session F σ) (name : String),
      (∀ p : P, ¬ ((Session.run p : Evaluation F σ Out).run.run session).Ends
        (.error (.unfinished name), session')) ∧
      ∀ protocols : List P, ¬ ((Session.runAll protocols : Evaluation F σ (List Out)).run.run session).Ends
        (.error (.unfinished name), session') := by
  refine ⟨fun protocols S S' limit result slots' unused enough ends => ?_,
    fun _ _ _ => ⟨fun _ => Session.run_not_unfinished, fun _ => Session.runAll_not_unfinished⟩⟩
  · obtain ⟨turns, history⟩ := Slot.exists_drives ends
    refine ⟨turns, history, fun k p here => ?_, ?_⟩
    · have new := unused p (List.mem_of_getElem? here)
      obtain ⟨slot', there, thread, onTime, final⟩ := history.onTime here new
      refine ⟨Library.output_eq_none_iff.mp new.output_eq_none, slot', there, thread, onTime, final, ?_⟩
      intro succeeds
      cases result with
      | error e => cases succeeds
      | ok number =>
          have finished := history.active_eq_false slot' (List.mem_of_getElem? there)
          exact ⟨finished, thread.length_eq rfl finished onTime⟩
    · cases result with
      | ok number => exact history.rounds_eq.trans (by rw [List.length_map])
      | error e =>
          obtain ⟨earlier, last, rfl, failed, succeed⟩ := history.exists_failed unused enough
          exact ⟨(history.genuine last (by simp)).ofRound failed, earlier, last, rfl, failed, succeed⟩

end Library

/-- Gates that share a constant and open a share of zero. -/
def constantAndOpening : List (Gate .f251) := [.known { value := 1 }, .openAll { share := 0 }]

/-- One of two parties, to which the other one sends a share of one, is done with the constant after one
round and with the opening after two. -/
theorem drives_constantAndOpening (limit : Nat) : ∃ turns slots' S',
    Slot.Drives (limit + 3) 0 (constantAndOpening.map fun protocol => { protocol }) (MacCheck.idleParty 1)
      turns (.ok 2) slots' S' ∧ S'.opened.size = 1 ∧ S'.config = {} := by
  have constant : Turn.Genuine (F := .f251) (P := Gate .f251)
      ⟨0, 0, (.known { value := 1 }, MacCheck.idleParty 1), .ok .isDone,
        (.known { value := 1, output := some (.ofPublic 1 0 1) }, MacCheck.idleParty 1)⟩ := .done _
  have sends : Turn.Genuine (F := .f251) (P := Gate .f251)
      ⟨0, 1, (.openAll { share := 0 }, MacCheck.idleParty 1), .ok .hasMoreRounds,
        (.openAll { share := 0 }, MacCheck.idleParty 1)⟩ := .call (.ok ()) (.done _)
  have opens : Turn.Genuine (F := .f251) (P := Gate .f251)
      ⟨1, 1, (.openAll { share := 0 }, MacCheck.idleParty 1), .ok .isDone,
        (.openAll { share := 0, output := some 1 },
          { MacCheck.idleParty 1 with opened := ⟨[⟨0, 1⟩]⟩ })⟩ :=
    .call (.ok [(2, Elem.encodeList [(1 : Elem .f251)])]) (.done _)
  exact ⟨_, _, _, .more rfl (.turn constant (.turn sends (.nil _ _)))
    (.more rfl (.idle (.turn opens (.nil _ _))) (.done rfl)), rfl, rfl⟩

/-- Within ten rounds, both have all the rounds that they take. -/
theorem Library.life_cycle_of_two :
    (∀ gate ∈ constantAndOpening, gate.IsUnused) ∧ ∃ slots' S' turns,
      ((Slot.driveFrom 10 0 (constantAndOpening.map fun protocol => { protocol })).run
        (MacCheck.idleParty 1)).Ends ((.ok 2, slots'), S') ∧
      Slot.Drives 10 0 (constantAndOpening.map fun protocol => { protocol }) (MacCheck.idleParty 1) turns
        (.ok 2) slots' S' ∧ (Turn.callsOf 0 turns).length = 1 ∧ (Turn.callsOf 1 turns).length = 2 := by
  have unused : ∀ gate ∈ constantAndOpening, gate.IsUnused := by
    simp [constantAndOpening, Gate.IsUnused]
  obtain ⟨_, slots', S', history, -, -⟩ := drives_constantAndOpening 7
  obtain ⟨turns, drives, lives, -⟩ := life_cycle.1 constantAndOpening _ _ 10 _ _ unused (by decide)
    history.ends
  obtain ⟨-, _, -, -, -, -, first⟩ := lives 0 _ rfl
  obtain ⟨-, _, -, -, -, -, second⟩ := lives 1 _ rfl
  exact ⟨unused, slots', S', turns, history.ends, drives, (first rfl).2, (second rfl).2⟩

end Spdz
