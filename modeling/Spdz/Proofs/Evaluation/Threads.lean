import Mathlib.Data.Finset.Lattice.Fold
import Mathlib.Order.Interval.Finset.Nat
import Mathlib.Order.Lattice.Nat
import Spdz.Proofs.Evaluation.Histories

/-!
# The calls of each protocol

A batch calls its protocols in turn, one round after the other.  Seen from one of them this is a thread
of calls: it is called with one round number after the next, each time as the call before has left it,
until it is done or the batch breaks off.

* `Turn.Precedes`, **`Slot.Drives.inOrder`** — all calls of a batch are in order.
* `Turn.callsOf`, `Slot.Thread` — the calls of one protocol, as a thread.
* **`Slot.Drives.exists_thread`** — the calls of each protocol of a batch are a thread.
* `Slot.Drives.of_ok`, `Slot.Drives.of_error` — where a batch stops.
* **`Slot.Drives.rounds_eq`** — a batch takes as many rounds as its longest thread.
* `Slot.Schedule`, `Slot.History` — how the protocols of a batch are called, and what comes of it.
* **`Slot.History.schedule`** — every batch keeps to the schedule.
-/

namespace Spdz

variable {F : FieldSpec} {σ P : Type}

/-! ## Order -/

namespace Turn

/-- **Precedes.**  The turn is of an earlier round, or of the same round and a protocol that stands
before the other one. -/
def Precedes (t u : Turn F σ P) : Prop :=
  t.round < u.round ∨ t.round = u.round ∧ t.position < u.position

/-- The turns of the protocol at a position. -/
def callsOf (k : Nat) (turns : List (Turn F σ P)) : List (Turn F σ P) :=
  turns.filter fun t => t.position = k

variable {k : Nat} {t : Turn F σ P} {turns others : List (Turn F σ P)}

theorem mem_callsOf : t ∈ callsOf k turns ↔ t ∈ turns ∧ t.position = k := by
  simp [callsOf]

theorem callsOf_append : callsOf k (turns ++ others) = callsOf k turns ++ callsOf k others :=
  List.filter_append _ _

theorem callsOf_eq_nil (elsewhere : ∀ t ∈ turns, t.position ≠ k) : callsOf k turns = [] :=
  List.filter_eq_nil_iff.mpr fun t among => by simpa using elsewhere t among

theorem callsOf_cons_self (here : t.position = k) (elsewhere : ∀ u ∈ turns, u.position ≠ k) :
    callsOf k (t :: turns) = [t] := by
  have others : turns.filter (fun u => decide (u.position = k)) = [] := callsOf_eq_nil elsewhere
  rw [callsOf, List.filter_cons_of_pos (by simpa using here), others]

theorem callsOf_cons_of_ne (elsewhere : t.position ≠ k) :
    callsOf k (t :: turns) = callsOf k turns :=
  List.filter_cons_of_neg (by simpa using elsewhere)

end Turn

namespace Slot

open Turn (callsOf)

/-! ## Threads -/

/-- **Thread.**  The calls of a slot from a round on.  A protocol that is active is called with this
round and, as long as it has more rounds, with the next; each call finds it as the one before has left
it.  It may be left at any point, and when it is done or has failed there is no other call. -/
inductive Thread : (round : Nat) → Slot P → List (Turn F σ P) → Slot P → Prop where
  | rest (round : Nat) (slot : Slot P) : Thread round slot [] slot
  | fails {t : Turn F σ P} {e : Error} (failed : t.result = .error e) :
    Thread t.round ⟨t.before.1, true⟩ [t] ⟨t.after.1, true⟩
  | finishes {t : Turn F σ P} (isDone : t.result = .ok .isDone) :
    Thread t.round ⟨t.before.1, true⟩ [t] ⟨t.after.1, false⟩
  | more {t : Turn F σ P} {calls : List (Turn F σ P)} {slot : Slot P}
      (goesOn : t.result = .ok .hasMoreRounds)
      (later : Thread (t.round + 1) ⟨t.after.1, true⟩ calls slot) :
    Thread t.round ⟨t.before.1, true⟩ (t :: calls) slot

namespace Thread

variable {round : Nat} {slot slot' : Slot P} {calls : List (Turn F σ P)} {t : Turn F σ P}

/-- A protocol that is done is not called. -/
theorem of_idle {p : P} (thread : Thread round ⟨p, false⟩ calls slot') :
    calls = [] ∧ slot' = ⟨p, false⟩ := by
  cases thread
  exact ⟨rfl, rfl⟩

/-- The calls are numbered without a gap. -/
theorem map_round (thread : Thread round slot calls slot') :
    calls.map (·.round) = List.range' round calls.length := by
  induction thread with
  | rest | fails | finishes => rfl
  | @more t _ _ _ _ ih => exact congrArg (t.round :: ·) ih

theorem round_lt (thread : Thread round slot calls slot') (among : t ∈ calls) :
    t.round < round + calls.length := by
  have numbered : t.round ∈ List.range' round calls.length :=
    thread.map_round ▸ List.mem_map_of_mem among
  have bounds := List.mem_range'_1.mp numbered
  omega

theorem exists_call (thread : Thread round slot calls slot') {k : Nat} (within : k < calls.length) :
    ∃ t ∈ calls, t.round = round + k := by
  have numbered : round + k ∈ calls.map (·.round) := by
    rw [thread.map_round]
    exact List.mem_range'_1.mpr ⟨by omega, by omega⟩
  exact List.mem_map.mp numbered

/-- Until the last call the protocol has more rounds. -/
theorem dropLast_results (thread : Thread round slot calls slot') :
    (calls.map (·.result)).dropLast = List.replicate (calls.length - 1) (.ok .hasMoreRounds) := by
  induction thread with
  | rest | fails | finishes => rfl
  | @more t calls _ goesOn _ ih =>
      cases calls with
      | nil => rfl
      | cons u calls =>
          rw [List.map_cons, List.map_cons, List.dropLast_cons_cons, ← List.map_cons, ih, goesOn]
          rfl

/-- A protocol that is active at first and not in the end is done with its last call. -/
theorem getLast_results (thread : Thread round slot calls slot') (first : slot.active)
    (last : slot'.active = false) : (calls.map (·.result)).getLast? = some (.ok .isDone) := by
  induction thread with
  | rest => exact absurd (first.symm.trans last) (by decide)
  | fails => cases last
  | finishes isDone => simp [isDone]
  | @more t calls _ _ _ ih =>
      have final := ih rfl last
      rw [List.map_cons, List.getLast?_cons, final]
      rfl

end Thread

/-! ## Rounds -/

variable [Protocol F σ P] {limit round position k : Nat} {slots slots' : List (Slot P)}
  {S S' : Party F σ} {turns : List (Turn F σ P)} {slot : Slot P}

/-- How a slot is called in a round that ends with the given result. -/
inductive Called (round : Nat) (result : Except Error Unit) :
    Slot P → List (Turn F σ P) → Slot P → Prop where
  | idle (p : P) : Called round result ⟨p, false⟩ [] ⟨p, false⟩
  /-- The round has failed before it came to the slot. -/
  | missed (slot : Slot P) (failed : ∃ e, result = .error e) : Called round result slot [] slot
  | fails {t : Turn F σ P} {e : Error} (inRound : t.round = round) (failed : t.result = .error e)
      (whole : result = .error e) : Called round result ⟨t.before.1, true⟩ [t] ⟨t.after.1, true⟩
  | turn {t : Turn F σ P} {status : Status} (inRound : t.round = round)
      (succeeds : t.result = .ok status) :
    Called round result ⟨t.before.1, true⟩ [t] ⟨t.after.1, status == .hasMoreRounds⟩

namespace Advances

variable {result : Except Error Unit}

theorem position_lt (advances : Advances round position slots S turns result slots' S') :
    ∀ t ∈ turns, t.position < position + slots.length := by
  induction advances with
  | nil => simp
  | fails => simp
  | idle _ ih => exact fun t among => by have := ih t among; simp only [List.length_cons]; omega
  | turn _ _ ih =>
      refine List.forall_mem_cons.mpr ⟨by simp, fun t among => ?_⟩
      have := ih t among
      simp only [List.length_cons]
      omega

/-- **Each slot is called at most once in a round.** -/
theorem exists_called (advances : Advances round position slots S turns result slots' S')
    (here : slots[k]? = some slot) :
    ∃ slot', slots'[k]? = some slot' ∧
      Called round result slot (callsOf (position + k) turns) slot' := by
  induction advances generalizing k with
  | nil => cases here
  | @idle position _ _ _ _ _ _ _ others ih =>
      cases k with
      | zero =>
          cases here
          refine ⟨_, rfl, ?_⟩
          rw [Turn.callsOf_eq_nil fun t among => by
            have := (others.placed t among).2
            omega]
          exact .idle _
      | succ k =>
          rw [show position + (k + 1) = position + 1 + k by omega]
          exact ih here
  | @fails position _ _ _ _ _ e _ =>
      cases k with
      | zero =>
          cases here
          refine ⟨_, rfl, ?_⟩
          rw [Nat.add_zero, Turn.callsOf_cons_self (k := position) rfl (by simp)]
          exact .fails (t := ⟨round, position, (_, _), .error e, (_, _)⟩) rfl rfl rfl
      | succ k =>
          refine ⟨slot, here, ?_⟩
          rw [Turn.callsOf_cons_of_ne (by simp only; omega)]
          exact .missed slot ⟨e, rfl⟩
  | @turn position _ _ _ _ _ _ _ _ status _ _ others ih =>
      cases k with
      | zero =>
          cases here
          refine ⟨_, rfl, ?_⟩
          rw [Nat.add_zero, Turn.callsOf_cons_self (k := position) rfl fun u among => by
            have := (others.placed u among).2
            omega]
          exact .turn (t := ⟨round, position, (_, _), .ok status, (_, _)⟩) rfl rfl
      | succ k =>
          rw [Turn.callsOf_cons_of_ne (by simp only; omega)]
          rw [show position + (k + 1) = position + 1 + k by omega]
          exact ih here

/-- A round that fails ends with the turn that fails. -/
theorem exists_failed {e : Error}
    (advances : Advances round position slots S turns (.error e) slots' S') :
    ∃ earlier last, turns = earlier ++ [last] ∧ last.result = .error e ∧
      ∀ t ∈ earlier, ∃ status, t.result = .ok status := by
  generalize outcome : (.error e : Except Error Unit) = result at advances
  induction advances with
  | nil => cases outcome
  | idle _ ih => exact ih outcome
  | fails =>
      cases outcome
      exact ⟨[], _, rfl, rfl, by simp⟩
  | turn _ _ ih =>
      obtain ⟨earlier, last, rfl, failed, succeed⟩ := ih outcome
      exact ⟨_ :: earlier, last, rfl, failed, List.forall_mem_cons.mpr ⟨⟨_, rfl⟩, succeed⟩⟩

/-- In a round that succeeds there is a turn, if a slot is active. -/
theorem exists_mem (advances : Advances round position slots S turns (.ok ()) slots' S')
    (active : slots.any (·.active)) : ∃ t ∈ turns, t.round = round := by
  obtain ⟨⟨p, _⟩, among, isActive⟩ := List.any_eq_true.mp active
  obtain rfl : _ = true := isActive
  obtain ⟨k, here⟩ := List.mem_iff_getElem?.mp among
  obtain ⟨t, within, -⟩ := advances.exists_turn here
  exact ⟨t, within, (advances.placed t within).1⟩

end Advances

/-! ## Batches -/

namespace Drives

variable {result : Except Error Nat}

/-- **The calls of a batch are in order**: every call of a round is made before those of later rounds,
and in each round the calls follow the order of the batch. -/
theorem inOrder (drives : Drives limit round slots S turns result slots' S') :
    turns.Pairwise Turn.Precedes := by
  have withinRound {round : Nat} {slots slots' : List (Slot P)} {S S' : Party F σ}
      {turns : List (Turn F σ P)} {result : Except Error Unit}
      (advances : Advances round 0 slots S turns result slots' S') : turns.Pairwise Turn.Precedes := by
    refine advances.ordered.imp_of_mem fun {t u} first second before => .inr ⟨?_, before⟩
    exact (advances.placed t first).1.trans (advances.placed u second).1.symm
  induction drives with
  | spent | done => exact .nil
  | fails _ advances => exact withinRound advances
  | more _ advances later ih =>
      refine List.pairwise_append.mpr ⟨withinRound advances, ih, fun t first u second => .inl ?_⟩
      have here := (advances.placed t first).1
      have there := later.round_le u second
      omega

theorem position_lt (drives : Drives limit round slots S turns result slots' S') :
    ∀ t ∈ turns, t.position < slots.length := by
  induction drives with
  | spent | done => simp
  | fails _ advances => simpa using advances.position_lt
  | more _ advances _ ih =>
      rw [advances.length] at ih
      exact List.forall_mem_append.mpr ⟨by simpa using advances.position_lt, ih⟩

/-- **The calls of each protocol of a batch are a thread.** -/
theorem exists_thread (drives : Drives limit round slots S turns result slots' S')
    (here : slots[k]? = some slot) :
    ∃ slot', slots'[k]? = some slot' ∧ Thread round slot (callsOf k turns) slot' := by
  induction drives generalizing slot with
  | spent round slots S => exact ⟨slot, here, .rest round slot⟩
  | @done _ round => exact ⟨slot, here, .rest round slot⟩
  | fails _ advances =>
      obtain ⟨slot', there, called⟩ := advances.exists_called here
      refine ⟨slot', there, ?_⟩
      rw [Nat.zero_add] at called
      generalize callsOf k _ = calls at called
      cases called with
      | idle | missed => exact .rest _ _
      | fails inRound failed => exact inRound ▸ .fails failed
      | @turn t status inRound succeeds =>
          cases status with
          | hasMoreRounds => exact inRound ▸ .more succeeds (.rest _ _)
          | isDone => exact inRound ▸ .finishes succeeds
  | more _ advances later ih =>
      obtain ⟨slot', between, called⟩ := advances.exists_called here
      obtain ⟨slot'', there, thread⟩ := ih between
      refine ⟨slot'', there, ?_⟩
      rw [Turn.callsOf_append]
      rw [Nat.zero_add] at called
      generalize callsOf k _ = calls at called
      -- a protocol that is done with this round has no calls in later ones
      cases called with
      | idle =>
          obtain ⟨nothing, rfl⟩ := thread.of_idle
          rw [nothing]
          exact .rest _ _
      | missed _ failed => exact absurd failed nofun
      | fails _ _ whole => cases whole
      | @turn t status inRound succeeds =>
          subst inRound
          cases status with
          | hasMoreRounds => exact .more succeeds thread
          | isDone =>
              obtain ⟨nothing, rfl⟩ := thread.of_idle
              rw [nothing]
              exact .finishes succeeds

/-- A place of the batch has a thread, and any other has no calls. -/
theorem callsOf_cases (drives : Drives limit round slots S turns result slots' S') (k : Nat) :
    callsOf k turns = [] ∨ ∃ slot slot', Thread round slot (callsOf k turns) slot' := by
  cases here : slots[k]? with
  | some slot =>
      obtain ⟨slot', -, thread⟩ := drives.exists_thread here
      exact .inr ⟨slot, slot', thread⟩
  | none =>
      refine .inl (Turn.callsOf_eq_nil fun t among => ?_)
      have within := drives.position_lt t among
      have beyond := List.getElem?_eq_none_iff.mp here
      omega

/-- In a batch that succeeds, all protocols are done in the end. -/
theorem active_eq_false {rounds : Nat}
    (drives : Drives limit round slots S turns (.ok rounds) slots' S') :
    ∀ slot ∈ slots', slot.active = false := by
  generalize outcome : (.ok rounds : Except Error Nat) = result at drives
  induction drives with
  | spent | fails => cases outcome
  | done idle => exact fun slot among => Bool.not_eq_true _ ▸ List.any_eq_false.mp idle slot among
  | more _ _ _ ih => exact ih outcome

/-- Where a batch that succeeds stops. -/
theorem of_ok {rounds : Nat} (drives : Drives limit round slots S turns (.ok rounds) slots' S') :
    round ≤ rounds ∧ (∀ t ∈ turns, t.round < rounds) ∧
      (round < rounds → ∃ t ∈ turns, t.round + 1 = rounds) := by
  generalize outcome : (.ok rounds : Except Error Nat) = result at drives
  induction drives with
  | spent | fails => cases outcome
  | done =>
      cases outcome
      exact ⟨Nat.le_refl _, by simp, fun less => absurd less (Nat.lt_irrefl _)⟩
  | @more _ round _ _ _ _ _ _ turns others _ active advances later ih =>
      obtain ⟨atLeast, before, last⟩ := ih outcome
      refine ⟨by omega, List.forall_mem_append.mpr ⟨fun t among => ?_, before⟩, fun _ => ?_⟩
      · have here := (advances.placed t among).1
        omega
      · rcases atLeast.lt_or_eq with less | same
        · obtain ⟨t, among, final⟩ := last less
          exact ⟨t, List.mem_append_right _ among, final⟩
        · obtain ⟨t, among, here⟩ := advances.exists_mem active
          exact ⟨t, List.mem_append_left _ among, by omega⟩

/-- Where a batch that fails stops: at the turn that has failed, or after as many rounds as there may
be. -/
theorem of_error {e : Error} (drives : Drives limit round slots S turns (.error e) slots' S') :
    (∃ earlier last, turns = earlier ++ [last] ∧ last.result = .error e ∧
        ∀ t ∈ earlier, ∃ status, t.result = .ok status) ∨
      e = .tooManyRounds ∧ (∀ t ∈ turns, ∃ status, t.result = .ok status) ∧
        (limit = 0 ∨ ∃ t ∈ turns, t.round + 1 = round + limit) := by
  generalize outcome : (.error e : Except Error Nat) = result at drives
  induction drives with
  | spent =>
      cases outcome
      exact .inr ⟨rfl, by simp, .inl rfl⟩
  | done => cases outcome
  | fails _ advances =>
      cases outcome
      exact .inl advances.exists_failed
  | @more _ _ _ _ _ _ _ _ turns _ _ active advances later ih =>
      have first : ∀ t ∈ turns, ∃ status, t.result = .ok status := fun t among => by
        obtain ⟨status, succeeds, -⟩ := advances.exists_status among
        exact ⟨status, succeeds⟩
      obtain ⟨earlier, last, rfl, failed, succeed⟩ | ⟨spent, succeed, late⟩ := ih outcome
      · exact .inl ⟨_ ++ earlier, last, (List.append_assoc ..).symm, failed,
          List.forall_mem_append.mpr ⟨first, succeed⟩⟩
      · refine .inr ⟨spent, List.forall_mem_append.mpr ⟨first, succeed⟩, .inr ?_⟩
        obtain rfl | ⟨t, among, final⟩ := late
        · obtain ⟨t, among, here⟩ := advances.exists_mem active
          exact ⟨t, List.mem_append_left _ among, by omega⟩
        · exact ⟨t, List.mem_append_right _ among, by omega⟩

/-- **A batch takes as many rounds as its longest thread.** -/
theorem rounds_eq {rounds : Nat} (drives : Drives limit 0 slots S turns (.ok rounds) slots' S') :
    rounds = (Finset.range slots.length).sup fun k => (callsOf k turns).length := by
  obtain ⟨-, before, last⟩ := drives.of_ok
  have thread (k : Nat) (within : k < slots.length) :
      ∃ slot', Thread 0 slots[k] (callsOf k turns) slot' := by
    obtain ⟨slot', -, thread⟩ := drives.exists_thread (List.getElem?_eq_getElem within)
    exact ⟨slot', thread⟩
  refine Nat.le_antisymm ?_ (Finset.sup_le fun k member => ?_)
  · -- the last round has a call, in the thread of its protocol
    rcases Nat.eq_zero_or_pos rounds with rfl | some
    · exact Nat.zero_le _
    · obtain ⟨t, among, final⟩ := last some
      have within := drives.position_lt t among
      obtain ⟨_, calls⟩ := thread t.position within
      have early := calls.round_lt (Turn.mem_callsOf.mpr ⟨among, rfl⟩)
      have longest : (callsOf t.position turns).length ≤ _ :=
        Finset.le_sup (f := fun k => (callsOf k turns).length) (Finset.mem_range.mpr within)
      omega
  · obtain ⟨_, calls⟩ := thread k (Finset.mem_range.mp member)
    by_contra late
    obtain ⟨t, among, here⟩ := calls.exists_call (k := rounds) (by omega)
    have early := before t (Turn.mem_callsOf.mp among).1
    omega

end Drives

/-! ## The schedule of a batch -/

/-- **Schedule.**  How a batch of so many protocols is called. -/
structure Schedule (size : Nat) (turns : List (Turn F σ P)) (result : Except Error Nat) : Prop where
  /-- All calls of a round come before those of the next, and in a round they follow the batch. -/
  in_order : turns.Pairwise Turn.Precedes
  placed : ∀ t ∈ turns, t.position < size
  /-- Each protocol is called with the rounds from 0 on, once each. -/
  numbered : ∀ k, (callsOf k turns).map (·.round) = List.range (callsOf k turns).length
  /-- Until its last call it has more rounds. -/
  goes_on : ∀ k, ((callsOf k turns).map (·.result)).dropLast
    = List.replicate ((callsOf k turns).length - 1) (.ok .hasMoreRounds)
  /-- A call that fails is the last one of all. -/
  stops : ∀ earlier t later e, turns = earlier ++ t :: later → t.result = .error e →
    later = [] ∧ result = .error e
  fails : ∀ e, result = .error e → (∃ t ∈ turns, t.result = .error e) ∨ e = .tooManyRounds
  /-- If all goes well, each protocol is done with its last call, and the longest decides the number of
  rounds. -/
  finishes : ∀ number, result = .ok number →
    (∀ k < size, ((callsOf k turns).map (·.result)).getLast? = some (.ok .isDone)) ∧
      number = (Finset.range size).sup fun k => (callsOf k turns).length

/-- **A batch of protocols that are all new keeps to the schedule.** -/
theorem Drives.schedule {result : Except Error Nat}
    (drives : Drives limit 0 slots S turns result slots' S') (all : ∀ slot ∈ slots, slot.active) :
    Schedule slots.length turns result where
  in_order := drives.inOrder
  placed := drives.position_lt
  numbered k := by
    obtain nothing | ⟨slot, _, thread⟩ := drives.callsOf_cases k
    · rw [nothing]
      rfl
    · rw [thread.map_round, List.range_eq_range']
  goes_on k := by
    obtain nothing | ⟨slot, _, thread⟩ := drives.callsOf_cases k
    · rw [nothing]
      rfl
    · exact thread.dropLast_results
  stops := by
    rintro before t after e rfl failed
    have unsuccessful : ¬ ∃ status, t.result = .ok status :=
      fun ⟨_, succeeds⟩ => nomatch failed.symm.trans succeeds
    cases result with
    | ok number => exact absurd (drives.exists_status (by simp)) unsuccessful
    | error e' =>
        obtain ⟨earlier, last, whole, lastFailed, succeed⟩ | ⟨-, succeed, -⟩ := drives.of_error
        · -- the turns before the last one have all succeeded
          obtain rfl | ⟨middle, final, rfl⟩ := after.eq_nil_or_concat'
          · obtain ⟨-, same⟩ := List.append_inj' whole rfl
            obtain rfl : t = last := List.singleton_injective same
            exact ⟨rfl, congrArg _ (Except.error.inj (lastFailed.symm.trans failed))⟩
          · rw [← List.cons_append, ← List.append_assoc] at whole
            obtain ⟨rfl, -⟩ := List.append_inj' whole rfl
            exact absurd (succeed t (by simp)) unsuccessful
        · exact absurd (succeed t (by simp)) unsuccessful
  fails := by
    rintro e rfl
    obtain ⟨earlier, last, rfl, failed, -⟩ | ⟨spent, -, -⟩ := drives.of_error
    · exact .inl ⟨last, by simp, failed⟩
    · exact .inr spent
  finishes := by
    rintro number rfl
    refine ⟨fun k within => ?_, drives.rounds_eq⟩
    obtain ⟨slot', there, thread⟩ := drives.exists_thread (List.getElem?_eq_getElem within)
    exact thread.getLast_results (all _ (List.getElem_mem within))
      (drives.active_eq_false slot' (List.mem_of_getElem? there))

/-- **History.**  The history of a whole batch, whose protocols are all new. -/
def History (protocols : List P) (S : Party F σ) (turns : List (Turn F σ P)) (result : Except Error Nat)
    (protocols' : List P) (S' : Party F σ) : Prop :=
  ∃ slots, Drives maxRounds 0 (protocols.map fun protocol => { protocol }) S turns result slots S' ∧
    protocols' = slots.map (·.protocol)

namespace History

variable {protocols protocols' : List P} {result : Except Error Nat}

/-- Driving a batch is what its histories tell. -/
theorem ends_iff : ((driveRounds protocols).run S).Ends ((result, protocols'), S') ↔
    ∃ turns, History protocols S turns result protocols' S' := by
  rw [driveRounds, StateT.run_bind, Exchange.ends_bind]
  constructor
  · rintro ⟨⟨⟨_, slots⟩, _⟩, driven, same⟩
    cases same
    obtain ⟨turns, drives⟩ := exists_drives driven
    exact ⟨turns, slots, drives, rfl⟩
  · rintro ⟨turns, slots, drives, rfl⟩
    exact ⟨_, drives.ends, .done _⟩

/-- **A batch keeps to the schedule.** -/
theorem schedule (history : History protocols S turns result protocols' S') :
    Schedule protocols.length turns result := by
  obtain ⟨slots, drives, -⟩ := history
  have new : ∀ slot ∈ protocols.map fun protocol => ({ protocol } : Slot P), slot.active :=
    List.forall_mem_map.mpr fun _ _ => rfl
  have schedule := drives.schedule new
  rwa [List.length_map] at schedule

end History

end Slot

end Spdz
