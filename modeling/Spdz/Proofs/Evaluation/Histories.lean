import Mathlib.Tactic.SplitIfs
import Spdz.Evaluation.Schedule
import Spdz.Proofs.Network.Ends

/-!
# The history of a batch

While a party drives a batch, its protocols have their turns one after the other.  The history of the
batch is the list of these turns, whatever the peers send and wherever the batch breaks off.

* `Turn` — a turn of a protocol in a round; `Turn.Chained`, one turn after the other.
* `Slot.Advances`, `Slot.Drives` — the history of a round and of a whole batch.
* **`Slot.exists_drives`** — every batch that is driven has a history.
* `Slot.Drives.ordered` — no protocol has two turns in one round.
* `Slot.Drives.exists_last` — in a batch that succeeds, each protocol has a last turn.
-/

namespace Spdz

variable {F : FieldSpec} {σ P : Type}

/-! ## Turns -/

/-- The turn of a protocol in a round of a batch. -/
structure Turn (F : FieldSpec) (σ P : Type) where
  round : Nat
  /-- Where the protocol stands in the batch. -/
  position : Nat
  /-- The protocol and the party when the turn begins. -/
  before : P × Party F σ
  result : Except Error Status
  /-- The protocol and the party when the turn ends. -/
  after : P × Party F σ

namespace Turn

/-- The turn is one that the protocol can take. -/
def Genuine [Protocol F σ P] (t : Turn F σ P) : Prop :=
  (((Protocol.evaluate t.round : Round F σ P Status).run t.before.1).run t.before.2).Ends
    ((t.result, t.after.1), t.after.2)

/-- **Chained.**  Each turn finds the party as the one before has left it. -/
def Chained : Party F σ → List (Turn F σ P) → Party F σ → Prop
  | S, [], S' => S' = S
  | S, t :: turns, S' => t.before.2 = S ∧ Chained t.after.2 turns S'

variable {S S' S'' : Party F σ} {turns others : List (Turn F σ P)}

/-- A chain can be broken off anywhere, and goes on from there. -/
theorem chained_append : Chained S (turns ++ others) S''
    ↔ ∃ S', Chained S turns S' ∧ Chained S' others S'' := by
  induction turns generalizing S with
  | nil =>
      constructor
      · intro chained
        exact ⟨S, rfl, chained⟩
      · rintro ⟨S', same, chained⟩
        obtain rfl : S' = S := same
        exact chained
  | cons t turns ih =>
      constructor
      · rintro ⟨here, chained⟩
        obtain ⟨S', first, second⟩ := ih.mp chained
        exact ⟨S', ⟨here, first⟩, second⟩
      · rintro ⟨S', ⟨here, first⟩, second⟩
        exact ⟨here, ih.mpr ⟨S', first, second⟩⟩

end Turn

/-! ## Rounds and batches -/

namespace Slot

variable [Protocol F σ P]

/-- **Advances.**  The history of a round, for the slots from a position on. -/
inductive Advances (round : Nat) : (position : Nat) → List (Slot P) → Party F σ → List (Turn F σ P) →
    Except Error Unit → List (Slot P) → Party F σ → Prop where
  | nil (position : Nat) (S : Party F σ) : Advances round position [] S [] (.ok ()) [] S
  | idle {position : Nat} {p : P} {later later' : List (Slot P)} {S S' : Party F σ}
      {turns : List (Turn F σ P)} {result : Except Error Unit}
      (others : Advances round (position + 1) later S turns result later' S') :
    Advances round position (⟨p, false⟩ :: later) S turns result (⟨p, false⟩ :: later') S'
  | fails {position : Nat} {p p' : P} {later : List (Slot P)} {S S' : Party F σ} {e : Error}
      (genuine : Turn.Genuine ⟨round, position, (p, S), .error e, (p', S')⟩) :
    Advances round position (⟨p, true⟩ :: later) S [⟨round, position, (p, S), .error e, (p', S')⟩]
      (.error e) (⟨p', true⟩ :: later) S'
  | turn {position : Nat} {p p' : P} {later later' : List (Slot P)} {S S' S'' : Party F σ}
      {turns : List (Turn F σ P)} {status : Status} {result : Except Error Unit}
      (genuine : Turn.Genuine ⟨round, position, (p, S), .ok status, (p', S')⟩)
      (others : Advances round (position + 1) later S' turns result later' S'') :
    Advances round position (⟨p, true⟩ :: later) S
      (⟨round, position, (p, S), .ok status, (p', S')⟩ :: turns) result
      (⟨p', status == .hasMoreRounds⟩ :: later') S''

/-- **Drives.**  The history of a batch, from a round on. -/
inductive Drives : (limit round : Nat) → List (Slot P) → Party F σ → List (Turn F σ P) →
    Except Error Nat → List (Slot P) → Party F σ → Prop where
  | spent (round : Nat) (slots : List (Slot P)) (S : Party F σ) :
    Drives 0 round slots S [] (.error .tooManyRounds) slots S
  | done {limit round : Nat} {slots : List (Slot P)} {S : Party F σ}
      (idle : slots.any (·.active) = false) : Drives (limit + 1) round slots S [] (.ok round) slots S
  | fails {limit round : Nat} {slots slots' : List (Slot P)} {S S' : Party F σ}
      {turns : List (Turn F σ P)} {e : Error} (active : slots.any (·.active))
      (advances : Advances round 0 slots S turns (.error e) slots' S') :
    Drives (limit + 1) round slots S turns (.error e) slots' S'
  | more {limit round : Nat} {slots slots' slots'' : List (Slot P)} {S S' S'' : Party F σ}
      {turns others : List (Turn F σ P)} {result : Except Error Nat} (active : slots.any (·.active))
      (advances : Advances round 0 slots S turns (.ok ()) slots' S')
      (later : Drives limit (round + 1) slots' S' others result slots'' S'') :
    Drives (limit + 1) round slots S (turns ++ others) result slots'' S''

variable {limit round position : Nat} {slots slots' : List (Slot P)} {S S' : Party F σ}

theorem exists_advances {result : Except Error Unit} (position : Nat)
    (ends : ((advance round slots).run S).Ends ((result, slots'), S')) :
    ∃ turns, Advances round position slots S turns result slots' S' := by
  induction slots generalizing position S slots' with
  | nil =>
      cases ends
      exact ⟨[], .nil _ _⟩
  | cons slot later ih =>
      obtain ⟨p, active⟩ := slot
      rw [advance] at ends
      cases active with
      | false =>
          rw [if_neg Bool.false_ne_true, StateT.run_bind] at ends
          obtain ⟨⟨⟨outcome, others⟩, S₁⟩, before, same⟩ := Exchange.ends_bind.mp ends
          cases same
          obtain ⟨turns, advances⟩ := ih (position + 1) before
          exact ⟨turns, .idle advances⟩
      | true =>
          rw [if_pos rfl, StateT.run_bind] at ends
          obtain ⟨⟨⟨outcome, p'⟩, S₁⟩, genuine, next⟩ := Exchange.ends_bind.mp ends
          cases outcome with
          | error e =>
              cases next
              exact ⟨_, .fails genuine⟩
          | ok status =>
              obtain ⟨⟨⟨outcome, others⟩, S₂⟩, before, same⟩ := Exchange.ends_bind.mp next
              cases same
              obtain ⟨turns, advances⟩ := ih (position + 1) before
              exact ⟨_, .turn genuine advances⟩

/-- **Every batch has a history**, whatever comes from the network. -/
theorem exists_drives {result : Except Error Nat}
    (ends : ((driveFrom limit round slots).run S).Ends ((result, slots'), S')) :
    ∃ turns, Drives limit round slots S turns result slots' S' := by
  induction limit generalizing round slots S with
  | zero =>
      cases ends
      exact ⟨[], .spent _ _ _⟩
  | succ limit ih =>
      rw [driveFrom] at ends
      split_ifs at ends with active
      · rw [StateT.run_bind] at ends
        obtain ⟨⟨⟨outcome, between⟩, S₁⟩, before, next⟩ := Exchange.ends_bind.mp ends
        obtain ⟨turns, advances⟩ := exists_advances 0 before
        cases outcome with
        | error e =>
            cases next
            exact ⟨turns, .fails active advances⟩
        | ok _ =>
            obtain ⟨others, drives⟩ := ih next
            exact ⟨turns ++ others, .more active advances drives⟩
      · cases ends
        exact ⟨[], .done (Bool.not_eq_true _ ▸ active)⟩

/-- Every history is that of a round. -/
theorem Advances.ends {turns : List (Turn F σ P)} {result : Except Error Unit}
    (advances : Advances round position slots S turns result slots' S') :
    ((advance round slots).run S).Ends ((result, slots'), S') := by
  induction advances with
  | nil => exact .done _
  | idle _ ih =>
      rw [advance, if_neg Bool.false_ne_true, StateT.run_bind]
      exact Exchange.ends_bind.mpr ⟨_, ih, .done _⟩
  | fails genuine =>
      rw [advance, if_pos rfl, StateT.run_bind]
      exact Exchange.ends_bind.mpr ⟨_, genuine, .done _⟩
  | turn genuine _ ih =>
      rw [advance, if_pos rfl, StateT.run_bind]
      exact Exchange.ends_bind.mpr ⟨_, genuine, Exchange.ends_bind.mpr ⟨_, ih, .done _⟩⟩

/-- **Every history is that of a batch.** -/
theorem Drives.ends {turns : List (Turn F σ P)} {result : Except Error Nat}
    (drives : Drives limit round slots S turns result slots' S') :
    ((driveFrom limit round slots).run S).Ends ((result, slots'), S') := by
  induction drives with
  | spent => exact .done _
  | done idle =>
      rw [driveFrom, if_neg (by simp [idle])]
      exact .done _
  | fails active advances =>
      rw [driveFrom, if_pos active, StateT.run_bind]
      exact Exchange.ends_bind.mpr ⟨_, advances.ends, .done _⟩
  | more active advances _ ih =>
      rw [driveFrom, if_pos active, StateT.run_bind]
      exact Exchange.ends_bind.mpr ⟨_, advances.ends, ih⟩

/-! ## What histories are like -/

variable {turns : List (Turn F σ P)} {t : Turn F σ P}

namespace Advances

variable {result : Except Error Unit}

theorem chained (advances : Advances round position slots S turns result slots' S') :
    Turn.Chained S turns S' := by
  induction advances with
  | nil => rfl
  | idle _ ih => exact ih
  | fails => exact ⟨rfl, rfl⟩
  | turn _ _ ih => exact ⟨rfl, ih⟩

theorem genuine (advances : Advances round position slots S turns result slots' S') :
    ∀ t ∈ turns, t.Genuine := by
  induction advances with
  | nil => simp
  | idle _ ih => exact ih
  | fails genuine => simpa using genuine
  | turn genuine _ ih => exact List.forall_mem_cons.mpr ⟨genuine, ih⟩

/-- The turns of a round are those of slots from the given position on. -/
theorem placed (advances : Advances round position slots S turns result slots' S') :
    ∀ t ∈ turns, t.round = round ∧ position ≤ t.position := by
  induction advances with
  | nil => simp
  | idle _ ih => exact fun t among => ⟨(ih t among).1, Nat.le_of_succ_le (ih t among).2⟩
  | fails => simp
  | turn _ _ ih =>
      refine List.forall_mem_cons.mpr ⟨⟨rfl, Nat.le_refl _⟩, fun t among => ?_⟩
      exact ⟨(ih t among).1, Nat.le_of_succ_le (ih t among).2⟩

theorem length (advances : Advances round position slots S turns result slots' S') :
    slots'.length = slots.length := by
  induction advances with
  | nil | fails => rfl
  | idle _ ih | turn _ _ ih => exact congrArg Nat.succ ih

theorem ordered (advances : Advances round position slots S turns result slots' S') :
    turns.Pairwise fun t u => t.position < u.position := by
  induction advances with
  | nil => exact .nil
  | idle _ ih => exact ih
  | fails => exact List.pairwise_singleton _ _
  | turn _ others ih => exact .cons (fun t among => (others.placed t among).2) ih

/-- What all protocols of a batch are, and stay in each turn, the protocols of all turns are. -/
theorem kept {I : P → Prop} (kept : ∀ t : Turn F σ P, t.Genuine → I t.before.1 → I t.after.1)
    (advances : Advances round position slots S turns result slots' S')
    (all : ∀ slot ∈ slots, I slot.protocol) :
    (∀ t ∈ turns, I t.before.1) ∧ ∀ slot ∈ slots', I slot.protocol := by
  induction advances with
  | nil => exact ⟨by simp, all⟩
  | idle _ ih =>
      obtain ⟨here, others⟩ := List.forall_mem_cons.mp all
      exact ⟨(ih others).1, List.forall_mem_cons.mpr ⟨here, (ih others).2⟩⟩
  | fails genuine =>
      obtain ⟨here, others⟩ := List.forall_mem_cons.mp all
      exact ⟨by simpa using here, List.forall_mem_cons.mpr ⟨kept _ genuine here, others⟩⟩
  | turn genuine _ ih =>
      obtain ⟨here, others⟩ := List.forall_mem_cons.mp all
      exact ⟨List.forall_mem_cons.mpr ⟨here, (ih others).1⟩,
        List.forall_mem_cons.mpr ⟨kept _ genuine here, (ih others).2⟩⟩

/-- In a round that succeeds, every turn succeeds, and its slot is active as long as it has more
rounds. -/
theorem exists_status (advances : Advances round position slots S turns (.ok ()) slots' S')
    (among : t ∈ turns) : ∃ status, t.result = .ok status ∧
      slots'[t.position - position]? = some ⟨t.after.1, status == .hasMoreRounds⟩ := by
  generalize outcome : (.ok () : Except Error Unit) = result at advances
  induction advances with
  | nil => cases among
  | @idle position _ _ _ _ _ _ _ others ih =>
      obtain ⟨status, succeeds, slot⟩ := ih among outcome
      obtain ⟨k, here⟩ := Nat.exists_eq_add_of_le (others.placed t among).2
      refine ⟨status, succeeds, ?_⟩
      rw [here, Nat.add_sub_cancel_left] at slot
      rw [here, show position + 1 + k - position = k + 1 by omega, List.getElem?_cons_succ, slot]
  | fails => cases outcome
  | @turn position p p' _ _ _ _ _ _ status _ genuine others ih =>
      obtain rfl | later := List.mem_cons.mp among
      · exact ⟨status, rfl, by simp⟩
      · obtain ⟨status, succeeds, slot⟩ := ih later outcome
        obtain ⟨k, here⟩ := Nat.exists_eq_add_of_le (others.placed t later).2
        refine ⟨status, succeeds, ?_⟩
        rw [here, Nat.add_sub_cancel_left] at slot
        rw [here, show position + 1 + k - position = k + 1 by omega, List.getElem?_cons_succ, slot]

/-- In a round that succeeds, every active slot has a turn. -/
theorem exists_turn (advances : Advances round position slots S turns (.ok ()) slots' S') {k : Nat}
    {p : P} (active : slots[k]? = some ⟨p, true⟩) :
    ∃ t ∈ turns, t.position = position + k ∧ t.before.1 = p := by
  generalize outcome : (.ok () : Except Error Unit) = result at advances
  induction advances generalizing k with
  | nil => simp at active
  | idle _ ih =>
      cases k with
      | zero => simp at active
      | succ k =>
          obtain ⟨t, among, here, same⟩ := ih active outcome
          exact ⟨t, among, by omega, same⟩
  | fails => cases outcome
  | turn _ _ ih =>
      cases k with
      | zero =>
          simp only [List.getElem?_cons_zero, Option.some.injEq, Slot.mk.injEq, and_true] at active
          exact ⟨_, List.mem_cons_self, rfl, active⟩
      | succ k =>
          obtain ⟨t, among, here, same⟩ := ih active outcome
          exact ⟨t, List.mem_cons_of_mem _ among, by omega, same⟩

end Advances

namespace Drives

variable {result : Except Error Nat}

theorem chained (drives : Drives limit round slots S turns result slots' S') :
    Turn.Chained S turns S' := by
  induction drives with
  | spent | done => rfl
  | fails _ advances => exact advances.chained
  | more _ advances _ ih => exact Turn.chained_append.mpr ⟨_, advances.chained, ih⟩

theorem genuine (drives : Drives limit round slots S turns result slots' S') :
    ∀ t ∈ turns, t.Genuine := by
  induction drives with
  | spent | done => simp
  | fails _ advances => exact advances.genuine
  | more _ advances _ ih => exact List.forall_mem_append.mpr ⟨advances.genuine, ih⟩

theorem length (drives : Drives limit round slots S turns result slots' S') :
    slots'.length = slots.length := by
  induction drives with
  | spent | done => rfl
  | fails _ advances => exact advances.length
  | more _ advances _ ih => exact ih.trans advances.length

theorem round_le (drives : Drives limit round slots S turns result slots' S') :
    ∀ t ∈ turns, round ≤ t.round := by
  induction drives with
  | spent | done => simp
  | fails _ advances => exact fun t among => Nat.le_of_eq (advances.placed t among).1.symm
  | more _ advances _ ih =>
      refine List.forall_mem_append.mpr ⟨fun t among => Nat.le_of_eq (advances.placed t among).1.symm, ?_⟩
      exact fun t among => Nat.le_of_succ_le (ih t among)

/-- Each turn is of a later round than those before or of a protocol further on, so that no protocol
has two turns in one round. -/
theorem ordered (drives : Drives limit round slots S turns result slots' S') :
    turns.Pairwise fun t u => t.round < u.round ∨ t.position < u.position := by
  induction drives with
  | spent | done => exact .nil
  | fails _ advances => exact advances.ordered.imp .inr
  | more _ advances later ih =>
      refine List.pairwise_append.mpr ⟨advances.ordered.imp .inr, ih, ?_⟩
      intro t first u second
      have here := (advances.placed t first).1
      have there := later.round_le u second
      exact .inl (by omega)

/-- What all protocols of a batch are, and stay in each turn, the protocols of all turns are. -/
theorem before_of_kept (I : P → Prop)
    (kept : ∀ t : Turn F σ P, t.Genuine → I t.before.1 → I t.after.1)
    (drives : Drives limit round slots S turns result slots' S')
    (all : ∀ slot ∈ slots, I slot.protocol) : ∀ t ∈ turns, I t.before.1 := by
  induction drives with
  | spent | done => simp
  | fails _ advances => exact (advances.kept kept all).1
  | more _ advances _ ih =>
      obtain ⟨first, after⟩ := advances.kept kept all
      exact List.forall_mem_append.mpr ⟨first, ih after⟩

/-- In a batch that succeeds, every turn succeeds. -/
theorem exists_status {rounds : Nat}
    (drives : Drives limit round slots S turns (.ok rounds) slots' S') (among : t ∈ turns) :
    ∃ status, t.result = .ok status := by
  generalize outcome : (.ok rounds : Except Error Nat) = result at drives
  induction drives with
  | spent | done => cases among
  | fails => cases outcome
  | more _ advances _ ih =>
      obtain first | second := List.mem_append.mp among
      · obtain ⟨status, succeeds, -⟩ := advances.exists_status first
        exact ⟨status, succeeds⟩
      · exact ih second outcome

section Kept

variable (I : P → Prop)
  (kept : ∀ t : Turn F σ P, t.Genuine → t.round ≠ 0 → I t.before.1 → I t.after.1)

include kept

/-- In a batch that succeeds, an active protocol has a last turn, and it keeps until then what it
keeps in each turn. -/
theorem exists_last_of_active {rounds k : Nat} {p : P}
    (drives : Drives limit round slots S turns (.ok rounds) slots' S') (late : round ≠ 0)
    (active : slots[k]? = some ⟨p, true⟩) (holds : I p) :
    ∃ last ∈ turns, last.position = k ∧ last.result = .ok .isDone ∧ I last.after.1 := by
  generalize outcome : (.ok rounds : Except Error Nat) = result at drives
  induction drives generalizing p with
  | spent => cases outcome
  | done idle =>
      have none : ¬ _ := List.any_eq_false.mp idle _ (List.mem_of_getElem? active)
      exact absurd rfl none
  | fails => cases outcome
  | more _ advances later ih =>
      -- the turn of this round is the last one, or it leaves the slot active for the next round
      obtain ⟨t, among, here, rfl⟩ := advances.exists_turn active
      obtain ⟨status, succeeds, slot⟩ := advances.exists_status among
      have inRound : t.round ≠ 0 := (advances.placed t among).1 ▸ late
      have still : I t.after.1 := kept t (advances.genuine t among) inRound holds
      rw [Nat.zero_add] at here
      cases status with
      | isDone => exact ⟨t, List.mem_append_left _ among, here, succeeds, still⟩
      | hasMoreRounds =>
          rw [here] at slot
          obtain ⟨last, within, rest⟩ := ih (Nat.succ_ne_zero _) slot still outcome
          exact ⟨last, List.mem_append_right _ within, rest⟩

/-- **Last turns.**  In a batch that succeeds, a protocol that has had a turn has a last one, and keeps
until then what it keeps in each turn. -/
theorem exists_last {rounds : Nat}
    (drives : Drives limit round slots S turns (.ok rounds) slots' S') (among : t ∈ turns)
    (holds : I t.after.1) :
    ∃ last ∈ turns, last.position = t.position ∧ last.result = .ok .isDone ∧ I last.after.1 := by
  generalize outcome : (.ok rounds : Except Error Nat) = result at drives
  induction drives with
  | spent | done => cases among
  | fails => cases outcome
  | more _ advances later ih =>
      obtain first | second := List.mem_append.mp among
      · obtain ⟨status, succeeds, slot⟩ := advances.exists_status first
        cases status with
        | isDone => exact ⟨t, List.mem_append_left _ first, rfl, succeeds, holds⟩
        | hasMoreRounds =>
            subst outcome
            obtain ⟨last, within, rest⟩ :=
              later.exists_last_of_active I kept (Nat.succ_ne_zero _) slot holds
            exact ⟨last, List.mem_append_right _ within, rest⟩
      · obtain ⟨last, within, rest⟩ := ih second outcome
        exact ⟨last, List.mem_append_right _ within, rest⟩

end Kept

end Drives

end Slot

end Spdz
