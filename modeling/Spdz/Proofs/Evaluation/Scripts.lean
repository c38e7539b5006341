import Mathlib.Data.List.Nodup
import Spdz.Proofs.Evaluation.Tagged
import Spdz.Proofs.Gates.Manners

/-!
# The script of a batch

The protocols of a batch talk side by side, so in each round the lines of all of them are due, in the
order of the batch.  The lines of all rounds are the script of the batch.  It depends on the manners of
the protocols only, and so does the number of openings that the batch leaves behind.

* `Manner.row`, `Manner.script` — the lines of a round, and of all rounds.
* `Mindful` — a type of protocols that mind their manners.
* `Mindful.keeps_advance` — a round of a batch keeps to its row.
* **`Mindful.keeps_drive`** — a batch keeps to its script.
-/

namespace Spdz

variable {F : FieldSpec} {σ P Λ : Type}

/-! ## Rows -/

namespace Manner

section Rows

variable (F) (n : Nat) (tag : (round position : Nat) → Λ) (party : PartyId)

/-- The lines of a party in a round, from a position of the batch on. -/
def row (round : Nat) : (position : Nat) → List Manner → List (Line Λ)
  | _, [] => []
  | position, m :: later =>
    m.said F n (fun round => tag round position) party round ++ row round (position + 1) later

/-- The lines of a peer that are taken in a round. -/
def rowHeard (round : Nat) : (position : Nat) → List Manner → List (Line Λ)
  | _, [] => []
  | position, m :: later =>
    m.heard F n (fun round => tag round position) party round ++ rowHeard round (position + 1) later

/-- One round more than any of the protocols has messages. -/
def rounds (manners : List Manner) : Nat := (manners.map fun m => (m.messages n).length + 1).foldr max 0

/-- All lines of a party, in all rounds. -/
def script (manners : List Manner) : List (Line Λ) :=
  (List.range (rounds n manners)).flatMap fun round => row F n tag party round 0 manners

end Rows

/-- How many openings are pending after a round of a batch. -/
def pendingRow (round : Nat) (manners : List Manner) (before : Nat) : Nat :=
  manners.foldl (fun count m => m.pending round count) before

/-- How many openings are pending after a batch. -/
def pendingAll (n : Nat) (manners : List Manner) (before : Nat) : Nat :=
  (List.range (rounds n manners)).foldl (fun count round => pendingRow round manners count) before

section Late

variable {n round : Nat} {m : Manner}

theorem said_of_lt {tag : Nat → Λ} {party : PartyId} (late : (m.messages n).length < round) :
    m.said F n tag party round = [] := by
  rw [said, MessageKind.sent_of_le (Nat.le_of_lt late), ite_self]

theorem heard_of_lt {tag : Nat → Λ} {party : PartyId} (late : (m.messages n).length < round) :
    m.heard F n tag party round = [] := by
  cases round with
  | zero => rfl
  | succ round => rw [heard, said, MessageKind.sent_of_le (Nat.le_of_lt_succ late), ite_self]

theorem pending_of_lt {before : Nat} (late : (m.messages n).length < round) :
    m.pending round before = before := by
  cases m with
  | openings count =>
      match round, late with
      | round + 2, _ => rfl
  | check =>
      cases round with
      | zero => exact absurd late (Nat.not_lt_zero _)
      | succ round => rfl
  | _ => rfl

end Late

section Rounds

variable {n round position : Nat} {manners : List Manner} {tag : (round position : Nat) → Λ}
  {party : PartyId}

theorem lt_rounds : round < rounds n manners ↔ ∃ m ∈ manners, round ≤ (m.messages n).length := by
  induction manners with
  | nil => simp [rounds]
  | cons m later ih =>
      have step : round < rounds n (m :: later)
          ↔ round ≤ (m.messages n).length ∨ round < rounds n later := by
        change round < max ((m.messages n).length + 1) (rounds n later) ↔ _
        omega
      rw [step, ih]
      simp

theorem rowHeard_zero : rowHeard F n tag party 0 position manners = [] := by
  induction manners generalizing position with
  | nil => rfl
  | cons m later ih => exact ih

theorem rowHeard_succ :
    rowHeard F n tag party (round + 1) position manners = row F n tag party round position manners := by
  induction manners generalizing position with
  | nil => rfl
  | cons m later ih => rw [rowHeard, row, ih, heard]

theorem row_of_le (late : ∀ m ∈ manners, (m.messages n).length ≤ round) :
    row F n tag party round position manners = [] := by
  induction manners generalizing position with
  | nil => rfl
  | cons m later ih =>
      obtain ⟨here, others⟩ := List.forall_mem_cons.mp late
      rw [row, said, MessageKind.sent_of_le here, ite_self, ih others, List.nil_append]

/-- What is taken in all rounds is the script of the peer. -/
theorem flatMap_rowHeard : (List.range (rounds n manners)).flatMap
    (fun round => rowHeard F n tag party round 0 manners) = script F n tag party manners := by
  rw [script]
  cases last : rounds n manners with
  | zero => rfl
  | succ last' =>
      have none : row F n tag party last' 0 manners = [] := by
        refine row_of_le fun m among => ?_
        have within : (m.messages n).length < rounds n manners := lt_rounds.mpr ⟨m, among, Nat.le_refl _⟩
        omega
      rw [List.range_succ_eq_map, List.flatMap_cons, rowHeard_zero, List.nil_append, List.flatMap_map,
        ← List.range_succ_eq_map, List.range_succ, List.flatMap_append, List.flatMap_singleton, none,
        List.append_nil]
      simp only [rowHeard_succ]

/-- There is at most one line in a round, and it has the label of the round. -/
theorem said_eq (m : Manner) (tag : Nat → Λ) : m.said F n tag party round = [] ∨
    ∃ line, line.label = tag round ∧ m.said F n tag party round = [line] := by
  rw [said, MessageKind.sent]
  split_ifs
  · cases (m.messages n)[round]? with
    | none => exact .inl rfl
    | some message => exact .inr ⟨message.line F tag round, rfl, rfl⟩
  · exact .inl rfl

/-- The lines of a row are labelled with their places. -/
theorem exists_of_mem_row {line : Line Λ} (among : line ∈ row F n tag party round position manners) :
    ∃ later, position ≤ later ∧ line.label = tag round later := by
  induction manners generalizing position with
  | nil => cases among
  | cons m rest ih =>
      obtain here | there := List.mem_append.mp among
      · obtain none | ⟨only, same, one⟩ := said_eq m fun round => tag round position
        · rw [none] at here
          cases here
        · rw [one] at here
          exact ⟨position, Nat.le_refl _, List.mem_singleton.mp here ▸ same⟩
      · obtain ⟨later, after, same⟩ := ih there
        exact ⟨later, Nat.le_of_succ_le after, same⟩

theorem exists_of_mem_script {line : Line Λ} (among : line ∈ script F n tag party manners) :
    ∃ round position, line.label = tag round position := by
  obtain ⟨round, -, within⟩ := List.mem_flatMap.mp among
  obtain ⟨position, -, same⟩ := exists_of_mem_row within
  exact ⟨round, position, same⟩

variable (distinct : ∀ {round position round' position'}, tag round position = tag round' position' →
  round = round' ∧ position = position')

include distinct

theorem nodup_row : ((row F n tag party round position manners).map (·.label)).Nodup := by
  induction manners generalizing position with
  | nil => exact List.nodup_nil
  | cons m rest ih =>
      rw [row]
      obtain none | ⟨only, first, one⟩ := said_eq m fun round => tag round position
      · rw [none, List.nil_append]
        exact ih
      · rw [one, List.singleton_append, List.map_cons]
        refine List.nodup_cons.mpr ⟨fun again => ?_, ih⟩
        obtain ⟨line, among, same⟩ := List.mem_map.mp again
        obtain ⟨later, after, second⟩ := exists_of_mem_row among
        have := (distinct (first.symm.trans (same.symm.trans second))).2
        omega

/-- No two lines of a script have the same label. -/
theorem nodup_script : ((script F n tag party manners).map (·.label)).Nodup := by
  rw [script, List.map_flatMap]
  refine List.nodup_flatMap.mpr ⟨fun round _ => nodup_row distinct, ?_⟩
  refine (List.nodup_range).imp fun {round round'} apart label here there => apart ?_
  obtain ⟨line, among, rfl⟩ := List.mem_map.mp here
  obtain ⟨line', among', same⟩ := List.mem_map.mp there
  obtain ⟨_, -, first⟩ := exists_of_mem_row among
  obtain ⟨_, -, second⟩ := exists_of_mem_row among'
  exact (distinct (first.symm.trans (same.symm.trans second))).1

end Rounds

end Manner

/-! ## Protocols that mind their manners -/

/-- **Mindful.**  What peers can expect of the protocols of a type, and what is known of each of them
before a round, whatever is said and heard later. -/
structure Mindful (F : FieldSpec) (σ P Λ : Type) [Protocol F σ P] where
  manner : P → Manner
  Holds : (self peer : PartyId) → (n : Nat) → (tag : Nat → Λ) → (round : Nat) → P → Talk Λ → Prop
  minds : ∀ p, Minds F σ (manner p) (fun self peer n tag round p' t =>
    manner p' = manner p ∧ Holds self peer n tag round p' t) p
  mono : ∀ {self peer n tag round p t t'}, Holds self peer n tag round p t → t.said ⊆ t'.said →
    t.heard ⊆ t'.heard → Holds self peer n tag round p t'

namespace Mindful

variable [Protocol F σ P] (M : Mindful F σ P Λ)

/-- **Fits.**  The slots of a batch, from a position on, are as they should be before a round. -/
inductive Fits (self peer : PartyId) (n : Nat) (tag : (round position : Nat) → Λ) (round : Nat)
    (t : Talk Λ) : (position : Nat) → List (Slot P) → List Manner → Prop where
  | nil {position : Nat} : Fits self peer n tag round t position [] []
  | cons {position : Nat} {slot : Slot P} {slots : List (Slot P)} {manners : List Manner}
      (active : slot.active = decide (round ≤ ((M.manner slot.protocol).messages n).length))
      (holds : slot.active = true →
        M.Holds self peer n (fun round => tag round position) round slot.protocol t)
      (later : Fits self peer n tag round t (position + 1) slots manners) :
      Fits self peer n tag round t position (slot :: slots) (M.manner slot.protocol :: manners)

variable {M} {follows : Λ → Λ → Prop} {peers : List PartyId} {peer self : PartyId} {n round position : Nat}
  {tag : (round position : Nat) → Λ} {S : Party F σ} {t t' : Talk Λ} {slots : List (Slot P)}
  {manners : List Manner} {outs ins : List (Line Λ)}

theorem Fits.mono (fits : M.Fits self peer n tag round t position slots manners)
    (said : t.said ⊆ t'.said) (heard : t.heard ⊆ t'.heard) :
    M.Fits self peer n tag round t' position slots manners := by
  induction fits with
  | nil => exact .nil
  | cons active holds _ ih => exact .cons active (fun on => M.mono (holds on) said heard) ih

/-- **A round of a batch keeps to its row.** -/
theorem keeps_advance (member : peer ∈ peers) (other : peer ≠ S.id)
    (follow : ∀ round position, follows (tag (round + 1) position) (tag round position))
    (fits : M.Fits S.id peer S.parties tag round t position slots manners)
    (said : t.outs = Manner.row F S.parties tag S.id round position manners ++ outs)
    (heard : t.ins = Manner.rowHeard F S.parties tag peer round position manners ++ ins) :
    ((Slot.advanceTagged tag round position slots).run S).Keeps follows peers peer
      (fun ((result, slots'), S') t' => match result with
        | .ok () => S'.standing
            = { S.standing with pending := Manner.pendingRow round manners S.standing.pending } ∧
          t.Becomes outs ins t' ∧
          M.Fits S.id peer S.parties tag (round + 1) t' position slots' manners
        | .error e => ¬ e.Accuses peer) t := by
  induction slots generalizing position manners S t with
  | nil =>
      cases fits
      exact ⟨rfl, ⟨said, heard, List.Subset.refl _, List.Subset.refl _⟩, .nil⟩
  | cons slot slots ih =>
      cases fits with
      | @cons _ _ _ manners active holds later =>
          rw [Manner.row, List.append_assoc] at said
          rw [Manner.rowHeard, List.append_assoc] at heard
          by_cases on : slot.active = true
          · have due : round ≤ ((M.manner slot.protocol).messages S.parties).length := by
              simpa [active] using on
            rw [Slot.advanceTagged, if_pos on, StateT.run_bind]
            have here := M.minds slot.protocol member other (fun round => follow round position) due
              ⟨rfl, holds on⟩ said heard
            rw [Round.Keeps] at here
            refine Labelled.Keeps.bind here ?_
            rintro ⟨⟨result | status, p⟩, S'⟩ t' ended
            · exact ended
            · obtain ⟨same, standing, becomes, manner, holds'⟩ := ended
              have id : S'.id = S.id := congrArg Standing.id standing
              have parties : S'.parties = S.parties := congrArg Standing.parties standing
              have rest := @ih (position + 1) S' t' manners
              rw [id, parties] at rest
              have rest := rest other (later.mono becomes.said becomes.heard) becomes.outs becomes.ins
              refine Labelled.Keeps.bind rest ?_
              rintro ⟨⟨result | _, slots'⟩, S''⟩ t'' ended
              · exact ended
              · obtain ⟨standing', becomes', fits⟩ := ended
                refine ⟨?_, ⟨becomes'.outs, becomes'.ins,
                  List.Subset.trans becomes.said becomes'.said,
                  List.Subset.trans becomes.heard becomes'.heard⟩, ?_⟩
                · rw [standing', standing]
                  rfl
                · rw [← manner]
                  refine .cons ?_ (fun _ => M.mono holds' becomes'.said becomes'.heard) fits
                  rw [manner, same, MessageKind.status]
                  split_ifs with more
                  · exact (decide_eq_true more).symm
                  · exact (decide_eq_false more).symm
          · have late : ((M.manner slot.protocol).messages S.parties).length < round := by
              simpa [active] using on
            rw [Manner.said_of_lt late] at said
            rw [Manner.heard_of_lt late] at heard
            rw [Slot.advanceTagged, if_neg on, StateT.run_bind]
            refine Labelled.Keeps.bind (ih other later said heard) ?_
            rintro ⟨⟨result | _, slots'⟩, S'⟩ t' ended
            · exact ended
            · obtain ⟨standing, becomes, fits⟩ := ended
              refine ⟨?_, becomes, .cons ?_ (fun on' => absurd on' on) fits⟩
              · rw [standing, Manner.pendingRow, Manner.pendingRow, List.foldl_cons,
                  Manner.pending_of_lt late]
              · rw [active]
                simp only [decide_eq_decide]
                omega

/-- A protocol is active as long as rounds are left. -/
theorem Fits.any_active (fits : M.Fits self peer n tag round t position slots manners) :
    slots.any (·.active) = true ↔ round < Manner.rounds n manners := by
  rw [Manner.lt_rounds]
  induction fits with
  | nil => simp
  | cons active _ _ ih => simp [active, ih]

/-- The rounds that are left keep to what is left of the script. -/
theorem keeps_driveFrom {limit : Nat} (member : peer ∈ peers) (other : peer ≠ S.id)
    (follow : ∀ round position, follows (tag (round + 1) position) (tag round position))
    (fits : M.Fits S.id peer S.parties tag round t 0 slots manners)
    (said : t.outs = (List.range' round (Manner.rounds S.parties manners - round)).flatMap
      (fun round => Manner.row F S.parties tag S.id round 0 manners) ++ outs)
    (heard : t.ins = (List.range' round (Manner.rounds S.parties manners - round)).flatMap
      (fun round => Manner.rowHeard F S.parties tag peer round 0 manners) ++ ins) :
    ((Slot.driveTagged tag limit round slots).run S).Keeps follows peers peer
      (fun ((result, _), S') t' => match result with
        | .ok _ => S'.standing = { S.standing with
            pending := (List.range' round (Manner.rounds S.parties manners - round)).foldl
              (fun count round => Manner.pendingRow round manners count) S.standing.pending } ∧
          t'.outs = outs ∧ t'.ins = ins
        | .error e => ¬ e.Accuses peer) t := by
  induction limit generalizing round slots S t with
  | zero => exact fun accused => by simp [Error.Accuses] at accused
  | succ limit ih =>
      by_cases on : slots.any (·.active) = true
      · have left := fits.any_active.mp on
        obtain ⟨more, same⟩ : ∃ more, Manner.rounds S.parties manners - round = more + 1 :=
          ⟨_, (Nat.sub_add_cancel (Nat.sub_pos_of_lt left)).symm⟩
        have rest : Manner.rounds S.parties manners - (round + 1) = more := by omega
        rw [same, List.range'_succ, List.flatMap_cons, List.append_assoc] at said heard
        rw [Slot.driveTagged, if_pos on, StateT.run_bind]
        refine Labelled.Keeps.bind (keeps_advance member other follow fits said heard) ?_
        rintro ⟨⟨result | _, slots'⟩, S'⟩ t' ended
        · exact ended
        · obtain ⟨standing, becomes, fits'⟩ := ended
          have id : S'.id = S.id := congrArg Standing.id standing
          have parties : S'.parties = S.parties := congrArg Standing.parties standing
          have later := @ih (round + 1) S' t' slots'
          rw [id, parties, rest] at later
          refine (later other fits' becomes.outs becomes.ins).weaken ?_
          rintro ⟨⟨result | _, _⟩, S''⟩ t'' ended
          · exact ended
          · rw [same, List.range'_succ, List.foldl_cons]
            obtain ⟨standing', left⟩ := ended
            rw [standing] at standing'
            exact ⟨standing', left⟩
      · have spent : Manner.rounds S.parties manners - round = 0 := by
          have := mt fits.any_active.mpr on
          omega
        rw [Slot.driveTagged, if_neg on]
        rw [spent] at said heard ⊢
        exact ⟨rfl, said, heard⟩

/-- A protocol of which nothing is known yet can be started with any peer. -/
def IsNew (M : Mindful F σ P Λ) (self : PartyId) (p : P) : Prop :=
  ∀ peer n tag t, M.Holds self peer n tag 0 p t

theorem fits_start {protocols : List P} (new : ∀ p ∈ protocols, M.IsNew self p) :
    M.Fits self peer n tag 0 t position (protocols.map fun protocol => { protocol })
      (protocols.map M.manner) := by
  induction protocols generalizing position with
  | nil => exact .nil
  | cons p protocols ih =>
      obtain ⟨here, others⟩ := List.forall_mem_cons.mp new
      exact .cons (by simp) (fun _ => here peer n _ t) (ih others)

/-- **A batch keeps to its script.** -/
theorem keeps_drive {protocols : List P} (member : peer ∈ peers) (other : peer ≠ S.id)
    (follow : ∀ round position, follows (tag (round + 1) position) (tag round position))
    (new : ∀ p ∈ protocols, M.IsNew S.id p)
    (said : t.outs = Manner.script F S.parties tag S.id (protocols.map M.manner) ++ outs)
    (heard : t.ins = Manner.script F S.parties tag peer (protocols.map M.manner) ++ ins) :
    ((driveRoundsTagged tag protocols).run S).Keeps follows peers peer
      (fun ((result, _), S') t' => match result with
        | .ok _ => S'.standing = { S.standing with
            pending := Manner.pendingAll S.parties (protocols.map M.manner) S.standing.pending } ∧
          t'.outs = outs ∧ t'.ins = ins
        | .error e => ¬ e.Accuses peer) t := by
  rw [← Manner.flatMap_rowHeard, List.range_eq_range'] at heard
  rw [Manner.script, List.range_eq_range'] at said
  rw [driveRoundsTagged, StateT.run_bind]
  refine Labelled.Keeps.bind (keeps_driveFrom member other follow (fits_start new) said heard) ?_
  rintro ⟨⟨result | _, _⟩, S'⟩ t' ended
  · exact ended
  · rw [Nat.sub_zero, ← List.range_eq_range'] at ended
    exact ended

end Mindful

end Spdz
