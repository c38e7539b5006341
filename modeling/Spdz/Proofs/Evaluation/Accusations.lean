import Spdz.Proofs.Evaluation.Alignment
import Spdz.Proofs.Evaluation.Scripts
import Spdz.Proofs.Evaluation.Tasks

/-!
# Honest parties are not accused

When two honest parties make the same calls, each of them knows beforehand what the other will send:
which batches and checks are driven depends on the calls, on the manners of their protocols and on the
number of pending openings only.  So whatever the corrupt parties do, neither of the two ever finds a
message of the other malformed, or an opening that does not match its commitment.

* `Outline` — what peers can know of a call; `Session.Task.outline`.
* `Outline.script`, `Outline.scriptFrom` — the lines of a call, and of all calls of a session.
* `Site` — a place in a session; `Site.Follows`, where a message is to be taken.
* `Session.Task.performFrom` — the calls of a session, each with its sites.
* **`Session.Task.never_accused`** — no honest party accuses another one.
-/

namespace Spdz

variable {F : FieldSpec} {σ P Λ α β : Type}

/-! ## Gates and checks -/

namespace Gate

/-- Gates as they are before they are used: no input has come, and no check has begun. -/
def IsFresh (self : PartyId) : Gate F → Prop
  | input p => p.state.inputter ≠ self → p.state.masked = none
  | checkedInput p => p.state.inputter ≠ self → p.state.masked = none
  | macCheck p => p.stage = .idle
  | _ => True

variable [Supplier F σ]

/-- Gates mind their manners. -/
def mindful (declared : F.IsDeclared) : Mindful F σ (Gate F) Λ where
  manner := manner
  Holds self peer n tag round gate t := gate.Holds self peer n tag round t
  minds := minds declared
  mono := Holds.mono

theorem IsFresh.isNew {declared : F.IsDeclared} {self : PartyId} {gate : Gate F}
    (fresh : gate.IsFresh self) : (mindful (σ := σ) (Λ := Λ) declared).IsNew self gate := by
  intro peer n tag t
  cases gate with
  | input p => exact ⟨rfl, fun _ => fresh⟩
  | checkedInput p => exact ⟨rfl, fun _ => fresh⟩
  | reveal p => exact ⟨by simp, by simp⟩
  | macCheck p =>
      refine ⟨fun _ => fresh, ?_⟩
      rw [MacCheck.Holds, show p.stage = .idle from fresh]
      trivial
  | _ => trivial

end Gate

/-- So do checks. -/
def MacCheck.mindful [Supplier F σ] : Mindful F σ (MacCheck F) Λ where
  manner _ := .check
  Holds _ peer n tag round p t := (round = 0 → p.stage = .idle) ∧ p.Holds peer n tag round t
  minds p _ _ _ _ _ _ _ _ _ member other follow due holds said heard :=
    (minds p member other follow due holds.2 said heard).weaken
      fun _ _ _ _ ⟨same, standing, becomes, holds⟩ => ⟨same, standing, becomes, rfl, holds⟩
  mono holds said heard := ⟨holds.1, holds.2.mono said heard⟩

/-! ## Calls -/

/-- What peers can know of a call. -/
inductive Outline where
  /-- Protocols are run, whatever is made of their results. -/
  | batch (manners : List Manner)
  | check
  /-- A check, if openings are pending. -/
  | checkpoint

namespace Outline

/-- What is driven for a call, if nothing fails. -/
def parts (n threshold pending : Nat) : Outline → List (Phase × List Manner)
  | batch manners => (.batch, manners) ::
      if threshold ≤ Manner.pendingAll n manners pending then [(.check, [.check])] else []
  | check => [(.check, [.check])]
  | checkpoint => if pending = 0 then [] else [(.check, [.check])]

/-- How many openings are pending after what is driven. -/
def pendingAfter (n : Nat) (parts : List (Phase × List Manner)) (pending : Nat) : Nat :=
  parts.foldl (fun count (_, manners) => Manner.pendingAll n manners count) pending

/-- The lines of a party in what is driven. -/
def lines (F : FieldSpec) (n : Nat) (tag : Phase → (round position : Nat) → Λ) (party : PartyId)
    (parts : List (Phase × List Manner)) : List (Line Λ) :=
  parts.flatMap fun (phase, manners) => Manner.script F n (tag phase) party manners

theorem lines_cons (F : FieldSpec) (n : Nat) (tag : Phase → (round position : Nat) → Λ)
    (party : PartyId) (part : Phase × List Manner) (parts : List (Phase × List Manner)) :
    lines F n tag party (part :: parts) = lines F n tag party [part] ++ lines F n tag party parts := by
  rw [lines, lines, lines, List.flatMap_cons, List.flatMap_singleton]

end Outline

/-- A place in a session: which call it is, and where in it. -/
structure Site where
  call : Nat
  place : Place
  deriving DecidableEq

namespace Site

/-- The places of a call. -/
def inCall (call : Nat) (phase : Phase) (round position : Nat) : Site := ⟨call, ⟨phase, round, position⟩⟩

/-- What is sent at a site is to be taken in the same call, where it is to be taken in that. -/
def Follows (taking sending : Site) : Prop :=
  taking.call = sending.call ∧ taking.place.Follows sending.place

theorem follows_inCall (call : Nat) (phase : Phase) (round position : Nat) :
    (inCall call phase (round + 1) position).Follows (inCall call phase round position) :=
  ⟨rfl, rfl, rfl, rfl⟩

end Site

namespace Outline

variable {n threshold number pending : Nat} {party : PartyId}

/-- The lines of a party in all calls of a session from a given one on, if nothing fails. -/
def linesFrom (F : FieldSpec) (n threshold : Nat) (party : PartyId) :
    (number pending : Nat) → List Outline → List (Line Site)
  | _, _, [] => []
  | number, pending, outline :: later =>
    lines F n (Site.inCall number) party (outline.parts n threshold pending)
      ++ linesFrom F n threshold party (number + 1)
        (pendingAfter n (outline.parts n threshold pending) pending) later

/-- Who makes fewer calls has fewer lines. -/
theorem linesFrom_prefix {fewer more : List Outline} (within : fewer <+: more) :
    linesFrom F n threshold party number pending fewer
      <+: linesFrom F n threshold party number pending more := by
  induction fewer generalizing more number pending with
  | nil => exact List.nil_prefix
  | cons outline fewer ih =>
      obtain ⟨later, rfl⟩ := within
      exact (List.prefix_append_right_inj _).mpr (ih ⟨later, rfl⟩)

theorem exists_of_mem_lines {parts : List (Phase × List Manner)} {line : Line Site}
    (among : line ∈ lines F n (Site.inCall number) party parts) :
    ∃ part ∈ parts, line.label.call = number ∧ line.label.place.phase = part.1 := by
  obtain ⟨part, within, here⟩ := List.mem_flatMap.mp among
  obtain ⟨round, position, same⟩ := Manner.exists_of_mem_script here
  exact ⟨part, within, by rw [same]; rfl, by rw [same]; rfl⟩

theorem exists_of_mem_linesFrom {outlines : List Outline} {line : Line Site}
    (among : line ∈ linesFrom F n threshold party number pending outlines) :
    number ≤ line.label.call := by
  induction outlines generalizing number pending with
  | nil => cases among
  | cons outline later ih =>
      obtain here | there := List.mem_append.mp among
      · obtain ⟨_, -, same, -⟩ := exists_of_mem_lines here
        exact same.ge
      · exact Nat.le_of_succ_le (ih there)

/-- A call has at most one batch and at most one check. -/
theorem nodup_parts (outline : Outline) : ((outline.parts n threshold pending).map (·.1)).Nodup := by
  cases outline <;> rw [parts]
  · split_ifs <;> simp
  · simp
  · split_ifs <;> simp

theorem nodup_lines {parts : List (Phase × List Manner)} (apart : (parts.map (·.1)).Nodup) :
    ((lines F n (Site.inCall number) party parts).map (·.label)).Nodup := by
  induction parts with
  | nil => exact List.nodup_nil
  | cons part parts ih =>
      obtain ⟨alone, others⟩ := List.nodup_cons.mp apart
      rw [lines, List.flatMap_cons, List.map_append]
      refine List.nodup_append'.mpr ⟨Manner.nodup_script ?_, ih others, ?_⟩
      · intro round position round' position' same
        cases same
        exact ⟨rfl, rfl⟩
      · intro label here there
        obtain ⟨line, among, rfl⟩ := List.mem_map.mp here
        obtain ⟨line', among', same⟩ := List.mem_map.mp there
        obtain ⟨round, position, first⟩ := Manner.exists_of_mem_script among
        obtain ⟨part', within, -, second⟩ := exists_of_mem_lines among'
        refine alone (List.mem_map.mpr ⟨part', within, ?_⟩)
        rw [← second, same, first]
        rfl

/-- No two lines of a session have the same label. -/
theorem nodup_linesFrom (outlines : List Outline) :
    ((linesFrom F n threshold party number pending outlines).map (·.label)).Nodup := by
  induction outlines generalizing number pending with
  | nil => exact List.nodup_nil
  | cons outline later ih =>
      rw [linesFrom, List.map_append]
      refine List.nodup_append'.mpr ⟨nodup_lines outline.nodup_parts, ih, fun label here there => ?_⟩
      obtain ⟨line, among, rfl⟩ := List.mem_map.mp here
      obtain ⟨line', among', same⟩ := List.mem_map.mp there
      obtain ⟨_, -, first, -⟩ := exists_of_mem_lines among
      have second := exists_of_mem_linesFrom among'
      rw [same] at second
      omega

end Outline

/-! ## Sessions -/

namespace Session

/-- **Stands.**  Unless the session has ended, the party is known to its peers as it should be, and
these are the lines that are left. -/
def Stands (standing : Standing) (outs ins : List (Line Λ)) (session : Session F σ) (t : Talk Λ) : Prop :=
  session.aborted = none → session.party.standing = standing ∧ t.outs = outs ∧ t.ins = ins

/-- **Leaves.**  The result does not accuse the peer, an error ends the session, and else the session
stands as it should. -/
structure Leaves (peer : PartyId) (standing : Standing) (outs ins : List (Line Λ))
    (result : Except Error α) (session : Session F σ) (t : Talk Λ) : Prop where
  harmless : ∀ e, result = .error e → ¬ e.Accuses peer
  strict : ∀ e, result = .error e → session.aborted ≠ none
  stands : Stands standing outs ins session t

/-- **Heeds.**  The method keeps to the lines of these parts, and leaves the session as it should. -/
def Heeds (follows : Λ → Λ → Prop) (peers : List PartyId) (peer : PartyId)
    (tag : Phase → (round position : Nat) → Λ) (parts : List (Phase × List Manner)) (standing : Standing)
    (outcome : α → Except Error β) (x : TaggedSessional F σ Λ α) : Prop :=
  ∀ ⦃session : Session F σ⦄ ⦃t : Talk Λ⦄ ⦃outs ins : List (Line Λ)⦄,
    Stands standing (Outline.lines F standing.parties tag standing.id parts ++ outs)
      (Outline.lines F standing.parties tag peer parts ++ ins) session t →
    (x.run session).Keeps follows peers peer (fun (result, session') t' =>
      Leaves peer { standing with
          pending := Outline.pendingAfter standing.parties parts standing.pending } outs ins
        (outcome result) session' t') t

variable {follows : Λ → Λ → Prop} {peers : List PartyId} {peer : PartyId} {standing : Standing}
  {tag : Phase → (round position : Nat) → Λ} {phase : Phase}

/-- A session that has ended names the cause, and accuses nobody. -/
theorem Leaves.of_aborted {standing : Standing} {outs ins : List (Line Λ)} {session : Session F σ}
    {t : Talk Λ} {cause : Category × String} {result : Except Error α}
    (aborted : session.aborted = some cause)
    (refused : ∀ e, result = .error e → e = .aborted cause.1 cause.2) :
    Leaves peer standing outs ins result session t where
  harmless e same := by simp [refused e same, Error.Accuses]
  strict _ _ := by simp [aborted]
  stands active := by
    rw [aborted] at active
    cases active

/-- Nothing is asked of a session that has ended. -/
theorem Leaves.error {standing standing' : Standing} {outs ins outs' ins' : List (Line Λ)}
    {session : Session F σ} {t : Talk Λ} {e : Error}
    (left : Leaves peer standing outs ins (.error e : Except Error α) session t) :
    Leaves peer standing' outs' ins' (.error e : Except Error β) session t where
  harmless _ same := Except.error.inj same ▸ left.harmless e rfl
  strict _ _ := left.strict e rfl
  stands active := absurd active (left.strict e rfl)

/-- A session that has ended drives nothing. -/
theorem run_driveTagged_of_aborted [Protocol F σ P] (tag : (round position : Nat) → Λ)
    (protocols : List P) {session : Session F σ} {cause : Category × String}
    (aborted : session.aborted = some cause) : (driveTagged tag protocols).run session
      = .done ((.error (.aborted cause.1 cause.2), protocols), session) := by
  obtain ⟨party, stats, stopped⟩ := session
  obtain rfl : stopped = some cause := aborted
  rfl

theorem heeds_drive [Protocol F σ P] (M : Mindful F σ P Λ) {protocols : List P} (member : peer ∈ peers)
    (other : peer ≠ standing.id)
    (follow : ∀ round position, follows (tag phase (round + 1) position) (tag phase round position))
    (new : ∀ p ∈ protocols, M.IsNew standing.id p) :
    Heeds follows peers peer tag [(phase, protocols.map M.manner)] standing (·.1)
      (driveTagged (tag phase) protocols : TaggedSessional F σ Λ _) := by
  intro session t outs ins stands
  cases active : session.aborted with
  | some cause =>
      rw [run_driveTagged_of_aborted _ _ active]
      exact .of_aborted active fun e same => (Except.error.inj same).symm
  | none =>
      obtain ⟨rfl, said, heard⟩ := stands active
      rw [Outline.lines, List.flatMap_singleton] at said heard
      rw [run_driveTagged _ _ active]
      refine Labelled.Keeps.bind (M.keeps_drive member other follow new said heard) ?_
      rintro ⟨⟨result | rounds, protocols'⟩, S'⟩ t' ended
      · exact ⟨fun e same => Except.error.inj same ▸ ended, fun _ _ => nofun, nofun⟩
      · exact ⟨nofun, nofun, fun _ => ended⟩

theorem Stands.of_same {standing : Standing} {outs ins : List (Line Λ)} {session session' : Session F σ}
    {t : Talk Λ} (stands : Stands standing outs ins session t)
    (party : session'.party.standing = session.party.standing)
    (aborted : session'.aborted = session.aborted) : Stands standing outs ins session' t :=
  fun active => party ▸ stands (aborted ▸ active)

section Methods

variable [Supplier F σ]

theorem heeds_macCheck (member : peer ∈ peers) (other : peer ≠ standing.id)
    (follow : ∀ round position, follows (tag .check (round + 1) position) (tag .check round position)) :
    Heeds follows peers peer tag [(.check, [.check])] standing id
      (macCheckTagged tag : TaggedSessional F σ Λ _) := by
  intro session t outs ins stands
  have new : ∀ p ∈ [({} : MacCheck F)], (MacCheck.mindful (σ := σ) (Λ := Λ)).IsNew standing.id p := by
    intro p among
    obtain rfl := List.mem_singleton.mp among
    exact fun _ _ _ _ => ⟨fun _ => rfl, trivial⟩
  refine Labelled.Keeps.bind (heeds_drive MacCheck.mindful member other follow new stands) ?_
  rintro ⟨⟨result | rounds, _⟩, session'⟩ t' ended
  · exact Leaves.error ended
  · exact ⟨nofun, nofun, ended.stands.of_same rfl rfl⟩

theorem run_macCheckTagged_of_aborted {session : Session F σ} {cause : Category × String}
    (aborted : session.aborted = some cause) : (macCheckTagged tag).run session
      = .done (.error (.aborted cause.1 cause.2), session) := by
  rw [macCheckTagged, StateT.run_bind, run_driveTagged_of_aborted _ _ aborted]
  rfl

/-- A check is due if so many openings are pending. -/
theorem heeds_settle {rounds : Nat} (member : peer ∈ peers) (other : peer ≠ standing.id)
    (follow : ∀ round position, follows (tag .check (round + 1) position) (tag .check round position)) :
    Heeds follows peers peer tag
      (if standing.threshold ≤ standing.pending then [(.check, [.check])] else []) standing id
      (settleTagged tag rounds : TaggedSessional F σ Λ _) := by
  intro session t outs ins stands
  have counted : (session.countBatch rounds).aborted = session.aborted := rfl
  have run : (settleTagged tag rounds).run session = if session.isDue
      then (macCheckTagged tag).run (session.countBatch rounds)
      else pure (.ok (), session.countBatch rounds) := rfl
  rw [run]
  cases active : session.aborted with
  | some cause =>
      by_cases due : session.isDue = true
      · rw [if_pos due, run_macCheckTagged_of_aborted (counted.trans active)]
        exact .of_aborted (counted.trans active) fun e same => (Except.error.inj same).symm
      · rw [if_neg due]
        exact .of_aborted (counted.trans active) nofun
  | none =>
      obtain ⟨rfl, -⟩ := stands active
      have due : session.isDue = true
          ↔ session.party.standing.threshold ≤ session.party.standing.pending := decide_eq_true_iff
      by_cases reached : session.isDue = true
      · rw [if_pos (due.mp reached)] at stands ⊢
        rw [if_pos reached]
        exact heeds_macCheck member other follow (stands.of_same rfl rfl)
      · rw [if_neg (mt due.mpr reached)] at stands ⊢
        rw [if_neg reached]
        exact ⟨nofun, nofun, stands.of_same rfl rfl⟩

/-- A batch, and the check that may be due after it. -/
theorem heeds_runBatch [Protocol F σ P] (M : Mindful F σ P Λ) {protocols : List P}
    (member : peer ∈ peers) (other : peer ≠ standing.id)
    (follow : ∀ phase round position,
      follows (tag phase (round + 1) position) (tag phase round position))
    (new : ∀ p ∈ protocols, M.IsNew standing.id p) :
    Heeds follows peers peer tag
      (Outline.parts standing.parties standing.threshold standing.pending
        (.batch (protocols.map M.manner))) standing (·.1)
      (runBatchTagged tag protocols : TaggedSessional F σ Λ _) := by
  intro session t outs ins stands
  rw [Outline.parts, Outline.lines_cons F standing.parties tag standing.id,
    Outline.lines_cons F standing.parties tag peer, List.append_assoc, List.append_assoc] at stands
  refine Labelled.Keeps.bind (heeds_drive M member other (follow .batch) new stands) ?_
  rintro ⟨⟨result | rounds, protocols'⟩, session'⟩ t' ended
  · exact Leaves.error ended
  · have settled := @heeds_settle F σ Λ follows peers peer { standing with
      pending := Manner.pendingAll standing.parties (protocols.map M.manner) standing.pending } tag _
      rounds member other (follow .check)
    refine Labelled.Keeps.bind (settled ended.stands) ?_
    rintro ⟨result, session''⟩ t'' ended
    exact ended

/-- Check the pending openings, if there are any. -/
def checkpointTagged (tag : Phase → (round position : Nat) → Λ) :
    TaggedSessional F σ Λ (Except Error Unit) := fun session =>
  match session.ended with
  | some e => .done (.error e, session)
  | none =>
    if session.party.opened.isEmpty then .done (.ok (), session) else (macCheckTagged tag).run session

theorem run_checkpointTagged {session : Session F σ} (active : session.aborted = none) :
    (checkpointTagged tag).run session = if session.party.opened.isEmpty then .done (.ok (), session)
      else (macCheckTagged tag).run session := by
  obtain ⟨party, stats, aborted⟩ := session
  obtain rfl : aborted = none := active
  rfl

theorem run_checkpointTagged_of_aborted {session : Session F σ} {cause : Category × String}
    (aborted : session.aborted = some cause) : (checkpointTagged tag).run session
      = .done (.error (.aborted cause.1 cause.2), session) := by
  obtain ⟨party, stats, stopped⟩ := session
  obtain rfl : stopped = some cause := aborted
  rfl

theorem plain_checkpointTagged (session : Session F σ) :
    ((checkpointTagged tag).run session).plain
      = (checkpoint : Evaluation F σ Unit).run.run session := by
  cases active : session.aborted with
  | some cause =>
      obtain ⟨party, stats, aborted⟩ := session
      obtain rfl : aborted = some cause := active
      rfl
  | none =>
      rw [run_checkpointTagged active, run_checkpoint active, ← plain_macCheckTagged tag]
      split_ifs <;> rfl

theorem heeds_checkpoint (member : peer ∈ peers) (other : peer ≠ standing.id)
    (follow : ∀ round position, follows (tag .check (round + 1) position) (tag .check round position)) :
    Heeds follows peers peer tag
      (Outline.parts standing.parties standing.threshold standing.pending .checkpoint) standing id
      (checkpointTagged tag : TaggedSessional F σ Λ _) := by
  intro session t outs ins stands
  rw [Outline.parts] at stands ⊢
  cases active : session.aborted with
  | some cause =>
      rw [run_checkpointTagged_of_aborted active]
      exact .of_aborted active fun e same => (Except.error.inj same).symm
  | none =>
      obtain ⟨rfl, -⟩ := stands active
      have none : session.party.opened.isEmpty = true ↔ session.party.standing.pending = 0 := by
        rw [OpenedValues.isEmpty, List.isEmpty_iff]
        exact List.length_eq_zero_iff.symm
      rw [run_checkpointTagged active]
      by_cases empty : session.party.opened.isEmpty = true
      · rw [if_pos (none.mp empty)] at stands ⊢
        rw [if_pos empty]
        refine ⟨fun e failed => ?_, fun e failed => ?_, stands⟩ <;> cases failed
      · rw [if_neg (mt none.mpr empty)] at stands ⊢
        rw [if_neg empty]
        exact heeds_macCheck member other follow stands

namespace Task

/-- What peers can know of a call. -/
def outline : Task F → Outline
  | macCheck => .check
  | checkpoint | finish => .checkpoint
  | task => .batch (task.gates.map Gate.manner)

/-- A single gate, with labels. -/
def single (tag : Phase → (round position : Nat) → Λ) (gate : Gate F) :
    TaggedSessional F σ Λ (Except Error Unit) :=
  (fun (result, gates) => result >>= fun _ => (outputOf (gates.headD gate)).map fun _ => ())
    <$> runBatchTagged tag [gate]

/-- What the session does for a call, with labels. -/
def performTagged (tag : Phase → (round position : Nat) → Λ) :
    Task F → TaggedSessional F σ Λ (Except Error Unit)
  | macCheck => macCheckTagged tag
  | checkpoint | finish => checkpointTagged tag
  | runBatch gates => (·.1) <$> runBatchTagged tag gates
  | runAll gates =>
    (fun (result, gates) => result >>= fun _ => (gates.mapM outputOf).map fun _ => ())
      <$> runBatchTagged tag gates
  | run gate => single tag gate
  | input inputter value => single tag (.input (.new value inputter))
  | inputChecked inputter value => single tag (.checkedInput (.new value inputter))
  | multiply x y => single tag (.multiply { x, y })
  | openAll share => single tag (.openAll { share })
  | openTo share target => single tag (.openTo { share, target })
  | randomElement => single tag (.element {})

omit [Supplier F σ] in
theorem plain_map {f : α → β} {x : TaggedSessional F σ Λ α} {y : Sessional F σ α}
    {session : Session F σ} (same : (x.run session).plain = y.run session) :
    ((f <$> x).run session).plain = (f <$> y).run session := by
  rw [StateT.run_map, StateT.run_map, ← same]
  exact Labelled.plain_bind _ _

theorem plain_single (gate : Gate F) (session : Session F σ) :
    ((single tag gate).run session).plain = ((run gate).perform).run session := by
  rw [single, plain_map (plain_runBatchTagged tag [gate] session), perform, outcome, StateT.run_map,
    StateT.run_map, run_run, map_bind, ← bind_pure_comp]
  refine congrArg _ (funext ?_)
  rintro ⟨⟨result | _, gates⟩, session'⟩ <;> rfl

omit [Supplier F σ] in
theorem outcome_unit (x : Evaluation F σ Unit) : outcome x = x.run := by
  have same : (fun result : Except Error Unit => result.map fun _ => ()) = id :=
    funext fun result => by cases result <;> rfl
  rw [outcome, same, id_map]

/-- A method for a single protocol runs the gate that the protocol is. -/
theorem plain_embedded [Protocol F σ P] {Out : Type} [HasOutput P Out] (wrap : P → Gate F)
    (convert : Out → Output F) (embeds : Embeds (F := F) σ wrap)
    (name : ∀ p, HasOutput.name (wrap p) = HasOutput.name p)
    (output : ∀ p, HasOutput.output (wrap p) = (HasOutput.output p).map convert) (p : P)
    (session : Session F σ) : ((single tag (wrap p)).run session).plain
      = (outcome (Session.run p : Evaluation F σ Out)).run session := by
  rw [plain_single, perform, run_embed embeds name output, outcome_map]

/-- **Without labels this is what the session does for a call.** -/
theorem plain_performTagged (task : Task F) (session : Session F σ) :
    ((task.performTagged tag).run session).plain = (task.perform).run session := by
  cases task with
  | runBatch gates => exact plain_map (plain_runBatchTagged tag gates session)
  | runAll gates =>
      rw [performTagged, plain_map (plain_runBatchTagged tag gates session), perform, outcome,
        StateT.run_map, StateT.run_map, run_runAll, map_bind, ← bind_pure_comp]
      refine congrArg _ (funext ?_)
      rintro ⟨⟨result | _, gates⟩, session'⟩ <;> rfl
  | run gate => exact plain_single gate session
  | macCheck =>
      rw [perform, outcome_unit]
      exact plain_macCheckTagged tag session
  | checkpoint =>
      rw [perform, outcome_unit]
      exact plain_checkpointTagged session
  | finish =>
      rw [perform, outcome, StateT.run_map, run_finish, map_bind]
      refine (plain_checkpointTagged session).trans (bind_pure _).symm |>.trans (congrArg _ (funext ?_))
      rintro ⟨result | _, session'⟩ <;> rfl
  | input inputter value =>
      exact plain_embedded .input .share (fun _ _ => rfl) (fun _ => rfl) (fun _ => rfl) _ session
  | inputChecked inputter value =>
      exact plain_embedded .checkedInput .share (fun _ _ => rfl) (fun _ => rfl) (fun _ => rfl) _ session
  | multiply x y =>
      exact plain_embedded .multiply .share (fun _ _ => rfl) (fun _ => rfl) (fun _ => rfl) _ session
  | openAll share =>
      exact plain_embedded .openAll .value (fun _ _ => rfl) (fun _ => rfl) (fun _ => rfl) _ session
  | openTo share target =>
      exact plain_embedded .openTo .target (fun _ _ => rfl) (fun _ => rfl) (fun _ => rfl) _ session
  | randomElement =>
      exact plain_embedded .element .share (fun _ _ => rfl) (fun _ => rfl) (fun _ => rfl) _ session

theorem error_of_map {f : α → β} {x : Except Error α} {e : Error} (failed : x.map f = .error e) :
    x = .error e := by
  cases x with
  | error e' =>
      cases failed
      rfl
  | ok a => cases failed

/-- Results do not accuse anybody, whatever they are. -/
theorem not_accuses_of_outputOf {gate : Gate F} {e : Error} (failed : outputOf gate = .error e) :
    ¬ e.Accuses peer := by
  rw [outputOf] at failed
  split at failed
  · cases failed
  · cases failed
    simp [Error.Accuses]

theorem not_accuses_of_mapM {gates : List (Gate F)} {e : Error} (failed : gates.mapM outputOf = .error e) :
    ¬ e.Accuses peer := by
  induction gates with
  | nil => cases failed
  | cons gate gates ih =>
      rw [List.mapM_cons] at failed
      cases first : outputOf gate with
      | error e' =>
          rw [first] at failed
          cases failed
          exact not_accuses_of_outputOf first
      | ok out =>
          rw [first] at failed
          cases others : gates.mapM outputOf with
          | error e' =>
              rw [others] at failed
              cases failed
              exact ih others
          | ok outs =>
              rw [others] at failed
              cases failed

section Calls

variable {session : Session F σ} {t : Talk Λ} {outs ins : List (Line Λ)}

/-- What is made of the results of a batch does not matter. -/
theorem keeps_batch (declared : F.IsDeclared) {gates : List (Gate F)} (member : peer ∈ peers)
    (other : peer ≠ standing.id)
    (follow : ∀ phase round position,
      follows (tag phase (round + 1) position) (tag phase round position))
    (fresh : ∀ gate ∈ gates, gate.IsFresh standing.id)
    {tell : Except Error Unit × List (Gate F) → Except Error Unit}
    (harmless : ∀ result gates e, tell (result, gates) = .error e →
      result = .error e ∨ ¬ e.Accuses peer)
    {parts : List (Phase × List Manner)}
    (due : parts = (Outline.batch (gates.map Gate.manner)).parts standing.parties standing.threshold
      standing.pending)
    (stands : Stands standing (Outline.lines F standing.parties tag standing.id parts ++ outs)
      (Outline.lines F standing.parties tag peer parts ++ ins) session t) :
    ((tell <$> runBatchTagged tag gates).run session).Keeps follows peers peer
      (fun (result, session') t' => (∀ e, result = .error e → ¬ e.Accuses peer) ∧ Stands { standing with
        pending := Outline.pendingAfter standing.parties parts standing.pending } outs ins session' t')
      t := by
  subst due
  have batch := heeds_runBatch (Gate.mindful (σ := σ) (Λ := Λ) declared) member other follow
    (fun gate among => (fresh gate among).isNew) stands
  rw [StateT.run_map, ← bind_pure_comp]
  refine Labelled.Keeps.bind batch ?_
  rintro ⟨⟨result, gates'⟩, session'⟩ t' left
  refine ⟨fun e told accuses => ?_, left.stands⟩
  obtain failed | fine := harmless result gates' e told
  · exact left.harmless e failed accuses
  · exact fine accuses

/-- **Every call keeps to its lines**, and accuses nobody who keeps to his. -/
theorem keeps_perform (declared : F.IsDeclared) {task : Task F} (member : peer ∈ peers)
    (other : peer ≠ standing.id)
    (follow : ∀ phase round position,
      follows (tag phase (round + 1) position) (tag phase round position))
    (fresh : ∀ gate ∈ task.gates, gate.IsFresh standing.id)
    {parts : List (Phase × List Manner)}
    (due : parts = task.outline.parts standing.parties standing.threshold standing.pending)
    (stands : Stands standing (Outline.lines F standing.parties tag standing.id parts ++ outs)
      (Outline.lines F standing.parties tag peer parts ++ ins) session t) :
    ((task.performTagged tag).run session).Keeps follows peers peer (fun (result, session') t' =>
      (∀ e, result = .error e → ¬ e.Accuses peer) ∧ Stands { standing with
        pending := Outline.pendingAfter standing.parties parts standing.pending } outs ins session' t')
      t := by
  have single : ∀ gate : Gate F, (∀ gate' ∈ [gate], gate'.IsFresh standing.id) →
      parts = (Outline.batch ([gate].map Gate.manner)).parts standing.parties standing.threshold
        standing.pending →
      ((single tag gate).run session).Keeps follows peers peer (fun (result, session') t' =>
        (∀ e, result = .error e → ¬ e.Accuses peer) ∧ Stands { standing with
          pending := Outline.pendingAfter standing.parties parts standing.pending } outs ins session' t')
        t := by
    intro gate fresh due
    refine keeps_batch declared member other follow fresh (fun result gates e told => ?_) due stands
    cases result with
    | error e' => exact .inl told
    | ok _ => exact .inr (not_accuses_of_outputOf (error_of_map told))
  cases task with
  | runBatch gates =>
      exact keeps_batch declared member other follow fresh (fun _ _ _ told => .inl told) due stands
  | runAll gates =>
      refine keeps_batch declared member other follow fresh (fun result gates e told => ?_) due stands
      cases result with
      | error e' => exact .inl told
      | ok _ => exact .inr (not_accuses_of_mapM (error_of_map told))
  | macCheck =>
      subst due
      refine (heeds_macCheck member other (follow .check) stands).weaken ?_
      rintro ⟨result, session'⟩ t' left
      exact ⟨left.harmless, left.stands⟩
  | checkpoint | finish =>
      subst due
      refine (heeds_checkpoint member other (follow .check) stands).weaken ?_
      rintro ⟨result, session'⟩ t' left
      exact ⟨left.harmless, left.stands⟩
  | run | input | inputChecked | multiply | openAll | openTo | randomElement =>
      exact single _ fresh due

end Calls

/-- Calls of a session from a given one on, each with its sites. -/
def performFrom : (number : Nat) → List (Task F) → TaggedSessional F σ Site (List (Except Error Unit))
  | _, [] => return []
  | number, task :: tasks => do
    let result ← task.performTagged (Site.inCall number)
    let results ← performFrom (number + 1) tasks
    return result :: results

/-- **Without labels these are the calls of the session.** -/
theorem plain_performFrom (number : Nat) (tasks : List (Task F)) (session : Session F σ) :
    ((performFrom number tasks).run session).plain = (tasks.mapM perform).run session := by
  induction tasks generalizing number session with
  | nil => rfl
  | cons task tasks ih =>
      rw [List.mapM_cons, performFrom]
      refine Labelled.plain_run_bind (plain_performTagged task session) fun result session => ?_
      exact Labelled.plain_run_bind (ih _ session) fun _ _ => rfl

/-- **The calls of a session keep to their lines**, and accuse nobody who keeps to his. -/
theorem keeps_performFrom (declared : F.IsDeclared) {number : Nat} {tasks : List (Task F)}
    {session : Session F σ} {t : Talk Site} (member : peer ∈ peers) (other : peer ≠ standing.id)
    (fresh : ∀ task ∈ tasks, ∀ gate ∈ task.gates, gate.IsFresh standing.id)
    (stands : Stands standing
      (Outline.linesFrom F standing.parties standing.threshold standing.id number standing.pending
        (tasks.map outline))
      (Outline.linesFrom F standing.parties standing.threshold peer number standing.pending
        (tasks.map outline)) session t) :
    ((performFrom number tasks).run session).Keeps Site.Follows peers peer
      (fun (results, _) _ => ∀ e, .error e ∈ results → ¬ e.Accuses peer) t := by
  induction tasks generalizing number standing session t with
  | nil => exact fun _ among => by cases among
  | cons task tasks ih =>
      obtain ⟨here, others⟩ := List.forall_mem_cons.mp fresh
      rw [List.map_cons, Outline.linesFrom, Outline.linesFrom] at stands
      rw [performFrom, StateT.run_bind]
      refine Labelled.Keeps.bind (keeps_perform declared member other
        (fun phase round position => Site.follows_inCall number phase round position) here rfl stands) ?_
      rintro ⟨result, session'⟩ t' ⟨harmless, stands'⟩
      let after : Standing := { standing with
        pending := Outline.pendingAfter standing.parties
          (task.outline.parts standing.parties standing.threshold standing.pending) standing.pending }
      refine Labelled.Keeps.bind (@ih after (number + 1) session' t' other others stands') ?_
      rintro ⟨results, session''⟩ t'' fine e among
      obtain rfl | later := List.mem_cons.mp among
      · exact harmless e rfl
      · exact fine e later

/-- **No false accusation.**  Let the honest parties make calls that are the same for their peers, as far
as each of them comes, in sessions that stand alike.  Whatever bytes the corrupt parties send, wherever
they stop and whichever calls on the network fail, what an honest party takes from another one was sent
at the same position of the same batch in the round before, and none of its results accuses the other. -/
theorem never_accused (declared : F.IsDeclared) {n threshold pending : Nat} {honest : Fin n → Prop}
    {plan : List Outline} {tasks : Fin n → List (Task F)} {T : Fin n → Session F σ}
    {start now : Net n Site (List (Except Error Unit) × Session F σ)}
    (standing : ∀ i, honest i → (T i).party.standing = ⟨seat i, n, threshold, pending⟩)
    (planned : ∀ i, honest i → (tasks i).map outline <+: plan)
    (fresh : ∀ i, honest i → ∀ task ∈ tasks i, ∀ gate ∈ task.gates, gate.IsFresh (seat i))
    (starts : ∀ i, honest i → start.process i = { rest := (performFrom 0 (tasks i)).run (T i) })
    (empty : ∀ i j, honest i → honest j → start.channels i j = {})
    (run : Relation.ReflTransGen (Net.Hostile honest) start now) :
    (∀ i, ((performFrom 0 (tasks i)).run (T i)).plain = ((tasks i).mapM perform).run (T i)) ∧
    ∀ i j, honest i → honest j → i ≠ j →
      (∀ entry ∈ (now.channels j i).taken, entry.1.Follows entry.2.label) ∧
      ∀ results session, (now.process i).rest = .done (results, session) →
        ∀ e, .error e ∈ results → ¬ e.Accuses (seat j) := by
  refine ⟨fun i => plain_performFrom 0 (tasks i) (T i), fun i j first second ne => ?_⟩
  let script (k : Fin n) : List (Line Site) := Outline.linesFrom F n threshold (seat k) 0 pending plan
  let Post (peer : PartyId) (ended : List (Except Error Unit) × Session F σ) (_ : Talk Site) : Prop :=
    ∀ e, .error e ∈ ended.1 → ¬ e.Accuses peer
  have mannerly : start.Mannerly Site.Follows script Post honest := by
    refine Net.mannerly_start starts empty fun i j first second ne => ?_
    refine ⟨_, _, Outline.linesFrom_prefix (planned i first), Outline.linesFrom_prefix (planned i first), ?_⟩
    have other : seat j ≠ seat i := fun same => ne (seat_inj.mp same).symm
    have stands : Stands ⟨seat i, n, threshold, pending⟩
        (Outline.linesFrom F n threshold (seat i) 0 pending ((tasks i).map outline))
        (Outline.linesFrom F n threshold (seat j) 0 pending ((tasks i).map outline)) (T i)
        { outs := _, ins := _ } := fun _ => ⟨standing i first, rfl, rfl⟩
    exact keeps_performFrom declared (mem_peersOf.mpr ⟨isMember_seat j, other⟩) other (fresh i first)
      stands
  obtain ⟨t, pair⟩ := Net.Hostile.mannerly_run (fun k => Outline.nodup_linesFrom plan) run mannerly
    i j first second ne
  exact ⟨pair.follow, fun results session ended => pair.keeps.result ended⟩

/-- A session that opens a share begins with sending it, and ends if that fails. -/
theorem exists_next (S : Party .f251 (Party.SimulatedSupplier .f251)) : ∃ next results session,
    (performFrom 0 [.openAll 0, .checkpoint]).run { party := S } = .call (.inCall 0 .batch 0 0)
      (.sendAll (Elem.encodeList [(0 : Share .f251).value])) next ∧
    next (.error (.unknownParty 0)) = .done (results, session) := by
  let slot : Slot (Gate .f251) := { protocol := .openAll { share := 0 } }
  have sends : ∃ next gates S', (Slot.advanceTagged (Site.inCall 0 .batch) 0 0 [slot]).run S
      = .call (.inCall 0 .batch 0 0) (.sendAll (Elem.encodeList [(0 : Share .f251).value])) next ∧
        next (.error (.unknownParty 0)) = .done ((.error (.transport (.unknownParty 0)), gates), S') :=
    ⟨_, _, _, rfl, rfl⟩
  obtain ⟨next, gates, S', sends, fails⟩ := sends
  have active : [slot].any (·.active) = true := rfl
  rw [performFrom, StateT.run_bind, performTagged, single, StateT.run_map, runBatchTagged, StateT.run_bind,
    run_driveTagged _ _ rfl, driveRoundsTagged, StateT.run_bind,
    show maxRounds = 18446744073709551615 + 1 from rfl, Slot.driveTagged, List.map_singleton,
    if_pos active, StateT.run_bind, sends]
  refine ⟨_, ?_, ?_, rfl, ?_⟩
  rotate_left 2
  · beta_reduce
    rw [fails]
    rfl

/-- Three sessions that have just begun. -/
theorem exists_three : ∃ T : Fin 3 → Session .f251 (Party.SimulatedSupplier .f251),
    (∀ i, (T i).party.standing = ⟨seat i, 3, ({} : Config).openedThreshold, 0⟩) ∧
    ∀ i, ∃ next results session,
      (performFrom 0 [.openAll 0, .checkpoint]).run (T i) = .call (.inCall 0 .batch 0 0)
        (.sendAll (Elem.encodeList [(0 : Share .f251).value])) next ∧
      next (.error (.unknownParty 0)) = .done (results, session) := by
  obtain ⟨T, begun⟩ := exists_hasBegun .f251 (by decide) (rfl : ({} : Config).strategy = .simulated 0)
    fun i (member : IsMember 3 i) => Config.validate_default (by decide) member
  obtain ⟨deck, parties, -, simulated⟩ :=
    exists_deck_simulated .f251 (by decide : 1 ≤ 3) (rfl : ({} : Config).strategy = .simulated 0)
  refine ⟨fun i => { party := (T (seat i)).party }, fun i => ?_, fun i => exists_next _⟩
  obtain ⟨entropy, S, created, same⟩ := (begun (seat i) (isMember_seat i)).exists_party
  obtain ⟨id, parties, config, opened, -⟩ := simulated _ entropy S created
  have party : (T (seat i)).party = S := congrArg Session.party same
  rw [party, Party.standing, id, parties, config, opened]
  rfl

/-- Of three parties the last is corrupt and sends a message that is too short.  The second opens a
share, and the first, whose own sending fails, does not accuse the second. -/
theorem never_accused_of_three : FieldSpec.f251.IsDeclared ∧
    ∃ (T : Fin 3 → Session .f251 (Party.SimulatedSupplier .f251))
      (start now : Net 3 Site (List (Except Error Unit) × Session .f251 (Party.SimulatedSupplier .f251))),
      (∀ i, (T i).party.standing = ⟨seat i, 3, ({} : Config).openedThreshold, 0⟩) ∧
      (∀ i, start.process i = { rest := (performFrom 0 [.openAll 0, .checkpoint]).run (T i) }) ∧
      Relation.ReflTransGen (Net.Hostile fun i => i ≠ 2) start now ∧
      (now.channels 2 0).waiting = [⟨.inCall 0 .batch 0 0, []⟩] ∧ (now.channels 1 0).waiting ≠ [] ∧
      ∃ results session, (now.process 0).rest = .done (results, session) ∧
        ∀ e, .error e ∈ results → ¬ e.Accuses (seat (1 : Fin 3)) := by
  obtain ⟨T, standing, begins⟩ := exists_three
  obtain ⟨next₀, results, session, tree₀, fails⟩ := begins 0
  obtain ⟨next₁, -, -, tree₁, -⟩ := begins 1
  let start : Net 3 Site (List (Except Error Unit) × Session .f251 (Party.SimulatedSupplier .f251)) :=
    ⟨fun i => { rest := (performFrom 0 [.openAll 0, .checkpoint]).run (T i) }, fun _ _ => {}⟩
  let sent := start.channels.set 2 0 { waiting := [⟨.inCall 0 .batch 0 0, []⟩] }
  let both := sent.set 1 0 ⟨(sent 1 0).waiting
    ++ [⟨.inCall 0 .batch 0 0, Elem.encodeList [(0 : Share .f251).value]⟩], (sent 1 0).taken⟩
  -- the corrupt party sends, then the second party, and then the first party's own call fails
  have corrupt : Net.Hostile (fun i => i ≠ 2) start ⟨start.process, sent⟩ :=
    .corrupt fun a b first _ => Channels.set_of_ne _ _ fun same => first same.1
  have acts : ∃ process, (start.process 1).Acts (peersOf (seat (1 : Fin 3)) 3) (.post (seat (0 : Fin 3))
      ⟨.inCall 0 .batch 0 0, Elem.encodeList [(0 : Share .f251).value]⟩) process := by
    simp only [start, tree₁]
    exact ⟨_, .post _ (by decide) rfl⟩
  obtain ⟨process, acts⟩ := acts
  have opens : Net.Hostile (fun i => i ≠ 2) ⟨start.process, sent⟩
      ⟨Function.update start.process 1 process, both⟩ := .act 1 (by decide) acts (.post 0 _)
  have calls : Function.update start.process 1 process 0 = ⟨.call (.inCall 0 .batch 0 0)
      (.sendAll (Elem.encodeList [(0 : Share .f251).value])) next₀, fun _ => false, fun _ => none⟩ := by
    rw [Function.update_of_ne (by decide)]
    exact congrArg (fun rest => ({ rest } : Process _ _)) tree₀
  have failed : Net.Hostile (fun i => i ≠ 2) ⟨Function.update start.process 1 process, both⟩
      ⟨Function.update (Function.update start.process 1 process) 0
        { rest := next₀ (.error (.unknownParty 0)) }, both⟩ := .fail 0 (by decide) _ calls
  have run := ((Relation.ReflTransGen.single corrupt).tail opens).tail failed
  have same : ∀ i : Fin 3, i ≠ 2 → [Task.openAll 0, .checkpoint].map (outline (F := .f251))
      <+: [.batch [.openings 1], .checkpoint] := fun _ _ => List.prefix_rfl
  have fresh : ∀ i : Fin 3, i ≠ 2 → ∀ task ∈ [Task.openAll (0 : Share .f251), .checkpoint],
      ∀ gate ∈ task.gates, gate.IsFresh (seat i) := by simp [gates, Gate.IsFresh]
  obtain ⟨-, fair⟩ := never_accused (.inl rfl) (fun i _ => standing i) same fresh (fun i _ => rfl)
    (fun _ _ _ _ => rfl) run
  have ended : (Function.update (Function.update start.process 1 process) 0
      { rest := next₀ (.error (.unknownParty 0)) } 0).rest = .done (results, session) := by
    rw [Function.update_self]
    exact fails
  exact ⟨.inl rfl, T, start, _, standing, fun i => rfl, run, rfl, List.cons_ne_nil _ _, results, session,
    ended, (fair 0 1 (by decide) (by decide) (by decide)).2 results session ended⟩

end Task

end Methods

end Session

end Spdz
