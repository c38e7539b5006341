import Spdz.Proofs.Evaluation.Tagged
import Spdz.Proofs.Protocol.Turn

/-!
# Journeys of a batch

All parties drive the same protocols, and in each round each protocol finds the messages that the
same protocol sent in the round before, ahead of everything else in the channels.  So the channels
between two rounds hold one entry for each position of the batch.  Whatever the parties are at when
the turn of a protocol comes, it moves them on from there.  So where the batch leads to is found by
putting the moves together, round after round, in the order of the batch.

* `posted` — what a protocol's messages look like in the channels.
* `Entrant` — a protocol of a batch.
* `Journey` — a protocol that goes well for so many rounds, each with its move; `Traveller`, one of a
  batch.
* **`Traveller.joint_driveRounds`** — a batch of protocols that go well goes well.
-/

namespace Spdz

variable {F : FieldSpec} {σ P Λ α : Type} {n : Nat}

/-! ## Turns in the network -/

/-- The letters of a protocol in the channel between two parties, when `out` is what each party sent
to all its peers. -/
def posted (n : Nat) (label : Λ) (out : PartyId → List Bytes) (i j : PartyId) : List (Letter Λ) :=
  if j ∈ peersOf i n then (out i).map (Letter.mk label) else []

theorem mem_peersOf_comm {i j : PartyId} (hi : IsMember n i) (hj : IsMember n j) :
    j ∈ peersOf i n ↔ i ∈ peersOf j n := by
  simp [mem_peersOf, hi, hj, ne_comm]

@[simp] theorem posted_nil (label : Λ) (i j : PartyId) : posted n label (fun _ => []) i j = [] := by
  simp [posted]

theorem label_of_mem_posted {label : Λ} {out : PartyId → List Bytes} {i j : PartyId}
    {letter : Letter Λ} (mem : letter ∈ posted n label out i j) : letter.label = label := by
  rw [posted] at mem
  split_ifs at mem
  · obtain ⟨bytes, -, rfl⟩ := List.mem_map.mp mem
    rfl
  · exact absurd mem List.not_mem_nil

/-- The turns of all parties, whatever `more` waits in the channels behind the letters they take. -/
theorem Turns.joint {round : Round F σ P α} {p p' : PartyId → P} {S S' : PartyId → Party F σ}
    {came out : PartyId → List Bytes} {result : PartyId → Except Error α}
    (turns : Turns n round p S came result p' S' out) (last label : Λ)
    (more : PartyId → PartyId → List (Letter Λ)) (taken : PartyId → PartyId → List (Λ × Letter Λ)) :
    Joint n (fun i => ((round.run (p i)).run (S i)).labelled label)
      (fun i j => ⟨posted n last came i j ++ more i j, taken i j⟩)
      (fun i => ((result i, p' i), S' i))
      (fun i j => ⟨more i j ++ posted n label out i j,
        taken i j ++ (posted n last came i j).map (Prod.mk label)⟩) := by
  let letters (j i : PartyId) : List (Letter Λ) :=
    if j ∈ peersOf i n then (came j).map (Letter.mk last) else []
  let sent (i j : PartyId) : List Bytes := if j ∈ peersOf i n then out i else []
  have plays : ∀ i, IsMember n i → ((round.run (p i)).run (S i)).Plays (peersOf i n)
      (fun j => (letters j i).map Letter.bytes) (sent i) ((result i, p' i), S' i) := by
    intro i member
    refine Exchange.plays_iff.mpr ?_
    have turn := turns i member
    have start : Mailbox.among (peersOf i n) came []
        = .received fun j => (letters j i).map Letter.bytes := by
      simp only [Mailbox.among, Mailbox.received, Mailbox.mk.injEq, letters]
      refine ⟨funext fun j => ?_, funext fun j => ite_self _⟩
      split_ifs <;> simp [Function.comp_def]
    have ended : Mailbox.among (peersOf i n) (fun _ => []) (out i) = .sent (sent i) := by
      simp [Mailbox.among, Mailbox.sent, sent]
    rwa [start, ended] at turn
  have run : Joint n (fun i => ((round.run (p i)).run (S i)).labelled label)
      (fun i j => ⟨letters i j ++ more i j, taken i j⟩) _ _ := Joint.of_plays plays
  refine run.congr (fun _ _ => rfl) (fun i j hi hj => ?_) (fun _ _ => rfl) (fun i j hi hj => ?_)
  · simp only [letters, posted, mem_peersOf_comm hi hj]
  · simp only [letters, sent, posted, mem_peersOf_comm hi hj]
    split_ifs <;> simp

/-! ## Protocols of a batch -/

/-- What a round reports when so many rounds are left after it. -/
def statusWith (left : Nat) : Status := if left = 0 then .isDone else .hasMoreRounds

/-- A protocol of a batch: its states and messages at all parties, how many rounds it has left, and
what it is to end with. -/
structure Entrant (P : Type) where
  protocol : PartyId → P
  came : PartyId → List Bytes
  left : Nat
  post : (PartyId → P) → Prop

namespace Entrant

variable {tag : (round position : Nat) → Λ} {last : (position : Nat) → Λ}
  {Fits : Λ → Λ → Prop} {taken : PartyId → PartyId → List (Λ × Letter Λ)}

/-- The slot of a party. -/
def slot (e : Entrant P) (i : PartyId) : Slot P := ⟨e.protocol i, decide (0 < e.left)⟩

/-- The slots of a party, for a whole batch. -/
def slots (E : List (Entrant P)) (i : PartyId) : List (Slot P) := E.map fun e => e.slot i

/-- The letters of a batch in the channel between two parties. -/
def waiting (n : Nat) (label : (position : Nat) → Λ) :
    (position : Nat) → List (Entrant P) → PartyId → PartyId → List (Letter Λ)
  | _, [] => fun _ _ => []
  | position, e :: E => fun i j =>
    posted n (label position) e.came i j ++ waiting n label (position + 1) E i j

/-- The number of rounds that a batch has left. -/
def longest (E : List (Entrant P)) : Nat := (E.map left).foldr max 0

/-- How an entrant is related to what it was a round ago. -/
def Follows (e e' : Entrant P) : Prop := e'.left = e.left - 1 ∧ e'.post = e.post

/-- What was taken fits what took it. -/
def AllFit (Fits : Λ → Λ → Prop) (taken : PartyId → PartyId → List (Λ × Letter Λ)) : Prop :=
  ∀ i j, ∀ entry ∈ taken i j, Fits entry.1 entry.2.label

theorem allFit_append (fit : AllFit Fits taken)
    {label label' : Λ} {came : PartyId → List Bytes}
    (fits : (came = fun _ => []) ∨ Fits label label') :
    AllFit Fits fun i j => taken i j ++ (posted n label' came i j).map (Prod.mk label) := by
  intro i j entry mem
  rcases List.mem_append.mp mem with old | new
  · exact fit i j entry old
  · rcases fits with nothing | fits
    · simp [nothing] at new
    · obtain ⟨letter, here, rfl⟩ := List.mem_map.mp new
      rwa [label_of_mem_posted here]

theorem longest_cons (e : Entrant P) (E : List (Entrant P)) :
    longest (e :: E) = max e.left (longest E) := rfl

theorem left_le_longest {e : Entrant P} {E : List (Entrant P)} (mem : e ∈ E) :
    e.left ≤ longest E := by
  induction E with
  | nil => exact absurd mem List.not_mem_nil
  | cons first E ih =>
      rw [longest_cons]
      obtain rfl | among := List.mem_cons.mp mem
      · exact Nat.le_max_left _ _
      · exact Nat.le_trans (ih among) (Nat.le_max_right _ _)

/-- A round leaves one round less. -/
theorem longest_follows {E E' : List (Entrant P)} (follows : List.Forall₂ Follows E E') :
    longest E' = longest E - 1 := by
  induction follows with
  | nil => rfl
  | cons head _ ih =>
      rw [longest_cons, longest_cons, ih, head.1]
      omega

/-- Somebody is active as long as there are rounds left. -/
theorem any_slots (E : List (Entrant P)) (i : PartyId) :
    (slots E i).any (·.active) = decide (0 < longest E) := by
  induction E with
  | nil => rfl
  | cons e E ih =>
      rw [longest_cons, slots, List.map_cons, List.any_cons]
      rw [slots] at ih
      rw [ih, Bool.eq_iff_iff]
      simp only [slot, Bool.or_eq_true, decide_eq_true_eq]
      omega

/-- Nothing waits if nothing was sent. -/
theorem waiting_eq_nil {E : List (Entrant P)} (silent : ∀ e ∈ E, e.came = fun _ => [])
    (position : Nat) : waiting n last position E = fun _ _ => [] := by
  induction E generalizing position with
  | nil => rfl
  | cons e E ih =>
      obtain ⟨here, silent⟩ := List.forall_mem_cons.mp silent
      simp only [waiting, here, posted_nil, ih silent, List.nil_append]

theorem map_protocol_of_longest {E : List (Entrant P)} (none : longest E = 0) (i : PartyId) :
    (E.map protocol).map (fun p => (⟨p i, false⟩ : Slot P)) = slots E i := by
  induction E with
  | nil => rfl
  | cons e E ih =>
      rw [longest_cons] at none
      have idle : e.left = 0 := by omega
      simp only [List.map_cons, slots, slot, idle, Nat.lt_irrefl, decide_false] at ih ⊢
      rw [ih (by omega)]

/-- What holds in the end is what an entrant was to end with. -/
theorem forall₂_follows {E E' : List (Entrant P)} {p : List (PartyId → P)}
    (follows : List.Forall₂ Follows E E')
    (posts : List.Forall₂ (fun e p => e.post p) E' p) : List.Forall₂ (fun e p => e.post p) E p := by
  induction follows generalizing p with
  | nil => exact posts
  | cons head _ ih =>
      cases posts with
      | cons post posts => exact .cons (head.2 ▸ post) (ih posts)

/-- A batch that has not begun. -/
def Fresh (E : List (Entrant P)) : Prop := ∀ e ∈ E, 0 < e.left ∧ e.came = fun _ => []

theorem slots_of_fresh {E : List (Entrant P)} (fresh : Fresh E) (i : PartyId) :
    slots E i = (E.map fun e => e.protocol i).map fun protocol => { protocol } := by
  rw [List.map_map]
  exact List.map_congr_left fun e mem => by simp [slot, (fresh e mem).1]

end Entrant

/-! ## Journeys -/

section Journeys

variable {G : Type} (n) [Protocol F σ P] (Inv : G → (PartyId → Party F σ) → Prop)
  (move : (round : Nat) → G → G) (post : (PartyId → P) → Prop)

/-- **Journey.**  From the given states and messages on, the protocol of all parties goes well for
`left` more rounds and then satisfies `post`.  The parties may be in any states with `Inv` when its
turn comes, and it moves on the index of `Inv`, until it is done. -/
def Journey : (left round : Nat) → (PartyId → P) → (came : PartyId → List Bytes) → Prop
  | 0, round, p, came => post p ∧ (came = fun _ => []) ∧ ∀ later, round ≤ later → move later = id
  | left + 1, round, p, came => ∀ g S, Inv g S → ∃ p' S' out,
      Turns n (Protocol.evaluate (F := F) (σ := σ) round) p S came
        (fun _ => .ok (statusWith left)) p' S' out ∧
      Inv (move round g) S' ∧ Journey left (round + 1) p' out

/-- A journey whose next round sets out from one index only. -/
def SetsOut (left round : Nat) (p : PartyId → P) (came : PartyId → List Bytes) (g : G) : Prop :=
  ∀ S, Inv g S → ∃ p' S' out,
    Turns n (Protocol.evaluate (F := F) (σ := σ) round) p S came
      (fun _ => .ok (statusWith left)) p' S' out ∧
    Inv (move round g) S' ∧ Journey n Inv move post left (round + 1) p' out

end Journeys

/-- A protocol of a batch, with its moves. -/
structure Traveller (P G : Type) extends Entrant P where
  move : (round : Nat) → G → G

namespace Traveller

open Entrant

variable {G : Type} [Protocol F σ P] (Inv : G → (PartyId → Party F σ) → Prop)

/-- The protocols of a batch, without their moves. -/
def entrants (E : List (Traveller P G)) : List (Entrant P) := E.map (·.toEntrant)

/-- The next round of a protocol, if it has one, sets out from an index. -/
def Goes (n round : Nat) (e : Traveller P G) (g : G) : Prop :=
  match e.left with
  | 0 => Journey n Inv e.move e.post 0 round e.protocol e.came
  | left + 1 => SetsOut n Inv e.move e.post left round e.protocol e.came g

/-- The next rounds of all protocols of a batch do, one after the other. -/
def GoAll (n round : Nat) : List (Traveller P G) → G → Prop
  | [], _ => True
  | e :: E, g => e.Goes Inv n round g ∧ GoAll n round E (e.move round g)

/-- Where a round of a batch leads. -/
def stage (E : List (Traveller P G)) (round : Nat) (g : G) : G :=
  E.foldl (fun g e => e.move round g) g

/-- Where so many rounds of a batch lead, from a round on. -/
def passage (E : List (Traveller P G)) (round rounds : Nat) (g : G) : G :=
  (List.range' round rounds).foldl (fun g round => stage E round g) g

/-- How a protocol is related to what it was a round ago. -/
def Follows (e e' : Traveller P G) : Prop :=
  e.toEntrant.Follows e'.toEntrant ∧ e'.move = e.move

variable {Inv} {tag : (round position : Nat) → Λ} {last : (position : Nat) → Λ}
  {Fits : Λ → Λ → Prop} {taken : PartyId → PartyId → List (Λ × Letter Λ)}
  {round : Nat} {E E' : List (Traveller P G)} {g : G}

theorem entrants_follows (follows : List.Forall₂ Follows E E') :
    List.Forall₂ Entrant.Follows (entrants E) (entrants E') :=
  List.forall₂_map_left_iff.mpr (List.forall₂_map_right_iff.mpr (follows.imp fun _ _ both => both.1))

theorem stage_follows (follows : List.Forall₂ Follows E E') : stage E' = stage E := by
  funext round g
  induction follows generalizing g with
  | nil => rfl
  | cons head _ ih =>
      rw [stage, List.foldl_cons, head.2]
      exact ih _

theorem passage_follows (follows : List.Forall₂ Follows E E') (rounds : Nat) :
    passage E' round rounds g = passage E round rounds g := by
  rw [passage, stage_follows follows, passage]

omit [Protocol F σ P] in
theorem stage_of_idle (idle : ∀ e ∈ E, e.move round = id) (g : G) : stage E round g = g := by
  induction E with
  | nil => rfl
  | cons e E ih =>
      obtain ⟨here, others⟩ := List.forall_mem_cons.mp idle
      rw [stage, List.foldl_cons, here]
      exact ih others

omit [Protocol F σ P] in
/-- Rounds in which nobody moves any more change nothing. -/
theorem passage_of_idle {rounds : Nat} (idle : ∀ e ∈ E, ∀ later, rounds ≤ later → e.move later = id)
    (more : Nat) (g : G) : passage E 0 (rounds + more) g = passage E 0 rounds g := by
  induction more with
  | zero => rfl
  | succ more ih =>
      rw [passage, ← Nat.add_assoc, List.range'_1_concat, List.foldl_append, Nat.zero_add]
      refine (stage_of_idle (fun e mem => idle e mem _ (Nat.le_add_right ..)) _).trans ih

variable (tag) in
/-- **A round of a batch.**  Each protocol takes what waits for it and sends for the next round,
behind what the protocols before it sent. -/
theorem joint_advance (go : GoAll Inv n round E g) {S : PartyId → Party F σ} (inv : Inv g S)
    (fits : (∀ e ∈ E, e.came = fun _ => []) ∨ ∀ position, Fits (tag round position) (last position))
    (fit : AllFit Fits taken) (position : Nat) (more : PartyId → PartyId → List (Letter Λ)) :
    ∃ (E' : List (Traveller P G)) (S' : PartyId → Party F σ) (taken' : _), Joint n
        (fun i => (Slot.advanceTagged tag round position (slots (entrants E) i)).run (S i))
        (fun i j => ⟨waiting n last position (entrants E) i j ++ more i j, taken i j⟩)
        (fun i => ((.ok (), slots (entrants E') i), S' i))
        (fun i j => ⟨more i j ++ waiting n (tag round) position (entrants E') i j, taken' i j⟩) ∧
      Inv (stage E round g) S' ∧ List.Forall₂ Follows E E' ∧ (∀ h, GoAll Inv n (round + 1) E' h) ∧
      AllFit Fits taken' := by
  induction E generalizing g S position more taken with
  | nil =>
      refine ⟨[], S, taken, ?_, inv, .nil, fun _ => trivial, fit⟩
      simp only [entrants, List.map_nil, waiting, List.nil_append, List.append_nil]
      exact .pure _ _
  | cons e E ih =>
      obtain ⟨goes, go⟩ := go
      have fits' : (∀ e ∈ E, e.came = fun _ => []) ∨
          ∀ position, Fits (tag round position) (last position) :=
        fits.imp_left fun nothing e mem => nothing e (List.mem_cons_of_mem _ mem)
      obtain ⟨⟨p, came, left, post⟩, move⟩ := e
      cases left with
      | zero =>
          -- a protocol that is done has left nothing in the channels
          obtain ⟨done, rfl, idle⟩ := goes
          have still : move round = id := idle round (Nat.le_refl round)
          simp only [still, id_eq] at go
          obtain ⟨E', S', taken', run, inv', follows, go', fit'⟩ :=
            ih go inv fits' fit (position + 1) more
          refine ⟨⟨⟨p, fun _ => [], 0, post⟩, move⟩ :: E', S', taken', ?_, ?_,
            .cons ⟨⟨rfl, rfl⟩, rfl⟩ follows, fun h => ⟨⟨done, rfl, ?_⟩, go' _⟩, fit'⟩
          · simp only [entrants, List.map_cons, waiting, posted_nil, List.nil_append] at run ⊢
            exact run.bind (.pure _ _)
          · simp only [stage, List.foldl_cons, still, id_eq]
            exact inv'
          · exact fun later after => idle later (Nat.le_of_succ_le after)
      | succ left =>
          obtain ⟨p', S₁, out, turns, inv₁, journey⟩ := goes S inv
          have first := turns.joint (last position) (tag round position)
            (fun i j => waiting n last (position + 1) (entrants E) i j ++ more i j) taken
          have fit₁ : AllFit Fits fun i j =>
              taken i j ++ (posted n (last position) came i j).map (Prod.mk (tag round position)) :=
            allFit_append fit (fits.imp (fun nothing => nothing _ (List.mem_cons_self ..))
              fun fits => fits position)
          obtain ⟨E', S', taken', run, inv', follows, go', fit'⟩ := ih go inv₁ fits' fit₁ (position + 1)
            fun i j => more i j ++ posted n (tag round position) out i j
          refine ⟨⟨⟨p', out, left, post⟩, move⟩ :: E', S', taken', ?_, inv',
            .cons ⟨⟨rfl, rfl⟩, rfl⟩ follows, fun h => ⟨?_, go' _⟩, fit'⟩
          · have active : (statusWith left == .hasMoreRounds) = decide (0 < left) := by
              cases left <;> rfl
            simp only [entrants, slots, List.map_cons, slot, Slot.advanceTagged, Nat.zero_lt_succ,
              decide_true, if_true, waiting, List.append_assoc, ← active] at first run ⊢
            exact first.bind (run.bind (.pure _ _))
          · cases left with
            | zero => exact journey
            | succ left => exact journey h

/-- When no rounds are left, everything is done. -/
theorem done_of_longest (go : GoAll Inv n round E g) (none : longest (entrants E) = 0) :
    ∀ e ∈ E, e.post e.protocol ∧ e.came = fun _ => [] := by
  induction E generalizing g with
  | nil => simp
  | cons e E ih =>
      obtain ⟨goes, go⟩ := go
      rw [entrants, List.map_cons, longest_cons] at none
      obtain ⟨⟨p, came, left, post⟩, move⟩ := e
      obtain rfl : left = 0 := by simp only at none; omega
      obtain ⟨here, silent, -⟩ := goes
      exact List.forall_mem_cons.mpr ⟨⟨here, silent⟩, ih go (by rw [entrants]; omega)⟩

variable (tag)

/-- **All rounds of a batch**, from one in which nothing waits but what belongs to it. -/
theorem joint_drive (last : (position : Nat) → Λ) {limit : Nat} (go : GoAll Inv n round E g)
    {S : PartyId → Party F σ} (inv : Inv g S) (enough : longest (entrants E) < limit)
    (fits : (∀ e ∈ E, e.came = fun _ => []) ∨ ∀ position, Fits (tag round position) (last position))
    (fitting : ∀ round position, Fits (tag (round + 1) position) (tag round position))
    (fit : AllFit Fits taken) :
    ∃ (p' : List (PartyId → P)) (S' : PartyId → Party F σ) (taken' : _), Joint n
        (fun i => (Slot.driveTagged tag limit round (slots (entrants E) i)).run (S i))
        (fun i j => ⟨waiting n last 0 (entrants E) i j, taken i j⟩)
        (fun i => ((.ok (round + longest (entrants E)), p'.map fun p => ⟨p i, false⟩), S' i))
        (fun i j => ⟨[], taken' i j⟩) ∧
      Inv (passage E round (longest (entrants E)) g) S' ∧
      List.Forall₂ (fun e p => e.post p) (entrants E) p' ∧ AllFit Fits taken' := by
  induction limit generalizing round E g S last taken with
  | zero => exact absurd enough (Nat.not_lt_zero _)
  | succ limit ih =>
      by_cases none : longest (entrants E) = 0
      · have done := done_of_longest go none
        have silent : ∀ e ∈ entrants E, e.came = fun _ => [] :=
          List.forall_mem_map.mpr fun e mem => (done e mem).2
        refine ⟨(entrants E).map protocol, S, taken, ?_, ?_, ?_, fit⟩
        · have idle : ∀ i, (slots (entrants E) i).any (·.active) = false := fun i => by
            rw [any_slots, none]
            rfl
          have same : ∀ i, ((entrants E).map protocol).map (fun p => (⟨p i, false⟩ : Slot P))
              = slots (entrants E) i := fun i => map_protocol_of_longest none i
          simp only [Slot.driveTagged, idle, Bool.false_eq_true, if_false, none, Nat.add_zero,
            same, waiting_eq_nil silent]
          exact .pure _ _
        · rwa [none]
        · exact List.forall₂_map_right_iff.mpr (List.forall₂_same.mpr
            (List.forall_mem_map.mpr fun e mem => (done e mem).1))
      · obtain ⟨E', S₁, taken₁, run, inv₁, follows, go', fit₁⟩ :=
          joint_advance tag go inv fits fit 0 fun _ _ => []
        have shorter := longest_follows (entrants_follows follows)
        obtain ⟨p', S', taken', run', inv', posts, fit'⟩ := ih (tag round) (go' _) inv₁ (by omega)
          (.inr (fitting round)) fit₁
        refine ⟨p', S', taken', ?_, ?_, forall₂_follows (entrants_follows follows) posts, fit'⟩
        · have active : ∀ i, (slots (entrants E) i).any (·.active) = true := fun i => by
            rw [any_slots]
            simpa using Nat.pos_of_ne_zero none
          have rounds : round + 1 + longest (entrants E') = round + longest (entrants E) := by
            omega
          simp only [List.append_nil, List.nil_append] at run
          simp only [Slot.driveTagged, active, if_true]
          rw [rounds] at run'
          exact run.bind run'
        · rw [passage_follows follows, shorter] at inv'
          obtain ⟨rounds, more⟩ := Nat.exists_eq_succ_of_ne_zero none
          rw [more] at inv' ⊢
          exact inv'

/-- **A batch of protocols that go well goes well.**  All parties count the rounds of the longest of
them, and nothing is left in the channels. -/
theorem joint_driveRounds (go : GoAll Inv n 0 E g) {S : PartyId → Party F σ} (inv : Inv g S)
    (fresh : Fresh (entrants E)) (short : longest (entrants E) < maxRounds)
    (fitting : ∀ round position, Fits (tag (round + 1) position) (tag round position))
    (fit : AllFit Fits taken) :
    ∃ (p' : List (PartyId → P)) (S' : PartyId → Party F σ) (taken' : _), Joint n
        (fun i => (driveRoundsTagged tag (E.map fun e => e.protocol i)).run (S i))
        (fun i j => ⟨[], taken i j⟩)
        (fun i => ((.ok (longest (entrants E)), p'.map fun p => p i), S' i))
        (fun i j => ⟨[], taken' i j⟩) ∧
      Inv (passage E 0 (longest (entrants E)) g) S' ∧
      List.Forall₂ (fun e p => e.post p) (entrants E) p' ∧ AllFit Fits taken' := by
  have silent : ∀ e ∈ entrants E, e.came = fun _ => [] := fun e mem => (fresh e mem).2
  obtain ⟨p', S', taken', run, inv', posts, fit'⟩ := joint_drive tag (tag 0) go inv short
    (.inl fun e mem => silent _ (List.mem_map_of_mem mem)) fitting fit
  refine ⟨p', S', taken', ?_, inv', posts, fit'⟩
  simp only [waiting_eq_nil silent, slots_of_fresh fresh, Nat.zero_add] at run
  have ended : ∀ i, (p'.map fun p => p i)
      = (p'.map fun p => (⟨p i, false⟩ : Slot P)).map (·.protocol) := fun i => by
    simp [Function.comp_def]
  have protocols : ∀ i, (E.map fun e => e.protocol i)
      = (entrants E).map fun e => e.protocol i := fun i => by
    simp [entrants, Function.comp_def]
  simp only [ended, protocols]
  exact run.bind (.pure _ _)

end Traveller

end Spdz
