import Spdz.Proofs.Evaluation.Journeys

/-!
# A batch in lock step

Most of the time it does not matter where exactly a batch leads.  What the parties draw they draw in
the first round, and what holds of them then, they keep.  So a batch goes well if each protocol goes
well by itself, on whatever states the parties are in when its turn comes.

* `Course` — a protocol that goes well for so many rounds and keeps what holds of the parties.
* `Departs` — the same, where the first round leads from one index to another.
* **`Entrant.joint_driveRounds`** — a batch of protocols that go well goes well.
* `joint_driveRounds_alone` — a protocol by itself, which may also end with an error.
-/

namespace Spdz

variable {F : FieldSpec} {σ P Λ α : Type} {n : Nat}

/-! ## Protocols that go well -/

section Courses

variable {G : Type} (n) [Protocol F σ P] (Inv : G → (PartyId → Party F σ) → Prop)

/-- **Course.**  From the given states and messages on, the protocol of all parties goes well for
`left` more rounds and then satisfies `post`.  The parties may be in any states with `Inv` when its
turn comes, and it keeps `Inv`, whatever it is that `Inv` is indexed by. -/
def Course (post : (PartyId → P) → Prop) :
    (left round : Nat) → (PartyId → P) → (came : PartyId → List Bytes) → Prop
  | 0, _, p, came => post p ∧ came = fun _ => []
  | left + 1, round, p, came => ∀ g S, Inv g S → ∃ p' S' out,
      Turns n (Protocol.evaluate (F := F) (σ := σ) round) p S came
        (fun _ => .ok (statusWith left)) p' S' out ∧
      Inv g S' ∧ Course post left (round + 1) p' out

/-- A protocol goes well, and its next round leads from one index of `Inv` to another.  In later
rounds no more than `Late` is sure. -/
def Departs (Late : G → (PartyId → Party F σ) → Prop) (post : (PartyId → P) → Prop)
    (left round : Nat) (p : PartyId → P) (came : PartyId → List Bytes) (g g' : G) : Prop :=
  ∀ S, Inv g S → ∃ p' S' out,
    Turns n (Protocol.evaluate (F := F) (σ := σ) round) p S came
      (fun _ => .ok (statusWith left)) p' S' out ∧
    Inv g' S' ∧ Course n Late post left (round + 1) p' out

variable {n Inv} {Q : Type} [Protocol F σ Q] {wrap : P → Q} {Late : G → (PartyId → Party F σ) → Prop}
  {post : (PartyId → P) → Prop} {post' : (PartyId → Q) → Prop} {left round : Nat} {p : PartyId → P}
  {came : PartyId → List Bytes}

/-- A protocol goes well also as one kind of another. -/
theorem Course.embed (embeds : Embeds (F := F) σ wrap)
    (weaker : ∀ p, post p → post' fun i => wrap (p i)) (course : Course n Inv post left round p came) :
    Course n Inv post' left round (fun i => wrap (p i)) came := by
  induction left generalizing round p came with
  | zero => exact ⟨weaker p course.1, course.2⟩
  | succ left ih =>
      intro g S inv
      obtain ⟨p', S', out, turns, inv', later⟩ := course g S inv
      exact ⟨_, S', out, turns.embed embeds, inv', ih later⟩

theorem Departs.embed (embeds : Embeds (F := F) σ wrap)
    (weaker : ∀ p, post p → post' fun i => wrap (p i)) {g g' : G}
    (departs : Departs n Inv Late post left round p came g g') :
    Departs n Inv Late post' left round (fun i => wrap (p i)) came g g' := by
  intro S inv
  obtain ⟨p', S', out, turns, inv', later⟩ := departs S inv
  exact ⟨_, S', out, turns.embed embeds, inv', later.embed embeds weaker⟩

/-! ### Where they lead -/

namespace Course

/-- What holds at an index, in the first round and later. -/
def Holds (Inv Late : G → (PartyId → Party F σ) → Prop) : G × Bool → (PartyId → Party F σ) → Prop
  | (g, false) => Inv g
  | (g, true) => Late g

/-- The moves of a protocol of so many rounds.  The first leads to the given index, which is then
kept. -/
def moves (rounds : Nat) (first : G) (round : Nat) (now : G × Bool) : G × Bool :=
  if round = 0 then (first, false) else if round < rounds then (now.1, true) else now

omit [Protocol F σ P] [Protocol F σ Q] in
theorem Holds.late (weaken : ∀ g S, Inv g S → Late g S) {now : G × Bool} {S : PartyId → Party F σ}
    (holds : Holds Inv Late now S) : Late now.1 S := by
  obtain ⟨g, late⟩ := now
  cases late with
  | false => exact weaken g S holds
  | true => exact holds

theorem fst_moves {rounds round : Nat} (later : 0 < round) (first : G) (now : G × Bool) :
    (moves rounds first round now).1 = now.1 := by
  rw [moves, if_neg (Nat.ne_of_gt later)]
  split_ifs <;> rfl

/-- A protocol that keeps what holds is on a journey that stays where it is. -/
theorem journey (weaken : ∀ g S, Inv g S → Late g S) {rounds : Nat} (first : G)
    (course : Course n Late post left round p came) (later : 0 < round)
    (due : round + left = rounds) :
    Journey n (Holds Inv Late) (moves rounds first) post left round p came := by
  induction left generalizing round p came with
  | zero =>
      refine ⟨course.1, course.2, fun after le => funext fun now => ?_⟩
      rw [moves, if_neg (by omega), if_neg (by omega), id]
  | succ left ih =>
      intro now S holds
      obtain ⟨p', S', out, turns, late, onwards⟩ := course now.1 S (holds.late weaken)
      refine ⟨p', S', out, turns, ?_, ih onwards (Nat.succ_pos round) (by omega)⟩
      rwa [moves, if_neg (Nat.ne_of_gt later), if_pos (by omega)]

end Course

theorem Departs.setsOut (weaken : ∀ g S, Inv g S → Late g S) {g g' : G}
    (departs : Departs n Inv Late post left 0 p came g g') :
    SetsOut n (Course.Holds Inv Late) (Course.moves (left + 1) g') post left 0 p came (g, false) := by
  intro S inv
  obtain ⟨p', S', out, turns, inv', course⟩ := departs S inv
  exact ⟨p', S', out, turns, inv', course.journey weaken g' Nat.one_pos (Nat.add_comm 1 left)⟩

end Courses

/-! ## Batches -/

namespace Entrant

variable {G : Type} [Protocol F σ P] (Inv Late : G → (PartyId → Party F σ) → Prop)

/-- The next round of a protocol, if it has one, leads from one index of `Inv` to another. -/
def Goes (n round : Nat) (e : Entrant P) (g g' : G) : Prop :=
  match e.left with
  | 0 => g = g' ∧ Course n Late e.post 0 round e.protocol e.came
  | left + 1 => Departs n Inv Late e.post left round e.protocol e.came g g'

/-- The next rounds of all protocols of a batch do, one after the other. -/
def GoAll (n round : Nat) : List (Entrant P) → G → G → Prop
  | [], g, g' => g = g'
  | e :: E, g, g'' => ∃ g', Goes Inv Late n round e g g' ∧ GoAll n round E g' g''

variable {Inv Late} {tag : (round position : Nat) → Λ} {last : (position : Nat) → Λ}
  {Fits : Λ → Λ → Prop} {taken : PartyId → PartyId → List (Λ × Letter Λ)}

section Embedding

variable {Q : Type} [Protocol F σ Q] (wrap : P → Q)

/-- A protocol of a batch, as one kind of another. -/
def embed (e : Entrant P) : Entrant Q where
  protocol i := wrap (e.protocol i)
  came := e.came
  left := e.left
  post q := ∃ p, (q = fun i => wrap (p i)) ∧ e.post p

variable {wrap}

theorem longest_embed (E : List (Entrant P)) : longest (E.map (embed wrap)) = longest E := by
  rw [longest, longest, List.map_map]
  rfl

/-- A batch goes well also as one of protocols of another kind. -/
theorem GoAll.embed (embeds : Embeds (F := F) σ wrap) {round : Nat} {E : List (Entrant P)} {g g' : G}
    (go : GoAll Inv Late n round E g g') :
    GoAll Inv Late n round (E.map (Entrant.embed wrap)) g g' := by
  induction E generalizing g with
  | nil => exact go
  | cons e E ih =>
      obtain ⟨g₁, goes, go⟩ := go
      refine ⟨g₁, ?_, ih go⟩
      obtain ⟨p, came, left, post⟩ := e
      cases left with
      | zero =>
          have done : Course n Late (fun q => ∃ p, (q = fun i => wrap (p i)) ∧ post p) 0 round
              (fun i => wrap (p i)) came := goes.2.embed embeds fun p holds => ⟨p, rfl, holds⟩
          exact ⟨goes.1, done⟩
      | succ left => exact Departs.embed embeds (fun p holds => ⟨p, rfl, holds⟩) goes

/-- What embedded protocols end with is what the protocols end with. -/
theorem of_forall₂_embed {E : List (Entrant P)} {q : List (PartyId → Q)}
    (posts : List.Forall₂ (fun e q => e.post q) (E.map (embed wrap)) q) :
    ∃ p : List (PartyId → P), (q = p.map fun p i => wrap (p i)) ∧
      List.Forall₂ (fun e p => e.post p) E p := by
  induction E generalizing q with
  | nil =>
      cases posts
      exact ⟨[], rfl, .nil⟩
  | cons e E ih =>
      cases posts with
      | cons first others =>
          obtain ⟨p, rfl, holds⟩ := first
          obtain ⟨all, rfl, rest⟩ := ih others
          exact ⟨p :: all, rfl, .cons holds rest⟩

end Embedding

/-- The protocols of a batch that has not begun, with their moves. -/
theorem exists_travellers (weaken : ∀ g S, Inv g S → Late g S) {E : List (Entrant P)} {g g' : G}
    (go : GoAll Inv Late n 0 E g g') (fresh : Fresh E) :
    ∃ T : List (Traveller P (G × Bool)), Traveller.entrants T = E ∧
      Traveller.GoAll (Course.Holds Inv Late) n 0 T (g, false) ∧
      Traveller.stage T 0 (g, false) = (g', false) ∧
      ∀ round now, 0 < round → (Traveller.stage T round now).1 = now.1 := by
  induction E generalizing g with
  | nil =>
      obtain rfl := go
      exact ⟨[], rfl, trivial, rfl, fun _ _ _ => rfl⟩
  | cons e E ih =>
      obtain ⟨g₁, goes, go⟩ := go
      obtain ⟨⟨active, -⟩, fresh⟩ := List.forall_mem_cons.mp fresh
      obtain ⟨T, rfl, onwards, leads, stays⟩ := ih go fresh
      obtain ⟨p, came, left, post⟩ := e
      obtain ⟨left, rfl⟩ := Nat.exists_eq_succ_of_ne_zero (Nat.ne_of_gt active)
      refine ⟨⟨⟨p, came, left + 1, post⟩, Course.moves (left + 1) g₁⟩ :: T, rfl,
        ⟨Departs.setsOut weaken goes, onwards⟩, leads, fun round now later => ?_⟩
      exact (stays round _ later).trans (Course.fst_moves later g₁ now)

/-- Rounds after the first stay where they are. -/
theorem fst_passage {T : List (Traveller P (G × Bool))}
    (stays : ∀ round now, 0 < round → (Traveller.stage T round now).1 = now.1) {round : Nat}
    (later : 0 < round) (rounds : Nat) (now : G × Bool) :
    (Traveller.passage T round rounds now).1 = now.1 := by
  induction rounds generalizing round now with
  | zero => rfl
  | succ rounds ih => exact (ih (Nat.succ_pos round) _).trans (stays round now later)

/-- **A batch of protocols that go well goes well.**  All parties count the rounds of the longest of
them, and nothing is left in the channels. -/
theorem joint_driveRounds (tag : (round position : Nat) → Λ) (weaken : ∀ g S, Inv g S → Late g S)
    {E : List (Entrant P)} {g g' : G} (go : GoAll Inv Late n 0 E g g')
    {S : PartyId → Party F σ} (inv : Inv g S) (fresh : Fresh E) (short : longest E < maxRounds)
    (fitting : ∀ round position, Fits (tag (round + 1) position) (tag round position))
    (fit : AllFit Fits taken) :
    ∃ (p' : List (PartyId → P)) (S' : PartyId → Party F σ) (taken' : _), Joint n
        (fun i => (driveRoundsTagged tag (E.map fun e => e.protocol i)).run (S i))
        (fun i j => ⟨[], taken i j⟩)
        (fun i => ((.ok (longest E), p'.map fun p => p i), S' i))
        (fun i j => ⟨[], taken' i j⟩) ∧
      Late g' S' ∧ List.Forall₂ (fun e p => e.post p) E p' ∧ AllFit Fits taken' := by
  obtain ⟨T, rfl, onwards, leads, stays⟩ := exists_travellers weaken go fresh
  obtain ⟨p', S', taken', run, holds, posts, fit'⟩ :=
    Traveller.joint_driveRounds tag onwards inv fresh short fitting fit
  have arrives : (Traveller.passage T 0 (longest (Traveller.entrants T)) (g, false)).1 = g' := by
    cases T with
    | nil => exact congrArg Prod.fst leads
    | cons e T =>
        have active : 0 < e.left := (fresh _ List.mem_cons_self).1
        have some : 0 < longest (Traveller.entrants (e :: T)) :=
          Nat.lt_of_lt_of_le active (Nat.le_max_left _ _)
        obtain ⟨rounds, more⟩ := Nat.exists_eq_succ_of_ne_zero (Nat.ne_of_gt some)
        rw [more]
        exact (fst_passage stays Nat.one_pos rounds _).trans (congrArg Prod.fst leads)
  refine ⟨p', S', taken', ?_, arrives ▸ holds.late weaken, posts, fit'⟩
  simpa only [Traveller.entrants, List.map_map, Function.comp_def] using run

end Entrant

/-! ## A protocol by itself -/

section Alone

variable [Protocol F σ P] (tag : (round position : Nat) → Λ)

/-- The slot in which a protocol is left by its last round. -/
def endSlot (verdict : Except Error Unit) (p : P) : Slot P :=
  ⟨p, match verdict with
    | .ok () => false
    | .error _ => true⟩

/-- The record of what was taken in rounds of a single protocol, when `came` is what was sent in the
round before. -/
def takenIn (n : Nat) (came : (round : Nat) → PartyId → List Bytes) (i j : PartyId)
    (rounds : List Nat) : List (Λ × Letter Λ) :=
  rounds.flatMap fun round =>
    (posted n (tag (round - 1) 0) (came round) i j).map (Prod.mk (tag round 0))

/-- A round of a protocol by itself. -/
theorem joint_advanceAlone {round : Nat} {p p' : PartyId → P} {S S' : PartyId → Party F σ}
    {came out : PartyId → List Bytes} {result : PartyId → Except Error Status}
    (turns : Turns n (Protocol.evaluate round) p S came result p' S' out) (last : Λ)
    (taken : PartyId → PartyId → List (Λ × Letter Λ)) :
    Joint n (fun i => (Slot.advanceTagged tag round 0 [⟨p i, true⟩]).run (S i))
      (fun i j => ⟨posted n last came i j, taken i j⟩)
      (fun i => (match result i with
        | .error e => (.error e, [⟨p' i, true⟩])
        | .ok status => (.ok (), [⟨p' i, status == .hasMoreRounds⟩]), S' i))
      (fun i j => ⟨posted n (tag round 0) out i j,
        taken i j ++ (posted n last came i j).map (Prod.mk (tag round 0))⟩) := by
  have run := turns.joint last (tag round 0) (fun _ _ => []) taken
  simp only [List.append_nil, List.nil_append] at run
  simp only [Slot.advanceTagged, if_true]
  refine run.bind (.of_done fun i _ => ?_)
  cases result i <;> rfl

variable {p : (round : Nat) → PartyId → P} {S : (round : Nat) → PartyId → Party F σ}
  {came : (round : Nat) → PartyId → List Bytes} {R : Nat} {verdict : PartyId → Except Error Unit}
  {p' : PartyId → P} {S' : PartyId → Party F σ}

/-- The last rounds of a protocol by itself. -/
theorem joint_driveAlone
    (turns : ∀ round < R, Turns n (Protocol.evaluate round) (p round) (S round) (came round)
      (fun _ => .ok .hasMoreRounds) (p (round + 1)) (S (round + 1)) (came (round + 1)))
    (last : Turns n (Protocol.evaluate R) (p R) (S R) (came R)
      (fun i => (verdict i).map fun _ => .isDone) p' S' fun _ => [])
    (left : Nat) {round : Nat} (due : round + left = R) {limit : Nat} (enough : left + 1 < limit)
    (taken : PartyId → PartyId → List (Λ × Letter Λ)) :
    Joint n (fun i => (Slot.driveTagged tag limit round [⟨p round i, true⟩]).run (S round i))
      (fun i j => ⟨posted n (tag (round - 1) 0) (came round) i j, taken i j⟩)
      (fun i => (((verdict i).map fun _ => R + 1, [endSlot (verdict i) (p' i)]), S' i))
      (fun i j => ⟨[], taken i j ++ takenIn tag n came i j (List.range' round (left + 1))⟩) := by
  induction left generalizing round limit taken with
  | zero =>
      obtain rfl : round = R := due
      obtain ⟨limit, rfl⟩ : ∃ k, limit = k + 2 := ⟨limit - 2, by omega⟩
      have run := joint_advanceAlone tag last (tag (round - 1) 0) taken
      have log : ∀ i j, takenIn tag n came i j (List.range' round 1)
          = (posted n (tag (round - 1) 0) (came round) i j).map (Prod.mk (tag round 0)) :=
        fun i j => by simp [takenIn]
      simp only [posted_nil] at run
      simp only [Slot.driveTagged, List.any_cons, Bool.true_or, if_true, Nat.zero_add, log]
      refine run.bind (.of_done fun i _ => ?_)
      cases verdict i <;> rfl
  | succ left ih =>
      obtain ⟨limit, rfl⟩ : ∃ k, limit = k + 1 := ⟨limit - 1, by omega⟩
      have run := joint_advanceAlone tag (turns round (by omega)) (tag (round - 1) 0) taken
      have rest := ih (by omega : round + 1 + left = R) (by omega : left + 1 < limit) fun i j =>
        taken i j ++ (posted n (tag (round - 1) 0) (came round) i j).map (Prod.mk (tag round 0))
      have log : ∀ i j, takenIn tag n came i j (List.range' round (left + 1 + 1))
          = (posted n (tag (round - 1) 0) (came round) i j).map (Prod.mk (tag round 0))
            ++ takenIn tag n came i j (List.range' (round + 1) (left + 1)) :=
        fun i j => by simp [takenIn, List.range'_succ]
      simp only [Nat.add_sub_cancel, List.append_assoc] at rest
      simp only [Slot.driveTagged, List.any_cons, Bool.true_or, if_true, log]
      exact run.bind rest

/-- **A protocol by itself**, which may end with an error at some parties in its last round. -/
theorem joint_driveRounds_alone
    (turns : ∀ round < R, Turns n (Protocol.evaluate round) (p round) (S round) (came round)
      (fun _ => .ok .hasMoreRounds) (p (round + 1)) (S (round + 1)) (came (round + 1)))
    (last : Turns n (Protocol.evaluate R) (p R) (S R) (came R)
      (fun i => (verdict i).map fun _ => .isDone) p' S' fun _ => [])
    (silent : came 0 = fun _ => []) (enough : R + 1 < maxRounds)
    (taken : PartyId → PartyId → List (Λ × Letter Λ)) :
    Joint n (fun i => (driveRoundsTagged tag [p 0 i]).run (S 0 i)) (fun i j => ⟨[], taken i j⟩)
      (fun i => (((verdict i).map fun _ => R + 1, [p' i]), S' i))
      (fun i j => ⟨[], taken i j ++ takenIn tag n came i j (List.range' 0 (R + 1))⟩) := by
  have run := joint_driveAlone tag turns last R (Nat.zero_add R) enough taken
  simp only [silent, posted_nil] at run
  exact run.bind (.pure _ _)

end Alone

end Spdz
