import Spdz.Proofs.Evaluation.Calls
import Spdz.Proofs.Field.Inverse
import Spdz.Proofs.Simulation.Kept

/-!
# Actors that compute together

All parties follow one script, and beside them the script is carried out in plain.  The actors are
together with the plain computation when what they keep are sharings of what it keeps, and when their
sessions are aligned and have drawn as much as was read from the tape.

* `Tape.Tells` — the tape holds the items of the deck in plain; `Deck.exists_tape`, there is one.
* **`Together`** — the actors are together with the plain computation.
* `Request.Computes` — a request that is ready, and what it computes in plain, by the kinds of requests.
* `Keeping.build` — the protocols that all parties build are a request that is ready.
* `Keeping.compute` — what all parties compute by themselves is a sharing.
-/

namespace Spdz

variable {F : FieldSpec}

/-! ## The tape -/

/-- The tape holds the items of the deck in plain. -/
structure Tape.Tells (tape : Tape F) (deck : Deck F) : Prop where
  element : ∀ k, IsSharing deck.parties deck.key (fun i => deck.dealt i .element k) (tape.element k)
  bit : ∀ k, IsSharing deck.parties deck.key (fun i => deck.dealt i .bit k)
    (if tape.bit k then 1 else 0)
  pipe : ∀ k, tape.base k * tape.inverse k = 1 ∧ (∀ i, (deck.dealt i .pipe k).length = deck.length) ∧
    ∀ position < deck.length, IsSharing deck.parties deck.key
      (fun i => (deck.dealt i .pipe k).getD position 0)
      ((Plain.powers (tape.base k) (tape.inverse k) deck.length).getD position 0)

/-- What is dealt as a pipe are powers and an inverse. -/
theorem Dealing.pipeValues_eq {r s : Elem F} (inverse : r.invert = some s) (length : Nat) :
    pipeValues r length = Plain.powers r s length := by
  cases length with
  | zero => rfl
  | succ length => simp only [pipeValues, Plain.powers, inverse, Option.getD_some, Elem.pow_eq]

theorem Plain.length_powers (base inverse : Elem F) (length : Nat) :
    (powers base inverse length).length = length := by
  cases length <;> simp [powers]

/-- What is dealt can be told. -/
theorem Deck.exists_tape (declared : F.IsDeclared) (deck : Deck F) :
    ∃ tape : Tape F, tape.Tells deck := by
  choose plain dealt using deck.isDealt
  have nonzero : ∀ k, plain .pipe k ≠ 0 := fun k => (dealt .pipe k).1
  choose inverse computed inverts using fun k => Elem.mul_invert declared (nonzero k)
  refine ⟨⟨plain .element, plain .bit, plain .pipe, inverse⟩, dealt .element, dealt .bit, fun k => ?_⟩
  obtain ⟨-, lengths, sharings⟩ := dealt .pipe k
  rw [Dealing.pipeValues_eq (computed k)] at sharings
  exact ⟨inverts k, lengths, sharings⟩

/-! ## Actors and values -/

/-- A party that follows a script and has simulated items. -/
abbrev SimulatedActor (F : FieldSpec) := Actor F (Party.SimulatedSupplier F)

/-- So many items were drawn as were read from the tape. -/
def Plain.Counts (plain : Plain F) (drawn : Item → Nat) : Prop :=
  drawn .element = plain.elements ∧ drawn .bit = plain.bits ∧ drawn .pipe = plain.pipes

/-- The actors have their places and keep sharings of what is kept in plain. -/
structure Keeping (deck : Deck F) (plain : Plain F) (A : PartyId → SimulatedActor F) : Prop where
  seat : ∀ i, IsMember deck.parties i → (A i).seat.party = i
  kept : Keeps deck.parties deck.key (fun i => (A i).kept) plain.kept

/-- **Together.**  Besides, the actors' sessions, if they are not finished, are aligned. -/
structure Together (deck : Deck F) (config : Config) (plain : Plain F)
    (A : PartyId → SimulatedActor F) : Prop extends Keeping deck plain A where
  session : plain.finished = false → ∃ T drawn,
    (∀ i, IsMember deck.parties i → (A i).stage = .whole (T i)) ∧
    Aligned deck config True drawn T ∧ plain.Counts drawn

/-- A request that is ready, and what is computed for it in plain. -/
structure Request.Computes (deck : Deck F) (plain : Plain F) (request : Request F)
    (result : Plain.Result F) (plain' : Plain F) : Prop where
  ready : request.Ready deck
  authentic : request.Authentic deck
  kept : plain'.kept = plain.kept
  finished : plain'.finished = plain.finished
  counts : ∀ drawn, plain.Counts drawn → plain'.Counts (request.after drawn)
  shows : ∀ drawn, plain.Counts drawn → ∀ out, request.Results deck drawn out →
    result.Shows deck.parties deck.key out

/-- The same for all protocols of a batch. -/
structure Request.ComputeAll (deck : Deck F) (plain : Plain F) (requests : List (Request F))
    (results : List (Plain.Result F)) (plain' : Plain F) : Prop where
  ready : ∀ request ∈ requests, request.Ready deck
  authentic : ∀ request ∈ requests, request.Authentic deck
  kept : plain'.kept = plain.kept
  finished : plain'.finished = plain.finished
  counts : ∀ drawn, plain.Counts drawn → plain'.Counts (Request.afterAll drawn requests)
  shows : ∀ drawn, plain.Counts drawn → ∀ outs, Request.AllResults deck drawn requests outs →
    List.Forall₂ (fun r out => Plain.Result.Shows deck.parties deck.key out r) results outs

/-! ## What each request computes -/

namespace Request.Computes

variable {deck : Deck F} {plain : Plain F} {request : Request F} {result : Plain.Result F} {tape : Tape F}
  {x y : PartyId → Share F} {a b : Elem F}

/-- A request that reads nothing from the tape leaves the plain computation as it is. -/
theorem unread (ready : request.Ready deck) (authentic : request.Authentic deck)
    (counts : ∀ drawn, plain.Counts drawn → plain.Counts (request.after drawn))
    (shows : ∀ drawn out, request.Results deck drawn out → result.Shows deck.parties deck.key out) :
    request.Computes deck plain result plain where
  ready := ready
  authentic := authentic
  kept := rfl
  finished := rfl
  counts := counts
  shows drawn _ := shows drawn

/-- What the inputter has is shared, whether the input is checked or not. -/
theorem input {inputter : PartyId} (value : PartyId → Option (Elem F))
    (member : IsMember deck.parties inputter) (present : value inputter = some a) :
    (Request.input inputter value).Computes deck plain (.shared a) plain ∧
      (Request.checkedInput inputter value).Computes deck plain (.shared a) plain := by
  have ready : IsMember deck.parties inputter ∧ (value inputter).isSome := by
    rw [present]
    exact ⟨member, rfl⟩
  have shows : ∀ out, (∃ v, value inputter = some v ∧ deck.Shares out v) →
      (Plain.Result.shared a).Shows deck.parties deck.key out := by
    rintro out ⟨v, known, sharing⟩
    obtain rfl : v = a := Option.some.inj (known.symm.trans present)
    exact sharing
  exact ⟨.unread ready trivial (fun _ counts => counts) fun _ => shows,
    .unread ready trivial (fun _ counts => counts) fun _ => shows⟩

/-- Factors give a sharing of their product. -/
theorem multiply (sharingX : IsSharing deck.parties deck.key x a)
    (sharingY : IsSharing deck.parties deck.key y b) :
    (Request.multiply x y).Computes deck plain (.shared (a * b)) plain := by
  refine .unread trivial ⟨sharingX.authentic, sharingY.authentic⟩ (fun _ counts => counts)
    fun drawn out results => ?_
  obtain ⟨z, outputs, product⟩ := results
  exact ⟨z, outputs, product a b sharingX sharingY⟩

/-- All parties get to know what is opened to all, -/
theorem openAll (sharing : IsSharing deck.parties deck.key x a) :
    (Request.openAll x).Computes deck plain (.value a) plain := by
  refine .unread trivial sharing.authentic (fun _ counts => counts) fun drawn out results => ?_
  rw [← sharing.value]
  exact results

/-- and the target what is opened to it. -/
theorem openTo {target : PartyId} (member : IsMember deck.parties target)
    (sharing : IsSharing deck.parties deck.key x a) :
    (Request.openTo x target).Computes deck plain (.target target a) plain := by
  refine .unread member sharing.authentic (fun _ counts => counts) fun drawn out results => ?_
  rw [← sharing.value]
  exact results

/-- The next random element is read from the tape. -/
theorem element (tells : tape.Tells deck) :
    Request.element.Computes deck plain (.shared (tape.element plain.elements))
      { plain with elements := plain.elements + 1 } where
  ready := trivial
  authentic := trivial
  kept := rfl
  finished := rfl
  counts _ counts := ⟨congrArg (· + 1) counts.1, counts.2⟩
  shows _ counts _ results := ⟨_, results, counts.1 ▸ tells.element _⟩

/-- The same for the next random bit. -/
theorem bit (tells : tape.Tells deck) :
    Request.bit.Computes deck plain (.shared (if tape.bit plain.bits then 1 else 0))
      { plain with bits := plain.bits + 1 } where
  ready := trivial
  authentic := trivial
  kept := rfl
  finished := rfl
  counts _ counts := ⟨counts.1, congrArg (· + 1) counts.2.1, counts.2.2⟩
  shows _ counts _ results := ⟨_, results, counts.2.1 ▸ tells.bit _⟩

/-- The next pipe are the powers of what is on the tape. -/
theorem pipe (tells : tape.Tells deck) :
    (Request.pipe deck.length).Computes deck plain
      (.pipe (Plain.powers (tape.base plain.pipes) (tape.inverse plain.pipes) deck.length))
      { plain with pipes := plain.pipes + 1 } where
  ready := rfl
  authentic := trivial
  kept := rfl
  finished := rfl
  counts _ counts := ⟨counts.1, counts.2.1, congrArg (· + 1) counts.2.2⟩
  shows drawn counts out results := by
    obtain ⟨-, lengths, sharings⟩ := tells.pipe (drawn .pipe)
    rw [← counts.2.2]
    refine ⟨_, fun i member => ⟨results i member, ?_⟩, fun k small => ?_⟩
    · rw [lengths i, Plain.length_powers]
    · exact sharings k (by rwa [Plain.length_powers] at small)

end Request.Computes

/-! ## Being together -/

namespace Together

variable {deck : Deck F} {config : Config} {plain : Plain F} {A A' : PartyId → SimulatedActor F}

/-- Only members count. -/
theorem congr (together : Together deck config plain A)
    (same : ∀ i, IsMember deck.parties i → A i = A' i) : Together deck config plain A' where
  seat i member := same i member ▸ together.seat i member
  kept := together.kept.congr fun i member => congrArg Actor.kept (same i member)
  session going := by
    obtain ⟨T, drawn, stage, rest⟩ := together.session going
    exact ⟨T, drawn, fun i member => same i member ▸ stage i member, rest⟩

/-- The actors' sessions have moved on. -/
theorem advance (together : Together deck config plain A) {plain' : Plain F}
    {T : PartyId → Session F (Party.SimulatedSupplier F)} {drawn : Item → Nat}
    (aligned : Aligned deck config True drawn T) (counts : plain'.Counts drawn)
    (kept : plain'.kept = plain.kept) :
    Together deck config plain' fun i => { A i with stage := .whole (T i) } where
  seat := together.seat
  kept := kept ▸ together.kept
  session _ := ⟨T, drawn, fun _ _ => rfl, aligned, counts⟩

/-- All parties keep results that show what was computed. -/
theorem keep (together : Together deck config plain A) {result : Plain.Result F}
    {out : PartyId → Output F} (shows : result.Shows deck.parties deck.key out)
    (keepAs : Option String) :
    Together deck config (plain.keep keepAs result) fun i => (A i).keepOutput keepAs (out i) := by
  simp only [Actor.keepOutput_eq]
  exact ⟨⟨together.seat, (shows.keeps keepAs).append together.kept⟩, together.session⟩

/-- All parties keep the results of a batch. -/
theorem keepAll (together : Together deck config plain A) {parts : List (BatchPart F)}
    {results : List (Plain.Result F)} {outs : List (PartyId → Output F)}
    (shows : List.Forall₂ (fun r out => Plain.Result.Shows deck.parties deck.key out r) results outs) :
    Together deck config (plain.keepAll parts results)
      fun i => (A i).keepOutputs parts (outs.map fun out => some (out i)) := by
  induction parts generalizing plain A results outs with
  | nil => exact together
  | cons part parts ih =>
      cases shows with
      | nil => exact together
      | cons first others => exact ih (together.keep first part.keepAs) others

end Together

/-! ## Operands, computations and protocols -/

namespace Keeping

variable {deck : Deck F} {config : Config} {plain : Plain F} {A : PartyId → SimulatedActor F}
  {tape : Tape F}

/-- What all parties have for an operand. -/
theorem operand (keeping : Keeping deck plain A) {x : Operand F} {v : Elem F}
    (value : plain.operand x = some v) : ∃ z : PartyId → Share F,
      (∀ i, IsMember deck.parties i → (A i).operand x = .ok (z i)) ∧
      IsSharing deck.parties deck.key z v := by
  cases x with
  | literal share => simp [Plain.operand] at value
  | kept name =>
      obtain ⟨z, found, sharing⟩ := keeping.kept.lookup value
      refine ⟨z, fun i member => ?_, sharing⟩
      rw [Actor.operand, Actor.lookup, found i member]

/-- **What all parties compute by themselves is a sharing.** -/
theorem compute (keeping : Keeping deck plain A)
    {T : PartyId → Session F (Party.SimulatedSupplier F)} {drawn : Item → Nat}
    (aligned : Aligned deck config True drawn T) {computation : Computation F} {v : Elem F}
    (value : plain.compute computation = some v) : ∃ z : PartyId → Share F,
      (∀ i, IsMember deck.parties i → (A i).compute (T i).party computation = .ok (z i)) ∧
      IsSharing deck.parties deck.key z v := by
  have lookup : ∀ {name : String} {x : Elem F}, plain.kept.lookup name = some x →
      ∃ z : PartyId → Share F, (∀ i, IsMember deck.parties i → (A i).lookup name = .ok (z i)) ∧
        IsSharing deck.parties deck.key z x :=
    fun {name x} here => keeping.operand (x := .kept name) here
  have keyShare : ∀ i, IsMember deck.parties i → (T i).party.keyShare = deck.keyShare i :=
    fun i member => aligned.inStep.keyShare member
  have id : ∀ i, IsMember deck.parties i → (T i).party.id = i := aligned.inStep.id
  cases computation with
  | literal share => simp [Plain.compute] at value
  | zero =>
      obtain rfl : 0 = v := Option.some.inj value
      exact ⟨fun _ => 0, fun _ _ => rfl, .zero⟩
  | add x y =>
      simp only [Plain.compute, bind, Option.bind_eq_some_iff, pure, Option.some.injEq] at value
      obtain ⟨a, hereX, b, hereY, rfl⟩ := value
      obtain ⟨zx, foundX, sharingX⟩ := lookup hereX
      obtain ⟨zy, foundY, sharingY⟩ := lookup hereY
      refine ⟨_, fun i member => ?_, sharingX.add sharingY⟩
      rw [Actor.compute, foundX i member, foundY i member]
      rfl
  | sub x y =>
      simp only [Plain.compute, bind, Option.bind_eq_some_iff, pure, Option.some.injEq] at value
      obtain ⟨a, hereX, b, hereY, rfl⟩ := value
      obtain ⟨zx, foundX, sharingX⟩ := lookup hereX
      obtain ⟨zy, foundY, sharingY⟩ := lookup hereY
      refine ⟨_, fun i member => ?_, sharingX.sub sharingY⟩
      rw [Actor.compute, foundX i member, foundY i member]
      rfl
  | neg x =>
      simp only [Plain.compute, bind, Option.bind_eq_some_iff, pure, Option.some.injEq] at value
      obtain ⟨a, here, rfl⟩ := value
      obtain ⟨z, found, sharing⟩ := lookup here
      refine ⟨_, fun i member => ?_, sharing.neg⟩
      rw [Actor.compute, found i member]
      rfl
  | double x =>
      simp only [Plain.compute, bind, Option.bind_eq_some_iff, pure, Option.some.injEq] at value
      obtain ⟨a, here, b, again, rfl⟩ := value
      obtain ⟨z, found, sharing⟩ := lookup here
      obtain rfl : a = b := Option.some.inj (here.symm.trans again)
      refine ⟨_, fun i member => ?_, sharing.double⟩
      rw [Actor.compute, found i member]
      rfl
  | scale x factor =>
      simp only [Plain.compute, bind, Option.bind_eq_some_iff, pure, Option.some.injEq] at value
      obtain ⟨a, here, rfl⟩ := value
      obtain ⟨z, found, sharing⟩ := lookup here
      refine ⟨_, fun i member => ?_, sharing.scale factor⟩
      rw [Actor.compute, found i member]
      rfl
  | ofPublic w =>
      obtain rfl : w = v := Option.some.inj value
      refine ⟨_, fun i member => ?_, .ofPublic deck.keys deck.one w⟩
      rw [Actor.compute, keyShare i member, id i member]
      rfl
  | addPublic x w =>
      simp only [Plain.compute, bind, Option.bind_eq_some_iff, pure, Option.some.injEq] at value
      obtain ⟨a, here, rfl⟩ := value
      obtain ⟨z, found, sharing⟩ := lookup here
      refine ⟨_, fun i member => ?_, sharing.addPublic deck.keys deck.one w⟩
      rw [Actor.compute, found i member, keyShare i member, id i member]
      rfl

/-- **The protocols that all parties build are a request that is ready.** -/
theorem build (keeping : Keeping deck plain A) (tells : tape.Tells deck)
    {protocol : Blueprint F} {result : Plain.Result F} {plain' : Plain F}
    (value : plain.evaluate deck.parties deck.length tape protocol = some (result, plain')) :
    ∃ request : Request F, request.Computes deck plain result plain' ∧
      ∀ i, IsMember deck.parties i → (A i).build protocol = .ok (.gate (request.gate i)) := by
  have seat := keeping.seat
  cases protocol with
  | input inputter own =>
      simp only [Plain.evaluate] at value
      split_ifs at value with member
      obtain ⟨v, present, same⟩ := Option.map_eq_some_iff.mp value
      obtain ⟨rfl, rfl⟩ := Prod.mk.inj same
      refine ⟨_, (Request.Computes.input own.ofParty member present).1, fun i here => ?_⟩
      rw [Actor.build, seat i here]
      rfl
  | checkedInput inputter own =>
      simp only [Plain.evaluate] at value
      split_ifs at value with member
      obtain ⟨v, present, same⟩ := Option.map_eq_some_iff.mp value
      obtain ⟨rfl, rfl⟩ := Prod.mk.inj same
      refine ⟨_, (Request.Computes.input own.ofParty member present).2, fun i here => ?_⟩
      rw [Actor.build, seat i here]
      rfl
  | multiply x y =>
      simp only [Plain.evaluate, bind, Option.bind_eq_some_iff, pure, Option.some.injEq] at value
      obtain ⟨a, hereX, b, hereY, same⟩ := value
      obtain ⟨rfl, rfl⟩ := Prod.mk.inj same
      obtain ⟨zx, foundX, sharingX⟩ := keeping.operand hereX
      obtain ⟨zy, foundY, sharingY⟩ := keeping.operand hereY
      refine ⟨_, .multiply sharingX sharingY, fun i member => ?_⟩
      rw [Actor.build, foundX i member, foundY i member]
      rfl
  | openAll x =>
      simp only [Plain.evaluate, bind, Option.bind_eq_some_iff, pure, Option.some.injEq] at value
      obtain ⟨a, here, same⟩ := value
      obtain ⟨rfl, rfl⟩ := Prod.mk.inj same
      obtain ⟨z, found, sharing⟩ := keeping.operand here
      refine ⟨_, .openAll sharing, fun i member => ?_⟩
      rw [Actor.build, found i member]
      rfl
  | openTo x target =>
      simp only [Plain.evaluate] at value
      split_ifs at value with there
      obtain ⟨a, here, same⟩ := Option.map_eq_some_iff.mp value
      obtain ⟨rfl, rfl⟩ := Prod.mk.inj same
      obtain ⟨z, found, sharing⟩ := keeping.operand here
      refine ⟨_, .openTo there sharing, fun i member => ?_⟩
      rw [Actor.build, found i member]
      rfl
  | element =>
      obtain ⟨rfl, rfl⟩ := Prod.mk.inj (Option.some.inj value)
      exact ⟨_, .element tells, fun _ _ => rfl⟩
  | bit =>
      obtain ⟨rfl, rfl⟩ := Prod.mk.inj (Option.some.inj value)
      exact ⟨_, .bit tells, fun _ _ => rfl⟩
  | pipe length =>
      simp only [Plain.evaluate] at value
      split_ifs at value with same
      subst same
      obtain ⟨rfl, rfl⟩ := Prod.mk.inj (Option.some.inj value)
      exact ⟨_, .pipe tells, fun _ _ => rfl⟩
  | known v =>
      obtain ⟨rfl, rfl⟩ := Prod.mk.inj (Option.some.inj value)
      exact ⟨.known v, .unread trivial trivial (fun _ counts => counts) fun _ _ results =>
        ⟨_, results, .ofPublic deck.keys deck.one v⟩, fun _ _ => rfl⟩
  | reveal own =>
      obtain ⟨rfl, rfl⟩ := Prod.mk.inj (Option.some.inj value)
      refine ⟨.reveal fun i => (own.ofParty i).getD 0,
        .unread trivial trivial (fun _ counts => counts) fun _ _ results => results, fun i member => ?_⟩
      rw [Actor.build, seat i member]
      rfl
  | validation values =>
      obtain ⟨rfl, rfl⟩ := Prod.mk.inj (Option.some.inj value)
      exact ⟨.validation values,
        .unread trivial trivial (fun _ counts => counts) fun _ _ results => results, fun _ _ => rfl⟩
  | macCheck =>
      obtain ⟨rfl, rfl⟩ := Prod.mk.inj (Option.some.inj value)
      exact ⟨.macCheck,
        .unread trivial trivial (fun _ counts => counts) fun _ _ results => results, fun _ _ => rfl⟩
  | hollow rounds => simp [Plain.evaluate] at value

/-- The protocols that all parties build for a batch. -/
theorem buildAll (keeping : Keeping deck plain A) (tells : tape.Tells deck)
    {parts : List (BatchPart F)} {results : List (Plain.Result F)} {plain' : Plain F}
    (value : Plain.evaluateAll deck.parties deck.length tape (parts.map (·.protocol)) plain
      = some (results, plain')) :
    ∃ requests, Request.ComputeAll deck plain requests results plain' ∧
      ∀ i, IsMember deck.parties i → (parts.mapM fun part => (A i).build part.protocol)
        = .ok (requests.map fun request => .gate (request.gate i)) := by
  induction parts generalizing plain results with
  | nil =>
      obtain ⟨rfl, rfl⟩ := Prod.mk.inj (Option.some.inj value)
      refine ⟨[], ⟨?_, ?_, rfl, rfl, fun _ counts => counts, fun _ _ outs all => ?_⟩, fun _ _ => rfl⟩
      · exact fun request mem => absurd mem List.not_mem_nil
      · exact fun request mem => absurd mem List.not_mem_nil
      · cases outs with
        | nil => exact .nil
        | cons out outs => exact absurd all id
  | cons part parts ih =>
      simp only [List.map_cons, Plain.evaluateAll, bind, Option.bind_eq_some_iff, pure,
        Option.some.injEq] at value
      obtain ⟨⟨result, plain₁⟩, first, ⟨others, plain₂⟩, later, same⟩ := value
      obtain ⟨rfl, rfl⟩ := Prod.mk.inj same
      obtain ⟨request, computes, built⟩ := keeping.build tells first
      have keeping₁ : Keeping deck plain₁ A := ⟨keeping.seat, computes.kept ▸ keeping.kept⟩
      obtain ⟨requests, computeAll, builtAll⟩ := ih keeping₁ later
      refine ⟨request :: requests, ⟨?_, ?_, computeAll.kept.trans computes.kept,
        computeAll.finished.trans computes.finished, fun drawn counts => ?_,
        fun drawn counts outs all => ?_⟩, fun i member => ?_⟩
      · exact List.forall_mem_cons.mpr ⟨computes.ready, computeAll.ready⟩
      · exact List.forall_mem_cons.mpr ⟨computes.authentic, computeAll.authentic⟩
      · exact computeAll.counts _ (computes.counts drawn counts)
      · cases outs with
        | nil => exact absurd all id
        | cons out outs =>
            exact .cons (computes.shows drawn counts out all.1)
              (computeAll.shows _ (computes.counts drawn counts) outs all.2)
      · rw [List.mapM_cons, built i member, builtAll i member]
        rfl

end Keeping

end Spdz
