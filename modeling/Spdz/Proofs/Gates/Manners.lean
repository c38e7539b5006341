import Spdz.Proofs.Gates.Pending
import Spdz.Proofs.Protocol.Messages

/-!
# The manners of gates

Which messages a protocol sends in which round, and how many openings it leaves behind, is known before
it starts.  No secret and no message of a peer changes any of it.  So two parties that start the same
protocols know from each other what is due, however others behave.

* `Manner` — what peers can expect of a protocol; `Gate.manner`, what they can expect of a gate.
* `Manner.said`, `Manner.heard` — the lines of a round.
* `Minds` — a protocol minds its manner.
* **`Gate.minds`** — all gates mind their manners.
-/

namespace Spdz

open Round

variable {F : FieldSpec} {σ P Q Λ : Type}

/-! ## Manners -/

/-- What peers can expect of a protocol. -/
inductive Manner where
  | silent
  /-- Everybody sends so many elements, and so many openings are left behind. -/
  | openings (count : Nat)
  /-- Only one party sends an element. -/
  | input (inputter : PartyId)
  /-- After that, all compare what they have received. -/
  | checkedInput (inputter : PartyId)
  | reveal
  | validation
  /-- A coin is revealed, and then the sigmas. -/
  | check

namespace MessageKind

/-- The same message in a part of a protocol that starts later. -/
def shift (start : Nat) : MessageKind → MessageKind
  | opening earlier => opening (start + earlier)
  | other => other

variable {tag : Nat → Λ}

theorem fits_shift (start : Nat) (message : MessageKind) :
    (message.shift start).Fits F tag = message.Fits F fun round => tag (start + round) := by
  cases message <;> rfl

theorem sent_append {first second : List MessageKind} {round : Nat} (early : round < first.length) :
    sent F tag (first ++ second) round = sent F tag first round := by
  rw [sent, sent, List.getElem?_append_left early]

theorem taken_append {first second : List MessageKind} {round : Nat} (early : round ≤ first.length) :
    taken F tag (first ++ second) round = taken F tag first round := by
  cases round with
  | zero => rfl
  | succ round => exact sent_append early

theorem sent_append_shift (F : FieldSpec) (tag : Nat → Λ) (first second : List MessageKind)
    (round : Nat) :
    sent F tag (first ++ second.map (shift first.length)) (first.length + round)
      = sent F (fun round => tag (first.length + round)) second round := by
  rw [sent, sent, List.getElem?_append_right (Nat.le_add_right _ _), Nat.add_sub_cancel_left,
    List.getElem?_map, Option.map_map]
  refine congrArg (fun f => (second[round]?.map f).toList) (funext fun message => ?_)
  simp only [Function.comp_apply, line, fits_shift]

theorem sent_of_le {messages : List MessageKind} {round : Nat} (late : messages.length ≤ round) :
    sent F tag messages round = [] := by
  rw [sent, List.getElem?_eq_none late]
  rfl

end MessageKind

namespace Manner

/-- The messages of a protocol among so many parties, one in each round. -/
def messages (n : Nat) : Manner → List MessageKind
  | silent => []
  | openings count => [.elements count]
  | input _ => [.elements 1]
  | checkedInput _ => [.elements 1, .any]
  | reveal => revealed n
  | validation => [.any]
  | check => revealed n ++ (revealed n).map (.shift (revealed n).length)

/-- Whether a party sends the message of a round. -/
def sends : Manner → PartyId → (round : Nat) → Bool
  | input inputter, party, 0 | checkedInput inputter, party, 0 => party == inputter
  | _, _, _ => true

/-- How many openings are pending after a round. -/
def pending : Manner → (round : Nat) → (before : Nat) → Nat
  | openings count, 1, before => before + count
  | check, 0, _ => 0
  | _, _, before => before

variable (F) (n : Nat) (tag : Nat → Λ) (party : PartyId)

/-- The lines of a party in a round. -/
def said (m : Manner) (round : Nat) : List (Line Λ) :=
  if m.sends party round then MessageKind.sent F tag (m.messages n) round else []

/-- The lines of a peer that are taken in a round. -/
def heard (m : Manner) : (round : Nat) → List (Line Λ)
  | 0 => []
  | round + 1 => m.said F n tag party round

end Manner

/-- **Minds.**  From the given state on, whatever is known of the protocol before a round is kept, and in
every round it talks as peers can expect. -/
def Minds (F : FieldSpec) (σ : Type) [Protocol F σ P] (m : Manner)
    (Holds : (self peer : PartyId) → (n : Nat) → (tag : Nat → Λ) → (round : Nat) → P → Talk Λ → Prop)
    (p : P) : Prop :=
  ∀ ⦃follows : Λ → Λ → Prop⦄ ⦃peers : List PartyId⦄ ⦃peer : PartyId⦄ ⦃tag : Nat → Λ⦄ ⦃round : Nat⦄
    ⦃S : Party F σ⦄ ⦃t : Talk Λ⦄ ⦃outs ins : List (Line Λ)⦄,
    peer ∈ peers → peer ≠ S.id → (∀ round, follows (tag (round + 1)) (tag round)) →
    round ≤ (m.messages S.parties).length → Holds S.id peer S.parties tag round p t →
    t.outs = m.said F S.parties tag S.id round ++ outs →
    t.ins = m.heard F S.parties tag peer round ++ ins →
    Keeps follows peers peer (tag round) (Protocol.evaluate round : Round F σ P Status) p S t
      fun status p' S' t' => status = MessageKind.status (m.messages S.parties) round ∧
        S'.standing = { S.standing with pending := m.pending round S.standing.pending } ∧
        t.Becomes outs ins t' ∧ Holds S.id peer S.parties tag (round + 1) p' t'

/-- A protocol that is one kind of another minds the same manner. -/
theorem Minds.embed [Protocol F σ P] [Protocol F σ Q] {m : Manner}
    {Holds : PartyId → PartyId → Nat → (Nat → Λ) → Nat → P → Talk Λ → Prop}
    {Holds' : PartyId → PartyId → Nat → (Nat → Λ) → Nat → Q → Talk Λ → Prop} {wrap : P → Q} {p : P}
    (minds : Minds F σ m Holds p) (embeds : Embeds (F := F) σ wrap)
    (known : ∀ {self peer n tag round t}, Holds' self peer n tag round (wrap p) t →
      Holds self peer n tag round p t)
    (shown : ∀ {self peer n tag round p t}, Holds self peer n tag round p t →
      Holds' self peer n tag round (wrap p) t) : Minds F σ m Holds' (wrap p) := by
  intro follows peers peer tag round S t outs ins member other follow due holds said heard
  have inner := minds member other follow due (known holds) said heard
  refine .of_run_eq (embeds round p) (.within_last (inner.weaken ?_))
  rintro _ _ _ _ ⟨same, standing, becomes, holds⟩
  exact ⟨same, standing, becomes, shown holds⟩

/-! ## Protocols -/

/-- Nothing has to be known of the protocol. -/
def Anything (_self _peer : PartyId) (_n : Nat) (_tag : Nat → Λ) (_round : Nat) (_p : P) (_t : Talk Λ) :
    Prop := True

theorem BroadcastValidation.minds (v : BroadcastValidation) :
    Minds (Λ := Λ) F σ .validation Anything v := by
  intro follows peers peer tag round S t outs ins member _ follow due _ said heard
  match round, due with
  | 0, _ =>
      refine (keeps_zero member said rfl fun _ => trivial).weaken ?_
      rintro _ _ _ _ ⟨rfl, rfl, becomes⟩
      exact ⟨rfl, rfl, becomes.congr rfl heard, trivial⟩
  | 1, _ =>
      refine (keeps_one member heard (follow 0)).weaken ?_
      rintro _ _ _ _ ⟨rfl, rfl, becomes⟩
      exact ⟨rfl, rfl, becomes.congr said rfl, trivial⟩

/-- Elements are read from the message that they were sent in. -/
theorem exists_decodeList (declared : F.IsDeclared) (elements : List (Elem F))
    (few : elements.length ≤ 2) :
    ∃ read, Elem.decodeList F (Elem.encodeList elements) elements.length = some (.ok read) :=
  ⟨elements, Elem.decodeList_encodeList elements (declared.fits few)⟩

theorem Open.minds (declared : F.IsDeclared) (p : Open F) :
    Minds (Λ := Λ) F σ (.openings 1) Anything p := by
  intro follows peers peer tag round S t outs ins member _ follow due _ said heard
  refine .get ?_
  match round, due with
  | 0, _ =>
      refine .sendElements member said rfl (exists_decodeList declared [p.share.value] (by simp)) (.pure ?_)
      exact ⟨rfl, rfl, ⟨rfl, heard, List.subset_append_left .., List.Subset.refl _⟩, trivial⟩
  | 1, _ =>
      refine .receiveElementsFromAll member heard (follow 0) (fun _ fits => fits) fun received bytes =>
        .record (.modify (.pure ?_))
      refine ⟨rfl, ?_, ⟨said, rfl, List.Subset.refl _, List.subset_append_left ..⟩, trivial⟩
      simp [Party.standing, Manner.pending, OpenedValues.size]

section Suppliers

variable [Supplier F σ]

theorem OpenTo.minds (declared : F.IsDeclared) (p : OpenTo F) :
    Minds (Λ := Λ) F σ (.openings 1) Anything p := by
  intro follows peers peer tag round S t outs ins member _ follow due _ said heard
  refine .get ?_
  match round, due with
  | 0, _ =>
      refine .draw fun mask supplier => .sendElements member said rfl
        (exists_decodeList declared [(p.share - mask.mask).value] (by simp)) (.set (.pure ?_))
      exact ⟨rfl, rfl, ⟨rfl, heard, List.subset_append_left .., List.Subset.refl _⟩, trivial⟩
  | 1, _ =>
      cases p.mask with
      | none => exact .throw (by simp [Error.Accuses])
      | some mask =>
          refine .receiveElementsFromAll member heard (follow 0) (fun _ fits => fits)
            fun received bytes => .record (.party ?_)
          have standing : ({ S with opened := S.opened.push (p.share - mask.mask) (sumAt
              (p.share - mask.mask).value received 0) } : Party F σ).standing
              = { S.standing with pending := S.standing.pending + 1 } := by
            simp [Party.standing, OpenedValues.size]
          have becomes : t.Becomes outs ins { t with ins, heard := t.heard ++ [⟨tag 0, bytes⟩] } :=
            ⟨said, rfl, List.Subset.refl _, List.subset_append_left ..⟩
          split
          · cases mask.real with
            | none => exact .refuse (by simp [Error.Accuses])
            | some real =>
                simp only [pure_bind]
                refine .set (.pure ?_)
                exact ⟨rfl, standing, becomes, trivial⟩
          · simp only [pure_bind]
            refine .set (.pure ?_)
            exact ⟨rfl, standing, becomes, trivial⟩

theorem Multiply.minds (declared : F.IsDeclared) (p : Multiply F) :
    Minds (Λ := Λ) F σ (.openings 2) Anything p := by
  intro follows peers peer tag round S t outs ins member _ follow due _ said heard
  refine .get ?_
  match round, due with
  | 0, _ =>
      refine .draw fun triple supplier => .sendElements member said rfl (exists_decodeList declared
        [(p.x - triple.a).value, (p.y - triple.b).value] (by simp)) (.set (.pure ?_))
      exact ⟨rfl, rfl, ⟨rfl, heard, List.subset_append_left .., List.Subset.refl _⟩, trivial⟩
  | 1, _ =>
      cases p.triple with
      | none => exact .throw (by simp [Error.Accuses])
      | some triple =>
          refine .receiveElementsFromAll member heard (follow 0) (fun _ fits => fits)
            fun received bytes => .record (.record (.party (.set (.pure ?_))))
          refine ⟨rfl, ?_, ⟨said, rfl, List.Subset.refl _, List.subset_append_left ..⟩, trivial⟩
          simp [Party.standing, Manner.pending, OpenedValues.size]

theorem RandomElement.minds (p : RandomElement F) : Minds (Λ := Λ) F σ .silent Anything p := by
  intro follows peers peer tag round S t outs ins _ _ _ due _ said heard
  match round, due with
  | 0, _ =>
      refine .draw fun share supplier => .set (.pure ?_)
      exact ⟨rfl, rfl, ⟨said, heard, List.Subset.refl _, List.Subset.refl _⟩, trivial⟩

theorem RandomBit.minds (p : RandomBit F) : Minds (Λ := Λ) F σ .silent Anything p := by
  intro follows peers peer tag round S t outs ins _ _ _ due _ said heard
  match round, due with
  | 0, _ =>
      refine .draw fun share supplier => .set (.pure ?_)
      exact ⟨rfl, rfl, ⟨said, heard, List.Subset.refl _, List.Subset.refl _⟩, trivial⟩

theorem ExpPipe.minds (p : ExpPipe F) : Minds (Λ := Λ) F σ .silent Anything p := by
  intro follows peers peer tag round S t outs ins _ _ _ due _ said heard
  match round, due with
  | 0, _ =>
      refine .draw fun pipe supplier => .get ?_
      dsimp only
      split
      · exact .refuse (by simp [Error.Accuses])
      · refine .modify (.pure ?_)
        exact ⟨rfl, rfl, ⟨said, heard, List.Subset.refl _, List.Subset.refl _⟩, trivial⟩

theorem KnownValue.minds (p : KnownValue F) : Minds (Λ := Λ) F σ .silent Anything p := by
  intro follows peers peer tag round S t outs ins _ _ _ due _ said heard
  match round, due with
  | 0, _ =>
      simp only [Protocol.evaluate, KnownValue.evaluate, ne_eq, not_true_eq_false, if_false]
      refine .party (.modify (.pure ?_))
      exact ⟨rfl, rfl, ⟨said, heard, List.Subset.refl _, List.Subset.refl _⟩, trivial⟩

/-! ## Inputs -/

namespace MaskedInput

variable {follows : Λ → Λ → Prop} {peers : List PartyId} {peer inputter : PartyId} {label : Λ}
  {m : MaskedInput F} {S : Party F σ} {t : Talk Λ} {line : Line Λ} {outs ins : List (Line Λ)}

/-- At all parties but the inputter, nothing is known before it has come. -/
def Awaits (inputter self : PartyId) (round : Nat) (m : MaskedInput F) : Prop :=
  m.inputter = inputter ∧ (round ≤ 1 → inputter ≠ self → m.masked = none)

/-- The inputter sends an element, and nobody else. -/
theorem keeps_send (declared : F.IsDeclared) (member : peer ∈ peers)
    (awaits : m.Awaits inputter S.id 0) (same : line.label = label)
    (fits : ∀ bytes, (∃ elements, Elem.decodeList F bytes 1 = some (.ok elements)) → line.Fits t.said bytes)
    (due : t.outs = (if S.id == inputter then [line] else []) ++ outs) :
    Keeps follows peers peer label send m S t fun _ m' S' t' =>
      S'.standing = S.standing ∧ t.Becomes outs t.ins t' ∧ m'.Awaits inputter S.id 1 := by
  obtain ⟨rfl, new⟩ := awaits
  refine .get (.draw fun mask supplier => .set (.party ?_))
  by_cases own : S.id = m.inputter
  · have due : t.outs = line :: outs := by simpa [own] using due
    rw [if_pos own]
    cases m.input with
    | none => exact .throw (by simp [Error.Accuses])
    | some input =>
        cases mask.real with
        | none => exact .throw (by simp [Error.Accuses])
        | some real =>
            refine .sendElements member due same
              (fits _ (exists_decodeList declared [input - real] (by simp))) (.last (.set (.pure ?_)))
            exact ⟨rfl, ⟨rfl, rfl, List.subset_append_left .., List.Subset.refl _⟩, rfl,
              fun _ other => absurd own.symm other⟩
  · have due : t.outs = outs := by simpa [own] using due
    rw [if_neg own]
    exact .pure ⟨rfl, ⟨due, rfl, List.Subset.refl _, List.Subset.refl _⟩, rfl,
      fun _ other => new (Nat.zero_le 1) other⟩

omit [Supplier F σ] in
/-- The element of the inputter is taken, unless it is the party's own. -/
theorem keeps_receive (member : peer ∈ peers) (other : peer ≠ S.id)
    (awaits : m.Awaits inputter S.id 1) (follow : follows label line.label)
    (fits : ∀ bytes, line.Fits t.heard bytes → ∃ elements, Elem.decodeList F bytes 1 = some (.ok elements))
    (due : t.ins = (if peer == inputter then [line] else []) ++ ins) :
    Keeps follows peers peer label receive m S t fun _ m' S' t' =>
      S' = S ∧ t.Becomes t.outs ins t' ∧ m'.Awaits inputter S.id 2 := by
  obtain ⟨rfl, new⟩ := awaits
  refine .get ?_
  cases known : m.masked with
  | some masked =>
      have own : m.inputter = S.id := by
        by_contra strange
        rw [new (Nat.le_refl 1) strange] at known
        cases known
      have due : t.ins = ins := by simpa [own, other] using due
      exact .pure ⟨rfl, ⟨rfl, due, List.Subset.refl _, List.Subset.refl _⟩, rfl, by simp⟩
  | none =>
      rw [Round.receiveElements]
      simp only [bind_assoc]
      by_cases here : m.inputter = peer
      · subst here
        have next : t.ins = line :: ins := by simpa using due
        refine .hearFrom member next follow fun bytes hears =>
          .decodeFrom (fun _ => fits bytes hears.1) fun elements => .set (.pure ?_)
        exact ⟨rfl, ⟨rfl, rfl, List.Subset.refl _, List.subset_append_left ..⟩, rfl, by simp⟩
      · have due : t.ins = ins := by simpa [Ne.symm here] using due
        refine .hearOther here fun bytes => .decodeFrom (fun same => absurd same here) fun elements =>
          .set (.pure ?_)
        exact ⟨rfl, ⟨rfl, due, List.Subset.refl _, List.Subset.refl _⟩, rfl, by simp⟩

theorem keeps_combine (round : Nat) :
    Keeps follows peers peer label (combine round) m S t fun _ m' S' t' =>
      m' = m ∧ S' = S ∧ t' = t := by
  refine .get ?_
  split
  · exact .party (.pure ⟨rfl, rfl, rfl⟩)
  · exact .throw (by simp [Error.Accuses])

end MaskedInput

theorem Input.minds (declared : F.IsDeclared) (inputter : PartyId) (p : Input F) :
    Minds (Λ := Λ) F σ (.input inputter)
      (fun self _ _ _ round p _ => p.state.Awaits inputter self round) p := by
  intro follows peers peer tag round S t outs ins member other follow due holds said heard
  match round, due with
  | 0, _ =>
      refine .within ((MaskedInput.keeps_send declared member holds rfl (fun _ fits => fits) said).weaken ?_)
      rintro _ _ S' t' ⟨standing, becomes, awaits⟩
      exact .pure ⟨rfl, standing, becomes.congr rfl heard, awaits⟩
  | 1, _ =>
      refine .discard (.within
        ((MaskedInput.keeps_receive member other holds (follow 0) (fun _ fits => fits) heard).weaken ?_))
      rintro _ m _ t' ⟨rfl, becomes, awaits⟩
      refine .within ((MaskedInput.keeps_combine 1).weaken ?_)
      rintro share _ _ _ ⟨rfl, rfl, rfl⟩
      exact .modify (.pure ⟨rfl, rfl, becomes.congr said rfl, awaits⟩)

theorem CheckedInput.minds (declared : F.IsDeclared) (inputter : PartyId) (p : CheckedInput F) :
    Minds (Λ := Λ) F σ (.checkedInput inputter)
      (fun self _ _ _ round p _ => p.state.Awaits inputter self round) p := by
  intro follows peers peer tag round S t outs ins member other follow due holds said heard
  match round, due with
  | 0, _ =>
      refine .within ((MaskedInput.keeps_send declared member holds rfl (fun _ fits => fits) said).weaken ?_)
      rintro _ _ S' t' ⟨standing, becomes, awaits⟩
      exact .pure ⟨rfl, standing, becomes.congr rfl heard, awaits⟩
  | 1, _ =>
      refine .within
        ((MaskedInput.keeps_receive member other holds (follow 0) (fun _ fits => fits) heard).weaken ?_)
      rintro masked m _ t' ⟨rfl, first, awaits⟩
      refine .apart ((BroadcastValidation.keeps_zero member (first.outs.trans said) rfl
        fun _ => trivial).weaken ?_)
      rintro _ v _ t'' ⟨rfl, rfl, second⟩
      exact .modify (.pure ⟨rfl, rfl, first.trans second, awaits⟩)
  | 2, _ =>
      refine .get ?_
      cases p.validation with
      | none => exact .throw (by simp [Error.Accuses])
      | some v =>
          refine .discard (.within ((BroadcastValidation.keeps_one member heard (follow 1)).weaken ?_))
          rintro _ v _ t' ⟨rfl, rfl, becomes⟩
          refine .within ((MaskedInput.keeps_combine 2).weaken ?_)
          rintro share _ _ _ ⟨rfl, rfl, rfl⟩
          exact .modify (.pure ⟨rfl, rfl, becomes.congr said rfl, holds.1, by simp⟩)

/-! ## Revelations and checks -/

omit [Supplier F σ] in
theorem Reveal.minds (p : Reveal F) : Minds (Λ := Λ) F σ .reveal
    (fun _ peer _ tag round p t => p.Holds tag peer round t) p := by
  intro follows peers peer tag round S t outs ins member _ follow due holds said heard
  cases round with
  | zero => exact keeps_evaluate member rfl follow holds due said heard
  | succ round => exact keeps_evaluate member rfl follow holds due said heard

namespace MacCheck

variable {follows : Λ → Λ → Prop} {peers : List PartyId} {peer : PartyId} {tag : Nat → Λ} {n round : Nat}
  {p : MacCheck F} {S : Party F σ} {t : Talk Λ} {outs ins : List (Line Λ)}

/-- The revelation under way has come as far as it should. -/
def Holds (peer : PartyId) (n : Nat) (tag : Nat → Λ) (round : Nat) (p : MacCheck F) (t : Talk Λ) : Prop :=
  match p.stage with
  | .coin toss => round ≤ (revealed n).length ∧ toss.Holds tag peer round t
  | .sigma start sigmas => start = (revealed n).length ∧ ∃ later, round = start + later + 1 ∧
    sigmas.Holds (fun round => tag (start + round)) peer (later + 1) t
  | .idle | .passed => True

omit [Supplier F σ] in
theorem Holds.mono {t' : Talk Λ} (holds : p.Holds peer n tag round t) (said : t.said ⊆ t'.said)
    (heard : t.heard ⊆ t'.heard) : p.Holds peer n tag round t' := by
  rw [Holds] at holds ⊢
  cases stage : p.stage with
  | coin toss =>
      rw [stage] at holds
      exact ⟨holds.1, holds.2.mono said heard⟩
  | sigma start sigmas =>
      rw [stage] at holds
      obtain ⟨begun, later, since, holds⟩ := holds
      exact ⟨begun, later, since, holds.mono said heard⟩
  | idle | passed => trivial

/-- What is left of a check after a round. -/
def Goes (peer : PartyId) (n : Nat) (tag : Nat → Λ) (round : Nat) (S : Party F σ) (t : Talk Λ)
    (outs ins : List (Line Λ)) (status : Status) (p' : MacCheck F) (S' : Party F σ) (t' : Talk Λ) : Prop :=
  status = MessageKind.status (Manner.check.messages n) round ∧ S'.standing = S.standing ∧
    t.Becomes outs ins t' ∧ p'.Holds peer n tag (round + 1) t'

theorem length_messages (n : Nat) :
    (Manner.check.messages n).length = (revealed n).length + (revealed n).length := by
  simp [Manner.messages]

theorem length_revealed_pos (n : Nat) : 0 < (revealed n).length := by
  rw [revealed]
  split_ifs <;> decide

/-- A round of the coin toss. -/
theorem keeps_tossCoin {toss : Reveal F} (member : peer ∈ peers)
    (follow : ∀ round, follows (tag (round + 1)) (tag round)) (early : round ≤ (revealed S.parties).length)
    (holds : toss.Holds tag peer round t)
    (said : t.outs = MessageKind.sent F tag (Manner.check.messages S.parties) round ++ outs)
    (heard : t.ins = MessageKind.taken F tag (Manner.check.messages S.parties) round ++ ins) :
    Keeps follows peers peer (tag round) (tossCoin round toss) p S t
      (Goes peer S.parties tag round S t outs ins) := by
  have positive := length_revealed_pos S.parties
  have goesOn : MessageKind.status (Manner.check.messages S.parties) round = .hasMoreRounds := by
    rw [MessageKind.status, if_pos (by rw [length_messages]; omega)]
  rw [Manner.messages, MessageKind.taken_append early] at heard
  obtain before | last := Nat.lt_or_eq_of_le early
  · rw [Manner.messages, MessageKind.sent_append before] at said
    refine .apart ((Reveal.keeps_evaluate member rfl follow holds early said heard).weaken ?_)
    rintro _ toss' S' t' ⟨rfl, standing, becomes, holds⟩
    have status : MessageKind.status (revealed S.parties) round = .hasMoreRounds := if_pos before
    rw [status]
    exact .modify (.pure ⟨goesOn.symm, standing, becomes, before, holds⟩)
  · subst last
    have none : t.outs = MessageKind.sent F tag (revealed S.parties) (revealed S.parties).length ++ t.outs := by
      rw [MessageKind.sent_of_le (Nat.le_refl _), List.nil_append]
    refine .apart ((Reveal.keeps_evaluate member rfl follow holds early none heard).weaken ?_)
    rintro _ toss' S' t' ⟨rfl, standing, becomes, -⟩
    have status : MessageKind.status (revealed S.parties) (revealed S.parties).length = .isDone :=
      if_neg (Nat.lt_irrefl _)
    rw [status]
    dsimp only
    cases toss'.output with
    | none => exact .refuse (by simp [Error.Accuses])
    | some coins =>
        -- the sigmas are committed to in the same round
        have parties : S'.parties = S.parties := congrArg Standing.parties standing
        have commits := MessageKind.sent_append_shift F tag (revealed S.parties)
          (revealed S.parties) 0
        have due := said.trans (congrArg (· ++ outs) commits)
        refine .get (.party (.apart ((Reveal.keeps_evaluate member parties
          (fun round => follow ((revealed S.parties).length + round)) ⟨by simp, by simp⟩ (Nat.zero_le _)
          (becomes.outs.trans due) becomes.ins).weaken ?_)))
        rintro _ sigmas S'' t'' ⟨-, standing', becomes', holds⟩
        refine .modify (.pure ⟨goesOn.symm, standing'.trans standing, ?_, rfl, 0, rfl, holds⟩)
        exact becomes.trans (becomes'.congr rfl becomes.ins.symm)

omit [Supplier F σ] in
/-- A round of the revelation of the sigmas. -/
theorem keeps_revealSigmas {start later : Nat} {sigmas : Reveal F} (member : peer ∈ peers)
    (follow : ∀ round, follows (tag (round + 1)) (tag round))
    (begun : start = (revealed S.parties).length) (since : round = start + later + 1)
    (due : later + 1 ≤ (revealed S.parties).length)
    (holds : sigmas.Holds (fun round => tag (start + round)) peer (later + 1) t)
    (said : t.outs = MessageKind.sent F tag (Manner.check.messages S.parties) round ++ outs)
    (heard : t.ins = MessageKind.taken F tag (Manner.check.messages S.parties) round ++ ins) :
    Keeps follows peers peer (tag round) (revealSigmas round start sigmas) p S t
      (Goes peer S.parties tag round S t outs ins) := by
  subst begun since
  have saying := MessageKind.sent_append_shift F tag (revealed S.parties)
    (revealed S.parties) (later + 1)
  have hearing := MessageKind.sent_append_shift F tag (revealed S.parties)
    (revealed S.parties) later
  have sums : (revealSigmas ((revealed S.parties).length + later + 1) (revealed S.parties).length sigmas :
      Round F σ _ _) = sumSigmas ((revealed S.parties).length + later + 1) (revealed S.parties).length
        sigmas := by
    rw [revealSigmas, if_neg (by omega)]
    rfl
  have number : (revealed S.parties).length + later + 1 - (revealed S.parties).length = later + 1 := by
    omega
  rw [sums, sumSigmas, number]
  refine .apart ((Reveal.keeps_evaluate member rfl
    (fun round => follow ((revealed S.parties).length + round)) holds due
    (said.trans (congrArg (· ++ outs) saying)) (heard.trans (congrArg (· ++ ins) hearing))).weaken ?_)
  rintro status sigmas' S' t' ⟨reached, standing, becomes, holds⟩
  have same : status = MessageKind.status (Manner.check.messages S.parties)
      ((revealed S.parties).length + later + 1) := by
    rw [reached, MessageKind.status, MessageKind.status, length_messages]
    congr 1
    exact propext ⟨fun h => by omega, fun h => by omega⟩
  dsimp only
  split
  · exact .modify (.pure ⟨same, standing, becomes, rfl, later + 1, rfl, holds⟩)
  · exact .throw (by simp [Error.Accuses])
  · split
    · exact .refuse (by simp [Error.Accuses])
    · exact .modify (.pure ⟨same, standing, becomes, trivial⟩)

/-- What a check does at its stage. -/
theorem keeps_goOn (member : peer ∈ peers) (follow : ∀ round, follows (tag (round + 1)) (tag round))
    (due : round ≤ (Manner.check.messages S.parties).length) (holds : p.Holds peer S.parties tag round t)
    (said : t.outs = MessageKind.sent F tag (Manner.check.messages S.parties) round ++ outs)
    (heard : t.ins = MessageKind.taken F tag (Manner.check.messages S.parties) round ++ ins) :
    Keeps follows peers peer (tag round) (goOn round) p S t (Goes peer S.parties tag round S t outs ins) := by
  refine .get ?_
  rw [Holds] at holds
  cases stage : p.stage with
  | coin toss =>
      rw [stage] at holds
      exact .modify (keeps_tossCoin member follow holds.1 holds.2 said heard)
  | sigma start sigmas =>
      rw [stage] at holds
      obtain ⟨rfl, later, since, holds⟩ := holds
      rw [length_messages] at due
      exact .modify (keeps_revealSigmas member follow rfl since (by omega) holds said heard)
  | idle | passed => exact .throw (by simp [Error.Accuses])

/-- A check takes all pending openings when it begins, and goes on from its stage in every round. -/
theorem minds (p : MacCheck F) : Minds (Λ := Λ) F σ .check (fun _ peer n tag round p t =>
    (round = 0 → p.stage = .idle) ∧ p.Holds peer n tag round t) p := by
  intro follows peers peer tag round S t outs ins member _ follow due holds said heard
  obtain ⟨begins, holds⟩ := holds
  obtain ⟨stage, records⟩ := p
  cases round with
  | zero =>
      obtain rfl : stage = .idle := begins rfl
      have begun : Keeps follows peers peer (tag 0) (begin >>= fun _ => goOn 0 : Round F σ _ _)
          ⟨.idle, records⟩ S t fun status p' S' t' =>
            status = MessageKind.status (Manner.check.messages S.parties) 0 ∧
              S'.standing = { S.standing with pending := 0 } ∧ t.Becomes outs ins t' ∧
                (0 + 1 = 0 → p'.stage = .idle) ∧ p'.Holds peer S.parties tag (0 + 1) t' := by
        have going := keeps_goOn (t := t) (S := { S with
            opened := S.opened.drain.2, rng := (Elem.random F S.rng).2 }) (p := {
            stage := .coin { value := (Elem.random F S.rng).1 }, records := S.opened.drain.1 })
          member follow due ⟨Nat.zero_le _, by simp, by simp⟩ said heard
        rw [begin]
        simp only [bind_assoc]
        refine .party (.setParty (.set (going.weaken ?_)))
        rintro status p' S' t' ⟨same, standing, becomes, holds⟩
        exact ⟨same, standing, becomes, by simp, holds⟩
      exact .get begun
  | succ round =>
      refine (keeps_goOn member follow due holds said heard).weaken ?_
      rintro status p' S' t' ⟨same, standing, becomes, holds⟩
      exact ⟨same, standing, becomes, by simp, holds⟩

end MacCheck

/-! ## Gates -/

namespace Gate

/-- What peers can expect of a gate. -/
def manner : Gate F → Manner
  | input p => .input p.state.inputter
  | checkedInput p => .checkedInput p.state.inputter
  | multiply _ => .openings 2
  | openAll _ | openTo _ => .openings 1
  | element _ | bit _ | pipe _ | known _ => .silent
  | reveal _ => .reveal
  | validation _ => .validation
  | macCheck _ => .check

/-- What is known of a gate before a round. -/
def Holds (self peer : PartyId) (n : Nat) (tag : Nat → Λ) (round : Nat) (gate : Gate F) (t : Talk Λ) :
    Prop :=
  match gate with
  | input p => p.state.Awaits p.state.inputter self round
  | checkedInput p => p.state.Awaits p.state.inputter self round
  | reveal p => p.Holds tag peer round t
  | macCheck p => (round = 0 → p.stage = .idle) ∧ p.Holds peer n tag round t
  | _ => True

/-- Whatever is said and heard later does not matter. -/
theorem Holds.mono {self peer : PartyId} {n round : Nat} {tag : Nat → Λ} {gate : Gate F} {t t' : Talk Λ}
    (holds : gate.Holds self peer n tag round t) (said : t.said ⊆ t'.said) (heard : t.heard ⊆ t'.heard) :
    gate.Holds self peer n tag round t' := by
  cases gate with
  | reveal p => exact Reveal.Holds.mono holds said heard
  | macCheck p => exact ⟨holds.1, MacCheck.Holds.mono holds.2 said heard⟩
  | _ => exact holds

/-- **All gates mind their manners.** -/
theorem minds (declared : F.IsDeclared) (gate : Gate F) :
    Minds (Λ := Λ) F σ gate.manner (fun self peer n tag round gate' t =>
      gate'.manner = gate.manner ∧ gate'.Holds self peer n tag round t) gate := by
  cases gate with
  | input p =>
      exact (Input.minds declared p.state.inputter p).embed (fun _ _ => rfl) (fun holds => holds.2)
        fun holds => ⟨congrArg Manner.input holds.1, rfl, by rw [holds.1]; exact holds.2⟩
  | checkedInput p =>
      exact (CheckedInput.minds declared p.state.inputter p).embed (fun _ _ => rfl) (fun holds => holds.2)
        fun holds => ⟨congrArg Manner.checkedInput holds.1, rfl, by rw [holds.1]; exact holds.2⟩
  | multiply p =>
      exact (Multiply.minds declared p).embed (fun _ _ => rfl) (fun _ => trivial)
        fun _ => ⟨rfl, trivial⟩
  | reveal p =>
      exact (Reveal.minds p).embed (fun _ _ => rfl) (fun holds => holds.2)
        fun holds => ⟨rfl, holds⟩
  | validation p =>
      exact (BroadcastValidation.minds p).embed (fun _ _ => rfl) (fun _ => trivial)
        fun _ => ⟨rfl, trivial⟩
  | openAll p =>
      exact (Open.minds declared p).embed (fun _ _ => rfl) (fun _ => trivial)
        fun _ => ⟨rfl, trivial⟩
  | openTo p =>
      exact (OpenTo.minds declared p).embed (fun _ _ => rfl) (fun _ => trivial)
        fun _ => ⟨rfl, trivial⟩
  | element p =>
      exact (RandomElement.minds p).embed (fun _ _ => rfl) (fun _ => trivial)
        fun _ => ⟨rfl, trivial⟩
  | bit p =>
      exact (RandomBit.minds p).embed (fun _ _ => rfl) (fun _ => trivial)
        fun _ => ⟨rfl, trivial⟩
  | pipe p =>
      exact (ExpPipe.minds p).embed (fun _ _ => rfl) (fun _ => trivial)
        fun _ => ⟨rfl, trivial⟩
  | known p =>
      exact (KnownValue.minds p).embed (fun _ _ => rfl) (fun _ => trivial)
        fun _ => ⟨rfl, trivial⟩
  | macCheck p =>
      exact (MacCheck.minds p).embed (fun _ _ => rfl) (fun holds => holds.2)
        fun holds => ⟨rfl, holds⟩

end Gate

end Suppliers

end Spdz
