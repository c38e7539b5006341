import Mathlib.Tactic.IntervalCases
import Spdz.Proofs.Commitment
import Spdz.Proofs.Protocol.Manners
import Spdz.Proofs.Protocol.Reveal
import Spdz.Protocol.MacCheck

/-!
# What comparisons and revelations say

The messages of a protocol are of few kinds, and which kind is due in which round does not depend on
anything that is secret.  Only an opening depends on what was said before: it has to open the commitment
that the party has sent itself.

* `MessageKind` — a kind of message; `MessageKind.Fits`, what fits as its contents.
* `BroadcastValidation.keeps_zero`, `BroadcastValidation.keeps_one` — digests can be anything.
* **`Reveal.keeps_evaluate`** — what a party reveals opens its commitment, and it accuses nobody of
  whom it has a commitment and an opening that fit.
-/

namespace Spdz

variable {F : FieldSpec} {σ P Λ α : Type} {n : Nat}

/-- A kind of message. -/
inductive MessageKind where
  | elements (count : Nat)
  | commitment
  /-- What opens the commitment that the protocol has sent in an earlier round. -/
  | opening (earlier : Nat)
  /-- Digests are compared and nothing else, so every message fits. -/
  | any

namespace MessageKind

/-- What fits as the contents of a message, after what was sent before.  The protocol's own messages are
known by the labels of its rounds. -/
def Fits (F : FieldSpec) (tag : Nat → Λ) : MessageKind → List (Letter Λ) → Bytes → Prop
  | elements count, _, bytes => ∃ elements, Elem.decodeList F bytes count = some (.ok elements)
  | commitment, _, bytes => ∃ c, Commitment.ofBytes bytes = .ok c
  | opening earlier, past, bytes => ∃ letter ∈ past, letter.label = tag earlier ∧
      ∃ c o, Commitment.ofBytes letter.bytes = .ok c ∧ Opening.ofBytes F bytes = .ok o ∧
        c.verify o = true
  | any, _, _ => True

/-- The line for a message of a round. -/
def line (F : FieldSpec) (tag : Nat → Λ) (message : MessageKind) (round : Nat) : Line Λ :=
  ⟨tag round, message.Fits F tag⟩

/-- What is due in a round, if the protocol has these messages, one in each round. -/
def sent (F : FieldSpec) (tag : Nat → Λ) (messages : List MessageKind) (round : Nat) : List (Line Λ) :=
  (messages[round]?.map fun message => message.line F tag round).toList

/-- A protocol has one round more than it has messages. -/
def status (messages : List MessageKind) (round : Nat) : Status :=
  if round < messages.length then .hasMoreRounds else .isDone

/-- What is taken in a round is what was due in the round before. -/
def taken (F : FieldSpec) (tag : Nat → Λ) (messages : List MessageKind) : Nat → List (Line Λ)
  | 0 => []
  | round + 1 => sent F tag messages round

end MessageKind

/-- **Becomes.**  The talk has gone on so far that these lines are left. -/
structure Talk.Becomes (t : Talk Λ) (outs ins : List (Line Λ)) (t' : Talk Λ) : Prop where
  outs : t'.outs = outs
  ins : t'.ins = ins
  said : t.said ⊆ t'.said
  heard : t.heard ⊆ t'.heard

theorem Talk.Becomes.congr {t t' : Talk Λ} {outs ins outs' ins' : List (Line Λ)}
    (becomes : t.Becomes outs ins t') (same : outs = outs') (same' : ins = ins') :
    t.Becomes outs' ins' t' :=
  same ▸ same' ▸ becomes

/-- Something is heard, and then something is said. -/
theorem Talk.Becomes.trans {t t' t'' : Talk Λ} {outs ins : List (Line Λ)}
    (first : t.Becomes t.outs ins t') (second : t'.Becomes outs t'.ins t'') : t.Becomes outs ins t'' :=
  ⟨second.outs, second.ins.trans first.ins, List.Subset.trans first.said second.said,
    List.Subset.trans first.heard second.heard⟩

variable {follows : Λ → Λ → Prop} {peers : List PartyId} {peer : PartyId} {label : Λ}
  {S : Party F σ} {t : Talk Λ} {line : Line Λ} {outs ins : List (Line Λ)}

open Round

/-! ## Comparisons -/

namespace BroadcastValidation

variable {v : BroadcastValidation}

/-- The digest is sent. -/
theorem keeps_zero (member : peer ∈ peers) (due : t.outs = line :: outs) (same : line.label = label)
    (fits : ∀ bytes, line.Fits t.said bytes) :
    Keeps follows peers peer label (evaluate 0) v S t fun status _ S' t' =>
      status = .hasMoreRounds ∧ S' = S ∧ t.Becomes outs t.ins t' :=
  .get (.modify (.say member due same (fits _) (.pure
    ⟨rfl, rfl, rfl, rfl, List.subset_append_left .., List.Subset.refl _⟩)))

/-- Digests are taken and compared. -/
theorem keeps_one (member : peer ∈ peers) (due : t.ins = line :: ins)
    (follow : follows label line.label) :
    Keeps follows peers peer label (evaluate 1) v S t fun status _ S' t' =>
      status = .isDone ∧ S' = S ∧ t.Becomes t.outs ins t' := by
  refine .hear member due follow fun got _ => .get ?_
  dsimp only
  split
  · exact .refuse (by simp [Error.Accuses])
  · exact .modify (.pure ⟨rfl, rfl, rfl, rfl, List.Subset.refl _, List.subset_append_left ..⟩)

end BroadcastValidation

/-! ## Places -/

theorem not_accuses_of_placeOf {places : List (Option α)} {i j : PartyId} {e : Error}
    (failed : placeOf places i = .error e) : ¬ e.Accuses j := by
  rw [eq_of_placeOf_error failed]
  simp [Error.Accuses]

theorem not_accuses_of_place {places : List (Option α)} {i j : PartyId} {a : α} {e : Error}
    (failed : place places i a = .error e) : ¬ e.Accuses j := by
  rw [eq_of_place_error failed]
  simp [Error.Accuses]

/-- An entry is found in its place, and all others in theirs. -/
theorem placeOf_of_place {places places' : List (Option α)} {i : PartyId} {a : α}
    (placed : place places i a = .ok places') (j : PartyId) :
    placeOf places' j = if i = j then .ok (some a) else placeOf places j := by
  rw [place] at placed
  cases found : placeOf places i with
  | error e =>
      rw [found] at placed
      cases placed
  | ok entry =>
      rw [found] at placed
      cases placed
      cases i with
      | zero => cases found
      | succ i =>
          have within : i < places.length := by
            by_contra beyond
            rw [placeOf, List.getElem?_eq_none (Nat.le_of_not_lt beyond)] at found
            cases found
          cases j with
          | zero => rfl
          | succ j =>
              by_cases same : i = j
              · subst same
                simp [placeOf, within]
              · simp [placeOf, same]

/-! ## Revelations -/

/-- The messages of a revelation among so many parties. -/
def revealed (n : Nat) : List MessageKind :=
  if n > 2 then [.commitment, .any, .opening 0, .any] else [.commitment, .opening 0]

namespace Reveal

variable {tag : Nat → Λ} {state : Reveal F} {Post' : α → Reveal F → Party F σ → Talk Λ → Prop}

/-- The opening that is left opens the commitment that was sent. -/
def Owns (base : Λ) (state : Reveal F) (t : Talk Λ) : Prop :=
  ∀ o, state.opening = some o → o.IsWhole ∧ ∃ letter ∈ t.said, letter.label = base ∧
    ∃ c, Commitment.ofBytes letter.bytes = .ok c ∧ c.verify o = true

/-- The commitment that is known of the peer is the one that it has sent. -/
def Knows (base : Λ) (peer : PartyId) (state : Reveal F) (t : Talk Λ) : Prop :=
  ∀ entry, placeOf state.commitments peer = .ok entry → ∃ letter ∈ t.heard, letter.label = base ∧
    ∃ c, Commitment.ofBytes letter.bytes = .ok c ∧ entry = some c

/-- What holds before a round. -/
structure Holds (tag : Nat → Λ) (peer : PartyId) (round : Nat) (state : Reveal F) (t : Talk Λ) :
    Prop where
  owns : 1 ≤ round → Owns (tag 0) state t
  knows : 2 ≤ round → Knows (tag 0) peer state t

section

variable {base : Λ} {t' : Talk Λ} {state' : Reveal F}

theorem Owns.mono (owns : Owns base state t) (same : state'.opening = state.opening)
    (said : t.said ⊆ t'.said) : Owns base state' t' := by
  intro o left
  obtain ⟨whole, letter, among, rest⟩ := owns o (same ▸ left)
  exact ⟨whole, letter, said among, rest⟩

theorem Knows.mono (knows : Knows base peer state t) (same : state'.commitments = state.commitments)
    (heard : t.heard ⊆ t'.heard) : Knows base peer state' t' := by
  intro entry found
  obtain ⟨letter, among, rest⟩ := knows entry (same ▸ found)
  exact ⟨letter, heard among, rest⟩

end

theorem Holds.mono {t' : Talk Λ} {round : Nat} (holds : Holds tag peer round state t)
    (said : t.said ⊆ t'.said) (heard : t.heard ⊆ t'.heard) : Holds tag peer round state t' where
  owns begun := (holds.owns begun).mono rfl said
  knows begun := (holds.knows begun).mono rfl heard

/-- A commitment is sent. -/
theorem keeps_commit {g : Unit → Round F σ (Reveal F) α} (member : peer ∈ peers)
    (due : t.outs = MessageKind.commitment.line F tag 0 :: outs)
    (next : ∀ state' S' t', S'.standing = S.standing → t.Becomes outs t.ins t' →
      Owns (tag 0) state' t' → Keeps follows peers peer (tag 0) (g ()) state' S' t' Post') :
    Keeps follows peers peer (tag 0) (commit >>= g) state S t Post' := by
  obtain ⟨whole, -, digest⟩ := Commitment.commit_spec state.value S.rng
  rw [commit]
  simp only [bind_assoc]
  refine .party (.get (.setParty (.say member due rfl ?_ (.modify (.ofExcept
    (fun _ => not_accuses_of_place) fun places _ => .modify (next _ _ _ rfl ?_ ?_))))))
  · rw [digest]
    exact ⟨_, Commitment.ofBytes_digest _⟩
  · exact ⟨rfl, rfl, List.subset_append_left .., List.Subset.refl _⟩
  · rintro o left
    cases left
    refine ⟨whole, _, List.mem_append_right _ List.mem_cons_self, rfl,
      ⟨(Commitment.commit state.value S.rng).1.2.digest⟩, ?_, ?_⟩
    · rw [digest]
      exact Commitment.ofBytes_digest _
    · simp [Commitment.verify]

/-- The commitment of a party is kept. -/
theorem keeps_keepCommitment {other : PartyId} {message : Bytes}
    {g : Unit → Round F σ (Reveal F) α} {label : Λ}
    (fits : other = peer → ∃ c, Commitment.ofBytes message = .ok c)
    (next : ∀ c state', Commitment.ofBytes message = .ok c → state'.opening = state.opening →
      placeOf state'.commitments peer
        = (if other = peer then .ok (some c) else placeOf state.commitments peer) →
      Keeps follows peers peer label (g ()) state' S t Post') :
    Keeps follows peers peer label (keepCommitment other message >>= g) state S t Post' := by
  rw [keepCommitment]
  simp only [bind_assoc]
  exact .read fits fun c read => .get (.ofExcept (fun _ => not_accuses_of_place) fun places placed =>
    .modify (next c _ read rfl (placeOf_of_place placed peer)))

/-- The commitments of all are kept. -/
theorem keeps_keepCommitments {messages : List (PartyId × Bytes)} {bytes : Bytes} {c : Commitment}
    {g : Unit → Round F σ (Reveal F) α} {label : Λ}
    (own : ∀ message, (peer, message) ∈ messages → message = bytes)
    (read : Commitment.ofBytes bytes = .ok c)
    (next : ∀ state', state'.opening = state.opening →
      ((∃ message, (peer, message) ∈ messages) ∨ placeOf state.commitments peer = .ok (some c) →
        placeOf state'.commitments peer = .ok (some c)) →
      Keeps follows peers peer label (g ()) state' S t Post') :
    Keeps follows peers peer label
      ((messages.forM fun (other, message) => keepCommitment other message) >>= g) state S t Post' := by
  induction messages generalizing state with
  | nil => exact next state rfl fun known => known.elim (by simp) id
  | cons message messages ih =>
      obtain ⟨other, message⟩ := message
      rw [List.forM, bind_assoc]
      refine keeps_keepCommitment (fun same => ?_) fun c' state' kept opening places => ?_
      · obtain rfl := own message (same ▸ List.mem_cons_self)
        exact ⟨c, read⟩
      refine ih (fun m among => own m (List.mem_cons_of_mem _ among)) fun state'' opening' known => ?_
      refine next state'' (opening'.trans opening) fun before => known ?_
      rw [places]
      by_cases same : other = peer
      · obtain rfl := own message (same ▸ List.mem_cons_self)
        rw [if_pos same, ← read.symm.trans kept |> Except.ok.inj]
        exact .inr rfl
      · rw [if_neg same]
        refine before.imp_left ?_
        rintro ⟨m, among⟩
        exact ⟨m, (List.mem_cons.mp among).resolve_left fun h => same (Prod.mk.inj h).1.symm⟩

theorem keeps_receiveCommitments {label : Λ} {g : Unit → Round F σ (Reveal F) α}
    (member : peer ∈ peers) (due : t.ins = MessageKind.commitment.line F tag 0 :: ins)
    (follow : follows label (tag 0))
    (next : ∀ state' t', state'.opening = state.opening → t.Becomes t.outs ins t' →
      Knows (tag 0) peer state' t' → Keeps follows peers peer label (g ()) state' S t' Post') :
    Keeps follows peers peer label (receiveCommitments >>= g) state S t Post' := by
  rw [receiveCommitments]
  simp only [bind_assoc]
  refine .hear member due follow fun got hears => ?_
  obtain ⟨c, read⟩ := hears.1
  have own : ∀ message, (peer, message) ∈ peers.map (fun q => (q, got q)) → message = got peer := by
    intro message among
    obtain ⟨q, -, same⟩ := List.mem_map.mp among
    obtain ⟨rfl, rfl⟩ := Prod.mk.inj same
    rfl
  refine keeps_keepCommitments own read fun state' opening known => .party ?_
  have known := known (.inl ⟨got peer, List.mem_map_of_mem member⟩)
  have knows : ∀ state'' : Reveal F, state''.commitments = state'.commitments →
      Knows (tag 0) peer state''
        { t with ins, heard := t.heard ++ [⟨(MessageKind.commitment.line F tag 0).label, got peer⟩] } := by
    intro state'' same entry found
    rw [same, known] at found
    exact ⟨_, List.mem_append_right _ List.mem_cons_self, rfl, c, read, (Except.ok.inj found).symm⟩
  have becomes : t.Becomes t.outs ins { t with
      ins, heard := t.heard ++ [⟨(MessageKind.commitment.line F tag 0).label, got peer⟩] } :=
    ⟨rfl, rfl, List.Subset.refl _, List.subset_append_left ..⟩
  split_ifs
  · exact .modify (next _ _ opening becomes (knows _ rfl))
  · exact next _ _ opening becomes (knows _ rfl)

/-- Digests are sent. -/
theorem keeps_validate_zero {g : Unit → Round F σ (Reveal F) α} {label : Λ} {round : Nat}
    (member : peer ∈ peers) (due : t.outs = MessageKind.any.line F tag round :: outs)
    (same : tag round = label)
    (next : ∀ state' t', state'.opening = state.opening → state'.commitments = state.commitments →
      t.Becomes outs t.ins t' → Keeps follows peers peer label (g ()) state' S t' Post') :
    Keeps follows peers peer label (validate 0 >>= g) state S t Post' := by
  rw [validate, bind_assoc]
  refine .get ?_
  cases state.validation with
  | none => exact .refuse (by simp [Error.Accuses])
  | some validation =>
      refine .discard (.within ?_)
      refine (BroadcastValidation.keeps_zero member due same fun _ => trivial).weaken ?_
      rintro _ _ _ t' ⟨-, rfl, becomes⟩
      exact next _ _ rfl rfl becomes

/-- Digests are compared. -/
theorem keeps_validate_one {g : Unit → Round F σ (Reveal F) α} {label : Λ} {round : Nat}
    (member : peer ∈ peers) (due : t.ins = MessageKind.any.line F tag round :: ins)
    (follow : follows label (tag round))
    (next : ∀ state' t', state'.opening = state.opening → state'.commitments = state.commitments →
      t.Becomes t.outs ins t' → Keeps follows peers peer label (g ()) state' S t' Post') :
    Keeps follows peers peer label (validate 1 >>= g) state S t Post' := by
  rw [validate, bind_assoc]
  refine .get ?_
  cases state.validation with
  | none => exact .refuse (by simp [Error.Accuses])
  | some validation =>
      refine .discard (.within ?_)
      refine (BroadcastValidation.keeps_one member due follow).weaken ?_
      rintro _ _ _ t' ⟨-, rfl, becomes⟩
      exact next _ _ rfl rfl becomes

/-- What is sent opens the commitment that was sent. -/
theorem keeps_sendOpening {g : Unit → Round F σ (Reveal F) α} {label : Λ} {round : Nat}
    (member : peer ∈ peers) (due : t.outs = (MessageKind.opening 0).line F tag round :: outs)
    (same : tag round = label) (owns : Owns (tag 0) state t)
    (next : ∀ t', t.Becomes outs t.ins t' →
      Keeps follows peers peer label (g ()) state S t' Post') :
    Keeps follows peers peer label (sendOpening >>= g) state S t Post' := by
  rw [sendOpening, bind_assoc]
  refine .get ?_
  cases left : state.opening with
  | none => exact .refuse (by simp [Error.Accuses])
  | some o =>
      obtain ⟨whole, letter, among, base, c, read, verified⟩ := owns o left
      refine .say member due same ?_
        (next _ ⟨rfl, rfl, List.subset_append_left .., List.Subset.refl _⟩)
      exact ⟨letter, among, base, c, o, read, Opening.ofBytes_toBytes whole, verified⟩

/-- The opening of a party is checked. -/
theorem keeps_checkOpening {places : List (Option (Opening F))} {other : PartyId} {message : Bytes}
    {g : List (Option (Opening F)) → Round F σ (Reveal F) α} {label : Λ}
    (fits : other = peer → ∃ o, Opening.ofBytes F message = .ok o ∧
      ∀ entry, placeOf state.commitments peer = .ok entry → ∃ c, entry = some c ∧ c.verify o = true)
    (next : ∀ places, Keeps follows peers peer label (g places) state S t Post') :
    Keeps follows peers peer label (checkOpening places other message >>= g) state S t Post' := by
  rw [checkOpening]
  simp only [bind_assoc]
  refine .read (fun same => (fits same).imp fun _ h => h.1) fun opening read => .get (.ofExcept
    (fun _ => not_accuses_of_placeOf) fun entry found => ?_)
  have verified : other = peer → ∃ c, entry = some c ∧ c.verify opening = true := by
    rintro rfl
    obtain ⟨o, read', known⟩ := fits rfl
    obtain rfl : opening = o := Except.ok.inj (read.symm.trans read')
    exact known entry found
  have harmless : (other = peer → False) → ¬ (Error.commitmentMismatch other).Accuses peer := by
    simp [Error.Accuses]
  cases entry with
  | none =>
      refine .refuse (harmless fun same => ?_)
      obtain ⟨c, given, -⟩ := verified same
      cases given
  | some c =>
      by_cases verify : c.verify opening = true
      · simp only [verify, if_true]
        exact .ofExcept (fun _ => not_accuses_of_place) fun places _ => next places
      · simp only [verify]
        refine .refuse (harmless fun same => verify ?_)
        obtain ⟨c', given, verified⟩ := verified same
        exact Option.some.inj given ▸ verified

/-- The openings of all are checked. -/
theorem keeps_checkOpenings {messages : List (PartyId × Bytes)} {places : List (Option (Opening F))}
    {g : List (Option (Opening F)) → Round F σ (Reveal F) α} {label : Λ}
    (fits : ∀ message, (peer, message) ∈ messages → ∃ o, Opening.ofBytes F message = .ok o ∧
      ∀ entry, placeOf state.commitments peer = .ok entry → ∃ c, entry = some c ∧ c.verify o = true)
    (next : ∀ places, Keeps follows peers peer label (g places) state S t Post') :
    Keeps follows peers peer label
      (messages.foldlM (fun places (other, message) => checkOpening places other message) places >>= g)
      state S t Post' := by
  induction messages generalizing places with
  | nil => exact next places
  | cons message messages ih =>
      obtain ⟨other, message⟩ := message
      rw [List.foldlM_cons, bind_assoc]
      exact keeps_checkOpening (fun same => fits message (same ▸ List.mem_cons_self)) fun places =>
        ih fun m among => fits m (List.mem_cons_of_mem _ among)

theorem keeps_receiveOpenings {label : Λ} {round : Nat} {g : List Bytes → Round F σ (Reveal F) α}
    (member : peer ∈ peers) (due : t.ins = (MessageKind.opening 0).line F tag round :: ins)
    (follow : follows label (tag round)) (knows : Knows (tag 0) peer state t)
    (next : ∀ openings state' t', state'.opening = none → state'.commitments = state.commitments →
      t.Becomes t.outs ins t' → Keeps follows peers peer label (g openings) state' S t' Post') :
    Keeps follows peers peer label (receiveOpenings >>= g) state S t Post' := by
  rw [receiveOpenings]
  simp only [bind_assoc]
  refine .party (.get ?_)
  cases state.opening with
  | none => exact .refuse (by simp [Error.Accuses])
  | some own =>
      simp only [bind_assoc]
      refine .modify ?_
      refine .hear member due follow fun got hears => keeps_checkOpenings ?_ fun places =>
        .ofExcept (fun _ => not_accuses_of_place) fun places _ =>
          .modify (next _ _ _ rfl rfl ⟨rfl, rfl, List.Subset.refl _, List.subset_append_left ..⟩)
      intro message among
      obtain ⟨q, -, same⟩ := List.mem_map.mp among
      obtain ⟨rfl, rfl⟩ := Prod.mk.inj same
      obtain ⟨⟨letter, heard, base, c, o, read, opens, verified⟩, nodup⟩ := hears
      refine ⟨o, opens, fun entry found => ?_⟩
      obtain ⟨letter', heard', base', c', read', rfl⟩ := knows entry found
      -- there is only one message with the label of the first round
      have labels : (t.heard.map (·.label)).Nodup := (List.nodup_append.mp nodup).1
      obtain rfl : letter = letter' :=
        List.inj_on_of_nodup_map labels heard heard' (base.trans base'.symm)
      obtain rfl : c = c' := Except.ok.inj (read.symm.trans read')
      exact ⟨c, rfl, verified⟩

/-- **Revelations keep to their messages.**  What a party reveals opens its commitment, and it accuses
nobody whose commitment and opening have fitted. -/
theorem keeps_evaluate {n round : Nat} (member : peer ∈ peers) (parties : S.parties = n)
    (follow : ∀ round, follows (tag (round + 1)) (tag round)) (holds : Holds tag peer round state t)
    (within : round ≤ (revealed n).length)
    (said : t.outs = MessageKind.sent F tag (revealed n) round ++ outs)
    (heard : t.ins = MessageKind.taken F tag (revealed n) round ++ ins) :
    Keeps follows peers peer (tag round) (evaluate round) state S t fun status state' S' t' =>
      status = MessageKind.status (revealed n) round ∧ S'.standing = S.standing ∧
        t.Becomes outs ins t' ∧ Holds tag peer (round + 1) state' t' := by
  subst parties
  rw [evaluate]
  refine .party ?_
  by_cases many : S.parties > 2
  · simp only [many, decide_true]
    simp only [revealed, many, if_true] at within said heard ⊢
    have last : round ≤ 4 := within
    interval_cases round
    · refine keeps_commit member said fun state' S' t' standing becomes owns => .pure ?_
      exact ⟨rfl, standing, becomes.congr rfl heard, fun _ => owns, by simp⟩
    · refine keeps_receiveCommitments member heard (follow 0) fun _ _ opening first knows =>
        keeps_validate_zero member (first.outs.trans said) rfl fun _ _ opening' same second => .pure ?_
      have owns := (holds.owns (Nat.le_refl 1)).mono (opening'.trans opening)
        (first.trans second).said
      exact ⟨rfl, rfl, first.trans second, fun _ => owns, fun _ => knows.mono same second.heard⟩
    · refine keeps_validate_one member heard (follow 1) fun _ _ opening same first =>
        keeps_sendOpening member (first.outs.trans said) rfl
          ((holds.owns (Nat.le_succ 1)).mono opening first.said) fun _ second => .pure ?_
      have knows := (holds.knows (Nat.le_refl 2)).mono same (first.trans second).heard
      have owns := (holds.owns (Nat.le_succ 1)).mono opening (first.trans second).said
      exact ⟨rfl, rfl, first.trans second, fun _ => owns, fun _ => knows⟩
    · have knows := holds.knows (Nat.le_succ 2)
      refine keeps_receiveOpenings member heard (follow 2) knows fun _ _ _ opening same first =>
        .modify (keeps_validate_zero member (first.outs.trans said) rfl fun _ _ opening' same' second =>
          .pure ?_)
      refine ⟨rfl, rfl, first.trans second, fun _ o left => ?_, fun _ => ?_⟩
      · rw [opening', opening] at left
        cases left
      · exact knows.mono (same'.trans same) (first.trans second).heard
    · refine keeps_validate_one member heard (follow 3) fun _ _ opening same becomes =>
        .modify (.pure ?_)
      have owns := (holds.owns (by omega)).mono opening becomes.said
      have knows := (holds.knows (by omega)).mono same becomes.heard
      exact ⟨rfl, rfl, becomes.congr said rfl, fun _ => owns, fun _ => knows⟩
  · simp only [many, decide_false]
    simp only [revealed, many, if_false] at within said heard ⊢
    have last : round ≤ 2 := within
    interval_cases round
    · refine keeps_commit member said fun state' S' t' standing becomes owns => .pure ?_
      exact ⟨rfl, standing, becomes.congr rfl heard, fun _ => owns, by simp⟩
    · refine keeps_receiveCommitments member heard (follow 0) fun _ _ opening first knows =>
        keeps_sendOpening member (first.outs.trans said) rfl
          ((holds.owns (Nat.le_refl 1)).mono opening first.said) fun _ second => .pure ?_
      have owns := (holds.owns (Nat.le_refl 1)).mono opening (first.trans second).said
      exact ⟨rfl, rfl, first.trans second, fun _ => owns, fun _ => knows.mono rfl second.heard⟩
    · have knows := holds.knows (Nat.le_refl 2)
      refine .discard (keeps_receiveOpenings member heard (follow 1) knows fun _ _ _ opening same
        becomes => .modify (.pure ?_))
      refine ⟨rfl, rfl, becomes.congr said rfl, fun _ o left => ?_, fun _ => knows.mono same becomes.heard⟩
      rw [opening] at left
      cases left

end Reveal

end Spdz
