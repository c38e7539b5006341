import Spdz.Proofs.Protocol.Leads
import Spdz.Proofs.Protocol.Manners

/-!
# Rounds upon given messages

A network on which all calls succeed brings each party's message, whatever it is.  What a round comes to
is then determined, and in particular which message, if any, it stops at.

* `bringing` — such a network, and `Round.upon`, what a round comes to on it.
* `Error.IsCivil` — errors that say of no party that it has sent something wrong.
* `Round.Finds` — a round stops at a fault, if there is one, and otherwise succeeds.
* `Round.Finds.bind`, `Round.Finds.hear`, … — the parts of such a round.
* `Round.Blames` — a round whose other errors are civil.
-/

namespace Spdz

variable {F : FieldSpec} {σ P Q α β γ : Type}

/-! ## The network -/

/-- What the calls of a party give when all of them succeed and each party's message is brought: those of
all peers in the order of the peers, and that of any party that is asked for by name. -/
def bringing (peers : List PartyId) (message : PartyId → Bytes) : (made : Call) → made.Reply
  | .send .. => ()
  | .sendAll _ => ()
  | .receive peer => message peer
  | .receiveAll => peers.map fun peer => (peer, message peer)

namespace Exchange

/-- What a behaviour comes to when all its calls succeed with the given replies. -/
def upon (bring : (made : Call) → made.Reply) (x : Exchange α) : α :=
  (x.facing (fun (_ : Unit) made => (.ok (bring made), ())) ()).1

variable {bring : (made : Call) → made.Reply}

theorem upon_bind (x : Exchange α) (f : α → Exchange β) :
    (x >>= f).upon bring = (f (x.upon bring)).upon bring := by
  induction x with
  | done a => rfl
  | call made next ih => exact ih (.ok (bring made))

theorem ends_upon (bring : (made : Call) → made.Reply) (x : Exchange α) : x.Ends (x.upon bring) :=
  ends_facing _ x ()

end Exchange

/-! ## Rounds -/

namespace Round

/-- **Upon.**  What a round comes to when each party's message is brought. -/
def upon (peers : List PartyId) (message : PartyId → Bytes) (x : Round F σ P α) (p : P) (S : Party F σ) :
    (Except Error α × P) × Party F σ :=
  ((x.run p).run S).upon (bringing peers message)

variable {peers : List PartyId} {message : PartyId → Bytes} {p q : P} {S : Party F σ}

theorem upon_bind (x : Round F σ P α) (f : α → Round F σ P β) :
    upon peers message (x >>= f) p S =
      match upon peers message x p S with
      | ((.ok a, p'), S') => upon peers message (f a) p' S'
      | ((.error e, p'), S') => ((.error e, p'), S') := by
  refine (Exchange.upon_bind ((x.run p).run S) _).trans ?_
  show Exchange.upon _ _ = match ((x.run p).run S).upon (bringing peers message) with
    | ((.ok a, p'), S') => upon peers message (f a) p' S'
    | ((.error e, p'), S') => ((.error e, p'), S')
  rcases ((x.run p).run S).upon (bringing peers message) with ⟨⟨e | a, p'⟩, S'⟩ <;> rfl

theorem upon_within (part : P → Q) (replace : Q → P → P) (x : Round F σ Q α) :
    upon peers message (within part replace x) p S =
      match upon peers message x (part p) S with
      | ((result, q'), S') => ((result, replace q' p), S') :=
  Exchange.upon_bind ((x.run (part p)).run S) _

/-- What holds after a round, whatever the replies are, holds of it here. -/
theorem Leads.upon {Fails : Error → P → Party F σ → Prop} {Post : α → P → Party F σ → Prop}
    {x : Round F σ P α} (leads : x.Leads p S Fails Post) (peers : List PartyId)
    (message : PartyId → Bytes) :
    match upon peers message x p S with
    | ((.ok a, p'), S') => Post a p' S'
    | ((.error e, p'), S') => Fails e p' S' := by
  have ends := Exchange.ends_upon (bringing peers message) ((x.run p).run S)
  rcases same : Round.upon peers message x p S with ⟨⟨e | a, p'⟩, S'⟩
  · exact leads (.error e) p' S' (same ▸ ends)
  · exact leads (.ok a) p' S' (same ▸ ends)

end Round

/-! ## Blame -/

/-- **Civil.**  The error says of no party that it has sent something wrong. -/
def Error.IsCivil : Error → Prop
  | malformedMessage .. | commitmentMismatch _ => False
  | _ => True

namespace Round

/-- Whatever the replies are, the errors of the round are civil, and if it succeeds, `Post` holds. -/
abbrev Civil (x : Round F σ P α) (p : P) (S : Party F σ) (Post : α → P → Party F σ → Prop) : Prop :=
  x.Leads p S (fun e _ _ => e.IsCivil) Post

section Finds

variable (peers : List PartyId) (message : PartyId → Bytes)

/-- **Finds.**  Upon these messages the round stops at the fault, if there is one, and otherwise it
succeeds, and `Post` holds of its result and of the states it leaves. -/
def Finds (x : Round F σ P α) (p : P) (S : Party F σ) (fault : Option Error)
    (Post : α → P → Party F σ → Prop) : Prop :=
  match upon peers message x p S with
  | ((.ok a, p'), S') => fault = none ∧ Post a p' S'
  | ((.error e, _), _) => fault = some e

/-- **Blames.**  Upon these messages the round stops at the fault, if there is one.  Otherwise it has a
civil error, or it succeeds, and `Post` holds of its result and of the states it leaves. -/
def Blames (x : Round F σ P α) (p : P) (S : Party F σ) (fault : Option Error)
    (Post : α → P → Party F σ → Prop) : Prop :=
  match upon peers message x p S, fault with
  | ((.ok a, p'), S'), none => Post a p' S'
  | ((.ok _, _), _), some _ => False
  | ((.error e, _), _), none => e.IsCivil
  | ((.error e, _), _), some fault => e = fault

end Finds

variable {peers : List PartyId} {message : PartyId → Bytes} {p q : P} {S : Party F σ}
  {fault later : Option Error} {Post : α → P → Party F σ → Prop} {f : α → Round F σ P β}
  {Post' : β → P → Party F σ → Prop}

namespace Finds

theorem pure {a : α} (ended : Post a p S) : Finds peers message (pure a : Round F σ P α) p S none Post :=
  ⟨rfl, ended⟩

theorem weaken {Post₁ : α → P → Party F σ → Prop} {x : Round F σ P α}
    (finds : Finds peers message x p S fault Post) (weaker : ∀ a p S, Post a p S → Post₁ a p S) :
    Finds peers message x p S fault Post₁ := by
  unfold Finds at finds ⊢
  generalize upon peers message x p S = ended at finds ⊢
  obtain ⟨⟨e | a, p'⟩, S'⟩ := ended
  · exact finds
  · exact ⟨finds.1, weaker a p' S' finds.2⟩

/-- One part after the other.  The first fault is the one that is found. -/
theorem bind {x : Round F σ P α} (finds : Finds peers message x p S fault Post)
    (next : ∀ a p S, Post a p S → Finds peers message (f a) p S later Post') :
    Finds peers message (x >>= f) p S (fault.or later) Post' := by
  unfold Finds at finds
  rw [Finds, upon_bind]
  generalize upon peers message x p S = ended at finds ⊢
  obtain ⟨⟨e | a, p'⟩, S'⟩ := ended
  · obtain rfl : fault = some e := finds
    rfl
  · obtain ⟨rfl, here⟩ : fault = none ∧ Post a p' S' := finds
    rw [Option.none_or]
    exact next a p' S' here

/-- Where nothing more is read, no more faults are found. -/
theorem andThen {x : Round F σ P α} (finds : Finds peers message x p S fault Post)
    (next : ∀ a p S, Post a p S → Finds peers message (f a) p S none Post') :
    Finds peers message (x >>= f) p S fault Post' := by
  have both := finds.bind next
  rwa [Option.or_none] at both

theorem last {x : Round F σ P α} (finds : Finds peers message (x >>= Pure.pure) p S fault Post) :
    Finds peers message x p S fault Post := by
  rwa [bind_pure] at finds

theorem get {g : P → Round F σ P β} (next : Finds peers message (g p) p S fault Post') :
    Finds peers message (get >>= g) p S fault Post' := next

theorem party {g : Party F σ → Round F σ P β} (next : Finds peers message (g S) p S fault Post') :
    Finds peers message (Round.party >>= g) p S fault Post' := next

theorem set {g : PUnit → Round F σ P β} (next : Finds peers message (g ⟨⟩) q S fault Post') :
    Finds peers message (set q >>= g) p S fault Post' := next

theorem modify {change : P → P} {g : PUnit → Round F σ P β}
    (next : Finds peers message (g ⟨⟩) (change p) S fault Post') :
    Finds peers message (modify change >>= g) p S fault Post' := next

theorem ofExcept_ok {ε : Type} {wrap : ε → Error} {x : Except ε α} {a : α} (ok : x = .ok a)
    (next : Finds peers message (f a) p S fault Post') :
    Finds peers message (Round.ofExcept wrap x >>= f) p S fault Post' := ok ▸ next

theorem ofExcept_error {ε : Type} {wrap : ε → Error} {x : Except ε α} {e : ε} (failed : x = .error e) :
    Finds peers message (Round.ofExcept wrap x >>= f) p S (some (wrap e)) Post' := failed ▸ rfl

theorem refuse {e : Error} : Finds peers message (MonadExceptOf.throw e >>= f) p S (some e) Post' := rfl

theorem hear {g : List (PartyId × Bytes) → Round F σ P β}
    (next : Finds peers message (g (peers.map fun peer => (peer, message peer))) p S fault Post') :
    Finds peers message (Round.call .receiveAll >>= g) p S fault Post' := next

theorem hearFrom {peer : PartyId} {g : Bytes → Round F σ P β}
    (next : Finds peers message (g (message peer)) p S fault Post') :
    Finds peers message (Round.call (.receive peer) >>= g) p S fault Post' := next

theorem within {part : P → Q} {replace : Q → P → P} {x : Round F σ Q α}
    (finds : Finds peers message x (part p) S fault fun a q' S' => Post a (replace q' p) S') :
    Finds peers message (Round.within part replace x) p S fault Post := by
  unfold Finds at finds
  rw [Finds, upon_within]
  generalize upon peers message x (part p) S = ended at finds ⊢
  obtain ⟨⟨e | a, q'⟩, S'⟩ := ended <;> exact finds

end Finds

namespace Blames

theorem of_civil {x : Round F σ P α} (civil : Civil x p S Post) :
    Blames peers message x p S none Post := by
  have known := Leads.upon civil peers message
  unfold Blames
  generalize Round.upon peers message x p S = ended at known ⊢
  obtain ⟨⟨e | a, p'⟩, S'⟩ := ended <;> exact known

/-- What is done after the messages were read has civil errors only. -/
theorem of_finds {x : Round F σ P α} (finds : Finds peers message x p S fault Post)
    (civil : ∀ a p' S', Post a p' S' → Civil (f a) p' S' Post') :
    Blames peers message (x >>= f) p S fault Post' := by
  unfold Finds at finds
  unfold Blames
  rw [upon_bind]
  generalize upon peers message x p S = ended at finds ⊢
  obtain ⟨⟨e | a, p'⟩, S'⟩ := ended
  · obtain rfl : fault = some e := finds
    rfl
  · obtain ⟨rfl, here⟩ : fault = none ∧ Post a p' S' := finds
    exact of_civil (civil a p' S' here)

/-- An error that is not civil is the fault. -/
theorem error_iff {x : Round F σ P α} (blames : Blames peers message x p S fault Post) {e : Error}
    (uncivil : ¬ e.IsCivil) : (upon peers message x p S).1.1 = .error e ↔ fault = some e := by
  unfold Blames at blames
  generalize upon peers message x p S = ended at blames ⊢
  obtain ⟨⟨found | a, p'⟩, S'⟩ := ended
  · cases fault with
    | none =>
        refine iff_of_false (fun same => uncivil ?_) nofun
        exact Except.error.inj same ▸ blames
    | some fault =>
        obtain rfl : found = fault := blames
        exact ⟨fun same => congrArg some (Except.error.inj same),
          fun same => congrArg _ (Option.some.inj same)⟩
  · cases fault with
    | none => exact iff_of_false nofun nofun
    | some fault => exact blames.elim

theorem get {g : P → Round F σ P β} (next : Blames peers message (g p) p S fault Post') :
    Blames peers message (get >>= g) p S fault Post' := next

theorem party {g : Party F σ → Round F σ P β} (next : Blames peers message (g S) p S fault Post') :
    Blames peers message (Round.party >>= g) p S fault Post' := next

theorem discard {x : Round F σ P α} {g : PUnit → Round F σ P β}
    (blames : Blames peers message (x >>= fun _ => g ⟨⟩) p S fault Post') :
    Blames peers message (Functor.discard x >>= g) p S fault Post' := by
  rwa [discard_bind]

end Blames

-- from here on they are known by these lemmas only
attribute [irreducible] Finds Blames

end Round

end Spdz
