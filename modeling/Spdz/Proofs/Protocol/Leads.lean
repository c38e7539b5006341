import Spdz.Proofs.Network.Ends
import Spdz.Protocol.Round

/-!
# What rounds lead to

Peers and network may do anything.  What can be said of a round from given states is what holds of its
result and of the states it leaves if it succeeds, and what holds of its error and of these states if
it fails.  This is found by going through the text of the round, part by part.

* `Round.Leads` — what holds after a round, however it ends.
* `Round.Leads.bind`, `Round.Leads.call`, … — the parts of a round.
* `Round.Bides` — rounds that leave alone what is shown of a protocol, and the settings of the party.
-/

namespace Spdz

variable {F : FieldSpec} {σ P Q α β γ : Type}

namespace Round

/-- A result that is discarded is of no use later. -/
theorem discard_bind (x : Round F σ P α) (next : PUnit → Round F σ P β) :
    discard x >>= next = x >>= fun _ => next ⟨⟩ := by
  have first : discard x = x >>= fun _ => pure PUnit.unit := by
    rw [bind_pure_comp]
    exact congrFun (congrFun LawfulFunctor.map_const PUnit.unit) x
  rw [first, bind_assoc]
  simp only [pure_bind]

/-- **Leads.**  Whatever the replies to its calls are: if the round succeeds from the given states,
`Post` holds of its result and of the states it leaves, and if it fails, `Fails` holds of its error and
of these states. -/
def Leads (x : Round F σ P α) (p : P) (S : Party F σ) (Fails : Error → P → Party F σ → Prop)
    (Post : α → P → Party F σ → Prop) : Prop :=
  ∀ result p' S', ((x.run p).run S).Ends ((result, p'), S') →
    match result with
    | .ok a => Post a p' S'
    | .error e => Fails e p' S'

variable {p q : P} {S : Party F σ} {Fails : Error → P → Party F σ → Prop}
  {Post : α → P → Party F σ → Prop}

namespace Leads

/-! ## Results -/

theorem pure {a : α} (ended : Post a p S) : Leads (pure a : Round F σ P α) p S Fails Post := by
  rintro result p' S' ⟨⟩
  exact ended

theorem throw {e : Error} (failed : Fails e p S) :
    Leads (throw e : Round F σ P α) p S Fails Post := by
  rintro result p' S' ⟨⟩
  exact failed

theorem weaken {Fails' : Error → P → Party F σ → Prop} {Post' : α → P → Party F σ → Prop}
    {x : Round F σ P α} (leads : Leads x p S Fails Post)
    (fails : ∀ e p S, Fails e p S → Fails' e p S) (weaker : ∀ a p S, Post a p S → Post' a p S) :
    Leads x p S Fails' Post' := by
  rintro (e | a) p' S' ends
  · exact fails e p' S' (leads _ p' S' ends)
  · exact weaker a p' S' (leads _ p' S' ends)

/-- What a round leads to is also what it can end with. -/
theorem and_ends {x : Round F σ P α} (leads : Leads x p S Fails Post) :
    Leads x p S Fails fun a p' S' => ((x.run p).run S).Ends ((.ok a, p'), S') ∧ Post a p' S' := by
  rintro (e | a) p' S' ends
  · exact leads _ p' S' ends
  · exact ⟨ends, leads _ p' S' ends⟩

variable {f : α → Round F σ P β} {Post' : β → P → Party F σ → Prop}

theorem bind {x : Round F σ P α} (leads : Leads x p S Fails Post)
    (next : ∀ a p S, Post a p S → Leads (f a) p S Fails Post') :
    Leads (x >>= f) p S Fails Post' := by
  intro result p' S' ends
  obtain ⟨⟨⟨outcome, p₁⟩, S₁⟩, before, after⟩ := Exchange.ends_bind.mp ends
  have here := leads outcome p₁ S₁ before
  cases outcome with
  | error e =>
      cases after
      exact here
  | ok a => exact next a p₁ S₁ here result p' S' after

/-- After an error nothing more is done. -/
theorem refuse {e : Error} (failed : Fails e p S) :
    Leads (MonadExceptOf.throw e >>= f) p S Fails Post' := by
  rintro result p' S' ⟨⟩
  exact failed

theorem resume {a : α} (next : Leads (f a) p S Fails Post') :
    Leads (Pure.pure a >>= f) p S Fails Post' := by
  rwa [pure_bind]

/-- What is done last can be followed by nothing. -/
theorem last {x : Round F σ P α} (leads : Leads (x >>= Pure.pure) p S Fails Post) :
    Leads x p S Fails Post := by
  rwa [bind_pure] at leads

/-! ## The states -/

theorem get {g : P → Round F σ P β} (next : Leads (g p) p S Fails Post') :
    Leads (get >>= g) p S Fails Post' := next

theorem party {g : Party F σ → Round F σ P β} (next : Leads (g S) p S Fails Post') :
    Leads (Round.party >>= g) p S Fails Post' := next

theorem set {g : PUnit → Round F σ P β} (next : Leads (g ⟨⟩) q S Fails Post') :
    Leads (set q >>= g) p S Fails Post' := next

theorem modify {change : P → P} {g : PUnit → Round F σ P β}
    (next : Leads (g ⟨⟩) (change p) S Fails Post') :
    Leads (modify change >>= g) p S Fails Post' := next

theorem setParty {S' : Party F σ} {g : PUnit → Round F σ P β}
    (next : Leads (g ⟨⟩) p S' Fails Post') :
    Leads (MonadStateOf.set S' >>= g) p S Fails Post' := next

theorem record {share : Share F} {value : Elem F} {g : Unit → Round F σ P β}
    (next : Leads (g ()) p { S with opened := S.opened.push share value } Fails Post') :
    Leads (Round.record share value >>= g) p S Fails Post' := next

theorem ofExcept {ε : Type} {wrap : ε → Error} {x : Except ε α}
    (fails : ∀ e, x = .error e → Fails (wrap e) p S)
    (next : ∀ a, x = .ok a → Leads (f a) p S Fails Post') :
    Leads (Round.ofExcept wrap x >>= f) p S Fails Post' := by
  cases x with
  | error e => exact refuse (fails e rfl)
  | ok a => exact next a rfl

theorem draw [Supplier F σ] {item : Item} {g : item.Value F → Round F σ P β}
    (fails : ∀ cause supplier, Fails (.preprocessing cause) p { S with supplier })
    (next : ∀ value supplier, Leads (g value) p { S with supplier } Fails Post') :
    Leads (Round.draw item >>= g) p S Fails Post' := by
  let drawn := Supplier.draw (F := F) item S.supplier
  have rest : Leads (Round.ofExcept .preprocessing drawn.1 >>= g) p
      { S with supplier := drawn.2 } Fails Post' :=
    ofExcept (fun cause _ => fails cause _) fun value _ => next value _
  exact rest

/-! ## Parts of other protocols -/

theorem within_last {part : P → Q} {replace : Q → P → P} {x : Round F σ Q α}
    (leads : Leads x (part p) S (fun e q' => Fails e (replace q' p))
      fun a q' => Post a (replace q' p)) :
    Leads (Round.within part replace x) p S Fails Post := by
  intro result p' S' ends
  obtain ⟨⟨⟨outcome, q'⟩, S₁⟩, before, same⟩ := Exchange.ends_bind.mp ends
  cases same
  have here := leads result q' S' before
  cases result <;> exact here

theorem within {part : P → Q} {replace : Q → P → P} {x : Round F σ Q α}
    (leads : Leads x (part p) S (fun e q' => Fails e (replace q' p)) fun a q' S' =>
      Leads (f a) (replace q' p) S' Fails Post') :
    Leads (Round.within part replace x >>= f) p S Fails Post' :=
  bind (within_last leads) fun _ _ _ next => next

theorem apart {inner : Q} {x : Round F σ Q α} {g : α × Q → Round F σ P β}
    (leads : Leads x inner S (fun e _ => Fails e p) fun a q' S' =>
      Leads (g (a, q')) p S' Fails Post') :
    Leads (Round.apart inner x >>= g) p S Fails Post' := by
  have outer : Leads (Round.apart inner x : Round F σ P _) p S Fails fun a p' S' =>
      Leads (g a) p' S' Fails Post' := by
    intro result p' S' ends
    obtain ⟨⟨⟨outcome, q'⟩, S₁⟩, before, same⟩ := Exchange.ends_bind.mp ends
    cases same
    have here := leads outcome q' S' before
    cases outcome <;> exact here
  exact bind outer fun _ _ _ next => next

theorem discard {x : Round F σ P α} {g : PUnit → Round F σ P β}
    (leads : Leads (x >>= fun _ => g ⟨⟩) p S Fails Post') :
    Leads (Functor.discard x >>= g) p S Fails Post' := by
  rwa [discard_bind]

/-! ## The network -/

theorem call {made : Call} {g : made.Reply → Round F σ P β}
    (fails : ∀ cause, Fails (.transport cause) p S)
    (next : ∀ reply, Leads (g reply) p S Fails Post') :
    Leads (Round.call made >>= g) p S Fails Post' := by
  intro result p' S' ends
  have called : (Exchange.perform made >>= fun reply =>
      ((Round.ofExcept .transport reply >>= g : Round F σ P β).run p).run S).Ends
        ((result, p'), S') := ends
  obtain ⟨reply, -, after⟩ := Exchange.ends_bind.mp called
  exact ofExcept (fun cause _ => fails cause) (fun reply _ => next reply) result p' S' after

theorem sendElements {elements : List (Elem F)} {g : Unit → Round F σ P β}
    (fails : ∀ cause, Fails (.transport cause) p S) (next : Leads (g ()) p S Fails Post') :
    Leads (Round.sendElements elements >>= g) p S Fails Post' := call fails fun _ => next

variable {count : Nat} (fails : ∀ cause, Fails (.transport cause) p S)
  (malformed : ∀ peer cause, Fails (.malformedMessage peer cause) p S)

include fails malformed

theorem receiveElements {peer : PartyId} {g : List (Elem F) → Round F σ P β}
    (next : ∀ elements, Leads (g elements) p S Fails Post') :
    Leads (Round.receiveElements peer count >>= g) p S Fails Post' := by
  rw [Round.receiveElements, bind_assoc]
  exact call fails fun message => ofExcept (fun cause _ => malformed peer cause) fun elements _ =>
    next elements

theorem receiveElementsFromAll {g : List (PartyId × List (Elem F)) → Round F σ P β}
    (next : ∀ received, Leads (g received) p S Fails Post') :
    Leads (Round.receiveElementsFromAll count >>= g) p S Fails Post' := by
  rw [Round.receiveElementsFromAll, bind_assoc]
  refine call fails fun messages => ?_
  induction messages generalizing g with
  | nil => exact next []
  | cons message messages ih =>
      simp only [List.mapM_cons, bind_assoc, pure_bind]
      exact ofExcept (fun cause _ => malformed message.1 cause) fun elements _ =>
        ih fun received => next _

omit fails malformed

/-! ## Loops -/

variable {I : P → Party F σ → Prop} {items : List γ}

theorem forM {f : γ → Round F σ P PUnit} (start : I p S)
    (each : ∀ c p S, I p S → Leads (f c) p S Fails fun _ => I) :
    Leads (items.forM f) p S Fails fun _ => I := by
  induction items generalizing p S with
  | nil => exact pure start
  | cons c items ih => exact bind (each c p S start) fun _ _ _ => ih

theorem foldlM {f : α → γ → Round F σ P α} {a : α} (start : I p S)
    (each : ∀ a c p S, I p S → Leads (f a c) p S Fails fun _ => I) :
    Leads (items.foldlM f a) p S Fails fun _ => I := by
  induction items generalizing a p S with
  | nil => exact pure start
  | cons c items ih =>
      rw [List.foldlM_cons]
      exact bind (each a c p S start) fun _ _ _ => ih

end Leads

end Round

/-! ## Rounds that bide -/

/-- **OfRound.**  The errors that a round can have.  The others are those of settings and of the
evaluation of batches. -/
def Error.OfRound : Error → Prop
  | config _ | unfinished _ | aborted .. | tooManyRounds => False
  | _ => True

/-- Who a party is, among how many, and how it is configured. -/
def Party.settings (S : Party F σ) : PartyId × Nat × Config := (S.id, S.parties, S.config)

theorem Party.parties_eq {S T : Party F σ} (same : S.settings = T.settings) :
    S.parties = T.parties := congrArg (·.2.1) same

/-- **Bides.**  However the round ends, what is shown of the protocol is as before, and so are the
settings of the party. -/
def Round.Bides (shown : P → β) (x : Round F σ P α) (p : P) (S : Party F σ) : Prop :=
  x.Leads p S (fun e p' S' => e.OfRound ∧ S'.settings = S.settings ∧ shown p' = shown p)
    fun _ p' S' => S'.settings = S.settings ∧ shown p' = shown p

/-- It does so also after other rounds that do. -/
theorem Round.Bides.trans {shown : P → β} {x : Round F σ P α} {p q : P} {S T : Party F σ}
    (bides : x.Bides shown q T) (settings : T.settings = S.settings) (same : shown q = shown p) :
    x.Leads q T (fun e p' S' => e.OfRound ∧ S'.settings = S.settings ∧ shown p' = shown p)
      fun _ p' S' => S'.settings = S.settings ∧ shown p' = shown p :=
  bides.weaken
    (fun _ _ _ ⟨ofRound, later, still⟩ => ⟨ofRound, later.trans settings, still.trans same⟩)
    fun _ _ _ ⟨later, still⟩ => ⟨later.trans settings, still.trans same⟩

end Spdz
