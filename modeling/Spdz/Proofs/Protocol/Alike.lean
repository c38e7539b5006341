import Spdz.Proofs.Network.Labelled
import Spdz.Proofs.Protocol.Leads

/-!
# Rounds that look alike

Two behaviours look alike to the network if they make the same calls, byte for byte, whatever the replies
to these are.  What they come to in the end need not be the same, but can be compared.  For two rounds of
a protocol this is found by going through their texts side by side, part by part.

* `Exchange.Alike` — behaviours with the same calls.
* `Exchange.Alike.map_eq`, `Exchange.Alike.labelled_bind` — what is equal then.
* `Round.Alike` — rounds with the same calls, from states of their own.
* `Round.Alike.call`, `Round.Alike.draw`, … — the parts of a round.
-/

namespace Spdz

/-! ## Behaviours -/

namespace Exchange

variable {α β γ δ Λ : Type} {R : α → β → Prop}

/-- **Alike.**  Whatever the replies are, both behaviours make the same calls, and `R` holds of their
results. -/
inductive Alike (R : α → β → Prop) : Exchange α → Exchange β → Prop where
  | done {a : α} {b : β} (related : R a b) : Alike R (.done a) (.done b)
  | call (made : Call) {next : Except TransportError made.Reply → Exchange α}
      {next' : Except TransportError made.Reply → Exchange β}
      (later : ∀ reply, Alike R (next reply) (next' reply)) :
    Alike R (.call made next) (.call made next')

namespace Alike

variable {x : Exchange α} {y : Exchange β}

theorem bind {R' : γ → δ → Prop} {f : α → Exchange γ} {g : β → Exchange δ} (alike : Alike R x y)
    (next : ∀ a b, R a b → Alike R' (f a) (g b)) : Alike R' (x >>= f) (y >>= g) := by
  induction alike with
  | done related => exact next _ _ related
  | call made _ ih => exact .call made ih

/-- **Behaviours that are alike are the same** up to what `R` takes as equal.  Whatever goes on the same
way after them can come next, and the labels of their calls can be anything. -/
theorem labelled_bind {f : α → Labelled Λ γ} {g : β → Labelled Λ γ} (label : Λ) (alike : Alike R x y)
    (next : ∀ a b, R a b → f a = g b) : x.labelled label >>= f = y.labelled label >>= g := by
  induction alike with
  | done related => exact next _ _ related
  | call made _ ih => exact congrArg (Labelled.call label made) (funext ih)

end Alike

end Exchange

/-! ## Rounds -/

namespace Round

variable {F : FieldSpec} {σ P Q α β γ δ : Type}

/-- **Alike.**  Whatever the replies to their calls are, both rounds make the same calls from the given
states, and `Post` holds of what they come to. -/
def Alike (x : Round F σ P α) (p : P) (S : Party F σ) (y : Round F σ P β) (q : P) (T : Party F σ)
    (Post : Except Error α → P → Party F σ → Except Error β → P → Party F σ → Prop) : Prop :=
  ((x.run p).run S).Alike (fun a b => Post a.1.1 a.1.2 a.2 b.1.1 b.1.2 b.2) ((y.run q).run T)

/-- **Agree.**  Both have the same result, and `Mid` holds of the states if they succeed. -/
def Agree (Mid : P → Party F σ → P → Party F σ → Prop) (r : Except Error α) (p : P) (S : Party F σ)
    (r' : Except Error α) (q : P) (T : Party F σ) : Prop :=
  r' = r ∧ (r.isOk → Mid p S q T)

/-- How a round goes on after a part of it. -/
def proceedWith (next : α → Round F σ P β) : Except Error α → Round F σ P β
  | .ok a => next a
  | .error e => throw e

namespace Alike

variable {p q : P} {S T : Party F σ}
  {Post : Except Error γ → P → Party F σ → Except Error δ → P → Party F σ → Prop}

/-! ### Results -/

theorem pure {c : γ} {d : δ} (ended : Post (.ok c) p S (.ok d) q T) :
    Alike (pure c) p S (pure d) q T Post := .done ended

theorem throw {e e' : Error} (failed : Post (.error e) p S (.error e') q T) :
    Alike (throw e) p S (throw e') q T Post := .done failed

theorem bind {x : Round F σ P α} {y : Round F σ P β} {f : α → Round F σ P γ} {g : β → Round F σ P δ}
    (alike : Alike x p S y q T fun r p S r' q T =>
      Alike (proceedWith f r) p S (proceedWith g r') q T Post) :
    Alike (x >>= f) p S (y >>= g) q T Post := by
  refine Exchange.Alike.bind alike ?_
  rintro ⟨⟨r | a, p⟩, S⟩ ⟨⟨r' | b, q⟩, T⟩ next <;> exact next

/-! ### The states -/

section States

variable {f : P → Round F σ P γ} {g : P → Round F σ P δ}

theorem get (next : Alike (f p) p S (g q) q T Post) : Alike (get >>= f) p S (get >>= g) q T Post := next

theorem party {f : Party F σ → Round F σ P γ} {g : Party F σ → Round F σ P δ}
    (next : Alike (f S) p S (g T) q T Post) :
    Alike (Round.party >>= f) p S (Round.party >>= g) q T Post := next

theorem set {p' q' : P} {f : PUnit → Round F σ P γ} {g : PUnit → Round F σ P δ}
    (next : Alike (f ⟨⟩) p' S (g ⟨⟩) q' T Post) :
    Alike (set p' >>= f) p S (set q' >>= g) q T Post := next

theorem modify {change change' : P → P} {f : PUnit → Round F σ P γ} {g : PUnit → Round F σ P δ}
    (next : Alike (f ⟨⟩) (change p) S (g ⟨⟩) (change' q) T Post) :
    Alike (modify change >>= f) p S (modify change' >>= g) q T Post := next

theorem record {share share' : Share F} {value value' : Elem F} {f : Unit → Round F σ P γ}
    {g : Unit → Round F σ P δ}
    (next : Alike (f ()) p { S with opened := S.opened.push share value } (g ()) q
      { T with opened := T.opened.push share' value' } Post) :
    Alike (Round.record share value >>= f) p S (Round.record share' value' >>= g) q T Post := next

end States

section Parts

variable {f : α → Round F σ P γ} {g : α → Round F σ P δ}

theorem ofExcept {ε : Type} {wrap : ε → Error} {x : Except ε α}
    (fails : ∀ e, x = .error e → Post (.error (wrap e)) p S (.error (wrap e)) q T)
    (next : ∀ a, x = .ok a → Alike (f a) p S (g a) q T Post) :
    Alike (Round.ofExcept wrap x >>= f) p S (Round.ofExcept wrap x >>= g) q T Post := by
  cases x with
  | error e => exact .done (fails e rfl)
  | ok a => exact next a rfl

/-- Items that may be different. -/
theorem draw [Supplier F σ] {item item' : Item} {f : item.Value F → Round F σ P γ}
    {g : item'.Value F → Round F σ P δ} {value : item.Value F} {value' : item'.Value F} {rest rest' : σ}
    (drawn : Supplier.draw item S.supplier = (.ok value, rest))
    (drawn' : Supplier.draw item' T.supplier = (.ok value', rest'))
    (next : Alike (f value) p { S with supplier := rest } (g value') q { T with supplier := rest' } Post) :
    Alike (Round.draw item >>= f) p S (Round.draw item' >>= g) q T Post := by
  let found := Supplier.draw (F := F) item S.supplier
  let found' := Supplier.draw (F := F) item' T.supplier
  have whole : Alike (Round.ofExcept .preprocessing found.1 >>= f) p { S with supplier := found.2 }
      (Round.ofExcept .preprocessing found'.1 >>= g) q { T with supplier := found'.2 } Post := by
    simp only [found, found', drawn, drawn']
    exact next
  exact whole

/-- The same item, or the same failure, if the party is the same. -/
theorem draw_self [Supplier F σ] {item : Item} {f : item.Value F → Round F σ P γ}
    {g : item.Value F → Round F σ P δ}
    (fails : ∀ cause supplier, Post (.error (.preprocessing cause)) p { S with supplier }
      (.error (.preprocessing cause)) q { S with supplier })
    (next : ∀ value supplier, Alike (f value) p { S with supplier } (g value) q { S with supplier } Post) :
    Alike (Round.draw item >>= f) p S (Round.draw item >>= g) q S Post := by
  let found := Supplier.draw (F := F) item S.supplier
  have whole : Alike (Round.ofExcept .preprocessing found.1 >>= f) p { S with supplier := found.2 }
      (Round.ofExcept .preprocessing found.1 >>= g) q { S with supplier := found.2 } Post :=
    ofExcept (fun cause _ => fails cause _) fun value _ => next value _
  exact whole

/-! ### Parts of other protocols -/

/-- Parts that agree. -/
theorem within {part : P → Q} {replace : Q → P → P} {x y : Round F σ Q α}
    {Mid : Q → Party F σ → Q → Party F σ → Prop} (alike : Alike x (part p) S y (part q) T (Agree Mid))
    (fails : ∀ e p' S q' T, Post (.error e) (replace p' p) S (.error e) (replace q' q) T)
    (next : ∀ a p' S q' T, Mid p' S q' T →
      Alike (f a) (replace p' p) S (g a) (replace q' q) T Post) :
    Alike (Round.within part replace x >>= f) p S (Round.within part replace y >>= g) q T Post := by
  refine bind (Exchange.Alike.bind alike ?_)
  rintro ⟨⟨_, p'⟩, S⟩ ⟨⟨r, q'⟩, T⟩ ⟨rfl, mid⟩
  cases r with
  | error e => exact .done (.done (fails e p' S q' T))
  | ok a => exact .done (next a p' S q' T (mid rfl))

@[inherit_doc within]
theorem apart {inner inner' : Q} {x y : Round F σ Q α} {f g : α × Q → Round F σ P β}
    {Post : Except Error β → P → Party F σ → Except Error β → P → Party F σ → Prop}
    {Mid : Q → Party F σ → Q → Party F σ → Prop} (alike : Alike x inner S y inner' T (Agree Mid))
    (fails : ∀ e S T, Post (.error e) p S (.error e) q T)
    (next : ∀ a p' S q' T, Mid p' S q' T → Alike (f (a, p')) p S (g (a, q')) q T Post) :
    Alike (Round.apart inner x >>= f) p S (Round.apart inner' y >>= g) q T Post := by
  refine bind (Exchange.Alike.bind alike ?_)
  rintro ⟨⟨_, p'⟩, S⟩ ⟨⟨r, q'⟩, T⟩ ⟨rfl, mid⟩
  cases r with
  | error e => exact .done (.done (fails e S T))
  | ok a => exact .done (next a p' S q' T (mid rfl))

theorem discard {x : Round F σ P α} {y : Round F σ P β} {f : PUnit → Round F σ P γ}
    {g : PUnit → Round F σ P δ}
    (alike : Alike (x >>= fun _ => f ⟨⟩) p S (y >>= fun _ => g ⟨⟩) q T Post) :
    Alike (Functor.discard x >>= f) p S (Functor.discard y >>= g) q T Post := by
  rwa [discard_bind, discard_bind]

/-! ### The network -/

theorem call {made : Call} {f : made.Reply → Round F σ P γ} {g : made.Reply → Round F σ P δ}
    (fails : ∀ cause, Post (.error (.transport cause)) p S (.error (.transport cause)) q T)
    (next : ∀ reply, Alike (f reply) p S (g reply) q T Post) :
    Alike (Round.call made >>= f) p S (Round.call made >>= g) q T Post :=
  Exchange.Alike.call made fun _ => ofExcept (fun cause _ => fails cause) fun reply _ => next reply

theorem sendElements {elements : List (Elem F)} {f : Unit → Round F σ P γ} {g : Unit → Round F σ P δ}
    (fails : ∀ cause, Post (.error (.transport cause)) p S (.error (.transport cause)) q T)
    (next : Alike (f ()) p S (g ()) q T Post) :
    Alike (Round.sendElements elements >>= f) p S (Round.sendElements elements >>= g) q T Post :=
  call fails fun _ => next

variable {count : Nat}
  (fails : ∀ cause, Post (.error (.transport cause)) p S (.error (.transport cause)) q T)
  (malformed : ∀ peer cause, Post (.error (.malformedMessage peer cause)) p S
    (.error (.malformedMessage peer cause)) q T)

include fails malformed

theorem receiveElements {peer : PartyId} {f : List (Elem F) → Round F σ P γ}
    {g : List (Elem F) → Round F σ P δ} (next : ∀ elements, Alike (f elements) p S (g elements) q T Post) :
    Alike (Round.receiveElements peer count >>= f) p S (Round.receiveElements peer count >>= g) q T
      Post := by
  rw [Round.receiveElements, bind_assoc, bind_assoc]
  exact call fails fun message => ofExcept (fun cause _ => malformed peer cause) fun elements _ =>
    next elements

theorem receiveElementsFromAll {f : List (PartyId × List (Elem F)) → Round F σ P γ}
    {g : List (PartyId × List (Elem F)) → Round F σ P δ}
    (next : ∀ received, Alike (f received) p S (g received) q T Post) :
    Alike (Round.receiveElementsFromAll count >>= f) p S (Round.receiveElementsFromAll count >>= g) q T
      Post := by
  rw [Round.receiveElementsFromAll, bind_assoc, bind_assoc]
  refine call fails fun messages => ?_
  induction messages generalizing f g with
  | nil => exact next []
  | cons message messages ih =>
      simp only [List.mapM_cons, bind_assoc, pure_bind]
      exact ofExcept (fun cause _ => malformed message.1 cause) fun elements _ =>
        ih fun received => next _

end Parts

end Alike

end Round

end Spdz
