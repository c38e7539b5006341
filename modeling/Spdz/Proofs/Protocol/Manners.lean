import Spdz.Proofs.Field.Encoding
import Spdz.Proofs.Network.Hostile
import Spdz.Proofs.Protocol.Moves

/-!
# Rounds that keep to a script

A round of a protocol talks with each of the other parties.  Towards an honest one it keeps to a script:
what it sends is the line that is due and fits, what it takes is taken where it is due, and whatever else
comes from the network or from the party itself, no error of it accuses that party.  This is found by
going through the text of the round, part by part.

* `Error.Accuses` — errors that say of a party that it has sent something wrong.
* `Standing` — what peers can know of a party.
* `Round.Keeps` — a round keeps to the script with a peer, and accuses it of nothing.
* `Round.Keeps.say`, `Round.Keeps.hear`, … — the parts of a round.
-/

namespace Spdz

variable {F : FieldSpec} {σ P Q Λ α β : Type}

/-- **Accuses.**  The error says that the party has sent a message that does not fit. -/
def Error.Accuses (party : PartyId) (e : Error) : Prop :=
  (∃ cause, e = .malformedMessage party cause) ∨ e = .commitmentMismatch party

/-- What peers can know of a party: who it is, and how many openings are pending. -/
structure Standing where
  id : PartyId
  parties : Nat
  threshold : Nat
  pending : Nat

/-- What peers can know of the party. -/
def Party.standing (S : Party F σ) : Standing :=
  ⟨S.id, S.parties, S.config.openedThreshold, S.opened.size⟩

namespace Round

/-- How a round should end: with a result that is as it should be, or with an error that does not accuse
the peer. -/
def Ended (peer : PartyId) (Post : α → P → Party F σ → Talk Λ → Prop)
    (ended : (Except Error α × P) × Party F σ) (t : Talk Λ) : Prop :=
  match ended.1.1 with
  | .ok a => Post a ended.1.2 ended.2 t
  | .error e => ¬ e.Accuses peer

variable (follows : Λ → Λ → Prop) (peers : List PartyId) (peer : PartyId) (label : Λ)

/-- **Keeps.**  From the given states the round, all of whose calls carry the label, keeps to the script
with the peer. -/
def Keeps (x : Round F σ P α) (p : P) (S : Party F σ) (t : Talk Λ)
    (Post : α → P → Party F σ → Talk Λ → Prop) : Prop :=
  (((x.run p).run S).labelled label).Keeps follows peers peer (Ended peer Post) t

variable {follows peers peer label} {p q : P} {S : Party F σ} {t : Talk Λ}
  {Post : α → P → Party F σ → Talk Λ → Prop}

namespace Keeps

/-! ## Results -/

theorem pure {a : α} (ended : Post a p S t) :
    Keeps follows peers peer label (pure a : Round F σ P α) p S t Post := ended

theorem throw {e : Error} (harmless : ¬ e.Accuses peer) :
    Keeps follows peers peer label (throw e : Round F σ P α) p S t Post := harmless

/-- After an error nothing more is done. -/
theorem refuse {Post' : β → P → Party F σ → Talk Λ → Prop} {e : Error} {f : α → Round F σ P β}
    (harmless : ¬ e.Accuses peer) :
    Keeps follows peers peer label (MonadExceptOf.throw e >>= f) p S t Post' := harmless

theorem weaken {Post' : α → P → Party F σ → Talk Λ → Prop} {x : Round F σ P α}
    (keeps : Keeps follows peers peer label x p S t Post)
    (weaker : ∀ a p S t, Post a p S t → Post' a p S t) :
    Keeps follows peers peer label x p S t Post' := by
  refine Labelled.Keeps.weaken keeps ?_
  rintro ⟨⟨result | a, p'⟩, S'⟩ t' ended
  · exact ended
  · exact weaker a p' S' t' ended

theorem bind {Post' : β → P → Party F σ → Talk Λ → Prop} {x : Round F σ P α} {f : α → Round F σ P β}
    (keeps : Keeps follows peers peer label x p S t Post)
    (next : ∀ a p S t, Post a p S t → Keeps follows peers peer label (f a) p S t Post') :
    Keeps follows peers peer label (x >>= f) p S t Post' := by
  have parts : (((x >>= f).run p).run S).labelled label
      = ((x.run p).run S).labelled label >>= fun ((result, p'), S') =>
          match result with
          | .ok a => (((f a).run p').run S').labelled label
          | .error e => .done ((.error e, p'), S') := by
    refine (Exchange.labelled_bind label ((x.run p).run S) _).trans (congrArg _ (funext ?_))
    rintro ⟨⟨result | a, p'⟩, S'⟩ <;> rfl
  rw [Keeps, parts]
  refine Labelled.Keeps.bind keeps ?_
  rintro ⟨⟨result | a, p'⟩, S'⟩ t' ended
  · exact ended
  · exact next a p' S' t' ended

/-- Only what the round does from the given state matters. -/
theorem of_run_eq {x y : Round F σ P α} (same : x.run p = y.run p)
    (keeps : Keeps follows peers peer label y p S t Post) :
    Keeps follows peers peer label x p S t Post := by
  rwa [Keeps, same]

/-- What is done last can be followed by nothing. -/
theorem last {x : Round F σ P α}
    (keeps : Keeps follows peers peer label (x >>= Pure.pure) p S t Post) :
    Keeps follows peers peer label x p S t Post := by
  rwa [bind_pure] at keeps

/-! ## The states -/

variable {f : α → Round F σ P β} {Post' : β → P → Party F σ → Talk Λ → Prop}

theorem get {g : P → Round F σ P β} (next : Keeps follows peers peer label (g p) p S t Post') :
    Keeps follows peers peer label (get >>= g) p S t Post' := next

theorem party {g : Party F σ → Round F σ P β} (next : Keeps follows peers peer label (g S) p S t Post') :
    Keeps follows peers peer label (Round.party >>= g) p S t Post' := next

theorem set {g : PUnit → Round F σ P β} (next : Keeps follows peers peer label (g ⟨⟩) q S t Post') :
    Keeps follows peers peer label (set q >>= g) p S t Post' := next

theorem modify {change : P → P} {g : PUnit → Round F σ P β}
    (next : Keeps follows peers peer label (g ⟨⟩) (change p) S t Post') :
    Keeps follows peers peer label (modify change >>= g) p S t Post' := next

theorem setParty {S' : Party F σ} {g : PUnit → Round F σ P β}
    (next : Keeps follows peers peer label (g ⟨⟩) p S' t Post') :
    Keeps follows peers peer label (MonadStateOf.set S' >>= g) p S t Post' := next

theorem record {share : Share F} {value : Elem F} {g : Unit → Round F σ P β}
    (next : Keeps follows peers peer label (g ()) p
      { S with opened := S.opened.push share value } t Post') :
    Keeps follows peers peer label (Round.record share value >>= g) p S t Post' := next

theorem ofExcept {ε : Type} {wrap : ε → Error} {x : Except ε α}
    (harmless : ∀ e, x = .error e → ¬ (wrap e).Accuses peer)
    (next : ∀ a, x = .ok a → Keeps follows peers peer label (f a) p S t Post') :
    Keeps follows peers peer label (Round.ofExcept wrap x >>= f) p S t Post' := by
  cases x with
  | error e => exact harmless e rfl
  | ok a => exact next a rfl

theorem draw [Supplier F σ] {item : Item} {g : item.Value F → Round F σ P β}
    (next : ∀ value supplier,
      Keeps follows peers peer label (g value) p { S with supplier } t Post') :
    Keeps follows peers peer label (Round.draw item >>= g) p S t Post' := by
  let drawn := Supplier.draw (F := F) item S.supplier
  have rest : Keeps follows peers peer label (Round.ofExcept .preprocessing drawn.1 >>= g) p
      { S with supplier := drawn.2 } t Post' :=
    ofExcept (fun _ _ => by simp [Error.Accuses]) fun value _ => next value _
  exact rest

/-! ## Parts of other protocols -/

theorem within_last {part : P → Q} {replace : Q → P → P} {x : Round F σ Q α}
    (keeps : Keeps follows peers peer label x (part p) S t fun a q' S' t' =>
      Post a (replace q' p) S' t') :
    Keeps follows peers peer label (Round.within part replace x) p S t Post := by
  rw [Keeps]
  change Labelled.Keeps _ _ _ _ (((x.run (part p)).run S >>= fun ((result, q'), S') =>
    (.done ((result, replace q' p), S') : Exchange _)).labelled label) t
  rw [Exchange.labelled_bind]
  exact Labelled.Keeps.bind keeps fun _ _ ended => ended

theorem within {part : P → Q} {replace : Q → P → P} {x : Round F σ Q α}
    (keeps : Keeps follows peers peer label x (part p) S t fun a q' S' t' =>
      Keeps follows peers peer label (f a) (replace q' p) S' t' Post') :
    Keeps follows peers peer label (Round.within part replace x >>= f) p S t Post' :=
  bind (within_last keeps) fun _ _ _ _ next => next

theorem apart {inner : Q} {x : Round F σ Q α} {g : α × Q → Round F σ P β}
    (keeps : Keeps follows peers peer label x inner S t fun a q' S' t' =>
      Keeps follows peers peer label (g (a, q')) p S' t' Post') :
    Keeps follows peers peer label (Round.apart inner x >>= g) p S t Post' := by
  have outer : Keeps follows peers peer label (Round.apart inner x : Round F σ P _) p S t
      fun a p' S' t' => Keeps follows peers peer label (g a) p' S' t' Post' := by
    rw [Keeps]
    change Labelled.Keeps _ _ _ _ (((x.run inner).run S >>= fun ((result, q'), S') =>
      (.done ((result.map fun value => (value, q'), p), S') : Exchange _)).labelled label) t
    rw [Exchange.labelled_bind]
    refine Labelled.Keeps.bind keeps ?_
    rintro ⟨⟨result | a, q'⟩, S'⟩ t' ended
    · exact ended
    · exact ended
  exact outer.bind fun _ _ _ _ next => next

theorem discard {x : Round F σ P α} {g : PUnit → Round F σ P β}
    (keeps : Keeps follows peers peer label (x >>= fun _ => g ⟨⟩) p S t Post') :
    Keeps follows peers peer label (Functor.discard x >>= g) p S t Post' := by
  have same : Functor.discard x >>= g = x >>= fun _ => g ⟨⟩ := by
    have mapped : Functor.discard x = x >>= fun _ => Pure.pure PUnit.unit := by
      rw [bind_pure_comp]
      exact congrFun (congrFun LawfulFunctor.map_const PUnit.unit) x
    rw [mapped, bind_assoc]
    simp only [pure_bind]
  rwa [same]

/-! ## The network -/

/-- A call that fails accuses nobody. -/
theorem call {made : Call} {g : made.Reply → Round F σ P β}
    (goes : if peer ∈ made.recipients peers then
        t.MaySay ⟨label, made.payload⟩ ∧ ∀ got reply, made.reply peers got = .ok reply →
          Keeps follows peers peer label (g reply) p S (t.say ⟨label, made.payload⟩) Post'
      else if peer ∈ made.sources peers then
        ∃ line ∈ t.ins.head?, follows label line.label ∧ ∀ got reply, t.MayHear line (got peer) →
          made.reply peers got = .ok reply →
            Keeps follows peers peer label (g reply) p S (t.hear ⟨line.label, got peer⟩) Post'
      else ∀ got reply, made.reply peers got = .ok reply →
        Keeps follows peers peer label (g reply) p S t Post') :
    Keeps follows peers peer label (Round.call made >>= g) p S t Post' := by
  have after : ∀ (reply : Except TransportError made.Reply) (t : Talk Λ),
      (∀ a, reply = .ok a → Keeps follows peers peer label (g a) p S t Post') →
      Keeps follows peers peer label (Round.ofExcept .transport reply >>= g) p S t Post' :=
    fun reply t next => ofExcept (fun _ _ => by simp [Error.Accuses]) next
  refine ⟨fun cause t' _ => after (.error cause) t' (by simp), ?_⟩
  split_ifs at goes ⊢
  · exact ⟨goes.1, fun got => after _ _ (goes.2 got)⟩
  · obtain ⟨line, due, follow, next⟩ := goes
    exact ⟨line, due, follow, fun got hears => after _ _ fun a given => next got a hears given⟩
  · exact fun got => after _ _ (goes got)

/-- The line that is due is sent to all. -/
theorem say {bytes : Bytes} {g : Unit → Round F σ P β} {line : Line Λ} {outs : List (Line Λ)}
    (member : peer ∈ peers) (due : t.outs = line :: outs) (same : line.label = label)
    (fits : line.Fits t.said bytes)
    (next : Keeps follows peers peer label (g ()) p S
      { t with outs, said := t.said ++ [⟨label, bytes⟩] } Post') :
    Keeps follows peers peer label (Round.call (.sendAll bytes) >>= g) p S t Post' := by
  refine call ?_
  rw [if_pos (show peer ∈ Call.recipients peers (.sendAll bytes) from member)]
  refine ⟨⟨line, by simp [due], same, fits⟩, fun got reply _ => ?_⟩
  rw [Talk.say, due]
  exact next

/-- The line that is due is taken, with those of all others. -/
theorem hear {g : List (PartyId × Bytes) → Round F σ P β} {line : Line Λ} {ins : List (Line Λ)}
    (member : peer ∈ peers) (due : t.ins = line :: ins) (follow : follows label line.label)
    (next : ∀ got : PartyId → Bytes, t.MayHear line (got peer) → Keeps follows peers peer label
      (g (peers.map fun q => (q, got q))) p S
      { t with ins, heard := t.heard ++ [⟨line.label, got peer⟩] } Post') :
    Keeps follows peers peer label (Round.call .receiveAll >>= g) p S t Post' := by
  refine call ?_
  rw [if_neg (show peer ∉ Call.recipients peers .receiveAll from List.not_mem_nil),
    if_pos (show peer ∈ Call.sources peers .receiveAll from member)]
  refine ⟨line, by simp [due], follow, fun got reply hears given => ?_⟩
  cases given
  rw [Talk.hear, due]
  exact next got hears

/-- The line that is due is taken, and nothing else. -/
theorem hearFrom {g : Bytes → Round F σ P β} {line : Line Λ} {ins : List (Line Λ)}
    (member : peer ∈ peers) (due : t.ins = line :: ins) (follow : follows label line.label)
    (next : ∀ bytes, t.MayHear line bytes → Keeps follows peers peer label (g bytes) p S
      { t with ins, heard := t.heard ++ [⟨line.label, bytes⟩] } Post') :
    Keeps follows peers peer label (Round.call (.receive peer) >>= g) p S t Post' := by
  have source : peer ∈ Call.sources peers (.receive peer) := by simp [Call.sources, member]
  refine call ?_
  rw [if_neg (Call.not_mem_recipients source), if_pos source]
  refine ⟨line, by simp [due], follow, fun got reply hears given => ?_⟩
  obtain rfl : got peer = reply := by simpa [Call.reply, member] using given
  rw [Talk.hear, due]
  exact next (got peer) hears

/-- What is taken from another party does not matter. -/
theorem hearOther {other : PartyId} {g : Bytes → Round F σ P β} (ne : other ≠ peer)
    (next : ∀ bytes, Keeps follows peers peer label (g bytes) p S t Post') :
    Keeps follows peers peer label (Round.call (.receive other) >>= g) p S t Post' := by
  have aside : peer ∉ Call.sources peers (.receive other) := by
    simp only [Call.sources]
    split_ifs <;> simp [ne.symm]
  refine call ?_
  rw [if_neg (show peer ∉ Call.recipients peers (.receive other) from List.not_mem_nil), if_neg aside]
  exact fun got reply _ => next reply

theorem sendElements {elements : List (Elem F)} {g : Unit → Round F σ P β} {line : Line Λ}
    {outs : List (Line Λ)} (member : peer ∈ peers) (due : t.outs = line :: outs)
    (same : line.label = label) (fits : line.Fits t.said (Elem.encodeList elements))
    (next : Keeps follows peers peer label (g ()) p S
      { t with outs, said := t.said ++ [⟨label, Elem.encodeList elements⟩] } Post') :
    Keeps follows peers peer label (Round.sendElements elements >>= g) p S t Post' :=
  say member due same fits next

/-- Messages of others can be malformed, but the one of the peer is not. -/
theorem read {other : PartyId} {x : Except CodecError α}
    (fits : other = peer → ∃ a, x = .ok a)
    (next : ∀ a, x = .ok a → Keeps follows peers peer label (f a) p S t Post') :
    Keeps follows peers peer label (Round.ofExcept (.malformedMessage other) x >>= f) p S t Post' := by
  refine ofExcept (fun e failed => ?_) next
  rintro (⟨cause, accused⟩ | accused)
  · obtain ⟨rfl, rfl⟩ := Error.malformedMessage.inj accused
    obtain ⟨a, read⟩ := fits rfl
    rw [read] at failed
    cases failed
  · cases accused

theorem decodeFrom {other : PartyId} {message : Bytes} {count : Nat}
    {g : List (Elem F) → Round F σ P β}
    (fits : other = peer → ∃ elements, Elem.decodeList F message count = some (.ok elements))
    (next : ∀ elements, Keeps follows peers peer label (g elements) p S t Post') :
    Keeps follows peers peer label (Round.decodeFrom other message count >>= g) p S t Post' := by
  refine read (fun same => ?_) fun elements _ => next elements
  obtain ⟨elements, whole⟩ := fits same
  exact ⟨elements, congrArg (Option.getD · (.ok [])) whole⟩

/-- A list of messages is decoded one by one. -/
theorem decodeAll {count : Nat} {messages : List (PartyId × Bytes)}
    {g : List (PartyId × List (Elem F)) → Round F σ P β}
    (fits : ∀ message, (peer, message) ∈ messages →
      ∃ elements, Elem.decodeList F message count = some (.ok elements))
    (next : ∀ received, Keeps follows peers peer label (g received) p S t Post') :
    Keeps follows peers peer label ((messages.mapM fun (other, message) => do
      return (other, ← Round.decodeFrom other message count)) >>= g) p S t Post' := by
  induction messages generalizing g with
  | nil => exact next []
  | cons message messages ih =>
      obtain ⟨other, bytes⟩ := message
      simp only [List.mapM_cons, bind_assoc, pure_bind]
      refine decodeFrom (fun same => fits bytes (same ▸ List.mem_cons_self)) fun elements => ?_
      exact ih (fun message among => fits message (List.mem_cons_of_mem _ among)) fun received =>
        next _

theorem receiveElementsFromAll {count : Nat} {g : List (PartyId × List (Elem F)) → Round F σ P β}
    {line : Line Λ} {ins : List (Line Λ)} (member : peer ∈ peers) (due : t.ins = line :: ins)
    (follow : follows label line.label)
    (fits : ∀ bytes, line.Fits t.heard bytes → ∃ elements, Elem.decodeList F bytes count = some (.ok elements))
    (next : ∀ received bytes, Keeps follows peers peer label (g received) p S
      { t with ins, heard := t.heard ++ [⟨line.label, bytes⟩] } Post') :
    Keeps follows peers peer label (Round.receiveElementsFromAll count >>= g) p S t Post' := by
  rw [Round.receiveElementsFromAll, bind_assoc]
  refine hear member due follow fun got hears => decodeAll (fun message among => ?_) fun received =>
    next received (got peer)
  obtain ⟨q, -, same⟩ := List.mem_map.mp among
  obtain ⟨rfl, rfl⟩ := Prod.mk.inj same
  exact fits _ hears.1

end Keeps

-- from here on it is known by these lemmas only
attribute [irreducible] Keeps

end Round

end Spdz
