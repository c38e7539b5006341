import Spdz.Proofs.Preprocessing.Dealing

/-!
# Handouts

Many values are dealt from one stream, and between the dealings plain values are read from it, on which
later dealings may depend, as the product in a triple depends on its factors.  Together this is a handout.
Dealing reads the same words whoever deals and whatever is dealt, so parties that make the same handout
stay in step throughout, and those from the second on get portions that do not tell what was dealt.

* `Handout`, `Handout.run` — readings and dealings one after the other, and what a party gets from them.
* `Handout.ofLot`, `Handout.kept_ofLot` — what a generator deals of one kind is a handout.
* `Handout.run_spec` — the parties stay in step, and their portions add up.
* `Handout.Alike`, `Handout.kept_alike` — handouts that differ in the dealt values alone are the same to
  the parties from the second on.
* **`Dealing.in_step_and_hidden`** — all of this, for single values and for handouts.
-/

namespace Spdz

variable {F : FieldSpec} {γ : Type}

/-! ## Readings and dealings -/

/-- Readings and dealings from one stream, one after the other. -/
inductive Handout (F : FieldSpec) (γ : Type) : Type 1 where
  | done
  /-- Read something in plain.  The rest may depend on it. -/
  | read {α : Type} (reader : γ → α × γ) (rest : α → Handout F γ)
  /-- Split a value. -/
  | share (value : Elem F) (rest : Handout F γ)
  /-- Split a value, and the value times the key. -/
  | authenticate (value : Elem F) (rest : Handout F γ)

/-- A value that was split, and a party's portion of it. -/
structure Portion (F : FieldSpec) where
  value : Elem F
  own : Elem F

namespace Handout

/-- Split several values with their tags. -/
def authenticateAll (values : List (Elem F)) (rest : Handout F γ) : Handout F γ :=
  values.foldr .authenticate rest

variable [WordSource γ]

/-- What a party gets in a handout. -/
def run (dealing : Dealing F) : Handout F γ → γ → List (Portion F) × γ
  | .done, source => ([], source)
  | .read reader rest, source => (rest (reader source).1).run dealing (reader source).2
  | .share value rest, source =>
    let own := dealing.share value source
    let later := rest.run dealing own.2
    (⟨value, own.1⟩ :: later.1, later.2)
  | .authenticate value rest, source =>
    let own := dealing.authenticate value source
    let later := rest.run dealing own.2
    (⟨value, own.1.value⟩ :: ⟨value * dealing.key, own.1.mac⟩ :: later.1, later.2)

/-- What a party keeps of a handout: its portions without the values. -/
def kept (dealing : Dealing F) (handout : Handout F γ) (source : γ) : List (Elem F) × γ :=
  ((handout.run dealing source).1.map Portion.own, (handout.run dealing source).2)

/-! ## Items -/

/-- The dealings of an item, and what comes after it. -/
def ofItem (length : Nat) (rest : Handout F γ) : Item → Handout F γ
  | .triple =>
    .read (Elem.random F) fun a => .authenticate a <|
      .read (Elem.random F) fun b => .authenticate b <| .authenticate (a * b) rest
  | .mask _ => .read (Elem.random F) fun value => .authenticate value rest
  | .element => .read (Elem.random F) fun value => .authenticate value rest
  | .bit => .read WordSource.coin fun isOne => .authenticate (if isOne then 1 else 0) rest
  | .pipe => .read (Elem.randomNonzero F) fun r => authenticateAll (Dealing.pipeValues r length) rest

/-- The dealings of so many items of one kind. -/
def ofLot (length : Nat) (item : Item) : (count : Nat) → Handout F γ
  | 0 => .done
  | count + 1 => ofItem length (ofLot length item count) item

end Handout

/-- The shares in an item. -/
def Item.shares : (item : Item) → item.Value F → List (Share F)
  | .triple, t => [t.a, t.b, t.c]
  | .mask _, m => [m.mask]
  | .element, x => [x]
  | .bit, x => [x]
  | .pipe, xs => xs

/-- The two components of each of some shares. -/
def Share.components (shares : List (Share F)) : List (Elem F) :=
  shares.flatMap fun x => [x.value, x.mac]

theorem Share.components_append (xs ys : List (Share F)) :
    components (xs ++ ys) = components xs ++ components ys := List.flatMap_append

namespace Handout

/-- What is kept of a part, before what is kept later. -/
def prepend (own : List (Elem F)) (later : List (Elem F) × γ) : List (Elem F) × γ :=
  (own ++ later.1, later.2)

@[simp] theorem prepend_nil (later : List (Elem F) × γ) : prepend [] later = later := rfl

@[simp] theorem prepend_prepend (xs ys : List (Elem F)) (later : List (Elem F) × γ) :
    prepend xs (prepend ys later) = prepend (xs ++ ys) later :=
  Prod.ext (List.append_assoc xs ys later.1).symm rfl

variable [WordSource γ] {dealing : Dealing F} {source : γ}

theorem kept_read {α : Type} (reader : γ → α × γ) (rest : α → Handout F γ) :
    (read reader rest).kept dealing source
      = (rest (reader source).1).kept dealing (reader source).2 := by
  simp only [kept, run]

theorem kept_share (value : Elem F) (rest : Handout F γ) :
    (share value rest).kept dealing source =
      prepend [(dealing.share value source).1] (rest.kept dealing (dealing.share value source).2) := by
  simp only [kept, run, prepend, List.map_cons, List.cons_append, List.nil_append]

theorem kept_authenticate (value : Elem F) (rest : Handout F γ) :
    (authenticate value rest).kept dealing source =
      prepend (Share.components [(dealing.authenticate value source).1])
        (rest.kept dealing (dealing.authenticate value source).2) := by
  simp only [kept, run, prepend, Share.components, List.map_cons, List.flatMap_cons, List.flatMap_nil,
    List.append_nil, List.cons_append, List.nil_append]

theorem kept_authenticateAll (values : List (Elem F)) (rest : Handout F γ) :
    (authenticateAll values rest).kept dealing source =
      prepend (Share.components (dealing.authenticateAll values source).1)
        (rest.kept dealing (dealing.authenticateAll values source).2) := by
  induction values generalizing source with
  | nil => simp only [authenticateAll, List.foldr_nil, Dealing.authenticateAll, Share.components,
      List.flatMap_nil, prepend_nil]
  | cons value values ih =>
      have first : authenticateAll (value :: values) rest
          = .authenticate value (authenticateAll values rest) := List.foldr_cons ..
      rw [first, kept_authenticate, ih, prepend_prepend, ← Share.components_append]
      simp only [Dealing.authenticateAll, List.cons_append, List.nil_append]

/-- An item and what comes after it. -/
theorem kept_ofItem (length : Nat) (rest : Handout F γ) (item : Item) :
    (ofItem length rest item).kept dealing source =
      prepend (Share.components (item.shares (dealing.deal length item source).1))
        (rest.kept dealing (dealing.deal length item source).2) := by
  cases item with
  | triple =>
      simp only [ofItem, kept_read, kept_authenticate, prepend_prepend, ← Share.components_append,
        Dealing.deal, Dealing.triple, Dealing.random, Item.shares, List.cons_append, List.nil_append]
  | mask toward =>
      simp only [ofItem, kept_read, kept_authenticate, Dealing.deal, Dealing.mask, Dealing.random,
        Item.shares]
  | element =>
      simp only [ofItem, kept_read, kept_authenticate, Dealing.deal, Dealing.element, Dealing.random,
        Item.shares]
  | bit => simp only [ofItem, kept_read, kept_authenticate, Dealing.deal, Dealing.bit, Item.shares]
  | pipe => simp only [ofItem, kept_read, kept_authenticateAll, Dealing.deal, Dealing.pipe, Item.shares]

/-- **A lot of items is a handout.** -/
theorem kept_ofLot (length : Nat) (item : Item) (count : Nat) :
    (ofLot length item count).kept dealing source =
      ((WordSource.collect (dealing.deal length item) count source).1.flatMap fun dealt =>
          Share.components (item.shares dealt),
        (WordSource.collect (dealing.deal length item) count source).2) := by
  induction count generalizing source with
  | zero => simp only [ofLot, kept, run, WordSource.collect, List.map_nil, List.flatMap_nil]
  | succ count ih =>
      simp only [ofLot, kept_ofItem, ih, prepend, WordSource.collect, List.flatMap_cons]

end Handout

/-! ## In step -/

/-- A value that was split, and the portions of all parties. -/
structure Splitting (F : FieldSpec) where
  value : Elem F
  own : PartyId → Elem F

namespace Splitting

variable {n : Nat}

/-- What one party has of it. -/
def portion (s : Splitting F) (i : PartyId) : Portion F := ⟨s.value, s.own i⟩

/-- The portions add up to the value. -/
def Complete (n : Nat) (s : Splitting F) : Prop := ∑ i ∈ Finset.Icc 1 n, s.own i = s.value

end Splitting

namespace Handout

variable [WordSource γ] {n : Nat} (key : Elem F)

/-- **A handout keeps the parties in step**, and what they get in it adds up. -/
theorem run_spec (one : 1 ≤ n) (handout : Handout F γ) (source : γ) :
    ∃ (splittings : List (Splitting F)) (after : γ),
      (∀ i, handout.run ⟨i, n, key⟩ source = (splittings.map (·.portion i), after)) ∧
      ∀ s ∈ splittings, s.Complete n := by
  induction handout generalizing source with
  | done => exact ⟨[], source, fun _ => rfl, List.forall_mem_nil _⟩
  | read reader rest ih => exact ih (reader source).1 (reader source).2
  | share value rest ih =>
      obtain ⟨d, middle, shares, sum⟩ := Dealing.share_spec key one value source
      obtain ⟨splittings, after, later, complete⟩ := ih middle
      refine ⟨⟨value, d⟩ :: splittings, after, fun i => ?_, List.forall_mem_cons.mpr ⟨sum, complete⟩⟩
      simp only [run, shares, later, List.map_cons, Splitting.portion]
  | authenticate value rest ih =>
      obtain ⟨x, middle, shares, sharing⟩ := Dealing.authenticate_spec key one value source
      obtain ⟨splittings, after, later, complete⟩ := ih middle
      have tags : ∑ i ∈ Finset.Icc 1 n, (x i).mac = value * key := by rw [sharing.mac, mul_comm]
      refine ⟨⟨value, fun i => (x i).value⟩ :: ⟨value * key, fun i => (x i).mac⟩ :: splittings, after,
        fun i => ?_, List.forall_mem_cons.mpr ⟨sharing.value, List.forall_mem_cons.mpr ⟨tags, complete⟩⟩⟩
      simp only [run, shares, later, List.map_cons, Splitting.portion]

end Handout

/-! ## Hidden -/

section Hidden

variable [WordSource γ] {n : Nat} {i : PartyId} {source : γ}

/-- Parties from the second on get a share that has nothing to do with the value. -/
theorem Dealing.share_of_later (later : 2 ≤ i) (key key' v v' : Elem F) :
    (⟨i, n, key⟩ : Dealing F).share v source = (⟨i, n, key'⟩ : Dealing F).share v' source := by
  obtain ⟨k, rfl⟩ : ∃ k, i = k + 2 := ⟨i - 2, (Nat.sub_add_cancel later).symm⟩
  simp only [share]

theorem Dealing.authenticate_of_later (later : 2 ≤ i) (key key' v v' : Elem F) :
    (⟨i, n, key⟩ : Dealing F).authenticate v source
      = (⟨i, n, key'⟩ : Dealing F).authenticate v' source := by
  simp only [authenticate, share_of_later later key key' v v',
    share_of_later later key key' (v * key) (v' * key')]

namespace Handout

/-- The same readings, and dealings of the same kinds.  The dealt values may differ. -/
inductive Alike : Handout F γ → Handout F γ → Prop where
  | done : Alike .done .done
  | read {α : Type} {reader : γ → α × γ} {rest rest' : α → Handout F γ}
      (after : ∀ plain, Alike (rest plain) (rest' plain)) : Alike (.read reader rest) (.read reader rest')
  | share {value value' : Elem F} {rest rest' : Handout F γ} (after : Alike rest rest') :
      Alike (.share value rest) (.share value' rest')
  | authenticate {value value' : Elem F} {rest rest' : Handout F γ} (after : Alike rest rest') :
      Alike (.authenticate value rest) (.authenticate value' rest')

/-- **Parties from the second on do not learn what is dealt.** -/
theorem kept_alike (later : 2 ≤ i) (key key' : Elem F) {handout handout' : Handout F γ}
    (alike : handout.Alike handout') :
    handout.kept ⟨i, n, key⟩ source = handout'.kept ⟨i, n, key'⟩ source := by
  induction alike generalizing source with
  | done => rfl
  | read after ih => rw [kept_read, kept_read, ih]
  | @share value value' _ _ after ih =>
      rw [kept_share, kept_share, Dealing.share_of_later later key key' value value', ih]
  | @authenticate value value' _ _ after ih =>
      rw [kept_authenticate, kept_authenticate,
        Dealing.authenticate_of_later later key key' value value', ih]

end Handout

end Hidden

/-! ## Both -/

namespace Dealing

/-- **Dealing keeps the parties in step and hides what is dealt.**  When a value is split, all parties
leave the stream in the same state and their shares add up to the value; the shares of the parties from
the second on, and the state, would be the same for any other value and key.  The same is true of the
two components when a value is split with its tag, and of each portion in a handout, for any other handout
with the same readings and with dealings of the same kinds. -/
theorem in_step_and_hidden [WordSource γ] {n : Nat} (one : 1 ≤ n) (key : Elem F) (source : γ) :
    (∀ v, ∃ (d : PartyId → Elem F) (after : γ),
      (∀ i, (⟨i, n, key⟩ : Dealing F).share v source = (d i, after)) ∧
      ∑ i ∈ Finset.Icc 1 n, d i = v ∧
      ∀ v' key' i, 2 ≤ i → (⟨i, n, key'⟩ : Dealing F).share v' source = (d i, after)) ∧
    (∀ v, ∃ (x : PartyId → Share F) (after : γ),
      (∀ i, (⟨i, n, key⟩ : Dealing F).authenticate v source = (x i, after)) ∧
      ∑ i ∈ Finset.Icc 1 n, (x i).value = v ∧ ∑ i ∈ Finset.Icc 1 n, (x i).mac = v * key ∧
      ∀ v' key' i, 2 ≤ i → (⟨i, n, key'⟩ : Dealing F).authenticate v' source = (x i, after)) ∧
    ∀ handout : Handout F γ, ∃ (splittings : List (Splitting F)) (after : γ),
      (∀ i, handout.run ⟨i, n, key⟩ source = (splittings.map (·.portion i), after)) ∧
      (∀ s ∈ splittings, s.Complete n) ∧
      ∀ handout', handout.Alike handout' → ∀ key' i, 2 ≤ i →
        handout'.kept ⟨i, n, key'⟩ source = (splittings.map (·.own i), after) := by
  refine ⟨fun v => ?_, fun v => ?_, fun handout => ?_⟩
  · obtain ⟨d, after, shares, sum⟩ := share_spec key one v source
    exact ⟨d, after, shares, sum, fun v' key' i later => (share_of_later later _ _ _ _).trans (shares i)⟩
  · obtain ⟨x, after, shares, sharing⟩ := authenticate_spec key one v source
    exact ⟨x, after, shares, sharing.value, sharing.mac.trans (mul_comm key v),
      fun v' key' i later => (authenticate_of_later later _ _ _ _).trans (shares i)⟩
  · obtain ⟨splittings, after, runs, complete⟩ := Handout.run_spec key one handout source
    refine ⟨splittings, after, runs, complete, fun handout' alike key' i later => ?_⟩
    rw [← Handout.kept_alike later key key' alike, Handout.kept, runs, List.map_map]
    rfl

/-- Of the value 5 the third of three parties gets what it would get of any other value. -/
theorem in_step_and_hidden_of_three :
    let source := Xoshiro.ofSeed (List.replicate 32 7)
    1 ≤ 3 ∧ ∃ (d : PartyId → Elem .f251) (after : Xoshiro),
      (∀ i, (⟨i, 3, 9⟩ : Dealing .f251).share 5 source = (d i, after)) ∧
      ∑ i ∈ Finset.Icc 1 3, d i = 5 ∧
      ∀ v', (⟨3, 3, 9⟩ : Dealing .f251).share v' source = (d 3, after) := by
  intro source
  have one : 1 ≤ 3 := by decide
  obtain ⟨d, after, shares, sum, hidden⟩ := (in_step_and_hidden one (9 : Elem .f251) source).1 5
  exact ⟨one, d, after, shares, sum, fun v' => hidden v' 9 3 (by decide)⟩

end Dealing

end Spdz
