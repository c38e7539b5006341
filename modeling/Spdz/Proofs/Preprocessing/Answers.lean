import Spdz.Preprocessing.Supplier
import Spdz.Proofs.Network.Joint

/-!
# What a generator gives

A generator is asked for lots of items of several kinds, in any order.  What was asked and what came
of it is written down here request by request, so that one can look at all that came of one kind.

* `Item.Within` — the items that a group of parties can ask for.
* `Answer` — a request, and what came of it; `answersTo`, the answers to requests.
* `received` — all items of one kind that came, in order.
-/

namespace Spdz

variable {F : FieldSpec} {γ : Type}

/-- The items of a group of `n` parties: masks toward members only. -/
def Item.Within (n : Nat) : Item → Prop
  | .mask toward => IsMember n toward
  | _ => True

instance {n : Nat} : DecidablePred (Item.Within n)
  | .mask toward => inferInstanceAs (Decidable (1 ≤ toward ∧ toward ≤ n))
  | .triple | .element | .bit | .pipe => .isTrue trivial

/-- A request to a generator, and what came of it. -/
structure Answer (F : FieldSpec) where
  item : Item
  lot : Lot
  result : Except PreprocessingError (List (item.Value F))

namespace Answer

/-- The items of a kind that an answer brought.  One that failed brought none. -/
def brought (answer : Answer F) (item : Item) : List (item.Value F) :=
  if same : answer.item = item then
    match answer.result with
    | .ok items => same ▸ items
    | .error _ => []
  else []

@[simp] theorem brought_ok (item : Item) (lot : Lot) (items : List (item.Value F)) :
    (⟨item, lot, .ok items⟩ : Answer F).brought item = items := by
  simp [brought]

@[simp] theorem brought_error (item other : Item) (lot : Lot) (e : PreprocessingError) :
    (⟨item, lot, .error e⟩ : Answer F).brought other = [] := by
  simp [brought]

theorem brought_of_ne (answer : Answer F) {item : Item} (differs : answer.item ≠ item) :
    answer.brought item = [] := dif_neg differs

end Answer

/-- The answers to requests that are made one after the other. -/
def answersTo [BulkGenerator F γ] : List (Item × Lot) → γ → List (Answer F)
  | [], _ => []
  | (item, lot) :: requests, generator =>
    let (result, generator) := BulkGenerator.generate item lot generator
    ⟨item, lot, result⟩ :: answersTo requests generator

/-- All items of a kind that came, in the order in which they came. -/
def received (item : Item) (answers : List (Answer F)) : List (item.Value F) :=
  answers.flatMap fun answer => answer.brought item

@[simp] theorem received_nil (item : Item) : received item ([] : List (Answer F)) = [] := rfl

@[simp] theorem received_cons (item : Item) (answer : Answer F) (answers : List (Answer F)) :
    received item (answer :: answers) = answer.brought item ++ received item answers :=
  List.flatMap_cons

@[simp] theorem received_append (item : Item) (answers more : List (Answer F)) :
    received item (answers ++ more) = received item answers ++ received item more :=
  List.flatMap_append

end Spdz
