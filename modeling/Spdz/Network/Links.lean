import Spdz.PartyId

/-!
# Links between parties

Whatever travels between two parties has a direction, so a network keeps one thing of a kind for
each ordered pair of parties: bytes not yet read, messages not yet received, or messages ever sent.

* `Links` — a value for each ordered pair, which is the default one until it is set.
-/

namespace Spdz

/-- A value for each ordered pair of a sender and a receiver. -/
structure Links (α : Type) where
  entries : List ((PartyId × PartyId) × α) := []

namespace Links

variable {α : Type}

/-- Entries for one pair do not matter for another. -/
theorem lookup_filter {pair other : PartyId × PartyId} (differs : (other == pair) = false)
    (entries : List ((PartyId × PartyId) × α)) :
    (entries.filter fun entry => entry.1 ≠ pair).lookup other = entries.lookup other := by
  induction entries with
  | nil => rfl
  | cons entry entries ih =>
    obtain ⟨key, value⟩ := entry
    by_cases h : key = pair
    · rw [List.filter_cons_of_neg (by simp [h]), ih, h, List.lookup_cons, differs]
    · rw [List.filter_cons_of_pos (by simpa using h), List.lookup_cons, List.lookup_cons, ih]

variable [Inhabited α]

/-- The value for a pair. -/
def get (links : Links α) (sender receiver : PartyId) : α :=
  (links.entries.lookup (sender, receiver)).getD default

/-- Another value for a pair. -/
def set (links : Links α) (sender receiver : PartyId) (value : α) : Links α :=
  ⟨((sender, receiver), value) ::
    links.entries.filter fun entry => entry.1 ≠ (sender, receiver)⟩

/-- Change the value for a pair. -/
def modify (links : Links α) (sender receiver : PartyId) (change : α → α) : Links α :=
  links.set sender receiver (change (links.get sender receiver))

@[simp] theorem get_empty (sender receiver : PartyId) :
    ({} : Links α).get sender receiver = default := rfl

/-- Setting the value for a pair changes it for this pair only. -/
theorem get_set (links : Links α) (sender receiver : PartyId) (value : α)
    (sender' receiver' : PartyId) :
    (links.set sender receiver value).get sender' receiver' =
      if (sender', receiver') = (sender, receiver) then value
      else links.get sender' receiver' := by
  unfold get set
  split
  · next same => rw [same, List.lookup_cons_self, Option.getD_some]
  · next other =>
    have differs : ((sender', receiver') == (sender, receiver)) = false := by simpa using other
    rw [List.lookup_cons, differs]
    exact congrArg (·.getD default) (lookup_filter differs links.entries)

theorem get_modify (links : Links α) (sender receiver : PartyId) (change : α → α)
    (sender' receiver' : PartyId) :
    (links.modify sender receiver change).get sender' receiver' =
      if (sender', receiver') = (sender, receiver) then change (links.get sender receiver)
      else links.get sender' receiver' := get_set ..

end Links

end Spdz
