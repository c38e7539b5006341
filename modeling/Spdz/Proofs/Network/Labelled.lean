import Spdz.Network.Exchange

/-!
# Exchanges whose calls carry labels

An exchange says nothing about which part of a program makes a call.  To speak about that, the same
tree is given labels: whoever builds it says for each part which label its calls carry.  Labels are
for statements only, so taking them off gives the exchange back.

* `Labelled` — an exchange with a label at each call.
* `Exchange.labelled` — one label for all calls; `Labelled.plain` takes labels off.
* `Labelled.relabel` — other labels for the same calls.
-/

namespace Spdz

/-- A behaviour of one party whose calls carry labels. -/
inductive Labelled (Λ α : Type) where
  | done (result : α)
  | call (label : Λ) (made : Call) (next : Except TransportError made.Reply → Labelled Λ α)

namespace Labelled

variable {Λ M α β : Type}

/-- Go on with `next` once the result is there. -/
def bind : Labelled Λ α → (α → Labelled Λ β) → Labelled Λ β
  | done result, next => next result
  | call label made rest, next => call label made fun reply => (rest reply).bind next

instance : Monad (Labelled Λ) where
  pure := done
  bind := bind

instance : LawfulMonad (Labelled Λ) := LawfulMonad.mk' _
  (fun x => by
    induction x with
    | done result => rfl
    | call label made rest ih => exact congrArg (call label made) (funext ih))
  (fun _ _ => rfl)
  (fun x f g => by
    induction x with
    | done result => rfl
    | call label made rest ih => exact congrArg (call label made) (funext ih))

/-- The exchange without its labels. -/
def plain : Labelled Λ α → Exchange α
  | done result => .done result
  | call _ made next => .call made fun reply => (next reply).plain

/-- The same calls with other labels. -/
def relabel (change : Λ → M) : Labelled Λ α → Labelled M α
  | done result => done result
  | call label made next => call (change label) made fun reply => (next reply).relabel change

/-- The label does not matter for what is left when labels are taken off. -/
theorem plain_bind (x : Labelled Λ α) (f : α → Labelled Λ β) :
    (x >>= f).plain = x.plain >>= fun a => (f a).plain := by
  induction x with
  | done result => rfl
  | call label made next ih => exact congrArg (Exchange.call made) (funext ih)

@[simp] theorem plain_pure (a : α) : (pure a : Labelled Λ α).plain = pure a := rfl

end Labelled

namespace Exchange

variable {Λ M α β : Type}

/-- The exchange with the same label at all calls. -/
def labelled (label : Λ) : Exchange α → Labelled Λ α
  | done result => .done result
  | call made next => .call label made fun reply => (next reply).labelled label

@[simp] theorem labelled_pure (label : Λ) (a : α) : (pure a : Exchange α).labelled label = pure a :=
  rfl

theorem labelled_bind (label : Λ) (x : Exchange α) (f : α → Exchange β) :
    (x >>= f).labelled label = x.labelled label >>= fun a => (f a).labelled label := by
  induction x with
  | done result => rfl
  | call made next ih => exact congrArg (Labelled.call label made) (funext ih)

@[simp] theorem plain_labelled (label : Λ) (x : Exchange α) : (x.labelled label).plain = x := by
  induction x with
  | done result => rfl
  | call made next ih => exact congrArg (call made) (funext ih)

end Exchange

namespace Labelled

variable {Λ M α : Type}

/-- One label for all calls is what is left when their own labels are taken off first. -/
theorem labelled_plain (label : M) (x : Labelled Λ α) :
    x.plain.labelled label = x.relabel fun _ => label := by
  induction x with
  | done result => rfl
  | call _ made next ih => exact congrArg (call label made) (funext ih)

/-- When there is only one label, taking it off and putting it on again changes nothing. -/
@[simp] theorem labelled_plain_unit (x : Labelled Unit α) : x.plain.labelled () = x := by
  induction x with
  | done result => rfl
  | call _ made next ih => exact congrArg (call () made) (funext ih)

end Labelled

end Spdz
