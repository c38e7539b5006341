import Spdz.Network.Call

/-!
# Exchanges with the network

What a party does is a finite tree: it either is done, or makes a call and goes on in a way that
depends on the reply. The tree says nothing about how messages travel, so the same behaviour can be
run on any network and against any peers.

* `Exchange` — a behaviour that ends with a result.
* `Exchange.perform` — a single call.
-/

namespace Spdz

/-- A behaviour of one party on the network that ends with a result. -/
inductive Exchange (α : Type) where
  | done (result : α)
  | call (made : Call) (next : Except TransportError made.Reply → Exchange α)

namespace Exchange

variable {α β : Type}

/-- Go on with `next` once the result is there. -/
def bind : Exchange α → (α → Exchange β) → Exchange β
  | done result, next => next result
  | call made rest, next => call made fun reply => (rest reply).bind next

instance : Monad Exchange where
  pure := done
  bind := bind

instance : LawfulMonad Exchange := LawfulMonad.mk' _
  (fun x => by
    induction x with
    | done result => rfl
    | call made rest ih => exact congrArg (call made) (funext ih))
  (fun _ _ => rfl)
  (fun x f g => by
    induction x with
    | done result => rfl
    | call made rest ih => exact congrArg (call made) (funext ih))

/-- Make a call; the reply or the reason for its failure is the result. -/
def perform (made : Call) : Exchange (Except TransportError made.Reply) := call made done

end Exchange

end Spdz
