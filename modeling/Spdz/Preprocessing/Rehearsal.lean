import Spdz.Preprocessing.Dealer

/-!
# Rehearsed failures of a generator

To see how a supplier and the protocols above it cope with a bad generator, the simulated dealing is
bent by a plan: request by request the generator may fail, return too few or too many items, keep
back what a party should learn, or cut pipes short. What it was asked for is recorded.

* `Deviation` — how one request is bent.
* `RehearsedDealer` — a dealer with a plan and a record of the requests.
* `RehearsedFactory` — builds it, unless it is to fail, and records the parameters.
-/

namespace Spdz

/-- How one request is bent. -/
structure Deviation where
  /-- Fail for this reason without asking the dealer. -/
  failure : Option String := none
  /-- Items asked for too few. -/
  missing : Nat := 0
  /-- Items asked for too many. -/
  surplus : Nat := 0
  /-- Keep back the values of masks. -/
  hidesReal : Bool := false
  /-- Shares by which pipes are too short. -/
  cut : Nat := 0

/-- A dealer that deviates by plan. -/
structure RehearsedDealer (F : FieldSpec) where
  dealer : Dealer F
  /-- What is to happen to the next requests; after that there is no deviation. -/
  plan : List Deviation
  /-- The requests so far. -/
  requests : List (Item × Lot) := []

namespace RehearsedDealer

variable {F : FieldSpec}

/-- An item without the value that its recipient should learn. -/
def withoutReal : (item : Item) → item.Value F → item.Value F
  | .mask _, mask => { mask with real := none }
  | .triple, triple => triple
  | .element, share => share
  | .bit, share => share
  | .pipe, shares => shares

/-- Deal a lot of items, bent by the next deviation of the plan. -/
def generate (item : Item) (lot : Lot) (rehearsed : RehearsedDealer F) :
    Except PreprocessingError (List (item.Value F)) × RehearsedDealer F :=
  let deviation := rehearsed.plan.headD {}
  let rehearsed :=
    { rehearsed with
      plan := rehearsed.plan.tail
      requests := rehearsed.requests ++ [(item, lot)] }
  match deviation.failure with
  | some reason => (.error (.generator reason), rehearsed)
  | none =>
    let lot : Lot :=
      ⟨lot.count - deviation.missing + deviation.surplus, lot.pipeLength - deviation.cut⟩
    let (items, dealer) := rehearsed.dealer.generate item lot
    let items := if deviation.hidesReal then items.map (List.map (withoutReal item)) else items
    (items, { rehearsed with dealer })

instance : BulkGenerator F (RehearsedDealer F) := ⟨generate⟩

end RehearsedDealer

/-- A factory that deviates by plan. -/
structure RehearsedFactory (F : FieldSpec) where
  factory : DealerFactory F
  /-- Fail for this reason to build anything. -/
  failure : Option String := none
  /-- Build the dealer of another party. -/
  posing : Option PartyId := none
  /-- The plan of the dealer to build. -/
  plan : List Deviation := []
  /-- The parameters it was called with. -/
  created : List GeneratorParams := []

namespace RehearsedFactory

variable {F : FieldSpec}

/-- Build a dealer with the plan. -/
def create (params : GeneratorParams) (rehearsed : RehearsedFactory F) :
    Except PreprocessingError (RehearsedDealer F) × RehearsedFactory F :=
  let rehearsed := { rehearsed with created := rehearsed.created ++ [params] }
  match rehearsed.failure with
  | some reason => (.error (.generator reason), rehearsed)
  | none =>
    let params := { params with party := rehearsed.posing.getD params.party }
    let (dealer, factory) := rehearsed.factory.create params
    (dealer.map fun dealer => { dealer, plan := rehearsed.plan }, { rehearsed with factory })

instance : GeneratorFactory (RehearsedFactory F) (RehearsedDealer F) := ⟨create⟩

end RehearsedFactory

end Spdz
