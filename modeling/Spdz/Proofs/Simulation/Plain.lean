import Spdz.Proofs.Field.Ring
import Spdz.Simulation.Script

/-!
# Scripts in plain

A script that all parties follow computes with shared values.  What it computes is said here without
parties and shares: the same script is carried out on the values themselves.  Random items are read
from a tape, and whatever would give a party a reason to fail is undefined: a name under which nothing
was kept, an input that its inputter does not have, a party that there is not, or a pipe of another
length.  So are steps that are not calls on a session, and steps that are not for all.

* `Tape` — the random items in plain, in the order in which they are drawn.
* `Plain` — what is kept, and how far the tape was read.
* `Plain.evaluate` — what a protocol computes; `Plain.follow`, what a step does.
* **`Plain.perform`** — what a whole script does, step by step.
-/

namespace Spdz

variable {F : FieldSpec}

/-- Random elements, random bits, and what the values of pipes are powers of. -/
structure Tape (F : FieldSpec) where
  element : Nat → Elem F
  bit : Nat → Bool
  base : Nat → Elem F
  /-- The inverse of each base. -/
  inverse : Nat → Elem F

/-- The state of a computation in plain. -/
structure Plain (F : FieldSpec) where
  /-- Values by the names under which they were kept last. -/
  kept : List (String × Elem F) := []
  /-- How many items of each kind were read. -/
  elements : Nat := 0
  bits : Nat := 0
  pipes : Nat := 0
  /-- Whether the session has been finished. -/
  finished : Bool := false

namespace Plain

/-- What a protocol computes, and who gets to know it. -/
inductive Result (F : FieldSpec) where
  /-- A value that stays shared. -/
  | shared (value : Elem F)
  /-- A value for all. -/
  | value (value : Elem F)
  | target (target : PartyId) (value : Elem F)
  /-- Values that stay shared. -/
  | pipe (values : List (Elem F))
  | values (values : List (Elem F))
  | unit

/-- What a step comes to. -/
inductive Report (F : FieldSpec) where
  | result (result : Result F)
  | results (results : List (Result F))
  | batch (results : List (Result F))
  | stats

/-- The names under which a result is kept, the latest first. -/
def Result.bindings : Option String → Result F → List (String × Elem F)
  | some name, shared v => [(name, v)]
  | some name, pipe all => (all.zipIdx.map fun (v, position) => (s!"{name}.{position}", v)).reverse
  | _, _ => []

/-- Keep a result. -/
def keep (plain : Plain F) (keepAs : Option String) (result : Result F) : Plain F :=
  { plain with kept := result.bindings keepAs ++ plain.kept }

/-- Keep the results of a batch. -/
def keepAll (plain : Plain F) (parts : List (BatchPart F)) (results : List (Result F)) : Plain F :=
  (parts.zip results).foldl (fun plain (part, result) => plain.keep part.keepAs result) plain

/-- The value that a step speaks about.  A given share is no value. -/
def operand (plain : Plain F) : Operand F → Option (Elem F)
  | .kept name => plain.kept.lookup name
  | .literal _ => none

/-- What a local computation gives. -/
def compute (plain : Plain F) : Computation F → Option (Elem F)
  | .literal _ => none
  | .zero => some 0
  | .add x y => return (← plain.kept.lookup x) + (← plain.kept.lookup y)
  | .sub x y => return (← plain.kept.lookup x) - (← plain.kept.lookup y)
  | .neg x => return -(← plain.kept.lookup x)
  | .double x => return (← plain.kept.lookup x) + (← plain.kept.lookup x)
  | .scale x factor => return (← plain.kept.lookup x) * factor
  | .ofPublic value => some value
  | .addPublic x value => return (← plain.kept.lookup x) + value

/-- The values of a pipe: the inverse of its base, then the base and its higher powers. -/
def powers (base inverse : Elem F) : (length : Nat) → List (Elem F)
  | 0 => []
  | length + 1 => inverse :: (List.range length).map fun i => base ^ (i + 1)

variable (n length : Nat) (tape : Tape F)

/-- What a protocol computes among `n` parties with pipes of the given length. -/
def evaluate (plain : Plain F) : Blueprint F → Option (Result F × Plain F)
  | .input inputter value | .checkedInput inputter value =>
    if 1 ≤ inputter ∧ inputter ≤ n then
      (value.ofParty inputter).map fun value => (.shared value, plain)
    else none
  | .multiply x y => return (.shared ((← plain.operand x) * (← plain.operand y)), plain)
  | .openAll x => return (.value (← plain.operand x), plain)
  | .openTo x target =>
    if 1 ≤ target ∧ target ≤ n then (plain.operand x).map fun value => (.target target value, plain)
    else none
  | .element =>
    some (.shared (tape.element plain.elements), { plain with elements := plain.elements + 1 })
  | .bit =>
    some (.shared (if tape.bit plain.bits then 1 else 0), { plain with bits := plain.bits + 1 })
  | .pipe count =>
    if count = length then
      some (.pipe (powers (tape.base plain.pipes) (tape.inverse plain.pipes) length),
        { plain with pipes := plain.pipes + 1 })
    else none
  | .known value => some (.shared value, plain)
  | .reveal value =>
    some (.values ((List.range' 1 n).map fun party => (value.ofParty party).getD 0), plain)
  | .validation _ | .macCheck => some (.unit, plain)
  | .hollow _ => none

/-- What the protocols of a batch compute. -/
def evaluateAll : List (Blueprint F) → Plain F → Option (List (Result F) × Plain F)
  | [], plain => some ([], plain)
  | protocol :: protocols, plain => do
    let (result, plain) ← plain.evaluate n length tape protocol
    let (results, plain) ← evaluateAll protocols plain
    return (result :: results, plain)

/-- What an instruction does. -/
def carryOut (plain : Plain F) (keepAs : Option String) :
    Instruction F → Option (Report F × Plain F)
  | .compute computation => do
    let value ← plain.compute computation
    return (.result (.shared value), plain.keep keepAs (.shared value))
  | .call protocol | .run protocol => do
    let (result, plain) ← plain.evaluate n length tape protocol
    return (.result result, plain.keep keepAs result)
  | .runAll parts => do
    let (results, plain) ← evaluateAll n length tape (parts.map (·.protocol)) plain
    return (.results results, plain.keepAll parts results)
  | .batch parts => do
    let (results, plain) ← evaluateAll n length tape (parts.map (·.protocol)) plain
    return (.batch results, plain.keepAll parts results)
  | .macCheck | .checkpoint => some (.result .unit, plain)
  | .finish => some (.stats, { plain with finished := true })
  | _ => none

/-- What a step does.  It must be for all parties, and nothing comes after the session's end. -/
def follow (step : Step F) (plain : Plain F) : Option (Report F × Plain F) :=
  if plain.finished ∨ step.only ≠ none then none
  else plain.carryOut n length tape step.keepAs step.instruction

/-- What a script does: what each step comes to, and the state after it. -/
def perform : List (Step F) → Plain F → Option (List (Report F × Plain F))
  | [], _ => some []
  | step :: steps, plain => do
    let (report, plain) ← plain.follow n length tape step
    let later ← perform steps plain
    return (report, plain) :: later

end Plain

end Spdz
