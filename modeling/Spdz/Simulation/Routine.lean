import Spdz.Network.Medium

/-!
# Many parties on one medium

A simulation runs several parties on one medium. Each has a routine: calls on the network and, along
the way, reports of what it has found out. The parties take turns, each going on until it has to
wait or is over, and one that is over leaves the medium. When nobody gets any further, those who
still wait are stalled.

* `Routine` — what a party does and reports, a finite tree.
* `Worker` — a party with what is left of its routine and its reports so far.
* `Worker.runAll` — let all parties take turns as long as one of them gets further.
-/

namespace Spdz

/-- What a party does and reports. -/
inductive Routine (ε : Type) where
  | ended
  | call (made : Call) (next : Except TransportError made.Reply → Routine ε)
  | report (entry : ε) (rest : Routine ε)

/-- Go on with a routine once an exchange has ended. -/
def Exchange.andThen {α ε : Type} : Exchange α → (α → Routine ε) → Routine ε
  | done result, next => next result
  | call made rest, next => .call made fun reply => (rest reply).andThen next

/-- Take steps in order, reporting the result of each. A step acts on a state that it hands on to
the next. -/
def Routine.ofSteps {ε σ τ : Type} (act : τ → σ → Exchange (ε × σ)) : List τ → σ → Routine ε
  | [], _ => .ended
  | step :: steps, state =>
    (act step state).andThen fun (entry, state) => .report entry (ofSteps act steps state)

/-- A party at work. -/
structure Worker (ε : Type) where
  party : PartyId
  routine : Routine ε
  /-- Messages that its waiting call already has. -/
  held : Held := []
  /-- Its reports so far, the latest first. -/
  reports : List ε := []
  /-- Whether it has left. -/
  hasLeft : Bool := false

namespace Worker

variable {μ ε : Type} [Medium μ]

/-- The reports in the order in which they were made. -/
def log (worker : Worker ε) : List ε := worker.reports.reverse

/-- Follow a routine until it waits or is over. The flag tells whether it got any further. -/
def follow (party : PartyId) : Routine ε → (held : Held) → (reports : List ε) → (moved : Bool) →
    μ → Bool × Worker ε × μ
  | .ended, _, reports, _, medium =>
    (true, { party, routine := .ended, reports, hasLeft := true }, Medium.close party medium)
  | .report entry rest, held, reports, _, medium =>
    follow party rest held (entry :: reports) true medium
  | .call made next, held, reports, moved, medium =>
    match Medium.poll party held medium made with
    | (.settled reply, medium) => follow party (next reply) [] reports true medium
    | (.waiting now, medium) =>
      let moved := moved || now.length > held.length
      (moved, { party, routine := .call made next, held := now, reports }, medium)

/-- A party's turn. -/
def turn (worker : Worker ε) (medium : μ) : Bool × Worker ε × μ :=
  if worker.hasLeft then (false, worker, medium)
  else follow worker.party worker.routine worker.held worker.reports false medium

/-- One turn of each party. -/
def turns : List (Worker ε) → μ → Bool × List (Worker ε) × μ
  | [], medium => (false, [], medium)
  | worker :: workers, medium =>
    let (moved, worker, medium) := worker.turn medium
    let (movedToo, workers, medium) := turns workers medium
    (moved || movedToo, worker :: workers, medium)

/-- Turns of all parties, as long as one of them gets further, at most `limit` times. -/
def runAll : (limit : Nat) → List (Worker ε) → μ → List (Worker ε) × μ
  | 0, workers, medium => (workers, medium)
  | limit + 1, workers, medium =>
    match turns workers medium with
    | (true, workers, medium) => runAll limit workers medium
    | (false, workers, medium) => (workers, medium)

end Worker

end Spdz
