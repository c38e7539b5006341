import Spdz.Network.Mesh
import Spdz.Network.Post
import Spdz.Preprocessing.Rehearsal
import Spdz.Simulation.Actor
import Spdz.Simulation.Routine

/-!
# Scenarios

A scenario casts parties, gives each a script and lets them play on one network. What is shown is
each party's log and how it ended.

* `Casting` — a party that plays, or why it does not.
* `perform` — a cast plays on a medium; a `Record` for each party.
* `Scenario.play` — on a postal network, with generators that may be made to fail.
* `playOnMesh` — on byte streams, with simulated preprocessing as it is.
-/

namespace Spdz

variable {F : FieldSpec} {σ : Type}

/-! ## Casts -/

/-- A party that plays, or why it does not. -/
inductive Casting (F : FieldSpec) (σ : Type) where
  | plays (actor : Actor F σ) (script : List (Step F))
  | absent
  /-- The party could not be set up. -/
  | refused (error : Error)

/-- How a party's part ended. -/
inductive Ending where
  | finished
  /-- It still waits for messages that nobody will send. -/
  | stalled
  | absent
  | refused (error : Error)

/-- What is shown of a party. -/
structure Record (F : FieldSpec) where
  log : List (Entry F)
  ending : Ending

namespace Casting

/-- The party at work. One that does not play has already left. -/
def worker [Supplier F σ] (party : PartyId) : Casting F σ → Worker (Entry F)
  | plays actor script => { party, routine := Routine.ofSteps Actor.follow script actor }
  | absent | refused _ => { party, routine := .ended, hasLeft := true }

/-- What is shown of the party after the play. -/
def record (casting : Casting F σ) (worker : Worker (Entry F)) : Record F where
  log := worker.log
  ending := match casting with
    | plays .. => if worker.hasLeft then .finished else .stalled
    | absent => .absent
    | refused e => .refused e

end Casting

/-- A bound on the turns of a play that no play reaches. -/
def maxTurns : Nat := UInt64.size

/-- Let parties `1`, `2`, … play on a medium. -/
def perform {μ : Type} [Medium μ] [Supplier F σ] (cast : List (Casting F σ)) (medium : μ) :
    List (Record F) × μ :=
  let workers := cast.zipIdx.map fun (casting, index) => casting.worker (index + 1)
  let medium := workers.foldl
    (fun medium worker => if worker.hasLeft then Medium.close worker.party medium else medium)
    medium
  let (workers, medium) := Worker.runAll maxTurns workers medium
  (List.zipWith Casting.record cast workers, medium)

/-! ## Scenarios -/

/-- The part of one party. -/
structure Role (F : FieldSpec) where
  /-- Builds the party's generator, and holds its share of the key. -/
  factory : RehearsedFactory F
  /-- The byte of which the seed of its randomness consists. -/
  seedByte : UInt8
  script : List (Step F)
  absent : Bool := false

/-- Parties, their scripts, and what goes wrong on the network. -/
structure Scenario (F : FieldSpec) where
  config : Config
  /-- The parts of parties `1`, `2`, …. -/
  roles : List (Role F)
  /-- Messages that lie in queues from the start: sender, receiver, bytes. -/
  inbox : List (PartyId × PartyId × Bytes) := []
  rules : List TamperRule := []

/-- A supplier whose generator may be made to fail. -/
abbrev RehearsedSupplier (F : FieldSpec) :=
  StockedSupplier F (RehearsedFactory F) (RehearsedDealer F)

namespace Scenario

/-- Set up a party. -/
def cast (scenario : Scenario F) (party : PartyId) (role : Role F) :
    Casting F (RehearsedSupplier F) :=
  let seat : Seat := ⟨party, scenario.roles.length⟩
  let session : Except Error (Session F (RehearsedSupplier F)) := do
    let state ← (Party.withGenerator party seat.parties scenario.config
      role.factory.factory.keyShare role.factory
      (ChaCha.ofSeed (List.replicate 32 role.seedByte))).mapError .config
    Session.start state seat
  if role.absent then .absent
  else
    match session with
    | .ok session => .plays { seat, stage := .whole session } role.script
    | .error e => .refused e

/-- Play on a postal network, and give it back as well. -/
def play (scenario : Scenario F) : List (Record F) × Post :=
  let cast := scenario.roles.zipIdx.map fun (role, index) => scenario.cast (index + 1) role
  let post : Post := { parties := scenario.roles.length, rules := scenario.rules }
  let post := scenario.inbox.foldl
    (fun post (sender, receiver, message) => post.enqueue sender receiver [message]) post
  perform cast post

end Scenario

/-- Play the given scripts on byte streams within one process, with simulated preprocessing. Nobody
plays if one party cannot be set up. -/
def playOnMesh (config : Config) (entropy : Bytes) (scripts : List (List (Step F))) :
    Except Error (List (Record F)) := do
  let parties := scripts.length
  let cast ← scripts.zipIdx.mapM fun (script, index) => do
    let seat : Seat := ⟨index + 1, parties⟩
    let party ← (Party.simulated F seat.party parties config entropy).mapError Error.config
    let session ← Session.start party seat
    return Casting.plays { seat, stage := .whole session } script
  return (perform cast ({ parties } : Mesh)).1

end Spdz
