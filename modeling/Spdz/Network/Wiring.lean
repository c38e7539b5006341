import Spdz.Network.Mesh

/-!
# Wiring within one process

Within one process every two parties are joined by a duplex stream: what is written at one of its
ends is read at the other. The ends are handed out by a square table with a row for each party, in
which its channel to party `k` stands in place `k - 1`. A mesh has a stream for each ordered pair of
parties instead, which is the direction of the duplex stream from the sender's end to the receiver's.

* `DuplexEnd` — an end of a duplex stream.
* `Wiring`, `Wiring.mock` — the table, and how it is filled.
* `Wiring.channel` — the channel of a party to another one.
* `Wiring.meshes` — what each party makes of its row.
-/

namespace Spdz

/-- An end of a duplex stream. The streams are numbered as they are made. -/
structure DuplexEnd where
  stream : Nat
  isFirst : Bool
  deriving DecidableEq

/-- The other end, where what is written here is read. -/
def DuplexEnd.opposite (held : DuplexEnd) : DuplexEnd := { held with isFirst := !held.isFirst }

/-- For each party the ends that it holds. -/
abbrev Wiring := List (List (Option DuplexEnd))

namespace Wiring

/-- No ends are handed out. -/
def blank (parties : Nat) : Wiring := List.replicate parties (List.replicate parties none)

/-- Put an end in its place. -/
def put (row column : Nat) (held : DuplexEnd) (wiring : Wiring) : Wiring :=
  wiring.modify row (·.set column (some held))

/-- Join two parties by a new stream. -/
def join (wiring : Wiring) (stream row column : Nat) : Wiring :=
  (wiring.put row column ⟨stream, true⟩).put column row ⟨stream, false⟩

/-- The pairs of rows to join, in the order in which this is done. -/
def pairs (parties : Nat) : List (Nat × Nat) :=
  (List.range parties).flatMap fun row => (List.range row).map fun column => (row, column)

/-- All parties are joined pairwise. -/
def mock (parties : Nat) : Wiring :=
  (pairs parties).zipIdx.foldl
    (fun wiring ((row, column), stream) => wiring.join stream row column) (blank parties)

/-- The channel of a party to another one. There is none to itself, nor to party zero. -/
def channel (self peer : PartyId) (wiring : Wiring) : Except TransportError DuplexEnd :=
  if peer = self ∨ peer = 0 then .error (.unknownParty peer)
  else
    match wiring[self - 1]?.bind (·[peer - 1]?) with
    | some (some held) => .ok held
    | _ => .error (.unknownParty peer)

/-- What the parties make of their rows, where a row is complete. -/
def meshes (wiring : Wiring) : List Mesh :=
  wiring.zipIdx.filterMap fun (row, index) =>
    (Mesh.ofChannels (index + 1) (row.map Option.isSome)).toOption

end Wiring

end Spdz
