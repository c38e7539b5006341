import Spdz.Network.Frame
import Spdz.Network.Links
import Spdz.Network.Medium
import Spdz.Network.Window

/-!
# Meshes of byte streams

Within one process, parties are joined pairwise by byte streams in both directions, on which
messages travel in frames. A party that leaves closes its ends: nothing can be sent to it any more,
and what it sent before can still be read.

* `ByteStream` — one direction of a channel.
* `Mesh` — streams between parties, a medium.
* `Mesh.ofChannels` — as one party finds it, with a channel to everyone else or an error.
-/

namespace Spdz

/-- How the reader of a stream stands to a frame that is too long. -/
inductive ReaderState where
  /-- It has met none. -/
  | sound
  /-- It has met one just now, so that the next reading finds an end. -/
  | failed
  /-- It cannot pass the one it has met, and meets it again when it has fetched more bytes. -/
  | stuck
  deriving DecidableEq

/-- One direction of a channel. -/
structure ByteStream where
  /-- The bytes of frames that were not read yet. -/
  unread : Bytes := []
  /-- How many of them the reader has fetched. -/
  window : Window := {}
  /-- Whether the reader has taken the head of the first frame off its window. -/
  headTaken : Bool := false
  state : ReaderState := .sound
  deriving Inhabited

namespace ByteStream

/-- Fetch until the window holds `need` bytes or all that were written. -/
def fetch (need : Nat) (stream : ByteStream) : ByteStream :=
  let total := stream.unread.length - if stream.headTaken then Frame.headLength else 0
  { stream with window := stream.window.fill need total (need + 1) }

/-- Take the head of the first frame off the window and have room for the body. -/
def takeHead (length : Nat) (stream : ByteStream) : ByteStream :=
  if stream.headTaken then stream
  else
    let window := (stream.fetch Frame.headLength).window
    { stream with window := (window.drop Frame.headLength).reserve length, headTaken := true }

/-- Fetch the first frame, as far as it was written. -/
def fetchFrame (stream : ByteStream) : ByteStream :=
  match Frame.bodyLength? stream.unread with
  | none => stream.fetch Frame.headLength
  | some length => (stream.takeHead length).fetch length

/-- The stream after its first frame, whose body has the given length. -/
def next (length : Nat) (rest : Bytes) (stream : ByteStream) : ByteStream :=
  let window := stream.fetchFrame.window.drop length
  { stream with unread := rest, window := window.release Frame.headLength, headTaken := false }

end ByteStream

/-- Byte streams between parties. -/
structure Mesh where
  parties : Nat
  streams : Links ByteStream := {}
  /-- The parties that have left. -/
  closed : List PartyId := []

namespace Mesh

/-- The mesh in which a party has the given channels, in the order of parties. All but its own
must be there. -/
def ofChannels (self : PartyId) (present : List Bool) : Except TransportError Mesh :=
  match (peersOf self present.length).find? fun peer => present[peer - 1]? ≠ some true with
  | some missing => .error (.unknownParty missing)
  | none => .ok { parties := present.length }

/-- Write bytes to a stream. -/
def write (sender receiver : PartyId) (bytes : Bytes) (mesh : Mesh) : Mesh :=
  { mesh with
    streams := mesh.streams.modify sender receiver fun stream =>
      { stream with unread := stream.unread ++ bytes } }

/-- Send a message in a frame. This fails if the receiver has left or the message is too long. -/
def send (sender receiver : PartyId) (message : Bytes) (mesh : Mesh) : Bool × Mesh :=
  match Frame.encode? message with
  | some frame =>
    if receiver ∈ mesh.closed then (false, mesh) else (true, mesh.write sender receiver frame)
  | none => (false, mesh)

/-- Read the next frame of a stream. One that is no message is dropped. One that is too long stays
where it is: it is met again whenever there are bytes to fetch, and the reading after that finds an
end. -/
def take (receiver sender : PartyId) (mesh : Mesh) : Arrival × Mesh :=
  let stream := mesh.streams.get sender receiver
  let keep (stream : ByteStream) : Mesh :=
    { mesh with streams := mesh.streams.set sender receiver stream }
  let silence : Arrival := if sender ∈ mesh.closed then .broken else .nothing
  if stream.state = .failed then (.broken, keep { stream with state := .stuck })
  else
    match Frame.read stream.unread with
    | .incomplete => (silence, keep stream.fetchFrame)
    | .oversized =>
      let need := if stream.state = .stuck then stream.window.length + 1 else Frame.headLength
      let stream := stream.fetch need
      if stream.window.length < need then (silence, keep stream)
      else (.broken, keep { stream with state := .failed })
    | .frame body rest =>
      let stream := stream.next body.length rest
      match Frame.decodeBody body with
      | some message => (.message message, keep stream)
      | none => (.broken, keep stream)

/-- A party leaves. -/
def close (party : PartyId) (mesh : Mesh) : Mesh := { mesh with closed := party :: mesh.closed }

/-- The most parties whose channels are watched together. In a larger mesh what they bring is taken
up in order. -/
def maxTogether : Nat := 30

instance : Medium Mesh where
  parties := parties
  send := send
  take := take
  watch := fun mesh => if mesh.parties ≤ maxTogether then .together else .inOrder
  close := close

end Mesh

end Spdz
