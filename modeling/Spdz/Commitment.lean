import Spdz.Field.Codec
import Spdz.Hash.Sha3
import Spdz.Random.ChaCha

/-!
# Commitments

A commitment fixes a value without showing it: it is the hash of the value together with fresh
random bytes. Showing both later opens it, and anyone can compare.

* `Opening` — the value and the random bytes.
* `Commitment` — their digest; `Commitment.commit`, `Commitment.verify`.
* `broadcastDigest` — the digest of a list of byte strings, by which parties compare lists.
-/

namespace Spdz

variable {F : FieldSpec}

/-- Number of random bytes in a commitment to an element of `F`. -/
def randomnessLength (F : FieldSpec) : Nat := F.bits / 8 + 1

/-! ## Openings -/

/-- What opens a commitment. -/
structure Opening (F : FieldSpec) where
  value : Elem F
  randomness : Bytes
  deriving DecidableEq

namespace Opening

/-- The bytes of an opening: the value, then the random bytes. -/
def toBytes (opening : Opening F) : Bytes := opening.value.encode ++ opening.randomness

/-- The digest that a commitment to this opening consists of. -/
def digest (opening : Opening F) : Bytes := sha3 opening.toBytes

/-- The opening with the given bytes. -/
def ofBytes (F : FieldSpec) (bytes : Bytes) : Except CodecError (Opening F) := do
  let expected := F.byteLength + randomnessLength F
  if bytes.length ≠ expected then throw (.invalidLength expected bytes.length)
  let value ← Elem.decode F (bytes.take F.byteLength)
  return ⟨value, bytes.drop F.byteLength⟩

end Opening

/-! ## Commitments -/

/-- The digest of an opening that may not be known yet. -/
structure Commitment where
  digest : Bytes
  deriving DecidableEq

namespace Commitment

/-- Commit to a value with fresh randomness. -/
def commit (value : Elem F) (rng : ChaCha) : (Commitment × Opening F) × ChaCha :=
  let (randomness, rng) := rng.fill (randomnessLength F)
  let opening : Opening F := ⟨value, randomness⟩
  ((⟨opening.digest⟩, opening), rng)

/-- Whether this is the commitment to an opening. -/
def verify (commitment : Commitment) (opening : Opening F) : Bool :=
  commitment.digest = opening.digest

/-- The commitment with the given bytes, which must be as many as a digest has. -/
def ofBytes (bytes : Bytes) : Except CodecError Commitment :=
  if bytes.length ≠ digestLength then .error (.invalidLength digestLength bytes.length)
  else .ok ⟨bytes⟩

end Commitment

/-! ## Digests of lists -/

/-- What is hashed for a list: each string after its length, so that the list can be told from the
bytes. -/
def broadcastInput (values : List Bytes) : Bytes :=
  values.flatMap fun value => Bytes.littleEndian 8 value.length ++ value

/-- The digest of a list of byte strings. -/
def broadcastDigest (values : List Bytes) : Bytes := sha3 (broadcastInput values)

end Spdz
