import Spdz.Bytes

/-!
# SHA3-256

The hash behind commitments, broadcast validation and the derivation of check coefficients: the
Keccak permutation on 25 words of 64 bits, absorbing 136 bytes at a time.

* `Sha3.permute` — the permutation, 24 rounds of five steps.
* `Sha3.pad` — a message completed to whole blocks.
* `sha3` — the digest of a message, always 32 bytes long.
-/

namespace Spdz

namespace Sha3

/-- The 5 × 5 square of words; the word in column `x` and row `y` has index `x + 5 * y`. -/
abbrev Square := Vector UInt64 25

/-! ## The permutation -/

/-- The bits of `x` moved up by `n` places, those pushed out entering at the bottom. -/
def rotate (x n : UInt64) : UInt64 :=
  if n = 0 then x else (x <<< n) ||| (x >>> (64 - n))

/-- The word in column `x` and row `y`, both counted modulo five. -/
def word (a : Square) (x y : Nat) : UInt64 :=
  a.get ⟨x % 5 + 5 * (y % 5), by omega⟩

/-- How far each word is rotated, by its index. -/
def rotations : Square :=
  #v[0, 1, 62, 28, 27, 36, 44, 6, 55, 20, 3, 10, 43, 25, 39, 41, 45, 15, 21, 8, 18, 2, 61, 56, 14]

/-- The constants that tell the rounds apart. -/
def roundConstants : List UInt64 :=
  [0x0000000000000001, 0x0000000000008082, 0x800000000000808a, 0x8000000080008000,
    0x000000000000808b, 0x0000000080000001, 0x8000000080008081, 0x8000000000008009,
    0x000000000000008a, 0x0000000000000088, 0x0000000080008009, 0x000000008000000a,
    0x000000008000808b, 0x800000000000008b, 0x8000000000008089, 0x8000000000008003,
    0x8000000000008002, 0x8000000000000080, 0x000000000000800a, 0x800000008000000a,
    0x8000000080008081, 0x8000000000008080, 0x0000000080000001, 0x8000000080008008]

/-- The parity of column `x`. -/
def parity (a : Square) (x : Nat) : UInt64 :=
  word a x 0 ^^^ word a x 1 ^^^ word a x 2 ^^^ word a x 3 ^^^ word a x 4

/-- Each word takes in the parities of two neighbouring columns. -/
def mixColumns (a : Square) : Square :=
  let parities : Vector UInt64 5 := Vector.ofFn fun x => parity a x
  let change : Vector UInt64 5 := Vector.ofFn fun x =>
    parities.get ⟨(x.val + 4) % 5, by omega⟩
      ^^^ rotate (parities.get ⟨(x.val + 1) % 5, by omega⟩) 1
  Vector.ofFn fun i => a[i] ^^^ change.get ⟨i.val % 5, by omega⟩

/-- Each word is rotated by its own amount and moved to its new place. -/
def scatter (a : Square) : Square :=
  let rotated := Vector.zipWith rotate a rotations
  Vector.ofFn fun i => word rotated (i.val % 5 + 3 * (i.val / 5)) (i.val % 5)

/-- Each word is combined with the next two in its row, the only step that is not linear. -/
def mixRows (a : Square) : Square :=
  Vector.ofFn fun i =>
    let (x, y) := (i.val % 5, i.val / 5)
    word a x y ^^^ (~~~(word a (x + 1) y) &&& word a (x + 2) y)

/-- One round. -/
def round (a : Square) (constant : UInt64) : Square :=
  let b := mixRows (scatter (mixColumns a))
  b.set 0 (b[0] ^^^ constant)

/-- The Keccak permutation. -/
def permute (a : Square) : Square := roundConstants.foldl round a

/-! ## The sponge -/

/-- Number of message bytes that enter between two permutations. -/
def rate : Nat := 136

/-- The message completed to whole blocks: the bits that name the hash, zeros, and a final one. -/
def pad (message : Bytes) : Bytes :=
  let missing := rate - message.length % rate
  if missing = 1 then message ++ [0x86]
  else message ++ 0x06 :: (List.replicate (missing - 2) 0 ++ [0x80])

/-- Combine one block into the first words of the square and permute. -/
def absorb (a : Square) (block : Bytes) : Square :=
  let words := (Bytes.chunks 8 17 block).map fun word => UInt64.ofNat (Bytes.ofLittleEndian word)
  permute (Vector.zipWith (· ^^^ ·) a (Vector.ofFn fun i => words.getD i 0))

/-- The square after the whole message. -/
def absorbAll (message : Bytes) : Square :=
  let padded := pad message
  (Bytes.chunks rate (padded.length / rate) padded).foldl absorb (Vector.replicate 25 0)

end Sha3

/-- Length of a digest in bytes. -/
def digestLength : Nat := 32

/-- The SHA3-256 digest of a message. -/
def sha3 (message : Bytes) : Bytes :=
  let a := Sha3.absorbAll message
  [a[0], a[1], a[2], a[3]].flatMap fun word => Bytes.littleEndian 8 word.toNat

@[simp] theorem length_sha3 (message : Bytes) : (sha3 message).length = digestLength := by
  simp [sha3, digestLength]

end Spdz
