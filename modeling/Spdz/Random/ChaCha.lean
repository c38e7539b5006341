import Spdz.Random.WordSource

/-!
# The ChaCha12 stream

The keystream of ChaCha with twelve rounds, read word by word. Each party draws its own secrets
from such a stream, and the coefficients of an authentication check are expanded from one.

* `ChaCha` — a key, the number of the next block and the words of the current block still unread.
* `ChaCha.block` — the words of one block.
* `ChaCha.fill` — a byte string of a given length.
-/

namespace Spdz

/-- State of a ChaCha12 keystream. -/
structure ChaCha where
  key : Vector UInt32 8
  /-- Number of the block that follows the current one. -/
  counter : UInt64
  /-- Words of the current block that have not been read yet. -/
  unread : List UInt32

namespace ChaCha

/-! ## One block -/

/-- The bits of `x` moved up by `n` places, those pushed out entering at the bottom. -/
def rotate (x n : UInt32) : UInt32 := (x <<< n) ||| (x >>> (32 - n))

/-- Mix four of the sixteen words: two rounds of add, xor and rotate in each direction. -/
def quarterRound (i j k l : Fin 16) (words : Vector UInt32 16) : Vector UInt32 16 :=
  let a := words[i] + words[j]
  let d := rotate (words[l] ^^^ a) 16
  let c := words[k] + d
  let b := rotate (words[j] ^^^ c) 12
  let a := a + b
  let d := rotate (d ^^^ a) 8
  let c := c + d
  let b := rotate (b ^^^ c) 7
  (((words.set i a).set j b).set k c).set l d

/-- A round over the columns of the 4 × 4 square, then one over its diagonals. -/
def doubleRound (words : Vector UInt32 16) : Vector UInt32 16 :=
  let words := quarterRound 0 4 8 12 words
  let words := quarterRound 1 5 9 13 words
  let words := quarterRound 2 6 10 14 words
  let words := quarterRound 3 7 11 15 words
  let words := quarterRound 0 5 10 15 words
  let words := quarterRound 1 6 11 12 words
  let words := quarterRound 2 7 8 13 words
  quarterRound 3 4 9 14 words

/-- The square before mixing: four constants, the key, the block number and a zero nonce. -/
def square (key : Vector UInt32 8) (number : UInt64) : Vector UInt32 16 :=
  #v[0x61707865, 0x3320646e, 0x79622d32, 0x6b206574,
    key[0], key[1], key[2], key[3], key[4], key[5], key[6], key[7],
    number.toUInt32, (number >>> 32).toUInt32, 0, 0]

/-- The words of block `number`: the square mixed by twelve rounds and added to itself. -/
def block (key : Vector UInt32 8) (number : UInt64) : Vector UInt32 16 :=
  let start := square key number
  Vector.zipWith (· + ·) (Nat.repeat doubleRound 6 start) start

/-! ## The stream -/

/-- The `i`-th little-endian 32-bit word of a seed. -/
def seedWord (seed : Bytes) (i : Nat) : UInt32 :=
  UInt32.ofNat (Bytes.ofLittleEndian ((seed.drop (4 * i)).take 4))

/-- The stream whose key is a seed of 32 bytes, at its first word. -/
def ofSeed (seed : Bytes) : ChaCha where
  key := Vector.ofFn fun i => seedWord seed i
  counter := 0
  unread := []

/-- The next word of the keystream; an exhausted block is followed by the next one. -/
def next (g : ChaCha) : UInt32 × ChaCha :=
  match g.unread with
  | word :: rest => (word, { g with unread := rest })
  | [] =>
    let words := block g.key g.counter
    (words[0], { g with counter := g.counter + 1, unread := words.toList.tail })

/-- A 64-bit word is made of two words of the stream, the low half first. -/
instance : WordSource ChaCha where
  next32 := next
  next64 g :=
    let (low, g) := g.next
    let (high, g) := g.next
    (low.toUInt64 ||| (high.toUInt64 <<< 32), g)

/-- A string of `length` bytes. It takes whole words, and what the last one has too much is lost. -/
def fill (length : Nat) (g : ChaCha) : Bytes × ChaCha :=
  let (words, g) := WordSource.collect next ((length + 3) / 4) g
  ((words.flatMap fun word => Bytes.littleEndian 4 word.toNat).take length, g)

end ChaCha

end Spdz
