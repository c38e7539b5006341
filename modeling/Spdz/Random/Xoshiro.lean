import Spdz.Random.WordSource

/-!
# The xoshiro256++ stream

A small, fast stream of 64-bit words with four words of state. It deals the simulated
preprocessing, where the seed is public anyway.

* `Xoshiro` — the state; `Xoshiro.ofSeed` starts a stream.
* `Xoshiro.ofNumber` — the state whose words are successive SplitMix64 outputs.
-/

namespace Spdz

/-- State of the xoshiro256++ stream. -/
structure Xoshiro where
  s0 : UInt64
  s1 : UInt64
  s2 : UInt64
  s3 : UInt64
  deriving DecidableEq

namespace Xoshiro

/-- The bits of `x` moved up by `n` places, those pushed out entering at the bottom. -/
def rotate (x n : UInt64) : UInt64 := (x <<< n) ||| (x >>> (64 - n))

/-- The next word: a scrambled sum of two words of the state, which then takes one linear step. -/
def next (g : Xoshiro) : UInt64 × Xoshiro :=
  let word := rotate (g.s0 + g.s3) 23 + g.s0
  let s2 := g.s2 ^^^ g.s0
  let s3 := g.s3 ^^^ g.s1
  (word, ⟨g.s0 ^^^ s3, g.s1 ^^^ s2, s2 ^^^ (g.s1 <<< 17), rotate s3 45⟩)

/-- A 32-bit word is the high half of a 64-bit word. -/
instance : WordSource Xoshiro where
  next64 := next
  next32 g :=
    let (word, g) := g.next
    ((word >>> 32).toUInt32, g)

/-! ## Seeding -/

/-- The SplitMix64 output that belongs to a counter value. -/
def splitMix (counter : UInt64) : UInt64 :=
  let z := (counter ^^^ (counter >>> 30)) * 0xbf58476d1ce4e5b9
  let z := (z ^^^ (z >>> 27)) * 0x94d049bb133111eb
  z ^^^ (z >>> 31)

/-- State expanded from a number: four SplitMix64 outputs, the counter advancing by an odd constant
before each. -/
def ofNumber (number : UInt64) : Xoshiro :=
  let step : UInt64 := 0x9e3779b97f4a7c15
  ⟨splitMix (number + step), splitMix (number + 2 * step), splitMix (number + 3 * step),
    splitMix (number + 4 * step)⟩

/-- The `i`-th little-endian 64-bit word of a seed. -/
def seedWord (seed : Bytes) (i : Nat) : UInt64 :=
  UInt64.ofNat (Bytes.ofLittleEndian ((seed.drop (8 * i)).take 8))

/-- State from a seed of 32 bytes. The all-zero state would never leave itself, so the all-zero
seed is replaced by the state expanded from zero. -/
def ofSeed (seed : Bytes) : Xoshiro :=
  let g : Xoshiro := ⟨seedWord seed 0, seedWord seed 1, seedWord seed 2, seedWord seed 3⟩
  if g = ⟨0, 0, 0, 0⟩ then ofNumber 0 else g

end Xoshiro

end Spdz
