import Spdz.Field.Elem
import Spdz.Random.WordSource

/-!
# Random field elements

An element is drawn by rejection: a candidate of as many bits as the modulus is read from the word
stream until one lies below the modulus. The candidate is then divided by the word base, a
bijection of the field, so the result is as uniform as the words are.

* `Elem.random` — a random element.
* `Elem.randomNonzero` — a random element other than zero.

Each try succeeds with probability above one half, so the number of tries allowed, `maxTries`, is
never reached; it makes the search end on every word source.
-/

namespace Spdz

namespace Elem

variable {F : FieldSpec} {γ : Type} [WordSource γ]

-- Powers are those of the core library, whatever else is imported.
attribute [local instance (high)] instPowNat

/-- How often a draw is tried before it settles for a fixed element. -/
def maxTries : Nat := UInt64.size

/-- A candidate: as many words as an element takes, the lowest first, cut to the bits of the
modulus. -/
def candidate (F : FieldSpec) (source : γ) : Nat × γ :=
  let (words, source) := WordSource.collect WordSource.next64 F.limbs source
  (words.foldr (fun word high => word.toNat + UInt64.size * high) 0 % 2 ^ F.bits, source)

/-- The element of the first candidate below the modulus among `tries`, zero if there is none. -/
def sample (F : FieldSpec) : (tries : Nat) → γ → Elem F × γ
  | 0, source => (0, source)
  | tries + 1, source =>
    let (word, source) := candidate F source
    if word < F.modulus then (ofNat F word * ofNat F F.unscale, source)
    else sample F tries source

/-- A random element. -/
def random (F : FieldSpec) (source : γ) : Elem F × γ := sample F maxTries source

/-- The first random element other than zero among `tries`, one if there is none. -/
def sampleNonzero (F : FieldSpec) : (tries : Nat) → γ → Elem F × γ
  | 0, source => (1, source)
  | tries + 1, source =>
    let (a, source) := random F source
    if a = 0 then sampleNonzero F tries source else (a, source)

/-- A random element other than zero. -/
def randomNonzero (F : FieldSpec) (source : γ) : Elem F × γ := sampleNonzero F maxTries source

end Elem

end Spdz
