import Spdz.Bytes

/-!
# Sources of random words

Everything random is read from a deterministic stream of words that a seed determines. Parties
that start equal streams and read them alike stay in step, which is what lets them deal the same
preprocessed material without talking to each other.

* `WordSource` — a state from which 32-bit and 64-bit words are read.
* `WordSource.coin`, `WordSource.seed` — a fair bit and a fresh seed of 32 bytes.
-/

namespace Spdz

/-- A state from which words are read, each reading giving the state that follows. -/
class WordSource (γ : Type) where
  next32 : γ → UInt32 × γ
  next64 : γ → UInt64 × γ

namespace WordSource

variable {γ : Type} [WordSource γ]

/-- Read `count` times and collect the results in order. -/
def collect {α : Type} (read : γ → α × γ) : (count : Nat) → γ → List α × γ
  | 0, source => ([], source)
  | count + 1, source =>
    let (first, source) := read source
    let (others, source) := collect read count source
    (first :: others, source)

/-- A fair bit: the top bit of a 32-bit word. -/
def coin (source : γ) : Bool × γ :=
  let (word, source) := next32 source
  (word ≥ 0x80000000, source)

/-- A seed for another stream: the low bytes of 32 words. -/
def seed (source : γ) : Bytes × γ :=
  collect (fun source => let (word, source) := next32 source; (word.toUInt8, source)) 32 source

end WordSource

end Spdz
