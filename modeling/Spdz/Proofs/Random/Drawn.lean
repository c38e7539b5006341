import Spdz.Random.WordSource

/-!
# Reading again and again

Whoever reads a source again and again gets an endless stream of results, and however many of them
are collected at a time, they come from that stream.

* `WordSource.drawn` — the stream of results; `WordSource.remaining`, the source after some of them.
* `WordSource.collect_fst`, `WordSource.collect_snd` — collecting some of them.
-/

namespace Spdz

namespace WordSource

variable {γ α : Type} (read : γ → α × γ)

/-- The results of reading again and again. -/
def drawn : γ → Nat → α
  | source, 0 => (read source).1
  | source, index + 1 => drawn (read source).2 index

/-- What is left of the source after some readings. -/
def remaining : (count : Nat) → γ → γ
  | 0, source => source
  | count + 1, source => remaining count (read source).2

/-- However many are collected, they are the first of the same stream. -/
theorem collect_fst (count : Nat) (source : γ) :
    (collect read count source).1 = (List.range count).map (drawn read source) := by
  induction count generalizing source with
  | zero => rfl
  | succ count ih =>
      rw [List.range_succ_eq_map, List.map_cons, List.map_map]
      simp only [collect, ih]
      rfl

theorem collect_snd (count : Nat) (source : γ) :
    (collect read count source).2 = remaining read count source := by
  induction count generalizing source with
  | zero => rfl
  | succ count ih => exact ih (read source).2

theorem length_collect (count : Nat) (source : γ) :
    (collect read count source).1.length = count := by
  rw [collect_fst, List.length_map, List.length_range]

/-- What comes later is what comes from the source that remains. -/
theorem drawn_remaining (count index : Nat) (source : γ) :
    drawn read (remaining read count source) index = drawn read source (count + index) := by
  induction count generalizing source with
  | zero => rw [Nat.zero_add]; rfl
  | succ count ih => rw [Nat.succ_add]; exact ih (read source).2

theorem remaining_remaining (count more : Nat) (source : γ) :
    remaining read more (remaining read count source) = remaining read (count + more) source := by
  induction count generalizing source with
  | zero => rw [Nat.zero_add]; rfl
  | succ count ih => rw [Nat.succ_add]; exact ih (read source).2

/-- A stream is read at a position. -/
theorem drawn_eq (index : Nat) (source : γ) :
    drawn read source index = (read (remaining read index source)).1 := by
  rw [← Nat.add_zero index, ← drawn_remaining]
  rfl

/-- A lot that is collected later is a later stretch of the stream. -/
theorem collect_remaining (start count : Nat) (source : γ) :
    collect read count (remaining read start source)
      = ((List.range' start count).map (drawn read source), remaining read (start + count) source) := by
  refine Prod.ext ?_ ?_
  · rw [collect_fst, List.range'_eq_map_range, List.map_map]
    exact List.map_congr_left fun index _ => drawn_remaining read start index source
  · rw [collect_snd, remaining_remaining]

end WordSource

end Spdz
