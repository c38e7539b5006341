/-!
# The window of a reader

A reader of frames fetches bytes from a stream into a window of memory and takes frames off its
front. How much it fetches at a time depends on the room behind the bytes it has. Room is made by
moving the bytes to the front of the window or by enlarging it.

This is bookkeeping only: what the bytes are does not matter here, and how a stream splits into
frames does not depend on it. It decides which bytes of a stream were looked at so far.

* `Window` — how much of the memory is in use.
* `Window.reserve` — make room.
* `Window.fill` — fetch until enough is there.
* `Window.drop`, `Window.release` — take bytes off the front, and prepare for what follows a frame.
-/

namespace Spdz

/-- How much of a reader's memory is in use. -/
structure Window where
  capacity : Nat := 8192
  /-- How many bytes at the front were taken off already. -/
  offset : Nat := 0
  /-- How many bytes follow that were fetched. -/
  length : Nat := 0
  deriving DecidableEq

namespace Window

/-- How many bytes can be fetched at once. -/
def room (window : Window) : Nat := window.capacity - (window.offset + window.length)

/-- Make room for more bytes. The fetched ones are moved to the front if that is enough, and if
they do not overlap the place they are moved to. Else the capacity is doubled at least. -/
def reserve (additional : Nat) (window : Window) : Window :=
  if additional ≤ window.room then window
  else if window.length + additional ≤ window.capacity ∧ window.length ≤ window.offset then
    { window with offset := 0 }
  else
    { window with
      capacity := max (2 * window.capacity) (window.offset + window.length + additional) }

/-- Fetch until `need` bytes are there, or all of `total` that can be there. Each time room for one
byte is made, and all the room there is gets used. -/
def fill (need total : Nat) : (tries : Nat) → Window → Window
  | 0, window => window
  | tries + 1, window =>
    if need ≤ window.length then window
    else
      let window := window.reserve 1
      if total ≤ window.length then window
      else
        let fetched := min (total - window.length) window.room
        fill need total tries { window with length := window.length + fetched }

/-- Take bytes off the front. -/
def drop (count : Nat) (window : Window) : Window :=
  { window with offset := window.offset + count, length := window.length - count }

/-- Have room for the next head after a frame was taken off. As the frame is still in use then, the
bytes behind it are not moved: they go to a new window if need be. -/
def release (head : Nat) (window : Window) : Window :=
  if head ≤ window.room then window
  else { capacity := max 8192 (window.length + head), length := window.length }

end Window

end Spdz
