import Spdz.Config.Text

/-!
# Steps of reading

A reader is a step from the rest of a text to a result and the rest after it.  Its parts are taken
apart here: what a compound step does once it is known how its first part ends.

* `bind_of_ok`, `bind_of_error` — a step after one that succeeds, and after one that fails.
* `Yields` — a property of whatever a reader results in, on any text.  A reader that yields nothing
  always fails (`Yields.fails`).
-/

namespace Spdz.Config.Reader

variable {α β : Type}

/-! ## Single steps -/

theorem front_eq (bytes : Bytes) : front bytes = .ok (bytes.head?.map Char.ofUInt8, bytes) := rfl

theorem advance_eq (bytes : Bytes) : advance bytes = .ok ((), bytes.tail) := rfl

theorem peek_eq (bytes : Bytes) :
    peek bytes = .ok ((bytes.dropWhile isBlank).head?.map Char.ofUInt8, bytes.dropWhile isBlank) :=
  rfl

/-- A step that takes nothing off the text. -/
theorem lift_of_ok {outcome : Except Fault α} {value : α} (done : outcome = .ok value)
    (bytes : Bytes) : (liftM outcome : Reader α) bytes = .ok (value, bytes) := by
  rw [done]
  rfl

/-- What follows a step that succeeds goes on with its result. -/
theorem bind_of_ok {read : Reader α} {next : α → Reader β} {bytes rest : Bytes} {value : α}
    (done : read bytes = .ok (value, rest)) : (read >>= next) bytes = next value rest := by
  change (read bytes >>= fun ended => next ended.1 ended.2) = _
  rw [done]
  rfl

/-- Nothing follows a step that fails. -/
theorem bind_of_error {read : Reader α} {next : α → Reader β} {bytes : Bytes} {fault : Fault}
    (failed : read bytes = .error fault) : (read >>= next) bytes = .error fault := by
  change (read bytes >>= fun ended => next ended.1 ended.2) = _
  rw [failed]
  rfl

/-! ## What a reader results in -/

/-- Whatever is read has the property. -/
def Yields (read : Reader α) (property : α → Prop) : Prop :=
  ∀ ⦃bytes value rest⦄, read bytes = .ok (value, rest) → property value

namespace Yields

variable {property : α → Prop}

/-- What the first step yields is known to the next one. -/
theorem andThen {first : β → Prop} {read : Reader β} {next : β → Reader α}
    (early : read.Yields first) (later : ∀ found, first found → (next found).Yields property) :
    (read >>= next).Yields property := by
  intro bytes value rest done
  rcases step : read bytes with fault | ⟨found, after⟩
  · rw [bind_of_error step] at done
    exact nomatch done
  · rw [bind_of_ok step] at done
    exact later found (early step) done

/-- The last step decides, whatever the first one yields. -/
theorem bind {read : Reader β} {next : β → Reader α} (later : ∀ found, (next found).Yields property) :
    (read >>= next).Yields property := by
  have anything : read.Yields fun _ => True := fun _ _ _ _ => trivial
  exact anything.andThen fun found _ => later found

theorem fault (fault : Fault) : (throw fault : Reader α).Yields property := nofun

theorem pure {value : α} (holds : property value) : (pure value : Reader α).Yields property := by
  intro bytes found rest done
  obtain ⟨rfl, -⟩ := Prod.mk.inj (Except.ok.inj done)
  exact holds

/-- A step that is taken or left out changes nothing. -/
theorem whether {condition : Prop} [Decidable condition] {step : Reader Unit}
    {next : Unit → Reader α} (later : (next ()).Yields property) :
    (if condition then step >>= next else next ()).Yields property := by
  split
  · exact .bind fun _ => later
  · exact later

/-- What yields nothing fails. -/
theorem fails {read : Reader α} (never : read.Yields fun _ => False) (bytes : Bytes) :
    ∃ fault, read bytes = .error fault := by
  rcases done : read bytes with fault | ⟨value, rest⟩
  · exact ⟨fault, rfl⟩
  · exact (never done).elim

end Yields

end Spdz.Config.Reader
