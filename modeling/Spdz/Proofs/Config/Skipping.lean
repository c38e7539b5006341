import Spdz.Proofs.Config.Reading

/-!
# Skipping values

Values inside the content of the simulated strategy are skipped without recursion: a list of frames
records what the value at hand stands in.  What skips a value then goes on with the frames around it,
so the statement that carries the induction says how reading goes on after the value, for any frames
and any text there (`Skips`).

* `skipOn`, `skipWithin_succ` — skipping as an alternation of two steps: a value or its opening, and the
  frames that end after it.
* `leave_open`, `leave_close` — when a frame stays open and when it is left.
* `Skips` — a value is skipped, with at least as much fuel as it has tokens.
* **`skip_gives`** — any value is skipped to its end.
-/

namespace Spdz.Config

namespace Reader

open Json

/-- How skipping goes on inside the frames that remain. -/
def skipOn (fuel : Nat) (frames : List Frame) : Reader Unit :=
  match frames with
  | [] => pure ()
  | .list :: _ => skipWithin fuel frames
  | .object :: _ => do
    skipKey
    skipWithin fuel frames

/-- Skipping is a value, or its opening, and then the frames that end there. -/
theorem skipWithin_succ (fuel : Nat) (frames : List Frame) :
    skipWithin (fuel + 1) frames = skipOpening >>= fun opened =>
      (opened.elim (leave true frames) fun frame => leave false (frame :: frames)) >>= skipOn fuel := by
  rw [skipWithin]
  congr 1
  funext opened
  cases opened <;> rfl

variable {β : Type} {tokens : List Token} {outcome : Option Unit}

/-- A string is skipped after its opening quotation mark. -/
theorem GivesAt.skipString {text : String} {next : Unit → Reader β} {outcome : Option β}
    (after : Gives (next ()) tokens outcome) :
    GivesAt (advance >>= fun _ => Reader.skipString >>= next) (.string text :: tokens) outcome :=
  .quoted skipString_of_spells after

/-- What holds no other values is skipped at once. -/
theorem skipOpening_null : Gives skipOpening Json.null.tokens (some none) := by
  rw [Json.tokens]
  unfold skipOpening
  exact .peek (.word (.pure none))

theorem skipOpening_boolean (value : Bool) :
    Gives skipOpening (Json.boolean value).tokens (some none) := by
  cases value <;> (rw [Json.tokens]; unfold skipOpening; exact .peek (.word (.pure none)))

theorem skipOpening_string (text : String) :
    Gives skipOpening (Json.string text).tokens (some none) := by
  rw [Json.tokens]
  unfold skipOpening
  exact .peek (.skipString (.pure none))

/-- The sign that opens a frame. -/
def Frame.opening : Frame → Char
  | .list => '['
  | .object => '\x7b'

/-- The sign that closes a frame. -/
def Frame.close : Frame → Char
  | .list => ']'
  | .object => '\x7d'

/-- At its opening sign a list or an object is entered. -/
theorem skipOpening_enter (frame : Frame) {next : Option Frame → Reader β} {outcome : Option β}
    (after : Gives (next (some frame)) tokens outcome) :
    Gives (skipOpening >>= next) (.sign frame.opening :: tokens) outcome := by
  have entered : GivesAt ((advance >>= fun _ => pure (some frame)) >>= next)
      (.sign frame.opening :: tokens) outcome := by
    rw [bind_assoc]
    exact .sign after
  unfold skipOpening
  rw [bind_assoc]
  cases frame <;> exact .peek entered

/-- A number is skipped to its end. -/
theorem skipOpening_number (numeral : Numeral) :
    Gives skipOpening (Json.number numeral).tokens (some none) := by
  rw [Json.tokens]
  unfold skipOpening
  refine .peek fun later bytes separate faces => ?_
  obtain ⟨rest, rfl, spaced, apart⟩ := faces.of_number separate
  have done : (skipNumber >>= fun _ => (Pure.pure none : Reader (Option Frame)))
      (numeral.magnitude ++ rest) = .ok (none, rest) := by
    rw [bind_of_ok (skipNumber_magnitude numeral apart)]
    rfl
  have front := Token.front_number numeral
  split at front
  case isTrue negative =>
    rw [front, Numeral.shown_of_negative negative]
    change Ends later _ ((skipNumber >>= fun _ => _) (numeral.magnitude ++ rest))
    rw [done]
    exact .taken spaced
  case isFalse positive =>
    rw [Numeral.shown_of_not_negative (Bool.eq_false_iff.mpr positive)]
    generalize (Token.number numeral).front = c at front
    simp only [List.mem_cons, List.not_mem_nil, or_false] at front
    rcases front with rfl | rfl | rfl | rfl | rfl | rfl | rfl | rfl | rfl | rfl
    all_goals
      change Ends later _ ((skipNumber >>= fun _ => _) (numeral.magnitude ++ rest))
      rw [done]
      exact .taken spaced

/-- A key and its colon are skipped. -/
theorem Gives.skipKey {key : String} {next : Unit → Reader β} {outcome : Option β}
    (after : Gives (next ()) tokens outcome) :
    Gives (Reader.skipKey >>= next) (.string key :: .sign ':' :: tokens) outcome := by
  unfold Reader.skipKey
  rw [bind_assoc]
  refine .peek ?_
  change GivesAt ((advance >>= fun _ => skipString >>= fun _ => Reader.colon) >>= next) _ _
  simp only [bind_assoc]
  exact .skipString (.colon after)

/-! ## Frames -/

/-- A value that begins inside a frame leaves it open. -/
theorem leave_false {frame : Frame} {outer : List Frame} {c : Char} (noList : c ≠ ']')
    (noObject : c ≠ '\x7d') {bytes rest : Bytes} (seen : peek bytes = .ok (some c, rest)) :
    leave false (frame :: outer) bytes = .ok (frame :: outer, rest) := by
  rw [leave.eq_def]
  dsimp only
  rw [bind_of_ok seen]
  obtain ⟨shown, same⟩ : ∃ shown, shown = some c := ⟨_, rfl⟩
  rw [← same]
  split
  case h_1 | h_2 => exact nomatch same
  case h_3 => exact absurd (Option.some.inj same).symm noList
  case h_4 => exact absurd (Option.some.inj same).symm noObject
  case h_5 => rfl

/-- After a value a frame stays open at a comma. -/
theorem leave_comma {frame : Frame} {outer : List Frame} {next : List Frame → Reader Unit}
    (after : Gives (next (frame :: outer)) tokens outcome) :
    Gives (leave true (frame :: outer) >>= next) (.sign ',' :: tokens) outcome := by
  rw [leave.eq_def]
  dsimp only
  rw [bind_assoc]
  refine .peek ?_
  have taken : GivesAt ((advance >>= fun _ => pure (frame :: outer)) >>= next) (.sign ',' :: tokens)
      outcome := by
    rw [bind_assoc]
    exact .sign after
  cases frame <;> exact taken

/-- A frame stays open where another value or a key begins, after a comma unless it is the first. -/
theorem leave_open {first : Bool} {frame : Frame} {outer : List Frame} {token : Token}
    {next : List Frame → Reader Unit} (noList : token.front ≠ ']') (noObject : token.front ≠ '\x7d')
    (after : Gives (next (frame :: outer)) (token :: tokens) outcome) :
    Gives (leave (!first) (frame :: outer) >>= next) (separator first ++ token :: tokens) outcome := by
  cases first with
  | true =>
    intro later bytes apart spaced
    obtain ⟨rest, seen, faces⟩ := peek_of_spaced_cons spaced
    have stays : leave (!true) (frame :: outer) bytes = .ok (frame :: outer, rest) :=
      leave_false noList noObject seen
    rw [bind_of_ok stays]
    exact after apart faces.spaced
  | false => exact leave_comma after

/-- At its closing sign a frame is left, and then the frames around it. -/
theorem leave_close (afterValue : Bool) {frame : Frame} {outer : List Frame}
    {next : List Frame → Reader Unit} {outcome : Option Unit}
    (after : Gives (leave true outer >>= next) tokens outcome) :
    Gives (leave afterValue (frame :: outer) >>= next) (.sign frame.close :: tokens) outcome := by
  have left : GivesAt ((advance >>= fun _ => leave true outer) >>= next) (.sign frame.close :: tokens)
      outcome := by
    rw [bind_assoc]
    exact .sign after
  rw [leave.eq_def]
  dsimp only
  rw [bind_assoc]
  cases frame <;> exact .peek left

/-- A value is skipped inside any frames, with at least as much fuel as it has tokens. What is read
then is what is read after a value inside these frames. -/
def Skips (value : Json) : Prop :=
  ∀ ⦃fuel frames tokens outcome⦄, Separate tokens →
    (∀ enough ≥ fuel, Gives (leave true frames >>= skipOn enough) tokens outcome) →
    ∀ enough ≥ fuel + value.tokens.length,
      Gives (skipWithin enough frames) (value.tokens ++ tokens) outcome

/-- So it is when the value's first token is taken first, for one step of the fuel, and the others then. -/
theorem skips_of_step {value : Json} {token : Token} {more : List Token}
    (same : value.tokens = token :: more)
    (step : ∀ ⦃fuel frames tokens outcome⦄, Separate tokens →
      (∀ enough ≥ fuel, Gives (leave true frames >>= skipOn enough) tokens outcome) →
      ∀ enough ≥ fuel + more.length,
        Gives (skipOpening >>= fun opened => (opened.elim (leave true frames) fun frame =>
          leave false (frame :: frames)) >>= skipOn enough) (token :: more ++ tokens) outcome) :
    Skips value := by
  intro fuel frames tokens outcome separate after enough large
  rw [same, List.length_cons] at large
  obtain ⟨less, rfl⟩ : ∃ less, enough = less + 1 := ⟨enough - 1, by omega⟩
  rw [same, skipWithin_succ]
  exact step separate after less (by omega)

/-- A value that holds no others is skipped at once. -/
theorem skips_of_opening {value : Json} {token : Token} (single : value.tokens = [token])
    (opening : Gives skipOpening value.tokens (some none)) : Skips value := by
  refine skips_of_step single fun fuel frames tokens outcome separate after enough large => ?_
  rw [← single]
  exact opening.andThen separate (after enough large)

/-- The elements of a list are skipped one after the other, and the frame of the list is left. -/
theorem skips_elements {elements : List Json} (each : ∀ element ∈ elements, Skips element) :
    ∀ ⦃first fuel frames tokens outcome⦄, Separate tokens →
      (∀ enough ≥ fuel, Gives (leave true frames >>= skipOn enough) tokens outcome) →
      ∀ enough ≥ fuel + (elementTokens first elements).length,
        Gives (leave (!first) (.list :: frames) >>= skipOn enough)
          (elementTokens first elements ++ tokens) outcome := by
  induction elements with
  | nil =>
    intro first fuel frames tokens outcome separate after enough large
    rw [elementTokens]
    exact leave_close _ (after enough (by omega))
  | cons element later ih =>
    intro first fuel frames tokens outcome separate after enough large
    have others := ih (fun other among => each other (List.mem_cons_of_mem _ among))
    obtain ⟨token, more, same, noList, noObject, -⟩ := element.tokens_eq_cons
    rw [elementTokens] at large ⊢
    simp only [List.length_append] at large
    have inside : Gives (skipWithin enough (.list :: frames))
        (element.tokens ++ (elementTokens false later ++ tokens)) outcome := by
      refine each element List.mem_cons_self ?_ (others separate after) enough ?_
      · exact separate_append (separate_elementTokens later) separate
      · omega
    rw [same] at inside
    rw [same, List.append_assoc, List.append_assoc]
    exact leave_open noList noObject inside

/-- The members of an object are skipped one after the other, and the frame of the object is left. -/
theorem skips_entries {entries : List (String × Json)} (each : ∀ entry ∈ entries, Skips entry.2) :
    ∀ ⦃first fuel frames tokens outcome⦄, Separate tokens →
      (∀ enough ≥ fuel, Gives (leave true frames >>= skipOn enough) tokens outcome) →
      ∀ enough ≥ fuel + (entryTokens first entries).length,
        Gives (leave (!first) (.object :: frames) >>= skipOn enough)
          (entryTokens first entries ++ tokens) outcome := by
  induction entries with
  | nil =>
    intro first fuel frames tokens outcome separate after enough large
    rw [entryTokens]
    exact leave_close _ (after enough (by omega))
  | cons entry later ih =>
    intro first fuel frames tokens outcome separate after enough large
    obtain ⟨key, value⟩ := entry
    have others := ih (fun other among => each other (List.mem_cons_of_mem _ among))
    rw [entryTokens] at large ⊢
    simp only [List.length_append, List.length_cons] at large
    have inside : Gives (skipWithin enough (.object :: frames))
        (value.tokens ++ (entryTokens false later ++ tokens)) outcome := by
      refine each (key, value) List.mem_cons_self ?_ (others separate after) enough ?_
      · exact separate_append (separate_entryTokens later) separate
      · dsimp only
        omega
    rw [List.append_assoc, List.append_assoc, List.append_assoc]
    exact leave_open (by simp [Token.front]) (by simp [Token.front]) (.skipKey inside)

/-- Every value is skipped to its end, by induction on what it holds. -/
theorem skips (value : Json) : Skips value := by
  induction value using Json.inductionOn with
  | null => exact skips_of_opening (by rw [Json.tokens]) skipOpening_null
  | boolean value =>
    cases value <;> exact skips_of_opening (by rw [Json.tokens]) (skipOpening_boolean _)
  | number numeral => exact skips_of_opening (by rw [Json.tokens]) (skipOpening_number numeral)
  | string text => exact skips_of_opening (by rw [Json.tokens]) (skipOpening_string text)
  | list elements each =>
    refine skips_of_step (by rw [Json.tokens]) fun fuel frames tokens outcome separate after => ?_
    exact fun enough large =>
      skipOpening_enter .list (skips_elements each separate after enough large)
  | object entries each =>
    refine skips_of_step (by rw [Json.tokens]) fun fuel frames tokens outcome separate after => ?_
    exact fun enough large =>
      skipOpening_enter .object (skips_entries each separate after enough large)

/-- **Whatever stands there is skipped.** -/
theorem skip_gives (value : Json) : Gives skip value.tokens (some ()) := by
  intro later bytes separate spaced
  have enough : bytes.length + 1 ≥ 0 + value.tokens.length := by
    have short := spaced.length_le
    rw [List.length_append] at short
    omega
  have after : ∀ fuel ≥ 0, Gives (leave true [] >>= skipOn fuel) [] (some ()) := fun _ _ => .pure ()
  have skipped := skips value separate_nil after _ enough
  rw [List.append_nil] at skipped
  exact skipped separate spaced

end Reader

end Spdz.Config
