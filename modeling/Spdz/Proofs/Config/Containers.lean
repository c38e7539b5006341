import Spdz.Proofs.Config.Reading

/-!
# Reading lists and objects

The elements of a list and the members of an object are read one after the other.  What is made of an
object is therefore a fold over its members, if the reader of a single member makes something of any
key and any value.

* **`members_gives`**, **`object_gives`** — an object is read by folding over its members.
* `hasElement_nil`, `hasElement_cons` — whether a list goes on.
* **`endList_gives`** — a list ends just where it has no other elements.
-/

namespace Spdz.Config.Reader

open Json

variable {α β σ : Type} {tokens : List Token}

/-! ## Objects -/

/-- The end of an object. -/
theorem nextKey_close (first : Bool) : Gives (nextKey first) [.sign '\x7d'] (some none) := by
  unfold nextKey
  exact .peek (.sign (.pure none))

/-- The next key of an object, after a comma unless it is the first. -/
theorem nextKey_key (first : Bool) (key : String) :
    Gives (nextKey first) (separator first ++ [.string key]) (some (some key)) := by
  have taken : GivesAt (advance >>= fun _ => some <$> string) [.string key] (some (some key)) := by
    have steps : GivesAt (advance >>= fun _ => string >>= fun text => pure (some text))
      [.string key] (some (some key)) := .string (.pure _)
    exact steps
  unfold nextKey
  cases first with
  | true => exact .peek taken
  | false =>
    refine .peek (.sign ?_)
    exact .peek taken

/-- **The members of an object are read one after the other**, each with what the ones before it led
to, as long as there is fuel for all of them. -/
theorem members_gives {read : String → σ → Reader σ} {meaning : σ → String × Json → Option σ}
    (each : ∀ key value state,
      Gives (read key state) (.sign ':' :: value.tokens) (meaning state (key, value)))
    (entries : List (String × Json)) :
    ∀ {fuel} (first : Bool) (state : σ), entries.length < fuel →
      Gives (members read fuel first state) (entryTokens first entries)
        (entries.foldlM meaning state) := by
  induction entries with
  | nil =>
    intro fuel first state enough
    obtain ⟨less, rfl⟩ : ∃ less, fuel = less + 1 := ⟨fuel - 1, by omega⟩
    rw [entryTokens, members]
    exact (nextKey_close first).andThen separate_nil (.pure state)
  | cons entry later ih =>
    intro fuel first state enough
    obtain ⟨less, rfl⟩ : ∃ less, fuel = less + 1 := ⟨fuel - 1, by
      rw [List.length_cons] at enough
      omega⟩
    obtain ⟨key, value⟩ := entry
    rw [entryTokens, members, List.append_assoc, List.foldlM_cons]
    refine (nextKey_key first key).andThen (fun _ same => nomatch same) ?_
    refine (each key value state).bind (separate_entryTokens later) fun next _ => ?_
    exact ih false next (by simpa using enough)

/-- Every member takes a token. -/
theorem length_le_entryTokens (first : Bool) (entries : List (String × Json)) :
    entries.length ≤ (entryTokens first entries).length := by
  induction entries generalizing first with
  | nil => exact Nat.zero_le _
  | cons entry later ih =>
    have step := ih false
    rw [entryTokens]
    simp only [List.length_append, List.length_cons]
    omega

/-- **An object is read** by what is made of its members. -/
theorem object_gives {read : String → σ → Reader σ} {meaning : σ → String × Json → Option σ}
    (each : ∀ key value state,
      Gives (read key state) (.sign ':' :: value.tokens) (meaning state (key, value)))
    (entries : List (String × Json)) (start : σ) :
    GivesAt (Reader.object read start) (Json.object entries).tokens
      (entries.foldlM meaning start) := by
  rw [Json.tokens]
  unfold Reader.object
  refine .sign fun later bytes separate spaced => ?_
  have enough : entries.length < bytes.length + 1 := by
    have short := spaced.length_le
    have shorter := length_le_entryTokens true entries
    rw [List.length_append] at short
    omega
  exact members_gives each entries true start enough separate spaced

/-! ## Lists -/

/-- At the closing bracket there is no other element. -/
theorem hasElement_nil {first : Bool} {next : Bool → Reader β} {outcome : Option β}
    (after : Gives (next false) (.sign ']' :: tokens) outcome) :
    Gives (hasElement first >>= next) (.sign ']' :: tokens) outcome := by
  unfold hasElement
  rw [bind_assoc]
  exact .peek after.at

/-- Before the first element stands nothing. -/
theorem hasElement_true {c : Char} (inside : c ≠ ']') (noComma : c ≠ ',') {bytes rest : Bytes}
    (seen : peek bytes = .ok (some c, rest)) : hasElement true bytes = .ok (true, rest) := by
  obtain ⟨shown, same⟩ : ∃ shown, shown = some c := ⟨_, rfl⟩
  rw [hasElement, bind_of_ok seen, ← same]
  split
  · exact nomatch same
  · exact absurd (Option.some.inj same).symm inside
  · exact absurd (Option.some.inj same).symm noComma
  · rfl

/-- Before any other element stands a comma. -/
theorem hasElement_false {c : Char} (inside : c ≠ ']') {bytes rest after : Bytes}
    (comma : peek bytes = .ok (some ',', rest)) (seen : peek rest.tail = .ok (some c, after)) :
    hasElement false bytes = .ok (true, after) := by
  obtain ⟨shown, same⟩ : ∃ shown, shown = some c := ⟨_, rfl⟩
  rw [hasElement, bind_of_ok comma]
  refine (bind_of_ok (advance_eq rest)).trans ?_
  rw [bind_of_ok seen, ← same]
  split
  · exact nomatch same
  · exact absurd (Option.some.inj same).symm inside
  · rfl

/-- The next element of a list begins, after a comma unless it is the first. -/
theorem hasElement_cons {first : Bool} {next : Bool → Reader β} {outcome : Option β} (element : Json)
    (after : Gives (next true) (element.tokens ++ tokens) outcome) :
    Gives (hasElement first >>= next) (separator first ++ element.tokens ++ tokens) outcome := by
  obtain ⟨token, more, same, inside, -, noComma⟩ := element.tokens_eq_cons
  rw [same] at after ⊢
  intro later bytes separate spaced
  cases first with
  | true =>
    obtain ⟨rest, seen, faces⟩ := peek_of_spaced_cons spaced
    rw [bind_of_ok (hasElement_true inside noComma seen)]
    exact after separate faces.spaced
  | false =>
    obtain ⟨rest, comma, facesComma⟩ := peek_of_spaced_cons spaced
    cases facesComma with
    | cons written spacedElement =>
      cases written with
      | sign known =>
        obtain ⟨rest, seen, faces⟩ := peek_of_spaced_cons spacedElement
        rw [bind_of_ok (hasElement_false inside comma seen)]
        exact after separate faces.spaced

/-- Where anything but the closing bracket stands, a list does not end. -/
theorem endList_ne {c : Char} (inside : c ≠ ']') {bytes rest : Bytes}
    (seen : peek bytes = .ok (some c, rest)) : ∃ fault, endList bytes = .error fault := by
  obtain ⟨shown, same⟩ : ∃ shown, shown = some c := ⟨_, rfl⟩
  rw [endList, bind_of_ok seen, ← same]
  split
  · exact nomatch same
  · exact absurd (Option.some.inj same).symm inside
  · refine Yields.fails (.bind fun _ => .bind fun seen => ?_) rest
    split <;> exact .fault _
  · exact ⟨_, rfl⟩

/-- The first token of an element, or the comma before it, closes no list. -/
theorem elementTokens_cons (first : Bool) (element : Json) (later : List Json) :
    ∃ token more, elementTokens first (element :: later) = token :: more ∧ token.front ≠ ']' := by
  rw [elementTokens]
  cases first with
  | true =>
    obtain ⟨token, more, same, inside, -⟩ := element.tokens_eq_cons
    exact ⟨token, more ++ elementTokens false later, by rw [same]; rfl, inside⟩
  | false => exact ⟨.sign ',', element.tokens ++ elementTokens false later, rfl, by decide⟩

/-- **A list ends where it has no other elements.** -/
theorem endList_gives (first : Bool) (elements : List Json) :
    Gives endList (elementTokens first elements) (if elements.isEmpty then some () else none) := by
  cases elements with
  | nil =>
    rw [elementTokens]
    unfold endList
    exact .peek .lastSign
  | cons element later =>
    obtain ⟨token, more, same, inside⟩ := elementTokens_cons first element later
    rw [same]
    intro after bytes _ spaced
    obtain ⟨rest, seen, -⟩ := peek_of_spaced_cons spaced
    obtain ⟨fault, failed⟩ := endList_ne inside seen
    rw [failed]
    exact .refused

end Spdz.Config.Reader
