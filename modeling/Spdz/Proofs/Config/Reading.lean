import Mathlib.Tactic.FinCases
import Spdz.Proofs.Config.Strings

/-!
# Readers on tokens

What a reader does with a text depends on the tokens that the text writes, not on its bytes.  `Gives`
says so: a reader takes given tokens off the front of any text that begins with them and has a given
result, or it fails on all such texts.  Readers are put together from parts, and so are these
judgements, with one rule for each way to put readers together.

* `Separate` — tokens that may follow a number.  Only a number does not show where it ends.
* `Gives`, `GivesAt` — what a reader makes of tokens, before and after blanks are left out.
* `Gives.bind`, `Gives.andThen` — one reader after the other.
* `Gives.peek`, `GivesAt.sign`, `GivesAt.string`, `GivesAt.word` — the step that looks at a token, and
  those that take it.

The rules for signs go on with the reader that follows, since a number may stand after a sign.
-/

namespace Spdz.Config

/-! ## Where tokens begin -/

/-- The character that a token begins with. -/
def Token.front : Token → Char
  | sign symbol => symbol
  | word letters => letters.headD ' '
  | string _ => '"'
  | number numeral => Char.ofUInt8 (numeral.shown.headD 0x30)

/-- The tokens may follow a number. -/
def Separate (tokens : List Token) : Prop := ∀ numeral, tokens.head? ≠ some (.number numeral)

/-- Digits are no blanks. -/
theorem not_isBlank_of_isDigit {byte : UInt8} (digit : IsDigit byte) : ¬Reader.isBlank byte := by
  intro blank
  simp only [Reader.isBlank, Bool.or_eq_true, beq_iff_eq] at blank
  unfold IsDigit at digit
  rcases blank with ((rfl | rfl) | rfl) | rfl <;> exact absurd digit (by decide)

/-- A blank continues no number. -/
theorem special_of_isBlank {byte : UInt8} (blank : Reader.isBlank byte) :
    ¬IsDigit byte ∧ byte ∉ [0x2e, 0x45, 0x65] := by
  refine ⟨fun digit => not_isBlank_of_isDigit digit blank, ?_⟩
  simp only [Reader.isBlank, Bool.or_eq_true, beq_iff_eq] at blank
  rcases blank with ((rfl | rfl) | rfl) | rfl <;> decide

/-- A whole number begins with a digit. -/
theorem decimal_eq_cons (n : Nat) : ∃ byte more, decimal n = byte :: more ∧ IsDigit byte := by
  rcases shape : digitsOf n with _ | ⟨digit, more⟩
  · exact absurd shape (digitsOf_ne_nil n)
  · have small : digit < 10 := lt_of_mem_digitsOf n digit (by rw [shape]; exact List.mem_cons_self)
    exact ⟨digitByte digit, more.map digitByte, by rw [decimal_eq, shape]; rfl,
      isDigit_digitByte small⟩

/-- A number begins with its sign or with a digit. -/
theorem Numeral.shown_eq_cons (numeral : Numeral) :
    ∃ byte more, numeral.shown = byte :: more ∧
      (if numeral.negative then byte = 0x2d ∧ more = numeral.magnitude else IsDigit byte) := by
  obtain ⟨_ | _, whole, fraction, exponent⟩ := numeral
  · obtain ⟨byte, more, same, digit⟩ := decimal_eq_cons whole
    exact ⟨byte, _, by rw [shown, magnitude, same]; rfl, digit⟩
  · exact ⟨0x2d, _, rfl, rfl, rfl⟩

/-- The ten digits. -/
theorem mem_digits_of_isDigit {byte : UInt8} (digit : IsDigit byte) :
    Char.ofUInt8 byte ∈ ['0', '1', '2', '3', '4', '5', '6', '7', '8', '9'] := by
  obtain ⟨low, high⟩ := digit
  have low := UInt8.le_iff_toNat_le.mp low
  have high := UInt8.le_iff_toNat_le.mp high
  rw [← UInt8.ofNat_toNat (x := byte)]
  generalize byte.toNat = n at low high
  change 0x30 ≤ n at low
  change n ≤ 0x39 at high
  interval_cases n <;> decide

theorem Numeral.shown_of_negative {numeral : Numeral} (negative : numeral.negative = true) :
    numeral.shown = 0x2d :: numeral.magnitude := by
  rw [shown, negative]
  rfl

theorem Numeral.shown_of_not_negative {numeral : Numeral} (positive : numeral.negative = false) :
    numeral.shown = numeral.magnitude := by
  rw [shown, positive]
  rfl

/-- A number begins with a minus sign if it is below zero, else with a digit. -/
theorem Token.front_number (numeral : Numeral) :
    if numeral.negative then (Token.number numeral).front = '-'
    else (Token.number numeral).front ∈ ['0', '1', '2', '3', '4', '5', '6', '7', '8', '9'] := by
  obtain ⟨byte, more, same, begins⟩ := numeral.shown_eq_cons
  have front : (Token.number numeral).front = Char.ofUInt8 byte := by rw [Token.front, same]; rfl
  rw [front]
  split at begins
  · rw [begins.1, if_pos ‹_›]
    rfl
  · rw [if_neg ‹_›]
    exact mem_digits_of_isDigit begins

/-- What a token begins with, which is no blank. -/
theorem Token.Shows.eq_cons {token : Token} {shown : Bytes} (written : token.Shows shown) :
    ∃ byte more, shown = byte :: more ∧ Char.ofUInt8 byte = token.front ∧ ¬Reader.isBlank byte ∧
      (Separate [token] → ¬IsDigit byte ∧ byte ∉ [0x2e, 0x45, 0x65]) := by
  cases written with
  | sign known =>
    simp only [List.mem_cons, List.not_mem_nil, or_false] at known
    rcases known with rfl | rfl | rfl | rfl | rfl | rfl <;>
      exact ⟨_, _, rfl, rfl, by decide, fun _ => ⟨by unfold IsDigit; decide, by decide⟩⟩
  | word known =>
    simp only [List.mem_cons, List.not_mem_nil, or_false] at known
    rcases known with rfl | rfl | rfl <;>
      exact ⟨_, _, rfl, rfl, by decide, fun _ => ⟨by unfold IsDigit; decide, by decide⟩⟩
  | string spelled =>
    exact ⟨0x22, _, rfl, rfl, by decide, fun _ => ⟨by unfold IsDigit; decide, by decide⟩⟩
  | number numeral =>
    obtain ⟨byte, more, same, begins⟩ := numeral.shown_eq_cons
    refine ⟨byte, more, same, by rw [front, same]; rfl, ?_, fun separate => absurd rfl (separate _)⟩
    split at begins
    · rw [begins.1]
      decide
    · exact not_isBlank_of_isDigit begins

/-- Numbers end where other tokens begin. -/
theorem Spaced.apart {tokens : List Token} {bytes : Bytes} (separate : Separate tokens)
    (spaced : Spaced tokens bytes) : Apart bytes := by
  intro byte here
  cases spaced with
  | nil blank => exact special_of_isBlank (blank byte (List.mem_of_mem_head? here))
  | @cons token tokens blanks shown later blank written _ =>
    rcases blanks with _ | ⟨first, blanks⟩
    · obtain ⟨front, more, rfl, -, -, special⟩ := written.eq_cons
      obtain rfl : front = byte := Option.some.inj here
      exact special separate
    · obtain rfl : first = byte := Option.some.inj here
      exact special_of_isBlank (blank first List.mem_cons_self)

/-- The bytes write the tokens, and no blanks stand before the first one. -/
inductive Faces : List Token → Bytes → Prop where
  | nil : Faces [] []
  | cons {token : Token} {tokens : List Token} {shown bytes : Bytes} (written : token.Shows shown)
      (later : Spaced tokens bytes) : Faces (token :: tokens) (shown ++ bytes)

theorem Faces.spaced {tokens : List Token} {bytes : Bytes} (faces : Faces tokens bytes) :
    Spaced tokens bytes := by
  cases faces with
  | nil => exact .nil (List.forall_mem_nil _)
  | cons written later => exact .cons (List.forall_mem_nil _) written later

/-- What follows a number that stands there. -/
theorem Faces.of_number {numeral : Numeral} {later : List Token} {bytes : Bytes}
    (separate : Separate later) (faces : Faces (.number numeral :: later) bytes) :
    ∃ rest, bytes = numeral.shown ++ rest ∧ Spaced later rest ∧ Apart rest := by
  cases faces with
  | cons written spaced =>
    cases written
    exact ⟨_, rfl, spaced, spaced.apart separate⟩

/-- Every token takes a byte. -/
theorem Spaced.length_le {tokens : List Token} {bytes : Bytes} (spaced : Spaced tokens bytes) :
    tokens.length ≤ bytes.length := by
  induction spaced with
  | nil => exact Nat.zero_le _
  | cons blank written later ih =>
    obtain ⟨byte, more, rfl, -⟩ := written.eq_cons
    simp only [List.length_cons, List.length_append]
    omega

namespace Json

/-- No value begins like the end of a list or an object, or like a comma. -/
theorem tokens_eq_cons (value : Json) : ∃ token more, value.tokens = token :: more ∧
    token.front ≠ ']' ∧ token.front ≠ '\x7d' ∧ token.front ≠ ',' := by
  cases value with
  | boolean value =>
    cases value <;> exact ⟨_, _, by rw [tokens], by decide, by decide, by decide⟩
  | number numeral =>
    have front := Token.front_number numeral
    refine ⟨.number numeral, [], by rw [tokens], ?_, ?_, ?_⟩
    all_goals
      intro same
      rw [same] at front
      split at front <;> exact absurd front (by decide)
  | null => exact ⟨_, _, by rw [tokens], by decide, by decide, by decide⟩
  | string text => exact ⟨.string text, _, by rw [tokens], by simp [Token.front]⟩
  | list elements => exact ⟨_, _, by rw [tokens], by decide, by decide, by decide⟩
  | object entries => exact ⟨_, _, by rw [tokens], by decide, by decide, by decide⟩

theorem separate_elementTokens (elements : List Json) : Separate (elementTokens false elements) := by
  intro numeral
  cases elements <;> exact nofun

theorem separate_entryTokens (entries : List (String × Json)) :
    Separate (entryTokens false entries) := by
  intro numeral
  cases entries <;> exact nofun

end Json

namespace Reader

variable {α β : Type}

/-- Looking past the blanks shows how the next token begins. -/
theorem peek_of_spaced_cons {token : Token} {tokens : List Token} {bytes : Bytes}
    (spaced : Spaced (token :: tokens) bytes) :
    ∃ rest, peek bytes = .ok (some token.front, rest) ∧ Faces (token :: tokens) rest := by
  cases spaced with
  | @cons _ _ blanks shown bytes blank written later =>
    obtain ⟨byte, more, same, front, visible, -⟩ := written.eq_cons
    have stops : (shown ++ bytes).dropWhile isBlank = shown ++ bytes := by
      rw [same]
      exact List.dropWhile_cons_of_neg visible
    refine ⟨shown ++ bytes, ?_, .cons written later⟩
    rw [peek_eq, List.append_assoc, List.dropWhile_append_of_pos blank, stops, same, ← front]
    rfl

/-- At the end of the text there is nothing to see. -/
theorem peek_of_spaced_nil {bytes : Bytes} (spaced : Spaced [] bytes) :
    peek bytes = .ok (none, []) := by
  cases spaced with
  | nil blank =>
    have gone : bytes.dropWhile isBlank = [] := by
      rw [← List.append_nil bytes, List.dropWhile_append_of_pos blank]
      rfl
    rw [peek_eq, gone]
    rfl

/-! ## What a reader makes of tokens -/

/-- A step succeeds with the value that is due and leaves the tokens that follow, or fails if none
is due. -/
inductive Ends (later : List Token) : Option α → Except Fault (α × Bytes) → Prop where
  | taken {value : α} {rest : Bytes} (spaced : Spaced later rest) :
      Ends later (some value) (.ok (value, rest))
  | refused {fault : Fault} : Ends later none (.error fault)

/-- Of a text that begins with the tokens the reader takes just them, with the given result, or fails
if there is none. -/
def Gives (read : Reader α) (tokens : List Token) (outcome : Option α) : Prop :=
  ∀ ⦃later bytes⦄, Separate later → Spaced (tokens ++ later) bytes →
    Ends later outcome (read bytes)

/-- The same, for a text whose blanks were already left out. -/
def GivesAt (read : Reader α) (tokens : List Token) (outcome : Option α) : Prop :=
  ∀ ⦃later bytes⦄, Separate later → Faces (tokens ++ later) bytes →
    Ends later outcome (read bytes)

variable {read : Reader α} {next : α → Reader β} {tokens more : List Token}

theorem separate_nil : Separate [] := fun _ same => nomatch same

/-- Tokens may follow a number if the first of them may. -/
theorem separate_append {later : List Token} (first : Separate tokens) (second : Separate later) :
    Separate (tokens ++ later) := by
  cases tokens with
  | nil => exact second
  | cons token tokens => exact first

/-- Blanks that were left out are not missed. -/
theorem Gives.at {outcome : Option α} (gives : Gives read tokens outcome) :
    GivesAt read tokens outcome :=
  fun _ _ separate faces => gives separate faces.spaced

/-- One step after the other. -/
theorem Ends.bind {later rest : List Token} {outcome : Option α} {result : α → Option β}
    {bytes : Bytes} (first : Ends later outcome (read bytes))
    (second : ∀ value, outcome = some value →
      ∀ ⦃bytes⦄, Spaced later bytes → Ends rest (result value) (next value bytes)) :
    Ends rest (outcome.bind result) ((read >>= next) bytes) := by
  generalize done : read bytes = ended at first
  cases first with
  | taken spaced =>
    rw [bind_of_ok done]
    exact second _ rfl spaced
  | refused =>
    rw [bind_of_error done]
    exact .refused

/-- A reader and then another, each on its own tokens. -/
theorem Gives.bind {outcome : Option α} {result : α → Option β} (first : Gives read tokens outcome)
    (separate : Separate more)
    (second : ∀ value, outcome = some value → Gives (next value) more (result value)) :
    Gives (read >>= next) (tokens ++ more) (outcome.bind result) := by
  intro later bytes apart spaced
  rw [List.append_assoc] at spaced
  exact (first (separate_append separate apart) spaced).bind fun value same _ rest =>
    second value same apart rest

/-- A reader that succeeds, and then another. -/
theorem Gives.andThen {value : α} {outcome : Option β} (first : Gives read tokens (some value))
    (separate : Separate more) (after : Gives (next value) more outcome) :
    Gives (read >>= next) (tokens ++ more) outcome := by
  intro later bytes apart spaced
  rw [List.append_assoc] at spaced
  have done := first (separate_append separate apart) spaced
  generalize ended : read bytes = outcome at done
  cases done with
  | taken rest =>
    rw [bind_of_ok ended]
    exact after apart rest

/-- A reader and then another, after blanks were left out. -/
theorem GivesAt.bind {outcome : Option α} {result : α → Option β}
    (first : GivesAt read tokens outcome) (separate : Separate more)
    (second : ∀ value, outcome = some value → Gives (next value) more (result value)) :
    GivesAt (read >>= next) (tokens ++ more) (outcome.bind result) := by
  intro later bytes apart faces
  rw [List.append_assoc] at faces
  exact (first (separate_append separate apart) faces).bind fun value same _ rest =>
    second value same apart rest

/-- What was read is put into a form. -/
theorem Gives.returning {outcome : Option α} (form : α → β) (gives : Gives read tokens outcome) :
    Gives (read >>= fun value => Pure.pure (form value)) tokens (outcome.map form) := by
  intro later bytes separate spaced
  rw [Option.map_eq_bind]
  exact (gives separate spaced).bind fun value _ _ rest => .taken rest

theorem GivesAt.returning {outcome : Option α} (form : α → β)
    (gives : GivesAt read tokens outcome) :
    GivesAt (read >>= fun value => Pure.pure (form value)) tokens (outcome.map form) := by
  intro later bytes separate faces
  rw [Option.map_eq_bind]
  exact (gives separate faces).bind fun value _ _ rest => .taken rest

/-- Nothing is read. -/
theorem Gives.pure (value : α) : Gives (Pure.pure value) [] (some value) :=
  fun _ _ _ spaced => .taken spaced

/-- A reader that always fails does so here. -/
theorem Ends.of_never (never : read.Yields fun _ => False) (later : List Token) (bytes : Bytes) :
    Ends later none (read bytes) := by
  obtain ⟨fault, failed⟩ := never.fails bytes
  rw [failed]
  exact .refused

theorem Gives.of_never (never : read.Yields fun _ => False) : Gives read tokens none :=
  fun later bytes _ _ => .of_never never later bytes

theorem Gives.fault (fault : Fault) : Gives (throw fault : Reader α) tokens none :=
  .of_never (.fault fault)

/-- Blanks are left out first. -/
theorem Gives.peek {token : Token} {next : Option Char → Reader β} {outcome : Option β}
    (seen : GivesAt (next (some token.front)) (token :: tokens) outcome) :
    Gives (peek >>= next) (token :: tokens) outcome := by
  intro later bytes separate spaced
  obtain ⟨rest, found, faces⟩ := peek_of_spaced_cons spaced
  rw [bind_of_ok found]
  exact seen separate faces

/-- Before a number a step may look at its sign or its first digit. Where these make no difference the
number need not be known. -/
theorem Gives.peekNumber {numeral : Numeral} {next : Option Char → Reader β} {read : Reader β}
    {outcome : Option β}
    (alike : ∀ c ∈ ['-', '0', '1', '2', '3', '4', '5', '6', '7', '8', '9'], next (some c) = read)
    (seen : GivesAt read (.number numeral :: tokens) outcome) :
    Gives (Reader.peek >>= next) (.number numeral :: tokens) outcome := by
  refine .peek ?_
  have front := Token.front_number numeral
  rw [alike]
  · exact seen
  · split at front
    · rw [front]
      exact List.mem_cons_self
    · exact List.mem_cons_of_mem _ front

/-- A sign is taken. -/
theorem GivesAt.sign {symbol : Char} {next : Unit → Reader β} {outcome : Option β}
    (after : Gives (next ()) tokens outcome) :
    GivesAt (advance >>= next) (.sign symbol :: tokens) outcome := by
  intro later bytes separate faces
  cases faces with
  | cons written spaced =>
    cases written with
    | sign known =>
      rw [bind_of_ok (advance_eq _)]
      exact after separate spaced

/-- Nothing follows a sign. -/
theorem GivesAt.lastSign {symbol : Char} : GivesAt advance [.sign symbol] (some ()) := by
  have taken : GivesAt (advance >>= fun _ => Pure.pure ()) [.sign symbol] (some ()) :=
    .sign (.pure ())
  exact taken

/-- What reads the rest of a string, however it is spelled, reads it after its opening quotation mark. -/
theorem GivesAt.quoted {text : String} {read : Reader α} {a : α} {next : α → Reader β}
    {outcome : Option β}
    (taken : ∀ {body}, Spells text.toList body → ∀ rest, read (body ++ 0x22 :: rest) = .ok (a, rest))
    (after : Gives (next a) tokens outcome) :
    GivesAt (advance >>= fun _ => read >>= next) (.string text :: tokens) outcome := by
  intro later bytes separate faces
  cases faces with
  | cons written spaced =>
    cases written with
    | @string text body spelled =>
      rename_i rest
      have closed : (0x22 :: body ++ [0x22] ++ rest).tail = body ++ 0x22 :: rest := by simp
      rw [bind_of_ok (advance_eq _), closed, bind_of_ok (taken spelled rest)]
      exact after separate spaced

/-- A string is taken after its opening quotation mark. -/
theorem GivesAt.string {text : String} {next : String → Reader β} {outcome : Option β}
    (after : Gives (next text) tokens outcome) :
    GivesAt (advance >>= fun _ => Reader.string >>= next) (.string text :: tokens) outcome :=
  .quoted string_of_spells after

/-- The letters of a word stand there. -/
theorem word_append {letters : List Char}
    (ascii : ∀ letter ∈ letters, Char.ofUInt8 letter.toUInt8 = letter) (rest : Bytes) :
    word letters (letters.map Char.toUInt8 ++ rest) = .ok ((), rest) := by
  induction letters with
  | nil => rfl
  | cons letter letters ih =>
    have others := ih fun letter among => ascii letter (List.mem_cons_of_mem _ among)
    rw [word, bind_of_ok (front_eq _)]
    change (advance >>= fun _ => if Char.ofUInt8 letter.toUInt8 = letter then word letters
      else malformed .expectedWord) (letter.toUInt8 :: (letters.map Char.toUInt8 ++ rest)) = _
    rw [bind_of_ok (advance_eq _), if_pos (ascii letter List.mem_cons_self)]
    exact others

/-- A word is taken after its first letter. -/
theorem GivesAt.word {letter : Char} {letters : List Char} {next : Unit → Reader β}
    {outcome : Option β} (after : Gives (next ()) tokens outcome) :
    GivesAt (advance >>= fun _ => Reader.word letters >>= next) (.word (letter :: letters) :: tokens)
      outcome := by
  intro later bytes separate faces
  cases faces with
  | cons written spaced =>
    cases written with
    | word known =>
      have ascii : ∀ other ∈ letters, Char.ofUInt8 other.toUInt8 = other := by
        simp only [List.mem_cons, List.cons.injEq, List.not_mem_nil, or_false] at known
        intro other among
        rcases known with ⟨-, rfl⟩ | ⟨-, rfl⟩ | ⟨-, rfl⟩ <;> fin_cases among <;> rfl
      rw [bind_of_ok (advance_eq _), List.map_cons, List.cons_append, List.tail_cons,
        bind_of_ok (word_append ascii _)]
      exact after separate spaced

/-- The colon after a key. -/
theorem Gives.colon {next : Unit → Reader β} {outcome : Option β}
    (after : Gives (next ()) tokens outcome) :
    Gives (Reader.colon >>= next) (.sign ':' :: tokens) outcome := by
  unfold Reader.colon
  rw [bind_assoc]
  exact .peek (.sign after)

end Reader

end Spdz.Config
