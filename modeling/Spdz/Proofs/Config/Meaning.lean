import Spdz.Proofs.Config.Containers
import Spdz.Proofs.Config.Skipping

/-!
# What a value says

A configuration text is read in one pass over its bytes.  Here the same is said of the value that the
text writes: for each part of a configuration there is a function from values, by recursion on the
value, and the reader of the part results in what the function says.

* `Json.natural?`, `Json.strategy?`, `Member.read?`, `Json.config?` — what a value says, none if it says
  nothing.
* `natural_gives`, `strategy_gives`, `member_gives`, **`config_gives`** — each reader makes of a value
  what the value says.
* **`ofText_of_eq_some`**, **`ofText_of_eq_none`** — so the outcome for a text is fixed by the value that
  it writes.
-/

namespace Spdz.Config

/-! ## Numbers -/

namespace Json

/-- The whole number below the limit that the value is. -/
def natural? (limit : Nat) : Json → Option Nat
  | number numeral =>
    if numeral.negative = false ∧ numeral.isPlain ∧ numeral.whole < limit then some numeral.whole
    else none
  | _ => none

/-- The same, or null for none. -/
def optionalNatural? (limit : Nat) : Json → Option (Option Nat)
  | null => some none
  | value => (value.natural? limit).map some

/-- What is not null is a number or nothing. -/
theorem optionalNatural?_of_ne {limit : Nat} {value : Json} (other : value ≠ .null) :
    value.optionalNatural? limit = (value.natural? limit).map some := by
  cases value with
  | null => exact absurd rfl other
  | _ => rfl

/-- Only null begins with its first letter. -/
theorem front_ne_of_ne_null {value : Json} (other : value ≠ .null) :
    ∃ token more, value.tokens = token :: more ∧ token.front ≠ 'n' := by
  cases value with
  | null => exact absurd rfl other
  | boolean value => cases value <;> exact ⟨_, _, by rw [tokens], by decide⟩
  | number numeral =>
    have front := Token.front_number numeral
    refine ⟨.number numeral, [], by rw [tokens], fun same => ?_⟩
    rw [same] at front
    split at front <;> exact absurd front (by decide)
  | string text => exact ⟨.string text, _, by rw [tokens], by simp [Token.front]⟩
  | list elements => exact ⟨_, _, by rw [tokens], by decide⟩
  | object entries => exact ⟨_, _, by rw [tokens], by decide⟩

/-- The seed of the simulated strategy that the value is. -/
def seed? (value : Json) : Option UInt8 := (value.natural? UInt8.size).map UInt8.ofNat

end Json

namespace Reader

variable {α β : Type} {tokens : List Token}

/-- A number that is not wanted is refused. -/
theorem rejectNumber_never (number : Number) (expected : Expected) :
    (rejectNumber number expected : Reader α).Yields fun _ => False := by
  unfold rejectNumber
  split <;> exact .fault _

/-- What is not wanted is refused, however the text goes on. -/
theorem reject_never (expected : Expected) : (reject expected : Reader α).Yields fun _ => False := by
  unfold reject
  refine .bind fun found => ?_
  split
  · exact .bind fun _ => .bind fun _ => .fault _
  · exact .bind fun _ => .bind fun _ => .fault _
  · exact .bind fun _ => .bind fun _ => .fault _
  · exact .bind fun _ => .bind fun _ => .fault _
  · exact .fault _
  · exact .fault _
  · exact .bind fun _ => .bind fun number => rejectNumber_never number expected
  · split
    · exact .bind fun number => rejectNumber_never number expected
    · exact .fault _
  · exact .fault _

/-- A number that is no natural one is not accepted. -/
theorem accept_never {number : Number} (unnatural : ¬number.IsNatural) (expected : Expected)
    (limit : Nat) : (natural.accept expected limit number).Yields fun _ => False := by
  cases number with
  | decimal value => exact .fault _
  | whole value =>
    rw [natural.accept, if_neg fun range => unnatural range.1]
    exact .fault _

/-- A number is accepted if it is a natural one below the limit. -/
theorem acceptNumber_ends (expected : Expected) {limit : Nat} (fits : limit ≤ UInt64.size)
    {numeral : Numeral} (positive : numeral.negative = false) {later : List Token} {rest : Bytes}
    (spaced : Spaced later rest) (apart : Apart rest) :
    Ends later ((Json.number numeral).natural? limit)
      ((number false >>= fun number => natural.accept expected limit number)
        (numeral.magnitude ++ rest)) := by
  rw [Json.natural?]
  by_cases integral : numeral.isPlain ∧ numeral.whole < UInt64.size
  · have read : number false (numeral.magnitude ++ rest) = .ok (.whole numeral.whole, rest) := by
      rw [number_of_lt false integral.1 integral.2 apart]
      rfl
    rw [bind_of_ok read, natural.accept]
    by_cases small : numeral.whole < limit
    · rw [if_pos ⟨positive, integral.1, small⟩, if_pos ⟨by omega, by omega⟩]
      exact .taken spaced
    · rw [if_neg fun range => small range.2.2, if_neg fun range => small (by omega)]
      exact .refused
  · rw [if_neg fun range => integral ⟨range.2.1, by omega⟩]
    rcases read : number false (numeral.magnitude ++ rest) with fault | ⟨found, after⟩
    · rw [bind_of_error read]
      exact .refused
    · rw [bind_of_ok read]
      exact .of_never (accept_never (number_not_isNatural false integral apart read) expected limit) _ _

/-- **A natural number below the limit is read as it is; all else is refused.** -/
theorem natural_gives (expected : Expected) {limit : Nat} (fits : limit ≤ UInt64.size)
    (value : Json) : Gives (natural expected limit) value.tokens (value.natural? limit) := by
  have refused : ∀ tokens, GivesAt (reject expected : Reader Nat) tokens none := fun _ =>
    (Gives.of_never (reject_never expected)).at
  cases value with
  | null => rw [Json.tokens]; exact .peek (refused _)
  | boolean value => cases value <;> (rw [Json.tokens]; exact .peek (refused _))
  | string text => rw [Json.tokens]; exact .peek (refused _)
  | list elements => rw [Json.tokens]; exact .peek (refused _)
  | object entries => rw [Json.tokens]; exact .peek (refused _)
  | number numeral =>
    rw [Json.tokens]
    refine .peek fun later bytes separate faces => ?_
    obtain ⟨rest, rfl, spaced, apart⟩ := faces.of_number separate
    have front := Token.front_number numeral
    split at front
    case isTrue negative =>
      have nothing : (Json.number numeral).natural? limit = none :=
        if_neg fun range => Bool.noConfusion (range.1.symm.trans negative)
      rw [front, nothing]
      exact .of_never (.bind fun _ => number_true_neverNatural.andThen fun _ unnatural =>
        accept_never unnatural expected limit) _ _
    case isFalse positive =>
      have positive := Bool.eq_false_iff.mpr positive
      have accepted := acceptNumber_ends expected fits positive spaced apart
      rw [Numeral.shown_of_not_negative positive]
      generalize (Token.number numeral).front = c at front
      simp only [List.mem_cons, List.not_mem_nil, or_false] at front
      rcases front with rfl | rfl | rfl | rfl | rfl | rfl | rfl | rfl | rfl | rfl <;> exact accepted

/-- What does not begin like null is read as a number. -/
theorem optionalNatural_of_ne {expected : Expected} {limit : Nat} {c : Char} (other : c ≠ 'n')
    {bytes rest : Bytes} (seen : peek bytes = .ok (some c, rest)) :
    optionalNatural expected limit bytes =
      (natural expected limit >>= fun value => pure (some value)) rest := by
  obtain ⟨shown, same⟩ : ∃ shown, shown = some c := ⟨_, rfl⟩
  rw [optionalNatural, bind_of_ok seen, ← same]
  split
  · exact absurd (Option.some.inj same).symm other
  · rfl

/-- **A natural number below the limit is read as it is, and null as none; all else is refused.** -/
theorem optionalNatural_gives (expected : Expected) {limit : Nat} (fits : limit ≤ UInt64.size)
    (value : Json) :
    Gives (optionalNatural expected limit) value.tokens (value.optionalNatural? limit) := by
  by_cases absent : value = .null
  · rw [absent, Json.tokens]
    exact .peek (.word (.pure none))
  · obtain ⟨token, more, same, other⟩ := value.front_ne_of_ne_null absent
    have number := (natural_gives expected fits value).returning some
    rw [Json.optionalNatural?_of_ne absent]
    rw [same] at number ⊢
    intro later bytes separate spaced
    obtain ⟨rest, seen, faces⟩ := peek_of_spaced_cons spaced
    rw [optionalNatural_of_ne other seen]
    exact number separate faces.spaced

/-- A seed is a natural number of 8 bits. -/
theorem seed_gives (value : Json) : Gives seed value.tokens value.seed? :=
  (natural_gives .seed (by decide) value).returning UInt8.ofNat

end Reader

/-! ## The preprocessing strategy -/

namespace Json

/-- What is known of the seed after a member of the simulated strategy. -/
def simulatedEntry? (known : Option UInt8) (entry : String × Json) : Option (Option UInt8) :=
  if entry.1 = "seed" then
    if known.isSome then none else entry.2.seed?.map some
  else some known

/-- The simulated strategy that the value is the content of. -/
def simulated? : Json → Option Strategy
  | list [value] => value.seed?.map .simulated
  | object entries => (entries.foldlM simulatedEntry? none).bind (·.map .simulated)
  | _ => none

/-- The external strategy has no content. -/
def external? : Json → Option Strategy
  | null => some .external
  | _ => none

/-- The strategy with the given name and content. -/
def chosen? (name : String) (content : Json) : Option Strategy :=
  if name = "fake" then content.simulated?
  else if name = "external" then content.external?
  else none

/-- The strategy that the value is. -/
def strategy? : Json → Option Strategy
  | string name => if name = "external" then some .external else none
  | object [(name, content)] => content.chosen? name
  | _ => none

end Json

namespace Reader

variable {α β : Type} {tokens : List Token}

/-- One seed is read, and whatever else is there is skipped. -/
theorem simulatedMember_gives (key : String) (value : Json) (known : Option UInt8) :
    Gives (simulatedMember key known) (.sign ':' :: value.tokens)
      (Json.simulatedEntry? known (key, value)) := by
  unfold simulatedMember Json.simulatedEntry?
  dsimp only
  split
  · split
    · exact fun _ _ _ _ => .refused
    · exact .colon ((seed_gives value).returning some)
  · exact .colon ((skip_gives value).returning fun _ => known)

/-- **The content of the simulated strategy is a seed**, in a list or as a member of an object. -/
theorem simulated_gives (value : Json) : Gives simulated value.tokens value.simulated? := by
  have refused : ∀ tokens, GivesAt (reject .simulation : Reader Strategy) tokens none := fun _ =>
    (Gives.of_never (reject_never .simulation)).at
  cases value with
  | null => rw [Json.tokens]; exact .peek (refused _)
  | boolean value => cases value <;> (rw [Json.tokens]; exact .peek (refused _))
  | string text => rw [Json.tokens]; exact .peek (refused _)
  | number numeral =>
    rw [Json.tokens]
    exact .peekNumber (by intro c among; fin_cases among <;> rfl) (refused _)
  | list elements =>
    rw [Json.tokens]
    refine .peek (.sign ?_)
    cases elements with
    | nil => exact hasElement_nil (.fault _)
    | cons element later =>
      rw [Json.elementTokens]
      refine hasElement_cons element ?_
      have close : ∀ value, Gives (endList >>= fun _ => pure (Strategy.simulated value))
          (Json.elementTokens false later) (if later.isEmpty then some (.simulated value) else none) := by
        intro value
        have ended := (endList_gives false later).returning fun _ => Strategy.simulated value
        cases later <;> exact ended
      have only : (Json.list (element :: later)).simulated? = element.seed?.bind fun value =>
          if later.isEmpty then some (.simulated value) else none := by
        cases later with
        | nil => exact Option.map_eq_bind
        | cons second more => exact (Option.bind_fun_none _).symm
      rw [only]
      exact (seed_gives element).bind (Json.separate_elementTokens later) fun value _ => close value
  | object entries =>
    have known : GivesAt (object simulatedMember none) (Json.object entries).tokens
        (entries.foldlM Json.simulatedEntry? none) := object_gives simulatedMember_gives entries none
    rw [Json.tokens] at known ⊢
    refine .peek ?_
    rw [← List.append_nil (.sign '\x7b' :: Json.entryTokens true entries)]
    refine known.bind separate_nil fun value _ => ?_
    cases value with
    | none => exact .fault _
    | some value => exact .pure _

/-- No other value is the content of the external strategy. -/
theorem external_gives (value : Json) : Gives external value.tokens value.external? := by
  have refused : ∀ tokens, GivesAt (reject .nothing : Reader Strategy) tokens none := fun _ =>
    (Gives.of_never (reject_never .nothing)).at
  cases value with
  | null => rw [Json.tokens]; exact .peek (.word (.pure _))
  | boolean value => cases value <;> (rw [Json.tokens]; exact .peek (refused _))
  | string text => rw [Json.tokens]; exact .peek (refused _)
  | number numeral =>
    rw [Json.tokens]
    exact .peekNumber (by intro c among; fin_cases among <;> rfl) (refused _)
  | list elements => rw [Json.tokens]; exact .peek (refused _)
  | object entries => rw [Json.tokens]; exact .peek (refused _)

/-- The name of a strategy is a string. -/
theorem strategyKey_string {name : String} {next : String → Reader β} {outcome : Option β}
    (after : Gives (next name) tokens outcome) :
    Gives (strategyKey >>= next) (.string name :: tokens) outcome := by
  unfold strategyKey
  rw [bind_assoc]
  refine .peek ?_
  change GivesAt ((advance >>= fun _ => string) >>= next) _ _
  rw [bind_assoc]
  exact .string after

/-- A bare name is that of the external strategy. -/
theorem strategy_string (name : String) :
    Gives strategy (Json.string name).tokens (Json.string name).strategy? := by
  rw [Json.tokens, Json.strategy?]
  refine .peek (.string ?_)
  split
  · exact .fault _
  · exact .pure _
  · rename_i other
    rw [if_neg other]
    exact .fault _

/-- The end of the object around a strategy. -/
def closeStrategy (chosen : Strategy) : Reader Strategy := do
  match ← peek with
  | none => truncated .object
  | some '\x7d' =>
    advance
    return chosen
  | some _ => malformed .expectedValue

/-- Nothing else is in the object around a strategy. -/
theorem closeStrategy_gives (chosen : Strategy) (entries : List (String × Json)) :
    Gives (closeStrategy chosen) (Json.entryTokens false entries)
      (if entries.isEmpty then some chosen else none) := by
  unfold closeStrategy
  cases entries with
  | nil =>
    rw [Json.entryTokens]
    exact .peek (.sign (.pure chosen))
  | cons entry later =>
    rw [Json.entryTokens]
    exact .peek (Gives.fault _).at

/-- An object around a strategy holds its name and its content, and nothing else. -/
theorem strategy_object (entries : List (String × Json)) :
    Gives strategy (Json.object entries).tokens (Json.object entries).strategy? := by
  rw [Json.tokens]
  refine .peek (.sign ?_)
  rcases entries with _ | ⟨⟨name, content⟩, later⟩
  · unfold strategyKey
    rw [Json.entryTokens, bind_assoc]
    exact .peek fun _ _ _ _ => .refused
  · have only : (Json.object ((name, content) :: later)).strategy? =
        (content.chosen? name).bind fun chosen => if later.isEmpty then some chosen else none := by
      cases later with
      | nil => exact (Option.bind_fun_some _).symm
      | cons second more => exact (Option.bind_fun_none _).symm
    have close := fun chosen (_ : content.chosen? name = some chosen) => closeStrategy_gives chosen later
    rw [Json.entryTokens, only, List.append_assoc]
    refine strategyKey_string ?_
    dsimp only
    unfold Json.chosen? at close ⊢
    split
    · exact .colon ((simulated_gives content).bind (Json.separate_entryTokens later) close)
    · exact .colon ((external_gives content).bind (Json.separate_entryTokens later) close)
    · rename_i noFake noExternal
      rw [if_neg noFake, if_neg noExternal]
      exact fun _ _ _ _ => .refused

/-- **A strategy is a bare name or a name with a content.** -/
theorem strategy_gives (value : Json) : Gives strategy value.tokens value.strategy? := by
  have refused : ∀ tokens, GivesAt (malformed .expectedValue : Reader Strategy) tokens none := fun _ =>
    (Gives.fault _).at
  cases value with
  | null => rw [Json.tokens]; exact .peek (refused _)
  | boolean value => cases value <;> (rw [Json.tokens]; exact .peek (refused _))
  | string text => exact strategy_string text
  | number numeral =>
    rw [Json.tokens]
    exact .peekNumber (by intro c among; fin_cases among <;> rfl) (refused _)
  | list elements => rw [Json.tokens]; exact .peek (refused _)
  | object entries => exact strategy_object entries

end Reader

/-! ## Configurations -/

/-- The configuration with what the value says of the member. -/
def Member.read? (config : Config) (value : Json) : Member → Option Config
  | batchSize => (value.natural? UInt64.size).map fun count => { config with batchSize := count }
  | pipeLength => (value.natural? UInt64.size).map fun count => { config with pipeLength := count }
  | openedThreshold =>
    (value.natural? UInt64.size).map fun count => { config with openedThreshold := count }
  | modulusBits =>
    (value.optionalNatural? UInt32.size).map fun bits => { config with modulusBits := bits }
  | strategy => value.strategy?.map fun strategy => { config with strategy := strategy }

namespace Json

/-- What is known of a configuration after a member of its object form. -/
def configEntry? (state : List Member × Config) (entry : String × Json) :
    Option (List Member × Config) :=
  (Member.ofKey? entry.1).bind fun member =>
    if member ∈ state.1 then none
    else (member.read? state.2 entry.2).map fun config => (member :: state.1, config)

/-- The configuration with what the elements of the list form say of the members in order. -/
def configElements? : List Member → List Json → Config → Option Config
  | _, [], config => some config
  | [], _ :: _, _ => none
  | member :: members, element :: elements, config =>
    (member.read? config element).bind (configElements? members elements)

/-- **The configuration that the value is**, in either form. -/
def config? : Json → Option Config
  | list elements => configElements? Member.all elements {}
  | object entries => (entries.foldlM configEntry? ([], {})).map Prod.snd
  | _ => none

end Json

namespace Reader

/-- A member is read by what its value says. -/
theorem member_gives (config : Config) (member : Member) (value : Json) :
    Gives (member.read config) value.tokens (member.read? config value) := by
  cases member with
  | batchSize => exact (natural_gives .count (Nat.le_refl _) value).returning _
  | pipeLength => exact (natural_gives .count (Nat.le_refl _) value).returning _
  | openedThreshold => exact (natural_gives .count (Nat.le_refl _) value).returning _
  | modulusBits => exact (optionalNatural_gives .bitLength (by decide) value).returning _
  | strategy => exact (strategy_gives value).returning _

/-- A member is read unless its key is unknown or was there before. -/
theorem configMember_gives (key : String) (value : Json) (state : List Member × Config) :
    Gives (configMember key state) (.sign ':' :: value.tokens)
      (Json.configEntry? state (key, value)) := by
  obtain ⟨seen, config⟩ := state
  unfold configMember Json.configEntry?
  dsimp only
  rcases Member.ofKey? key with _ | member
  · exact .fault _
  · rw [Option.bind_some]
    dsimp only
    split
    · exact fun _ _ _ _ => .refused
    · exact .colon ((member_gives config member value).returning _)

/-- The list form, to its end. -/
theorem configElements_gives (members : List Member) :
    ∀ (first : Bool) (elements : List Json) (config : Config),
      Gives (configElements first members config >>= fun config => endList >>= fun _ => pure config)
        (Json.elementTokens first elements) (Json.configElements? members elements config) := by
  induction members with
  | nil =>
    intro first elements config
    have ended := (endList_gives first elements).returning fun _ => config
    cases elements <;> exact ended
  | cons member members ih =>
    intro first elements config
    rw [configElements, bind_assoc]
    cases elements with
    | nil =>
      have ended := (endList_gives first []).returning fun _ => config
      rw [Json.elementTokens] at ended ⊢
      exact hasElement_nil ended
    | cons element elements =>
      rw [Json.elementTokens]
      refine hasElement_cons element ?_
      rw [if_pos rfl, bind_assoc]
      exact (member_gives config member element).bind (Json.separate_elementTokens elements)
        fun next _ => ih false elements next

/-- **A configuration is read in either form.** -/
theorem config_gives (value : Json) : Gives Reader.config value.tokens value.config? := by
  have refused : ∀ tokens, GivesAt (reject .config : Reader Config) tokens none := fun _ =>
    (Gives.of_never (reject_never .config)).at
  cases value with
  | null => rw [Json.tokens]; exact .peek (refused _)
  | boolean value => cases value <;> (rw [Json.tokens]; exact .peek (refused _))
  | string text => rw [Json.tokens]; exact .peek (refused _)
  | number numeral =>
    rw [Json.tokens]
    exact .peekNumber (by intro c among; fin_cases among <;> rfl) (refused _)
  | list elements =>
    rw [Json.tokens]
    exact .peek (.sign (configElements_gives Member.all true elements {}))
  | object entries =>
    have read : GivesAt (object configMember ([], {})) (Json.object entries).tokens
        (entries.foldlM Json.configEntry? ([], {})) := object_gives configMember_gives entries _
    rw [Json.tokens] at read ⊢
    refine .peek ?_
    exact read.returning Prod.snd

/-- A text holds one value and nothing else. -/
theorem document_ends {value : Json} {bytes : Bytes} (spaced : Spaced value.tokens bytes) :
    Ends [] value.config? (document bytes) := by
  have alone : Spaced (value.tokens ++ []) bytes := by rwa [List.append_nil]
  rw [← Option.bind_fun_some value.config?]
  refine (config_gives value separate_nil alone).bind fun config _ rest blanks => ?_
  rw [bind_of_ok (peek_of_spaced_nil blanks)]
  exact .taken (.nil (List.forall_mem_nil _))

end Reader

/-- **A text is read as the value that it writes.** Neither blanks nor the spelling of strings make a
difference. -/
theorem ofText_of_eq_some {value : Json} {text : String} (written : value.IsWrittenAs text)
    {config : Config} (meant : value.config? = some config) : ofText text = .ok config := by
  have ended := Reader.document_ends written
  rw [meant] at ended
  unfold ofText ofBytes
  generalize Reader.document text.toUTF8.toList = outcome at ended
  cases ended
  rfl

/-- **A text is refused if the value that it writes is no configuration.** -/
theorem ofText_of_eq_none {value : Json} {text : String} (written : value.IsWrittenAs text)
    (meant : value.config? = none) : ∃ fault, ofText text = .error (.malformed fault) := by
  have ended := Reader.document_ends written
  rw [meant] at ended
  unfold ofText ofBytes
  generalize Reader.document text.toUTF8.toList = outcome at ended
  cases ended
  exact ⟨_, rfl⟩

end Spdz.Config
