import Spdz.Proofs.Config.Meaning
import Spdz.Proofs.Config.Writing

/-!
# Configurations and their texts

A text may list any members of a configuration, in any order.  It is read back as the configuration on
these members, with the defaults elsewhere.  Every other key, and every number that does not fit, is
refused wherever it stands.

* `Member.entry`, `listing` — a member with the value that a configuration has for it, and the object
  that lists such members.
* `on` — a configuration on some members, and another one elsewhere.
* `listed_of_foldlM` — what is read lists members, and none twice.
* **`ofText_listing`** — the round trip, with what breaks it.
-/

namespace Spdz.Config

/-- The numbers of the configuration fit what reads them. -/
structure Fits (config : Config) : Prop where
  batchSize : config.batchSize < UInt64.size
  pipeLength : config.pipeLength < UInt64.size
  openedThreshold : config.openedThreshold < UInt64.size
  modulusBits : ∀ bits ∈ config.modulusBits, bits < UInt32.size

/-- The configuration on the given members, and another one elsewhere. -/
def on (config : Config) (members : List Member) (elsewhere : Config) : Config where
  batchSize := if .batchSize ∈ members then config.batchSize else elsewhere.batchSize
  pipeLength := if .pipeLength ∈ members then config.pipeLength else elsewhere.pipeLength
  openedThreshold :=
    if .openedThreshold ∈ members then config.openedThreshold else elsewhere.openedThreshold
  modulusBits := if .modulusBits ∈ members then config.modulusBits else elsewhere.modulusBits
  strategy := if .strategy ∈ members then config.strategy else elsewhere.strategy

namespace Member

/-- The value with which an integer is written for the member. -/
def integer (value : Int) : Member → Json
  | strategy => .object [("fake", .object [("seed", .integer value)])]
  | _ => .integer value

/-- The first integer that does not fit the member. -/
def limit : Member → Nat
  | modulusBits => UInt32.size
  | strategy => UInt8.size
  | _ => UInt64.size

/-- The value that the configuration has for the member. -/
def value (config : Config) (member : Member) : Json :=
  match member with
  | batchSize => member.integer config.batchSize
  | pipeLength => member.integer config.pipeLength
  | openedThreshold => member.integer config.openedThreshold
  | modulusBits => config.modulusBits.elim .null fun bits => member.integer bits
  | strategy =>
    match config.strategy with
    | .simulated seed => member.integer seed.toNat
    | .external => .string "external"

/-- The key of the member and the value that the configuration has for it. -/
def entry (config : Config) (member : Member) : String × Json := (member.key, member.value config)

end Member

/-! ## Reading integers -/

/-- An integer is read if it is not negative and below the limit. -/
theorem Json.natural?_integer (limit : Nat) (value : Int) :
    (Json.integer value).natural? limit =
      if 0 ≤ value ∧ value < limit then some value.toNat else none := by
  have plain : (Numeral.ofInt value).isPlain = true := rfl
  by_cases within : 0 ≤ value ∧ value < limit
  · have whole : value.natAbs = value.toNat := by omega
    have positive : (Numeral.ofInt value).negative = false := decide_eq_false (by omega)
    have small : (Numeral.ofInt value).whole < limit := by
      change value.natAbs < limit
      omega
    rw [if_pos within, Json.integer, Json.natural?, if_pos ⟨positive, plain, small⟩]
    exact congrArg some whole
  · rw [if_neg within, Json.integer, Json.natural?, if_neg]
    rintro ⟨positive, -, small⟩
    have negative := of_decide_eq_false positive
    change value.natAbs < limit at small
    omega

/-- A natural number below the limit is read. -/
theorem Json.natural?_integer_of_lt {limit n : Nat} (small : n < limit) :
    (Json.integer n).natural? limit = some n := by
  rw [natural?_integer, if_pos ⟨Int.natCast_nonneg n, by omega⟩, Int.toNat_natCast]

/-- An integer out of range is not read. -/
theorem Json.natural?_integer_of_not {limit : Nat} {value : Int}
    (outside : value < 0 ∨ limit ≤ value) :
    (Json.integer value).natural? limit = none := by
  rw [natural?_integer, if_neg (by omega)]

/-- The simulated strategy with an integer as its seed. -/
theorem Json.strategy?_integer (value : Int) :
    (Member.strategy.integer value).strategy? = (Json.integer value).seed?.map .simulated := by
  rw [Member.integer, strategy?, chosen?, if_pos rfl, simulated?, List.foldlM_cons, simulatedEntry?,
    if_pos rfl, if_neg (by decide)]
  cases (Json.integer value).seed? <;> rfl

namespace Member

/-- An integer that does not fit a member is not read into it. -/
theorem read?_integer (config : Config) (member : Member) {value : Int}
    (outside : value < 0 ∨ member.limit ≤ value) :
    member.read? config (member.integer value) = none := by
  have refused := Json.natural?_integer_of_not outside
  cases member with
  | batchSize | pipeLength | openedThreshold => exact congrArg (Option.map _) refused
  | modulusBits => exact congrArg (Option.map _) (congrArg (Option.map some) refused)
  | strategy =>
    rw [read?, Json.strategy?_integer]
    exact congrArg (Option.map _) (congrArg (Option.map _) (congrArg (Option.map _) refused))

/-- The value that a configuration has for a member is read into any other one. -/
theorem read?_value {config : Config} (fits : config.Fits) (elsewhere : Config) (member : Member) :
    member.read? elsewhere (member.value config) = some (config.on [member] elsewhere) := by
  cases member with
  | batchSize => exact congrArg (Option.map _) (Json.natural?_integer_of_lt fits.batchSize)
  | pipeLength => exact congrArg (Option.map _) (Json.natural?_integer_of_lt fits.pipeLength)
  | openedThreshold =>
    exact congrArg (Option.map _) (Json.natural?_integer_of_lt fits.openedThreshold)
  | modulusBits =>
    have small := fits.modulusBits
    rcases given : config.modulusBits with _ | bits
    · rw [read?, value, given, on, given]
      rfl
    · have read := Json.natural?_integer_of_lt (small bits given)
      rw [read?, value, given, on, given]
      exact congrArg (Option.map _) (congrArg (Option.map some) read)
  | strategy =>
    rcases given : config.strategy with seed | _
    · have read := Json.natural?_integer_of_lt seed.toNat_lt
      rw [read?, value, given, on, given]
      dsimp only
      rw [Json.strategy?_integer, Json.seed?, read, Option.map_some, Option.map_some,
        UInt8.ofNat_toNat]
      rfl
    · rw [read?, value, given, on, given]
      rfl

/-- A member is found by its key. -/
theorem ofKey?_key (member : Member) : ofKey? member.key = some member := by
  cases member <;> decide

/-- Different members have different keys. -/
theorem key_injective : Function.Injective key := by
  intro a b same
  have found := ofKey?_key a
  rw [same, ofKey?_key] at found
  exact (Option.some.inj found).symm

/-- What is found by a key has that key. -/
theorem ofKey?_eq_some {key : String} {member : Member} (found : ofKey? key = some member) :
    member.key = key := by
  simpa using List.find?_some found

end Member

/-! ## Objects that list members -/

/-- First the one member and then the others. -/
theorem on_on (config elsewhere : Config) (member : Member) (members : List Member) :
    config.on members (config.on [member] elsewhere) = config.on (member :: members) elsewhere := by
  have both : ∀ {α : Type} (other : Member) (inside outside : α),
      (if other ∈ members then inside else if other ∈ [member] then inside else outside) =
        if other ∈ member :: members then inside else outside := by
    intro α other inside outside
    by_cases late : other ∈ members <;> by_cases early : other = member <;> simp [late, early]
  simp only [on, both]

/-- **An object that lists members of a configuration is read as it on these members.** -/
theorem foldlM_entries {config : Config} (fits : config.Fits) {members : List Member}
    (once : members.Nodup) (seen : List Member) (elsewhere : Config)
    (unseen : ∀ member ∈ members, member ∉ seen) :
    ∃ seen', (members.map (Member.entry config)).foldlM Json.configEntry? (seen, elsewhere) =
      some (seen', config.on members elsewhere) := by
  induction members generalizing seen elsewhere with
  | nil => exact ⟨seen, rfl⟩
  | cons member members ih =>
    obtain ⟨notLater, onceLater⟩ := List.nodup_cons.mp once
    have first : Json.configEntry? (seen, elsewhere) (member.entry config) =
        some (member :: seen, config.on [member] elsewhere) := by
      rw [Json.configEntry?, Member.entry, Member.ofKey?_key, Option.bind_some,
        if_neg (unseen member List.mem_cons_self), Member.read?_value fits]
      rfl
    have unseenLater : ∀ other ∈ members, other ∉ member :: seen := by
      intro other among
      rw [List.mem_cons, not_or]
      exact ⟨fun same => notLater (same ▸ among), unseen other (List.mem_cons_of_mem _ among)⟩
    obtain ⟨seen', later⟩ := ih onceLater (member :: seen) (config.on [member] elsewhere) unseenLater
    refine ⟨seen', ?_⟩
    rw [List.map_cons, List.foldlM_cons, first]
    rw [on_on] at later
    exact later

/-- **Objects that are read list members, and none twice.** -/
theorem listed_of_foldlM {entries : List (String × Json)} {seen seen' : List Member}
    {config config' : Config}
    (read : entries.foldlM Json.configEntry? (seen, config) = some (seen', config')) :
    ∃ members : List Member, members.Nodup ∧ (∀ member ∈ members, member ∉ seen) ∧
      entries.map Prod.fst = members.map Member.key := by
  induction entries generalizing seen config with
  | nil => exact ⟨[], List.nodup_nil, List.forall_mem_nil _, rfl⟩
  | cons entry entries ih =>
    rw [List.foldlM_cons] at read
    obtain ⟨⟨next, between⟩, first, later⟩ := Option.bind_eq_some_iff.mp read
    obtain ⟨member, found, fresh⟩ := Option.bind_eq_some_iff.mp first
    split at fresh
    · exact nomatch fresh
    · rename_i unseen
      obtain ⟨_, -, same⟩ := Option.map_eq_some_iff.mp fresh
      obtain ⟨rfl, -⟩ := Prod.mk.inj same
      obtain ⟨members, once, others, keys⟩ := ih later
      refine ⟨member :: members, List.nodup_cons.mpr ⟨fun among => ?_, once⟩, ?_, ?_⟩
      · exact others member among List.mem_cons_self
      · exact List.forall_mem_cons.mpr ⟨unseen, fun other among before =>
          others other among (List.mem_cons_of_mem _ before)⟩
      · rw [List.map_cons, List.map_cons, keys, Member.ofKey?_eq_some found]

/-- An object with a member that is never read is not read. -/
theorem foldlM_eq_none {entries : List (String × Json)} {entry : String × Json}
    (present : entry ∈ entries) (unread : ∀ state, Json.configEntry? state entry = none)
    (state : List Member × Config) : entries.foldlM Json.configEntry? state = none := by
  induction entries generalizing state with
  | nil => exact nomatch present
  | cons first entries ih =>
    rw [List.foldlM_cons]
    rcases List.mem_cons.mp present with rfl | later
    · rw [unread]
      rfl
    · rcases Json.configEntry? state first with _ | next
      · rfl
      · exact ih later next

/-- The object that lists members of a configuration. -/
def listing (config : Config) (members : List Member) : Json :=
  .object (members.map (Member.entry config))

/-- **A listing says what the configuration is on the listed members.** -/
theorem config?_listing {config : Config} (fits : config.Fits) {members : List Member}
    (once : members.Nodup) : (config.listing members).config? = some (config.on members {}) := by
  obtain ⟨seen, read⟩ := foldlM_entries fits once [] {} fun _ _ => List.not_mem_nil
  rw [listing, Json.config?, read]
  rfl

/-- **A key that names no member, or one for the second time, may stand nowhere.** -/
theorem config?_eq_none_of_key {before after : List (String × Json)} {members : List Member}
    {key : String} (value : Json)
    (keys : (before ++ after).map Prod.fst = members.map Member.key)
    (wrong : (∀ member : Member, key ≠ member.key) ∨ ∃ member ∈ members, key = member.key) :
    (Json.object (before ++ (key, value) :: after)).config? = none := by
  rw [Json.config?, Option.map_eq_none_iff]
  by_contra accepted
  obtain ⟨_, read⟩ := Option.ne_none_iff_exists'.mp accepted
  obtain ⟨listed, once, -, names⟩ := listed_of_foldlM read
  have distinct := once.map Member.key_injective
  rw [← names, List.map_append, List.map_cons, List.nodup_middle, ← List.map_append, keys] at distinct
  rcases wrong with unknown | ⟨member, among, rfl⟩
  · have present : key ∈ listed.map Member.key := by
      rw [← names]
      exact List.mem_map_of_mem (List.mem_append_right before List.mem_cons_self)
    obtain ⟨member, -, same⟩ := List.mem_map.mp present
    exact unknown member same.symm
  · exact (List.nodup_cons.mp distinct).1 (List.mem_map_of_mem among)

/-- **No integer that does not fit its member may stand anywhere.** -/
theorem config?_eq_none_of_integer (before after : List (String × Json)) (member : Member)
    {value : Int} (outside : value < 0 ∨ member.limit ≤ value) :
    (Json.object (before ++ (member.key, member.integer value) :: after)).config? = none := by
  have unread : ∀ state, Json.configEntry? state (member.key, member.integer value) = none := by
    intro state
    rw [Json.configEntry?, Member.ofKey?_key, Option.bind_some, Member.read?_integer _ _ outside]
    exact ite_self none
  rw [Json.config?, foldlM_eq_none (List.mem_append_right before List.mem_cons_self) unread]
  rfl

/-- **Round trip.** A configuration is read back on the members that a text lists, in any order and
layout, and has its defaults elsewhere.  With a key that names no member, a member listed twice, or an
integer that does not fit its member, the text is refused. -/
theorem ofText_listing {config : Config} (fits : config.Fits) {members : List Member}
    (once : members.Nodup) :
    (∀ text : String, (config.listing members).IsWrittenAs text →
      ofText text = .ok (config.on members {})) ∧
    (∀ (before after : List (String × Json)) (key : String) (value : Json) (text : String),
      members.map (Member.entry config) = before ++ after →
      ((∀ member : Member, key ≠ member.key) ∨ ∃ member ∈ members, key = member.key) →
      (Json.object (before ++ (key, value) :: after)).IsWrittenAs text →
      ∃ fault, ofText text = .error (.malformed fault)) ∧
    (∀ (before : List Member) (member : Member) (after : List Member) (value : Int) (text : String),
      members = before ++ member :: after →
      (value < 0 ∨ member.limit ≤ value) →
      (Json.object (before.map (Member.entry config) ++ (member.key, member.integer value) ::
        after.map (Member.entry config))).IsWrittenAs text →
      ∃ fault, ofText text = .error (.malformed fault)) := by
  refine ⟨fun text written => ?_, fun before after key value text split wrong written => ?_,
    fun before member after value text split outside written => ?_⟩
  · exact ofText_of_eq_some written (config?_listing fits once)
  · refine ofText_of_eq_none written (config?_eq_none_of_key value ?_ wrong)
    rw [← split, List.map_map]
    rfl
  · exact ofText_of_eq_none written (config?_eq_none_of_integer _ _ member outside)

/-- A configuration listed in another order than it is declared in, then with a misspelt key, and then
with a seed that is too large. -/
theorem ofText_listing_shuffled :
    ofText ("\x7b\"preprocessing\":\x7b\"fake\":\x7b\"seed\":9\x7d\x7d,\"batch_size\":4," ++
        "\"modulus_bit_length\":61\x7d") =
      .ok { batchSize := 4, modulusBits := some 61, strategy := .simulated 9 } ∧
    (∃ fault, ofText ("\x7b\"preprocessing\":\x7b\"fake\":\x7b\"seed\":9\x7d\x7d,\"batchsize\":8," ++
        "\"batch_size\":4,\"modulus_bit_length\":61\x7d") = .error (.malformed fault)) ∧
    (∃ fault, ofText ("\x7b\"preprocessing\":\x7b\"fake\":\x7b\"seed\":256\x7d\x7d," ++
        "\"batch_size\":4,\"modulus_bit_length\":61\x7d") = .error (.malformed fault)) := by
  have fits : Fits { batchSize := 4, modulusBits := some 61, strategy := .simulated 9 } :=
    ⟨by decide, by decide, by decide, by decide⟩
  have once : [Member.strategy, .batchSize, .modulusBits].Nodup := by decide
  obtain ⟨listed, misspelt, tooLarge⟩ := ofText_listing fits once
  have written := fun value => Json.isWrittenAs_text [] (List.forall_mem_nil _) value
  refine ⟨listed _ (written _), ?_, ?_⟩
  · have unknown : ∀ member : Member, "batchsize" ≠ member.key := by
      intro member
      cases member <;> decide
    exact misspelt [_] [_, _] "batchsize" (.integer 8) _ rfl (.inl unknown) (written _)
  · exact tooLarge [] .strategy [.batchSize, .modulusBits] 256 _ rfl (.inr (by decide)) (written _)

end Spdz.Config
