import Mathlib.Logic.Relation
import Spdz.Proofs.Network.Joint

/-!
# Networks with corrupt parties

Some parties may be corrupt, and then nothing is known of what they do: they put anything into their
channels, take anything out, and stop anywhere.  An honest party does what its behaviour says, only its
calls may fail at any time.  All that is certain are the channels between two honest parties: they
deliver in order, and nobody else sends on them.

So what two honest parties hear from each other depends on how well they keep to a script.  A script is a
list of lines, one for each message, which is known beforehand: a label that tells which call sends it, and
what fits as its contents after the messages before it.

* `Net.Hostile` — a step of a network in which some parties are honest.
* `Line`, `Talk` — a line of a script, and how far two parties have come with theirs.
* `Labelled.Keeps` — a behaviour keeps to the script with one of its peers: it says nothing but the next
  line, it listens only where the next line is due, and it says nothing after a call has failed.
* **`Net.Hostile.mannerly_run`** — if all honest parties keep to their scripts, every message that one of them
  takes from another is the line that it is waiting for.
-/

namespace Spdz

variable {n : Nat} {Λ α β : Type}

/-! ## Steps -/

/-- A step of a network in which some parties are honest. -/
inductive Net.Hostile (honest : Fin n → Prop) : Net n Λ α → Net n Λ α → Prop where
  /-- An honest party does what it may do. -/
  | act {net : Net n Λ α} (party : Fin n) (self : honest party) {effect : Effect Λ}
      {process : Process Λ α} {channels : Channels n Λ}
      (acts : (net.process party).Acts (peersOf (seat party) n) effect process)
      (carries : net.channels.Carries party effect channels) :
    Hostile honest net ⟨Function.update net.process party process, channels⟩
  /-- The present call of an honest party fails, whatever it has sent and taken by then. -/
  | fail {net : Net n Λ α} (party : Fin n) (self : honest party) {label : Λ} {made : Call}
      {next : Except TransportError made.Reply → Labelled Λ α} {served : PartyId → Bool}
      {held : PartyId → Option Bytes} (cause : TransportError)
      (calls : net.process party = ⟨.call label made next, served, held⟩) :
    Hostile honest net
      ⟨Function.update net.process party { rest := next (.error cause) }, net.channels⟩
  /-- The channels that do not join two honest parties change in any way. -/
  | corrupt {net : Net n Λ α} {channels : Channels n Λ}
      (kept : ∀ a b, honest a → honest b → channels a b = net.channels a b) :
    Hostile honest net ⟨net.process, channels⟩

/-- What was ever sent on a channel, the oldest first. -/
def Link.posted (link : Link Λ) : List (Letter Λ) := link.taken.map (·.2) ++ link.waiting

namespace Channels.Carries

variable {self a b : Fin n} {effect : Effect Λ} {channels after : Channels n Λ}

/-- Only the party itself sends on its channels. -/
theorem posted_of_ne (carries : Channels.Carries self effect channels after) (other : a ≠ self) :
    (after a b).posted = (channels a b).posted := by
  cases carries with
  | post peer letter => rw [Channels.set_of_ne channels _ fun h => other h.1]
  | @pick _ peer label letter later waits =>
      by_cases here : a = peer ∧ b = self
      · obtain ⟨rfl, rfl⟩ := here
        simp [Link.posted, waits]
      · rw [Channels.set_of_ne channels _ here]
  | proceed => rfl

/-- Only the party itself takes from its channels. -/
theorem taken_of_ne (carries : Channels.Carries self effect channels after) (other : b ≠ self) :
    (after a b).taken = (channels a b).taken := by
  cases carries with
  | post peer letter =>
      by_cases here : a = self ∧ b = peer
      · obtain ⟨rfl, rfl⟩ := here
        rw [Channels.set_self]
      · rw [Channels.set_of_ne channels _ here]
  | pick peer label waits => rw [Channels.set_of_ne channels _ fun h => other h.2]
  | proceed => rfl

end Channels.Carries

/-! ## Scripts -/

/-- A message that is due. -/
structure Line (Λ : Type) where
  /-- The label of the call that sends it. -/
  label : Λ
  /-- What fits as its contents, after the messages that were sent before. -/
  Fits : List (Letter Λ) → Bytes → Prop

/-- The letters are what was said for the lines. -/
structure Told (lines : List (Line Λ)) (letters : List (Letter Λ)) : Prop where
  length : lines.length = letters.length
  each : ∀ (k : Nat) (line : Line Λ) (letter : Letter Λ), lines[k]? = some line →
    letters[k]? = some letter → line.label = letter.label ∧ line.Fits (letters.take k) letter.bytes

theorem told_nil : Told ([] : List (Line Λ)) [] := ⟨rfl, by simp⟩

namespace Told

variable {lines : List (Line Λ)} {letters : List (Letter Λ)} {line : Line Λ} {letter : Letter Λ}

/-- One more letter. -/
theorem snoc (told : Told lines letters) (label : line.label = letter.label)
    (fits : line.Fits letters letter.bytes) : Told (lines ++ [line]) (letters ++ [letter]) := by
  refine ⟨by simp [told.length], fun k line' letter' here there => ?_⟩
  obtain earlier | last := Nat.lt_or_ge k letters.length
  · rw [List.getElem?_append_left (told.length ▸ earlier)] at here
    rw [List.getElem?_append_left earlier] at there
    rw [List.take_append_of_le_length (Nat.le_of_lt earlier)]
    exact told.each k line' letter' here there
  · have bound : k < letters.length + 1 := by simpa using (List.getElem?_eq_some_iff.mp there).1
    obtain rfl : k = letters.length := by omega
    rw [List.getElem?_concat_length] at there
    rw [← told.length, List.getElem?_concat_length] at here
    cases here
    cases there
    rw [List.take_left' rfl]
    exact ⟨label, fits⟩

/-- The letter at the place of a line. -/
theorem at_line {script past later : List (Line Λ)} {before rest : List (Letter Λ)}
    (told : Told lines (before ++ letter :: rest)) (within : lines <+: script)
    (due : past ++ line :: later <+: script) (length : past.length = before.length) :
    line.label = letter.label ∧ line.Fits before letter.bytes := by
  have here : lines[before.length]? = some line := by
    have reached : before.length < lines.length := by
      rw [told.length, List.length_append, List.length_cons]
      omega
    have next : before.length < (past ++ line :: later).length := by
      rw [List.length_append, List.length_cons]
      omega
    rw [List.getElem?_eq_getElem reached, within.getElem reached, ← due.getElem next]
    simp [← length]
  have fitting := told.each before.length line letter here (by simp)
  rwa [List.take_left' rfl] at fitting

theorem map_label (told : Told lines letters) : letters.map (·.label) = lines.map (·.label) := by
  refine List.ext_getElem? fun k => ?_
  rw [List.getElem?_map, List.getElem?_map]
  cases line : lines[k]? with
  | none =>
      rw [List.getElem?_eq_none_iff, told.length, ← List.getElem?_eq_none_iff] at line
      rw [line]
      rfl
  | some l =>
      have reached : k < letters.length := told.length ▸ (List.getElem?_eq_some_iff.mp line).1
      have letter := List.getElem?_eq_getElem reached
      rw [letter, Option.map_some, Option.map_some, (told.each k l _ line letter).1]

end Told

/-- How far a party has come in its talk with one of its peers. -/
structure Talk (Λ : Type) where
  /-- The lines that are left to this party. -/
  outs : List (Line Λ)
  /-- The lines that are left to the peer. -/
  ins : List (Line Λ)
  /-- What this party has said. -/
  said : List (Letter Λ) := []
  /-- What it has heard. -/
  heard : List (Letter Λ) := []

namespace Talk

/-- Nothing more is to be said. -/
def IsOver (t : Talk Λ) : Prop := t.outs = [] ∧ t.ins = []

/-- This party says a line. -/
def say (t : Talk Λ) (letter : Letter Λ) : Talk Λ :=
  { t with outs := t.outs.tail, said := t.said ++ [letter] }

/-- It hears one. -/
def hear (t : Talk Λ) (letter : Letter Λ) : Talk Λ :=
  { t with ins := t.ins.tail, heard := t.heard ++ [letter] }

end Talk

/-! ## Behaviours that keep to a script -/

section Keeps

variable (follows : Λ → Λ → Prop) (peers : List PartyId) (peer : PartyId)

/-- What a party may say is the next line, and nothing that does not fit. -/
def Talk.MaySay (t : Talk Λ) (letter : Letter Λ) : Prop :=
  ∃ line ∈ t.outs.head?, line.label = letter.label ∧ line.Fits t.said letter.bytes

/-- What a party hears is the next line, as it fits, and none that it has heard already. -/
def Talk.MayHear (t : Talk Λ) (line : Line Λ) (bytes : Bytes) : Prop :=
  line.Fits t.heard bytes ∧ (t.heard.map (·.label) ++ [line.label]).Nodup

/-- **Keeps.**  The behaviour keeps to the script with one of its peers.  When it sends to the peer, that
is its next line.  When it waits for the peer, a line of the peer is due, and it goes on for whatever fits.
After a call that has failed, the talk is over.  In the end the result is as it should be. -/
def Labelled.Keeps (Post : α → Talk Λ → Prop) : Labelled Λ α → Talk Λ → Prop
  | .done result, t => Post result t
  | .call label made next, t =>
    (∀ cause t', t'.IsOver → Keeps Post (next (.error cause)) t') ∧
    if peer ∈ made.recipients peers then
      t.MaySay ⟨label, made.payload⟩ ∧
        ∀ got, Keeps Post (next (made.reply peers got)) (t.say ⟨label, made.payload⟩)
    else if peer ∈ made.sources peers then
      ∃ line ∈ t.ins.head?, follows label line.label ∧ ∀ got, t.MayHear line (got peer) →
        Keeps Post (next (made.reply peers got)) (t.hear ⟨line.label, got peer⟩)
    else ∀ got, Keeps Post (next (made.reply peers got)) t

/-- The same in the middle of a call. -/
def Process.Keeps (Post : α → Talk Λ → Prop) (process : Process Λ α) (t : Talk Λ) : Prop :=
  match process with
  | ⟨.done result, _, _⟩ => Post result t
  | ⟨.call label made next, served, held⟩ =>
    (∀ cause t', t'.IsOver → (next (.error cause)).Keeps follows peers peer Post t') ∧
    if peer ∈ made.recipients peers then
      if served peer then
        ∀ got, (next (made.reply peers got)).Keeps follows peers peer Post t
      else t.MaySay ⟨label, made.payload⟩ ∧ ∀ got,
        (next (made.reply peers got)).Keeps follows peers peer Post (t.say ⟨label, made.payload⟩)
    else if peer ∈ made.sources peers then
      match held peer with
      | some bytes => ∀ got, got peer = bytes →
          (next (made.reply peers got)).Keeps follows peers peer Post t
      | none => ∃ line ∈ t.ins.head?, follows label line.label ∧ ∀ got, t.MayHear line (got peer) →
          (next (made.reply peers got)).Keeps follows peers peer Post (t.hear ⟨line.label, got peer⟩)
    else ∀ got, (next (made.reply peers got)).Keeps follows peers peer Post t

variable {follows peers peer} {Post : α → Talk Λ → Prop} {t : Talk Λ}

namespace Labelled.Keeps

/-- One behaviour after another. -/
theorem bind {Post' : β → Talk Λ → Prop} {x : Labelled Λ α} {f : α → Labelled Λ β}
    (keeps : x.Keeps follows peers peer Post t)
    (next : ∀ a t, Post a t → (f a).Keeps follows peers peer Post' t) :
    (x >>= f).Keeps follows peers peer Post' t := by
  induction x generalizing t with
  | done result => exact next result t keeps
  | call label made rest ih =>
      obtain ⟨fails, goes⟩ := keeps
      refine ⟨fun cause t' finished => ih _ (fails cause t' finished), ?_⟩
      split_ifs at goes ⊢
      · exact ⟨goes.1, fun got => ih _ (goes.2 got)⟩
      · obtain ⟨line, due, follow, goes⟩ := goes
        exact ⟨line, due, follow, fun got hears => ih _ (goes got hears)⟩
      · exact fun got => ih _ (goes got)

theorem weaken {Post' : α → Talk Λ → Prop} {x : Labelled Λ α}
    (keeps : x.Keeps follows peers peer Post t) (weaker : ∀ a t, Post a t → Post' a t) :
    x.Keeps follows peers peer Post' t := by
  rw [← bind_pure x]
  exact keeps.bind weaker

/-- A call is about to be made. -/
theorem process {x : Labelled Λ α} (keeps : x.Keeps follows peers peer Post t) :
    Process.Keeps follows peers peer Post { rest := x } t := by
  cases x with
  | done result => exact keeps
  | call label made next => exact keeps

end Labelled.Keeps

theorem Call.not_mem_recipients {made : Call} (waits : peer ∈ made.sources peers) :
    peer ∉ made.recipients peers := by
  cases made <;> simp_all [Call.sources, Call.recipients]

namespace Process.Keeps

variable {process process' : Process Λ α} {q : PartyId} {letter : Letter Λ} {label : Λ}

theorem result {a : α} (keeps : process.Keeps follows peers peer Post t)
    (ended : process.rest = .done a) : Post a t := by
  obtain ⟨rest, served, held⟩ := process
  obtain rfl : rest = .done a := ended
  exact keeps

theorem fail {made : Call} {next : Except TransportError made.Reply → Labelled Λ α}
    {served : PartyId → Bool} {held : PartyId → Option Bytes} {t' : Talk Λ}
    (keeps : Process.Keeps follows peers peer Post ⟨.call label made next, served, held⟩ t)
    (finished : t'.IsOver) (cause : TransportError) :
    Process.Keeps follows peers peer Post { rest := next (.error cause) } t' :=
  (keeps.1 cause t' finished).process

/-- What is sent to the peer is a line. -/
theorem post (keeps : process.Keeps follows peers peer Post t)
    (acts : process.Acts peers (.post peer letter) process') :
    t.MaySay letter ∧ process'.Keeps follows peers peer Post (t.say letter) := by
  cases acts with
  | post _ due new =>
      obtain ⟨fails, goes⟩ := keeps
      simp only [due, if_true, new] at goes
      refine ⟨goes.1, fails, ?_⟩
      simpa only [due, if_true, Function.update_self] using goes.2

/-- What is sent to others does not matter. -/
theorem post_of_ne (keeps : process.Keeps follows peers peer Post t)
    (acts : process.Acts peers (.post q letter) process') (other : q ≠ peer) :
    process'.Keeps follows peers peer Post t := by
  cases acts with
  | post _ due new =>
      obtain ⟨fails, goes⟩ := keeps
      refine ⟨fails, ?_⟩
      simpa only [Function.update_of_ne other.symm] using goes

/-- What is taken from the peer is a line, if it fits. -/
theorem pick (keeps : process.Keeps follows peers peer Post t)
    (acts : process.Acts peers (.pick peer label letter) process') :
    ∃ line ∈ t.ins.head?, follows label line.label ∧ (line.label = letter.label →
      t.MayHear line letter.bytes → process'.Keeps follows peers peer Post (t.hear letter)) := by
  cases acts with
  | pick _ _ due new =>
      obtain ⟨fails, goes⟩ := keeps
      simp only [Call.not_mem_recipients due, due, if_true, if_false, new] at goes
      obtain ⟨line, first, follow, goes⟩ := goes
      refine ⟨line, first, follow, fun same hears => ⟨fails, ?_⟩⟩
      simp only [Call.not_mem_recipients due, due, if_true, if_false, Function.update_self]
      intro got given
      have goes := goes got (given ▸ hears)
      rwa [given, same] at goes

/-- What is taken from others does not matter. -/
theorem pick_of_ne (keeps : process.Keeps follows peers peer Post t)
    (acts : process.Acts peers (.pick q label letter) process') (other : q ≠ peer) :
    process'.Keeps follows peers peer Post t := by
  cases acts with
  | pick _ _ due new =>
      obtain ⟨fails, goes⟩ := keeps
      refine ⟨fails, ?_⟩
      simpa only [Function.update_of_ne other.symm] using goes

theorem proceed (keeps : process.Keeps follows peers peer Post t)
    (acts : process.Acts peers .proceed process') : process'.Keeps follows peers peer Post t := by
  cases acts with
  | @proceed label made next served held sent got =>
      obtain ⟨-, goes⟩ := keeps
      refine Labelled.Keeps.process ?_
      split_ifs at goes with receives served waits
      · exact goes _
      · exact absurd (sent peer receives) served
      · obtain ⟨bytes, given⟩ := Option.ne_none_iff_exists'.mp (got peer waits)
        rw [given] at goes
        exact goes _ (by rw [given]; rfl)
      · exact goes _

end Process.Keeps

end Keeps

/-! ## Pairs of honest parties -/

section Pairs

variable (follows : Λ → Λ → Prop) (script : Fin n → List (Line Λ)) (Post : PartyId → α → Talk Λ → Prop)

/-- **Pair.**  A party's talk with one of its peers is where the channels between them are.  What it has
said and what is left to it are lines of its script, and so for the peer.  What it has taken was waited
for. -/
structure Net.Pair (net : Net n Λ α) (i j : Fin n) (t : Talk Λ) : Prop where
  keeps : (net.process i).Keeps follows (peersOf (seat i) n) (seat j) (Post (seat j)) t
  said : t.said = (net.channels i j).posted
  heard : t.heard = (net.channels j i).taken.map (·.2)
  outs : ∃ past, Told past t.said ∧ past ++ t.outs <+: script i
  ins : ∃ past, past.length = t.heard.length ∧ past ++ t.ins <+: script j
  follow : ∀ entry ∈ (net.channels j i).taken, follows entry.1 entry.2.label

/-- All honest parties keep to their scripts with each other. -/
def Net.Mannerly (honest : Fin n → Prop) (net : Net n Λ α) : Prop :=
  ∀ i j, honest i → honest j → i ≠ j → ∃ t, net.Pair follows script Post i j t

variable {follows script Post}

namespace Net

variable {net : Net n Λ α} {i j k : Fin n} {t : Talk Λ} {letter : Letter Λ} {label : Λ}

/-- What a party takes from an honest peer is the line that is due. -/
theorem Pair.hears {t' : Talk Λ} (pair : net.Pair follows script Post i j t)
    (other : net.Pair follows script Post j i t') (nodup : ((script j).map (·.label)).Nodup)
    {later : List (Letter Λ)} (waits : (net.channels j i).waiting = letter :: later) {line : Line Λ}
    (due : line ∈ t.ins.head?) : line.label = letter.label ∧ t.MayHear line letter.bytes := by
  obtain ⟨lines, told, within⟩ := other.outs
  obtain ⟨past, length, left⟩ := pair.ins
  obtain ⟨ins, first⟩ : ∃ ins, t.ins = line :: ins := List.head?_eq_some_iff.mp due
  rw [first] at left
  have posted : t'.said = t.heard ++ letter :: later := by
    rw [other.said, pair.heard, Link.posted, waits]
  rw [posted] at told
  -- the peer has said a beginning of its script, and this party has heard a beginning of that
  have begun : lines <+: script j := (List.prefix_append lines t'.outs).trans within
  obtain ⟨label, fits⟩ := told.at_line begun left length
  refine ⟨label, fits, ?_⟩
  have labels : (t.heard.map (·.label) ++ [line.label]) <+: (script j).map (·.label) := by
    refine List.IsPrefix.trans ?_ (begun.map _)
    rw [← told.map_label, List.map_append, List.map_cons, label]
    exact ⟨later.map (·.label), by simp⟩
  exact labels.sublist.nodup nodup

namespace Pair

variable {net' : Net n Λ α}

/-- Only the party itself and the channels between the two matter. -/
theorem congr (pair : net.Pair follows script Post i j t)
    (keeps : (net'.process i).Keeps follows (peersOf (seat i) n) (seat j) (Post (seat j)) t)
    (posted : (net'.channels i j).posted = (net.channels i j).posted)
    (taken : (net'.channels j i).taken = (net.channels j i).taken) :
    net'.Pair follows script Post i j t where
  keeps := keeps
  said := pair.said.trans posted.symm
  heard := pair.heard.trans (congrArg _ taken.symm)
  outs := pair.outs
  ins := pair.ins
  follow := taken ▸ pair.follow

/-- The party sends a line to the peer. -/
theorem say (pair : net.Pair follows script Post i j t) (may : t.MaySay letter)
    (keeps : (net'.process i).Keeps follows (peersOf (seat i) n) (seat j) (Post (seat j)) (t.say letter))
    (posted : (net'.channels i j).posted = (net.channels i j).posted ++ [letter])
    (taken : (net'.channels j i).taken = (net.channels j i).taken) :
    net'.Pair follows script Post i j (t.say letter) where
  keeps := keeps
  said := by rw [posted, ← pair.said, Talk.say]
  heard := pair.heard.trans (congrArg _ taken.symm)
  outs := by
    obtain ⟨line, due, label, fits⟩ := may
    obtain ⟨rest, first⟩ := List.head?_eq_some_iff.mp due
    obtain ⟨past, told, within⟩ := pair.outs
    refine ⟨past ++ [line], told.snoc label fits, ?_⟩
    simpa only [Talk.say, first, List.tail_cons, List.append_assoc, List.singleton_append] using within
  ins := pair.ins
  follow := taken ▸ pair.follow

/-- The party takes a line from the peer. -/
theorem hear (pair : net.Pair follows script Post i j t) {line : Line Λ} (due : line ∈ t.ins.head?)
    (same : line.label = letter.label) (follow : follows label line.label)
    (keeps : (net'.process i).Keeps follows (peersOf (seat i) n) (seat j) (Post (seat j)) (t.hear letter))
    (posted : (net'.channels i j).posted = (net.channels i j).posted)
    (taken : (net'.channels j i).taken = (net.channels j i).taken ++ [(label, letter)]) :
    net'.Pair follows script Post i j (t.hear letter) where
  keeps := keeps
  said := pair.said.trans posted.symm
  heard := by rw [taken, List.map_append, ← pair.heard, Talk.hear, List.map_singleton]
  outs := pair.outs
  ins := by
    obtain ⟨rest, first⟩ := List.head?_eq_some_iff.mp due
    obtain ⟨past, length, within⟩ := pair.ins
    refine ⟨past ++ [line], by simp [Talk.hear, length], ?_⟩
    simpa only [Talk.hear, first, List.tail_cons, List.append_assoc, List.singleton_append] using within
  follow := by
    rw [taken]
    refine List.forall_mem_append.mpr ⟨pair.follow, ?_⟩
    simpa [← same] using follow

/-- The talk is over once a call of the party has failed. -/
theorem fail (pair : net.Pair follows script Post i j t) {made : Call}
    {next : Except TransportError made.Reply → Labelled Λ α} {served : PartyId → Bool}
    {held : PartyId → Option Bytes} (calls : net.process i = ⟨.call label made next, served, held⟩)
    (cause : TransportError) (fails : net'.process i = { rest := next (.error cause) })
    (channels : net'.channels = net.channels) :
    net'.Pair follows script Post i j { t with outs := [], ins := [] } where
  keeps := fails ▸ (calls ▸ pair.keeps).fail ⟨rfl, rfl⟩ cause
  said := channels ▸ pair.said
  heard := channels ▸ pair.heard
  outs := by
    obtain ⟨past, told, within⟩ := pair.outs
    exact ⟨past, told, by simpa using (List.prefix_append past t.outs).trans within⟩
  ins := by
    obtain ⟨past, length, within⟩ := pair.ins
    exact ⟨past, length, by simpa using (List.prefix_append past t.ins).trans within⟩
  follow := channels ▸ pair.follow

end Pair

/-- What a party does keeps its talks in order. -/
theorem Pair.act {net' : Net n Λ α} {t' : Talk Λ} {effect : Effect Λ}
    (pair : net.Pair follows script Post i j t) (other : net.Pair follows script Post j i t')
    (nodup : ((script j).map (·.label)).Nodup) (ne : i ≠ j)
    (acts : (net.process i).Acts (peersOf (seat i) n) effect (net'.process i))
    (carries : net.channels.Carries i effect net'.channels) :
    ∃ t, net'.Pair follows script Post i j t := by
  obtain ⟨process, channels⟩ := net'
  cases carries with
  | post p letter =>
      have apart : ∀ link, net.channels.set i p link j i = net.channels j i := fun link =>
        Channels.set_of_ne net.channels link fun h => ne h.1.symm
      by_cases here : p = j
      · subst here
        obtain ⟨may, keeps⟩ := pair.keeps.post acts
        refine ⟨_, pair.say may keeps ?_ (congrArg Link.taken (apart _))⟩
        simp [Link.posted]
      · refine ⟨t, pair.congr (pair.keeps.post_of_ne acts fun h => here (seat_inj.mp h)) ?_
          (congrArg Link.taken (apart _))⟩
        exact congrArg Link.posted (Channels.set_of_ne net.channels _ fun h => here h.2.symm)
  | @pick _ p label letter later waits =>
      have apart : ∀ link, net.channels.set p i link i j = net.channels i j := fun link =>
        Channels.set_of_ne net.channels link fun h => ne h.2.symm
      by_cases here : p = j
      · subst here
        obtain ⟨line, due, follow, goes⟩ := pair.keeps.pick acts
        obtain ⟨same, may⟩ := pair.hears other nodup waits due
        refine ⟨_, pair.hear due same follow (goes same may) (congrArg Link.posted (apart _)) ?_⟩
        exact congrArg Link.taken (Channels.set_self net.channels p i _)
      · refine ⟨t, pair.congr (pair.keeps.pick_of_ne acts fun h => here (seat_inj.mp h))
          (congrArg Link.posted (apart _)) ?_⟩
        exact congrArg Link.taken (Channels.set_of_ne net.channels _ fun h => here h.1.symm)
  | proceed => exact ⟨t, pair.congr (pair.keeps.proceed acts) rfl rfl⟩

/-- **A step keeps the talks in order.** -/
theorem Hostile.mannerly {honest : Fin n → Prop} {after : Net n Λ α}
    (nodup : ∀ k, ((script k).map (·.label)).Nodup) (step : Hostile honest net after)
    (mannerly : net.Mannerly follows script Post honest) :
    after.Mannerly follows script Post honest := by
  intro i j first second ne
  obtain ⟨t, pair⟩ := mannerly i j first second ne
  cases step with
  | @act k self effect process channels acts carries =>
      by_cases here : i = k
      · subst here
        obtain ⟨t', other⟩ := mannerly j i second first ne.symm
        refine pair.act other (nodup j) ne ?_ carries
        simpa only [Function.update_self] using acts
      · refine ⟨t, pair.congr ?_ (carries.posted_of_ne here) (carries.taken_of_ne here)⟩
        simpa only [Function.update_of_ne here] using pair.keeps
  | @fail k self label made next served held cause calls =>
      by_cases here : i = k
      · subst here
        exact ⟨_, pair.fail calls cause (Function.update_self ..) rfl⟩
      · refine ⟨t, pair.congr ?_ rfl rfl⟩
        simpa only [Function.update_of_ne here] using pair.keeps
  | corrupt kept =>
      exact ⟨t, pair.congr pair.keeps (congrArg Link.posted (kept i j first second))
        (congrArg Link.taken (kept j i second first))⟩

/-- Parties that keep to their scripts can start whenever nothing waits between them. -/
theorem mannerly_start {honest : Fin n → Prop} {tree : Fin n → Labelled Λ α}
    (starts : ∀ i, honest i → net.process i = { rest := tree i })
    (empty : ∀ i j, honest i → honest j → net.channels i j = {})
    (keeps : ∀ i j, honest i → honest j → i ≠ j → ∃ outs ins, outs <+: script i ∧ ins <+: script j ∧
      (tree i).Keeps follows (peersOf (seat i) n) (seat j) (Post (seat j)) { outs, ins }) :
    net.Mannerly follows script Post honest := by
  intro i j first second ne
  obtain ⟨outs, ins, within, within', keep⟩ := keeps i j first second ne
  refine ⟨{ outs, ins }, ⟨?_, ?_, ?_, ⟨[], told_nil, within⟩, ⟨[], rfl, within'⟩, ?_⟩⟩
  · rw [starts i first]
    exact keep.process
  · rw [empty i j first second]
    rfl
  · rw [empty j i second first]
    rfl
  · rw [empty j i second first]
    exact nofun

/-- **All honest parties keep to their scripts**, however the run goes on. -/
theorem Hostile.mannerly_run {honest : Fin n → Prop} {after : Net n Λ α}
    (nodup : ∀ k, ((script k).map (·.label)).Nodup)
    (run : Relation.ReflTransGen (Hostile honest) net after)
    (mannerly : net.Mannerly follows script Post honest) :
    after.Mannerly follows script Post honest := by
  induction run with
  | refl => exact mannerly
  | tail _ step ih => exact step.mannerly nodup ih

end Net

end Pairs

end Spdz
