import Mathlib.Data.List.Nodup
import Spdz.Proofs.Network.Play

/-!
# Running all parties together

A run in which the parties take turns is easy to describe: each plays on the messages that are there
already.  By determinacy such a run speaks for every interleaving, so it is enough to find one.

* `Net.Reaches` — some number of steps lead from one network to another; `Net.Inevitable` — every
  interleaving gets there.
* `Joint` — from given channels the behaviours of all parties can end with given results and
  channels; `Joint.bind` puts two such runs one after the other.
* **`Joint.of_plays`** — each party plays on the messages that wait for it.
* **`Joint.inevitable`** — whatever the interleaving, the parties get to that end and to no other.
-/

namespace Spdz

variable {n : Nat} {Λ M α β : Type}

/-! ## Peers and seats -/

/-- The members of a group of `n` parties, by number. -/
def IsMember (n party : Nat) : Prop := 1 ≤ party ∧ party ≤ n

theorem isMember_seat (k : Fin n) : IsMember n (seat k) := ⟨Nat.le_add_left .., k.isLt⟩

theorem seat_le {k : Fin n} {m : Nat} : seat k ≤ m ↔ k.val < m := Iff.rfl

theorem IsMember.exists_seat {party : Nat} (member : IsMember n party) :
    ∃ k : Fin n, seat k = party := by
  obtain ⟨low, high⟩ := member
  exact ⟨⟨party - 1, by omega⟩, Nat.sub_add_cancel low⟩

theorem mem_peersOf {self peer : PartyId} :
    peer ∈ peersOf self n ↔ IsMember n peer ∧ peer ≠ self := by
  simp only [peersOf, IsMember, List.mem_filter, List.mem_range'_1, decide_eq_true_eq]
  grind

theorem nodup_peersOf (self : PartyId) : (peersOf self n).Nodup :=
  List.Nodup.filter _ List.nodup_range'

theorem pairwise_peersOf (self : PartyId) : (peersOf self n).Pairwise (· < ·) :=
  List.Pairwise.filter _ (List.pairwise_lt_range' 1)

theorem length_peersOf {self : PartyId} (member : IsMember n self) :
    (peersOf self n).length = n - 1 := by
  have mem : self ∈ List.range' 1 n := by
    obtain ⟨low, high⟩ := member
    exact List.mem_range'_1.mpr ⟨low, by omega⟩
  have same : (List.range' 1 n).erase self = peersOf self n := by
    rw [List.Nodup.erase_eq_filter List.nodup_range', peersOf]
    exact List.filter_congr fun peer _ => (decide_not ..).symm
  rw [← same, List.length_erase_of_mem mem, List.length_range']

theorem not_mem_peersOf_self (self : PartyId) : self ∉ peersOf self n :=
  fun mem => (mem_peersOf.mp mem).2 rfl

namespace Call

variable {peers : List PartyId} {made : Call} {peer : PartyId}

theorem mem_of_mem_recipients (mem : peer ∈ made.recipients peers) : peer ∈ peers := by
  cases made <;> simp [recipients] at mem
  · exact mem.2 ▸ mem.1
  · exact mem

theorem mem_of_mem_sources (mem : peer ∈ made.sources peers) : peer ∈ peers := by
  cases made <;> simp [sources] at mem
  · exact mem.2 ▸ mem.1
  · exact mem

theorem nodup_recipients (nodup : peers.Nodup) : (made.recipients peers).Nodup := by
  cases made <;> simp only [recipients, List.nodup_nil]
  · split_ifs <;> simp
  · exact nodup

theorem nodup_sources (nodup : peers.Nodup) : (made.sources peers).Nodup := by
  cases made <;> simp only [sources, List.nodup_nil]
  · split_ifs <;> simp
  · exact nodup

end Call

/-! ## What one party does, effect by effect -/

namespace Effect

/-- The letters posted to a party, in order. -/
def posts (receiver : PartyId) : List (Effect Λ) → List (Letter Λ)
  | [] => []
  | post peer letter :: later =>
    if peer = receiver then letter :: posts receiver later else posts receiver later
  | pick .. :: later | proceed :: later => posts receiver later

/-- What was picked from a party, in order. -/
def picks (sender : PartyId) : List (Effect Λ) → List (Λ × Letter Λ)
  | [] => []
  | pick peer label letter :: later =>
    if peer = sender then (label, letter) :: picks sender later else picks sender later
  | post .. :: later | proceed :: later => picks sender later

theorem posts_append (receiver : PartyId) (E F : List (Effect Λ)) :
    posts receiver (E ++ F) = posts receiver E ++ posts receiver F := by
  induction E with
  | nil => rfl
  | cons effect E ih =>
      cases effect <;> simp only [List.cons_append, posts, ih]
      split_ifs <;> rfl

theorem picks_append (sender : PartyId) (E F : List (Effect Λ)) :
    picks sender (E ++ F) = picks sender E ++ picks sender F := by
  induction E with
  | nil => rfl
  | cons effect E ih =>
      cases effect <;> simp only [List.cons_append, picks, ih]
      split_ifs <;> rfl

/-- One letter to each party of a list. -/
theorem posts_map_post (receiver : PartyId) (letter : Letter Λ) {receivers : List PartyId}
    (nodup : receivers.Nodup) :
    posts receiver (receivers.map fun peer => post peer letter)
      = if receiver ∈ receivers then [letter] else [] := by
  induction receivers with
  | nil => rfl
  | cons peer receivers ih =>
      obtain ⟨new, nodup⟩ := List.nodup_cons.mp nodup
      simp only [List.map_cons, posts, ih nodup, List.mem_cons]
      by_cases same : peer = receiver
      · subst same; simp [new]
      · simp [same, Ne.symm same]

theorem picks_map_pick (sender : PartyId) (label : Λ) (letter : PartyId → Letter Λ)
    {senders : List PartyId} (nodup : senders.Nodup) :
    picks sender (senders.map fun peer => pick peer label (letter peer))
      = if sender ∈ senders then [(label, letter sender)] else [] := by
  induction senders with
  | nil => rfl
  | cons peer senders ih =>
      obtain ⟨new, nodup⟩ := List.nodup_cons.mp nodup
      simp only [List.map_cons, picks, ih nodup, List.mem_cons]
      by_cases same : peer = sender
      · subst same; simp [new]
      · simp [same, Ne.symm same]

@[simp] theorem posts_map_pick (receiver : PartyId) (label : Λ) (letter : PartyId → Letter Λ)
    (senders : List PartyId) :
    posts receiver (senders.map fun peer => pick peer label (letter peer)) = [] := by
  induction senders with
  | nil => rfl
  | cons peer senders ih => exact ih

@[simp] theorem picks_map_post (sender : PartyId) (letter : Letter Λ) (receivers : List PartyId) :
    picks sender (receivers.map fun peer => post peer letter) = [] := by
  induction receivers with
  | nil => rfl
  | cons peer receivers ih => exact ih

end Effect

namespace Process

variable {peers : List PartyId}

/-- A process does one thing after the other. -/
inductive Runs (peers : List PartyId) : Process Λ α → List (Effect Λ) → Process Λ α → Prop where
  | nil (p : Process Λ α) : Runs peers p [] p
  | cons {p q r : Process Λ α} {effect : Effect Λ} {later : List (Effect Λ)}
      (acts : p.Acts peers effect q) (others : Runs peers q later r) :
    Runs peers p (effect :: later) r

theorem Runs.append {p q r : Process Λ α} {E F : List (Effect Λ)} (first : Runs peers p E q)
    (second : Runs peers q F r) : Runs peers p (E ++ F) r := by
  induction first with
  | nil p => exact second
  | cons acts _ ih => exact .cons acts (ih second)

variable {label : Λ} {made : Call} {next : Except TransportError made.Reply → Labelled Λ α}
  {served : PartyId → Bool} {held : PartyId → Option Bytes}

/-- A call can send to all that it has not sent to. -/
theorem runs_posts {receivers : List PartyId} (nodup : receivers.Nodup)
    (due : ∀ peer ∈ receivers, peer ∈ made.recipients peers)
    (new : ∀ peer ∈ receivers, served peer = false) :
    Runs peers ⟨.call label made next, served, held⟩
      (receivers.map fun peer => .post peer ⟨label, made.payload⟩)
      ⟨.call label made next, fun peer => served peer || decide (peer ∈ receivers), held⟩ := by
  induction receivers generalizing served with
  | nil => simpa using Runs.nil _
  | cons peer receivers ih =>
      obtain ⟨fresh, nodup⟩ := List.nodup_cons.mp nodup
      have after : (fun other => Function.update served peer true other || decide (other ∈ receivers))
          = fun other => served other || decide (other ∈ peer :: receivers) := by
        funext other
        by_cases same : other = peer <;> simp [same]
      refine .cons (.post peer (due peer (by simp)) (new peer (by simp))) ?_
      rw [← after]
      refine ih nodup (fun other mem => due other (by simp [mem])) fun other mem => ?_
      have differs : other ≠ peer := fun same => fresh (same ▸ mem)
      rw [Function.update_of_ne differs]
      exact new other (by simp [mem])

/-- A call can take a letter of all that it has taken none of. -/
theorem runs_picks (letter : PartyId → Letter Λ) {senders : List PartyId} (nodup : senders.Nodup)
    (due : ∀ peer ∈ senders, peer ∈ made.sources peers)
    (new : ∀ peer ∈ senders, held peer = none) :
    Runs peers ⟨.call label made next, served, held⟩
      (senders.map fun peer => .pick peer label (letter peer))
      ⟨.call label made next, served,
        fun peer => if peer ∈ senders then some (letter peer).bytes else held peer⟩ := by
  induction senders generalizing held with
  | nil => simpa using Runs.nil _
  | cons peer senders ih =>
      obtain ⟨fresh, nodup⟩ := List.nodup_cons.mp nodup
      have after : (fun other => if other ∈ senders then some (letter other).bytes
          else Function.update held peer (some (letter peer).bytes) other)
          = fun other => if other ∈ peer :: senders then some (letter other).bytes
            else held other := by
        funext other
        by_cases same : other = peer
        · subst same; simp
        · simp [same]
      refine .cons (.pick peer (letter peer) (due peer (by simp)) (new peer (by simp))) ?_
      rw [← after]
      refine ih nodup (fun other mem => due other (by simp [mem])) fun other mem => ?_
      have differs : other ≠ peer := fun same => fresh (same ▸ mem)
      rw [Function.update_of_ne differs]
      exact new other (by simp [mem])

/-- A call that starts can be completed. -/
theorem runs_call (nodup : peers.Nodup) (letter : PartyId → Letter Λ) :
    Runs peers { rest := .call label made next }
      ((made.recipients peers).map (fun peer => .post peer ⟨label, made.payload⟩)
        ++ ((made.sources peers).map (fun peer => .pick peer label (letter peer)) ++ [.proceed]))
      { rest := next (made.reply peers fun peer => (letter peer).bytes) } := by
  refine (runs_posts (Call.nodup_recipients nodup) (fun _ mem => mem) fun _ _ => rfl).append ?_
  refine (runs_picks letter (Call.nodup_sources nodup) (fun _ mem => mem) fun _ _ => rfl).append ?_
  have reply : made.reply peers (fun peer =>
      (if peer ∈ made.sources peers then some (letter peer).bytes else none).getD [])
      = made.reply peers fun peer => (letter peer).bytes := by
    cases made <;> simp +contextual [Call.reply, Call.sources]
  rw [← reply]
  refine .cons (.proceed (fun peer mem => by simp [mem]) fun peer mem => by simp [mem]) (.nil _)

/-- What a behaviour plays is what its process can do, with any letters that hold the messages. -/
theorem runs_of_plays (nodup : peers.Nodup) (label : Λ) {x : Exchange α}
    {got sent : PartyId → List Bytes} {a : α} (plays : x.Plays peers got sent a)
    {letters : PartyId → List (Letter Λ)}
    (same : ∀ peer, (letters peer).map Letter.bytes = got peer) :
    ∃ E, Runs peers { rest := x.labelled label } E { rest := .done a } ∧
      (∀ peer, Effect.posts peer E = (sent peer).map (Letter.mk label)) ∧
      (∀ peer, Effect.picks peer E = (letters peer).map (Prod.mk label)) := by
  induction plays generalizing letters with
  | done a =>
      have empty : ∀ peer, letters peer = [] := fun peer => by simpa using same peer
      exact ⟨[], .nil _, by simp [Effect.posts], by simp [Effect.picks, empty]⟩
  | @call made next got sent a bytes later ih =>
      -- of each party waited for, one letter is taken now and the others later
      have parts : ∀ peer, ∃ letter : Letter Λ, ∃ rest, letter.bytes = bytes peer ∧
          rest.map Letter.bytes = got peer ∧
          letters peer = if peer ∈ made.sources peers then letter :: rest else rest := by
        intro peer
        have whole := same peer
        simp only at whole
        split_ifs at whole ⊢ with source
        · obtain ⟨letter, rest, split, head, tail⟩ := List.map_eq_cons_iff.mp whole
          exact ⟨letter, rest, head, tail, split⟩
        · exact ⟨⟨label, bytes peer⟩, letters peer, rfl, whole, rfl⟩
      choose letter rest head tail split using parts
      obtain ⟨E, runs, posts, picks⟩ := ih tail
      have starts : Runs peers { rest := .call label made fun reply => (next reply).labelled label }
          _ { rest := (next (made.reply peers fun peer => (letter peer).bytes)).labelled label } :=
        runs_call nodup letter
      simp only [head] at starts
      refine ⟨_, starts.append runs, fun peer => ?_, fun peer => ?_⟩
      · simp only [Effect.posts_append, Effect.posts_map_post _ _ (Call.nodup_recipients nodup),
          Effect.posts_map_pick, posts]
        split_ifs <;> simp [Effect.posts]
      · simp only [Effect.picks_append, Effect.picks_map_pick _ _ _ (Call.nodup_sources nodup),
          Effect.picks_map_post, picks, split peer]
        split_ifs <;> simp [Effect.picks]

end Process

/-! ## Some number of steps -/

namespace Net

/-- Some number of steps lead from one network to the other. -/
def Reaches (net after : Net n Λ α) : Prop := ∃ k, Chain Step k net after

namespace Reaches

theorem refl (net : Net n Λ α) : net.Reaches net := ⟨0, .nil net⟩

theorem trans {a b c : Net n Λ α} : a.Reaches b → b.Reaches c → a.Reaches c
  | ⟨_, first⟩, ⟨_, second⟩ => ⟨_, first.append second⟩

theorem step {a b : Net n Λ α} (step : Step a b) : a.Reaches b := ⟨1, .cons step (.nil b)⟩

end Reaches

/-- The channels after a party did what its effects say, when `more` was in its channels beyond the
letters that it picked. -/
def carried (channels : Channels n Λ) (self : Fin n) (E : List (Effect Λ))
    (more : Fin n → List (Letter Λ)) : Channels n Λ := fun a b =>
  { waiting := (if b = self then more a else (channels a b).waiting)
      ++ (if a = self then Effect.posts (seat b) E else [])
    taken := (channels a b).taken ++ (if b = self then Effect.picks (seat a) E else []) }

/-- The first effect of a process can be carried out on the channels, and the others then find what
they pick. -/
theorem carries_of_acts {self : Fin n} {p q : Process Λ α} {effect : Effect Λ}
    {later : List (Effect Λ)} (acts : p.Acts (peersOf (seat self) n) effect q)
    {channels : Channels n Λ} {more : Fin n → List (Letter Λ)}
    (here : ∀ a, (channels a self).waiting
      = (Effect.picks (seat a) (effect :: later)).map Prod.snd ++ more a) :
    ∃ after, channels.Carries self effect after ∧
      (∀ a, (after a self).waiting = (Effect.picks (seat a) later).map Prod.snd ++ more a) ∧
      carried after self later more = carried channels self (effect :: later) more := by
  cases acts with
  | post peer due new =>
      obtain ⟨member, other⟩ := mem_peersOf.mp (Call.mem_of_mem_recipients due)
      obtain ⟨b, rfl⟩ := member.exists_seat
      have apart : self ≠ b := fun same => other (same ▸ rfl)
      refine ⟨_, .post b _, fun a => ?_, ?_⟩
      · rw [Channels.set_of_ne _ _ fun same => apart same.2]
        exact here a
      · funext a c
        by_cases same : a = self ∧ c = b
        · obtain ⟨rfl, rfl⟩ := same
          simp [carried, Effect.posts, Ne.symm apart]
        · have seats : a = self → seat b ≠ seat c := fun hs hc =>
            same ⟨hs, (seat_inj.mp hc).symm⟩
          simp only [carried, Channels.set_of_ne _ _ same, Effect.posts, Effect.picks]
          split_ifs <;> simp_all
  | @pick label made next served held peer letter due new =>
      obtain ⟨member, other⟩ := mem_peersOf.mp (Call.mem_of_mem_sources due)
      obtain ⟨b, rfl⟩ := member.exists_seat
      have waiting := here b
      simp only [Effect.picks, if_pos, List.map_cons, List.cons_append] at waiting
      refine ⟨_, .pick b _ waiting, fun a => ?_, ?_⟩
      · by_cases same : a = b
        · subst same; simp
        · rw [Channels.set_of_ne _ _ fun both => same both.1, here a]
          simp [Effect.picks, seat_inj, Ne.symm same]
      · funext a c
        by_cases same : a = b ∧ c = self
        · obtain ⟨rfl, rfl⟩ := same
          simp [carried, Effect.posts, Effect.picks]
        · simp only [carried, Channels.set_of_ne _ _ same, Effect.posts, Effect.picks]
          split_ifs <;> simp_all [seat_inj]
  | proceed sent got => exact ⟨_, .proceed, here, rfl⟩

/-- What a process can do, it can do in the network if the letters it picks are there. -/
theorem reaches_of_runs {self : Fin n} {p q : Process Λ α} {E : List (Effect Λ)}
    (runs : Process.Runs (peersOf (seat self) n) p E q) {net : Net n Λ α}
    (process : net.process self = p) {more : Fin n → List (Letter Λ)}
    (here : ∀ a, (net.channels a self).waiting = (Effect.picks (seat a) E).map Prod.snd ++ more a) :
    net.Reaches ⟨Function.update net.process self q, carried net.channels self E more⟩ := by
  induction runs generalizing net more with
  | nil p =>
      have same : carried net.channels self [] more = net.channels := by
        funext a b
        by_cases hb : b = self
        · subst hb
          have waiting := here a
          simp only [Effect.picks, List.map_nil, List.nil_append] at waiting
          simp [carried, Effect.posts, Effect.picks, ← waiting]
        · simp [carried, Effect.posts, hb]
      rw [same, ← process, Function.update_eq_self]
      exact .refl net
  | @cons p q r effect later acts others ih =>
      obtain ⟨channels, carries, here', after⟩ := carries_of_acts acts here
      have first : Step net ⟨Function.update net.process self q, channels⟩ :=
        .act self (process ▸ acts) carries
      refine (Reaches.step first).trans ?_
      have rest : Net.Reaches ⟨Function.update net.process self q, channels⟩ _ :=
        ih (Function.update_self ..) here'
      simpa only [Function.update_idem, after] using rest

/-- The parties at the start of their behaviours. -/
def start (n : Nat) (tree : PartyId → Labelled Λ α) (channels : PartyId → PartyId → Link Λ) :
    Net n Λ α where
  process k := { rest := tree (seat k) }
  channels i j := channels (seat i) (seat j)

/-- The parties when all are done. -/
def ended (n : Nat) (result : PartyId → α) (channels : PartyId → PartyId → Link Λ) : Net n Λ α :=
  start n (fun i => .done (result i)) channels

/-- Only members count. -/
theorem start_congr {tree tree' : PartyId → Labelled Λ α}
    {channels channels' : PartyId → PartyId → Link Λ}
    (trees : ∀ i, IsMember n i → tree i = tree' i)
    (links : ∀ i j, IsMember n i → IsMember n j → channels i j = channels' i j) :
    start n tree channels = start n tree' channels' := by
  simp only [start, mk.injEq]
  refine ⟨funext fun k => ?_, funext fun i => funext fun j => ?_⟩
  · rw [trees _ (isMember_seat k)]
  · exact links _ _ (isMember_seat i) (isMember_seat j)

/-- When all are done, nothing happens any more. -/
theorem final_ended (result : PartyId → α) (channels : PartyId → PartyId → Link Λ) :
    Final Step (ended n result channels) := by
  rintro _ ⟨party, acts, -⟩
  cases acts

/-! ## Going on after the end, and other labels -/

end Net

/-- A process whose behaviour is followed by another. -/
def Process.andThen (p : Process Λ α) (next : α → Labelled Λ β) : Process Λ β :=
  { p with rest := p.rest >>= next }

/-- What a process may do does not depend on what follows. -/
theorem Process.Acts.andThen {peers : List PartyId} {p q : Process Λ α} {effect : Effect Λ}
    (acts : p.Acts peers effect q) (next : α → Labelled Λ β) :
    (p.andThen next).Acts peers effect (q.andThen next) := by
  cases acts with
  | post peer due new => exact .post peer due new
  | pick peer letter due new => exact .pick peer letter due new
  | proceed sent got => exact .proceed sent got

namespace Net

/-- The network in which each party goes on with a behaviour that depends on its result. -/
def andThen (net : Net n Λ α) (next : Fin n → α → Labelled Λ β) : Net n Λ β :=
  ⟨fun k => (net.process k).andThen (next k), net.channels⟩

theorem Step.andThen {net after : Net n Λ α} (step : Step net after)
    (next : Fin n → α → Labelled Λ β) : Step (net.andThen next) (after.andThen next) := by
  cases step with
  | @act party effect process channels acts carries =>
      have same : (⟨Function.update net.process party process, channels⟩ : Net n Λ α).andThen next
          = ⟨Function.update (net.andThen next).process party (process.andThen (next party)),
              channels⟩ := by
        simp only [Net.andThen, mk.injEq, and_true]
        funext k
        by_cases here : k = party
        · subst here; simp
        · simp [here]
      rw [same]
      exact .act party (acts.andThen (next party)) carries

theorem Reaches.andThen {net after : Net n Λ α} (reaches : net.Reaches after)
    (next : Fin n → α → Labelled Λ β) : (net.andThen next).Reaches (after.andThen next) := by
  obtain ⟨k, chain⟩ := reaches
  induction chain with
  | nil net => exact .refl _
  | cons first _ ih => exact (Reaches.step (first.andThen next)).trans ih

end Net

/-- A letter with another label. -/
def Letter.relabel (change : Λ → M) (letter : Letter Λ) : Letter M :=
  ⟨change letter.label, letter.bytes⟩

/-- A channel with other labels on its letters. -/
def Link.relabel (change : Λ → M) (link : Link Λ) : Link M where
  waiting := link.waiting.map (Letter.relabel change)
  taken := link.taken.map fun (label, letter) => (change label, letter.relabel change)

/-- A process with other labels at its calls. -/
def Process.relabel (change : Λ → M) (p : Process Λ α) : Process M α :=
  { p with rest := p.rest.relabel change }

/-- An effect with other labels. -/
def Effect.relabel (change : Λ → M) : Effect Λ → Effect M
  | post receiver letter => .post receiver (letter.relabel change)
  | pick sender label letter => .pick sender (change label) (letter.relabel change)
  | proceed => .proceed

/-- What a process may do does not depend on labels. -/
theorem Process.Acts.relabel {peers : List PartyId} {p q : Process Λ α} {effect : Effect Λ}
    (acts : p.Acts peers effect q) (change : Λ → M) :
    (p.relabel change).Acts peers (effect.relabel change) (q.relabel change) := by
  cases acts with
  | post peer due new => exact .post peer due new
  | pick peer letter due new => exact .pick peer (letter.relabel change) due new
  | proceed sent got => exact .proceed sent got

/-- Channels carry letters whatever their labels are. -/
theorem Channels.Carries.relabel {self : Fin n} {effect : Effect Λ} {channels after : Channels n Λ}
    (carries : channels.Carries self effect after) (change : Λ → M) :
    Channels.Carries self (effect.relabel change) (fun i j => (channels i j).relabel change)
      (fun i j => (after i j).relabel change) := by
  have set : ∀ (a b : Fin n) (link : Link Λ),
      (fun i j => (channels.set a b link i j).relabel change)
        = Channels.set (fun i j => (channels i j).relabel change) a b (link.relabel change) := by
    intro a b link
    funext i j
    simp only [Channels.set]
    split_ifs <;> rfl
  cases carries with
  | post peer letter =>
      have link : Link.relabel change
          ⟨(channels self peer).waiting ++ [letter], (channels self peer).taken⟩
          = ⟨((channels self peer).relabel change).waiting ++ [letter.relabel change],
              ((channels self peer).relabel change).taken⟩ := by
        simp [Link.relabel]
      rw [set, link]
      exact .post peer (letter.relabel change)
  | @pick _ peer label letter later here =>
      have link : Link.relabel change ⟨later, (channels peer self).taken ++ [(label, letter)]⟩
          = ⟨later.map (Letter.relabel change), ((channels peer self).relabel change).taken
              ++ [(change label, letter.relabel change)]⟩ := by
        simp [Link.relabel]
      rw [set, link]
      exact .pick peer (change label) (by simp [Link.relabel, here])
  | proceed => exact .proceed

namespace Net

/-- The network with other labels. -/
def relabel (change : Λ → M) (net : Net n Λ α) : Net n M α :=
  ⟨fun k => (net.process k).relabel change, fun i j => (net.channels i j).relabel change⟩

theorem Step.relabel {net after : Net n Λ α} (step : Step net after) (change : Λ → M) :
    Step (net.relabel change) (after.relabel change) := by
  cases step with
  | @act party effect process channels acts carries =>
      have same : (⟨Function.update net.process party process, channels⟩ : Net n Λ α).relabel change
          = ⟨Function.update (net.relabel change).process party (process.relabel change),
              fun i j => (channels i j).relabel change⟩ := by
        simp only [Net.relabel, mk.injEq, and_true]
        funext k
        by_cases here : k = party
        · subst here; simp
        · simp [here]
      rw [same]
      exact .act party (acts.relabel change) (carries.relabel change)

theorem Reaches.relabel {net after : Net n Λ α} (reaches : net.Reaches after) (change : Λ → M) :
    (net.relabel change).Reaches (after.relabel change) := by
  obtain ⟨k, chain⟩ := reaches
  induction chain with
  | nil net => exact .refl _
  | cons first _ ih => exact (Reaches.step (first.relabel change)).trans ih

end Net

/-! ## What holds of every interleaving -/

namespace Net

/-- **Inevitable.**  However the parties' steps are interleaved, they come to the goal: only so many
steps are possible, nothing that happens makes the goal unreachable, and short of the goal there is
always a party that can go on. -/
structure Inevitable (net goal : Net n Λ α) : Prop where
  bounded : ∃ k, ∀ j now, Chain Step j net now → j ≤ k
  reachable : ∀ now, net.Reaches now → now.Reaches goal
  progress : ∀ now, net.Reaches now → now = goal ∨ ∃ next, Step now next
  final : Final Step goal

/-- By determinacy one way to a final goal is enough. -/
theorem Reaches.inevitable {net goal : Net n Λ α} (reaches : net.Reaches goal)
    (final : Final Step goal) : net.Inevitable goal := by
  obtain ⟨k, chain⟩ := reaches
  refine ⟨⟨k, fun j now way => (chain.determinacy Step.diamond final way).1⟩, ?_, ?_, final⟩
  · rintro now ⟨j, way⟩
    exact ⟨_, (chain.determinacy Step.diamond final way).2⟩
  · rintro now ⟨j, way⟩
    generalize k - j = left, (chain.determinacy Step.diamond final way).2 = rest
    cases rest with
    | nil => exact .inl rfl
    | cons next _ => exact .inr ⟨_, next⟩

/-- The record of what was taken only grows. -/
theorem Step.taken_extends {net after : Net n Λ α} (step : Step net after) (a b : Fin n) :
    (net.channels a b).taken <+: (after.channels a b).taken := by
  cases step with
  | act party acts carries =>
      cases carries with
      | post peer letter =>
          by_cases here : a = party ∧ b = peer
          · obtain ⟨rfl, rfl⟩ := here; simp
          · simp [Channels.set_of_ne _ _ here]
      | pick peer label found =>
          by_cases here : a = peer ∧ b = party
          · obtain ⟨rfl, rfl⟩ := here; simp
          · simp [Channels.set_of_ne _ _ here]
      | proceed => exact List.prefix_rfl

theorem Reaches.taken_extends {net after : Net n Λ α} (reaches : net.Reaches after) (a b : Fin n) :
    (net.channels a b).taken <+: (after.channels a b).taken := by
  obtain ⟨k, chain⟩ := reaches
  induction chain with
  | nil net => exact List.prefix_rfl
  | cons first _ ih => exact (first.taken_extends a b).trans ih

end Net

/-! ## Joint runs -/

/-- The behaviours of all parties can end with these results, and turn the channels into those after.
Behaviours, channels and results are given by party number. -/
def Joint (n : Nat) (tree : PartyId → Labelled Λ α) (channels : PartyId → PartyId → Link Λ)
    (result : PartyId → α) (after : PartyId → PartyId → Link Λ) : Prop :=
  (Net.start n tree channels).Reaches (.ended n result after)

namespace Joint

variable {tree : PartyId → Labelled Λ α} {channels middle after : PartyId → PartyId → Link Λ}
  {result : PartyId → α}

theorem pure (result : PartyId → α) (channels : PartyId → PartyId → Link Λ) :
    Joint n (fun i => .done (result i)) channels result channels := .refl _

/-- One joint run after the other. -/
theorem bind {next : PartyId → α → Labelled Λ β} {final : PartyId → β}
    (first : Joint n tree channels result middle)
    (second : Joint n (fun i => next i (result i)) middle final after) :
    Joint n (fun i => tree i >>= next i) channels final after :=
  (Net.Reaches.andThen first fun k => next (seat k)).trans second

/-- Only members count. -/
theorem congr {tree' : PartyId → Labelled Λ α} {channels' after' : PartyId → PartyId → Link Λ}
    {result' : PartyId → α} (run : Joint n tree channels result after)
    (trees : ∀ i, IsMember n i → tree i = tree' i)
    (links : ∀ i j, IsMember n i → IsMember n j → channels i j = channels' i j)
    (results : ∀ i, IsMember n i → result i = result' i)
    (links' : ∀ i j, IsMember n i → IsMember n j → after i j = after' i j) :
    Joint n tree' channels' result' after' := by
  unfold Joint Net.ended at run ⊢
  rwa [← Net.start_congr trees links,
    ← Net.start_congr (fun i member => congrArg Labelled.done (results i member)) links']

/-- Parties that are done have nothing to do. -/
theorem of_done (done : ∀ i, IsMember n i → tree i = .done (result i)) :
    Joint n tree channels result channels :=
  (pure result channels).congr (fun i member => (done i member).symm) (fun _ _ _ _ => rfl)
    (fun _ _ => rfl) fun _ _ _ _ => rfl

/-- Labels do not matter for what the parties do. -/
theorem relabel (run : Joint n tree channels result after) (change : Λ → M) :
    Joint n (fun i => (tree i).relabel change) (fun i j => (channels i j).relabel change) result
      (fun i j => (after i j).relabel change) :=
  Net.Reaches.relabel run change

/-! ### Each party on the letters that are there -/

section Turns

variable (letters rest : PartyId → PartyId → List (Letter Λ))
  (taken : PartyId → PartyId → List (Λ × Letter Λ)) (sent : PartyId → PartyId → List Bytes)
  (label : Λ)

/-- The channels when the first `m` parties have taken their `letters` and sent theirs. -/
def served (m : Nat) (i j : PartyId) : Link Λ where
  waiting := (if j ≤ m then rest i j else letters i j ++ rest i j)
    ++ (if i ≤ m then (sent i j).map (Letter.mk label) else [])
  taken := taken i j ++ (if j ≤ m then (letters i j).map (Prod.mk label) else [])

/-- The network then. -/
def afterTurns (x : PartyId → Exchange α) (result : PartyId → α) (m : Nat) : Net n Λ α :=
  Net.start n (fun i => if i ≤ m then .done (result i) else (x i).labelled label)
    (served letters rest taken sent label m)

variable {letters rest taken sent label} {x : PartyId → Exchange α}

/-- The next party's turn. -/
theorem afterTurns_succ
    (plays : ∀ i, IsMember n i →
      (x i).Plays (peersOf i n) (fun j => (letters j i).map Letter.bytes) (sent i) (result i))
    {m : Nat} (here : m < n) :
    (afterTurns letters rest taken sent label x result m : Net n Λ α).Reaches
      (afterTurns letters rest taken sent label x result (m + 1)) := by
  have others : ∀ k : Fin n, k ≠ ⟨m, here⟩ → (seat k ≤ m + 1 ↔ seat k ≤ m) := by
    intro k other
    have differs : k.val ≠ m := fun same => other (Fin.ext same)
    rw [seat_le, seat_le]
    omega
  have self : seat (⟨m, here⟩ : Fin n) = m + 1 := rfl
  have late : ¬ m + 1 ≤ m := Nat.not_succ_le_self m
  obtain ⟨E, runs, posts, picks⟩ := Process.runs_of_plays (nodup_peersOf (m + 1)) label
    (plays (m + 1) ⟨Nat.le_add_left .., here⟩) fun _ => rfl
  rw [← self] at runs
  let more (a : Fin n) : List (Letter Λ) := rest (seat a) (m + 1)
    ++ (if seat a ≤ m then (sent (seat a) (m + 1)).map (Letter.mk label) else [])
  let before : Net n Λ α := afterTurns letters rest taken sent label x result m
  have reaches : before.Reaches ⟨Function.update before.process ⟨m, here⟩
      { rest := .done (result (m + 1)) }, Net.carried before.channels ⟨m, here⟩ E more⟩ := by
    refine Net.reaches_of_runs runs ?_ fun a => ?_
    · simp [before, afterTurns, Net.start, self, late]
    · simp [before, afterTurns, Net.start, served, self, late, picks, more, Function.comp_def]
  refine cast (congrArg (Net.Reaches _) ?_) reaches
  simp only [before, afterTurns, Net.start, Net.mk.injEq]
  refine ⟨funext fun k => ?_, funext fun a => funext fun b => ?_⟩
  · by_cases same : k = ⟨m, here⟩
    · subst same; simp [self]
    · rw [Function.update_of_ne same]
      simp only [others k same]
  · by_cases ha : a = ⟨m, here⟩ <;> by_cases hb : b = ⟨m, here⟩
    · subst ha hb
      simp [Net.carried, served, self, late, posts, picks, more]
    · subst ha
      simp [Net.carried, served, self, late, posts, hb, others b hb]
    · subst hb
      simp [Net.carried, served, self, late, picks, more, ha, others a ha]
    · simp [Net.carried, served, ha, hb, others a ha, others b hb]

/-- **Every party plays on the first letters that wait for it.**  The turns may be taken one party
after the other because each finds its letters from the start. -/
theorem of_plays
    (plays : ∀ i, IsMember n i →
      (x i).Plays (peersOf i n) (fun j => (letters j i).map Letter.bytes) (sent i) (result i)) :
    Joint n (fun i => (x i).labelled label) (fun i j => ⟨letters i j ++ rest i j, taken i j⟩) result
      (fun i j => ⟨rest i j ++ (sent i j).map (Letter.mk label),
        taken i j ++ (letters i j).map (Prod.mk label)⟩) := by
  have reaches : ∀ m ≤ n, (afterTurns letters rest taken sent label x result 0 : Net n Λ α).Reaches
      (afterTurns letters rest taken sent label x result m) := by
    intro m
    induction m with
    | zero => exact fun _ => .refl _
    | succ m ih => exact fun here => (ih (Nat.le_of_succ_le here)).trans (afterTurns_succ plays here)
  have none : ∀ i, IsMember n i → ¬ i ≤ 0 := fun i member => Nat.not_le.mpr member.1
  have start : (afterTurns letters rest taken sent label x result 0 : Net n Λ α)
      = .start n (fun i => (x i).labelled label)
          (fun i j => ⟨letters i j ++ rest i j, taken i j⟩) := by
    refine Net.start_congr (fun i member => if_neg (none i member)) fun i j mi mj => ?_
    simp [served, none i mi, none j mj]
  have ended : (afterTurns letters rest taken sent label x result n : Net n Λ α)
      = .ended n result (fun i j => ⟨rest i j ++ (sent i j).map (Letter.mk label),
          taken i j ++ (letters i j).map (Prod.mk label)⟩) := by
    refine Net.start_congr (fun i member => if_pos member.2) fun i j mi mj => ?_
    simp [served, mi.2, mj.2]
  rw [Joint, ← start, ← ended]
  exact reaches n (Nat.le_refl n)

end Turns

/-- **One joint run speaks for all interleavings.** -/
theorem inevitable (run : Joint n tree channels result after) :
    (Net.start n tree channels).Inevitable (.ended n result after) :=
  Net.Reaches.inevitable run (Net.final_ended result after)

end Joint

end Spdz
