import Spdz.Proofs.Evaluation.Histories
import Spdz.Proofs.Evaluation.Verdict
import Spdz.Proofs.Gates.Pending

/-!
# What a check has covered

A check is called round by round, and its caller may choose any numbers for the rounds.  When it has
passed, there was a call in which the coins were out and the check committed to its share of what they
make of its records, and a later one in which the shares of all parties summed to zero.  The records are
those taken out when the check last began.

A call that fails leaves the check idle, and then it may begin again.  It takes out the records that came
since, and those it held before are covered by nobody.

* `Tried` — any calls of a check; `drained`, what they took out.
* `Breaks` — a call that fails while the check is under way.
* `Sums`, `Decides`, `Covers` — the two calls that make a check pass over its records.
* `Account` — what the calls so far tell about the check; `Account.call`, one more call.
* **`passed_covers_unless_broken`** — a check that has passed covered all records that it ever took out,
  unless a call broke it in between.
* **`passed_after_break`** — such a call, after which the check passes over nothing.
-/

namespace Spdz

open Round

variable {F : FieldSpec} {σ : Type}

namespace MacCheck

/-! ## Calls -/

section Calls

variable [Supplier F σ]

/-- **Tried.**  These are all calls of a new check so far, and the check after them.  Each may have any
number for its round and any party, and anything may come from the network. -/
inductive Tried : List (Turn F σ (MacCheck F)) → MacCheck F → Prop where
  | new : Tried [] {}
  | call {turns : List (Turn F σ (MacCheck F))} {t : Turn F σ (MacCheck F)}
    (before : Tried turns t.before.1) (genuine : t.Genuine) : Tried (turns ++ [t]) t.after.1

end Calls

/-- The records that a call took out of the party's store. -/
def taken (t : Turn F σ (MacCheck F)) : List (OpenedValue F) :=
  if t.after.2.opened.isEmpty then t.before.2.opened.toList else []

/-- All that the calls took out. -/
def drained (turns : List (Turn F σ (MacCheck F))) : List (OpenedValue F) := turns.flatMap taken

@[simp] theorem drained_append (turns more : List (Turn F σ (MacCheck F))) :
    drained (turns ++ more) = drained turns ++ drained more := List.flatMap_append

@[simp] theorem drained_singleton (t : Turn F σ (MacCheck F)) : drained [t] = taken t :=
  List.flatMap_singleton ..

/-- The check is under way before a round, or begins in it. -/
def UnderWay (round : Nat) (c : MacCheck F) : Prop :=
  match c.stage with
  | .idle => round = 0
  | .coin _ | .sigma .. => True
  | .passed => False

theorem underWay_of_busy {c : MacCheck F} (busy : ¬ c.Rests) {round : Nat} : c.UnderWay round := by
  obtain ⟨stage, records⟩ := c
  cases stage with
  | coin | sigma => exact trivial
  | idle => exact absurd (.inl rfl) busy
  | passed => exact absurd (.inr rfl) busy

/-- **Breaks.**  The call fails while the check is under way. -/
def Breaks (t : Turn F σ (MacCheck F)) : Prop :=
  (∃ e, t.result = .error e) ∧ UnderWay t.round t.before.1

/-! ## What a call can do -/

variable [Supplier F σ] {S : Party F σ} {c : MacCheck F} {records : List (OpenedValue F)}
  {t : Turn F σ (MacCheck F)} {turns earlier recent : List (Turn F σ (MacCheck F))}

/-- A call with which a check begins. -/
theorem begins (genuine : t.Genuine) (first : t.round = 0) (idle : t.before.1.stage = .idle) :
    taken t = t.after.1.records ∧
      ((∃ e, t.result = .error e) ∧ t.after.1.stage = .idle ∨ ∃ toss, t.after.1.stage = .coin toss) := by
  obtain ⟨round, position, ⟨c, S⟩, result, ⟨c', S'⟩⟩ := t
  obtain rfl : round = 0 := first
  obtain ⟨held, empty⟩ : c'.records = S.opened.toList ∧ S'.opened.toList = [] :=
    ends_begin idle genuine
  refine ⟨?_, ?_⟩
  · simp only [taken, OpenedValues.isEmpty, empty, held, List.isEmpty_nil, if_true]
  · have ends : (((goOn 0 : Round F σ _ _).run (started S)).run (begun S)).Ends ((result, c'), S') :=
      ends_goOn_of_begin idle genuine
    obtain ⟨outcome, -⟩ := ends_goOn ends
    cases outcome with
    | refuses _ rests => simp [started, Rests] at rests
    | breaks => exact .inl ⟨⟨_, rfl⟩, rfl⟩
    | tosses => exact .inr ⟨_, rfl⟩
    | sums _ _ goes => exact absurd goes.of_done.2 (Nat.lt_irrefl 0)
    | reveals stage => cases stage
    | passes stage => cases stage

/-- Any other call. -/
theorem goes (genuine : t.Genuine) (begun : ¬ (t.round = 0 ∧ t.before.1.stage = .idle)) :
    taken t = [] ∧ Outcome t.before.1 t.before.2 t.round t.result t.after.1 := by
  obtain ⟨round, position, ⟨c, S⟩, result, ⟨c', S'⟩⟩ := t
  have ends : (((evaluate round : Round F σ _ _).run c).run S).Ends ((result, c'), S') := genuine
  rw [run_evaluate begun] at ends
  obtain ⟨outcome, draws⟩ := ends_goOn ends
  refine ⟨?_, outcome⟩
  simp only [taken, OpenedValues.isEmpty, draws.kept.2]
  split
  · exact List.isEmpty_iff.mp ‹_›
  · rfl

/-! ## Coverage -/

/-- **Sums.**  In this call the coins are out, and the check commits to its own share of what they make
of the records. -/
structure Sums (records : List (OpenedValue F)) (coins : List (Elem F)) (t : Turn F σ (MacCheck F)) :
    Prop where
  toss : ∃ toss toss' : Reveal F, t.before.1 = { stage := .coin toss, records } ∧
    (((Reveal.evaluate t.round : Round F σ _ _).run toss).run t.before.2).Ends
      ((.ok .isDone, toss'), t.before.2) ∧ toss'.output = some coins
  commits : ∃ sigmas : Reveal F, t.after.1 = { stage := .sigma t.round sigmas, records } ∧
    sigmas.value = ownSigma t.before.2 coins records

/-- **Decides.**  In this call the shares are out that were committed to in the round `start`, the check
having committed to `own`.  They sum to zero, and the check passes. -/
structure Decides (records : List (OpenedValue F)) (start : Nat) (own : Elem F) (values : List (Elem F))
    (u : Turn F σ (MacCheck F)) : Prop where
  shows : ∃ sigmas sigmas' : Reveal F, u.before.1 = { stage := .sigma start sigmas, records } ∧
    sigmas.value = own ∧
    (((Reveal.evaluate (u.round - start) : Round F σ _ _).run sigmas).run u.before.2).Ends
      ((.ok .isDone, sigmas'), u.before.2) ∧ sigmas'.output = some values
  zero : Elem.sum values = 0
  passes : u.result = .ok .isDone ∧ u.after.1 = { stage := .passed, records }

/-- **Passes.**  A check committed to its share of what the coins make of the records in the call `t`, and
passed in the call `u`, with the calls in between. -/
structure Passes (records : List (OpenedValue F)) (t : Turn F σ (MacCheck F))
    (between : List (Turn F σ (MacCheck F))) (u : Turn F σ (MacCheck F)) (coins values : List (Elem F)) :
    Prop where
  sums : Sums records coins t
  goes : ∀ v ∈ between, v.result = .ok .hasMoreRounds
  decides : Decides records t.round (ownSigma t.before.2 coins records) values u

/-- **Covers.**  Among the calls there are two in which a check passed over the records, and its own share
of what the coins make of them is one of those that sum to zero. -/
def Covers (turns : List (Turn F σ (MacCheck F))) (records : List (OpenedValue F)) : Prop :=
  ∃ before t between u after coins values, turns = before ++ t :: between ++ u :: after ∧
    Passes records t between u coins values ∧ ownSigma t.before.2 coins records ∈ values

/-- **Hollow.**  Among the calls there are two in which a check passed over the records without any shares,
since the round in which they are shown was left out. -/
def Hollow (turns : List (Turn F σ (MacCheck F))) (records : List (OpenedValue F)) : Prop :=
  ∃ before t between u after coins, turns = before ++ t :: between ++ u :: after ∧
    Passes records t between u coins [] ∧ ∀ v ∈ between, v.round ≠ t.round + 3

/-- Nothing was taken out by the calls, or one of them broke the check. -/
def Lost (turns : List (Turn F σ (MacCheck F))) : Prop := drained turns = [] ∨ ∃ t ∈ turns, Breaks t

omit [Supplier F σ] in
theorem Lost.of_breaks (breaks : Breaks t) : Lost (turns ++ [t]) :=
  .inr ⟨t, List.mem_append_right _ List.mem_cons_self, breaks⟩

omit [Supplier F σ] in
/-- A call that takes nothing out changes nothing. -/
theorem Lost.call (lost : Lost turns) (nothing : taken t = []) : Lost (turns ++ [t]) := by
  rcases lost with none | ⟨u, among, breaks⟩
  · left
    rw [drained_append, drained_singleton, none, nothing, List.nil_append]
  · exact .inr ⟨u, List.mem_append_left _ among, breaks⟩

theorem Covers.call (covers : Covers turns records) : Covers (turns ++ [t]) records := by
  obtain ⟨before, u, between, v, after, coins, values, rfl, passes, own⟩ := covers
  exact ⟨before, u, between, v, after ++ [t], coins, values, by simp, passes, own⟩

theorem Hollow.call (hollow : Hollow turns records) : Hollow (turns ++ [t]) records := by
  obtain ⟨before, u, between, v, after, coins, rfl, passes, skipped⟩ := hollow
  exact ⟨before, u, between, v, after ++ [t], coins, by simp, passes, skipped⟩

theorem Covers.later (covers : Covers recent records) : Covers (earlier ++ recent) records := by
  obtain ⟨before, u, between, v, after, coins, values, rfl, passes, own⟩ := covers
  exact ⟨earlier ++ before, u, between, v, after, coins, values, by simp, passes, own⟩

theorem Hollow.later (hollow : Hollow recent records) : Hollow (earlier ++ recent) records := by
  obtain ⟨before, u, between, v, after, coins, rfl, passes, skipped⟩ := hollow
  exact ⟨earlier ++ before, u, between, v, after, coins, by simp, passes, skipped⟩

/-- **Account.**  What the calls so far tell about the check.  In all stages but the first the last of
them have taken out the records that it holds, and what the earlier ones took out was lost by a call that
broke the check. -/
inductive Account (turns : List (Turn F σ (MacCheck F))) (c : MacCheck F) : Prop where
  | idle (stage : c.stage = .idle) (lost : Lost turns)
  | coin {earlier recent : List (Turn F σ (MacCheck F))} {toss : Reveal F} (stage : c.stage = .coin toss)
    (split : turns = earlier ++ recent) (lost : Lost earlier) (took : drained recent = c.records)
  /-- The check has committed to its share, and bears it since. -/
  | sigma {earlier before between : List (Turn F σ (MacCheck F))} {t : Turn F σ (MacCheck F)}
    {coins : List (Elem F)} {sigmas : Reveal F} (stage : c.stage = .sigma t.round sigmas)
    (split : turns = earlier ++ (before ++ t :: between)) (lost : Lost earlier)
    (took : drained (before ++ t :: between) = c.records) (sums : Sums c.records coins t)
    (goes : ∀ v ∈ between, v.result = .ok .hasMoreRounds)
    (bears : sigmas.Bears (ownSigma t.before.2 coins c.records) (∃ v ∈ between, v.round = t.round + 3))
  | passed {earlier recent : List (Turn F σ (MacCheck F))} (stage : c.stage = .passed)
    (split : turns = earlier ++ recent) (lost : Lost earlier) (took : drained recent = c.records)
    (covers : Covers recent c.records ∨ Hollow recent c.records)

omit [Supplier F σ] in
theorem eq_of_stage {stage : CheckStage F} (here : c.stage = stage) :
    c = { stage, records := c.records } := by
  obtain ⟨_, _⟩ := c
  subst here
  rfl

/-- A call with which a check begins, once it is known what was lost before. -/
theorem Account.of_begins (genuine : t.Genuine) (first : t.round = 0) (idle : t.before.1.stage = .idle)
    (lost : Lost turns) : Account (turns ++ [t]) t.after.1 := by
  obtain ⟨took, ⟨failed, stage⟩ | ⟨toss, stage⟩⟩ := begins genuine first idle
  · refine .idle stage (.of_breaks ⟨failed, ?_⟩)
    rw [UnderWay, idle]
    exact first
  · exact .coin stage rfl lost ((drained_singleton t).trans took)

omit [Supplier F σ] in
/-- A call that takes nothing out of the store. -/
theorem drained_call (nothing : taken t = []) : drained (recent ++ [t]) = drained recent := by
  rw [drained_append, drained_singleton, nothing, List.append_nil]

/-- The check commits to its share. -/
theorem Account.of_sums (account : Account turns t.before.1) (nothing : taken t = []) {toss : Reveal F}
    {coins : List (Elem F)} {sigmas : Reveal F} (coin : t.before.1.stage = .coin toss)
    (sums : Sums t.before.1.records coins t)
    (bears : sigmas.Bears (ownSigma t.before.2 coins t.before.1.records) False) :
    Account (turns ++ [t]) { stage := .sigma t.round sigmas, records := t.before.1.records } := by
  cases account with
  | @coin earlier recent _ stage split lost took =>
      have hidden : ¬ ∃ v ∈ ([] : List (Turn F σ (MacCheck F))), v.round = t.round + 3 := by simp
      have split' : turns ++ [t] = earlier ++ (recent ++ t :: []) := by rw [split, List.append_assoc]
      exact .sigma rfl split' lost ((drained_call nothing).trans took) sums
        (fun _ among => absurd among List.not_mem_nil) (bears.mono fun shown => hidden shown)
  | idle stage | sigma stage | passed stage => rw [stage] at coin; cases coin

/-- The shares are revealed. -/
theorem Account.of_reveals (account : Account turns t.before.1) (nothing : taken t = []) {start : Nat}
    {sigmas sigmas' : Reveal F} {T : Party F σ} (revealing : t.before.1.stage = .sigma start sigmas)
    (later : start ≤ t.round)
    (goes : sigmas.Outcome t.before.2 (t.round - start) .hasMoreRounds sigmas' T)
    (result : t.result = .ok .hasMoreRounds) :
    Account (turns ++ [t]) { stage := .sigma start sigmas', records := t.before.1.records } := by
  cases account with
  | @sigma earlier before between u coins _ stage split lost took sums waits bears =>
      rw [stage] at revealing
      cases revealing
      have grown : before ++ u :: (between ++ [t]) = (before ++ u :: between) ++ [t] := by simp
      have split' : turns ++ [t] = earlier ++ (before ++ u :: (between ++ [t])) := by
        rw [split, grown, List.append_assoc]
      refine .sigma rfl split' lost ?_ sums ?_ ((goes.bears bears).mono ?_)
      · rw [grown]
        exact (drained_call nothing).trans took
      · rw [List.forall_mem_append, List.forall_mem_singleton]
        exact ⟨waits, result⟩
      · rintro ⟨v, among, here⟩
        rcases List.mem_append.mp among with before | last
        · exact .inl ⟨v, before, here⟩
        · obtain rfl := List.mem_singleton.mp last
          right
          omega
  | idle stage | coin stage | passed stage => rw [stage] at revealing; cases revealing

/-- The shares are out, and sum to zero. -/
theorem Account.of_passes (account : Account turns t.before.1) (nothing : taken t = []) {start : Nat}
    {sigmas sigmas' : Reveal F} {values : List (Elem F)}
    (revealing : t.before.1.stage = .sigma start sigmas)
    (shows : (((Reveal.evaluate (t.round - start) : Round F σ _ _).run sigmas).run t.before.2).Ends
      ((.ok .isDone, sigmas'), t.before.2))
    (goes : sigmas.Outcome t.before.2 (t.round - start) .isDone sigmas' t.before.2)
    (output : sigmas'.output = some values) (zero : Elem.sum values = 0)
    (result : t.result = .ok .isDone)
    (after : t.after.1 = { stage := .passed, records := t.before.1.records }) :
    Account (turns ++ [t]) { stage := .passed, records := t.before.1.records } := by
  cases account with
  | @sigma earlier before between u coins _ stage split lost took sums waits bears =>
      rw [stage] at revealing
      cases revealing
      obtain ⟨_, output', own⟩ := goes.bears bears
      cases output.symm.trans output'
      have passes : Passes t.before.1.records u between t coins values :=
        ⟨sums, waits, ⟨sigmas, sigmas', eq_of_stage stage, bears.value, shows, output⟩, zero, result, after⟩
      have last : (before ++ u :: between) ++ [t] = before ++ u :: between ++ t :: [] := by simp
      have split' : turns ++ [t] = earlier ++ ((before ++ u :: between) ++ [t]) := by
        rw [split, List.append_assoc]
      refine .passed rfl split' lost ((drained_call nothing).trans took) ?_
      rcases own with own | ⟨rfl, hidden⟩
      · exact .inl ⟨before, u, between, t, [], coins, values, last, passes, own⟩
      · refine .inr ⟨before, u, between, t, [], coins, last, passes, fun v among here => ?_⟩
        exact hidden ⟨v, among, here⟩
  | idle stage | coin stage | passed stage => rw [stage] at revealing; cases revealing

/-- **One more call.** -/
theorem Account.call (account : Account turns t.before.1) (genuine : t.Genuine) :
    Account (turns ++ [t]) t.after.1 := by
  by_cases first : t.round = 0 ∧ t.before.1.stage = .idle
  · cases account with
    | idle _ lost => exact .of_begins genuine first.1 first.2 lost
    | coin stage | sigma stage | passed stage => simp [stage] at first
  obtain ⟨nothing, outcome⟩ := goes genuine first
  generalize result : t.result = result', after : t.after.1 = c' at outcome
  cases outcome with
  | refuses _ rests =>
      cases account with
      | idle stage lost => exact .idle stage (lost.call nothing)
      | coin stage | sigma stage => simp [Rests, stage] at rests
      | passed stage split lost took covers =>
          refine .passed stage ?_ lost ((drained_call nothing).trans took) (covers.imp .call .call)
          rw [split, List.append_assoc]
  | breaks _ busy =>
      exact .idle rfl (.of_breaks ⟨⟨_, result⟩, underWay_of_busy busy⟩)
  | tosses coin =>
      cases account with
      | coin stage split lost took =>
          refine .coin rfl ?_ lost ((drained_call nothing).trans took)
          rw [split, List.append_assoc]
      | idle stage | sigma stage | passed stage => rw [stage] at coin; cases coin
  | sums coin shows _ output commits =>
      have bears := (commits.bears (Reveal.Bears.start _)).mono False.elim
      exact account.of_sums nothing coin
        ⟨⟨_, _, eq_of_stage coin, shows, output⟩, _, after, bears.value⟩ bears
  | reveals revealing later goes => exact account.of_reveals nothing revealing later goes result
  | passes revealing later shows goes output zero =>
      exact account.of_passes nothing revealing shows goes output zero result after

/-- All calls. -/
theorem Tried.account (tried : Tried turns c) : Account turns c := by
  induction tried with
  | new => exact .idle rfl (.inl rfl)
  | call before genuine ih => exact ih.call genuine

/-- **A check that has passed covered what it took out last,** and all that it ever took out, unless one
of its calls failed while it was under way.  It covered nothing in truth if the round was left out in
which the shares are shown. -/
theorem passed_covers_unless_broken (tried : Tried turns c) (passed : HasOutput.output c = some ()) :
    (Covers turns c.records ∨ Hollow turns c.records) ∧ c.records <:+ drained turns ∧
      ((∀ t ∈ turns, ¬ Breaks t) → c.records = drained turns) := by
  have done : c.stage = .passed := by
    obtain ⟨stage, records⟩ := c
    cases stage with
    | passed => rfl
    | idle | coin | sigma => cases passed
  cases tried.account with
  | passed stage split lost took covers =>
      subst split
      refine ⟨covers.imp .later .later, ?_, fun whole => ?_⟩
      · rw [drained_append, took]
        exact List.suffix_append _ _
      · rcases lost with none | ⟨t, among, breaks⟩
        · rw [drained_append, none, took, List.nil_append]
        · exact absurd breaks (whole t (List.mem_append_left _ among))
  | idle stage | coin stage | sigma stage => rw [done] at stage; cases stage

/-! ## Histories -/

/-- A check that begins does not remember anything. -/
theorem run_evaluate_idle (idle : c.stage = .idle) :
    ((evaluate 0 : Round F σ _ _).run c).run S = ((evaluate 0 : Round F σ _ _).run {}).run S := by
  obtain ⟨stage, records⟩ := c
  obtain rfl : stage = .idle := idle
  rfl

variable {n : Nat} {i : PartyId} {group : PartyId → Party F σ}

/-- The rounds before the last of a check by all parties, as calls by one of them. -/
theorem Tried.rounds (tried : Tried turns c) (idle : c.stage = .idle) (seated : Seated n group)
    (member : IsMember n i) {round : Nat} (due : round < 2 * switch n) :
    ∃ more, Tried (turns ++ more) (stateIn n group (round + 1) i) ∧
      ∀ t ∈ more, t.result = .ok .hasMoreRounds := by
  have ends := Exchange.ends_of_play (turns_check seated due i member)
  induction round with
  | zero =>
      have genuine : (((evaluate 0 : Round F σ _ _).run c).run (group i)).Ends
          ((.ok .hasMoreRounds, stateIn n group 1 i), partyIn n group 1 i) := by
        rw [run_evaluate_idle idle]
        exact ends
      exact ⟨_, tried.call (t := ⟨0, 0, (c, group i), .ok .hasMoreRounds, _, _⟩) genuine, by simp⟩
  | succ round ih =>
      have before : round < 2 * switch n := by omega
      obtain ⟨more, tried, goes⟩ := ih before (Exchange.ends_of_play (turns_check seated before i member))
      refine ⟨more ++ [⟨round + 1, 0, (stateIn n group (round + 1) i, partyIn n group (round + 1) i),
        .ok .hasMoreRounds, (stateIn n group (round + 2) i, partyIn n group (round + 2) i)⟩], ?_, ?_⟩
      · rw [← List.append_assoc]
        exact tried.call (t := ⟨round + 1, 0, _, _, _⟩) ends
      · rw [List.forall_mem_append, List.forall_mem_singleton]
        exact ⟨goes, rfl⟩

/-- The last round, if there is no discrepancy. -/
theorem Tried.passes (tried : Tried turns c) (idle : c.stage = .idle) (seated : Seated n group)
    (member : IsMember n i) (zero : discrepancy n group = 0) : ∃ more u,
      Tried (turns ++ (more ++ [u])) { stage := .passed, records := (group i).opened.toList } ∧
      (∀ t ∈ more, t.result = .ok .hasMoreRounds) ∧ u.result = .ok .isDone ∧
      u.after.1.records = (group i).opened.toList := by
  have positive : 1 < switch n := switch_pos
  obtain ⟨more, tried, goes⟩ := tried.rounds idle seated member (by omega : 2 * switch n - 1 < 2 * switch n)
  rw [Nat.sub_add_cancel (by omega)] at tried
  have ends := Exchange.ends_of_play (turns_verdict seated i member)
  simp only [verdict, ended, zero, if_true] at ends
  refine ⟨more, ⟨2 * switch n, 0, (stateIn n group (2 * switch n) i, partyIn n group (2 * switch n) i),
    .ok .isDone, ({ stage := .passed, records := (group i).opened.toList }, checked n group i)⟩,
    ?_, goes, rfl, rfl⟩
  rw [← List.append_assoc]
  exact tried.call (t := ⟨2 * switch n, 0, _, _, _⟩) ends

/-! ## Checks that pass -/

/-- A party of two with a record that is right, since the key is zero. -/
def soundParty (i : PartyId) : Party .f251 (Party.SimulatedSupplier .f251) :=
  { idleParty i with opened := { toList := [⟨⟨0, 0⟩, 1⟩] } }

/-- A check of such parties covers the record. -/
theorem passed_covers_unless_broken_sound :
    ∃ (turns : List (Turn .f251 (Party.SimulatedSupplier .f251) (MacCheck .f251))) (c : MacCheck .f251),
      Tried turns c ∧ HasOutput.output c = some () ∧ drained turns = [⟨⟨0, 0⟩, 1⟩] ∧
      (Covers turns (drained turns) ∨ Hollow turns (drained turns)) := by
  have seated : Seated 2 soundParty := fun _ _ => ⟨rfl, rfl⟩
  have sound : Sound 2 soundParty [1] := by
    refine ⟨fun _ _ => rfl, fun j small => ?_⟩
    obtain rfl : j = 0 := by simpa using small
    rfl
  obtain ⟨more, u, tried, goes, done, records⟩ := Tried.new.passes rfl seated
    (⟨le_rfl, by decide⟩ : IsMember 2 1) (discrepancy_eq_zero sound)
  have whole : ∀ t ∈ [] ++ (more ++ [u]), ¬ Breaks t := by
    rintro t among ⟨⟨e, failed⟩, -⟩
    simp only [List.nil_append, List.mem_append, List.mem_singleton] at among
    rcases among with before | rfl
    · rw [goes t before] at failed
      cases failed
    · rw [done] at failed
      cases failed
  obtain ⟨covers, -, all⟩ := passed_covers_unless_broken tried rfl
  refine ⟨_, _, tried, rfl, (all whole).symm, ?_⟩
  rw [← all whole]
  exact covers

/-- The first of two parties, with a record that is wrong. -/
def tamperedParty : Party .f251 (Party.SimulatedSupplier .f251) :=
  { idleParty 1 with opened := { toList := [⟨⟨0, 1⟩, 0⟩] } }

/-- The parties once the first one has begun to check its record. -/
def tamperedGroup (i : PartyId) : Party .f251 (Party.SimulatedSupplier .f251) :=
  { Reveal.committed (coinOf tamperedParty) (begun tamperedParty) with id := i }

/-- What opens its coin, at the place of either party. -/
def tamperedCoins (_ : PartyId) : Opening .f251 :=
  Reveal.openingOf (coinOf tamperedParty) (begun tamperedParty)

/-- The first call of a check by this party, which takes its record out. -/
def firstCall : Turn .f251 (Party.SimulatedSupplier .f251) (MacCheck .f251) where
  round := 0
  position := 0
  before := ({}, tamperedParty)
  result := .ok .hasMoreRounds
  after := (before 2 tamperedCoins tamperedCoins tamperedParty.opened.toList 1 1, tamperedGroup 1)

/-- A call with the number of a round that there is not. -/
def strayCall : Turn .f251 (Party.SimulatedSupplier .f251) (MacCheck .f251) where
  round := 7
  position := 0
  before := firstCall.after
  result := .error (.invalidRound "CommitmentProtocol" 7)
  after := ({ stage := .idle, records := tamperedParty.opened.toList }, tamperedGroup 1)

theorem tried_strayCall : Tried [firstCall, strayCall] strayCall.after.1 := by
  have plays : (evaluate 0 : Round .f251 _ _ _).play (peersOf 1 2) {} tamperedParty
      (.among (peersOf 1 2) (fun _ => []) []) = some (((.ok .hasMoreRounds,
        before 2 tamperedCoins tamperedCoins tamperedParty.opened.toList 1 1), tamperedGroup 1), _) :=
    play_first rfl rfl ⟨le_rfl, by decide⟩ rfl
  have first : firstCall.Genuine := Exchange.ends_of_play plays
  have stray : strayCall.Genuine := .done _
  exact (Tried.new.call first).call stray

/-- **A check that was broken can pass.**  In the first call it takes out a record that is wrong.  The next
one has the number of a round that there is not, and fails.  Then the check begins anew with nothing to
check, and passes. -/
theorem passed_after_break :
    ∃ (turns : List (Turn .f251 (Party.SimulatedSupplier .f251) (MacCheck .f251))) (c : MacCheck .f251),
      Tried turns c ∧ HasOutput.output c = some () ∧ strayCall ∈ turns ∧ ⟨⟨0, 1⟩, 0⟩ ∈ drained turns ∧
      c.records = [] ∧ ¬ Covers turns (drained turns) ∧ ¬ Hollow turns (drained turns) := by
  have member : IsMember 2 1 := ⟨le_rfl, by decide⟩
  have seated : Seated 2 tamperedGroup := fun _ _ => ⟨rfl, rfl⟩
  have nothing : Sound 2 tamperedGroup [] :=
    ⟨fun _ _ => rfl, fun j small => absurd small (Nat.not_lt_zero j)⟩
  obtain ⟨more, u, tried, goes, done, records⟩ := tried_strayCall.passes rfl seated member
    (discrepancy_eq_zero nothing)
  have took : ⟨⟨0, 1⟩, 0⟩ ∈ drained ([firstCall, strayCall] ++ (more ++ [u])) := by
    rw [drained_append]
    exact List.mem_append_left _ (by decide)
  -- the only call in which a check passed is the last one, and it held nothing
  have last : ∀ v ∈ [firstCall, strayCall] ++ (more ++ [u]), v.result = .ok .isDone →
      v.after.1.records = [] := by
    intro v among passes
    simp only [List.mem_append, List.mem_cons, List.not_mem_nil, or_false] at among
    rcases among with (rfl | rfl) | before | rfl
    · cases passes
    · cases passes
    · rw [goes v before] at passes
      cases passes
    · exact records
  have decided : ∀ {v start own values}, v ∈ [firstCall, strayCall] ++ (more ++ [u]) →
      ¬ Decides (drained ([firstCall, strayCall] ++ (more ++ [u]))) start own values v := by
    intro v start own values among decides
    obtain ⟨result, after⟩ := decides.passes
    have empty := last v among result
    rw [after] at empty
    exact List.ne_nil_of_mem took empty
  refine ⟨_, _, tried, rfl, by simp, took, rfl, ?_, ?_⟩
  · rintro ⟨before, t, between, v, after, coins, values, split, passes, -⟩
    exact decided (split ▸ by simp) passes.decides
  · rintro ⟨before, t, between, v, after, coins, split, passes, -⟩
    exact decided (split ▸ by simp) passes.decides

end MacCheck

end Spdz
