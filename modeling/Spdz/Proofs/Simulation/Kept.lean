import Spdz.Proofs.Gates.Requests
import Spdz.Proofs.Simulation.Plain
import Spdz.Simulation.Actor

/-!
# What parties keep of a computation

Each party keeps shares where the computation in plain keeps values, under the same names and in the
same order.  The shares that all parties keep at one place are a sharing of the value there.

* `Keeps` — shares of all parties and the values that they are sharings of.
* `Plain.Result.Shows`, `Plain.Report.Shows` — results of all parties that show what was computed.
* `Plain.Result.Shows.keeps` — what all parties keep of such results.
-/

namespace Spdz

variable {F : FieldSpec} {σ : Type} {n : Nat} {key : Elem F}

/-! ## Shares and values by name -/

/-- A name, the shares that all parties keep under it, and the value that they share. -/
structure Variable (F : FieldSpec) where
  name : String
  share : PartyId → Share F
  value : Elem F

/-- **Keeps.**  What all parties keep are sharings of the values. -/
def Keeps (n : Nat) (key : Elem F) (kept : PartyId → List (String × Share F))
    (values : List (String × Elem F)) : Prop :=
  ∃ vars : List (Variable F),
    (∀ i, IsMember n i → kept i = vars.map fun v => (v.name, v.share i)) ∧
    values = vars.map (fun v => (v.name, v.value)) ∧
    ∀ v ∈ vars, IsSharing n key v.share v.value

namespace Keeps

variable {kept kept' : PartyId → List (String × Share F)} {values values' : List (String × Elem F)}

theorem nil : Keeps n key (fun _ => []) [] :=
  ⟨[], fun _ _ => rfl, rfl, fun _ mem => absurd mem List.not_mem_nil⟩

theorem append (first : Keeps n key kept values) (second : Keeps n key kept' values') :
    Keeps n key (fun i => kept i ++ kept' i) (values ++ values') := by
  obtain ⟨vars, shares, rfl, sharings⟩ := first
  obtain ⟨vars', shares', rfl, sharings'⟩ := second
  refine ⟨vars ++ vars', fun i member => ?_, List.map_append.symm, fun v mem => ?_⟩
  · simp only [shares i member, shares' i member, List.map_append]
  · exact (List.mem_append.mp mem).elim (sharings v) (sharings' v)

/-- Only members count. -/
theorem congr (keeps : Keeps n key kept values) (same : ∀ i, IsMember n i → kept i = kept' i) :
    Keeps n key kept' values := by
  obtain ⟨vars, shares, rest⟩ := keeps
  exact ⟨vars, fun i member => (same i member).symm.trans (shares i member), rest⟩

/-- Where there is a value, there is a sharing of it. -/
theorem lookup (keeps : Keeps n key kept values) {name : String} {x : Elem F}
    (here : values.lookup name = some x) : ∃ z : PartyId → Share F,
      (∀ i, IsMember n i → (kept i).lookup name = some (z i)) ∧ IsSharing n key z x := by
  obtain ⟨vars, shares, rfl, sharings⟩ := keeps
  induction vars generalizing kept with
  | nil => simp at here
  | cons v vars ih =>
      simp only [List.map_cons, List.lookup_cons] at here
      by_cases same : (name == v.name) = true
      · rw [same] at here
        obtain rfl : v.value = x := Option.some.inj here
        refine ⟨v.share, fun i member => ?_, sharings v List.mem_cons_self⟩
        rw [shares i member, List.map_cons, List.lookup_cons, same]
      · rw [Bool.not_eq_true] at same
        rw [same] at here
        obtain ⟨z, found, sharing⟩ := ih (fun _ _ => rfl)
          (fun w mem => sharings w (List.mem_cons_of_mem v mem)) here
        refine ⟨z, fun i member => ?_, sharing⟩
        rw [shares i member, List.map_cons, List.lookup_cons, same]
        exact found i member

end Keeps

/-! ## Results -/

namespace Plain

/-- **Shows.**  The results of all parties are what was computed: shared, open to all or to one. -/
def Result.Shows (n : Nat) (key : Elem F) (out : PartyId → Output F) : Result F → Prop
  | shared v => ∃ z : PartyId → Share F, (∀ i, IsMember n i → out i = .share (z i)) ∧
      IsSharing n key z v
  | value v => ∀ i, IsMember n i → out i = .value v
  | target t v => ∀ i, IsMember n i → out i = .target (if i = t then some v else none)
  | pipe vs => ∃ z : PartyId → List (Share F),
      (∀ i, IsMember n i → out i = .shares (z i) ∧ (z i).length = vs.length) ∧
      ∀ k < vs.length, IsSharing n key (fun i => (z i).getD k 0) (vs.getD k 0)
  | values vs => ∀ i, IsMember n i → out i = .values vs
  | unit => ∀ i, IsMember n i → out i = .unit

/-- The entries in the logs of all parties are what a step comes to. -/
def Report.Shows (n : Nat) (key : Elem F) (entry : PartyId → Entry F) : Report F → Prop
  | result r => ∃ out, (∀ i, IsMember n i → entry i = .output (out i)) ∧ r.Shows n key out
  | results rs => ∃ outs : List (PartyId → Output F),
      (∀ i, IsMember n i → entry i = .outputs (outs.map fun out => out i)) ∧
      List.Forall₂ (fun r out => Result.Shows n key out r) rs outs
  | batch rs => ∃ outs : List (PartyId → Output F),
      (∀ i, IsMember n i → entry i = .batch (outs.map fun out => some (out i)) none) ∧
      List.Forall₂ (fun r out => Result.Shows n key out r) rs outs
  | stats => ∃ account : PartyId → Stats, ∀ i, IsMember n i → entry i = .stats (account i)

/-- Only members count. -/
theorem Report.Shows.congr {entry entry' : PartyId → Entry F} {report : Report F}
    (shows : report.Shows n key entry) (same : ∀ i, IsMember n i → entry i = entry' i) :
    report.Shows n key entry' := by
  cases report with
  | result r =>
      obtain ⟨out, entries, shows⟩ := shows
      exact ⟨out, fun i member => (same i member).symm.trans (entries i member), shows⟩
  | results rs =>
      obtain ⟨outs, entries, shows⟩ := shows
      exact ⟨outs, fun i member => (same i member).symm.trans (entries i member), shows⟩
  | batch rs =>
      obtain ⟨outs, entries, shows⟩ := shows
      exact ⟨outs, fun i member => (same i member).symm.trans (entries i member), shows⟩
  | stats =>
      obtain ⟨account, entries⟩ := shows
      exact ⟨account, fun i member => (same i member).symm.trans (entries i member)⟩

end Plain

/-! ## Keeping results -/

/-- The shares that are kept of a result, the latest first. -/
def Output.bindings : Option String → Output F → List (String × Share F)
  | some name, share s => [(name, s)]
  | some name, shares all =>
    (all.zipIdx.map fun (s, position) => (s!"{name}.{position}", s)).reverse
  | _, _ => []

/-- Keeping a result changes nothing but what is kept. -/
theorem Actor.keepOutput_eq (actor : Actor F σ) (keepAs : Option String) (output : Output F) :
    actor.keepOutput keepAs output
      = { actor with kept := output.bindings keepAs ++ actor.kept } := by
  have several : ∀ (name : String) (all : List (Share F × Nat)) (actor : Actor F σ),
      all.foldl (fun actor (s, position) => actor.keep s!"{name}.{position}" s) actor
        = { actor with kept :=
              (all.map fun (s, position) => (s!"{name}.{position}", s)).reverse ++ actor.kept } := by
    intro name all
    induction all with
    | nil => exact fun actor => rfl
    | cons one all ih =>
        intro actor
        rw [List.foldl_cons, ih]
        simp [Actor.keep]
  cases keepAs with
  | none => rfl
  | some name =>
      cases output with
      | shares all => exact several name all.zipIdx actor
      | _ => rfl

/-- All parties keep sharings of what was computed. -/
theorem Plain.Result.Shows.keeps {out : PartyId → Output F} {result : Result F}
    (shows : result.Shows n key out) (keepAs : Option String) :
    Keeps n key (fun i => (out i).bindings keepAs) (result.bindings keepAs) := by
  cases keepAs with
  | none => exact Keeps.nil.congr fun i _ => rfl
  | some name =>
      cases result with
      | shared v =>
          obtain ⟨z, outputs, sharing⟩ := shows
          refine ⟨[⟨name, z, v⟩], fun i member => ?_, rfl, List.forall_mem_singleton.mpr sharing⟩
          simp only [outputs i member, Output.bindings, List.map_cons, List.map_nil]
      | pipe vs =>
          obtain ⟨z, outputs, sharings⟩ := shows
          refine ⟨(vs.zipIdx.map fun entry =>
            ⟨s!"{name}.{entry.2}", fun i => (z i).getD entry.2 0, entry.1⟩).reverse,
            fun i member => ?_, ?_, fun v mem => ?_⟩
          · obtain ⟨output, length⟩ := outputs i member
            simp only [output, Output.bindings, List.map_reverse, List.map_map]
            refine congrArg List.reverse (List.ext_getElem (by simp [length]) fun k small _ => ?_)
            have here : k < (z i).length := by simpa using small
            simp [here]
          · rw [Result.bindings, List.map_reverse, List.map_map]
            rfl
          · rw [List.mem_reverse] at mem
            obtain ⟨⟨w, position⟩, here, rfl⟩ := List.mem_map.mp mem
            have found : vs[position]? = some w := List.mem_zipIdx_iff_getElem?.mp here
            obtain ⟨small, rfl⟩ := List.getElem?_eq_some_iff.mp found
            have sharing := sharings position small
            rwa [List.getD_eq_getElem?_getD, found] at sharing
      | value v => exact Keeps.nil.congr fun i member => by simp only [shows i member, Output.bindings]
      | target t v => exact Keeps.nil.congr fun i member => by simp only [shows i member, Output.bindings]
      | values vs => exact Keeps.nil.congr fun i member => by simp only [shows i member, Output.bindings]
      | unit => exact Keeps.nil.congr fun i member => by simp only [shows i member, Output.bindings]

end Spdz
