import Spdz.Proofs.Evaluation.Embedded
import Spdz.Simulation.Actor
import Spdz.Simulation.Routine

/-!
# The steps of one actor

An actor takes the steps of its script one after the other.  Here this is one exchange that ends with
what each step came to, and a step that calls one of the session's own functions is a step that runs
the protocol.

* `Actor.perform` — a whole script; `Routine.collect_ofSteps`, what it reports are its entries.
* `Actor.within_whole` — what an actor does that has a session.
* **`Actor.call_eq_run`** — the session's own functions run the protocols.
-/

namespace Spdz

variable {F : FieldSpec} {σ α β : Type}

/-! ## Whole scripts -/

/-- What a routine reports, as the result of an exchange. -/
def Routine.collect {ε : Type} : Routine ε → Exchange (List ε)
  | .ended => .done []
  | .call made next => .call made fun reply => (next reply).collect
  | .report entry rest => rest.collect >>= fun entries => .done (entry :: entries)

theorem Routine.collect_andThen {ε : Type} (x : Exchange α) (next : α → Routine ε) :
    (x.andThen next).collect = x >>= fun result => (next result).collect := by
  induction x with
  | done result => rfl
  | call made rest ih => exact congrArg (Exchange.call made) (funext ih)

namespace Actor

section Scripts

variable [Supplier F σ]

/-- Follow the steps of a script, and collect what they end with. -/
def perform : List (Step F) → Actor F σ → Exchange (List (Outcome F σ))
  | [], _ => return []
  | step :: steps, actor => do
    let outcome ← actor.follow step
    let later ← perform steps outcome.2
    return outcome :: later

/-- What an actor reports are the entries of the steps it takes. -/
theorem collect_ofSteps (steps : List (Step F)) (actor : Actor F σ) :
    (Routine.ofSteps follow steps actor).collect
      = perform steps actor >>= fun outcomes => .done (outcomes.map (·.1)) := by
  induction steps generalizing actor with
  | nil => rfl
  | cons step steps ih =>
      rw [Routine.ofSteps, Routine.collect_andThen, perform, bind_assoc]
      refine congrArg _ (funext fun outcome => ?_)
      rw [bind_assoc, Routine.collect, ih, bind_assoc]
      rfl

end Scripts

/-! ## Sessions of actors -/

/-- What an actor comes to when its session has done something. -/
def concluded (entry : α → Actor F σ → Outcome F σ) (actor : Actor F σ) :
    Except Error α × Session F σ → Outcome F σ
  | (.ok value, session) => entry value { actor with stage := .whole session }
  | (.error e, session) => (.failed e, { actor with stage := .whole session })

/-- What an actor does that has a session. -/
theorem within_whole {actor : Actor F σ} {session : Session F σ} (stage : actor.stage = .whole session)
    (work : Evaluation F σ α) (entry : α → Actor F σ → Outcome F σ) :
    actor.within work entry
      = work.run.run session >>= fun result => .done (actor.concluded entry result) := by
  rw [within, stage]
  refine congrArg (work.run.run session >>= ·) (funext ?_)
  rintro ⟨result | result, session⟩ <;> rfl

/-- It does not matter where a result is converted. -/
theorem within_map (actor : Actor F σ) (work : Evaluation F σ α) (convert : α → β)
    (entry : β → Actor F σ → Outcome F σ) :
    actor.within (convert <$> work) entry = actor.within work fun result => entry (convert result) := by
  rw [within, within]
  cases actor.stage with
  | whole session =>
      simp only [ExceptT.run_map, StateT.run_map, bind_map_left]
      refine congrArg _ (funext ?_)
      rintro ⟨result | result, session⟩ <;> rfl
  | split party => rfl
  | gone => rfl

variable [Supplier F σ]

/-- What an actor comes to when its session has run a batch. -/
def showBatch (parts : List (BatchPart F)) (actor : Actor F σ) :
    (Except Error Unit × List (ScriptedProtocol F)) × Session F σ → Outcome F σ
  | ((result, protocols), session) =>
    let outputs := protocols.map ScriptedProtocol.output
    let failure := match result with
      | .ok () => none
      | .error e => some e
    (.batch outputs failure, { actor with stage := .whole session }.keepOutputs parts outputs)

/-- What an actor does that runs a batch. -/
theorem batch_whole {actor : Actor F σ} {session : Session F σ} (stage : actor.stage = .whole session)
    {parts : List (BatchPart F)} {protocols : List (ScriptedProtocol F)}
    (built : (parts.mapM fun part => actor.build part.protocol) = .ok protocols) :
    actor.batch parts = (Session.runBatch protocols).run session >>= fun result =>
      .done (actor.showBatch parts result) := by
  rw [batch, built, given, stage]
  rfl

/-- Running a gate is running the protocol that the gate is. -/
theorem run_gate {P Out : Type} [Protocol F σ P] [HasOutput P Out] {gate : P → Gate F}
    {convert : Out → Output F}
    (embeds : Embeds (F := F) σ gate)
    (name : ∀ p, (gate p).name = HasOutput.name p)
    (output : ∀ p, (gate p).output = (HasOutput.output p).map convert) (actor : Actor F σ)
    (keepAs : Option String) (p : P) :
    (actor.within (Session.run p) fun result => showOutput keepAs (convert result))
      = actor.within (Session.run (ScriptedProtocol.gate (gate p))) fun result =>
          showOutput keepAs result := by
  have scripted : Embeds (F := F) σ fun p => ScriptedProtocol.gate (gate p) :=
    Embeds.comp (fun _ _ => rfl) embeds
  rw [Session.run_embed scripted name output p, within_map]

/-- **The session's own functions run the protocols.** -/
theorem call_eq_run (actor : Actor F σ) (keepAs : Option String) (protocol : Blueprint F) :
    actor.call keepAs protocol = actor.carryOut keepAs (.run protocol) := by
  cases protocol with
  | input inputter own =>
      exact run_gate (fun _ _ => rfl) (fun _ => rfl) (fun _ => rfl) actor keepAs _
  | checkedInput inputter own =>
      exact run_gate (fun _ _ => rfl) (fun _ => rfl) (fun _ => rfl) actor keepAs _
  | multiply x y =>
      rw [call, carryOut, build]
      cases actor.operand x with
      | error name => rfl
      | ok x =>
          cases actor.operand y with
          | error name => rfl
          | ok y => exact run_gate (fun _ _ => rfl) (fun _ => rfl) (fun _ => rfl) actor keepAs _
  | openAll share =>
      rw [call, carryOut, build]
      cases actor.operand share with
      | error name => rfl
      | ok x => exact run_gate (fun _ _ => rfl) (fun _ => rfl) (fun _ => rfl) actor keepAs _
  | openTo share target =>
      rw [call, carryOut, build]
      cases actor.operand share with
      | error name => rfl
      | ok x => exact run_gate (fun _ _ => rfl) (fun _ => rfl) (fun _ => rfl) actor keepAs _
  | element =>
      exact run_gate (fun _ _ => rfl) (fun _ => rfl) (fun _ => rfl) actor keepAs _
  | bit | pipe _ | known _ | reveal _ | validation _ | macCheck | hollow _ => rfl

end Actor

end Spdz
