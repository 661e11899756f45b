/- # Proofs.Process.Histories -- what a run forgets, and what a history keeps

A run sets the trace switch, the level and the layout anew before it logs anything.
What it keeps is the sink of a handler that is attached already. Where this is
standard error, or no handler is attached, the logging of a run is that of its
settings, `Settings.logging`, whatever history lies behind it.

Such are the states of all histories whose set-ups ask for standard error: each step
keeps this of the handler and of the set-ups that factories still hold. And a tree
that is well-formed at the start of a history is so at every later time.

To logging, a run is the switch and the set-up that its settings ask for. So what is
known of the handlers behind logging steps is known behind runs and commands, too.
-/
import ArchiveRecord.Process
import ArchiveRecord.Proofs.Command.Exits
import ArchiveRecord.Proofs.FileTree.Shape
import ArchiveRecord.Proofs.Log.Handlers

open ArchiveRecord.Parser (Provider)

namespace ArchiveRecord

/-! ## States on standard error -/

namespace Log.State

/-- **`state.OnStderr`** -- a handler that is attached writes to standard error. -/
def OnStderr (state : State) : Prop :=
  ∀ handler, state.handler = some handler → handler.sink = .stderr

variable {state : State} {setup : Setup}

theorem onStderr_initial : initial.OnStderr := fun _ h => nomatch h

theorem onStderr_detach : state.detach.OnStderr := fun _ h => nomatch h

theorem OnStderr.switchTrace (h : state.OnStderr) (on : Bool) : (state.switchTrace on).OnStderr := h

/-- A set-up that asks for standard error decides everything but the trace switch. -/
theorem OnStderr.setUp_eq (h : state.OnStderr) (hsetup : setup.sink = .stderr) :
    state.setUp setup
      = ⟨setup.level, some ⟨.ofSwitch setup.json, .stderr⟩, state.traceSwitch⟩ := by
  rw [setUp]
  cases hhandler : state.handler with
  | none => simp only [hsetup]
  | some handler => simp only [h handler hhandler]

theorem OnStderr.setUp (h : state.OnStderr) (hsetup : setup.sink = .stderr) :
    (state.setUp setup).OnStderr := by
  intro handler hhandler
  rw [h.setUp_eq hsetup] at hhandler
  obtain rfl := Option.some.inj hhandler
  rfl

end Log.State

/-- The state of logging that settings describe. -/
def Settings.logging (settings : Settings) : Log.State :=
  ⟨settings.logLevel, some ⟨.ofSwitch settings.jsonLogs, .stderr⟩, settings.tracing⟩

/-- What a run makes of a state on standard error is what its settings describe. -/
theorem Log.State.OnStderr.configure_eq {state : State} (h : state.OnStderr)
    (settings : Settings) : settings.configure state = settings.logging :=
  (h.switchTrace settings.tracing).setUp_eq rfl

theorem Log.State.OnStderr.configure {state : State} (h : state.OnStderr) (settings : Settings) :
    (settings.configure state).OnStderr :=
  (h.switchTrace settings.tracing).setUp rfl

section Forgetting

variable {environment : Environment} {settings : Settings} {provider : Option Provider}
  {host : Host} {arguments : List String} {session other : Session}

/-- A run keeps logging on standard error. -/
theorem onStderr_run (h : session.logging.OnStderr) :
    (run environment settings provider host arguments session).session.logging.OnStderr := by
  rw [run_logging]
  exact h.configure settings

/-- Of two states on standard error, a run makes the same. -/
theorem run_forgets (h : session.logging.OnStderr) (hother : other.logging.OnStderr)
    (htree : session.tree = other.tree) :
    run environment settings provider host arguments session
      = run environment settings provider host arguments other := by
  unfold run
  rw [h.configure_eq, hother.configure_eq, htree]

theorem command_forgets (h : session.logging.OnStderr) (hother : other.logging.OnStderr)
    (htree : session.tree = other.tree) :
    command environment host arguments session
      = command environment host arguments other := by
  unfold command
  simp only [run_forgets h hother htree]

end Forgetting

/-! ## Histories on standard error -/

/-- **`world.OnStderr`** -- so does the handler of the state, and factories ask for nothing else. -/
structure Log.World.OnStderr (world : World) : Prop where
  state : world.state.OnStderr
  factories : ∀ id factory, world.factories.get? id = some factory → factory.setup.sink = .stderr

/-- A set-up in the step asks for standard error. -/
def Log.Step.AsksForStderr : Step → Prop
  | setUp setup => setup.sink = .stderr
  | makeFactory _ setup => setup.sink = .stderr
  | _ => True

/-- A set-up in the step asks for standard error; those of runs always do. -/
def Process.Step.AsksForStderr : Step → Prop
  | log step => step.AsksForStderr
  | _ => True

namespace Log.World.OnStderr

variable {world : World}

theorem initial : ({} : World).OnStderr := ⟨State.onStderr_initial, fun _ _ h => nomatch h⟩

/-- Factories that ask for standard error may be written to those of the world. -/
theorem insert_factory (h : world.OnStderr) {state : State} (hstate : state.OnStderr) (id : String)
    {factory : Factory} (hfactory : factory.setup.sink = .stderr) :
    ({ world with state, factories := world.factories.insert id factory } : World).OnStderr := by
  refine ⟨hstate, fun other found hfound => ?_⟩
  rw [OrderedMap.get?_insert] at hfound
  split at hfound
  · obtain rfl := Option.some.inj hfound
    exact hfactory
  · exact h.factories other found hfound

theorem askFactory (h : world.OnStderr) (id : String) : (world.askFactory id).OnStderr := by
  unfold World.askFactory
  split
  next factory hfactory =>
    have hsink := h.factories id factory hfactory
    split
    · exact h
    · exact h.insert_factory (h.state.setUp hsink) id hsink
  next => exact h

/-- Each logging step keeps the world on standard error. -/
theorem step (h : world.OnStderr) {step : Step} (hstep : step.AsksForStderr) :
    (world.step step).OnStderr := by
  cases step with
  | setUp setup => exact ⟨h.state.setUp hstep, h.factories⟩
  | makeFactory id setup => exact h.insert_factory h.state id hstep
  | askFactory id name => exact h.askFactory id
  | switchTrace on => exact ⟨h.state, h.factories⟩
  | changeEnvironment set unset => exact ⟨h.state, h.factories⟩
  | detach => exact ⟨State.onStderr_detach, h.factories⟩
  | askLogger | call | trace => exact h

end Log.World.OnStderr

namespace Process

variable {process : Process}

/-- Each step of a process keeps it on standard error. -/
theorem onStderr_step (h : process.world.OnStderr) {step : Step} (hstep : step.AsksForStderr) :
    (process.step step).world.OnStderr := by
  cases step with
  | run settings provider host arguments => exact ⟨onStderr_run h.state, h.factories⟩
  | command host arguments => exact ⟨onStderr_run h.state, h.factories⟩
  | write host archive output => exact h
  | log step => exact h.step hstep

/-- **A history whose set-ups ask for standard error stays there.** -/
theorem onStderr_after (h : process.world.OnStderr) {steps : List Step}
    (hsteps : ∀ step ∈ steps, step.AsksForStderr) : (process.after steps).world.OnStderr := by
  induction steps generalizing process with
  | nil => exact h
  | cons step rest ih =>
      exact ih (onStderr_step h (hsteps step List.mem_cons_self))
        fun later hlater => hsteps later (List.mem_cons_of_mem _ hlater)

end Process

/-- **Earlier runs do not leak into later ones.** Of two histories that leave no handler attached, or
one on standard error, the command makes the same in the same tree and environment: how it ends, what
it logs and the session that it leaves. The text on standard error is the same, and the level, the
layout and the trace switch are those of the settings. The same holds of runs. -/
theorem earlier_runs_forgotten (start otherStart : Process) (steps otherSteps : List Process.Step)
    (h : (start.after steps).world.state.OnStderr)
    (hother : (otherStart.after otherSteps).world.state.OnStderr)
    (environment : Environment) (settings : Settings) (provider : Option Provider)
    (host : Host) (arguments : List String) (tree : FileTree) (stamp : String) :
    let session : Session := ⟨(start.after steps).world.state, tree⟩
    let other : Session := ⟨(otherStart.after otherSteps).world.state, tree⟩
    let completion := command environment host arguments session
    let otherCompletion := command environment host arguments other
    let report := run environment settings provider host arguments session
    let otherReport := run environment settings provider host arguments other
    (completion = otherCompletion
        ∧ completion.session.logging.written stamp .stderr completion.calls
          = otherCompletion.session.logging.written stamp .stderr otherCompletion.calls
        ∧ completion.session.logging = (Settings.ofEnvironment environment).logging)
      ∧ report = otherReport
        ∧ report.session.logging.written stamp .stderr report.calls
          = otherReport.session.logging.written stamp .stderr otherReport.calls
        ∧ report.session.logging = settings.logging := by
  intro session other completion otherCompletion report otherReport
  have hcompletion : completion = otherCompletion := command_forgets h hother rfl
  have hreport : report = otherReport := run_forgets h hother rfl
  have hlogging (settings : Settings) (provider : Option Provider) :
      (run environment settings provider host arguments session).session.logging
        = settings.logging := run_logging.trans (h.configure_eq settings)
  refine ⟨⟨hcompletion, ?_, hlogging _ none⟩, hreport, ?_, hlogging settings provider⟩
  · rw [hcompletion]
  · rw [hreport]

/-- A process that has just started, and one behind a run that traced in JSON lines and a factory. -/
theorem earlier_runs_forgotten_behind :
    let steps : List Process.Step :=
      [.run (some ⟨true, Log.debug, true, false⟩) none {} [],
        .log (.makeFactory "f" ⟨true, Log.error, .stderr⟩), .log (.askFactory "f" "later")]
    let start : Process := {}
    let fresh : Session := ⟨(start.after []).world.state, .empty⟩
    let later : Session := ⟨(start.after steps).world.state, .empty⟩
    fresh.logging.OnStderr ∧ later.logging.OnStderr ∧ fresh.logging ≠ later.logging
      ∧ command ∅ {} [] fresh = command ∅ {} [] later
      ∧ (command ∅ {} [] later).session.logging
        = ⟨Log.warning, some ⟨.plain, .stderr⟩, false⟩ := by
  intro steps start fresh later
  have hsteps : ∀ step ∈ steps, step.AsksForStderr := by
    simp [steps, Process.Step.AsksForStderr, Log.Step.AsksForStderr]
  have hfresh : fresh.logging.OnStderr := Log.State.onStderr_initial
  have hlater : later.logging.OnStderr :=
    (Process.onStderr_after Log.World.OnStderr.initial hsteps).state
  obtain ⟨⟨hcompletion, -, hlogging⟩, -⟩ :=
    earlier_runs_forgotten start start [] steps hfresh hlater ∅ {} none {} [] .empty ""
  exact ⟨hfresh, hlater, by decide +kernel, hcompletion, hcompletion ▸ hlogging⟩

/-! ## Handlers -/

/-- The logging steps of a run with the settings. -/
def Settings.loggingSteps (settings : Settings) : List Log.Step :=
  [.switchTrace settings.tracing, .setUp settings.setup]

namespace Process

variable {process : Process}

/-- The logging steps of a step, in the environment in which it is carried out. -/
def Step.loggingSteps (environment : Environment) : Step → List Log.Step
  | run settings _ _ _ => (settings.getD (.ofEnvironment environment)).loggingSteps
  | command _ _ => (Settings.ofEnvironment environment).loggingSteps
  | write _ _ _ => []
  | log step => [step]

/-- The logging steps of a history. -/
def loggingSteps (process : Process) : List Step → List Log.Step
  | [] => []
  | step :: rest =>
    step.loggingSteps process.world.environment ++ (process.step step).loggingSteps rest

/-- A step does to logging what its logging steps do. -/
theorem world_step (process : Process) (step : Step) : (process.step step).world
    = process.world.after (step.loggingSteps process.world.environment) := by
  cases step with
  | run settings provider host arguments =>
      exact congrArg (fun state => { process.world with state }) run_logging
  | command host arguments =>
      exact congrArg (fun state => { process.world with state }) run_logging
  | write host archive output => rfl
  | log step => rfl

/-- **So does a history.** -/
theorem world_after (process : Process) (steps : List Step) :
    (process.after steps).world = process.world.after (process.loggingSteps steps) := by
  induction steps generalizing process with
  | nil => rfl
  | cons step rest ih =>
      show ((process.step step).after rest).world = _
      rw [ih, world_step, loggingSteps, Log.World.after, Log.World.after, Log.World.after,
        List.foldl_append]

/-- **The handlers behind a history are those that its world shows**: one where a handler is
attached, else none. -/
theorem shownBy_after {records : Log.Records} (h : records.ShownBy process.world)
    (steps : List Step) :
    (records.after (process.loggingSteps steps)).ShownBy (process.after steps).world := by
  rw [world_after]
  exact h.after (process.loggingSteps steps)

/-- Behind a run on standard error one handler is attached, with the layout of the settings. -/
theorem attached_run {records : Log.Records} (h : records.ShownBy process.world)
    (hstderr : process.world.state.OnStderr) (settings : Settings) :
    let base := (records.after settings.loggingSteps).base
    base.attached.map Prod.snd = [⟨.ofSwitch settings.jsonLogs, .stderr⟩]
      ∧ base.level = settings.logLevel := by
  intro base
  have hshown := h.after settings.loggingSteps
  have hstate : (process.world.after settings.loggingSteps).state = settings.logging :=
    hstderr.configure_eq settings
  have hattached := hshown.holds.attached_eq
  have hlevel := hshown.level
  rw [hstate] at hattached hlevel
  exact ⟨hattached, hlevel⟩

end Process

/-! ## Trees -/

/-- A plan that a run makes keeps the tree well-formed. -/
theorem FileTree.carryOut_plan_wellFormed {tree : FileTree} (h : tree.WellFormed)
    (provider : Option Provider) (host : Host) (arguments : List String) :
    (tree.carryOut host (tree.plan provider host arguments)).2.WellFormed := by
  rcases tree.plan_cases provider host arguments with hplan | ⟨_, -, hplan⟩ | ⟨_, -, -, hplan⟩
  · rw [hplan]
    exact h
  · rw [hplan]
    exact h
  · rw [hplan]
    exact write_wellFormed h host (fun name hmem => Path.isNormal_ofString hmem) _

/-- **Every run leaves a well-formed tree**, however it ends. -/
theorem run_wellFormed {session : Session} (h : session.tree.WellFormed) (environment : Environment)
    (settings : Settings) (provider : Option Provider) (host : Host) (arguments : List String) :
    (run environment settings provider host arguments session).session.tree.WellFormed := by
  obtain ⟨-, htree⟩ :=
    Prod.mk.inj (run_eq_carryOut provider host arguments environment settings session)
  rw [htree]
  exact FileTree.carryOut_plan_wellFormed h provider host arguments

theorem Archive.tree_write (archive : Archive) (host : Host) (tracing : Bool) (output : String)
    (tree : FileTree) : (archive.write host tracing output tree).tree
      = (tree.write host (Path.ofString output) (archive.content host)).1 := by
  unfold write
  dsimp only
  split
  next hwrite => rw [hwrite]
  next hwrite => rw [hwrite]

namespace Process

variable {process : Process}

theorem wellFormed_step (h : process.tree.WellFormed) (step : Step) :
    (process.step step).tree.WellFormed := by
  cases step with
  | run settings provider host arguments => exact run_wellFormed h _ _ provider host arguments
  | command host arguments => exact run_wellFormed h _ _ none host arguments
  | write host archive output =>
      show (archive.write host process.world.isTracing output process.tree).tree.WellFormed
      rw [archive.tree_write]
      exact FileTree.write_wellFormed h host (fun name hmem => Path.isNormal_ofString hmem) _
  | log step => exact h

/-- **A history keeps the tree well-formed.** -/
theorem wellFormed_after (h : process.tree.WellFormed) (steps : List Step) :
    (process.after steps).tree.WellFormed := by
  induction steps generalizing process with
  | nil => exact h
  | cons step rest ih => exact ih (wellFormed_step h step)

end Process

end ArchiveRecord
