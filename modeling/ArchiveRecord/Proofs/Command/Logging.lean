/- # Proofs.Command.Logging -- logging has no influence

Of its environment the command needs one variable for how it ends: the one for
debugging. The variables for logging, and whatever logging state it starts from,
decide what is said and nothing else. For a parse alone this holds of the trace
switch and of any logger that it is given.
-/
import ArchiveRecord.Proofs.Command.Exits
import ArchiveRecord.Proofs.Parser.Announcing

open ArchiveRecord.Parser (Announcement State parse parseTelling)

namespace ArchiveRecord

/-- Whether debugging is on depends on one variable. -/
theorem Settings.debug_congr {environment other : Environment}
    (h : environment.get? "DEBUG" = other.get? "DEBUG") :
    (ofEnvironment environment).debug = (ofEnvironment other).debug := by
  rw [Bool.eq_iff_iff, debug_ofEnvironment_iff, debug_ofEnvironment_iff, h]

/-- Of the settings, only debugging bears on the exit. -/
theorem Ending.exit_congr {settings other : Settings} (h : settings.debug = other.debug)
    (ending : Ending) : ending.exit settings = ending.exit other := by
  cases ending with
  | wrote path => rfl
  | interrupted => rfl
  | failed fault => rw [exit, exit, h]

/-- The command ends alike, and leaves the same tree, wherever debugging is alike. -/
theorem command_congr {environment other : Environment}
    (hdebug : environment.get? "DEBUG" = other.get? "DEBUG") (host : Host)
    (arguments : List String) {session otherSession : Session}
    (htree : session.tree = otherSession.tree) :
    (command environment host arguments session).exit
        = (command other host arguments otherSession).exit
      ∧ (command environment host arguments session).session.tree
        = (command other host arguments otherSession).session.tree := by
  obtain ⟨hending, hleft⟩ := run_congr none host arguments htree environment other
    (.ofEnvironment environment) (.ofEnvironment other)
  refine ⟨?_, hleft⟩
  show (Ending.exit _ _).1 = (Ending.exit _ _).1
  rw [hending, Ending.exit_congr (Settings.debug_congr hdebug)]

/-- A parse with any announcement is a parse with the trace switch on or off, but for log calls. -/
theorem Parser.parse_unlogged {σ : Type} (tracing : Bool) (announce : Announcement σ) (depth : Nat)
    (arguments : List String) (state : State σ) :
    (parse tracing depth arguments state).unlogged
      = (parseTelling announce depth arguments state).unlogged := by
  rw [← parseTelling_ofSwitch]
  exact parseTelling_unlogged_congr depth arguments state

/-- **Logging has no influence.** In environments that agree on debugging, and from any states of
logging, the command ends alike on a host and leaves the same tree. Whether the trace switch is on, and
whatever announcements go to whatever logger, a parse makes the same events but for log calls, ends
alike and leaves the same state. -/
theorem logging_without_influence (environment other : Environment)
    (hdebug : environment.get? "DEBUG" = other.get? "DEBUG") (logging otherLogging : Log.State)
    (host : Host) (arguments : List String) (tree : FileTree) :
    let completion := command environment host arguments ⟨logging, tree⟩
    let otherCompletion := command other host arguments ⟨otherLogging, tree⟩
    (completion.exit = otherCompletion.exit
        ∧ completion.session.tree = otherCompletion.session.tree)
      ∧ ∀ (σ : Type) (tracing : Bool) (announce : Announcement σ) (depth : Nat)
          (parsed : List String) (state : State σ),
          let run := parse tracing depth parsed state
          let told := parseTelling announce depth parsed state
          run.events.filter Parser.Event.isUnlogged = told.events.filter Parser.Event.isUnlogged
            ∧ run.state = told.state ∧ run.outcome = told.outcome := by
  intro completion otherCompletion
  refine ⟨command_congr hdebug host arguments rfl, ?_⟩
  intro σ tracing announce depth parsed state
  exact Parser.Run.unlogged_eq_iff.mp (Parser.parse_unlogged tracing announce depth parsed state)

/-- A quiet command, and one that traces in JSON lines behind a run that logged elsewhere. -/
theorem logging_without_influence_tracing :
    let traced : Environment :=
      .ofList [("ARCHIVEJSON_TRACE_IO", "1"), ("ARCHIVEJSON_JSON_LOGS", "1")]
    let elsewhere : Log.State := ⟨Log.error, some ⟨.plain, .named "s1"⟩, true⟩
    let arguments := [Flag.outputFile.name, "a.json"]
    let quiet := command ∅ {} arguments ⟨{}, .empty⟩
    let loud := command traced {} arguments ⟨elsewhere, .empty⟩
    let state : State Target := ⟨{ provider := FileTree.empty.provider }, {}⟩
    OrderedMap.get? (∅ : Environment) "DEBUG" = traced.get? "DEBUG"
      ∧ quiet.calls.length = 1 ∧ loud.calls.length = 2
      ∧ quiet.exit = loud.exit ∧ quiet.session.tree = loud.session.tree
      ∧ (parse true 1 ["@p"] state).outcome
        = (parseTelling (fun _ _ => []) 1 ["@p"] state).outcome := by
  intro traced elsewhere arguments quiet loud state
  have hdebug : OrderedMap.get? (∅ : Environment) "DEBUG" = traced.get? "DEBUG" := by decide
  obtain ⟨⟨hexit, htree⟩, hparse⟩ :=
    logging_without_influence ∅ traced hdebug {} elsewhere {} arguments .empty
  exact ⟨hdebug, by decide +kernel, by decide +kernel, hexit, htree,
    (hparse Target true (fun _ _ => []) 1 ["@p"] state).2.2⟩

end ArchiveRecord
