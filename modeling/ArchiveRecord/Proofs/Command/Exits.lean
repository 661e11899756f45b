/- # Proofs.Command.Exits -- how the command ends, and what it says then

The command ends as its run does: with 0 where that succeeds, with 130 where it is
interrupted, and with 1 or with the run's own fault where it fails. Every fault that
a run can meet but one is among those that the command expects, so that for these
only debugging decides between the last two. The one is that of a run whose output
lies so deep that calls do not nest: it is passed on in any case.

A run itself only makes log calls for diagnostics and, at its end, one for a normal
event. So the call that reports a fault is the one failure that is logged, and the
last call of all. All of them go to four loggers that hang below the base logger, so
that what becomes of them is told by the state of logging.
-/
import ArchiveRecord.Proofs.Command.Faults
import ArchiveRecord.Proofs.Command.Nested
import ArchiveRecord.Proofs.Log.Delivery

open ArchiveRecord.Parser (Event Run State)

namespace ArchiveRecord

/-! ## What is logged while flags are dispatched -/

theorem mem_loggedCalls_iff {events : List Event} {call : Log.Call} :
    call ∈ loggedCalls events ↔ .logged call ∈ events := by
  rw [loggedCalls, List.mem_filterMap]
  constructor
  · rintro ⟨event, hmem, hcall⟩
    cases event with
    | logged found =>
        obtain rfl := Option.some.inj hcall
        exact hmem
    | _ => cases hcall
  · intro hmem
    exact ⟨_, hmem, rfl⟩

/-- The names under which the command asks for loggers. -/
def ownNames : List String := ["cli", "flags", "io.writer", "parser"]

/-- **`call.IsOwn`** -- the call goes to a logger of the command. -/
def Log.Call.IsOwn (call : Log.Call) : Prop := ∃ name ∈ ownNames, call.logger = loggerName name

/-- **`call.IsDiagnostic`** -- it does, and is for diagnostics. -/
def Log.Call.IsDiagnostic (call : Log.Call) : Prop := call.IsOwn ∧ call.level = debug

/-- **`OnlyDebugs events`** -- what is logged among the events is for diagnostics. -/
def OnlyDebugs (events : List Event) : Prop :=
  ∀ call, Event.logged call ∈ events → call.IsDiagnostic

namespace OnlyDebugs

variable {first second : List Event}

theorem nil : OnlyDebugs [] := fun _ hmem => absurd hmem List.not_mem_nil

theorem append (h : OnlyDebugs first) (k : OnlyDebugs second) : OnlyDebugs (first ++ second) := by
  intro call hmem
  rcases List.mem_append.mp hmem with hfirst | hsecond
  · exact h call hfirst
  · exact k call hsecond

theorem singleton (event : Event) (h : ∀ call, event = .logged call → call.IsDiagnostic) :
    OnlyDebugs [event] := by
  intro call hmem
  exact h call (List.mem_singleton.mp hmem).symm

end OnlyDebugs

theorem Flag.onlyDebugs_logEvents (flag : Flag) (value : String) :
    OnlyDebugs (flag.logEvents value) := by
  unfold logEvents
  split
  · refine .singleton _ fun call hcall => ?_
    obtain rfl := Event.logged.inj hcall
    exact ⟨⟨"flags", by decide, rfl⟩, rfl⟩
  · exact .nil

theorem Parser.onlyDebugs_tracingEvents (tracing : Bool) (handle : String) :
    OnlyDebugs (tracingEvents tracing handle) := by
  unfold tracingEvents
  split
  · refine .singleton _ fun call hcall => ?_
    obtain rfl := Event.logged.inj hcall
    exact ⟨⟨"parser", by decide, rfl⟩, rfl⟩
  · exact .nil

theorem Parser.onlyDebugs_failed {state : State Target} (fault : Fault) :
    OnlyDebugs (Run.failed state fault).events := .singleton _ (by simp)

/-- A dispatch over the flags logs for diagnostics only. -/
theorem Parser.onlyDebugs_dispatch (nested : List String → State Target → Run Target)
    {parser : Parser Target} (h : parser.BindsFlags) (active : Option Flag)
    (readings : List Reading) (target : Target) :
    OnlyDebugs (dispatch nested (active.map Flag.callback) readings ⟨parser, target⟩).events := by
  induction readings generalizing active target with
  | nil =>
      rw [dispatch_nil]
      exact .nil
  | cons reading rest ih =>
      obtain ⟨result, origin⟩ := reading
      cases result with
      | error fault =>
          rw [dispatch_unread]
          exact onlyDebugs_failed fault
      | ok token =>
          have htoken := h token
          cases hname : Flag.ofName? token with
          | some flag =>
              rw [hname, Option.map_some] at htoken
              rw [dispatch_flag htoken]
              exact ih (some flag) target
          | none =>
              rw [hname, Option.map_none] at htoken
              cases active with
              | none =>
                  rw [Option.map_none, dispatch_unexpected htoken]
                  exact onlyDebugs_failed _
              | some flag =>
                  rw [Option.map_some, dispatch_value htoken, Flag.run_callback]
                  cases flag.apply token target with
                  | error fault => exact onlyDebugs_failed fault
                  | ok next => exact (flag.onlyDebugs_logEvents token).append (ih (some flag) next)

/-- A filling logs for diagnostics only. -/
theorem Archive.onlyDebugs_fill (archive : Archive) (tracing : Bool) (provider : Parser.Provider)
    (arguments : List String) :
    OnlyDebugs (archive.fill tracing provider arguments).events := by
  have hflags := archive.bindsFlags_fillStart provider
  have hdispatch (readings : List Reading) : OnlyDebugs (Parser.dispatch
      (Parser.parse tracing 0) none readings (archive.fillStart provider)).events :=
    Parser.onlyDebugs_dispatch _ hflags none readings _
  show OnlyDebugs (Parser.parse tracing 1 arguments (archive.fillStart provider)).events
  rw [Parser.parse_succ]
  cases Parser.arguments_cases (archive.fillStart provider).parser arguments with
  | unmarked hplain =>
      rw [Parser.parseOnce_unmarked hplain]
      exact hdispatch _
  | reference handle =>
      cases hstream : (archive.fillStart provider).parser.provider handle with
      | ok stream =>
          rw [Parser.parseOnce_opened hstream]
          have hopening := (Parser.onlyDebugs_tracingEvents tracing handle).append
            (.singleton (.opened handle) (by simp))
          exact hopening.append ((hdispatch _).append (.singleton _ (by simp)))
      | error fault =>
          rw [Parser.parseOnce_refused hstream]
          have hrefused := (Parser.onlyDebugs_tracingEvents tracing handle).append
            (.singleton (.refused handle) (by simp))
          exact hrefused.append (Parser.onlyDebugs_failed fault)
  | mixed handle second others =>
      rw [Parser.parseOnce_mixed]
      exact Parser.onlyDebugs_failed _

/-! ## What a run logs -/

theorem Archive.isDiagnostic_of_mem_write {archive : Archive} {host : Host} {tracing : Bool}
    {output : String} {tree : FileTree} {call : Log.Call}
    (h : call ∈ (archive.write host tracing output tree).calls) : call.IsDiagnostic := by
  unfold write at h
  dsimp only at h
  split at h
  · exact absurd h List.not_mem_nil
  · unfold writtenCalls at h
    split at h
    · obtain rfl := List.mem_singleton.mp h
      exact ⟨⟨"io.writer", by decide, rfl⟩, rfl⟩
    · exact absurd h List.not_mem_nil

section Run

variable {environment : Environment} {settings : Settings} {provider : Option Parser.Provider}
  {host : Host} {arguments : List String} {session : Session}

/-- **A run logs for diagnostics, and its success.** -/
theorem mem_run_calls {call : Log.Call}
    (h : call ∈ (run environment settings provider host arguments session).calls) :
    call.IsDiagnostic ∨ ∃ archive path, call = successCall archive path := by
  have hfill {tracing : Bool} {files : Parser.Provider}
      (hmem : call ∈ loggedCalls (Archive.empty.fill tracing files arguments).events) :
      call.IsDiagnostic :=
    Archive.onlyDebugs_fill .empty tracing files arguments call (mem_loggedCalls_iff.mp hmem)
  have hwritten {tracing : Bool} {files : Parser.Provider} {archive : Archive} {output : String}
      (hmem : call ∈ loggedCalls (Archive.empty.fill tracing files arguments).events
        ++ (archive.write host tracing output session.tree).calls) : call.IsDiagnostic := by
    rcases List.mem_append.mp hmem with hfirst | hwrite
    · exact hfill hfirst
    · exact Archive.isDiagnostic_of_mem_write hwrite
  unfold run at h
  dsimp only at h
  split at h
  · exact absurd h List.not_mem_nil
  · split at h
    · exact .inl (hfill h)
    · split at h
      · exact .inl (hfill h)
      · split at h
        · exact .inl (hwritten h)
        · split at h
          · exact .inl (hwritten h)
          · rcases List.mem_append.mp h with hfront | hsuccess
            · exact .inl (hwritten hfront)
            · exact .inr ⟨_, _, List.mem_singleton.mp hsuccess⟩

theorem level_ne_error_of_mem_run_calls {call : Log.Call}
    (h : call ∈ (run environment settings provider host arguments session).calls) :
    call.level ≠ Log.error := by
  rcases mem_run_calls h with ⟨-, hlevel⟩ | ⟨archive, path, rfl⟩
  · rw [hlevel]
    decide
  · show Log.info ≠ Log.error
    decide

/-- A run leaves logging as its settings ask for. -/
theorem run_logging :
    (run environment settings provider host arguments session).session.logging
      = settings.configure session.logging := by
  unfold run
  dsimp only
  repeat' split
  all_goals rfl

end Run

/-! ## The report of a fault -/

/-- The log call that reports a fault. -/
def Fault.call (fault : Fault) : Log.Call := errorCall "error: %s" [.string fault.message]

theorem Fault.message_call (fault : Fault) :
    fault.call.message = .ok ("error: " ++ fault.message) := by
  have hfilled : Log.fillFrom false 0 "error: %s".toList [.string fault.message]
      = .ok ("error: ".toList ++ fault.message.toList) := by
    simp [Log.fillFrom, Log.directiveText, Value.plainText, bind, Except.bind, pure, Except.pure,
      Except.map]
  show (Log.fillFrom false 0 "error: %s".toList [.string fault.message]).map String.ofList = _
  rw [hfilled, Except.map, String.ofList_append, String.ofList_toList, String.ofList_toList]

/-- A call that has a message is written exactly where a handler is attached and its level counts. -/
theorem Log.State.deliver_isSome_iff {state : State} {handler : Handler} {call : Call}
    {message : String} (hhandler : state.handler = some handler)
    (hmessage : call.message = .ok message) (stamp : String) :
    (state.deliver stamp call).isSome = true ↔ 0 < call.level ∧ state.threshold ≤ call.level := by
  obtain ⟨line, hline⟩ := Layout.exists_line hmessage handler.layout stamp
  rw [deliver, hhandler]
  simp only [hline, isEnabled, decide_eq_true_eq]
  split <;> simp_all

/-- Behind a run, the report of a fault is shown exactly where failures are. -/
theorem Fault.call_shown_iff (fault : Fault) (settings : Settings) (logging : Log.State)
    (stamp : String) :
    ((settings.configure logging).deliver stamp fault.call).isSome = true
      ↔ (settings.configure logging).threshold ≤ Log.error := by
  have hhandler : ∃ handler, (settings.configure logging).handler = some handler := ⟨_, rfl⟩
  obtain ⟨handler, hhandler⟩ := hhandler
  have hlevel : 0 < fault.call.level := by
    show 0 < Log.error
    decide
  rw [Log.State.deliver_isSome_iff hhandler fault.message_call stamp]
  exact and_iff_right hlevel

/-! ## Endings -/

/-- The calls of an exit go to a logger of the command. -/
theorem Ending.isOwn_of_mem_exit {ending : Ending} {settings : Settings} {call : Log.Call}
    (h : call ∈ (ending.exit settings).2) : call.IsOwn := by
  have hcli (template : String) (arguments : List Value) :
      (errorCall template arguments).IsOwn := ⟨"cli", by decide, rfl⟩
  unfold exit at h
  split at h
  · exact absurd h List.not_mem_nil
  · obtain rfl := List.mem_singleton.mp h
    exact hcli _ _
  · split at h
    · exact absurd h List.not_mem_nil
    · obtain rfl := List.mem_singleton.mp h
      exact hcli _ _

/-- **What is written for a call of the command is what the state delivers**, whatever other loggers
there are. -/
theorem command_calls_delivered {environment : Environment} {host : Host}
    {arguments : List String} {session : Session} {call : Log.Call}
    (h : call ∈ (command environment host arguments session).calls) {world : Log.World}
    {records : Log.Records} (hshown : records.ShownBy world) {loggers : Log.Loggers}
    (hstandIn : loggers.standIn = none) (stamp : String) :
    records.base.emit loggers stamp call = (world.state.deliver stamp call).toList := by
  have hown : call.IsOwn := by
    rcases List.mem_append.mp h with hrun | hexit
    · rcases mem_run_calls hrun with ⟨hlogger, -⟩ | ⟨archive, path, rfl⟩
      · exact hlogger
      · exact ⟨"cli", by decide, rfl⟩
    · exact Ending.isOwn_of_mem_exit hexit
  -- None of the four names has two dots side by side.
  have hapart : ∀ name ∈ ownNames,
      ¬ (Log.baseName ++ "..").toList <+: (Log.loggerName name).toList := by decide
  obtain ⟨name, hname, hlogger⟩ := hown
  have hconnects := Log.Loggers.connects_loggerName loggers (hapart name hname)
  exact hshown.emit_eq (hlogger ▸ hconnects) hstandIn stamp

/-- Debugging is on exactly where its variable is 1. -/
theorem Settings.debug_ofEnvironment_iff {environment : Environment} :
    (ofEnvironment environment).debug = true ↔ environment.get? "DEBUG" = some "1" :=
  decide_eq_true_iff

section Exit

variable {settings : Settings} {ending : Ending} {fault : Fault}

/-- A fault is passed on where debugging is on or it is not expected, and is reported otherwise. -/
theorem Ending.exit_failed_cases (settings : Settings) (fault : Fault) :
    ((settings.debug = true ∨ fault.isExpected = false)
        ∧ (failed fault).exit settings = (.raised fault, []))
      ∨ (settings.debug = false ∧ fault.isExpected = true)
        ∧ (failed fault).exit settings = (.code 1, [fault.call]) := by
  by_cases h : settings.debug = true ∨ fault.isExpected = false
  · exact .inl ⟨h, if_pos h⟩
  · obtain ⟨hoff, hexpected⟩ := not_or.mp h
    exact .inr ⟨⟨Bool.eq_false_iff.mpr hoff, (Bool.not_eq_false _).mp hexpected⟩, if_neg h⟩

theorem Ending.exit_eq_zero_iff :
    (ending.exit settings).1 = .code 0 ↔ ∃ path, ending = .wrote path := by
  cases ending with
  | wrote path => simp [exit]
  | interrupted => simp [exit]
  | failed met =>
      rcases exit_failed_cases settings met with ⟨-, h⟩ | ⟨-, h⟩
      · simp [h]
      · simp [h]

theorem Ending.exit_eq_interrupted_iff :
    (ending.exit settings).1 = .code 130 ↔ ending = .interrupted := by
  cases ending with
  | wrote path => simp [exit]
  | interrupted => simp [exit]
  | failed met =>
      rcases exit_failed_cases settings met with ⟨-, h⟩ | ⟨-, h⟩
      · simp [h]
      · simp [h]

theorem Ending.exit_eq_raised_iff : (ending.exit settings).1 = .raised fault
    ↔ ending = .failed fault ∧ (settings.debug = true ∨ fault.isExpected = false) := by
  cases ending with
  | wrote path => simp [exit]
  | interrupted => simp [exit]
  | failed met =>
      rcases exit_failed_cases settings met with ⟨hpassed, h⟩ | ⟨⟨hoff, hexpected⟩, h⟩
      · rw [h, Exit.raised.injEq, failed.injEq]
        exact ⟨fun heq => ⟨heq, heq ▸ hpassed⟩, And.left⟩
      · rw [h, failed.injEq]
        refine iff_of_false Exit.noConfusion ?_
        rintro ⟨rfl, hpassed⟩
        simp [hoff, hexpected] at hpassed

theorem Ending.exit_eq_failure_iff : (ending.exit settings).1 = .code 1
    ↔ settings.debug = false ∧ ∃ fault, ending = .failed fault ∧ fault.isExpected = true := by
  cases ending with
  | wrote path => simp [exit]
  | interrupted => simp [exit]
  | failed met =>
      rcases exit_failed_cases settings met with ⟨hpassed, h⟩ | ⟨⟨hoff, hexpected⟩, h⟩
      · rw [h]
        refine iff_of_false Exit.noConfusion ?_
        rintro ⟨hoff, fault, hfailed, hexpected⟩
        obtain rfl := failed.inj hfailed
        simp [hoff, hexpected] at hpassed
      · rw [h]
        exact iff_of_true rfl ⟨hoff, met, rfl, hexpected⟩

/-- At the exit with 1 the one call reports the fault. -/
theorem Ending.exit_calls_of_failure (h : (ending.exit settings).1 = .code 1) :
    ∃ fault, ending = .failed fault ∧ (ending.exit settings).2 = [fault.call] := by
  obtain ⟨-, fault, rfl, -⟩ := exit_eq_failure_iff.mp h
  refine ⟨fault, rfl, ?_⟩
  rcases exit_failed_cases settings fault with ⟨-, hexit⟩ | ⟨-, hexit⟩
  · rw [hexit] at h
    cases h
  · rw [hexit]

/-- Where a run succeeds or its fault is passed on, no more calls are made. -/
theorem Ending.exit_calls_of_silent
    (h : (ending.exit settings).1 = .code 0 ∨ ∃ fault, (ending.exit settings).1 = .raised fault) :
    (ending.exit settings).2 = [] := by
  rcases h with hzero | ⟨fault, hraised⟩
  · obtain ⟨path, rfl⟩ := exit_eq_zero_iff.mp hzero
    rfl
  · obtain ⟨rfl, hpassed⟩ := exit_eq_raised_iff.mp hraised
    exact congrArg Prod.snd (if_pos hpassed)

end Exit

/-- **How the command ends, and what it says then.** It ends with 0 exactly where its run succeeds,
with 130 exactly where that is interrupted, with 1 exactly where that fails, debugging is off and
calls are not lacking, and passes the run's own fault on exactly where that fails otherwise. Calls
are lacking only for an output path below more directories than may nest; every other fault of the
run lies in what is given or is a refusal of the system. At the exit with 1 the last log call reports
the fault, is the only one for a failure, and is shown exactly where failures are; at the exit with
0, and where a fault is passed on, no failure is logged. -/
theorem command_ends (environment : Environment) (host : Host) (arguments : List String)
    (session : Session) (stamp : String) :
    let report := run environment (.ofEnvironment environment) none host arguments session
    let completion := command environment host arguments session
    (completion.exit = .code 0 ↔ ∃ path, report.ending = .wrote path)
      ∧ (completion.exit = .code 130 ↔ report.ending = .interrupted)
      ∧ (completion.exit = .code 1 ↔ environment.get? "DEBUG" ≠ some "1"
          ∧ ∃ fault, report.ending = .failed fault ∧ fault ≠ .exhausted host.overflow)
      ∧ (∀ fault, completion.exit = .raised fault ↔ report.ending = .failed fault
          ∧ (environment.get? "DEBUG" = some "1" ∨ fault = .exhausted host.overflow))
      ∧ (∀ fault, report.ending = .failed fault → fault ≠ .exhausted host.overflow →
          fault.isOfInput = true ∨ fault.isOfSystem = true)
      ∧ (report.ending = .failed (.exhausted host.overflow) → ∃ output,
          (Archive.empty.fill false session.tree.provider arguments).result = .ok output
          ∧ host.nesting < (Path.ofString output).parent.names.length)
      ∧ (completion.exit = .code 1 → ∃ fault call, report.ending = .failed fault
          ∧ completion.calls = report.calls ++ [call]
          ∧ call.level = Log.error ∧ call.message = .ok ("error: " ++ fault.message)
          ∧ (∀ other ∈ report.calls, other.level ≠ Log.error)
          ∧ ((completion.session.logging.deliver stamp call).isSome = true
              ↔ completion.session.logging.threshold ≤ Log.error))
      ∧ ((completion.exit = .code 0 ∨ ∃ fault, completion.exit = .raised fault) →
          ∀ call ∈ completion.calls, call.level ≠ Log.error) := by
  intro report completion
  have hcalls : completion.calls
      = report.calls ++ (report.ending.exit (.ofEnvironment environment)).2 := rfl
  have hquiet : ∀ call ∈ report.calls, call.level ≠ Log.error :=
    fun _ hmem => level_ne_error_of_mem_run_calls hmem
  have hexpected (fault : Fault) (hfailed : report.ending = .failed fault) :
      fault.isExpected = true ↔ fault ≠ .exhausted host.overflow :=
    (run_ofRun hfailed).1.isExpected_iff
  refine ⟨Ending.exit_eq_zero_iff, Ending.exit_eq_interrupted_iff, ?_, ?_, ?_, ?_, ?_, ?_⟩
  · rw [ne_eq, ← Settings.debug_ofEnvironment_iff, Bool.not_eq_true]
    refine Ending.exit_eq_failure_iff.trans (and_congr_right fun _ => exists_congr fun fault => ?_)
    exact and_congr_right (hexpected fault)
  · intro fault
    rw [← Settings.debug_ofEnvironment_iff]
    refine Ending.exit_eq_raised_iff.trans (and_congr_right fun hfailed => or_congr_right ?_)
    rw [← Bool.not_eq_true, hexpected fault hfailed, not_not]
  · intro fault hfailed hcallsFit
    exact Fault.isExpected_iff.mp ((hexpected fault hfailed).mpr hcallsFit)
  · intro hfailed
    exact (run_ofRun hfailed).2 rfl
  · intro hone
    obtain ⟨fault, hfailed, hreports⟩ := Ending.exit_calls_of_failure hone
    rw [hreports] at hcalls
    refine ⟨fault, fault.call, hfailed, hcalls, rfl, fault.message_call, hquiet, ?_⟩
    have hlogging : completion.session.logging
        = (Settings.ofEnvironment environment).configure session.logging := run_logging
    rw [hlogging]
    exact fault.call_shown_iff _ session.logging stamp
  · intro hsilent
    rw [Ending.exit_calls_of_silent hsilent, List.append_nil] at hcalls
    exact hcalls ▸ hquiet

/-- A command whose run lacks calls passes the fault on. -/
theorem command_exhausted {environment : Environment} {host : Host} {arguments : List String}
    {session : Session} {wording : String}
    (h : (run environment (.ofEnvironment environment) none host arguments session).ending
      = .failed (.exhausted wording)) :
    (command environment host arguments session).exit = .raised (.exhausted wording) := by
  exact Ending.exit_eq_raised_iff.mpr ⟨h, .inr rfl⟩

/-- **With debugging off a fault may be passed on all the same**, where the output lies below 1200
directories of the empty tree. -/
theorem command_ends_not_deep :
    let arguments := [Flag.outputFile.name, (Path.nested "a" 1200 "o.json").text]
    OrderedMap.get? (∅ : Environment) "DEBUG" ≠ some "1"
      ∧ (command ∅ {} arguments {}).exit
        = .raised (.exhausted "maximum recursion depth exceeded") := by
  intro arguments
  have hreaches : Host.ReachesWrite {} := Host.reachesWrite_of_none rfl
  have hname : FileTree.IsName "a" := by decide
  have hlast : FileTree.IsName "o.json" := by decide
  obtain ⟨-, -, -, hends⟩ :=
    run_nested_deep hreaches hname hlast (by decide) (by decide : _ < 1200) ∅ (.ofEnvironment ∅)
  exact ⟨by decide, command_exhausted hends⟩

end ArchiveRecord
