/- # Log.State -- how logging is configured, and what becomes of a call

The state is that of the base logger: its level, at most one handler and the
trace switch. A set-up decides level and layout each time, and the sink only
where no handler is attached. A call is written once, to the sink of the
handler, or not at all.
-/
import ArchiveRecord.Log.Line

namespace ArchiveRecord.Log

/-- Where log lines go. -/
inductive Sink where
  | stderr
  | named (name : String)
  deriving Repr, DecidableEq

/-- What writes log lines. -/
structure Handler where
  layout : Layout
  sink : Sink
  deriving Repr, DecidableEq

/-- The configuration of logging. -/
structure State where
  level : Int := 0
  handler : Option Handler := none
  traceSwitch : Bool := false
  deriving Repr, DecidableEq

/-- What a set-up asks for. -/
structure Setup where
  json : Bool := false
  level : Int := warning
  sink : Sink := .stderr
  deriving Repr, DecidableEq

namespace State

/-- The state in which nothing is configured. -/
def initial : State := {}

/-- Carries out a set-up. A handler that is attached keeps its sink. -/
def setUp (state : State) (setup : Setup) : State :=
  let sink := match state.handler with
    | some handler => handler.sink
    | none => setup.sink
  { state with level := setup.level, handler := some ⟨Layout.ofSwitch setup.json, sink⟩ }

/-- Detaches the handler. -/
def detach (state : State) : State := { state with handler := none }

/-- Sets the trace switch. -/
def switchTrace (state : State) (on : Bool) : State := { state with traceSwitch := on }

/-- Traces are wanted: the switch is on or the environment asks for them. -/
def isTracing (state : State) (environment : Environment) : Bool :=
  state.traceSwitch || environment.get? "ARCHIVEJSON_TRACE_IO" = some "1"

/-- The least level that is written. An unset level counts as that of a warning. -/
def threshold (state : State) : Int := if state.level = 0 then warning else state.level

/-- Calls of a level are written. Levels from zero down never are. -/
def isEnabled (state : State) (level : Int) : Bool := 0 < level ∧ state.threshold ≤ level

/-- Where a call is written and the text that is written there, if it is written at all. -/
def deliver (state : State) (stamp : String) (call : Call) : Option (Sink × String) :=
  match state.handler with
  | none => none
  | some handler =>
    if state.isEnabled call.level then
      match handler.layout.line stamp call with
      | .ok line => some (handler.sink, line ++ "\n")
      | .error _ => none
    else none

/-- The texts that calls leave on a sink, one after the other. -/
def written (state : State) (stamp : String) (sink : Sink) (calls : List Call) : String :=
  String.join (calls.filterMap fun call =>
    match state.deliver stamp call with
    | some (reached, text) => if reached = sink then some text else none
    | none => none)

end State

end ArchiveRecord.Log
