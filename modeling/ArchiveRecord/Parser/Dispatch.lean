/- # Parser.Dispatch -- tokens to the callbacks of the flags before them

A token that is bound to a callback is a flag and becomes the active one; every
other token is a value of the active flag. A value before the first flag is a
fault. The arguments themselves are the tokens, unless the first one starts with
the marker: then it has to be the only one, and the tokens are the lines of the
params file that it names.

A run is described by what happens in it, in order, by the state that it leaves,
and by how it ends. Parsing may start again inside a callback; the depth of such
starts is limited by a number that the caller chooses, and a run that would pass
it is left unfinished.
-/
import ArchiveRecord.Parser.Script

namespace ArchiveRecord.Parser

/-! ## Runs -/

/-- What happens in a run. -/
inductive Event where
  /-- The provider gave a stream for a handle. -/
  | opened (handle : String)
  /-- The provider refused a handle. -/
  | refused (handle : String)
  /-- The stream of a handle was closed. -/
  | closed (handle : String)
  /-- A callback noted a value under a name. -/
  | noted (name value : String)
  /-- A log call was made. -/
  | logged (call : Log.Call)
  /-- A fault was raised. It may be caught by a callback that had arguments parsed. -/
  | raised (fault : Fault)
  deriving Repr

/-- How a run ends. -/
inductive Outcome where
  | completed
  | failed (fault : Fault)
  /-- The limit on nested parsing was reached. -/
  | unfinished
  deriving Repr, DecidableEq

/-- What a run starts from and leaves. -/
structure State (σ : Type) where
  parser : Parser σ
  host : σ

/-- A run. -/
structure Run (σ : Type) where
  events : List Event
  state : State σ
  outcome : Outcome

variable {σ : Type}

namespace Run

/-- The run in which nothing happens. -/
def idle (state : State σ) : Run σ := ⟨[], state, .completed⟩

/-- The run that raises a fault at once. -/
def failed (state : State σ) (fault : Fault) : Run σ := ⟨[.raised fault], state, .failed fault⟩

/-- The run with events in front. -/
def after (events : List Event) (run : Run σ) : Run σ := { run with events := events ++ run.events }

/-- The run with events at its end, however it ends. -/
def before (run : Run σ) (events : List Event) : Run σ :=
  { run with events := run.events ++ events }

/-- The run followed, where it completes, by the run that starts from the state it leaves. -/
def andThen (run : Run σ) (next : State σ → Run σ) : Run σ :=
  match run.outcome with
  | .completed => (next run.state).after run.events
  | _ => run

end Run

/-! ## Scripts -/

/-- Carries out a script; `nested` parses the arguments that it hands back. -/
def Script.run (nested : List String → State σ → Run σ) : Script σ → State σ → Run σ
  | done, state => .idle state
  | fail fault, state => .failed state fault
  | note name value next, state => (next.run nested state).after [.noted name value]
  | log call next, state => (next.run nested state).after [.logged call]
  | read next, state => (next state.host).run nested state
  | write host next, state => next.run nested { state with host }
  | register flag callback next, state =>
    next.run nested { state with parser := state.parser.register flag callback }
  | reserve flag next, state =>
    next.run nested { state with parser := state.parser.reserve flag }
  | inspect next, state => (next state.parser.flags).run nested state
  | provide provider next, state =>
    next.run nested { state with parser := state.parser.withProvider provider }
  | parse arguments next, state =>
    let inner := nested arguments state
    match inner.outcome with
    | .completed => ((next none).run nested inner.state).after inner.events
    | .failed fault => ((next (some fault)).run nested inner.state).after inner.events
    | .unfinished => inner

/-! ## Dispatch -/

/-- Hands the tokens of a source to callbacks. The active flag is given by its callback, which is
the one that was bound when the flag was read. -/
def dispatch (nested : List String → State σ → Run σ) :
    Option (Callback σ) → List Reading → State σ → Run σ
  | _, [], state => .idle state
  | active, reading :: rest, state =>
    match reading.result with
    | .error fault => .failed state fault
    | .ok token =>
      match state.parser.callback? token, active with
      | some callback, _ => dispatch nested (some callback) rest state
      | none, some callback =>
        ((callback token).run nested state).andThen (dispatch nested active rest)
      | none, none => .failed state (.unexpectedFlag token reading.origin)

/-- The log call of a params file that is about to be opened. -/
def openingCall (handle : String) : Log.Call :=
  Log.trace (Log.loggerName "parser") "opening params file" [("handle", .string handle)]

/-- Parses the params file of a handle with a dispatcher of its lines. The stream is closed however
the dispatch ends. -/
def readParams (tracing : Bool) (handle : String)
    (dispatch : List Reading → State σ → Run σ) (state : State σ) : Run σ :=
  let trace := if tracing then [Event.logged (openingCall handle)] else []
  match state.parser.provider handle with
  | .error fault => (Run.failed state fault).after (trace ++ [.refused handle])
  | .ok stream =>
    let readings := lineReadings (some (Path.ofString handle)) .utf8 0 stream
    ((dispatch readings state).before [.closed handle]).after (trace ++ [.opened handle])

/-- Parses arguments, with at most `depth` parses inside one another. -/
def parse (tracing : Bool) (depth : Nat) (arguments : List String) (state : State σ) : Run σ :=
  match depth, arguments with
  | 0, _ => ⟨[], state, .unfinished⟩
  | _ + 1, [] => .idle state
  | depth + 1, first :: others =>
    match state.parser.handle? first with
    | none => dispatch (parse tracing depth) none (argumentReadings (first :: others)) state
    | some handle =>
      if others = [] then
        readParams tracing handle (dispatch (parse tracing depth) none) state
      else .failed state .mixedReference

end ArchiveRecord.Parser
