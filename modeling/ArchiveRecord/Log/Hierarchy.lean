/- # Log.Hierarchy -- loggers under one another

Loggers have names and hang under one another by the dots in them, as far as those
above have been asked for. What stands above a logger is searched from the end of its
name: at each dot, what stands in front of it is looked up, and the first logger found
is the one that it hangs under. The search passes over the character in front of a dot
where nothing was found, so that of two dots side by side the first is never looked at.
A logger that hangs under no other one hangs under the root.

What a logger leaves open is decided on the way up from it. Its level is the first one
that is set there, and its records go to the handlers of all loggers on the way, up to
one that keeps its records to itself. A record that comes to no handler at all goes to
what stands in for one, where there is such a thing. That a logger remembers which levels
count for it, until some level is set, is left out: it shows only where other loggers have
come to stand above it since.

Only the base logger is ever configured. The root has the level of a warning and no
handler.
-/
import ArchiveRecord.Log.Handlers

namespace ArchiveRecord.Log

/-! ## Loggers -/

/-- What decides about records that come to a logger. -/
structure Logger where
  level : Int := 0
  handlers : List Handler := []
  /-- Records are passed on to the loggers above. -/
  propagates : Bool := true
  deriving Repr, DecidableEq

/-- A logger that nobody has configured. -/
def Logger.unset : Logger := {}

/-- The logger above all others. -/
def Logger.root : Logger := { level := warning }

/-- The first level that is set on a way up. -/
def effectiveLevel : List Logger → Int
  | [] => 0
  | logger :: above => if logger.level = 0 then effectiveLevel above else logger.level

/-- The handlers that records on a way up come to. -/
def handlersReached : List Logger → List Handler
  | [] => []
  | logger :: above =>
    logger.handlers ++ if logger.propagates then handlersReached above else []

/-! ## The hierarchy -/

/-- What writes the message of a record that comes to no handler, from a level on. -/
structure StandIn where
  level : Int
  sink : Sink
  deriving Repr, DecidableEq

/-- The names that loggers were asked for under, and what stands in for a missing handler. -/
structure Loggers where
  names : List String := []
  standIn : Option StandIn := none
  deriving Repr, DecidableEq

/-- The loggers above a name, the nearest first. All names are read from their end here. -/
def climb (isMade : List Char → Bool) : List Char → List (List Char)
  | [] => []
  | '.' :: d :: rest =>
    if isMade (d :: rest) then (d :: rest) :: climb isMade (d :: rest) else climb isMade rest
  | _ :: rest => climb isMade rest

namespace Loggers

/-- There is a logger of the name. That of the base logger counts as asked for. -/
def has (loggers : Loggers) (name : String) : Bool := name = baseName ∨ name ∈ loggers.names

/-- There is a logger of the name that is read from its end. -/
def hasReversed (loggers : Loggers) (reversed : List Char) : Bool :=
  loggers.has (String.ofList reversed.reverse)

/-- The names from that of a logger up to that of the last one below the root. -/
def wayUp (loggers : Loggers) (name : String) : List String :=
  name :: (climb loggers.hasReversed name.toList.reverse).map fun above =>
    String.ofList above.reverse

end Loggers

namespace Base

/-- The base logger in the hierarchy. It keeps its records to itself once a handler was made. -/
def logger (base : Base) : Logger where
  level := base.level
  handlers := base.attached.map Prod.snd
  propagates := base.made = 0

/-- The logger of a name. -/
def loggerOf (base : Base) (name : String) : Logger :=
  if name = baseName then base.logger else .unset

/-- The loggers from that of a name up to the root. -/
def wayUp (base : Base) (loggers : Loggers) (name : String) : List Logger :=
  (loggers.wayUp name).map base.loggerOf ++ [.root]

end Base

/-! ## Writings -/

/-- What a handler writes for a call that comes to it, and where. -/
def Handler.write? (handler : Handler) (stamp : String) (call : Call) : Option (Sink × String) :=
  match handler.layout.line stamp call with
  | .ok line => some (handler.sink, line ++ "\n")
  | .error _ => none

/-- What is written for a call that comes to no handler. -/
def StandIn.write? (standIn : StandIn) (call : Call) : Option (Sink × String) :=
  if standIn.level ≤ call.level then
    match call.message with
    | .ok message => some (standIn.sink, message ++ "\n")
    | .error _ => none
  else none

/-- What is written for a call, all handlers taken together. -/
def Base.emit (base : Base) (loggers : Loggers) (stamp : String) (call : Call) :
    List (Sink × String) :=
  let way := base.wayUp loggers call.logger
  if 0 < call.level ∧ effectiveLevel way ≤ call.level then
    match handlersReached way with
    | [] => (loggers.standIn.bind fun standIn => standIn.write? call).toList
    | handlers => handlers.filterMap fun handler => handler.write? stamp call
  else []

/-- The configuration and the loggers that there are. -/
structure Hierarchy where
  records : Records := {}
  loggers : Loggers := {}

namespace Hierarchy

/-- The name of the logger that a step asks for. -/
def asked? (hierarchy : Hierarchy) : Step → Option String
  | .setUp _ => some baseName
  | .askFactory id name => (hierarchy.records.factories.get? id).map fun _ => loggerName name
  | .askLogger name | .call name _ | .trace name _ _ => some (loggerName name)
  | .makeFactory _ _ | .switchTrace _ | .changeEnvironment _ _ | .detach => none

/-- Carries out a step. A logger that is asked for is there from then on. -/
def step (hierarchy : Hierarchy) (step : Step) : Hierarchy where
  records := hierarchy.records.step step
  loggers :=
    { hierarchy.loggers with
        names := (hierarchy.asked? step).toList ++ hierarchy.loggers.names }

/-- What a step writes. A trace is a call only while traces are wanted. -/
def writings (hierarchy : Hierarchy) (tracing : Bool) (stamp : String) :
    Step → List (Sink × String)
  | .call name call =>
    hierarchy.records.base.emit hierarchy.loggers stamp { call with logger := loggerName name }
  | .trace name message context =>
    if tracing then
      hierarchy.records.base.emit hierarchy.loggers stamp (trace (loggerName name) message context)
    else []
  | _ => []

end Hierarchy

end ArchiveRecord.Log
