/- # Log.Line -- log calls and the lines that they become

A call names its logger and level and carries a template with arguments and a
context. A plain line shows the level and the message. A JSON line is one object
with the members ts, level, module, msg and version, and with the context as its
last member where that is a mapping with members.
-/
import ArchiveRecord.Json.Printer
import ArchiveRecord.Log.Instant
import ArchiveRecord.Log.Level
import ArchiveRecord.Log.Message
import ArchiveRecord.OrderedMap

namespace ArchiveRecord

/-- The variables of the process environment. -/
abbrev Environment := OrderedMap String String

namespace Log

/-- One call of a logger. -/
structure Call where
  logger : String
  level : Int
  template : String
  arguments : List Value := []
  context : Value := .null
  deriving Repr

/-- The message of a call. -/
def Call.message (call : Call) : Except TemplateFault String := fill call.template call.arguments

/-- A trace of an operation: the message, and the context where there is one. -/
def trace (logger message : String) (context : List (String × Value)) : Call :=
  match context with
  | [] => ⟨logger, debug, "%s", [.string message], .null⟩
  | _ => ⟨logger, debug, "%s | ctx=%r", [.string message, .mapping context], .mapping context⟩

/-- Why a call has no line. -/
inductive LineFault where
  /-- The instant has no time stamp. -/
  | stamp (fault : StampFault)
  /-- The template cannot be filled. -/
  | template (fault : TemplateFault)
  deriving Repr, DecidableEq

/-- The wording of a fault. -/
def LineFault.message : LineFault → String
  | stamp fault => fault.message
  | template fault => fault.message

/-- How calls are written. -/
inductive Layout where
  | plain
  | json (version : String)
  deriving Repr, DecidableEq

/-- The version of this program. -/
def programVersion : String := "0.1.0"

/-- The layout that a switch for JSON lines chooses. -/
def Layout.ofSwitch (json : Bool) : Layout := if json then .json programVersion else .plain

/-- The version that JSON lines show where the program does not know its own. -/
def fallbackVersion (environment : Environment) : String :=
  (environment.get? "ARCHIVEJSON_VERSION").getD "unknown"

/-- The context of a call as a last member of its JSON line. -/
def contextMember : Value → List (String × Value)
  | .mapping (member :: members) => [("ctx", .mapping (member :: members))]
  | _ => []

/-- The JSON document of a call. -/
def document (version stamp message : String) (call : Call) : Value :=
  .mapping
    ([("ts", .string stamp),
      ("level", .string (levelName call.level)),
      ("module", .string call.logger),
      ("msg", .string message),
      ("version", .string version)] ++ contextMember call.context)

/-- The line of a call, without its end, for a given time stamp. -/
def Layout.line (layout : Layout) (stamp : String) (call : Call) : Except TemplateFault String := do
  let message ← call.message
  match layout with
  | plain => return levelName call.level ++ ": " ++ message
  | json version =>
    return String.ofList (Json.text Json.spaced (document version stamp message call))

/-- The line of a call at an instant. Only a JSON line shows the instant, so only a JSON line can
fail for its time, and does so before it looks at the message. -/
def Layout.lineAt (layout : Layout) (instant : Instant) (call : Call) : Except LineFault String :=
  match layout with
  | plain => (Layout.plain.line "" call).mapError LineFault.template
  | json version =>
    match instant.stamp with
    | .error fault => .error (.stamp fault)
    | .ok stamp => ((json version).line (String.ofList stamp) call).mapError LineFault.template

end Log

end ArchiveRecord
