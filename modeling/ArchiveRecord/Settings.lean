/- # Settings -- what the environment decides about a run

The arguments belong to the build action, so everything that tunes a run comes
from the environment. A switch is on exactly where its variable is 1. Tracing
implies the level of diagnostics; otherwise the level is given by name, in any
letter case and between any blanks, and a name that is none means the default.
-/
import ArchiveRecord.Log.State
import ArchiveRecord.Text.Blank
import ArchiveRecord.Text.Capital

namespace ArchiveRecord

/-- The configuration of a run. -/
structure Settings where
  jsonLogs : Bool := false
  logLevel : Int := Log.warning
  tracing : Bool := false
  debug : Bool := false
  deriving Repr, DecidableEq

namespace Settings

/-- The variable is a switch that is on. -/
def isOn (environment : Environment) (name : String) : Bool := environment.get? name = some "1"

/-- The level that a text asks for. -/
def levelOf (text : String) : Int :=
  let name := String.ofList (Text.capitals (Text.strip text.toList))
  (Log.levelOfName? name).getD Log.warning

/-- The variables that the settings of an environment depend on. -/
def variableNames : List String :=
  ["ARCHIVEJSON_JSON_LOGS", "ARCHIVEJSON_LOG_LEVEL", "ARCHIVEJSON_TRACE_IO", "DEBUG"]

/-- The settings of an environment. -/
def ofEnvironment (environment : Environment) : Settings :=
  let trace := isOn environment "ARCHIVEJSON_TRACE_IO"
  let named := (environment.get? "ARCHIVEJSON_LOG_LEVEL").elim Log.warning levelOf
  { jsonLogs := isOn environment "ARCHIVEJSON_JSON_LOGS"
    logLevel := if trace then Log.debug else named
    tracing := trace
    debug := isOn environment "DEBUG" }

/-- The set-up of logging that the settings ask for. -/
def setup (settings : Settings) : Log.Setup := ⟨settings.jsonLogs, settings.logLevel, .stderr⟩

end Settings

end ArchiveRecord
