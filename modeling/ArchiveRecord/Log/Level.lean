/- # Log.Level -- levels and names of loggers

A level is an integer; six of them have a name. Two further names stand for
levels that already have one. Every logger lives under the base logger, and its
name says so.
-/
import ArchiveRecord.Text.Numeral

namespace ArchiveRecord.Log

/-- The level for diagnostics. -/
def debug : Int := 10

/-- The level for normal events. -/
def info : Int := 20

/-- The level for what is unexpected; also the level where nothing else is set. -/
def warning : Int := 30

/-- The level for failures. -/
def error : Int := 40

/-- The level for failures that end the program. -/
def critical : Int := 50

/-- The text that stands for a level in a log line. -/
def levelName (level : Int) : String :=
  if level = 0 then "NOTSET"
  else if level = debug then "DEBUG"
  else if level = info then "INFO"
  else if level = warning then "WARNING"
  else if level = error then "ERROR"
  else if level = critical then "CRITICAL"
  else "Level " ++ String.ofList (Text.integer level)

/-- The level that a name stands for. -/
def levelOfName? (name : String) : Option Int :=
  match name with
  | "CRITICAL" | "FATAL" => some critical
  | "ERROR" => some error
  | "WARNING" | "WARN" => some warning
  | "INFO" => some info
  | "DEBUG" => some debug
  | "NOTSET" => some 0
  | _ => none

/-- The name of the base logger. -/
def baseName : String := "archivejson"

/-- The full name of a logger: names that are not under the base logger are put there. -/
def loggerName (name : String) : String :=
  if name = "" ∨ name = baseName then baseName
  else if (baseName ++ ".").toList <+: name.toList then name
  else baseName ++ "." ++ name

end ArchiveRecord.Log
