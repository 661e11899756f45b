/- # Main -- the command on the real file system

The thin layer between the command and the system: it reads the environment, the
clock and the params file that the arguments name, makes directories, and writes
the archive and the log lines. What a run does with them is decided elsewhere.
-/
import ArchiveRecord.Command
import Std.Time.DateTime.Timestamp

namespace ArchiveRecord.Main

/-! ## The system -/

/-- The variables that the settings depend on. -/
def readEnvironment : IO Environment := do
  let found ← Settings.variableNames.mapM fun name => return (name, ← IO.getEnv name)
  return OrderedMap.ofList (found.filterMap fun (name, value) => value.map (name, ·))

/-- The time stamp of the present instant. -/
def presentStamp : IO String := do
  let now ← Std.Time.Timestamp.now
  let instant : Log.Instant := ⟨now.toNanosecondsSinceUnixEpoch.val / 1000⟩
  match instant.stamp with
  | .ok stamp => return String.ofList stamp
  | .error fault => return fault.message

/-- Writes the lines of log calls. Every one of them goes to standard error, which is the sink that
the settings ask for. -/
def say (logging : Log.State) (calls : List Log.Call) : IO Unit := do
  for call in calls do
    if let some (_, text) := logging.deliver (← presentStamp) call then
      IO.eprint text

/-- Why the system refuses an operation. -/
def refusalOf : IO.Error → Refusal
  | .alreadyExists _ number wording | .otherError number wording
  | .resourceBusy number wording | .resourceVanished number wording
  | .unsupportedOperation number wording | .hardwareFault number wording
  | .unsatisfiedConstraints number wording | .illegalOperation number wording
  | .protocolError number wording | .timeExpired number wording
  | .interrupted _ number wording | .noFileOrDirectory _ number wording
  | .invalidArgument _ number wording | .permissionDenied _ number wording
  | .resourceExhausted _ number wording | .inappropriateType _ number wording
  | .noSuchThing _ number wording => Refusal.ofNumber number.toNat wording
  | .unexpectedEof => .other 5 "Input/output error"
  | .userError wording => .other 5 wording

/-- Carries out an operation on a path, unless its text names nothing or is out of bounds. -/
def onPath {α : Type} (text : String) (operation : IO α) : IO (Except Fault α) := do
  match FileTree.onPath text (.ok ()) with
  | .error fault => return .error fault
  | .ok () =>
    try
      return .ok (← operation)
    catch error =>
      return .error (.refused (refusalOf error) text)

/-! ## Files -/

/-- Gives the params file that the arguments name, if they name one. -/
def readProvider (arguments : List String) : IO Parser.Provider := do
  let nothing : Parser.Provider := FileTree.empty.provider
  let [argument] := arguments | return nothing
  let parser : Parser Target := { provider := nothing }
  let some handle := parser.handle? argument | return nothing
  let content ← onPath handle (IO.FS.withFile handle .read IO.FS.Handle.readBinToEnd)
  return fun _ => content.map fun bytes => Stream.ofBytes bytes.toList

/-- The path is a directory: only there does a dot name something that exists. -/
def isDirectory (path : Path) : IO Bool := do
  match ← onPath path.text (IO.FS.createDir (path.text ++ "/.")) with
  | .error (.refused .exists _) => return true
  | _ => return false

/-- A fault of making a directory counts only where the path is no directory already. -/
def unlessDirectory (path : Path) (fault : Fault) : IO (Option Fault) := do
  return if ← isDirectory path then none else some fault

/-- Makes a directory whose parent exists; it may exist itself. -/
def ensureDirectory (path : Path) : IO (Option Fault) := do
  match ← onPath path.text (IO.FS.createDir path.text) with
  | .ok () => return none
  | .error fault => unlessDirectory path fault

/-- Makes a directory and, where they are missing, the directories on the way to it. -/
def ensurePath (host : Host) (path : Path) (calls : Nat) : IO (Option Fault) := do
  match ← onPath path.text (IO.FS.createDir path.text) with
  | .ok () => return none
  | .error fault =>
    if fault = .refused .missing path.text ∧ path.names ≠ [] then
      match calls with
      | 0 => return some (.exhausted host.overflow)
      | calls + 1 =>
        match ← ensurePath host path.parent calls with
        | some fault => return some fault
        | none => ensureDirectory path
    else unlessDirectory path fault

/-- Writes a file after making the directories on the way to it. -/
def writeFile (host : Host) (path : Path) (content : Content) : IO (Option Fault) := do
  match ← ensurePath host path.parent host.nesting with
  | some fault => return some fault
  | none =>
    let bytes := ByteArray.mk content.left.toArray
    match ← onPath path.text (IO.FS.writeBinFile path.text bytes) with
    | .ok () => return content.fault?
    | .error fault => return some fault

/-! ## The run -/

/-- The host of the program. -/
def host : Host := {}

/-- Fills an archive from arguments and writes it. -/
def fillAndWrite (logging : Log.State) (tracing : Bool) (arguments : List String) : IO Ending := do
  let filling := Archive.empty.fill tracing (← readProvider arguments) arguments
  say logging (loggedCalls filling.events)
  match filling.result with
  | .error fault => return .failed fault
  | .ok output =>
    let path := Path.ofString output
    match ← writeFile host path (filling.archive.content host) with
    | some fault => return .failed fault
    | none =>
      say logging (writtenCalls filling.archive tracing path ++ [successCall filling.archive path])
      return .wrote path

end ArchiveRecord.Main

open ArchiveRecord in
/-- The command. A fault that is passed on is printed by its wording alone. -/
def main (arguments : List String) : IO UInt32 := do
  let environment ← Main.readEnvironment
  let settings := Settings.ofEnvironment environment
  let logging := settings.configure Log.State.initial
  let ending ← Main.fillAndWrite logging (logging.isTracing environment) arguments
  let (exit, calls) := ending.exit settings
  Main.say logging calls
  match exit with
  | .code code => return UInt32.ofNat code
  | .raised fault =>
    IO.eprintln fault.message
    return 1
