/- # Command -- one run of the command

A run configures logging, fills an archive from the arguments, writes it and
reports where. An interrupt can come between these phases. The command ends with 0
after a run that succeeds, with 130 after one that is interrupted, and with 1 after
a fault that it reports itself; with debugging on it passes faults on instead.
-/
import ArchiveRecord.FileTree.Read
import ArchiveRecord.FileTree.Write
import ArchiveRecord.Flag
import ArchiveRecord.Settings

namespace ArchiveRecord

/-- What a session holds that outlasts a run. -/
structure Session where
  logging : Log.State := {}
  tree : FileTree := {}

/-! ## Writing -/

/-- What writing an archive gives. -/
structure Writing where
  result : Except Fault Path
  calls : List Log.Call
  tree : FileTree

/-- The log call after an archive is written. -/
def writtenCall (archive : Archive) (path : Path) : Log.Call :=
  Log.trace (Log.loggerName "io.writer") "archive written"
    [("path", .string path.text), ("id", .string archive.id)]

/-- The log calls after an archive is written: one, where traces are wanted. -/
def writtenCalls (archive : Archive) (tracing : Bool) (path : Path) : List Log.Call :=
  if tracing then [writtenCall archive path] else []

/-- The bytes of the document of an archive, if the host can encode it. -/
def Archive.content (archive : Archive) (host : Host) : Content :=
  (Encoding.Utf8.encodeFrom host.surrogate? 0 archive.encode).mapError Fault.unencodable

/-- Writes the document of an archive to a path. -/
def Archive.write (archive : Archive) (host : Host) (tracing : Bool) (output : String)
    (tree : FileTree) : Writing :=
  let path := Path.ofString output
  match tree.write host path (archive.content host) with
  | (tree, some fault) => ⟨.error fault, [], tree⟩
  | (tree, none) => ⟨.ok path, writtenCalls archive tracing path, tree⟩

/-! ## Runs -/

/-- How a run ends. -/
inductive Ending where
  | wrote (path : Path)
  | failed (fault : Fault)
  | interrupted
  deriving Repr, DecidableEq

/-- What a run gives: its ending, what happened while the arguments were parsed, every log call in
order, and the session that it leaves. -/
structure Report where
  ending : Ending
  events : List Parser.Event
  calls : List Log.Call
  session : Session

/-- The log calls among events. -/
def loggedCalls (events : List Parser.Event) : List Log.Call :=
  events.filterMap fun
    | .logged call => some call
    | _ => none

/-- The log call at the end of a run that succeeds. -/
def successCall (archive : Archive) (path : Path) : Log.Call :=
  ⟨Log.loggerName "cli", Log.info, "wrote archive %s to %s",
    [.string (if archive.id = "" then "<unnamed>" else archive.id), .string path.text], .null⟩

/-- The logging of a run: the trace switch and the set-up that the settings ask for. -/
def Settings.configure (settings : Settings) (logging : Log.State) : Log.State :=
  (logging.switchTrace settings.tracing).setUp settings.setup

/-- One run. Params files come from the provider, or from the tree where none is given. -/
def run (environment : Environment) (settings : Settings) (provider : Option Parser.Provider)
    (host : Host) (arguments : List String) (session : Session) : Report :=
  let logging := settings.configure session.logging
  let tracing := logging.isTracing environment
  if host.interrupt? = some .parsing then ⟨.interrupted, [], [], ⟨logging, session.tree⟩⟩
  else
    let filling := Archive.empty.fill tracing (provider.getD session.tree.provider) arguments
    let calls := loggedCalls filling.events
    match filling.result with
    | .error fault => ⟨.failed fault, filling.events, calls, ⟨logging, session.tree⟩⟩
    | .ok output =>
      if host.interrupt? = some .writing then
        ⟨.interrupted, filling.events, calls, ⟨logging, session.tree⟩⟩
      else
        let writing := filling.archive.write host tracing output session.tree
        match writing.result with
        | .error fault =>
          ⟨.failed fault, filling.events, calls ++ writing.calls, ⟨logging, writing.tree⟩⟩
        | .ok path =>
          if host.interrupt? = some .reporting then
            ⟨.interrupted, filling.events, calls ++ writing.calls, ⟨logging, writing.tree⟩⟩
          else
            ⟨.wrote path, filling.events,
              calls ++ writing.calls ++ [successCall filling.archive path],
              ⟨logging, writing.tree⟩⟩

/-! ## The command -/

/-- How the command ends. -/
inductive Exit where
  | code (code : Nat)
  | raised (fault : Fault)
  deriving Repr, DecidableEq

/-- What the command gives. -/
structure Completion where
  exit : Exit
  calls : List Log.Call
  session : Session

/-- The log call of a failure. -/
def errorCall (template : String) (arguments : List Value) : Log.Call :=
  ⟨Log.loggerName "cli", Log.error, template, arguments, .null⟩

/-- How the command ends after a run, and the log calls that it makes then. -/
def Ending.exit (settings : Settings) : Ending → Exit × List Log.Call
  | wrote _ => (.code 0, [])
  | interrupted => (.code 130, [errorCall "Interrupted by user." []])
  | failed fault =>
    if settings.debug ∨ fault.isExpected = false then (.raised fault, [])
    else (.code 1, [errorCall "error: %s" [.string fault.message]])

/-- The command, with the settings of its environment. -/
def command (environment : Environment) (host : Host) (arguments : List String)
    (session : Session) : Completion :=
  let settings := Settings.ofEnvironment environment
  let report := run environment settings none host arguments session
  let exit := report.ending.exit settings
  ⟨exit.1, report.calls ++ exit.2, report.session⟩

end ArchiveRecord
