/- # Flag -- the flags that fill an archive

Seven flags take the values of a build action to the fields of an archive and to
the output path. The last value of a field that holds one string wins; lists
grow at their end; Go sources are told from other files by their suffix.
-/
import ArchiveRecord.Archive
import ArchiveRecord.Escaped
import ArchiveRecord.Parser.Dispatch

namespace ArchiveRecord

/-- The flags of the command line. -/
inductive Flag where
  | id
  | pkgPath
  | exportFile
  | origSrcs
  | dataSrcs
  | imports
  | outputFile
  deriving Repr, DecidableEq

/-- What a parse fills: the archive, and the path to write it to. -/
structure Target where
  archive : Archive := {}
  outputPath : Option String := none
  deriving DecidableEq

namespace Flag

/-- All flags, in the order in which they are bound. -/
def all : List Flag := [id, pkgPath, exportFile, origSrcs, dataSrcs, imports, outputFile]

/-- The name of a flag. -/
def name : Flag → String
  | id => "--id"
  | pkgPath => "--pkg-path"
  | exportFile => "--export-file"
  | origSrcs => "--orig-srcs"
  | dataSrcs => "--data-srcs"
  | imports => "--imports"
  | outputFile => "--output-file"

/-- The file is a Go source. -/
def isGoSource (file : String) : Bool := ".go".toList <:+ file.toList

/-- What a value of a flag does to the target. -/
def apply (flag : Flag) (value : String) (target : Target) : Except Fault Target :=
  let archive := target.archive
  match flag with
  | id => .ok { target with archive := { archive with id := value } }
  | pkgPath => .ok { target with archive := { archive with pkgPath := value } }
  | exportFile => .ok { target with archive := { archive with exportFile := value } }
  | origSrcs =>
    if isGoSource value then
      .ok { target with archive := { archive with goFiles := archive.goFiles ++ [value] } }
    else
      .ok { target with archive := { archive with otherFiles := archive.otherFiles ++ [value] } }
  | dataSrcs =>
    if isGoSource value then
      .ok { target with
        archive := { archive with compiledGoFiles := archive.compiledGoFiles ++ [value] } }
    else .ok target
  | imports => do
    let (path, provider) ← Escaped.pair value
    return { target with
      archive := { archive with imports := archive.imports.insert path provider } }
  | outputFile => .ok { target with outputPath := some value }

/-- The log call for a data source that is not a Go source. -/
def ignoringCall (value : String) : Log.Call :=
  ⟨Log.loggerName "flags", Log.debug, "ignoring non-Go data source %s", [.string value], .null⟩

/-- The callback of a flag. -/
def callback (flag : Flag) : Parser.Callback Target := fun value =>
  .read fun target =>
    match flag.apply value target with
    | .error fault => .fail fault
    | .ok target =>
      if flag = dataSrcs ∧ isGoSource value = false then .log (ignoringCall value) .done
      else .write target .done

end Flag

/-- Binds all flags of the command line. -/
def Parser.bindFlags (parser : Parser Target) : Parser Target :=
  Flag.all.foldl (fun parser flag => parser.register flag.name flag.callback) parser

/-- What filling an archive from arguments gives: how it ends, the archive as it is left, and what
happened on the way. -/
structure Filling where
  result : Except Fault String
  archive : Archive
  events : List Parser.Event

/-- Fills an archive from arguments and gives the output path. The callbacks of the flags parse
nothing themselves, so one level of parsing is enough. -/
def Archive.fill (archive : Archive) (tracing : Bool) (provider : Parser.Provider)
    (arguments : List String) : Filling :=
  let parser := Parser.bindFlags { provider }
  let run := Parser.parse tracing 1 arguments ⟨parser, { archive }⟩
  let target := run.state.host
  let result := match run.outcome, target.outputPath with
    | .failed fault, _ => .error fault
    | _, some path => if path = "" then .error .noOutputPath else .ok path
    | _, none => .error .noOutputPath
  ⟨result, target.archive, run.events⟩

end ArchiveRecord
