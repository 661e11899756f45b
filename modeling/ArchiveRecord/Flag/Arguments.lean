/- # Flag.Arguments -- the arguments of an archive

What the flags read can be written: an archive whose fields no flag name hides
and whose files stand in the right lists has a list of arguments that fills it.
Beside it stands the reading of a list of arguments as pairs of a flag and a
value, which says what each flag is given without dispatching anything.
-/
import ArchiveRecord.Flag

namespace ArchiveRecord

namespace Flag

/-- The flag of a name. -/
def ofName? (name : String) : Option Flag := all.find? fun flag => flag.name = name

/-- A name is the name of one flag. -/
theorem ofName?_name (flag : Flag) : ofName? flag.name = some flag := by
  cases flag <;> decide

/-- No flag refers to a params file. -/
theorem unmarked_name (flag : Flag) : ¬ "@".toList <+: flag.name.toList := by
  cases flag <;> decide

/-- The values of a list of tokens, each with the flag that stands nearest before it. A value
before the first flag has none and is left out. -/
def assignments : Option Flag → List String → List (Flag × String)
  | _, [] => []
  | active, token :: rest =>
    match ofName? token, active with
    | some flag, _ => assignments (some flag) rest
    | none, some flag => (flag, token) :: assignments active rest
    | none, none => assignments none rest

/-- The values that a flag is given. -/
def values (flag : Flag) (tokens : List String) : List String :=
  ((assignments none tokens).filter fun assignment => assignment.1 = flag).map Prod.snd

/-- The flag that is active behind tokens: the last one that they name, or the one before them. -/
def activeBehind (active : Option Flag) (tokens : List String) : Option Flag :=
  (tokens.filterMap ofName?).getLast?.or active

end Flag

namespace Archive

/-- The archive with values assigned to its fields, each field by itself. Values of imports that are
no pairs are left out. -/
def assigned (archive : Archive) (assignments : List (Flag × String)) : Archive :=
  let given (flag : Flag) : List String :=
    (assignments.filter fun assignment => assignment.1 = flag).map Prod.snd
  { id := (given .id).getLast?.getD archive.id
    pkgPath := (given .pkgPath).getLast?.getD archive.pkgPath
    exportFile := (given .exportFile).getLast?.getD archive.exportFile
    goFiles := archive.goFiles ++ (given .origSrcs).filter Flag.isGoSource
    compiledGoFiles := archive.compiledGoFiles ++ (given .dataSrcs).filter Flag.isGoSource
    otherFiles := archive.otherFiles ++ (given .origSrcs).filter fun file => !Flag.isGoSource file
    imports := archive.imports.insertAll
      ((given .imports).filterMap fun value => (Escaped.pair value).toOption) }

/-- The archive that tokens make of another one, when each is a flag or a value that its flag takes.
Nothing is dispatched here: each field has the values of its own flag. -/
def filledBy (archive : Archive) (tokens : List String) : Archive :=
  archive.assigned (Flag.assignments none tokens)

/-- The written form of an import. -/
def importText (path provider : String) : String :=
  let field (text : String) := Escaped.escape '=' '\\' text.toList
  String.ofList (field path ++ '=' :: field provider)

/-- The arguments that fill an archive and name an output path. The Go files and the other files
are given together, in an order of their own. -/
def arguments (archive : Archive) (sources : List String) (output : String) : List String :=
  [Flag.id.name, archive.id, Flag.pkgPath.name, archive.pkgPath,
    Flag.exportFile.name, archive.exportFile]
    ++ Flag.origSrcs.name :: sources
    ++ Flag.dataSrcs.name :: archive.compiledGoFiles
    ++ Flag.imports.name :: archive.imports.entries.map (fun entry => importText entry.1 entry.2)
    ++ [Flag.outputFile.name, output]

/-- The sources are the Go files and the other files of an archive, each in their order. -/
def IsSources (archive : Archive) (sources : List String) : Prop :=
  sources.filter Flag.isGoSource = archive.goFiles
    ∧ (sources.filter fun file => !Flag.isGoSource file) = archive.otherFiles

/-- The texts of an archive that are given as values of their own. -/
def texts (archive : Archive) : List String :=
  [archive.id, archive.pkgPath, archive.exportFile]
    ++ archive.goFiles ++ archive.compiledGoFiles ++ archive.otherFiles

/-- **`Fillable archive output`** -- some arguments fill the archive and name the output path. -/
structure Fillable (archive : Archive) (output : String) : Prop where
  output_ne : output ≠ ""
  goFiles_go : ∀ file ∈ archive.goFiles, Flag.isGoSource file = true
  compiled_go : ∀ file ∈ archive.compiledGoFiles, Flag.isGoSource file = true
  others_not_go : ∀ file ∈ archive.otherFiles, Flag.isGoSource file = false
  no_flag : ∀ text ∈ output :: archive.texts, Flag.ofName? text = none

end Archive

end ArchiveRecord
