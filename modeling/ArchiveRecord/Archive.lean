/- # Archive -- the record of one compiled archive

An archive names its package and lists its files; its `imports` give for each
path the archive that provides it. The written form is one JSON object on
one line, with the members in a fixed order.
-/
import ArchiveRecord.Json.Printer
import ArchiveRecord.OrderedMap

namespace ArchiveRecord

/-- The description of one compiled archive. -/
structure Archive where
  id : String := ""
  pkgPath : String := ""
  exportFile : String := ""
  goFiles : List String := []
  compiledGoFiles : List String := []
  otherFiles : List String := []
  imports : OrderedMap String String := ∅
  deriving DecidableEq

namespace Archive

/-- The archive without any content. -/
def empty : Archive := {}

instance : Inhabited Archive := ⟨empty⟩

/-- A list of strings as a value. -/
def stringList (strings : List String) : Value := .list (strings.map .string)

/-- The archive as a value, with the members in their published order. -/
def toValue (archive : Archive) : Value :=
  .mapping
    [("ID", .string archive.id),
     ("PkgPath", .string archive.pkgPath),
     ("ExportFile", .string archive.exportFile),
     ("GoFiles", stringList archive.goFiles),
     ("CompiledGoFiles", stringList archive.compiledGoFiles),
     ("OtherFiles", stringList archive.otherFiles),
     ("Imports", .mapping (archive.imports.entries.map fun entry => (entry.1, .string entry.2)))]

/-- The JSON document of an archive, ended by a line feed. -/
def encode (archive : Archive) : List Char :=
  Json.text Json.compact archive.toValue ++ ['\n']

end Archive

end ArchiveRecord
