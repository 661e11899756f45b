/- # Origin -- where a token came from

A token comes from the arguments themselves or from a line of a params file. The
origin is used for diagnostics only and never influences what a token means.
-/
import ArchiveRecord.Path
import ArchiveRecord.Text.Numeral

namespace ArchiveRecord

/-- The place that a token was read from. -/
structure Origin where
  path : Option Path := none
  line : Option Int := none
  deriving Repr, DecidableEq

namespace Origin

/-- The origin of tokens that are arguments themselves. -/
def arguments : Origin := {}

/-- The same place at another line. -/
def atLine (origin : Origin) (line : Int) : Origin := { origin with line := some line }

/-- The label of a place: the path and the line as far as they are known. -/
def label (origin : Origin) : String :=
  let path := origin.path.toList.map Path.text
  let line := origin.line.toList.map fun n => "line " ++ String.ofList (Text.integer n)
  match path ++ line with
  | [] => "<argv>"
  | parts => String.intercalate ":" parts

end Origin

end ArchiveRecord
