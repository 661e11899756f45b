/- # FileTree.Basic -- directories and files around a working directory

A tree gives the places that exist what stands there. A place is the list of
names on the way to it from the working directory, in its shortest form: two
dots stand only at its front, where they lead out of the working directory. The
working directory and those above it always exist. There are no links, so a path
reaches at most one place: each name on the way has to be a directory, a dot
stays, and two dots go back by one name. A name has at most 255 bytes and a path
fewer than 4096.

Only relative paths are meant. Nothing is known of the tree from its root on, so
the slash in front of an absolute path is not looked at, and its names are taken
from the working directory like those of any other path.
-/
import ArchiveRecord.Fault
import ArchiveRecord.OrderedMap

namespace ArchiveRecord

/-- What stands at a place. -/
inductive Entry where
  | directory
  | file (content : List UInt8)
  deriving Repr, DecidableEq

/-- The names on the way to a place from the working directory. -/
abbrev Place := List String

namespace Place

/-- The place is the working directory or lies above it. -/
def isBase (place : Place) : Bool := place.all fun name => name = ".."

/-- The place lies in the working directory. -/
def isInside (place : Place) : Bool := place.head? ≠ some ".."

/-- The place that one goes back to. -/
def back (place : Place) : Place := if place.isBase then ".." :: place else place.dropLast

end Place

/-- The places that exist, apart from the working directory and those above it. -/
structure FileTree where
  entries : OrderedMap Place Entry := ∅

namespace FileTree

/-- The working directory without anything in it. -/
def empty : FileTree := {}

/-- What stands at a place. -/
def get? (tree : FileTree) (place : Place) : Option Entry :=
  if place.isBase then some .directory else tree.entries.get? place

/-- Puts an entry at a place. -/
def put (tree : FileTree) (place : Place) (entry : Entry) : FileTree :=
  ⟨tree.entries.insert place entry⟩

/-- A place takes the entry that is put there, and no other place changes. -/
theorem get?_put {tree : FileTree} {place other : Place} {entry : Entry}
    (h : place.isBase = false) :
    (tree.put place entry).get? other = if other = place then some entry else tree.get? other := by
  by_cases ho : other.isBase = true
  · have hne : other ≠ place := fun e => Bool.false_ne_true (h.symm.trans (e ▸ ho))
    simp only [get?, ho, if_true, if_neg hne]
  · simp only [get?, put, ho, if_false, OrderedMap.get?_insert, Bool.false_eq_true]

/-- The text can be the name of an entry. -/
def IsName (name : String) : Prop :=
  name ≠ "" ∧ name ≠ "." ∧ name ≠ ".." ∧ '/' ∉ name.toList ∧ '\x00' ∉ name.toList
    ∧ name.utf8ByteSize ≤ 255

instance (name : String) : Decidable (IsName name) :=
  inferInstanceAs (Decidable (_ ∧ _ ∧ _ ∧ _ ∧ _ ∧ _))

/-- **`IsPlace place`** -- the place is named: behind any two dots stands one name or more. -/
def IsPlace (place : Place) : Prop :=
  ∃ base names, place = base ++ names ∧ Place.isBase base ∧ names ≠ [] ∧ ∀ name ∈ names, IsName name

/-- **`WellFormed tree`** -- everything stands in a directory, under a name. -/
structure WellFormed (tree : FileTree) : Prop where
  isPlace : ∀ place ∈ tree.entries.keys, IsPlace place
  parent : ∀ place ∈ tree.entries.keys, tree.get? place.dropLast = some .directory

/-! ## Limits -/

/-- The greatest number of bytes of a name. -/
def nameLimit : Nat := 255

/-- The number of bytes from which on a path is too long. -/
def pathLimit : Nat := 4096

/-- Carries out an operation on a path, unless its text names nothing or is out of bounds. The
faults name the path by its text. -/
def onPath {α : Type} (text : String) (operation : Except Refusal α) : Except Fault α :=
  if '\x00' ∈ text.toList then .error .embeddedNul
  else if text = "" then .error (.refused .missing text)
  else if pathLimit ≤ text.utf8ByteSize then .error (.refused .nameTooLong text)
  else operation.mapError (Fault.refused · text)

/-! ## Ways -/

/-- The name stands for a directory by itself: a dot, or two. -/
def isDots (name : String) : Bool := name = "." ∨ name = ".."

/-- Looks a name up in a directory. -/
def look (tree : FileTree) (here : Place) (name : String) : Except Refusal (Option Entry) :=
  if nameLimit < name.utf8ByteSize then .error .nameTooLong
  else .ok (tree.get? (here ++ [name]))

/-- Goes from a directory to the directory of a name. -/
def enter (tree : FileTree) (here : Place) (name : String) : Except Refusal Place :=
  if name = "." then .ok here
  else if name = ".." then .ok here.back
  else match tree.look here name with
    | .error refusal => .error refusal
    | .ok none => .error .missing
    | .ok (some (.file _)) => .error .notDirectory
    | .ok (some .directory) => .ok (here ++ [name])

/-- Goes from a directory along names that all have to be directories. -/
def reach (tree : FileTree) : Place → List String → Except Refusal Place
  | here, [] => .ok here
  | here, name :: names =>
    match tree.enter here name with
    | .error refusal => .error refusal
    | .ok there => tree.reach there names

/-- The names reach a directory. -/
def reachesDirectory (tree : FileTree) (names : List String) : Except Refusal Unit :=
  (tree.reach [] names).map fun _ => ()

end FileTree

end ArchiveRecord
