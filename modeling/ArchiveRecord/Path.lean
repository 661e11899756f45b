/- # Path -- paths in their normal form

A path text is a sequence of names between slashes. Its normal form drops empty
names and names that are a single dot, keeps `..`, and remembers how the text
began: exactly two slashes differ from one, and three or more count as one. The
path without any name is written as a dot.
-/

namespace ArchiveRecord

/-- Where a path starts. -/
inductive Anchor where
  | relative
  | root
  | doubleRoot
  deriving Repr, DecidableEq

/-- The slashes that an anchor is written with. -/
def Anchor.text : Anchor → List Char
  | .relative => []
  | .root => ['/']
  | .doubleRoot => ['/', '/']

/-- A path in normal form. -/
structure Path where
  anchor : Anchor
  names : List String
  deriving Repr, DecidableEq

namespace Path

/-- The pieces of a text between the occurrences of a character. -/
def pieces (separator : Char) : List Char → List (List Char)
  | [] => [[]]
  | c :: rest =>
    if c = separator then [] :: pieces separator rest
    else match pieces separator rest with
      | [] => [[c]]
      | piece :: more => (c :: piece) :: more

/-- The names of a path text, in order. -/
def namesOf (text : List Char) : List String :=
  ((pieces '/' text).filter fun name => name ≠ [] ∧ name ≠ ['.']).map String.ofList

/-- The anchor of a path text. -/
def anchorOf : List Char → Anchor
  | '/' :: '/' :: '/' :: _ => .root
  | '/' :: '/' :: _ => .doubleRoot
  | '/' :: _ => .root
  | _ => .relative

/-- The normal form of a path text. -/
def ofString (text : String) : Path := ⟨anchorOf text.toList, namesOf text.toList⟩

/-- The text of a path. -/
def text (path : Path) : String :=
  match path.anchor, path.names with
  | .relative, [] => "."
  | anchor, names => String.ofList (anchor.text ++ (String.intercalate "/" names).toList)

/-- The path of the directory that holds the last name; a path without names is its own parent. -/
def parent (path : Path) : Path := { path with names := path.names.dropLast }

end Path

end ArchiveRecord
