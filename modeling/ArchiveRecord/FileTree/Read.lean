/- # FileTree.Read -- the content of files and of the working directory

A file is read under the text of its path as it was given. A directory cannot be
read, and a file cannot be read under a text that ends in a slash. The listing of
the working directory is sorted by what it shows, code point by code point.
-/
import ArchiveRecord.FileTree.Basic
import ArchiveRecord.Parser.Script

namespace ArchiveRecord.FileTree

/-- The names of a path text, with dots kept. -/
def rawNames (text : String) : List String :=
  ((Path.pieces '/' text.toList).filter fun name => name ≠ []).map String.ofList

/-- The content of the file that names reach, where only a directory may be meant or not. -/
def contentOf (tree : FileTree) (names : List String) (asDirectory : Bool) :
    Except Refusal (List UInt8) :=
  match names.getLast? with
  | none => .error .isDirectory
  | some name =>
    match tree.reach [] names.dropLast with
    | .error refusal => .error refusal
    | .ok here =>
      if isDots name then .error .isDirectory
      else match tree.look here name with
        | .error refusal => .error refusal
        | .ok none => .error .missing
        | .ok (some .directory) => .error .isDirectory
        | .ok (some (.file content)) => if asDirectory then .error .notDirectory else .ok content

/-- The content of the file of a path text. -/
def read (tree : FileTree) (text : String) : Except Fault (List UInt8) :=
  onPath text (tree.contentOf (rawNames text) (text.toList.getLast? = some '/'))

/-- Gives the files of a tree as streams, line by line. -/
def provider (tree : FileTree) : Parser.Provider := fun handle =>
  (tree.read handle).map Stream.ofBytes

/-! ## Listing -/

/-- One line of a listing: a path, with a slash behind a directory, and the content of a file. -/
structure Listed where
  path : String
  content : Option (List UInt8)
  deriving Repr, DecidableEq

/-- The line of an entry. -/
def listed (place : Place) : Entry → Listed
  | .directory => ⟨String.intercalate "/" place ++ "/", none⟩
  | .file content => ⟨String.intercalate "/" place, some content⟩

/-- Everything in the working directory, sorted by path. -/
def listing (tree : FileTree) : List Listed :=
  let inside := tree.entries.entries.filter fun entry => entry.1.isInside
  (inside.map fun entry => listed entry.1 entry.2).mergeSort fun a b => !(b.path < a.path)

end ArchiveRecord.FileTree
