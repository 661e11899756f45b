/- # FileTree.Write -- making directories and writing files

A file is written after the directories on the way to it are made. They are made
from the last one back: a directory whose parent is missing is tried again when
the parent is there, and one that exists is left alone. Each missing parent is made
by a call inside that for its child, and only so many calls fit into one another. A
file is emptied when it is opened, before it is known whether there are bytes to
write. What was done stays, even where a later step is refused, so every operation
gives the tree that it leaves beside the fault that it met.
-/
import ArchiveRecord.FileTree.Basic
import ArchiveRecord.Host

namespace ArchiveRecord

/-- What is to be written to a file: bytes, or the fault for which there are none. -/
abbrev Content := Except Fault (List UInt8)

namespace Content

/-- The bytes that are left in the file. -/
def left : Content → List UInt8
  | .ok bytes => bytes
  | .error _ => []

def fault? : Content → Option Fault
  | .ok _ => none
  | .error fault => some fault

end Content

namespace FileTree

/-- Makes the last of the names a directory inside the directory that the others reach. -/
def makeDirectory (tree : FileTree) (names : List String) : Except Refusal FileTree :=
  match names.getLast? with
  | none => .error .exists
  | some name =>
    match tree.reach [] names.dropLast with
    | .error refusal => .error refusal
    | .ok here =>
      if isDots name then .error .exists
      else match tree.look here name with
        | .error refusal => .error refusal
        | .ok (some _) => .error .exists
        | .ok none => .ok (tree.put (here ++ [name]) .directory)

/-- Gives the last of the names a content, inside the directory that the others reach. -/
def fillFile (tree : FileTree) (names : List String) (content : List UInt8) :
    Except Refusal FileTree :=
  match names.getLast? with
  | none => .error .isDirectory
  | some name =>
    match tree.reach [] names.dropLast with
    | .error refusal => .error refusal
    | .ok here =>
      if isDots name then .error .isDirectory
      else match tree.look here name with
        | .error refusal => .error refusal
        | .ok (some .directory) => .error .isDirectory
        | .ok _ => .ok (tree.put (here ++ [name]) (.file content))

/-- A fault of making a directory counts only where the path is no directory already. -/
def unlessDirectory (tree : FileTree) (path : Path) (fault : Fault) : Option Fault :=
  match onPath path.text (tree.reachesDirectory path.names) with
  | .ok () => none
  | .error _ => some fault

/-- Makes a directory whose parent exists; it may exist itself. -/
def ensureDirectory (tree : FileTree) (path : Path) : FileTree × Option Fault :=
  match onPath path.text (tree.makeDirectory path.names) with
  | .ok tree => (tree, none)
  | .error fault => (tree, tree.unlessDirectory path fault)

/-- Makes a directory and, where they are missing, the directories on the way to it. Inside the call
for the directory, `calls` calls for a parent fit into one another. -/
def ensurePath (tree : FileTree) (overflow : String) (path : Path) (calls : Nat) :
    FileTree × Option Fault :=
  match onPath path.text (tree.makeDirectory path.names) with
  | .ok tree => (tree, none)
  | .error fault =>
    if fault = .refused .missing path.text ∧ path.names ≠ [] then
      match calls with
      | 0 => (tree, some (.exhausted overflow))
      | calls + 1 =>
        match tree.ensurePath overflow path.parent calls with
        | (tree, some fault) => (tree, some fault)
        | (tree, none) => tree.ensureDirectory path
    else (tree, tree.unlessDirectory path fault)

/-- Opens a file, which empties it, and writes the bytes that there are. -/
def fill (tree : FileTree) (path : Path) (content : Content) : FileTree × Option Fault :=
  match onPath path.text (tree.fillFile path.names content.left) with
  | .ok tree => (tree, content.fault?)
  | .error fault => (tree, some fault)

/-- Writes a file after making the directories on the way to it. -/
def write (tree : FileTree) (host : Host) (path : Path) (content : Content) :
    FileTree × Option Fault :=
  match tree.ensurePath host.overflow path.parent host.nesting with
  | (tree, some fault) => (tree, some fault)
  | (tree, none) => tree.fill path content

end FileTree

end ArchiveRecord
