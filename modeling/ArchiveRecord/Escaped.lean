/- # Escaped -- fields between delimiters, with an escape character

A value such as `importpath=id` holds fields between delimiters. The escape
character makes the character after it literal, whatever it is, and stands in no
field unless it is escaped itself. An escape at the very end of the value has
nothing to act on and is dropped.
-/
import ArchiveRecord.Fault

namespace ArchiveRecord.Escaped

/-- Puts a character in front of the first field. -/
def extend (c : Char) : List (List Char) → List (List Char)
  | [] => [[c]]
  | field :: more => (c :: field) :: more

/-- The fields of a text that starts inside a field, behind an escape or not. The first field of
the result is the rest of that field, so the result is never empty. -/
def fieldsFrom (delimiter escape : Char) : Bool → List Char → List (List Char)
  | _, [] => [[]]
  | true, c :: rest => extend c (fieldsFrom delimiter escape false rest)
  | false, c :: rest =>
    if c = escape then fieldsFrom delimiter escape true rest
    else if c = delimiter then [] :: fieldsFrom delimiter escape false rest
    else extend c (fieldsFrom delimiter escape false rest)

/-- The fields of a text. -/
def fields (delimiter escape : Char) (text : List Char) : List (List Char) :=
  fieldsFrom delimiter escape false text

/-- The text with the escape in front of each delimiter and each escape. -/
def escape (delimiter escape : Char) (text : List Char) : List Char :=
  text.flatMap fun c => if c = delimiter ∨ c = escape then [escape, c] else [c]

/-- The single character that a role is given. -/
def single (role : SplitRole) (given : String) : Except Fault Char :=
  match given.toList with
  | [c] => .ok c
  | _ => .error (.notSingle role given)

/-- Splits a value at each delimiter that is not escaped. -/
def split (value delimiter escape : String) : Except Fault (List String) := do
  let delimiter ← single .delimiter delimiter
  let escape ← single .escape escape
  if delimiter = escape then throw .sameRoles
  return (fields delimiter escape value.toList).map String.ofList

/-- The key and the value of a token that has exactly two fields. -/
def pair (token : String) (delimiter : String := "=") (escape : String := "\\") :
    Except Fault (String × String) := do
  match ← split token delimiter escape with
  | [key, value] => return (key, value)
  | _ => throw (.malformedPair token)

end ArchiveRecord.Escaped
