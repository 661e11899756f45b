/- # Value -- the values of log arguments and of JSON documents

A value is a scalar, a list or a mapping whose members keep their order. It has
three written forms: as JSON (see `Json.Printer`), quoted, where every value can
be told from every other, and plain, which differs from the quoted form in that
a string stands without quotes.
-/
import ArchiveRecord.Text.Quoted

namespace ArchiveRecord

/-- A value. The members of a mapping have different keys. -/
inductive Value where
  | null
  | bool (b : Bool)
  | int (n : Int)
  | string (s : String)
  | list (items : List Value)
  | mapping (members : List (String × Value))
  deriving Repr, Inhabited

namespace Value

/-- The name of the kind of a value. -/
def kindName : Value → String
  | null => "NoneType"
  | bool _ => "bool"
  | int _ => "int"
  | string _ => "str"
  | list _ => "list"
  | mapping _ => "dict"

mutual

/-- The quoted form of a value. -/
def quotedText : Value → List Char
  | null => "None".toList
  | bool true => "True".toList
  | bool false => "False".toList
  | int n => Text.integer n
  | string s => Text.quoted s.toList
  | list items => '[' :: quotedItems items ++ [']']
  | mapping members => '\x7b' :: quotedMembers members ++ ['\x7d']

/-- The quoted forms of the items of a list. -/
def quotedItems : List Value → List Char
  | [] => []
  | [item] => quotedText item
  | item :: rest => quotedText item ++ ',' :: ' ' :: quotedItems rest

/-- The quoted forms of the members of a mapping. -/
def quotedMembers : List (String × Value) → List Char
  | [] => []
  | [(key, value)] => Text.quoted key.toList ++ ':' :: ' ' :: quotedText value
  | (key, value) :: rest =>
    Text.quoted key.toList ++ ':' :: ' ' :: quotedText value ++ ',' :: ' ' :: quotedMembers rest

end

/-- The plain form of a value. -/
def plainText : Value → List Char
  | string s => s.toList
  | value => quotedText value

end Value

end ArchiveRecord
