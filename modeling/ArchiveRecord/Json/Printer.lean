/- # Json.Printer -- values as JSON texts

A text is printed on one line. Members keep their order. Inside a string the
quote and the backslash stand behind a backslash, five control characters have a
letter, the other characters below U+0020 are written by code point in four
hexadecimal digits, and every other character stands for itself.
-/
import ArchiveRecord.Value

namespace ArchiveRecord.Json

/-- What stands between items or members, and between a key and its value. -/
structure Style where
  betweenItems : List Char
  afterKey : List Char
  deriving Repr, DecidableEq

/-- Without any space, as archives are written. -/
def compact : Style := ⟨[','], [':']⟩

/-- With a space behind each separator, as log lines are written. -/
def spaced : Style := ⟨[',', ' '], [':', ' ']⟩

/-- One character inside a JSON string. -/
def escapedChar (c : Char) : List Char :=
  if c = '"' then ['\\', '"']
  else if c = '\\' then ['\\', '\\']
  else if c = '\n' then ['\\', 'n']
  else if c = '\r' then ['\\', 'r']
  else if c = '\t' then ['\\', 't']
  else if c = '\x0c' then ['\\', 'f']
  else if c = '\x08' then ['\\', 'b']
  else if c.toNat < 0x20 then '\\' :: 'u' :: Text.numeral 16 4 c.toNat
  else [c]

/-- A JSON string. -/
def stringText (text : List Char) : List Char := '"' :: text.flatMap escapedChar ++ ['"']

mutual

/-- The JSON text of a value. -/
def text (style : Style) : Value → List Char
  | .null => "null".toList
  | .bool true => "true".toList
  | .bool false => "false".toList
  | .int n => Text.integer n
  | .string s => stringText s.toList
  | .list items => '[' :: itemsText style items ++ [']']
  | .mapping members => '\x7b' :: membersText style members ++ ['\x7d']

/-- The items of a JSON array. -/
def itemsText (style : Style) : List Value → List Char
  | [] => []
  | [item] => text style item
  | item :: rest => text style item ++ style.betweenItems ++ itemsText style rest

/-- The members of a JSON object. -/
def membersText (style : Style) : List (String × Value) → List Char
  | [] => []
  | [(key, value)] => stringText key.toList ++ style.afterKey ++ text style value
  | (key, value) :: rest =>
    stringText key.toList ++ style.afterKey ++ text style value ++ style.betweenItems
      ++ membersText style rest

end

end ArchiveRecord.Json
