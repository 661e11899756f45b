/- # Text.Quoted -- text between quotes, with escapes

The quoted form shows a text unambiguously on one line. The quotes are single,
unless the text holds a single quote and no double one. The quote in use and the
backslash stand behind a backslash; tab, line feed and carriage return have a
letter; other characters that are not printable are written by code point in the
shortest of three forms, of two, four or eight hexadecimal digits.
-/
import ArchiveRecord.Text.Numeral
import ArchiveRecord.Text.Printable

namespace ArchiveRecord.Text

/-- The quote around a text. -/
def quoteMark (text : List Char) : Char :=
  if '\'' ∈ text ∧ '"' ∉ text then '"' else '\''

/-- One character inside quotes. -/
def quotedChar (mark c : Char) : List Char :=
  if c = mark ∨ c = '\\' then ['\\', c]
  else if c = '\t' then ['\\', 't']
  else if c = '\n' then ['\\', 'n']
  else if c = '\r' then ['\\', 'r']
  else if isPrintable c then [c]
  else if c.toNat < 0x100 then '\\' :: 'x' :: numeral 16 2 c.toNat
  else if c.toNat < 0x10000 then '\\' :: 'u' :: numeral 16 4 c.toNat
  else '\\' :: 'U' :: numeral 16 8 c.toNat

/-- The text in quotes. -/
def quoted (text : List Char) : List Char :=
  let mark := quoteMark text
  mark :: text.flatMap (quotedChar mark) ++ [mark]

/-- A string in quotes. -/
def quote (text : String) : String := String.ofList (quoted text.toList)

end ArchiveRecord.Text
