/- # Text.Blank -- blank characters and stripping

A character is blank when it has the Unicode property of white space or is one
of the four information separators U+001C to U+001F: 29 characters in all. A
zero width space, a byte order mark and the character U+0000 are not blank.
-/
import ArchiveRecord.Text.CodeRange

namespace ArchiveRecord.Text

/-- The blank characters. -/
def blankRanges : CodeRanges :=
  [(0x09, 0x0D), (0x1C, 0x20), (0x85, 0x85), (0xA0, 0xA0), (0x1680, 0x1680), (0x2000, 0x200A),
   (0x2028, 0x2029), (0x202F, 0x202F), (0x205F, 0x205F), (0x3000, 0x3000)]

/-- The character is blank. -/
def isBlank (c : Char) : Bool := blankRanges.contains c

/-- The text without the blank characters at its two ends. -/
def strip (text : List Char) : List Char :=
  ((text.dropWhile isBlank).reverse.dropWhile isBlank).reverse

end ArchiveRecord.Text
