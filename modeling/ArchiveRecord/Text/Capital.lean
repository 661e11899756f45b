/- # Text.Capital -- capital forms within ASCII

Names of log levels are looked up in capital letters. A name is ASCII, so only a
character whose whole capital form is ASCII can help to spell one: the ASCII
letters, the dotless i, the long s, the sharp s and the Latin ligatures. Every
other character keeps its place and rules the lookup out either way.
-/

namespace ArchiveRecord.Text

/-- The capital form of a character where that form is ASCII, else the character itself. -/
def capital (c : Char) : List Char :=
  match c with
  | '\u0131' => ['I']
  | '\u017F' => ['S']
  | '\u00DF' => ['S', 'S']
  | '\uFB00' => ['F', 'F']
  | '\uFB01' => ['F', 'I']
  | '\uFB02' => ['F', 'L']
  | '\uFB03' => ['F', 'F', 'I']
  | '\uFB04' => ['F', 'F', 'L']
  | '\uFB05' => ['S', 'T']
  | '\uFB06' => ['S', 'T']
  | c => [c.toUpper]

/-- The text in capital letters. -/
def capitals (text : List Char) : List Char := text.flatMap capital

end ArchiveRecord.Text
