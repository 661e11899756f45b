/- # Text.CodeRange -- sets of characters as ranges of code points

A property of characters that a standard fixes by enumeration is kept as a list
of closed ranges of code points. Membership is one lookup, so a table is data and
nothing else.
-/

namespace ArchiveRecord.Text

/-- Closed ranges of code points, first and last. -/
abbrev CodeRanges := List (Nat × Nat)

/-- Some range holds the character. -/
def CodeRanges.contains (ranges : CodeRanges) (c : Char) : Bool :=
  ranges.any fun range => range.1 ≤ c.toNat && c.toNat ≤ range.2

end ArchiveRecord.Text
