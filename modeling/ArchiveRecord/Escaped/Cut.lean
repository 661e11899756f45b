/- # Escaped.Cut -- fields by the runs of escapes in front of delimiters

A second account of escaped fields, which looks back instead of keeping a state.
A delimiter is a cut where the run of escapes that ends just before it has even
length. A field is what stands between two cuts, with each run of escapes halved.
-/
import ArchiveRecord.Escaped

namespace ArchiveRecord.Escaped

/-- The length of the run of escapes that ends a text. -/
def finalRun (e : Char) (text : List Char) : Nat := (text.reverse.takeWhile (· = e)).length

/-- The position of a text is a cut. -/
def isCut (d e : Char) (text : List Char) (position : Nat) : Bool :=
  text[position]? = some d ∧ finalRun e (text.take position) % 2 = 0

/-- The cuts of a text, in order. -/
def cuts (d e : Char) (text : List Char) : List Nat :=
  (List.range text.length).filter (isCut d e text)

/-- The parts of a text that starts at a position, between the positions of cuts. -/
def between (text : List Char) (start : Nat) : List Nat → List (List Char)
  | [] => [text.drop start]
  | cut :: more => (text.take cut).drop start :: between text (cut + 1) more

/-- A maximal run of escapes, or a single other character, as it stands in a field. -/
def halved (e : Char) (run : List Char) : List Char :=
  if run.head? = some e then List.replicate (run.length / 2) e else run

/-- The text with each maximal run of escapes halved, an odd length rounded down. -/
def halveRuns (e : Char) (text : List Char) : List Char :=
  (text.splitBy fun a b => a = e ∧ b = e).flatMap (halved e)

/-- The fields of a text by its cuts. -/
def fieldsByCuts (d e : Char) (text : List Char) : List (List Char) :=
  (between text 0 (cuts d e text)).map (halveRuns e)

/-- **`IsPair token`** -- the token has exactly one delimiter that is not escaped. -/
def IsPair (token : String) : Prop := (cuts '=' '\\' token.toList).length = 1

instance (token : String) : Decidable (IsPair token) :=
  inferInstanceAs (Decidable ((cuts '=' '\\' token.toList).length = 1))

/-- There is one part more than there are cuts. -/
theorem length_between (text : List Char) (start : Nat) (cuts : List Nat) :
    (between text start cuts).length = cuts.length + 1 := by
  induction cuts generalizing start with
  | nil => rfl
  | cons cut more ih => simp only [between, List.length_cons, ih]

end ArchiveRecord.Escaped
