/- # Host -- what a run meets around it

Not everything that happens to a run is decided by its arguments and the tree. How deep
calls may nest is up to the host, and so is whether somebody interrupts the run. A host
says both beforehand.

Texts hold characters here and nothing else. A host whose own texts can hold lone
surrogates sets characters aside that stand for them. Such a character cannot be encoded;
in every other respect it is taken for a character like any other. Whether a system has
names that hold it is not told, so that results about an output path ask for a plain one.
-/

namespace ArchiveRecord

/-- The moments between the phases of a run, at which an interrupt can come. -/
inductive Moment where
  /-- Before the arguments are parsed. -/
  | parsing
  /-- Before the archive is written. -/
  | writing
  /-- After the archive is written, and before that is reported. -/
  | reporting
  deriving Repr, DecidableEq

/-- What a run meets around it. -/
structure Host where
  /-- How many calls that make a missing parent fit into one another. -/
  nesting : Nat := 985
  /-- The wording of the fault where they do not fit. -/
  overflow : String := "maximum recursion depth exceeded"
  /-- The lone surrogate that a character stands for. -/
  surrogate? : Char → Option Nat := fun _ => none
  /-- The moment of an interrupt, if there is one. -/
  interrupt? : Option Moment := none

end ArchiveRecord
