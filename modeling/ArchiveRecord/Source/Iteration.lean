/- # Source.Iteration -- what a client does with a source

A client asks its iterator for one token or for all that are left, takes a new
iterator in place of the old one, or asks the source where it is. A transcript of
that tells, step by step, what was done and which answers came. Whether the iterator
taken last may still deliver can be read off the transcript: it may as long as none
of its answers was an end or a fault.
-/
import ArchiveRecord.Source

namespace ArchiveRecord.Reader

/-- What a client does. -/
inductive Step where
  | next
  | drain
  | renew
  | origin
  deriving Repr, DecidableEq

namespace Answer

/-- The answer is the last one of its iterator. -/
def isFinal : Answer → Bool
  | token _ => false
  | failed _ | ended => true

/-- What an answer says of a line. The end is no line. -/
def result? : Answer → Option (Except Fault String)
  | token given => some (.ok given)
  | failed fault => some (.error fault)
  | ended => none

end Answer

/-- The answers to a step, and the reader behind it. -/
def step (reader : Reader) : Step → List Answer × Reader
  | .next => ([reader.next.1], reader.next.2)
  | .drain => (reader.drain.1.map .token ++ [reader.drain.2.1], reader.drain.2.2)
  | .renew => ([], reader.renew)
  | .origin => ([], reader)

/-- The reader behind steps. -/
def after (reader : Reader) (steps : List Step) : Reader :=
  steps.foldl (fun reader step => (reader.step step).2) reader

/-- The steps, each with its answers. -/
def transcript (reader : Reader) : List Step → List (Step × List Answer)
  | [] => []
  | step :: steps => (step, (reader.step step).1) :: (reader.step step).2.transcript steps

/-- All answers of a transcript, in order. -/
def answersOf (told : List (Step × List Answer)) : List Answer := told.flatMap Prod.snd

/-- The iterator taken last has come to its end or failed. -/
def isSpent (told : List (Step × List Answer)) : Bool :=
  (told.reverse.takeWhile (·.1 ≠ .renew)).any (·.2.any Answer.isFinal)

end ArchiveRecord.Reader
