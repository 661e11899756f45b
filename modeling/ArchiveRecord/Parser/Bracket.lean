/- # Parser.Bracket -- events inside one another

A stream is open between the event that opens it and the event that closes it. A
sequence of events is bracketed when each opening is matched by one closing of
the same handle and what is opened later is closed earlier.
-/
import ArchiveRecord.Parser.Dispatch

namespace ArchiveRecord.Parser

/-- The event opens or closes a stream. -/
def Event.isBracket : Event → Bool
  | .opened _ | .closed _ => true
  | _ => false

/-- **`Bracketed events`** -- openings and closings match. -/
inductive Bracketed : List Event → Prop where
  | nil : Bracketed []
  | cons {event : Event} {events : List Event} (h : event.isBracket = false) :
      Bracketed events → Bracketed (event :: events)
  | bracket {handle : String} {inner outer : List Event} :
      Bracketed inner → Bracketed outer →
        Bracketed (.opened handle :: inner ++ .closed handle :: outer)

/-- Bracketed sequences may follow one another. -/
theorem Bracketed.append {first second : List Event} (h : Bracketed first) (k : Bracketed second) :
    Bracketed (first ++ second) := by
  induction h with
  | nil => exact k
  | cons hevent _ ih => exact .cons hevent ih
  | @bracket handle inner outer hinner _ _ ih =>
    have : .opened handle :: inner ++ .closed handle :: outer ++ second
        = .opened handle :: inner ++ .closed handle :: (outer ++ second) := by simp
    exact this ▸ .bracket hinner ih

/-- **`EndsIn fault events`** -- the fault is raised, and only closings follow. -/
def EndsIn (fault : Fault) (events : List Event) : Prop :=
  ∃ (before : List Event) (handles : List String),
    events = before ++ .raised fault :: handles.map Event.closed

end ArchiveRecord.Parser
