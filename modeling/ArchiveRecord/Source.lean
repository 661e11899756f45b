/- # Source -- tokens one after the other

Tokens come from a list of arguments or, one per line, from a stream. A line is
a text or bytes that have to be decoded; it is read without one line feed at its
end and then without one carriage return. The number of lines read goes up
before a line is decoded, so the origin names an undecodable line too.

A `Reader` is a source with one iterator over it. An iterator that came to its
end or failed stays at its end. A new iterator over a list starts again; one over
lines goes on with the next unread line.
-/
import ArchiveRecord.Encoding

namespace ArchiveRecord

/-! ## Lines -/

/-- One line as a stream delivers it, usually with its terminator. -/
inductive Line where
  | text (characters : List Char)
  | bytes (raw : List UInt8)
  deriving Repr, DecidableEq

/-- The lines that a stream delivers. -/
abbrev Stream := List Line

/-- Cuts a list behind each occurrence of an element. Nothing is left behind the last cut unless
the list goes on there. -/
def cutAfter {α : Type} [DecidableEq α] (mark : α) : List α → List (List α)
  | [] => []
  | a :: rest =>
    if a = mark then [a] :: cutAfter mark rest
    else match cutAfter mark rest with
      | [] => [[a]]
      | piece :: more => (a :: piece) :: more

/-- The stream of a text, cut behind each line feed. -/
def Stream.ofText (text : List Char) : Stream := (cutAfter '\n' text).map .text

/-- The stream of bytes, cut behind each line feed. -/
def Stream.ofBytes (bytes : List UInt8) : Stream := (cutAfter 0x0A bytes).map .bytes

/-- The list without its last element, where that is the given one. -/
def dropLastIf {α : Type} [DecidableEq α] (mark : α) (list : List α) : List α :=
  if list.getLast? = some mark then list.dropLast else list

namespace Line

/-- A line without its terminator: one line feed, then one carriage return. -/
def chomp (line : List Char) : List Char := dropLastIf '\r' (dropLastIf '\n' line)

/-- The text of a line. -/
def decoded (encoding : Encoding) : Line → Except Fault (List Char)
  | text characters => .ok characters
  | bytes raw => encoding.decode raw

/-- The token of a line. -/
def token (encoding : Encoding) (line : Line) : Except Fault String :=
  (line.decoded encoding).map fun characters => String.ofList (chomp characters)

end Line

/-! ## Readings -/

/-- What a source delivers at one place: a token, or the fault that reading it met. -/
structure Reading where
  result : Except Fault String
  origin : Origin

/-- The readings of arguments. -/
def argumentReadings (arguments : List String) : List Reading :=
  arguments.map fun token => ⟨.ok token, Origin.arguments⟩

/-- The readings of the lines of a stream, behind a number of lines that are read already. -/
def lineReadings (path : Option Path) (encoding : Encoding) : Nat → Stream → List Reading
  | _, [] => []
  | consumed, line :: rest =>
    ⟨line.token encoding, ⟨path, some (consumed + 1 : Nat)⟩⟩
      :: lineReadings path encoding (consumed + 1) rest

/-! ## Line sources -/

/-- A stream that is read line by line. -/
structure LineSource where
  path : Option Path
  encoding : Encoding
  pending : Stream
  consumed : Nat := 0

namespace LineSource

/-- The place that was read last; it has no line number before the first line. -/
def origin (source : LineSource) : Origin :=
  ⟨source.path, if source.consumed = 0 then none else some source.consumed⟩

/-- Reads the next line, if there is one. -/
def next? (source : LineSource) : Option (Except Fault String × LineSource) :=
  match source.pending with
  | [] => none
  | line :: rest =>
    some (line.token source.encoding,
      { source with pending := rest, consumed := source.consumed + 1 })

end LineSource

/-! ## Readers -/

/-- A source with one iterator over it. -/
inductive Reader where
  /-- A list of tokens and what the iterator has still to deliver. -/
  | slice (tokens ahead : List String)
  /-- A line source, and whether the iterator is still live. -/
  | lines (source : LineSource) (live : Bool)

/-- What asking for one more token gives. -/
inductive Reader.Answer where
  | token (token : String)
  | failed (fault : Fault)
  | ended
  deriving Repr, DecidableEq

namespace Reader

/-- A reader over a list of tokens. -/
def ofTokens (tokens : List String) : Reader := slice tokens tokens

/-- A reader over a line source. -/
def ofLines (source : LineSource) : Reader := lines source true

/-- The place that the source has reached. -/
def origin : Reader → Origin
  | slice _ _ => Origin.arguments
  | lines source _ => source.origin

/-- A new iterator over the same source. -/
def renew : Reader → Reader
  | slice tokens _ => slice tokens tokens
  | lines source _ => lines source true

/-- Asks the iterator for one token. -/
def next : Reader → Answer × Reader
  | slice tokens [] => (.ended, slice tokens [])
  | slice tokens (token :: ahead) => (.token token, slice tokens ahead)
  | lines source false => (.ended, lines source false)
  | lines source true =>
    match source.next? with
    | none => (.ended, lines source false)
    | some (.ok token, source) => (.token token, lines source true)
    | some (.error fault, source) => (.failed fault, lines source false)

/-- The number of tokens that a reader may still deliver. -/
def remaining : Reader → Nat
  | slice _ ahead => ahead.length
  | lines source _ => source.pending.length

theorem remaining_next {reader : Reader} {token : String}
    (h : reader.next.1 = .token token) : reader.next.2.remaining < reader.remaining := by
  rcases reader with ⟨tokens, _ | ⟨t, ahead⟩⟩ | ⟨⟨path, encoding, pending, consumed⟩, live⟩
  · simp [next] at h
  · simp [next, remaining]
  · cases live with
    | false => simp [next] at h
    | true =>
      cases pending with
      | nil => simp [next, LineSource.next?] at h
      | cons line rest =>
        cases hl : line.token encoding with
        | error fault => simp [next, LineSource.next?, hl] at h
        | ok t => simp [next, LineSource.next?, hl, remaining]

/-- Asks for tokens until the iterator ends or fails. -/
def drain (reader : Reader) : List String × Answer × Reader :=
  match _h : reader.next.1 with
  | .token token =>
    let rest := reader.next.2.drain
    (token :: rest.1, rest.2)
  | answer => ([], answer, reader.next.2)
termination_by reader.remaining
decreasing_by exact remaining_next _h

end Reader

end ArchiveRecord
