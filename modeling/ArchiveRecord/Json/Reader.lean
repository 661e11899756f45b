/- # Json.Reader -- values from JSON texts

The reader takes the texts of the JSON grammar whose numbers are integers; a
number with a fraction or an exponent has no value here and is refused. Members
keep their order, also where one key stands twice. An escaped surrogate counts
only as one half of a pair, since no character is a surrogate.

Nested texts are read with a counter that the text itself bounds: no step is
taken more than twice without a character being read.
-/
import ArchiveRecord.Value

namespace ArchiveRecord.Json

/-! ## Blanks -/

/-- The character may stand between the tokens of a text. -/
def isSpace (c : Char) : Bool := c = ' ' ∨ c = '\t' ∨ c = '\n' ∨ c = '\r'

/-- The text from its next token on. -/
def skipSpace (text : List Char) : List Char := text.dropWhile isSpace

/-! ## Strings -/

/-- Reads the four hexadecimal digits of a code unit. -/
def readUnit? : List Char → Option (Nat × List Char)
  | a :: b :: c :: d :: rest => (Text.number? 16 [a, b, c, d]).map (·, rest)
  | _ => none

/-- The unit is the first half of a pair. -/
def isHighSurrogate (unit : Nat) : Bool := 0xD800 ≤ unit ∧ unit < 0xDC00

/-- The unit is the second half of a pair. -/
def isLowSurrogate (unit : Nat) : Bool := 0xDC00 ≤ unit ∧ unit < 0xE000

/-- The character of a pair. -/
def ofSurrogates (high low : Nat) : Char :=
  Char.ofNat (0x10000 + (high - 0xD800) * 0x400 + (low - 0xDC00))

/-- Reads the second half of a pair. -/
def readLow? (high : Nat) : List Char → Option (Char × List Char)
  | '\\' :: 'u' :: rest => do
    let (low, rest) ← readUnit? rest
    if isLowSurrogate low then some (ofSurrogates high low, rest) else none
  | _ => none

/-- Reads the character that an escape stands for, from behind its `u`. -/
def readCode? (text : List Char) : Option (Char × List Char) := do
  let (unit, rest) ← readUnit? text
  if isHighSurrogate unit then readLow? unit rest
  else if isLowSurrogate unit then none
  else some (Char.ofNat unit, rest)

/-- Reads the character that an escape stands for, from behind its backslash. -/
def readEscape? : List Char → Option (Char × List Char)
  | '"' :: rest => some ('"', rest)
  | '\\' :: rest => some ('\\', rest)
  | '/' :: rest => some ('/', rest)
  | 'b' :: rest => some ('\x08', rest)
  | 'f' :: rest => some ('\x0c', rest)
  | 'n' :: rest => some ('\n', rest)
  | 'r' :: rest => some ('\r', rest)
  | 't' :: rest => some ('\t', rest)
  | 'u' :: rest => readCode? rest
  | _ => none

/-- Reads a string from behind its first quote. -/
def readString? : Nat → List Char → Option (List Char × List Char)
  | 0, _ => none
  | _, [] => none
  | _ + 1, '"' :: rest => some ([], rest)
  | steps + 1, '\\' :: rest => do
    let (c, rest) ← readEscape? rest
    let (more, rest) ← readString? steps rest
    some (c :: more, rest)
  | steps + 1, c :: rest => do
    if c.toNat < 0x20 then none
    let (more, rest) ← readString? steps rest
    some (c :: more, rest)

/-! ## Numbers -/

/-- Reads a natural number: one zero, or digits that start with no zero. -/
def readNatural? (text : List Char) : Option (Nat × List Char) :=
  let digits := text.takeWhile Char.isDigit
  let rest := text.dropWhile Char.isDigit
  if digits = [] ∨ (digits.head? = some '0' ∧ digits ≠ ['0']) then none
  else match rest with
    | '.' :: _ | 'e' :: _ | 'E' :: _ => none
    | _ => (Text.number? 10 digits).map (·, rest)

/-- Reads an integer. -/
def readInteger? : List Char → Option (Int × List Char)
  | '-' :: rest => (readNatural? rest).map fun (n, rest) => (-n, rest)
  | text => (readNatural? text).map fun (n, rest) => (n, rest)

/-! ## Values -/

mutual

/-- Reads a value. -/
def readValue? : Nat → List Char → Option (Value × List Char)
  | 0, _ => none
  | steps + 1, text =>
    match skipSpace text with
    | 'n' :: 'u' :: 'l' :: 'l' :: rest => some (.null, rest)
    | 't' :: 'r' :: 'u' :: 'e' :: rest => some (.bool true, rest)
    | 'f' :: 'a' :: 'l' :: 's' :: 'e' :: rest => some (.bool false, rest)
    | '"' :: rest =>
      (readString? (rest.length + 1) rest).map fun (s, rest) => (.string (String.ofList s), rest)
    | '[' :: rest =>
      match skipSpace rest with
      | ']' :: rest => some (.list [], rest)
      | rest => (readItems? steps rest).map fun (items, rest) => (.list items, rest)
    | '\x7b' :: rest =>
      match skipSpace rest with
      | '\x7d' :: rest => some (.mapping [], rest)
      | rest => (readMembers? steps rest).map fun (members, rest) => (.mapping members, rest)
    | text => (readInteger? text).map fun (n, rest) => (.int n, rest)

/-- Reads one item or more, and the end of their array. -/
def readItems? : Nat → List Char → Option (List Value × List Char)
  | 0, _ => none
  | steps + 1, text => do
    let (item, rest) ← readValue? steps text
    match skipSpace rest with
    | ']' :: rest => some ([item], rest)
    | ',' :: rest =>
      let (items, rest) ← readItems? steps rest
      some (item :: items, rest)
    | _ => none

/-- Reads one member or more, and the end of their object. -/
def readMembers? : Nat → List Char → Option (List (String × Value) × List Char)
  | 0, _ => none
  | steps + 1, text => do
    let '"' :: rest := skipSpace text | none
    let (key, rest) ← readString? (rest.length + 1) rest
    let ':' :: rest := skipSpace rest | none
    let (value, rest) ← readValue? steps rest
    match skipSpace rest with
    | '\x7d' :: rest => some ([(String.ofList key, value)], rest)
    | ',' :: rest =>
      let (members, rest) ← readMembers? steps rest
      some ((String.ofList key, value) :: members, rest)
    | _ => none

end

/-- The value of a JSON text, with nothing but blanks behind it. -/
def read? (text : List Char) : Option Value := do
  let (value, rest) ← readValue? (2 * text.length + 2) text
  if skipSpace rest = [] then some value else none

end ArchiveRecord.Json
