/- # Encoding.Utf8 -- characters as sequences of one to four bytes

`encode` writes a character in the shortest of four forms. `decode` reads such
forms and nothing else: no overlong form, no surrogate, nothing beyond the last
code point. It stops at the first sequence that is none of them and reports the
longest run of bytes from its start that could still have grown into one:

* a byte that starts no sequence is reported alone;
* a sequence that the next byte does not continue is reported without that byte;
* a sequence that the end of the input cuts off is reported to the end.

Every character has its bytes. A text in which some characters stand for lone
surrogates is encoded by `encodeFrom`, which stops at the first run of these.
-/

namespace ArchiveRecord.Encoding

/-- Why bytes are not text. -/
inductive Reason where
  | startByte
  | continuation
  | truncated
  | notAscii
  deriving Repr, DecidableEq

/-- The wording of a reason. -/
def Reason.message : Reason → String
  | .startByte => "invalid start byte"
  | .continuation => "invalid continuation byte"
  | .truncated => "unexpected end of data"
  | .notAscii => "ordinal not in range(128)"

/-- The place where decoding stops: the reported bytes are those from `start` up to and not
including `stop`, and `first` is the byte at `start`. -/
structure Undecodable where
  start : Nat
  stop : Nat
  first : UInt8
  reason : Reason
  deriving Repr, DecidableEq

/-- The place where encoding stops: the characters from `start` up to and not including `stop` stand
for lone surrogates, and `first` is the surrogate at `start`. -/
structure Unencodable where
  start : Nat
  stop : Nat
  first : Nat
  deriving Repr, DecidableEq

namespace Utf8

/-- The six low bits of a number as a continuation byte. -/
def continuationByte (n : Nat) : UInt8 := UInt8.ofNat (0x80 + n % 64)

/-- The bytes of one character. -/
def encodeChar (c : Char) : List UInt8 :=
  let n := c.toNat
  if n < 0x80 then [UInt8.ofNat n]
  else if n < 0x800 then [UInt8.ofNat (0xC0 + n / 64), continuationByte n]
  else if n < 0x10000 then
    [UInt8.ofNat (0xE0 + n / 4096), continuationByte (n / 64), continuationByte n]
  else
    [UInt8.ofNat (0xF0 + n / 262144), continuationByte (n / 4096), continuationByte (n / 64),
      continuationByte n]

/-- The bytes of a text. -/
def encode (text : List Char) : List UInt8 := text.flatMap encodeChar

/-- Encodes from a position on a text in which some characters stand for lone surrogates. -/
def encodeFrom (surrogate? : Char → Option Nat) :
    Nat → List Char → Except Unencodable (List UInt8)
  | _, [] => .ok []
  | position, c :: rest =>
    match surrogate? c with
    | some code =>
      let run := rest.takeWhile fun c => (surrogate? c).isSome
      .error ⟨position, position + 1 + run.length, code⟩
    | none => (encodeFrom surrogate? (position + 1) rest).map (encodeChar c ++ ·)

/-- What the first byte of a sequence announces: the bits it carries, the number of continuation
bytes that follow, and the least and greatest value of the first of them. -/
structure Lead where
  bits : Nat
  owed : Nat
  low : Nat
  high : Nat
  deriving Repr, DecidableEq

/-- The announcement of a first byte, or none where no sequence starts with it. The second byte is
narrowed after E0 and F0, which would be overlong, after ED, which would give a surrogate, and
after F4, which would pass the last code point. -/
def lead? (byte : Nat) : Option Lead :=
  if byte < 0x80 then some ⟨byte, 0, 0x80, 0xBF⟩
  else if byte < 0xC2 then none
  else if byte < 0xE0 then some ⟨byte - 0xC0, 1, 0x80, 0xBF⟩
  else if byte < 0xF0 then
    some ⟨byte - 0xE0, 2, if byte = 0xE0 then 0xA0 else 0x80, if byte = 0xED then 0x9F else 0xBF⟩
  else if byte < 0xF5 then
    some ⟨byte - 0xF0, 3, if byte = 0xF0 then 0x90 else 0x80, if byte = 0xF4 then 0x8F else 0xBF⟩
  else none

/-- A sequence that has started and still owes continuation bytes. -/
structure Pending where
  start : Nat
  first : UInt8
  code : Nat
  owed : Nat
  low : Nat
  high : Nat
  deriving Repr, DecidableEq

/-- Decodes from a position on, in the middle of a sequence or between two. -/
def decodeFrom : Option Pending → Nat → List UInt8 → Except Undecodable (List Char)
  | none, _, [] => .ok []
  | some p, position, [] => .error ⟨p.start, position, p.first, .truncated⟩
  | none, position, byte :: rest =>
    match lead? byte.toNat with
    | none => .error ⟨position, position + 1, byte, .startByte⟩
    | some lead =>
      if lead.owed = 0 then
        (decodeFrom none (position + 1) rest).map (Char.ofNat lead.bits :: ·)
      else
        decodeFrom (some ⟨position, byte, lead.bits, lead.owed, lead.low, lead.high⟩)
          (position + 1) rest
  | some p, position, byte :: rest =>
    if p.low ≤ byte.toNat ∧ byte.toNat ≤ p.high then
      let code := p.code * 64 + (byte.toNat - 0x80)
      if p.owed = 1 then
        (decodeFrom none (position + 1) rest).map (Char.ofNat code :: ·)
      else
        decodeFrom (some ⟨p.start, p.first, code, p.owed - 1, 0x80, 0xBF⟩) (position + 1) rest
    else
      .error ⟨p.start, position, p.first, .continuation⟩

/-- The text that the bytes encode. -/
def decode (bytes : List UInt8) : Except Undecodable (List Char) := decodeFrom none 0 bytes

end Utf8

end ArchiveRecord.Encoding
