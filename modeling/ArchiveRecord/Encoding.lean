/- # Encoding -- the encodings of a params file

An encoding turns the bytes of one line into text, and any function that does so
is one. Four of them have names here, and every other name counts as unknown.
Names are compared without regard to case, and a hyphen counts as an underscore.
The marked form of UTF-8 drops one byte order mark at the start of each line and
counts positions from behind it.
-/
import ArchiveRecord.Fault

namespace ArchiveRecord

/-- How bytes stand for text: what the bytes of a line are decoded to. -/
structure Encoding where
  decode : List UInt8 → Except Fault (List Char)

namespace Encoding

/-- Decodes bytes that stand for one character each, all below U+0080. -/
def decodeAscii : Nat → List UInt8 → Except Undecodable (List Char)
  | _, [] => .ok []
  | position, byte :: rest =>
    if byte.toNat < 0x80 then
      (decodeAscii (position + 1) rest).map (Char.ofNat byte.toNat :: ·)
    else
      .error ⟨position, position + 1, byte, .notAscii⟩

/-- Decodes bytes that stand for one character each, of the same number. -/
def decodeLatin1 (bytes : List UInt8) : List Char := bytes.map fun byte => Char.ofNat byte.toNat

/-- The bytes without a byte order mark at their start. -/
def dropMark : List UInt8 → List UInt8
  | 0xEF :: 0xBB :: 0xBF :: rest => rest
  | bytes => bytes

def utf8 : Encoding where
  decode bytes := (Utf8.decode bytes).mapError (Fault.undecodable "utf-8")

def utf8Marked : Encoding where
  decode bytes := (Utf8.decode (dropMark bytes)).mapError (Fault.undecodable "utf-8")

def latin1 : Encoding where
  decode bytes := .ok (decodeLatin1 bytes)

def ascii : Encoding where
  decode bytes := (decodeAscii 0 bytes).mapError (Fault.undecodable "ascii")

/-- The encoding of a name that is none. Only a line without bytes is text in it. -/
def unknown (name : String) : Encoding where
  decode bytes := if bytes = [] then .ok [] else .error (.unknownEncoding name)

/-- The form of a name under which encodings are looked up. -/
def lookupName (name : String) : String :=
  String.ofList (name.toList.map fun c => if c = '-' ∨ c = ' ' then '_' else c.toLower)

/-- The encoding of a name. -/
def ofName (name : String) : Encoding :=
  match lookupName name with
  | "utf_8" | "utf8" | "u8" | "utf" => utf8
  | "utf_8_sig" => utf8Marked
  | "latin_1" | "latin1" | "latin" | "l1" | "iso_8859_1" | "iso8859_1" => latin1
  | "ascii" | "us_ascii" | "646" => ascii
  | _ => unknown name

end Encoding

end ArchiveRecord
