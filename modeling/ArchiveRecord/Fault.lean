/- # Fault -- everything that can go wrong, by cause

A fault says what happened; its wording is fixed in one function. Faults of the
input and of the file system are expected: the command reports them and ends. A
fault raised by a callback or a stream provider of the caller's own is passed on
with the caller's label and text, and so is that of a host in which calls do not
nest any deeper, with the host's wording.
-/
import ArchiveRecord.Encoding.Utf8
import ArchiveRecord.Origin
import ArchiveRecord.Text.Quoted

namespace ArchiveRecord

/-- Causes for which the file system refuses an operation. -/
inductive Refusal where
  | missing
  | exists
  | notDirectory
  | isDirectory
  | nameTooLong
  /-- A cause that only the system itself tells of, with its number and wording. -/
  | other (number : Nat) (wording : String)
  deriving Repr, DecidableEq

/-- The number of a refusal. -/
def Refusal.number : Refusal → Nat
  | .missing => 2
  | .exists => 17
  | .notDirectory => 20
  | .isDirectory => 21
  | .nameTooLong => 36
  | .other number _ => number

/-- The wording of a refusal. -/
def Refusal.message : Refusal → String
  | .missing => "No such file or directory"
  | .exists => "File exists"
  | .notDirectory => "Not a directory"
  | .isDirectory => "Is a directory"
  | .nameTooLong => "File name too long"
  | .other _ wording => wording

/-- The refusal that the system tells of by a number and a wording. -/
def Refusal.ofNumber (number : Nat) (wording : String) : Refusal :=
  match number with
  | 2 => .missing
  | 17 => .exists
  | 20 => .notDirectory
  | 21 => .isDirectory
  | 36 => .nameTooLong
  | number => .other number wording

/-- The two characters that a splitter is given. -/
inductive SplitRole where
  | delimiter
  | escape
  deriving Repr, DecidableEq

/-- The name of a role. -/
def SplitRole.name : SplitRole → String
  | .delimiter => "delimiter"
  | .escape => "escape"

/-- What can go wrong. -/
inductive Fault where
  /-- A params file is named beside other arguments. -/
  | mixedReference
  /-- No argument says where to write the archive. -/
  | noOutputPath
  /-- A value stands before the first flag. -/
  | unexpectedFlag (token : String) (origin : Origin)
  /-- A value is not one key and one value. -/
  | malformedPair (token : String)
  /-- A delimiter or escape is not a single character. -/
  | notSingle (role : SplitRole) (given : String)
  /-- Delimiter and escape are the same character. -/
  | sameRoles
  /-- Bytes are not text in the encoding named. -/
  | undecodable (encoding : String) (place : Encoding.Undecodable)
  /-- Characters of a text stand for what no encoding writes. -/
  | unencodable (place : Encoding.Unencodable)
  /-- No encoding has the name. -/
  | unknownEncoding (name : String)
  /-- A path holds the character U+0000. -/
  | embeddedNul
  /-- The file system refuses an operation on a path. -/
  | refused (cause : Refusal) (path : String)
  /-- Calls do not nest any deeper. -/
  | exhausted (wording : String)
  /-- A caller's own callback or stream provider raised. -/
  | external (label : String) (text : String)
  deriving Repr, DecidableEq

namespace Fault

/-- The bytes that a decoder reports, with their positions. -/
def bytesReported (place : Encoding.Undecodable) : String :=
  let position (n : Nat) := String.ofList (Text.natural n)
  if place.stop = place.start + 1 then
    "byte 0x" ++ String.ofList (Text.numeral 16 2 place.first.toNat) ++ " in position "
      ++ position place.start
  else
    "bytes in position " ++ position place.start ++ "-" ++ position (place.stop - 1)

/-- The characters that an encoder reports, with their positions. -/
def charactersReported (place : Encoding.Unencodable) : String :=
  let position (n : Nat) := String.ofList (Text.natural n)
  if place.stop = place.start + 1 then
    "character '\\u" ++ String.ofList (Text.numeral 16 4 place.first) ++ "' in position "
      ++ position place.start
  else
    "characters in position " ++ position place.start ++ "-" ++ position (place.stop - 1)

/-- The wording of a fault. -/
def message : Fault → String
  | mixedReference => "expected single argument with param file"
  | noOutputPath => "invalid usage: no output path"
  | unexpectedFlag token origin => "unexpected flag " ++ token ++ " at " ++ origin.label
  | malformedPair token => "malformed key=value pair " ++ Text.quote token
  | notSingle role given => role.name ++ " must be a single character, got " ++ Text.quote given
  | sameRoles => "delimiter and escape must differ"
  | undecodable encoding place =>
    "'" ++ encoding ++ "' codec can't decode " ++ bytesReported place ++ ": "
      ++ place.reason.message
  | unencodable place =>
    "'utf-8' codec can't encode " ++ charactersReported place ++ ": surrogates not allowed"
  | unknownEncoding name => "unknown encoding: " ++ name
  | embeddedNul => "embedded null byte"
  | refused cause path =>
    "[Errno " ++ String.ofList (Text.natural cause.number) ++ "] " ++ cause.message ++ ": "
      ++ Text.quote path
  | exhausted wording => wording
  | external _ text => text

/-- The faults of the input and of the file system, which the command reports itself. -/
def isExpected : Fault → Bool
  | unknownEncoding _ => false
  | exhausted _ => false
  | external _ _ => false
  | _ => true

end Fault

end ArchiveRecord
