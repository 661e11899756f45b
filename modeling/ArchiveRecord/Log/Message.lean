/- # Log.Message -- templates filled with arguments

A template is a text with directives: `%s` takes the next argument in its plain
form, `%r` in its quoted form, `%d` as an integer, and `%%` is a percent sign. A
call without arguments does not look for directives at all. Every argument has
to be taken, except that a single mapping with members may stand for a set of
named arguments and need not be.
-/
import ArchiveRecord.Value

namespace ArchiveRecord.Log

/-- Why a template cannot be filled. -/
inductive TemplateFault where
  /-- An argument is left over. -/
  | surplusArgument
  /-- A directive finds no argument. -/
  | missingArgument
  /-- An integer directive finds a value of another kind. -/
  | notInteger (kindName : String)
  /-- A percent sign ends the template. -/
  | incomplete
  /-- A percent sign stands before a character that is no directive, at an index. -/
  | unsupported (c : Char) (index : Nat)
  deriving Repr, DecidableEq

/-- The character that stands for one that is no directive: the character itself from U+001F to
U+007E, and a question mark for every other. -/
def shownDirective (c : Char) : Char := if 0x1F ≤ c.toNat ∧ c.toNat ≤ 0x7E then c else '?'

/-- The wording of a fault. -/
def TemplateFault.message : TemplateFault → String
  | surplusArgument => "not all arguments converted during string formatting"
  | missingArgument => "not enough arguments for format string"
  | notInteger kindName => "%d format: a real number is required, not " ++ kindName
  | incomplete => "incomplete format"
  | unsupported c index =>
    "unsupported format character '" ++ String.singleton (shownDirective c)
      ++ "' (0x" ++ String.ofList (Nat.toDigits 16 c.toNat) ++ ") at index "
      ++ String.ofList (Text.natural index)

/-- A value as an integer; a truth value counts as zero or one. -/
def integerText : Value → Except TemplateFault (List Char)
  | .int n => .ok (Text.integer n)
  | .bool b => .ok (Text.natural b.toNat)
  | value => .error (.notInteger value.kindName)

/-- The text of one argument under a directive. -/
def directiveText (directive : Char) (index : Nat) (argument : Value) :
    Except TemplateFault (List Char) :=
  match directive with
  | 's' => .ok argument.plainText
  | 'r' => .ok argument.quotedText
  | 'd' => integerText argument
  | c => .error (.unsupported c index)

/-- Fills a template from an index on. Where `named` holds, arguments may be left over. -/
def fillFrom (named : Bool) :
    Nat → List Char → List Value → Except TemplateFault (List Char)
  | _, [], arguments => if named ∨ arguments = [] then .ok [] else .error .surplusArgument
  | index, '%' :: '%' :: rest, arguments =>
    (fillFrom named (index + 2) rest arguments).map ('%' :: ·)
  | _, ['%'], _ => .error .incomplete
  | _, '%' :: _ :: _, [] => .error .missingArgument
  | index, '%' :: directive :: rest, argument :: arguments => do
    let shown ← directiveText directive (index + 1) argument
    return shown ++ (← fillFrom named (index + 2) rest arguments)
  | index, c :: rest, arguments => (fillFrom named (index + 1) rest arguments).map (c :: ·)

/-- The arguments stand for a set of named ones. -/
def isNamed : List Value → Bool
  | [.mapping (_ :: _)] => true
  | _ => false

/-- The message of a template and its arguments. -/
def fill (template : String) (arguments : List Value) : Except TemplateFault String :=
  match arguments with
  | [] => .ok template
  | _ => (fillFrom (isNamed arguments) 0 template.toList arguments).map String.ofList

end ArchiveRecord.Log
