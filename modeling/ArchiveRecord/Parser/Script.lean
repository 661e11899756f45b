/- # Parser.Script -- what callbacks may do

A callback turns a value into a script: a sequence of steps, each of which may
depend on what the steps before it found. A script can note the value, write a
log call, read and change the state of its host, bind a flag, read which names
are bound, replace the provider of streams, have further arguments parsed and
look at how that ended, and stop with a fault. There is no step that waits for itself, so a script ends.
-/
import ArchiveRecord.Log.Line
import ArchiveRecord.Source

namespace ArchiveRecord.Parser

/-- Opens the stream of a handle, or refuses to. -/
abbrev Provider := String → Except Fault Stream

/-- The steps of a callback, over a host whose state has type `σ`. -/
inductive Script (σ : Type) where
  /-- Nothing more. -/
  | done
  /-- Stops with a fault. -/
  | fail (fault : Fault)
  /-- Notes a value under a name. -/
  | note (name value : String) (next : Script σ)
  /-- Writes a log call. -/
  | log (call : Log.Call) (next : Script σ)
  /-- Reads the state of the host. -/
  | read (next : σ → Script σ)
  /-- Replaces the state of the host. -/
  | write (host : σ) (next : Script σ)
  /-- Binds a flag to a callback. -/
  | register (flag : String) (callback : String → Script σ) (next : Script σ)
  /-- Binds a flag to no callback: the name is known, and its tokens are values. -/
  | reserve (flag : String) (next : Script σ)
  /-- Reads the names that are bound. -/
  | inspect (next : List String → Script σ)
  /-- Replaces the provider of streams. -/
  | provide (provider : Provider) (next : Script σ)
  /-- Has arguments parsed by the same parser, and goes on with the fault that this met, if any. -/
  | parse (arguments : List String) (next : Option Fault → Script σ)

/-- What a flag is bound to. -/
abbrev Callback (σ : Type) := String → Script σ

/-- The bindings of flags, in the order in which the names first arrived. -/
abbrev Registry (σ : Type) := OrderedMap String (Option (Callback σ))

end ArchiveRecord.Parser

namespace ArchiveRecord

/-- A parser: the marker of an argument that names a params file, the bindings of flags, and the
provider of streams. -/
structure Parser (σ : Type) where
  marker : String := "@"
  registry : Parser.Registry σ := ∅
  provider : Parser.Provider

namespace Parser

variable {σ : Type}

/-- Binds a flag to a callback. -/
def register (parser : Parser σ) (flag : String) (callback : Callback σ) : Parser σ :=
  { parser with registry := parser.registry.insert flag (some callback) }

/-- Binds a flag to no callback. -/
def reserve (parser : Parser σ) (flag : String) : Parser σ :=
  { parser with registry := parser.registry.insert flag none }

/-- Replaces the provider of streams. -/
def withProvider (parser : Parser σ) (provider : Provider) : Parser σ :=
  { parser with provider }

/-- The names of all bindings. -/
def flags (parser : Parser σ) : List String := parser.registry.keys

/-- The callback that a token is bound to. -/
def callback? (parser : Parser σ) (token : String) : Option (Callback σ) :=
  (parser.registry.get? token).join

/-- The handle of a params file that an argument names: what follows the marker. -/
def handle? (parser : Parser σ) (argument : String) : Option String :=
  if parser.marker.toList <+: argument.toList then
    some (String.ofList (argument.toList.drop parser.marker.toList.length))
  else none

end Parser

end ArchiveRecord
