/- # Log.Handlers -- the handlers of the base logger, one by one

`State` keeps the one handler that can be attached. Behind it stand three records
that are kept apart: the list of handlers of the base logger, the handler that a
set-up attached last, and for each factory whether it has been used. A set-up asks
whether the handler that it remembers is still on the list. If so it changes the
layout of that handler; if not, it attaches a new handler behind those on the list
and remembers that one. Removing all handlers empties the list and leaves the
memory as it is.
-/
import ArchiveRecord.Log.History

namespace ArchiveRecord.Log

/-- The base logger: its level, its handlers with the numbers under which they were made, the
number of the one that a set-up attached last, and how many were made. -/
structure Base where
  level : Int := 0
  attached : List (Nat × Handler) := []
  remembered : Option Nat := none
  made : Nat := 0
  deriving Repr, DecidableEq

namespace Base

/-- The handler of a number is attached. -/
def isAttached (base : Base) (number : Nat) : Bool := number ∈ base.attached.map Prod.fst

/-- Gives the attached handler of a number another layout. -/
def relayout (base : Base) (number : Nat) (layout : Layout) : Base :=
  { base with
      attached := base.attached.map fun entry =>
        if entry.1 = number then (number, { entry.2 with layout }) else entry }

/-- Attaches a new handler and remembers it. -/
def attach (base : Base) (handler : Handler) : Base :=
  { base with
      attached := base.attached ++ [(base.made, handler)]
      remembered := some base.made
      made := base.made + 1 }

/-- Carries out a set-up. -/
def setUp (base : Base) (setup : Setup) : Base :=
  let levelled := { base with level := setup.level }
  let layout := Layout.ofSwitch setup.json
  match base.remembered with
  | some number =>
    if base.isAttached number then levelled.relayout number layout
    else levelled.attach ⟨layout, setup.sink⟩
  | none => levelled.attach ⟨layout, setup.sink⟩

/-- Detaches all handlers. The one that is remembered stays remembered. -/
def detach (base : Base) : Base := { base with attached := [] }

end Base

/-- The base logger and the factories. -/
structure Records where
  base : Base := {}
  factories : OrderedMap String Factory := ∅

namespace Records

/-- Carries out what a step does to the configuration. -/
def step (records : Records) : Step → Records
  | .setUp setup => { records with base := records.base.setUp setup }
  | .makeFactory id setup => { records with factories := records.factories.insert id { setup } }
  | .askFactory id _ =>
    match records.factories.get? id with
    | some factory =>
      if factory.used then records
      else
        { base := records.base.setUp factory.setup
          factories := records.factories.insert id { factory with used := true } }
    | none => records
  | .detach => { records with base := records.base.detach }
  | .switchTrace _ | .changeEnvironment _ _ | .askLogger _ | .call _ _ | .trace _ _ _ => records

end Records

end ArchiveRecord.Log
