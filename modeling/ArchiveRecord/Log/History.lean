/- # Log.History -- sequences of logging steps

Set-ups come directly or through a factory, which carries out its own set-up at
the first logger that it is asked for and never again. A history is a list of
such steps together with switches, changes of the environment, requests for a
logger, calls and traces. The world is what they can change of the configuration;
what they write is told in `Log.Hierarchy`.
-/
import ArchiveRecord.Log.State

namespace ArchiveRecord.Log

/-- A set-up that is carried out at the first use. -/
structure Factory where
  setup : Setup
  used : Bool := false
  deriving Repr, DecidableEq

/-- A step of a history. -/
inductive Step where
  | setUp (setup : Setup)
  | makeFactory (id : String) (setup : Setup)
  | askFactory (id name : String)
  | askLogger (name : String)
  | switchTrace (on : Bool)
  | changeEnvironment (set : List (String × String)) (unset : List String)
  | detach
  /-- A call through the logger of a name. -/
  | call (name : String) (call : Call)
  /-- A trace through the logger of a name. -/
  | trace (name message : String) (context : List (String × Value))
  deriving Repr

/-- Everything that logging steps can change. -/
structure World where
  state : State := {}
  factories : OrderedMap String Factory := ∅
  environment : Environment := ∅

namespace World

/-- The environment after some variables are set and others removed. -/
def changed (environment : Environment) (set : List (String × String)) (unset : List String) :
    Environment :=
  let extended := set.foldl (fun e entry => e.insert entry.1 entry.2) environment
  unset.foldl OrderedMap.erase extended

/-- Traces are wanted. -/
def isTracing (world : World) : Bool := world.state.isTracing world.environment

/-- Asks a factory for a logger. -/
def askFactory (world : World) (id : String) : World :=
  match world.factories.get? id with
  | some factory =>
    if factory.used then world
    else
      { world with
          state := world.state.setUp factory.setup
          factories := world.factories.insert id { factory with used := true } }
  | none => world

/-- Carries out a step. -/
def step (world : World) : Step → World
  | .setUp setup => { world with state := world.state.setUp setup }
  | .makeFactory id setup => { world with factories := world.factories.insert id { setup } }
  | .askFactory id _ => world.askFactory id
  | .switchTrace on => { world with state := world.state.switchTrace on }
  | .changeEnvironment set unset =>
    { world with environment := changed world.environment set unset }
  | .detach => { world with state := world.state.detach }
  | .askLogger _ | .call _ _ | .trace _ _ _ => world

end World

end ArchiveRecord.Log
