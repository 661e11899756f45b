/- # Process -- histories of a process

Logging outlasts a run: its level, its handler and the trace switch belong to the
process, and so do the factories and the environment. A history is a list of
steps: runs, commands, writes of an archive, and logging steps in between.
-/
import ArchiveRecord.Command
import ArchiveRecord.Log.History

namespace ArchiveRecord

/-- Everything that outlasts a step of a process. -/
structure Process where
  world : Log.World := {}
  tree : FileTree := {}

namespace Process

/-- A step of a process. A run without settings takes those of the environment. -/
inductive Step where
  | run (settings : Option Settings) (provider : Option Parser.Provider) (host : Host)
    (arguments : List String)
  | command (host : Host) (arguments : List String)
  | write (host : Host) (archive : Archive) (output : String)
  | log (step : Log.Step)

/-- The session in which a run of the process takes place. -/
def session (process : Process) : Session := ⟨process.world.state, process.tree⟩

/-- The process behind a run that leaves a session. -/
def resume (process : Process) (session : Session) : Process :=
  ⟨{ process.world with state := session.logging }, session.tree⟩

/-- Carries out a step. -/
def step (process : Process) : Step → Process
  | .run settings provider host arguments =>
    let environment := process.world.environment
    let report := ArchiveRecord.run environment (settings.getD (.ofEnvironment environment)) provider
      host arguments process.session
    process.resume report.session
  | .command host arguments =>
    let completion := ArchiveRecord.command process.world.environment host arguments process.session
    process.resume completion.session
  | .write host archive output =>
    let writing := archive.write host process.world.isTracing output process.tree
    { process with tree := writing.tree }
  | .log step => { process with world := process.world.step step }

/-- The process behind a history. -/
def after (start : Process) (steps : List Step) : Process := steps.foldl step start

end Process

end ArchiveRecord
