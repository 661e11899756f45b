/- # Proofs.Command.Run -- a run as a filling and a write

A run fills an archive and then writes it, and only the write touches the tree. So
the ending of a run is told by what the filling gives and, at an output path, by
what the write does, unless an interrupt comes first. Whether traces are wanted does
not matter for any of these. What is written is the document of the archive, which
has bytes where none of its characters stands for a lone surrogate.
-/
import ArchiveRecord.Command
import ArchiveRecord.Proofs.Encoding.Utf8
import ArchiveRecord.Proofs.Flag.Filling

open ArchiveRecord.Parser (Provider)

namespace ArchiveRecord

/-! ## Documents -/

/-- **`host.IsPlain text`** -- no character of the text stands for a lone surrogate. -/
def Host.IsPlain (host : Host) (text : List Char) : Prop := ∀ c ∈ text, host.surrogate? c = none

namespace Archive

variable {archive : Archive} {host : Host}

/-- **`archive.Encodable host`** -- the document is plain. -/
def Encodable (archive : Archive) (host : Host) : Prop := host.IsPlain archive.encode

/-- The bytes of such a document are those of its text. -/
theorem Encodable.content_eq (h : archive.Encodable host) :
    archive.content host = .ok (Encoding.Utf8.encode archive.encode) := by
  rw [content, Encoding.Utf8.encodeFrom_eq_ok h]
  rfl

/-- No other document has bytes. -/
theorem exists_unencodable (h : ¬ archive.Encodable host) :
    ∃ place, archive.content host = .error (.unencodable place) := by
  rw [content]
  cases hencode : Encoding.Utf8.encodeFrom host.surrogate? 0 archive.encode with
  | ok bytes => exact absurd ((Encoding.Utf8.exists_encodeFrom_iff 0).mp ⟨bytes, hencode⟩) h
  | error place => exact ⟨place, rfl⟩

theorem fault?_content_eq_none_iff :
    (archive.content host).fault? = none ↔ archive.Encodable host := by
  by_cases h : archive.Encodable host
  · rw [h.content_eq]
    exact iff_of_true rfl h
  · obtain ⟨place, hcontent⟩ := exists_unencodable h
    rw [hcontent]
    exact iff_of_false (by simp [Content.fault?]) h

end Archive

/-! ## Runs -/

/-- The params files of a run: those of the provider, or those of the tree where none is given. -/
def Session.paramsFiles (session : Session) (provider : Option Provider) : Provider :=
  provider.getD session.tree.provider

/-- How a run ends whose archive is written: it is reported, unless an interrupt comes before. -/
def Host.closing (host : Host) (path : Path) : Ending :=
  if host.interrupt? = some .reporting then .interrupted else .wrote path

/-- **`host.ReachesWrite`** -- no interrupt comes before the write. -/
structure Host.ReachesWrite (host : Host) : Prop where
  parsing : host.interrupt? ≠ some .parsing
  writing : host.interrupt? ≠ some .writing

theorem Host.reachesWrite_of_none {host : Host} (h : host.interrupt? = none) :
    host.ReachesWrite := by
  constructor <;> (rw [h]; decide)

theorem Host.closing_eq_wrote {host : Host} (h : host.interrupt? = none) (path : Path) :
    host.closing path = .wrote path := by
  rw [closing, h, if_neg (by decide)]

section Run

variable {provider : Option Provider} {host : Host} {tracing : Bool} {arguments : List String}
  {session : Session} {archive : Archive} {output : String}

/-- An interrupt before the arguments are parsed comes before everything. -/
theorem run_unparsed (h : host.interrupt? = some .parsing) (environment : Environment)
    (settings : Settings) :
    (run environment settings provider host arguments session).ending = .interrupted
      ∧ (run environment settings provider host arguments session).session.tree
        = session.tree := by
  unfold run
  simp only [h, if_true, and_self]

/-- Where the archive is not filled, the run fails and the tree is not touched. -/
theorem run_unfilled {fault : Fault} (hparsing : host.interrupt? ≠ some .parsing)
    (h : (Archive.empty.fill tracing (session.paramsFiles provider) arguments).result
      = .error fault) (environment : Environment) (settings : Settings) :
    (run environment settings provider host arguments session).ending = .failed fault
      ∧ (run environment settings provider host arguments session).session.tree
        = session.tree := by
  have hfault := (Archive.empty.fill_congr (fun _ _ => rfl)
    ((settings.configure session.logging).isTracing environment) tracing).1.trans h
  unfold Session.paramsFiles at hfault
  unfold run
  simp only [hparsing, if_false, hfault, and_self]

/-- An interrupt before the archive is written comes before the tree is touched. -/
theorem run_unwritten (hwriting : host.interrupt? = some .writing)
    (h : archive.Fills output tracing (session.paramsFiles provider) arguments)
    (environment : Environment) (settings : Settings) :
    (run environment settings provider host arguments session).ending = .interrupted
      ∧ (run environment settings provider host arguments session).session.tree
        = session.tree := by
  obtain ⟨-, hresult⟩ := h.congr (fun _ _ => rfl)
    ((settings.configure session.logging).isTracing environment)
  unfold Session.paramsFiles at hresult
  have hparsing : some Moment.writing ≠ some .parsing := by decide
  unfold run
  simp only [hwriting, hparsing, if_false, hresult, if_true, and_self]

/-- **A run whose archive is filled ends as its write ends**, and leaves the tree that this leaves,
if no interrupt comes before the write. -/
theorem run_filled (hreaches : host.ReachesWrite)
    (h : archive.Fills output tracing (session.paramsFiles provider) arguments)
    (environment : Environment) (settings : Settings) :
    let written := session.tree.write host (Path.ofString output) (archive.content host)
    (run environment settings provider host arguments session).ending
        = written.2.elim (host.closing (Path.ofString output)) .failed
      ∧ (run environment settings provider host arguments session).session.tree = written.1 := by
  intro written
  obtain ⟨harchive, hresult⟩ := h.congr (fun _ _ => rfl)
    ((settings.configure session.logging).isTracing environment)
  unfold Session.paramsFiles at harchive hresult
  unfold run
  simp only [hreaches.parsing, hreaches.writing, if_false, hresult, harchive, Archive.write]
  obtain ⟨after, fault?, hwritten⟩ : ∃ after fault?,
      session.tree.write host (Path.ofString output) (archive.content host) = (after, fault?) :=
    ⟨_, _, rfl⟩
  simp only [written, hwritten]
  cases fault? with
  | some fault => exact ⟨rfl, rfl⟩
  | none =>
      dsimp only [Option.elim, Host.closing]
      split
      · exact ⟨rfl, rfl⟩
      · exact ⟨rfl, rfl⟩

/-- Without an interrupt such a run succeeds where its write does. -/
theorem run_wrote_iff (hgoes : host.interrupt? = none)
    (h : archive.Fills output tracing (session.paramsFiles provider) arguments)
    (environment : Environment) (settings : Settings) :
    (∃ path, (run environment settings provider host arguments session).ending = .wrote path)
      ↔ (session.tree.write host (Path.ofString output) (archive.content host)).2 = none := by
  obtain ⟨hends, -⟩ := run_filled (Host.reachesWrite_of_none hgoes) h environment settings
  rw [hends, host.closing_eq_wrote hgoes]
  cases (session.tree.write host (Path.ofString output) (archive.content host)).2 with
  | none => exact ⟨fun _ => rfl, fun _ => ⟨_, rfl⟩⟩
  | some fault =>
      constructor
      · rintro ⟨path, hpath⟩
        cases hpath
      · intro hnone
        cases hnone

/-- A write that is refused fails the run. -/
theorem run_refused {after : FileTree} {fault : Fault} (hreaches : host.ReachesWrite)
    (h : archive.Fills output tracing (session.paramsFiles provider) arguments)
    (hwrite : session.tree.write host (Path.ofString output) (archive.content host)
      = (after, some fault))
    (environment : Environment) (settings : Settings) :
    (run environment settings provider host arguments session).ending = .failed fault
      ∧ (run environment settings provider host arguments session).session.tree = after := by
  have hfilled := run_filled hreaches h environment settings
  rwa [hwrite] at hfilled

/-- A write that succeeds gives the path of the run. -/
theorem run_written {after : FileTree} (hgoes : host.interrupt? = none)
    (h : archive.Fills output tracing (session.paramsFiles provider) arguments)
    (hwrite : session.tree.write host (Path.ofString output) (archive.content host) = (after, none))
    (environment : Environment) (settings : Settings) :
    (run environment settings provider host arguments session).ending
        = .wrote (Path.ofString output)
      ∧ (run environment settings provider host arguments session).session.tree = after := by
  have hfilled := run_filled (Host.reachesWrite_of_none hgoes) h environment settings
  rwa [hwrite, host.closing_eq_wrote hgoes] at hfilled

end Run

/-! ## Plans -/

/-- What a run is to write and where, or how it ends before it writes. -/
abbrev Plan := Except Ending (Path × Content)

namespace FileTree

/-- The plan of a run, from what it reads in the tree. -/
def plan (tree : FileTree) (provider : Option Provider) (host : Host) (arguments : List String) :
    Plan :=
  let filling := Archive.empty.fill false (provider.getD tree.provider) arguments
  if host.interrupt? = some .parsing then .error .interrupted
  else match filling.result with
    | .error fault => .error (.failed fault)
    | .ok output =>
      if host.interrupt? = some .writing then .error .interrupted
      else .ok (.ofString output, filling.archive.content host)

/-- A run is interrupted before it writes, or its archive is not filled, or it is to write the
document at the output path. -/
theorem plan_cases (tree : FileTree) (provider : Option Provider) (host : Host)
    (arguments : List String) :
    let filling := Archive.empty.fill false (provider.getD tree.provider) arguments
    tree.plan provider host arguments = .error .interrupted
    ∨ (∃ fault, filling.result = .error fault
        ∧ tree.plan provider host arguments = .error (.failed fault))
    ∨ ∃ output, filling.result = .ok output ∧ host.ReachesWrite
        ∧ tree.plan provider host arguments
          = .ok (.ofString output, filling.archive.content host) := by
  intro filling
  unfold plan
  dsimp only
  split
  next => exact .inl rfl
  next hparsing =>
    split
    next fault hfault => exact .inr (.inl ⟨fault, hfault, rfl⟩)
    next output hresult =>
      split
      next => exact .inl rfl
      next hwriting => exact .inr (.inr ⟨output, hresult, ⟨hparsing, hwriting⟩, rfl⟩)

/-- How a run with a plan ends, and the tree that it leaves. -/
def carryOut (tree : FileTree) (host : Host) : Plan → Ending × FileTree
  | .error ending => (ending, tree)
  | .ok (path, content) =>
    let written := tree.write host path content
    (written.2.elim (host.closing path) .failed, written.1)

/-- A plan to write fails as its write does. -/
theorem carryOut_failed_iff {tree : FileTree} {host : Host} {path : Path} {content : Content}
    {fault : Fault} : (tree.carryOut host (.ok (path, content))).1 = .failed fault
      ↔ (tree.write host path content).2 = some fault := by
  show (tree.write host path content).2.elim (host.closing path) .failed = _ ↔ _
  cases (tree.write host path content).2 with
  | some met => exact ⟨fun h => congrArg some (Ending.failed.inj h),
      fun h => congrArg Ending.failed (Option.some.inj h)⟩
  | none =>
      refine iff_of_false (fun h => ?_) (fun h => nomatch h)
      dsimp only [Option.elim, Host.closing] at h
      split at h <;> cases h

end FileTree

section Plan

variable (provider : Option Provider) (host : Host) (arguments : List String)

/-- **A run makes its plan from what it reads, and then carries it out.** -/
theorem run_eq_carryOut (environment : Environment) (settings : Settings) (session : Session) :
    ((run environment settings provider host arguments session).ending,
        (run environment settings provider host arguments session).session.tree)
      = session.tree.carryOut host (session.tree.plan provider host arguments) := by
  rw [FileTree.plan]
  split
  next hparsing =>
    obtain ⟨hends, htree⟩ := run_unparsed hparsing environment settings
    rw [hends, htree]
    rfl
  next hparsing =>
    cases hfill :
        (Archive.empty.fill false (provider.getD session.tree.provider) arguments).result with
    | error fault =>
        obtain ⟨hends, htree⟩ := run_unfilled hparsing hfill environment settings
        rw [hends, htree]
        rfl
    | ok output =>
        have hfills : (Archive.empty.fill false (provider.getD session.tree.provider) arguments
            ).archive.Fills output false (session.paramsFiles provider) arguments := ⟨rfl, hfill⟩
        dsimp only
        split
        next hwriting =>
          obtain ⟨hends, htree⟩ := run_unwritten hwriting hfills environment settings
          rw [hends, htree]
          rfl
        next hwriting =>
          obtain ⟨hends, htree⟩ := run_filled ⟨hparsing, hwriting⟩ hfills environment settings
          rw [hends, htree]
          rfl

/-- **A run that does not reach the write does not touch the tree.** -/
theorem run_unreached (h : ¬ host.ReachesWrite) (environment : Environment) (settings : Settings)
    (session : Session) :
    (run environment settings provider host arguments session).session.tree = session.tree := by
  have hplan : ∃ ending, session.tree.plan provider host arguments = .error ending := by
    rcases session.tree.plan_cases provider host arguments with hplan | ⟨_, -, hplan⟩ |
      ⟨_, -, hreaches, -⟩
    · exact ⟨_, hplan⟩
    · exact ⟨_, hplan⟩
    · exact absurd hreaches h
  obtain ⟨ending, hplan⟩ := hplan
  have hrun := run_eq_carryOut provider host arguments environment settings session
  rw [hplan] at hrun
  exact congrArg Prod.snd hrun

/-- The end of a run and the tree that it leaves depend on the tree that it starts from, and neither
on the environment nor on settings nor on logging. -/
theorem run_congr {session other : Session} (htree : session.tree = other.tree)
    (environment otherEnvironment : Environment) (settings otherSettings : Settings) :
    (run environment settings provider host arguments session).ending
        = (run otherEnvironment otherSettings provider host arguments other).ending
      ∧ (run environment settings provider host arguments session).session.tree
        = (run otherEnvironment otherSettings provider host arguments other).session.tree := by
  have hrun := run_eq_carryOut provider host arguments environment settings session
  have hother := run_eq_carryOut provider host arguments otherEnvironment otherSettings other
  rw [htree] at hrun
  exact Prod.mk.inj (hrun.trans hother.symm)

end Plan

end ArchiveRecord
