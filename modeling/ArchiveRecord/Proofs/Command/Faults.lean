/- # Proofs.Command.Faults -- the faults that a run can meet

Where the params files of a run are files of the tree, its faults form a closed
set, `Fault.OfRun`. It is found stage by stage: what an operation on a path is
refused for, how a filling fails (`Archive.Failure`), and at last what ends a run.
Each fault of the set lies in what is given, is a refusal of the system, or is that of
calls which do not fit into one another. The command expects the faults of the first
two kinds. An encoding that nobody knows and a fault of a caller's own are not in the
set.

Calls fit into one another while the output path has no more names than calls may nest.
-/
import ArchiveRecord.Proofs.Command.Run
import ArchiveRecord.Proofs.FileTree.Growth
import ArchiveRecord.Proofs.Flag.Defects

namespace ArchiveRecord

variable {fault : Fault}

/-! ## Kinds of faults -/

namespace Fault

/-- The fault lies in what is given: in the arguments, a params file or the text of a path. -/
def isOfInput : Fault → Bool
  | refused _ _ => false
  | unknownEncoding _ => false
  | exhausted _ => false
  | external _ _ => false
  | _ => true

/-- The system refuses an operation. -/
def isOfSystem : Fault → Bool
  | refused _ _ => true
  | _ => false

theorem isExpected_iff :
    fault.isExpected = true ↔ fault.isOfInput = true ∨ fault.isOfSystem = true := by
  cases fault <;> simp [isExpected, isOfInput, isOfSystem]

/-- **`fault.OfPath`** -- an operation on a path can end in the fault. -/
inductive OfPath : Fault → Prop
  | embeddedNul : OfPath .embeddedNul
  | refused (cause : Refusal) (path : String) : OfPath (.refused cause path)

/-- **`fault.OfFilling`** -- a filling whose params files are files of the tree can end in the fault. -/
inductive OfFilling : Fault → Prop
  | mixedReference : OfFilling .mixedReference
  | noOutputPath : OfFilling .noOutputPath
  | unexpectedFlag (token : String) (origin : Origin) : OfFilling (.unexpectedFlag token origin)
  | malformedPair (token : String) : OfFilling (.malformedPair token)
  | undecodable (place : Encoding.Undecodable) : OfFilling (.undecodable "utf-8" place)
  | ofPath {fault : Fault} (h : fault.OfPath) : OfFilling fault

/-- **`fault.OfRun host`** -- a run whose params files are files of the tree can end in the fault:
one of its filling, or one of its write, for which there may be no bytes or too few calls. -/
inductive OfRun (host : Host) : Fault → Prop
  | ofFilling {fault : Fault} (h : fault.OfFilling) : OfRun host fault
  | unencodable (place : Encoding.Unencodable) : OfRun host (.unencodable place)
  | exhausted : OfRun host (.exhausted host.overflow)

theorem OfFilling.isExpected (h : fault.OfFilling) : fault.isExpected = true := by
  cases h with
  | ofPath h => cases h <;> rfl
  | _ => rfl

theorem OfRun.isExpected_iff {host : Host} (h : fault.OfRun host) :
    fault.isExpected = true ↔ fault ≠ .exhausted host.overflow := by
  cases h with
  | ofFilling h =>
      refine iff_of_true h.isExpected ?_
      rintro rfl
      cases h.isExpected
  | unencodable place => exact iff_of_true rfl Fault.noConfusion
  | exhausted => exact iff_of_false Bool.false_ne_true (not_not.mpr rfl)

end Fault

/-! ## Operations on paths -/

namespace FileTree

theorem onPath_ofPath {α : Type} {text : String} {operation : Except Refusal α}
    (h : onPath text operation = .error fault) : fault.OfPath := by
  unfold onPath at h
  split at h
  · obtain rfl := Except.error.inj h
    exact .embeddedNul
  · split at h
    · obtain rfl := Except.error.inj h
      exact .refused _ _
    · split at h
      · obtain rfl := Except.error.inj h
        exact .refused _ _
      · cases operation with
        | ok result => cases h
        | error refusal =>
            obtain rfl := Except.error.inj h
            exact .refused _ _

variable {tree after : FileTree} {path : Path}

theorem provider_ofPath {handle : String} (h : tree.provider handle = .error fault) :
    fault.OfPath := by
  rw [provider] at h
  cases hread : tree.read handle with
  | ok content =>
      rw [hread] at h
      cases h
  | error refused =>
      rw [hread] at h
      obtain rfl := Except.error.inj h
      exact onPath_ofPath hread

/-- A fault that counts is the one that was met. -/
theorem eq_of_unlessDirectory {met : Fault} (h : tree.unlessDirectory path met = some fault) :
    met = fault := by
  unfold unlessDirectory at h
  split at h
  · cases h
  · exact Option.some.inj h

theorem ensureDirectory_ofPath (h : (tree.ensureDirectory path).2 = some fault) :
    fault.OfPath := by
  unfold ensureDirectory at h
  split at h
  · cases h
  next met hmake =>
    obtain rfl := eq_of_unlessDirectory h
    exact onPath_ofPath hmake

/-- Making a path fails for a fault of the path, or for want of calls. -/
theorem ensurePath_fault {overflow : String} {calls : Nat}
    (h : (tree.ensurePath overflow path calls).2 = some fault) :
    fault.OfPath ∨ fault = .exhausted overflow ∧ calls < path.names.length := by
  fun_induction ensurePath tree overflow path calls with
  | case1 path calls after hmade => cases h
  | case2 path met hmet hmissing =>
      obtain rfl := Option.some.inj h
      exact .inr ⟨rfl, List.length_pos_iff.mpr hmissing.2⟩
  | case3 path met hmet hmissing calls after refused hparent ih =>
      rw [hparent] at ih
      refine (ih h).imp_right fun hshort => ⟨hshort.1, ?_⟩
      -- The path has one name more than its parent.
      have hlength := hshort.2
      rw [Path.parent, List.length_dropLast] at hlength
      omega
  | case4 path met hmet hmissing calls after hparent ih => exact .inl (ensureDirectory_ofPath h)
  | case5 path calls met hmet hother =>
      obtain rfl := eq_of_unlessDirectory h
      exact .inl (onPath_ofPath hmet)

/-- A write fails for one of these, or for want of bytes. -/
theorem write_fault {host : Host} {content : Content}
    (h : (tree.write host path content).2 = some fault) :
    fault.OfPath
      ∨ fault = .exhausted host.overflow ∧ host.nesting < path.parent.names.length
      ∨ content.fault? = some fault := by
  unfold write at h
  split at h
  next made met hparent =>
    have hmet : (tree.ensurePath host.overflow path.parent host.nesting).2 = some met := by
      rw [hparent]
    obtain rfl := Option.some.inj h
    exact (ensurePath_fault hmet).imp_right .inl
  next made hparent =>
    unfold fill at h
    split at h
    · exact .inr (.inr h)
    next met hopen =>
      obtain rfl := Option.some.inj h
      exact .inl (onPath_ofPath hopen)

end FileTree

/-! ## Fillings and runs -/

/-- A filling fails with a fault of the set, if its provider refuses params files with none other. -/
theorem Archive.fill_ofFilling {archive : Archive} {tracing : Bool} {provider : Parser.Provider}
    {arguments : List String}
    (hprovider : ∀ handle fault, provider handle = .error fault → fault.OfFilling)
    (h : (archive.fill tracing provider arguments).result = .error fault) : fault.OfFilling := by
  obtain ⟨left, hfailure⟩ := exists_failure tracing h
  cases hfailure with
  | mixed => exact .mixedReference
  | refused hrefused => exact hprovider _ _ hrefused
  | unexpected => exact .unexpectedFlag _ _
  | malformed => exact .malformedPair _
  | undecodable => exact .undecodable _
  | noOutputPath => exact .noOutputPath

/-- A document that has no bytes is reported as such. -/
theorem Archive.eq_unencodable_of_content {archive : Archive} {host : Host}
    (h : (archive.content host).fault? = some fault) : ∃ place, fault = .unencodable place := by
  have hencodable : ¬ archive.Encodable host := by
    rw [← fault?_content_eq_none_iff, h]
    exact Option.some_ne_none fault
  obtain ⟨place, hcontent⟩ := exists_unencodable hencodable
  rw [hcontent] at h
  exact ⟨place, (Option.some.inj h).symm⟩

/-- **The faults of a run form a closed set**, where its params files are files of the tree. Calls
are lacking only where the output path lies below more directories than may nest. -/
theorem run_ofRun {environment : Environment} {settings : Settings} {host : Host}
    {arguments : List String} {session : Session}
    (h : (run environment settings none host arguments session).ending = .failed fault) :
    fault.OfRun host ∧ (fault = .exhausted host.overflow →
      ∃ output, (Archive.empty.fill false session.tree.provider arguments).result = .ok output
        ∧ host.nesting < (Path.ofString output).parent.names.length) := by
  have hprovider (handle : String) (fault : Fault)
      (hfault : session.tree.provider handle = .error fault) : fault.OfFilling :=
    .ofPath (FileTree.provider_ofPath hfault)
  have hending := congrArg Prod.fst (run_eq_carryOut none host arguments environment settings session)
  dsimp only at hending
  rw [h] at hending
  rcases session.tree.plan_cases none host arguments with hplan | ⟨met, hmet, hplan⟩ |
    ⟨output, hresult, -, hplan⟩
  · rw [hplan] at hending
    cases hending
  · rw [hplan] at hending
    obtain rfl := Ending.failed.inj hending
    have hfilling := Archive.fill_ofFilling hprovider hmet
    refine ⟨.ofFilling hfilling, ?_⟩
    rintro rfl
    cases hfilling.isExpected
  · rw [hplan] at hending
    have hwrite := FileTree.carryOut_failed_iff.mp hending.symm
    rcases FileTree.write_fault hwrite with hpath | ⟨rfl, hlong⟩ | hcontent
    · refine ⟨.ofFilling (.ofPath hpath), ?_⟩
      rintro rfl
      cases hpath
    · exact ⟨.exhausted, fun _ => ⟨output, hresult, hlong⟩⟩
    · obtain ⟨place, rfl⟩ := Archive.eq_unencodable_of_content hcontent
      exact ⟨.unencodable place, fun hexhausted => nomatch hexhausted⟩

end ArchiveRecord
