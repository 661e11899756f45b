/- # Proofs.Command.Failure -- a failed run keeps the tree

A run that fails before the write has not touched the tree. One that fails in it
keeps everything that stands there, if there are bytes to write; it may leave
directories on the way to the output path, but none where this path is ordinary.

The length of the whole path cannot be left out: each of its names may keep its
limit and the parent of the path may keep the limit of paths, so that the
directories are made, and only the path itself be too long.
-/
import ArchiveRecord.Proofs.Command.Nested

open ArchiveRecord.Parser (Provider)

namespace ArchiveRecord

/-- **A failed run does not damage the tree.** Where the archive is not filled, the tree is left as
it is. Where it is filled, the output path is plain, the document has bytes and it is not written,
what stands in the tree stays, what is new is a directory that a leading part of the output path
leads to, and at an ordinary path nothing is new. -/
theorem run_failed_keeps (environment : Environment) (settings : Settings)
    (provider : Option Provider) (host : Host) (tracing : Bool) (arguments : List String)
    (session : Session) (htree : session.tree.WellFormed) :
    let filling := Archive.empty.fill tracing (session.paramsFiles provider) arguments
    let report := run environment settings provider host arguments session
    (∀ fault, filling.result = .error fault → report.session.tree = session.tree
        ∧ (host.interrupt? ≠ some .parsing → report.ending = .failed fault))
      ∧ ∀ output, filling.result = .ok output → host.IsPlain output.toList →
          filling.archive.Encodable host →
          (∀ path, report.ending ≠ .wrote path) → host.interrupt? ≠ some .reporting →
          FileTree.GrownAlong (Path.ofString output).parent.names session.tree report.session.tree
          ∧ ((Path.ofString output).Ordinary → report.session.tree = session.tree) := by
  intro filling report
  constructor
  · intro fault hfault
    by_cases hparsing : host.interrupt? = some .parsing
    · exact ⟨(run_unparsed hparsing environment settings).2, fun hother => absurd hparsing hother⟩
    · obtain ⟨hends, hsame⟩ := run_unfilled hparsing hfault environment settings
      exact ⟨hsame, fun _ => hends⟩
  · intro output hresult _ hencodable hending hreporting
    have hfills : filling.archive.Fills output tracing (session.paramsFiles provider) arguments :=
      ⟨rfl, hresult⟩
    by_cases hreaches : host.ReachesWrite
    · obtain ⟨hends, hleft⟩ := run_filled hreaches hfills environment settings
      rw [hencodable.content_eq] at hends hleft
      cases hwrite : session.tree.write host (Path.ofString output)
          (.ok (Encoding.Utf8.encode filling.archive.encode)) with
      | mk after fault? =>
          rw [hwrite] at hends hleft
          cases fault? with
          | none => exact absurd (hends.trans (if_neg hreporting)) (hending _)
          | some fault =>
              refine ⟨hleft ▸ FileTree.write_refused_grown hwrite, fun hpath => ?_⟩
              have hkept := FileTree.write_refused htree hpath rfl (by rw [hwrite]; simp)
              rw [hwrite] at hkept
              exact hleft.trans hkept
    · have hsame : report.session.tree = session.tree :=
        run_unreached provider host arguments hreaches environment settings session
      have hgrown := FileTree.GrownAlong.refl (Path.ofString output).parent.names session.tree
      exact ⟨hsame ▸ hgrown, fun _ => hsame⟩

/-- A tree with one file in it. -/
def oneFile : FileTree := FileTree.put {} ["out"] (.file [])

theorem wellFormed_oneFile : oneFile.WellFormed where
  isPlace := by
    intro place hmem
    obtain rfl := List.mem_singleton.mp hmem
    exact ⟨[], ["out"], rfl, rfl, List.cons_ne_nil _ _, by decide⟩
  parent := by
    intro place hmem
    obtain rfl := List.mem_singleton.mp hmem
    rfl

/-- The one file cannot be a directory of the output path, and stays. -/
theorem run_failed_keeps_oneFile :
    oneFile.WellFormed
      ∧ Archive.empty.Fills "out/a.json" false (Session.paramsFiles ⟨{}, oneFile⟩ none)
          [Flag.outputFile.name, "out/a.json"]
      ∧ Host.IsPlain {} "out/a.json".toList ∧ Archive.empty.Encodable {}
      ∧ (Path.ofString "out/a.json").Ordinary
      ∧ (run ∅ {} none {} [Flag.outputFile.name, "out/a.json"] ⟨{}, oneFile⟩).session.tree
          = oneFile := by
  have hfills : Archive.empty.Fills "out/a.json" false (Session.paramsFiles ⟨{}, oneFile⟩ none) _ :=
    Archive.fills_outputFile (by decide) (by decide) false _
  have hplain : Host.IsPlain {} "out/a.json".toList := fun _ _ => rfl
  have hencodable : Archive.empty.Encodable {} := fun _ _ => rfl
  have hordinary : (Path.ofString "out/a.json").Ordinary :=
    Path.ordinary_ofString_iff.mpr (by decide)
  have hblocked : ¬ oneFile.Clear (Path.ofString "out/a.json").parent.names := by
    intro hclear
    exact hclear ["out"] [] (List.prefix_refl _) rfl
  have hreaches : Host.ReachesWrite {} := Host.reachesWrite_of_none rfl
  obtain ⟨fault, hwrite⟩ := FileTree.write_blocked wellFormed_oneFile hordinary hblocked
  obtain ⟨hends, -⟩ := run_refused hreaches hfills hwrite ∅ {}
  have hkeeps := (run_failed_keeps ∅ {} none {} false [Flag.outputFile.name, "out/a.json"]
    ⟨{}, oneFile⟩ wellFormed_oneFile).2 "out/a.json" hfills.2 hplain hencodable (by simp [hends])
    (by decide)
  exact ⟨wellFormed_oneFile, hfills, hplain, hencodable, hordinary, hkeeps.2 hordinary⟩

/-! ## A path that is too long as a whole -/

/-- A run whose output path is too long as a whole fails after its directories are made. -/
theorem run_too_long {provider : Option Provider} {host : Host} {tracing : Bool}
    {arguments : List String} {session : Session} {archive : Archive} {output : String}
    (hreaches : host.ReachesWrite)
    (h : archive.Fills output tracing (session.paramsFiles provider) arguments)
    (htree : session.tree.WellFormed) (hpath : (Path.ofString output).Named)
    (hparent : (Path.ofString output).parent.Ordinary)
    (hclear : session.tree.Clear (Path.ofString output).parent.names)
    (hfits : session.tree.missing (Path.ofString output).parent.names ≤ host.nesting + 1)
    (hlong : FileTree.pathLimit ≤ (Path.ofString output).text.utf8ByteSize)
    (environment : Environment) (settings : Settings) :
    (run environment settings provider host arguments session).ending
        = .failed (.refused .nameTooLong (Path.ofString output).text)
      ∧ session.tree.MadeAlong (Path.ofString output).parent.names
        (run environment settings provider host arguments session).session.tree := by
  obtain ⟨-, hnul⟩ := hpath.text_ne_empty_and_nul_notMem
  obtain ⟨after, hwrite, hmade⟩ :=
    FileTree.write_too_long htree hparent hclear hfits hnul hlong
  obtain ⟨hends, hleft⟩ := run_refused hreaches h hwrite environment settings
  exact ⟨hends, hleft ▸ hmade⟩

/-- In the empty tree something stands afterwards. -/
theorem run_nested_too_long {host : Host} {name last : String} {depth : Nat}
    (hreaches : host.ReachesWrite) (hname : FileTree.IsName name) (hlast : FileTree.IsName last)
    (hdepth : 0 < depth) (hfits : depth ≤ host.nesting + 1)
    (hshort : depth * (name.utf8ByteSize + 1) ≤ FileTree.pathLimit)
    (hlong : FileTree.pathLimit ≤ depth * (name.utf8ByteSize + 1) + last.utf8ByteSize)
    (environment : Environment) (settings : Settings) :
    let path := Path.nested name depth last
    let arguments := [Flag.outputFile.name, path.text]
    let report := run environment settings none host arguments {}
    Archive.empty.Fills path.text false (Session.paramsFiles {} none) arguments
      ∧ (Path.ofString path.text).Named
      ∧ report.ending = .failed (.refused .nameTooLong path.text) ∧ report.session.tree ≠ {} := by
  intro path arguments report
  obtain ⟨above, rfl⟩ := Nat.exists_eq_add_one_of_ne_zero (Nat.ne_of_gt hdepth)
  have hnamed : path.Named := Path.named_nested hname hlast (above + 1)
  have hread : Path.ofString path.text = path := hnamed.ofString_text Path.names_nested_ne_nil
  have hfills : Archive.empty.Fills path.text false (Session.paramsFiles {} none) arguments :=
    Archive.fills_nested hdepth false _
  have hparent : path.parent.Ordinary := by
    rw [Path.parent_nested, List.replicate_succ']
    refine Path.ordinary_nested hname hname ?_
    rw [Nat.succ_mul] at hshort
    omega
  have hmissing : FileTree.missing {} path.parent.names ≤ host.nesting + 1 := by
    rw [FileTree.missing_empty hparent.isName, Path.parent_nested, List.length_replicate]
    exact hfits
  obtain ⟨hends, hmade⟩ := run_too_long hreaches hfills FileTree.wellFormed_empty
    (hread.symm ▸ hnamed) (hread.symm ▸ hparent) (FileTree.clear_empty _) (hread.symm ▸ hmissing)
    (hread.symm ▸ Path.utf8ByteSize_text_nested ▸ hlong) environment settings
  rw [hread] at hends hmade
  refine ⟨hfills, hread.symm ▸ hnamed, hends, ?_⟩
  intro hsame
  -- The first of the directories is new.
  have hpart : [name] <+: path.parent.names := by
    rw [Path.parent_nested, List.replicate_succ]
    exact ⟨List.replicate above name, rfl⟩
  have hdirectory : report.session.tree.get? [name] = some .directory := by
    rw [hmade, if_pos hpart]
  have hnone : FileTree.get? {} [name] = none := FileTree.get?_empty_concat [] hname
  rw [hsame, hnone] at hdirectory
  cases hdirectory

/-- A name of 240 bytes. -/
def longName : String := String.ofList (List.replicate 240 'x')

theorem utf8ByteSize_longName : longName.utf8ByteSize = 240 := by
  decide +kernel

theorem isName_longName : FileTree.IsName longName := by
  have hlist : longName.toList = List.replicate 240 'x' := String.toList_ofList
  have hx : 'x' ∈ longName.toList := by
    rw [hlist]
    exact List.mem_replicate.mpr ⟨by decide, rfl⟩
  have hother {c : Char} (hc : c ≠ 'x') : c ∉ longName.toList := by
    rw [hlist]
    exact fun hmem => hc (List.eq_of_mem_replicate hmem)
  have hne {name : String} (hname : 'x' ∉ name.toList) : longName ≠ name := by
    rintro rfl
    exact hname hx
  refine ⟨hne (by decide), hne (by decide), hne (by decide), hother (by decide),
    hother (by decide), ?_⟩
  rw [utf8ByteSize_longName]
  decide

/-- **A failed run may leave directories** where each name of the output path keeps its limit and
the whole path does not: seventeen names of 240 bytes make a path of 4096. -/
theorem run_failed_grows :
    let path := Path.nested longName 16 longName
    let arguments := [Flag.outputFile.name, path.text]
    let report := run ∅ {} none {} arguments {}
    Archive.empty.Fills path.text false (Session.paramsFiles {} none) arguments
      ∧ (Path.ofString path.text).Named
      ∧ report.ending = .failed (.refused .nameTooLong path.text) ∧ report.session.tree ≠ {} := by
  have hshort : 16 * (longName.utf8ByteSize + 1) ≤ FileTree.pathLimit := by
    rw [utf8ByteSize_longName]
    decide
  have hlong : FileTree.pathLimit ≤ 16 * (longName.utf8ByteSize + 1) + longName.utf8ByteSize := by
    rw [utf8ByteSize_longName]
    decide
  exact run_nested_too_long (Host.reachesWrite_of_none rfl) isName_longName isName_longName
    (by decide) (by decide) hshort hlong ∅ {}

end ArchiveRecord
