/- # Proofs.Command.Success -- when a run succeeds, and what it writes

At an ordinary output path a run whose archive is filled succeeds exactly where no
file is in the way, no directory stands at the place itself, no more directories are
missing than calls fit into one another, and the document has bytes. The tree that it
leaves is told entry by entry. A second run reads what the first one read, unless this
was the output itself, and finds there what it would write.

The two last conditions cannot be left out. Where directories are too many nothing is
written; where there are no bytes the file is emptied all the same. The output path is
taken to be plain: of one that is not, a host does not say whether a file can have it.
-/
import ArchiveRecord.Proofs.Command.Nested
import ArchiveRecord.Proofs.FileTree.Reading

open ArchiveRecord.Parser (Provider)

namespace ArchiveRecord

section Again

variable {provider : Option Provider} {tracing : Bool} {arguments : List String}
  {session after : Session} {archive : Archive} {output : String} {bytes : List UInt8}

/-- A write to another place than that of the params file does not change what is filled. -/
theorem Archive.Fills.again
    (h : archive.Fills output tracing (session.paramsFiles provider) arguments)
    (hclear : session.tree.Clear (Path.ofString output).parent.names)
    (hplace : session.tree.get? (Path.ofString output).names ≠ some .directory)
    (hwritten : session.tree.WrittenTo (Path.ofString output).names bytes after.tree)
    (hother : provider = none → ∀ handle, arguments = ["@" ++ handle] →
      session.tree.placeOf? handle ≠ some (Path.ofString output).names) :
    archive.Fills output tracing (after.paramsFiles provider) arguments := by
  cases provider with
  | some provider => exact h
  | none =>
      refine h.congr ?_ tracing
      rintro handle rfl
      obtain ⟨stream, hstream⟩ := h.provides
      have hagain : after.tree.provider handle = session.tree.provider handle := by
        refine FileTree.provider_kept (fun _ => hwritten.keeps_directory hplace) ?_ hstream
        intro place content hread
        refine hwritten.keeps_file hclear ?_
        rintro rfl
        exact hother rfl handle rfl hread
      exact hagain.symm

end Again

/-- **When a run succeeds, and what it writes.** At an ordinary and plain output path a run that is not
interrupted succeeds exactly where no file stands at a proper leading part of the path and no
directory at the path itself, no more directories are missing on the way than calls fit into one
another, and no character of the document stands for a lone surrogate. It gives the path; the file
holds the document of the archive, directories stand on the way to it, and every other place is as it
was. The same arguments then succeed again and change nothing, unless the params file that they name
is the output itself. -/
theorem run_writes (environment : Environment) (settings : Settings) (provider : Option Provider)
    (host : Host) (tracing : Bool) (arguments : List String) (session : Session) (archive : Archive)
    (output : String) (htree : session.tree.WellFormed) (hgoes : host.interrupt? = none)
    (hfills : archive.Fills output tracing (session.paramsFiles provider) arguments)
    (hpath : (Path.ofString output).Ordinary) (_hplain : host.IsPlain output.toList) :
    let place := (Path.ofString output).names
    let report := run environment settings provider host arguments session
    ((∃ path, report.ending = .wrote path)
        ↔ (∀ part content, part <+: place → part ≠ place →
            session.tree.get? part ≠ some (.file content))
          ∧ session.tree.get? place ≠ some .directory
          ∧ session.tree.missing (Path.ofString output).parent.names ≤ host.nesting + 1
          ∧ archive.Encodable host)
      ∧ ∀ path, report.ending = .wrote path →
          path = Path.ofString output
          ∧ session.tree.WrittenTo place (Encoding.Utf8.encode archive.encode) report.session.tree
          ∧ ((provider = none → ∀ handle, arguments = ["@" ++ handle] →
                session.tree.placeOf? handle ≠ some place) →
              ∀ (environment' : Environment) (settings' : Settings),
                let again := run environment' settings' provider host arguments report.session
                again.ending = .wrote path ∧ again.session.tree = report.session.tree) := by
  intro place report
  have hsucceeds : (∃ path, report.ending = .wrote path)
      ↔ session.tree.Clear (Path.ofString output).parent.names
        ∧ session.tree.missing (Path.ofString output).parent.names ≤ host.nesting + 1
        ∧ session.tree.get? place ≠ some .directory ∧ archive.Encodable host := by
    rw [← Archive.fault?_content_eq_none_iff]
    exact (run_wrote_iff hgoes hfills environment settings).trans
      (FileTree.write_succeeds_iff htree hpath)
  refine ⟨?_, ?_⟩
  · rw [hsucceeds, FileTree.clear_parent_iff]
    constructor
    · rintro ⟨hclear, hfits, hplace, hencodable⟩
      exact ⟨hclear, hplace, hfits, hencodable⟩
    · rintro ⟨hclear, hplace, hfits, hencodable⟩
      exact ⟨hclear, hfits, hplace, hencodable⟩
  · intro path hends
    obtain ⟨hclear, hfits, hplace, hencodable⟩ := hsucceeds.mp ⟨path, hends⟩
    obtain ⟨after, hwrite, hwritten⟩ :=
      FileTree.write_clear (archive.content host) htree hpath hclear hfits hplace
    rw [Archive.fault?_content_eq_none_iff.mpr hencodable] at hwrite
    rw [hencodable.content_eq] at hwritten
    obtain ⟨hwrote, hleft⟩ := run_written hgoes hfills hwrite environment settings
    obtain rfl := Ending.wrote.inj (hends.symm.trans hwrote)
    have hreport : session.tree.WrittenTo place (Encoding.Utf8.encode archive.encode)
        report.session.tree := by
      rw [show report.session.tree = after from hleft]
      exact hwritten
    refine ⟨rfl, hreport, ?_⟩
    intro hother environment' settings'
    have hagain := hfills.again hclear hplace hreport hother
    have hrewrite : report.session.tree.write host (Path.ofString output) (archive.content host)
        = (report.session.tree, none) := by
      rw [hencodable.content_eq]
      exact FileTree.write_again hpath (hreport.paved_parent hplace) hreport.get?_place
    exact run_written hgoes hagain hrewrite environment' settings'

/-- A path with a doubled slash and a dot is written twice into the empty tree. -/
theorem run_writes_nested :
    let arguments := [Flag.outputFile.name, "d//./a.json"]
    let report := run ∅ {} none {} arguments {}
    FileTree.WellFormed {}
      ∧ Archive.empty.Fills "d//./a.json" false (Session.paramsFiles {} none) arguments
      ∧ (Path.ofString "d//./a.json").Ordinary ∧ Host.IsPlain {} "d//./a.json".toList
      ∧ Archive.empty.Encodable {}
      ∧ report.ending = .wrote ⟨.relative, ["d", "a.json"]⟩
      ∧ report.session.tree.get? ["d"] = some .directory
      ∧ report.session.tree.get? ["d", "a.json"]
        = some (.file (Encoding.Utf8.encode Archive.empty.encode))
      ∧ (run ∅ {} none {} arguments report.session).session.tree = report.session.tree := by
  intro arguments report
  have hfills : Archive.empty.Fills "d//./a.json" false (Session.paramsFiles {} none) arguments :=
    Archive.fills_outputFile (by decide) (by decide) false _
  have hordinary : (Path.ofString "d//./a.json").Ordinary :=
    Path.ordinary_ofString_iff.mpr (by decide)
  have hplain : Host.IsPlain {} "d//./a.json".toList := fun _ _ => rfl
  have hencodable : Archive.empty.Encodable {} := fun _ _ => rfl
  have hpath : Path.ofString "d//./a.json" = ⟨.relative, ["d", "a.json"]⟩ := by decide
  obtain ⟨hsucceeds, hwrites⟩ := run_writes ∅ {} none {} false arguments {} .empty "d//./a.json"
    FileTree.wellFormed_empty rfl hfills hordinary hplain
  have hreport : run ∅ {} none {} arguments {} = report := rfl
  rw [hpath, hreport] at hsucceeds hwrites
  have hclear (part : Place) (content : List UInt8) :
      FileTree.get? {} part ≠ some (.file content) :=
    FileTree.clear_empty part part content (List.prefix_refl part)
  obtain ⟨path, hends⟩ := hsucceeds.mpr
    ⟨fun part content _ _ => hclear part content, by decide, by decide, hencodable⟩
  obtain ⟨rfl, hwritten, hagain⟩ := hwrites path hends
  have hargs : ∀ handle, arguments ≠ ["@" ++ handle] := by simp [arguments]
  have hdirectory : report.session.tree.get? ["d"] = some .directory := by
    rw [hwritten, if_neg (by decide), if_pos (by decide)]
  obtain ⟨-, hsame⟩ := hagain (fun _ handle h => absurd h (hargs handle)) ∅ {}
  exact ⟨FileTree.wellFormed_empty, hfills, hordinary, hplain, hencodable, hends, hdirectory,
    hwritten.get?_place, hsame⟩

/-- **A path may keep every limit and lie too deep.** Below 1200 directories of the empty tree nothing
is in the way, and the run fails. -/
theorem run_writes_not_deep :
    let path := Path.nested "a" 1200 "o.json"
    let arguments := [Flag.outputFile.name, path.text]
    let report := run ∅ {} none {} arguments {}
    FileTree.WellFormed {} ∧ (∀ part content, FileTree.get? {} part ≠ some (.file content))
      ∧ Host.IsPlain {} path.text.toList ∧ Archive.empty.Encodable {}
      ∧ Archive.empty.Fills path.text false (Session.paramsFiles {} none) arguments
      ∧ (Path.ofString path.text).Ordinary
      ∧ FileTree.get? {} (Path.ofString path.text).names = none
      ∧ report.ending = .failed (.exhausted "maximum recursion depth exceeded") := by
  have hclear (part : Place) (content : List UInt8) :
      FileTree.get? {} part ≠ some (.file content) :=
    FileTree.clear_empty part part content (List.prefix_refl part)
  have hreaches : Host.ReachesWrite {} := Host.reachesWrite_of_none rfl
  have hdeep := run_nested_deep hreaches (by decide : FileTree.IsName "a")
    (by decide : FileTree.IsName "o.json") (by decide) (by decide : _ < 1200) ∅ {}
  exact ⟨FileTree.wellFormed_empty, hclear, fun _ _ => rfl, fun _ _ => rfl, hdeep⟩

/-! ## Documents without bytes -/

/-- **A run whose document has no bytes empties the file.** Nothing else changes on the way than
where it succeeds, but the content of the file is lost. -/
theorem run_empties {provider : Option Provider} {host : Host} {tracing : Bool}
    {arguments : List String} {session : Session} {archive : Archive} {output : String}
    (hreaches : host.ReachesWrite)
    (hfills : archive.Fills output tracing (session.paramsFiles provider) arguments)
    (htree : session.tree.WellFormed) (hpath : (Path.ofString output).Ordinary)
    (hclear : session.tree.Clear (Path.ofString output).parent.names)
    (hfits : session.tree.missing (Path.ofString output).parent.names ≤ host.nesting + 1)
    (hplace : session.tree.get? (Path.ofString output).names ≠ some .directory)
    (hencodable : ¬ archive.Encodable host) (environment : Environment) (settings : Settings) :
    let report := run environment settings provider host arguments session
    (∃ place, report.ending = .failed (.unencodable place))
      ∧ session.tree.WrittenTo (Path.ofString output).names [] report.session.tree := by
  intro report
  obtain ⟨place, hcontent⟩ := Archive.exists_unencodable hencodable
  obtain ⟨after, hwrite, hwritten⟩ :=
    FileTree.write_clear (archive.content host) htree hpath hclear hfits hplace
  have hrefused : session.tree.write host (Path.ofString output) (archive.content host)
      = (after, some (.unencodable place)) := by
    rw [hwrite, hcontent]
    rfl
  rw [hcontent] at hwritten
  obtain ⟨hends, hleft⟩ := run_refused hreaches hfills hrefused environment settings
  exact ⟨⟨place, hends⟩, hleft ▸ hwritten⟩

end ArchiveRecord
