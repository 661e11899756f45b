/- # Proofs.Archive.Stream -- written archives are read back, alone and in a stream

An encoded archive is one line: a value printed without control characters, and a
line feed. Encoded archives that follow one another are therefore cut apart where
one ends, and what is read from each piece is the value of its archive, from which
every field can be taken.
-/
import ArchiveRecord.Archive
import ArchiveRecord.Proofs.Json.OneLine
import ArchiveRecord.Proofs.Json.RoundTrip
import ArchiveRecord.Proofs.Source.Lines
import Mathlib.Data.List.Basic

namespace ArchiveRecord.Archive

/-- The line of an archive, without the line feed that ends it. -/
def line (archive : Archive) : List Char := Json.text Json.compact archive.toValue

theorem encode_eq_line (archive : Archive) : archive.encode = archive.line ++ ['\n'] := rfl

theorem oneLine_line (archive : Archive) : Json.OneLine archive.line :=
  Json.oneLine_text (by decide) (by decide) archive.toValue

/-- **A written archive is read as its value.** -/
theorem read?_encode (archive : Archive) : Json.read? archive.encode = some archive.toValue := by
  have hfeed : ∀ c ∈ ['\n'], Json.isSpace c = true := List.forall_mem_singleton.mpr rfl
  exact Json.read?_text Json.separates_compact archive.toValue hfeed

/-- **A stream of written archives is cut into the written archives.** -/
theorem cutAfter_flatMap_encode (archives : List Archive) :
    cutAfter '\n' (archives.flatMap encode) = archives.map encode := by
  have hlines : ∀ line ∈ archives.map Archive.line, '\n' ∉ line :=
    List.forall_mem_map.mpr fun archive _ => archive.oneLine_line.newline_notMem
  have hcut := cutAfter_flatMap_concat hlines
  rwa [List.flatMap_map, List.map_map] at hcut

/-! ## The fields of a value -/

theorem stringList_injective : Function.Injective stringList := by
  intro strings others h
  have hstring : Function.Injective Value.string := by
    intro s t hs
    exact Value.string.inj hs
  exact hstring.list_map (Value.list.inj h)

/-- **No two archives have the same value.** -/
theorem toValue_injective : Function.Injective toValue := by
  intro archive other h
  have hmembers := Value.mapping.inj h
  simp only [List.cons.injEq, Prod.mk.injEq, true_and, and_true, Value.string.injEq,
    Value.mapping.injEq] at hmembers
  obtain ⟨hid, hpkgPath, hexportFile, hgo, hcompiled, hother, himports⟩ := hmembers
  have hentry : Function.Injective fun entry : String × String => (entry.1, Value.string entry.2) := by
    rintro ⟨key, value⟩ ⟨key', value'⟩ hentry
    simpa using hentry
  have hentries : archive.imports = other.imports := OrderedMap.ext (hentry.list_map himports)
  cases archive
  cases other
  simp only [mk.injEq]
  exact ⟨hid, hpkgPath, hexportFile, stringList_injective hgo, stringList_injective hcompiled,
    stringList_injective hother, hentries⟩

/-- **Written archives can be read back, alone and as a stream.** Cut behind each line feed, a
stream of them has one piece for each, and from each piece is read an object of seven members that
hold the strings, the lists and the imports of the archive in their order, no path twice. So no two
archives are written alike, and the line feed at its end is the only control character of a
written archive. -/
theorem encode_read_back :
    (∀ archives : List Archive,
        cutAfter '\n' (archives.flatMap encode) = archives.map encode
          ∧ (cutAfter '\n' (archives.flatMap encode)).map Json.read?
            = archives.map fun archive => some (.mapping
                [("ID", .string archive.id),
                 ("PkgPath", .string archive.pkgPath),
                 ("ExportFile", .string archive.exportFile),
                 ("GoFiles", .list (archive.goFiles.map .string)),
                 ("CompiledGoFiles", .list (archive.compiledGoFiles.map .string)),
                 ("OtherFiles", .list (archive.otherFiles.map .string)),
                 ("Imports", .mapping
                   (archive.imports.entries.map fun entry => (entry.1, .string entry.2)))]))
      ∧ (∀ archive : Archive, (archive.imports.entries.map Prod.fst).Nodup)
      ∧ Function.Injective encode
      ∧ ∀ archive : Archive, ∃ line : List Char,
          archive.encode = line ++ ['\n'] ∧ ∀ c ∈ line, 0x20 ≤ c.toNat := by
  refine ⟨?_, fun archive => archive.imports.distinct, ?_, ?_⟩
  · intro archives
    refine ⟨cutAfter_flatMap_encode archives, ?_⟩
    rw [cutAfter_flatMap_encode, List.map_map]
    exact List.map_congr_left fun archive _ => archive.read?_encode
  · intro archive other h
    have hread := archive.read?_encode
    rw [h, other.read?_encode] at hread
    exact toValue_injective (Option.some.inj hread).symm
  · intro archive
    exact ⟨archive.line, archive.encode_eq_line, archive.oneLine_line⟩

end ArchiveRecord.Archive
