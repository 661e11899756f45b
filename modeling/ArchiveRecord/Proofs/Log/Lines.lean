/- # Proofs.Log.Lines -- a JSON log line is read back as its call

Every text of a call -- the name of its logger, its message, the keys and strings of
its context -- goes into the line through the printer, so none of them can end the
line or add a member to it. What is read is the document that was printed. So a log
falls into its lines again, however many calls it holds.
-/
import ArchiveRecord.Log.Line
import ArchiveRecord.Proofs.Json.OneLine
import ArchiveRecord.Proofs.Json.RoundTrip
import ArchiveRecord.Proofs.Source.Lines

namespace ArchiveRecord.Log

/-! ## Documents and their lines -/

/-- The line of a document. -/
def documentLine (document : Value) : String := String.ofList (Json.text Json.spaced document)

theorem oneLine_documentLine (document : Value) : Json.OneLine (documentLine document).toList := by
  rw [documentLine, String.toList_ofList]
  exact Json.oneLine_text (by decide) (by decide) document

/-- **The document of a line is read from it.** -/
theorem read?_documentLine (document : Value) :
    Json.read? (documentLine document).toList = some document := by
  have hnone : ∀ c ∈ ([] : List Char), Json.isSpace c = true := by simp
  have hread := Json.read?_text Json.separates_spaced document hnone
  rwa [documentLine, String.toList_ofList, ← List.append_nil (Json.text _ _)]

/-- A call that has a message has a line in each layout. -/
theorem Layout.exists_line {call : Call} {message : String} (h : call.message = .ok message)
    (layout : Layout) (stamp : String) : ∃ line, layout.line stamp call = .ok line := by
  rw [Layout.line, h]
  cases layout <;> exact ⟨_, rfl⟩

/-- A call that has a stamp and a message has the line of its document. -/
theorem lineAt_json (version : String) {instant : Instant} {call : Call} {stamp : List Char}
    {message : String} (hstamp : instant.stamp = .ok stamp)
    (hmessage : call.message = .ok message) :
    (Layout.json version).lineAt instant call
      = .ok (documentLine (document version (String.ofList stamp) message call)) := by
  rw [Layout.lineAt, hstamp]
  show ((Layout.json version).line _ call).mapError _ = _
  rw [Layout.line, hmessage]
  rfl

/-! ## The context -/

/-- A line is that of a document. -/
theorem exists_documentLine {version : String} {instant : Instant} {call : Call} {line : String}
    (h : (Layout.json version).lineAt instant call = .ok line) :
    ∃ document, line = documentLine document := by
  rw [Layout.lineAt] at h
  cases hstamp : instant.stamp with
  | error fault => rw [hstamp] at h; cases h
  | ok stamp =>
      cases hmessage : call.message with
      | error fault =>
          rw [hstamp] at h
          change ((Layout.json version).line _ call).mapError _ = _ at h
          rw [Layout.line, hmessage] at h
          cases h
      | ok message => exact ⟨_, Except.ok.inj (h.symm.trans (lineAt_json version hstamp hmessage))⟩

/-- **A log of JSON lines is cut into its lines**, one for each call. -/
theorem cutAfter_lines {version : String} {records : List (Instant × Call)} {lines : List String}
    (h : records.map (fun record => (Layout.json version).lineAt record.1 record.2)
      = lines.map .ok) :
    cutAfter '\n' (lines.flatMap fun line => line.toList ++ ['\n'])
      = lines.map fun line => line.toList ++ ['\n'] := by
  have hlines : ∀ line ∈ lines.map String.toList, '\n' ∉ line := by
    refine List.forall_mem_map.mpr fun line hline => ?_
    have hmem : Except.ok line ∈ lines.map (Except.ok : String → Except LineFault String) :=
      List.mem_map_of_mem hline
    rw [← h] at hmem
    obtain ⟨record, -, hrecord⟩ := List.mem_map.mp hmem
    obtain ⟨document, rfl⟩ := exists_documentLine hrecord
    exact (oneLine_documentLine document).newline_notMem
  have hcut := cutAfter_flatMap_concat hlines
  rwa [List.flatMap_map, List.map_map] at hcut

end ArchiveRecord.Log
