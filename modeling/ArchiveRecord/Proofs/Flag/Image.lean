/- # Proofs.Flag.Image -- which archives arguments can fill, and how

The archives and output paths that arguments fill are exactly the `Fillable` ones.

* **no more** -- every value keeps the conditions of `Fillable`, since a token that
  is the name of a flag is never a value and a file goes to the list of its suffix;
  this is an invariant of `Flag.pass`, whatever the arguments are.
* **no fewer** -- `Archive.arguments` writes the archive as groups of a flag and its
  values, and the seven groups put the fields together, the imports in the order in
  which they are written.

Values of an import are escaped, so they may be any strings. Every other value may
be any string but the name of a flag.
-/
import ArchiveRecord.Proofs.Flag.Filling
import ArchiveRecord.Proofs.Flag.Groups
import ArchiveRecord.Proofs.Parser.Reference

namespace ArchiveRecord

/-! ## No more -/

/-- **`Filled target`** -- what every value keeps of a target: no text in it is the name of a flag,
and each file is in the list of its suffix. -/
structure Target.Filled (target : Target) : Prop where
  id : Flag.ofName? target.archive.id = none
  pkgPath : Flag.ofName? target.archive.pkgPath = none
  exportFile : Flag.ofName? target.archive.exportFile = none
  goFiles : ∀ file ∈ target.archive.goFiles,
    Flag.isGoSource file = true ∧ Flag.ofName? file = none
  compiledGoFiles : ∀ file ∈ target.archive.compiledGoFiles,
    Flag.isGoSource file = true ∧ Flag.ofName? file = none
  otherFiles : ∀ file ∈ target.archive.otherFiles,
    Flag.isGoSource file = false ∧ Flag.ofName? file = none
  outputPath : ∀ path, target.outputPath = some path → Flag.ofName? path = none

theorem Target.filled_empty : Filled { archive := Archive.empty } where
  id := by decide
  pkgPath := by decide
  exportFile := by decide
  goFiles := by simp [Archive.empty]
  compiledGoFiles := by simp [Archive.empty]
  otherFiles := by simp [Archive.empty]
  outputPath := by simp

theorem forall_mem_concat {α : Type} {P : α → Prop} {list : List α} {a : α}
    (h : ∀ x ∈ list, P x) (ha : P a) : ∀ x ∈ list ++ [a], P x :=
  List.forall_mem_append.mpr ⟨h, List.forall_mem_singleton.mpr ha⟩

/-- **A value keeps what is filled.** -/
theorem Target.Filled.apply {flag : Flag} {value : String} {target next : Target}
    (hvalue : Flag.ofName? value = none) (happly : flag.apply value target = .ok next)
    (h : target.Filled) : next.Filled := by
  cases flag with
  | id =>
      obtain rfl := Except.ok.inj happly
      exact { h with id := hvalue }
  | pkgPath =>
      obtain rfl := Except.ok.inj happly
      exact { h with pkgPath := hvalue }
  | exportFile =>
      obtain rfl := Except.ok.inj happly
      exact { h with exportFile := hvalue }
  | origSrcs =>
      rw [Flag.apply] at happly
      split at happly
      next hsource =>
        obtain rfl := Except.ok.inj happly
        exact { h with goFiles := forall_mem_concat h.goFiles ⟨hsource, hvalue⟩ }
      next hsource =>
        obtain rfl := Except.ok.inj happly
        have hother := Bool.eq_false_iff.mpr hsource
        exact { h with otherFiles := forall_mem_concat h.otherFiles ⟨hother, hvalue⟩ }
  | dataSrcs =>
      rw [Flag.apply] at happly
      split at happly
      next hsource =>
        obtain rfl := Except.ok.inj happly
        exact { h with compiledGoFiles := forall_mem_concat h.compiledGoFiles ⟨hsource, hvalue⟩ }
      next =>
        obtain rfl := Except.ok.inj happly
        exact h
  | imports =>
      rw [Flag.apply] at happly
      cases hpair : Escaped.pair value with
      | error fault =>
          rw [hpair] at happly
          cases happly
      | ok entry =>
          rw [hpair] at happly
          obtain rfl := Except.ok.inj happly
          -- Nothing is asked of the imports.
          exact { h with }
  | outputFile =>
      obtain rfl := Except.ok.inj happly
      exact { h with outputPath := fun path hpath => Option.some.inj hpath ▸ hvalue }

/-- A filled target with an output path is what `Fillable` describes. -/
theorem Target.Filled.fillable {target : Target} {output : String} (h : target.Filled)
    (hpath : target.outputPath = some output) (hne : output ≠ "") :
    target.archive.Fillable output where
  output_ne := hne
  goFiles_go file hfile := (h.goFiles file hfile).1
  compiled_go file hfile := (h.compiledGoFiles file hfile).1
  others_not_go file hfile := (h.otherFiles file hfile).1
  no_flag text htext := by
    simp only [Archive.texts, List.mem_cons, List.mem_append, List.not_mem_nil, or_false] at htext
    rcases htext with rfl | ((((rfl | rfl | rfl) | hgo) | hcompiled) | hother)
    · exact h.outputPath text hpath
    · exact h.id
    · exact h.pkgPath
    · exact h.exportFile
    · exact (h.goFiles text hgo).2
    · exact (h.compiledGoFiles text hcompiled).2
    · exact (h.otherFiles text hother).2

namespace Archive

/-- **What arguments fill is fillable.** -/
theorem Fills.fillable {archive : Archive} {output : String} {tracing : Bool}
    {provider : Parser.Provider} {arguments : List String}
    (h : archive.Fills output tracing provider arguments) : archive.Fillable output := by
  obtain ⟨harchive, hresult⟩ := h
  obtain ⟨hpath, hne⟩ := outputPath_of_result hresult
  have hfilled := fillRun_invariant (fun _ _ _ _ => Target.Filled.apply) tracing provider arguments
    Target.filled_empty
  have := hfilled.fillable hpath hne
  exact harchive ▸ this

end Archive

/-! ## No fewer -/

/-- The list is made of the elements of two lists, each list in its order. -/
inductive Interleaved {α : Type} : List α → List α → List α → Prop
  | nil : Interleaved [] [] []
  | left {a : α} {first second all : List α} :
      Interleaved first second all → Interleaved (a :: first) second (a :: all)
  | right {a : α} {first second all : List α} :
      Interleaved first second all → Interleaved first (a :: second) (a :: all)

theorem Interleaved.append {α : Type} (first second : List α) :
    Interleaved first second (first ++ second) := by
  induction first with
  | nil =>
      induction second with
      | nil => exact .nil
      | cons a second ih => exact .right ih
  | cons a first ih => exact .left ih

/-- Two lists that a test tells apart are what it filters from what they make together. -/
theorem Interleaved.filter_eq {α : Type} {p : α → Bool} {first second all : List α}
    (h : Interleaved first second all) (hfirst : ∀ a ∈ first, p a = true)
    (hsecond : ∀ a ∈ second, p a = false) :
    all.filter p = first ∧ (all.filter fun a => !p a) = second := by
  induction h with
  | nil => exact ⟨rfl, rfl⟩
  | left _ ih =>
      obtain ⟨ha, hfirst⟩ := List.forall_mem_cons.mp hfirst
      obtain ⟨h1, h2⟩ := ih hfirst hsecond
      exact ⟨by rw [List.filter_cons_of_pos ha, h1], by simpa [ha] using h2⟩
  | right _ ih =>
      obtain ⟨ha, hsecond⟩ := List.forall_mem_cons.mp hsecond
      obtain ⟨h1, h2⟩ := ih hfirst hsecond
      exact ⟨by simpa [ha] using h1, by rw [List.filter_cons_of_pos (by simp [ha]), h2]⟩

namespace Archive

variable {archive : Archive} {output : String} {sources : List String}

/-- The groups in which an archive is written. -/
def groups (archive : Archive) (sources : List String) (output : String) :
    List (Flag × List String) :=
  [(.id, [archive.id]), (.pkgPath, [archive.pkgPath]), (.exportFile, [archive.exportFile]),
    (.origSrcs, sources), (.dataSrcs, archive.compiledGoFiles),
    (.imports, archive.imports.entries.map fun entry => importText entry.1 entry.2),
    (.outputFile, [output])]

theorem groupTokens_groups : Flag.groupTokens (archive.groups sources output)
    = archive.arguments sources output := by
  simp [Flag.groupTokens, groups, arguments]

/-- No value of an archive that can be filled is the name of a flag. -/
theorem Fillable.ofName?_groups (h : archive.Fillable output) (hsources : archive.IsSources sources) :
    ∀ group ∈ archive.groups sources output, ∀ value ∈ group.2, Flag.ofName? value = none := by
  have htext := h.no_flag
  simp only [texts, List.forall_mem_cons, List.forall_mem_append] at htext
  obtain ⟨houtput, ⟨⟨⟨hid, hpkg, hexport, -⟩, hgo⟩, hcompiled⟩, hother⟩ := htext
  -- A source is in one of the two lists that the suffix sorts, and `htext` covers both.
  have hsource : ∀ source ∈ sources, Flag.ofName? source = none := by
    intro source hmem
    cases hgoSource : Flag.isGoSource source with
    | true =>
        exact hgo source (hsources.1 ▸ List.mem_filter.mpr ⟨hmem, hgoSource⟩)
    | false =>
        exact hother source (hsources.2 ▸ List.mem_filter.mpr ⟨hmem, by simp [hgoSource]⟩)
  have himport : ∀ value ∈ archive.imports.entries.map fun entry => importText entry.1 entry.2,
      Flag.ofName? value = none := by
    intro value hmem
    obtain ⟨entry, -, rfl⟩ := List.mem_map.mp hmem
    exact Flag.ofName?_importText entry
  simp only [groups, List.forall_mem_cons, List.not_mem_nil, false_imp_iff, implies_true, and_true]
  exact ⟨hid, hpkg, hexport, hsource, hcompiled, himport, houtput⟩

/-- The groups of an archive put it together from the empty one. -/
theorem Fillable.applyGroups_groups (h : archive.Fillable output)
    (hsources : archive.IsSources sources) :
    Flag.applyGroups (archive.groups sources output) { archive := empty }
      = .ok ⟨archive, some output⟩ := by
  have hcompiled : archive.compiledGoFiles.filter Flag.isGoSource = archive.compiledGoFiles :=
    List.filter_eq_self.mpr h.compiled_go
  have himports : OrderedMap.empty.insertAll archive.imports.entries = archive.imports :=
    archive.imports.ofList_entries
  let named : Archive :=
    { id := archive.id, pkgPath := archive.pkgPath, exportFile := archive.exportFile }
  let listed : Archive :=
    { named with
      goFiles := archive.goFiles
      otherFiles := archive.otherFiles
      compiledGoFiles := archive.compiledGoFiles }
  have hsrcs : Flag.origSrcs.applyAll sources { archive := named }
      = .ok { archive := { named with
          goFiles := archive.goFiles, otherFiles := archive.otherFiles } } := by
    rw [Flag.applyAll_origSrcs, hsources.1, hsources.2]
    rfl
  have hdata : Flag.dataSrcs.applyAll archive.compiledGoFiles { archive := { named with
      goFiles := archive.goFiles, otherFiles := archive.otherFiles } }
      = .ok { archive := listed } := by
    rw [Flag.applyAll_dataSrcs, hcompiled]
    rfl
  have hentries : Flag.imports.applyAll
      (archive.imports.entries.map fun entry => importText entry.1 entry.2) { archive := listed }
      = .ok { archive := archive } := by
    rw [Flag.applyAll_imports]
    exact congrArg (fun imports => (.ok ⟨{ listed with imports }, none⟩ : Except Fault Target))
      himports
  -- The first three groups and the last one set a field each and are computed.
  calc Flag.applyGroups (archive.groups sources output) { archive := empty }
      = Flag.applyGroups ((archive.groups sources output).drop 3) { archive := named } := rfl
    _ = Flag.applyGroups [(.outputFile, [output])] { archive := archive } := by
        rw [groups, List.drop_succ_cons, List.drop_succ_cons, List.drop_succ_cons, List.drop_zero,
          Flag.applyGroups_cons hsrcs, Flag.applyGroups_cons hdata, Flag.applyGroups_cons hentries]
    _ = .ok ⟨archive, some output⟩ := rfl

/-- The dispatch of the written arguments puts the archive and the path into the target. -/
theorem Fillable.dispatch_arguments (h : archive.Fillable output)
    (hsources : archive.IsSources sources)
    (nested : List String → Parser.State Target → Parser.Run Target) (provider : Parser.Provider) :
    (Parser.dispatch nested none (argumentReadings (archive.arguments sources output))
        ⟨Parser.bindFlags { provider }, { archive := empty }⟩).state
        = ⟨Parser.bindFlags { provider }, ⟨archive, some output⟩⟩
      ∧ (Parser.dispatch nested none (argumentReadings (archive.arguments sources output))
        ⟨Parser.bindFlags { provider }, { archive := empty }⟩).outcome = .completed := by
  have hpass := Flag.pass_groupTokens (h.ofName?_groups hsources)
    (h.applyGroups_groups hsources) none
  rw [groupTokens_groups] at hpass
  have hdispatch := Parser.dispatch_eq_pass nested (Parser.bindsFlags_bindFlags provider) none
    (argumentReadings (archive.arguments sources output)) { archive := empty }
  rw [Option.map_none, hpass] at hdispatch
  exact hdispatch

/-- The written arguments start with a flag, hence without the marker. -/
theorem head?_arguments : (archive.arguments sources output).head? = some Flag.id.name := by
  simp [arguments]

/-- **What can be filled is filled by its arguments.** -/
theorem Fillable.fills_arguments (h : archive.Fillable output)
    (hsources : archive.IsSources sources) (tracing : Bool) (provider : Parser.Provider) :
    archive.Fills output tracing provider (archive.arguments sources output) := by
  have hrun : empty.fillRun tracing provider (archive.arguments sources output)
      = Parser.dispatch (Parser.parse tracing 0) none
          (argumentReadings (archive.arguments sources output))
          ⟨Parser.bindFlags { provider }, { archive := empty }⟩ := by
    refine Parser.parse_of_unmarked fun first hfirst => ?_
    obtain rfl := Option.some.inj (head?_arguments.symm.trans hfirst)
    exact Flag.id.unmarked_name
  obtain ⟨hstate, houtcome⟩ := h.dispatch_arguments hsources (Parser.parse tracing 0) provider
  rw [← hrun] at hstate houtcome
  exact fill_of_completed (by rw [hstate]) houtcome h.output_ne

/-- A params file of the written arguments fills the archive as they do. -/
theorem Fillable.fills_reference (h : archive.Fillable output)
    (hsources : archive.IsSources sources) (tracing : Bool) {provider : Parser.Provider}
    {handle : String} {text : List Char} {stream : Stream}
    (holds : ParamsText ((archive.arguments sources output).map String.toList) text)
    (delivers : stream = .ofText text ∨ stream = .ofBytes (Encoding.Utf8.encode text))
    (provides : provider handle = .ok stream) :
    archive.Fills output tracing provider ["@" ++ handle] := by
  have hrun : empty.fillRun tracing provider ["@" ++ handle] = _ :=
    Parser.parse_reference provides
  have hflag : ∀ token, (archive.arguments sources output).head? = some token →
      (Parser.bindFlags { provider }).callback? token ≠ none := by
    intro token htoken
    obtain rfl := Option.some.inj (head?_arguments.symm.trans htoken)
    rw [Parser.bindsFlags_bindFlags, Flag.ofName?_name]
    exact Option.some_ne_none _
  rw [Parser.dispatch_fileReadings_of_flag (holds.map_token_stream delivers) hflag] at hrun
  obtain ⟨hstate, houtcome⟩ := h.dispatch_arguments hsources (Parser.parse tracing 0) provider
  refine fill_of_completed ?_ ?_ h.output_ne
  · rw [hrun]
    exact congrArg Parser.State.host hstate
  · rw [hrun]
    exact houtcome

/-- **The image of the command line.** Some arguments, given directly or in a params file, fill the
empty archive to a given one with a given path exactly where these are fillable; and then the
written arguments do, with the Go files and the other files interleaved in any way, directly and
from every params file that can hold them. -/
theorem fills_iff_fillable (archive : Archive) (output : String) :
    ((∃ tracing provider arguments, archive.Fills output tracing provider arguments)
        ↔ archive.Fillable output)
      ∧ (archive.Fillable output → ∀ (tracing : Bool) (provider : Parser.Provider)
          (sources : List String), Interleaved archive.goFiles archive.otherFiles sources →
          archive.Fills output tracing provider (archive.arguments sources output)
          ∧ ∀ (handle : String) (text : List Char) (stream : Stream),
              ParamsText ((archive.arguments sources output).map String.toList) text →
              stream = .ofText text ∨ stream = .ofBytes (Encoding.Utf8.encode text) →
              provider handle = .ok stream →
              archive.Fills output tracing provider ["@" ++ handle]) := by
  have hsources (h : archive.Fillable output) {sources : List String}
      (hinter : Interleaved archive.goFiles archive.otherFiles sources) :
      archive.IsSources sources :=
    hinter.filter_eq h.goFiles_go h.others_not_go
  refine ⟨⟨?_, ?_⟩, ?_⟩
  · rintro ⟨tracing, provider, arguments, h⟩
    exact h.fillable
  · intro h
    have hinter := Interleaved.append archive.goFiles archive.otherFiles
    exact ⟨false, fun _ => .ok [], _, h.fills_arguments (hsources h hinter) false _⟩
  · intro h tracing provider sources hinter
    refine ⟨h.fills_arguments (hsources h hinter) tracing provider, ?_⟩
    intro handle text stream holds delivers provides
    exact h.fills_reference (hsources h hinter) tracing holds delivers provides

end Archive

end ArchiveRecord
