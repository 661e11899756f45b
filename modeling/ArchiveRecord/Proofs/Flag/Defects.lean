/- # Proofs.Flag.Defects -- what stops a filling, and what it leaves

Reading, dispatch and the splitting of pairs take turns, token by token. A filling
therefore stops at the first defect in reading order, whatever stands behind it,
and leaves what the tokens in front of the defect make of the archive.

`Failure` lists the ways in which this can happen, each with its fault and the
archive that is left; `fill_failed_iff` says that these are all and that each
happens. The one fact behind it is `examined`: what is read is accepted throughout,
or has a first defect with accepted tokens in front of it.
-/
import ArchiveRecord.Proofs.Flag.Values

open ArchiveRecord.Parser (Provider)

namespace ArchiveRecord

/-! ## Defects -/

namespace Flag

variable {active : Option Flag} {reading : Reading} {fault : Fault}

/-- **`Defect active reading fault`** -- the reading cannot be taken where the flag is active, and the
fault reports why. -/
inductive Defect : Option Flag → Reading → Fault → Prop
  | unread (active : Option Flag) (fault : Fault) (origin : Origin) :
      Defect active ⟨.error fault, origin⟩ fault
  | unexpected {token : String} (origin : Origin) (h : ofName? token = none) :
      Defect none ⟨.ok token, origin⟩ (.unexpectedFlag token origin)
  | malformed {token : String} (origin : Origin) (h : ofName? token = none)
      (hpair : ¬ Escaped.IsPair token) :
      Defect (some .imports) ⟨.ok token, origin⟩ (.malformedPair token)

/-- A pass stops at a defect and leaves the target as it is there. -/
theorem Defect.pass (h : Defect active reading fault) (rest : List Reading) (target : Target) :
    Flag.pass active (reading :: rest) target = (target, some fault) := by
  cases h with
  | unread => exact pass_unread
  | unexpected origin hname => exact pass_unexpected hname
  | @malformed token origin hname hpair =>
      have happly : imports.apply token target = .error (.malformedPair token) := by
        rw [apply, Escaped.pair_of_not_isPair hpair]
        rfl
      exact pass_fault hname happly

/-- **`Examined active readings`** -- the readings are accepted throughout, or have a first defect
with accepted tokens in front of it. -/
inductive Examined (active : Option Flag) : List Reading → Prop
  | accepted {readings : List Reading} {tokens : List String}
      (htokens : readings.map Reading.result = tokens.map .ok) (h : Accepted active tokens) :
      Examined active readings
  | stopped {before : List Reading} {tokens : List String} {reading : Reading} {fault : Fault}
      (rest : List Reading) (htokens : before.map Reading.result = tokens.map .ok)
      (h : Accepted active tokens)
      (hdefect : Defect (activeBehind active tokens) reading fault) :
      Examined active (before ++ reading :: rest)

/-- A token that is taken goes in front of what is examined behind it. -/
theorem Examined.cons {behind : Option Flag} {token : String} {rest : List Reading}
    (h : Examined behind rest)
    (haccepted : ∀ tokens, Accepted behind tokens → Accepted active (token :: tokens))
    (hbehind : ∀ tokens, activeBehind active (token :: tokens) = activeBehind behind tokens)
    (origin : Origin) : Examined active (⟨.ok token, origin⟩ :: rest) := by
  have htaken {readings : List Reading} {tokens : List String}
      (htokens : readings.map Reading.result = tokens.map .ok) :
      (⟨.ok token, origin⟩ :: readings : List Reading).map Reading.result
        = (token :: tokens).map .ok := by
    rw [List.map_cons, htokens, List.map_cons]
  cases h with
  | accepted htokens h => exact .accepted (htaken htokens) (haccepted _ h)
  | stopped rest htokens h hdefect =>
      rw [← hbehind] at hdefect
      exact .stopped rest (htaken htokens) (haccepted _ h) hdefect

/-- **What is read is accepted throughout, or has a first defect.** -/
theorem examined (active : Option Flag) (readings : List Reading) : Examined active readings := by
  induction readings generalizing active with
  | nil => exact .accepted rfl (accepted_nil active)
  | cons reading rest ih =>
      have hstopped {fault : Fault} (hdefect : Defect active reading fault) :
          Examined active ([] ++ reading :: rest) :=
        .stopped rest rfl (accepted_nil active) hdefect
      obtain ⟨result, origin⟩ := reading
      cases result with
      | error fault => exact hstopped (.unread active fault origin)
      | ok token =>
          cases hname : ofName? token with
          | some flag =>
              exact (ih (some flag)).cons (fun _ => (accepted_flag_iff hname).mpr)
                (fun _ => activeBehind_flag hname) origin
          | none =>
              cases active with
              | none => exact hstopped (.unexpected origin hname)
              | some flag =>
                  by_cases hpair : flag = imports → Escaped.IsPair token
                  · exact (ih (some flag)).cons
                      (fun _ h => (accepted_value_iff hname).mpr ⟨hpair, h⟩)
                      (fun _ => activeBehind_value hname) origin
                  · obtain ⟨rfl, hmalformed⟩ := Classical.not_imp.mp hpair
                    exact hstopped (.malformed origin hname hmalformed)

/-- Before any flag, tokens that are accepted and name none are none. -/
theorem Accepted.eq_nil {tokens : List String} (h : Accepted none tokens)
    (hbehind : activeBehind none tokens = none) : tokens = [] := by
  cases tokens with
  | nil => rfl
  | cons token tokens =>
      cases hname : ofName? token with
      | none => exact absurd hname (h.flag_first rfl token rfl)
      | some flag =>
          rw [activeBehind_flag hname, activeBehind, Option.or_eq_none_iff] at hbehind
          cases hbehind.2

end Flag

/-! ## What is read -/

/-- **`Reads provider arguments readings`** -- the readings are those of the arguments, or of the
lines of the params file that they name. -/
inductive Reads (provider : Provider) : List String → List Reading → Prop
  | arguments {arguments : List String}
      (h : ∀ first, arguments.head? = some first → ¬ "@".toList <+: first.toList) :
      Reads provider arguments (argumentReadings arguments)
  | paramsFile {handle : String} {stream : Stream} (h : provider handle = .ok stream) :
      Reads provider ["@" ++ handle] (lineReadings (some (.ofString handle)) .utf8 0 stream)

theorem Reads.readings_eq {provider : Provider} {arguments : List String}
    {readings : List Reading} (h : Reads provider arguments readings) (archive : Archive) :
    (archive.fillStart provider).parser.readings arguments = .ok readings := by
  cases h with
  | arguments hplain =>
      exact Parser.readings_unmarked fun first hfirst =>
        Parser.handle?_eq_none_iff.mpr (hplain first hfirst)
  | @paramsFile handle stream hstream =>
      have hreadings := (archive.fillStart provider).parser.readings_reference handle
      rw [show (archive.fillStart provider).parser.provider handle = .ok stream from hstream]
        at hreadings
      exact hreadings

/-- Lines in front of one are read in front of it. -/
theorem exists_lineReadings_append (path : Option Path) (lines : Stream) (line : Line)
    (rest : Stream) :
    ∃ before origin behind,
      lineReadings path .utf8 0 (lines ++ line :: rest)
          = before ++ ⟨line.token .utf8, origin⟩ :: behind
        ∧ before.map Reading.result = lines.map (Line.token .utf8) := by
  have hresults := map_result_lineReadings path .utf8 0 (lines ++ line :: rest)
  rw [List.map_append, List.map_cons] at hresults
  obtain ⟨before, more, hall, hbefore, hmore⟩ := List.map_eq_append_iff.mp hresults
  obtain ⟨⟨result, origin⟩, behind, rfl, hresult, -⟩ := List.map_eq_cons_iff.mp hmore
  obtain rfl : result = line.token .utf8 := hresult
  exact ⟨before, origin, behind, hall, hbefore⟩

/-- What is read in front of a reading are the lines in front of its line. -/
theorem exists_lines_append {path : Option Path} {stream : Stream} {before behind : List Reading}
    {reading : Reading} (h : lineReadings path .utf8 0 stream = before ++ reading :: behind) :
    ∃ lines line rest, stream = lines ++ line :: rest
      ∧ lines.map (Line.token .utf8) = before.map Reading.result
      ∧ line.token .utf8 = reading.result := by
  have hresults := map_result_lineReadings path .utf8 0 stream
  rw [h, List.map_append, List.map_cons] at hresults
  obtain ⟨lines, more, rfl, hlines, hmore⟩ := List.map_eq_append_iff.mp hresults.symm
  obtain ⟨line, rest, rfl, hline, -⟩ := List.map_eq_cons_iff.mp hmore
  exact ⟨lines, line, rest, rfl, hlines, hline⟩

/-! ## Failures -/

namespace Archive

/-- **`Failure archive provider arguments fault left`** -- why the arguments do not fill the archive,
the fault that reports it, and the archive that is left. -/
inductive Failure (archive : Archive) (provider : Provider) :
    List String → Fault → Archive → Prop
  /-- A params file is named beside other arguments. -/
  | mixed (handle second : String) (others : List String) :
      Failure archive provider (("@" ++ handle) :: second :: others) .mixedReference archive
  /-- The provider refuses the params file. -/
  | refused {handle : String} {fault : Fault} (h : provider handle = .error fault) :
      Failure archive provider ["@" ++ handle] fault archive
  /-- The first token is no flag. -/
  | unexpected {arguments : List String} {token : String} {origin : Origin} {rest : List Reading}
      (hreads : Reads provider arguments (⟨.ok token, origin⟩ :: rest))
      (hname : Flag.ofName? token = none) :
      Failure archive provider arguments (.unexpectedFlag token origin) archive
  /-- Behind accepted tokens, a value of `--imports` has not exactly one unescaped delimiter. -/
  | malformed {arguments tokens : List String} {token : String} {origin : Origin}
      {before rest : List Reading}
      (hreads : Reads provider arguments (before ++ ⟨.ok token, origin⟩ :: rest))
      (htokens : before.map Reading.result = tokens.map .ok) (h : Flag.Accepted none tokens)
      (himports : Flag.activeBehind none tokens = some .imports)
      (hname : Flag.ofName? token = none) (hpair : ¬ Escaped.IsPair token) :
      Failure archive provider arguments (.malformedPair token) (archive.filledBy tokens)
  /-- Behind lines with accepted tokens, the bytes of a line are no text. -/
  | undecodable {handle : String} {lines rest : Stream} {line : Line} {tokens : List String}
      {place : Encoding.Undecodable} (hstream : provider handle = .ok (lines ++ line :: rest))
      (htokens : lines.map (Line.token .utf8) = tokens.map .ok) (h : Flag.Accepted none tokens)
      (hline : line.token .utf8 = .error (.undecodable "utf-8" place)) :
      Failure archive provider ["@" ++ handle] (.undecodable "utf-8" place)
        (archive.filledBy tokens)
  /-- All tokens are accepted, and the last output path is empty or there is none. -/
  | noOutputPath {arguments tokens : List String} {readings : List Reading}
      (hreads : Reads provider arguments readings)
      (htokens : readings.map Reading.result = tokens.map .ok) (h : Flag.Accepted none tokens)
      (hpath : (Flag.outputFile.values tokens).getLast? = none
        ∨ (Flag.outputFile.values tokens).getLast? = some "") :
      Failure archive provider arguments .noOutputPath (archive.filledBy tokens)

variable {archive : Archive} {provider : Provider} {arguments tokens : List String}
  {before rest : List Reading} {reading : Reading} {fault : Fault}

theorem filledBy_nil (archive : Archive) : archive.filledBy [] = archive :=
  congrArg Target.archive (Target.assigned_nil { archive })

/-- Where nothing is read, the archive is left as it is. -/
theorem fill_unread (tracing : Bool)
    (h : (archive.fillStart provider).parser.readings arguments = .error fault) :
    (archive.fill tracing provider arguments).archive = archive
      ∧ (archive.fill tracing provider arguments).result = .error fault := by
  have hpass : Flag.passOver ((archive.fillStart provider).parser.readings arguments) { archive }
      = ({ archive }, some fault) := by rw [h]; rfl
  exact fill_passOver tracing hpass

/-- At the first defect the archive is what the tokens in front of it make of it. -/
theorem fill_stopped (tracing : Bool)
    (hreads : Reads provider arguments (before ++ reading :: rest))
    (htokens : before.map Reading.result = tokens.map .ok) (h : Flag.Accepted none tokens)
    (hdefect : Flag.Defect (Flag.activeBehind none tokens) reading fault) :
    (archive.fill tracing provider arguments).archive = archive.filledBy tokens
      ∧ (archive.fill tracing provider arguments).result = .error fault := by
  have hpass : Flag.passOver ((archive.fillStart provider).parser.readings arguments) { archive }
      = (Target.assigned { archive } (Flag.assignments none tokens), some fault) := by
    rw [hreads.readings_eq, Flag.passOver, Flag.pass_accepted h htokens, hdefect.pass]
  exact fill_passOver tracing hpass

/-- What is listed happens. -/
theorem Failure.fill_eq {left : Archive} (h : archive.Failure provider arguments fault left)
    (tracing : Bool) :
    (archive.fill tracing provider arguments).archive = left
      ∧ (archive.fill tracing provider arguments).result = .error fault := by
  cases h with
  | mixed handle second others =>
      exact fill_unread tracing (Parser.readings_mixed handle second others)
  | @refused handle fault hrefused =>
      refine fill_unread tracing ?_
      have hreadings := (archive.fillStart provider).parser.readings_reference handle
      rw [show (archive.fillStart provider).parser.provider handle = .error fault from hrefused]
        at hreadings
      exact hreadings
  | @unexpected _ token origin rest hreads hname =>
      have hdefect : Flag.Defect (Flag.activeBehind none []) ⟨.ok token, origin⟩
          (.unexpectedFlag token origin) := .unexpected origin hname
      have hfront : Reads provider arguments ([] ++ ⟨.ok token, origin⟩ :: rest) := hreads
      have hstopped : (archive.fill tracing provider arguments).archive = archive.filledBy [] ∧ _ :=
        fill_stopped tracing hfront rfl (Flag.accepted_nil none) hdefect
      rwa [filledBy_nil] at hstopped
  | malformed hreads htokens h himports hname hpair =>
      refine fill_stopped tracing hreads htokens h ?_
      rw [himports]
      exact .malformed _ hname hpair
  | @undecodable handle lines rest line tokens place hstream htokens h hline =>
      obtain ⟨before, origin, behind, hreadings, hbefore⟩ :=
        exists_lineReadings_append (some (.ofString handle)) lines line rest
      have hreads := Reads.paramsFile hstream
      rw [hreadings, hline] at hreads
      exact fill_stopped tracing hreads (hbefore.trans htokens) h (.unread _ _ _)
  | noOutputPath hreads htokens h hpath =>
      obtain ⟨harchive, hresult⟩ := fill_accepted tracing (hreads.readings_eq archive) htokens h
      exact ⟨harchive, hresult.trans (outputOf_eq_error_iff.mpr ⟨rfl, hpath⟩)⟩

/-! ## Nothing else happens -/

/-- A reading that is no token is a line whose bytes are no text. -/
theorem exists_failure_unread (archive : Archive) {origin : Origin}
    (hreads : Reads provider arguments (before ++ ⟨.error fault, origin⟩ :: rest))
    (htokens : before.map Reading.result = tokens.map .ok) (h : Flag.Accepted none tokens) :
    ∃ left, archive.Failure provider arguments fault left := by
  generalize hall : before ++ ⟨.error fault, origin⟩ :: rest = readings at hreads
  cases hreads with
  | arguments hplain =>
      have hresults := map_result_argumentReadings arguments
      rw [← hall] at hresults
      have hmem : Except.error fault ∈ arguments.map .ok := hresults ▸ by simp
      obtain ⟨token, -, htoken⟩ := List.mem_map.mp hmem
      cases htoken
  | @paramsFile handle stream hstream =>
      obtain ⟨lines, line, more, rfl, hlines, hline⟩ := exists_lines_append hall.symm
      obtain ⟨place, rfl⟩ := Line.undecodable_of_token hline
      exact ⟨_, .undecodable hstream (hlines.trans htokens) h hline⟩

/-- A first defect is one of the failures. -/
theorem exists_failure_of_defect (archive : Archive)
    (hreads : Reads provider arguments (before ++ reading :: rest))
    (htokens : before.map Reading.result = tokens.map .ok) (h : Flag.Accepted none tokens)
    (hdefect : Flag.Defect (Flag.activeBehind none tokens) reading fault) :
    ∃ left, archive.Failure provider arguments fault left := by
  generalize hactive : Flag.activeBehind none tokens = active at hdefect
  cases hdefect with
  | unread active fault origin => exact exists_failure_unread archive hreads htokens h
  | unexpected origin hname =>
      obtain rfl := h.eq_nil hactive
      obtain rfl := List.map_eq_nil_iff.mp htokens
      exact ⟨archive, .unexpected hreads hname⟩
  | malformed origin hname hpair =>
      exact ⟨_, .malformed hreads htokens h hactive hname hpair⟩

/-- Where something is read, a fault is that of a first defect, or that of the missing path. -/
theorem exists_failure_of_reads (tracing : Bool) {readings : List Reading}
    (hreads : Reads provider arguments readings)
    (hresult : (archive.fill tracing provider arguments).result = .error fault) :
    ∃ left, archive.Failure provider arguments fault left := by
  cases Flag.examined none readings with
  | accepted htokens h =>
      obtain ⟨-, haccepted⟩ := fill_accepted tracing (hreads.readings_eq archive) htokens h
      obtain ⟨rfl, hpath⟩ := outputOf_eq_error_iff.mp (haccepted.symm.trans hresult)
      exact ⟨_, .noOutputPath hreads htokens h hpath⟩
  | stopped rest htokens h hdefect =>
      obtain ⟨-, hstopped⟩ := fill_stopped tracing hreads htokens h hdefect
      obtain rfl := Except.error.inj (hstopped.symm.trans hresult)
      exact exists_failure_of_defect archive hreads htokens h hdefect

/-- **A filling that fails is one of the failures.** -/
theorem exists_failure (tracing : Bool)
    (hresult : (archive.fill tracing provider arguments).result = .error fault) :
    ∃ left, archive.Failure provider arguments fault left := by
  cases Parser.arguments_cases (archive.fillStart provider).parser arguments with
  | unmarked hplain =>
      have hreads : Reads provider arguments (argumentReadings arguments) :=
        .arguments fun first hfirst => Parser.handle?_eq_none_iff.mp (hplain first hfirst)
      exact exists_failure_of_reads tracing hreads hresult
  | reference handle =>
      cases hprovider : provider handle with
      | ok stream => exact exists_failure_of_reads tracing (.paramsFile hprovider) hresult
      | error refusal =>
          have hrefused : archive.Failure provider ["@" ++ handle] refusal archive :=
            .refused hprovider
          obtain rfl := Except.error.inj ((hrefused.fill_eq tracing).2.symm.trans hresult)
          exact ⟨archive, hrefused⟩
  | mixed handle second others =>
      have hmixed : archive.Failure provider (("@" ++ handle) :: second :: others)
        .mixedReference archive := .mixed handle second others
      obtain rfl := Except.error.inj ((hmixed.fill_eq tracing).2.symm.trans hresult)
      exact ⟨archive, hmixed⟩

/-- **How a filling fails, and what it leaves.** It ends with a fault and leaves an archive exactly
where that is one of the failures: the archive is as it was, or is what the tokens in front of the
first defect make of it. And that is what a filling makes of the archive where these tokens are the
arguments. -/
theorem fill_failed_iff (archive : Archive) (tracing : Bool) (provider : Provider)
    (arguments : List String) :
    (∀ fault left, (archive.fill tracing provider arguments).result = .error fault
        ∧ (archive.fill tracing provider arguments).archive = left
      ↔ archive.Failure provider arguments fault left)
    ∧ ∀ tokens, Flag.Accepted none tokens →
        (archive.fill tracing provider tokens).archive = archive.filledBy tokens := by
  refine ⟨fun fault left => ⟨?_, ?_⟩, fun tokens h => ?_⟩
  · rintro ⟨hresult, harchive⟩
    obtain ⟨found, hfailure⟩ := exists_failure tracing hresult
    obtain rfl := harchive.symm.trans (hfailure.fill_eq tracing).1
    exact hfailure
  · intro hfailure
    exact (hfailure.fill_eq tracing).symm
  · exact (fill_accepted tracing (readings_of_accepted archive provider h)
      (map_result_argumentReadings tokens) h).1

/-- Bytes that are no text in the third line, in front of an import that is no pair: the fault is
that of the third line, and the archive is what the first two make of it. -/
theorem fill_failed_iff_undecodable :
    let provider : Provider := fun _ => .ok [.text "--imports\n".toList, .text "a=1\n".toList,
      .bytes [0x62, 0xFF, 0x0A], .text "b\n".toList]
    let filling := Archive.empty.fill false provider ["@params"]
    filling.result = .error (.undecodable "utf-8" ⟨1, 2, 0xFF, .startByte⟩)
      ∧ filling.archive = { imports := .ofList [("a", "1")] } := by
  intro provider filling
  have hstream : provider "params" = .ok ([.text "--imports\n".toList, .text "a=1\n".toList]
      ++ .bytes [0x62, 0xFF, 0x0A] :: [.text "b\n".toList]) := rfl
  have hflag : ["--imports", "a=1"].head? = some Flag.imports.name := rfl
  have haccepted : Flag.Accepted none ["--imports", "a=1"] :=
    Flag.accepted_of_head hflag (by decide)
  have hfailure : Archive.empty.Failure provider ["@" ++ "params"]
      (.undecodable "utf-8" ⟨1, 2, 0xFF, .startByte⟩)
      (Archive.empty.filledBy ["--imports", "a=1"]) :=
    .undecodable hstream rfl haccepted rfl
  have hleft : Archive.empty.filledBy ["--imports", "a=1"] = { imports := .ofList [("a", "1")] } := by
    decide
  rw [← hleft]
  exact ((fill_failed_iff Archive.empty false provider ["@params"]).1 _ _).mpr hfailure

end Archive

end ArchiveRecord
