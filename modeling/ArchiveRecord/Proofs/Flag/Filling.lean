/- # Proofs.Flag.Filling -- the run that fills an archive

`Archive.fill` is a parse with the flags bound, read off at its end. What it leaves
of the archive is what a pass leaves, so that what every value keeps is kept by
every filling; and the path that it gives is the output path of the target.

A filling depends on what is read and on nothing else: not on traces, and on the
provider only at the handle that the arguments name.
-/
import ArchiveRecord.Proofs.Flag.Pass

open ArchiveRecord.Parser (Provider)

namespace ArchiveRecord

/-! ## What is read -/

namespace Parser

variable {σ : Type} {parser : Parser σ}

/-- What a parser reads for arguments: themselves, or the lines of the params file they name. -/
def readings (parser : Parser σ) (arguments : List String) : Except Fault (List Reading) :=
  match arguments with
  | [] => .ok []
  | first :: others =>
    match parser.handle? first with
    | none => .ok (argumentReadings (first :: others))
    | some handle =>
      if others = [] then (parser.provider handle).map (fileReadings handle)
      else .error .mixedReference

theorem readings_unmarked {arguments : List String}
    (h : ∀ first, arguments.head? = some first → parser.handle? first = none) :
    parser.readings arguments = .ok (argumentReadings arguments) := by
  cases arguments with
  | nil => rfl
  | cons first others => rw [readings, h first rfl]

theorem readings_reference (handle : String) :
    parser.readings [parser.marker ++ handle]
      = (parser.provider handle).map (fileReadings handle) := by
  rw [readings, handle?_marker_append]
  exact if_pos rfl

theorem readings_mixed (handle second : String) (others : List String) :
    parser.readings ((parser.marker ++ handle) :: second :: others) = .error .mixedReference := by
  rw [readings, handle?_marker_append]
  exact if_neg (List.cons_ne_nil second others)

/-- What is read depends on the marker, and on the provider at the handle of a lone reference. -/
theorem readings_congr {other : Parser σ} {arguments : List String}
    (hmarker : parser.marker = other.marker)
    (hprovider : ∀ handle, arguments = [parser.marker ++ handle] →
      parser.provider handle = other.provider handle) :
    parser.readings arguments = other.readings arguments := by
  cases arguments_cases parser arguments with
  | unmarked h =>
      rw [readings_unmarked h, readings_unmarked]
      intro first hfirst
      rw [handle?, ← hmarker]
      exact h first hfirst
  | reference handle =>
      rw [readings_reference, hprovider handle rfl, hmarker, readings_reference]
  | mixed handle second others => rw [readings_mixed, hmarker, readings_mixed]

end Parser

/-- What the flags leave, and the fault that stops them, where readings are passed over or cannot be
had. -/
def Flag.passOver : Except Fault (List Reading) → Target → Target × Option Fault
  | .error fault, target => (target, some fault)
  | .ok readings, target => pass none readings target

/-- **A parse with the flags bound is a pass over what is read.** -/
theorem Parser.parseOnce_eq_passOver {state : State Target} (h : state.parser.BindsFlags)
    (tracing : Bool) (nested : List String → State Target → Run Target)
    (arguments : List String) :
    (parseOnce tracing nested arguments state).state.host
        = (Flag.passOver (state.parser.readings arguments) state.host).1
      ∧ (parseOnce tracing nested arguments state).outcome
        = (Flag.passOver (state.parser.readings arguments) state.host).2.elim
            .completed .failed := by
  have hdispatch (readings : List Reading) :
      (dispatch nested none readings state).state.host
          = (Flag.passOver (.ok readings) state.host).1
        ∧ (dispatch nested none readings state).outcome
          = (Flag.passOver (.ok readings) state.host).2.elim .completed .failed := by
    obtain ⟨hstate, houtcome⟩ := dispatch_eq_pass nested h none readings state.host
    exact ⟨congrArg State.host hstate, houtcome⟩
  cases arguments_cases state.parser arguments with
  | unmarked hplain =>
      rw [parseOnce_unmarked hplain, readings_unmarked hplain]
      exact hdispatch _
  | reference handle =>
      rw [readings_reference]
      cases hstream : state.parser.provider handle with
      | ok stream =>
          rw [parseOnce_opened hstream]
          exact hdispatch _
      | error fault =>
          rw [parseOnce_refused hstream]
          exact ⟨rfl, rfl⟩
  | mixed handle second others =>
      rw [parseOnce_mixed, readings_mixed]
      exact ⟨rfl, rfl⟩

/-! ## The run -/

namespace Archive

/-- The run that fills an archive. -/
def fillRun (archive : Archive) (tracing : Bool) (provider : Parser.Provider)
    (arguments : List String) : Parser.Run Target :=
  Parser.parse tracing 1 arguments ⟨Parser.bindFlags { provider }, { archive }⟩

/-- What every value keeps, a filling keeps. -/
theorem fillRun_invariant {P : Target → Prop}
    (step : ∀ (flag : Flag) (value : String) (target next : Target),
      Flag.ofName? value = none → flag.apply value target = .ok next → P target → P next)
    {archive : Archive} (tracing : Bool) (provider : Parser.Provider) (arguments : List String)
    (h : P { archive }) : P (archive.fillRun tracing provider arguments).state.host := by
  rw [fillRun]
  rcases Parser.parse_state_cases tracing 1 arguments
      ⟨Parser.bindFlags { provider }, ({ archive } : Target)⟩ with hstate | ⟨readings, nested, hstate⟩
  · rw [hstate]
    exact h
  · have hpass := (Parser.dispatch_eq_pass nested (Parser.bindsFlags_bindFlags provider) none
      readings { archive }).1
    rw [Option.map_none] at hpass
    rw [hstate, hpass]
    exact Flag.pass_invariant step none readings h

/-- A completed run with an output path gives that path. -/
theorem fill_of_completed {archive filled : Archive} {tracing : Bool} {provider : Parser.Provider}
    {arguments : List String} {output : String}
    (hhost : (archive.fillRun tracing provider arguments).state.host = ⟨filled, some output⟩)
    (houtcome : (archive.fillRun tracing provider arguments).outcome = .completed)
    (hne : output ≠ "") :
    (archive.fill tracing provider arguments).archive = filled
      ∧ (archive.fill tracing provider arguments).result = .ok output := by
  rw [fillRun] at hhost houtcome
  simp [fill, hhost, houtcome, hne]

/-- A filling gives the path of the target, if that is not empty. -/
theorem outputPath_of_result {archive : Archive} {tracing : Bool} {provider : Parser.Provider}
    {arguments : List String} {output : String}
    (h : (archive.fill tracing provider arguments).result = .ok output) :
    (archive.fillRun tracing provider arguments).state.host.outputPath = some output
      ∧ output ≠ "" := by
  unfold fill at h
  dsimp only at h
  -- A fault has no path, and neither has a target without one.
  split at h
  · cases h
  next path hpath _ =>
    split at h
    · cases h
    next hne =>
      obtain rfl := Except.ok.inj h
      exact ⟨hpath, hne⟩
  · cases h

/-- The state that a filling starts from. -/
def fillStart (archive : Archive) (provider : Provider) : Parser.State Target :=
  ⟨Parser.bindFlags { provider }, { archive }⟩

theorem bindsFlags_fillStart (archive : Archive) (provider : Provider) :
    (archive.fillStart provider).parser.BindsFlags :=
  Parser.bindsFlags_bindFlags provider

/-- **A filling depends on what is read alone.** Where two providers agree on the params file that
the arguments name, they fill the archive alike, whether or not traces are wanted. -/
theorem fill_congr (archive : Archive) {provider other : Provider} {arguments : List String}
    (h : ∀ handle, arguments = ["@" ++ handle] → provider handle = other handle)
    (tracing otherTracing : Bool) :
    (archive.fill tracing provider arguments).result
        = (archive.fill otherTracing other arguments).result
      ∧ (archive.fill tracing provider arguments).archive
        = (archive.fill otherTracing other arguments).archive := by
  have hreadings : (archive.fillStart provider).parser.readings arguments
      = (archive.fillStart other).parser.readings arguments :=
    Parser.readings_congr rfl h
  obtain ⟨hhost, houtcome⟩ := Parser.parseOnce_eq_passOver (archive.bindsFlags_fillStart provider)
    tracing (Parser.parse tracing 0) arguments
  obtain ⟨khost, koutcome⟩ := Parser.parseOnce_eq_passOver (archive.bindsFlags_fillStart other)
    otherTracing (Parser.parse otherTracing 0) arguments
  rw [← hreadings] at khost koutcome
  have hsame := hhost.trans khost.symm
  have hends := houtcome.trans koutcome.symm
  rw [← Parser.parse_succ, ← Parser.parse_succ, fillStart, fillStart] at hsame hends
  unfold fill
  simp only [hsame, hends, and_self]

/-- **`Fills archive output tracing provider arguments`** -- the arguments turn the empty archive
into exactly the archive and give the output path. -/
def Fills (archive : Archive) (output : String) (tracing : Bool) (provider : Provider)
    (arguments : List String) : Prop :=
  (empty.fill tracing provider arguments).archive = archive
    ∧ (empty.fill tracing provider arguments).result = .ok output

theorem Fills.congr {archive : Archive} {output : String} {tracing : Bool}
    {provider other : Provider} {arguments : List String}
    (h : archive.Fills output tracing provider arguments)
    (hprovider : ∀ handle, arguments = ["@" ++ handle] → provider handle = other handle)
    (otherTracing : Bool) : archive.Fills output otherTracing other arguments := by
  obtain ⟨hresult, harchive⟩ := fill_congr empty hprovider tracing otherTracing
  exact ⟨harchive.symm.trans h.1, hresult.symm.trans h.2⟩

/-- Where a params file fills an archive, the provider gives it. -/
theorem Fills.provides {archive : Archive} {output handle : String} {tracing : Bool}
    {provider : Provider} (h : archive.Fills output tracing provider ["@" ++ handle]) :
    ∃ stream, provider handle = .ok stream := by
  cases hprovider : provider handle with
  | ok stream => exact ⟨stream, rfl⟩
  | error fault =>
      have hrun : empty.fillRun tracing provider ["@" ++ handle] = _ :=
        Parser.parseOnce_refused hprovider
      have hresult := h.2
      unfold fillRun at hrun
      unfold fill at hresult
      simp only [hrun] at hresult
      cases hresult

/-- Arguments that are the flag of the output path and a path leave the archive empty. -/
theorem fills_outputFile {output : String} (hflag : Flag.ofName? output = none) (hne : output ≠ "")
    (tracing : Bool) (provider : Provider) :
    empty.Fills output tracing provider [Flag.outputFile.name, output] := by
  have hreadings : (empty.fillStart provider).parser.readings [Flag.outputFile.name, output]
      = .ok (argumentReadings [Flag.outputFile.name, output]) := by
    refine Parser.readings_unmarked fun first hfirst => ?_
    obtain rfl := Option.some.inj hfirst
    exact Parser.handle?_eq_none_iff.mpr Flag.outputFile.unmarked_name
  have hpass : Flag.passOver (.ok (argumentReadings [Flag.outputFile.name, output]))
      (empty.fillStart provider).host = (⟨empty, some output⟩, none) := by
    show Flag.pass none [⟨.ok Flag.outputFile.name, .arguments⟩, ⟨.ok output, .arguments⟩] _ = _
    rw [Flag.pass_flag (Flag.ofName?_name .outputFile), Flag.pass_value hflag rfl]
    rfl
  obtain ⟨hhost, houtcome⟩ := Parser.parseOnce_eq_passOver (empty.bindsFlags_fillStart provider)
    tracing (Parser.parse tracing 0) [Flag.outputFile.name, output]
  rw [hreadings, hpass] at hhost houtcome
  exact fill_of_completed hhost houtcome hne

end Archive

end ArchiveRecord
