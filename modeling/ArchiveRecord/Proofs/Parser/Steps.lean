/- # Proofs.Parser.Steps -- what parsing does with one reading, one argument, one reference

One equation for each branch of `dispatch`, `readParams` and `parse`. Everything
that is proved about runs rests on these and does not open the definitions.
-/
import ArchiveRecord.Parser.Dispatch

namespace ArchiveRecord.Parser

variable {σ : Type} {nested : List String → State σ → Run σ}

/-! ## Runs in sequence -/

theorem Run.andThen_of_completed {run : Run σ} {next : State σ → Run σ}
    (h : run.outcome = .completed) : run.andThen next = (next run.state).after run.events := by
  simp [Run.andThen, h]

theorem Run.andThen_of_not_completed {run : Run σ} {next : State σ → Run σ}
    (h : run.outcome ≠ .completed) : run.andThen next = run := by
  unfold Run.andThen
  split
  · contradiction
  · rfl

/-! ## One reading -/

variable {active : Option (Callback σ)} {rest : List Reading} {state : State σ} {token : String}
  {origin : Origin}

theorem dispatch_nil : dispatch nested active [] state = .idle state := by
  rw [dispatch]

theorem dispatch_unread {fault : Fault} :
    dispatch nested active (⟨.error fault, origin⟩ :: rest) state = .failed state fault := by
  rw [dispatch]

theorem dispatch_flag {callback : Callback σ} (h : state.parser.callback? token = some callback) :
    dispatch nested active (⟨.ok token, origin⟩ :: rest) state
      = dispatch nested (some callback) rest state := by
  simp [dispatch, h]

theorem dispatch_value {callback : Callback σ} (h : state.parser.callback? token = none) :
    dispatch nested (some callback) (⟨.ok token, origin⟩ :: rest) state
      = ((callback token).run nested state).andThen (dispatch nested (some callback) rest) := by
  simp [dispatch, h]

theorem dispatch_unexpected (h : state.parser.callback? token = none) :
    dispatch nested none (⟨.ok token, origin⟩ :: rest) state
      = .failed state (.unexpectedFlag token origin) := by
  simp [dispatch, h]

/-! ## One parse call -/

theorem handle?_eq_none_iff {parser : Parser σ} {argument : String} :
    parser.handle? argument = none ↔ ¬ parser.marker.toList <+: argument.toList := by
  simp [handle?]

/-- The handle is what stands behind the marker. -/
theorem handle?_marker_append (parser : Parser σ) (handle : String) :
    parser.handle? (parser.marker ++ handle) = some handle := by
  simp [handle?]

/-- An argument with a handle is the marker and the handle. -/
theorem eq_marker_append_of_handle? {parser : Parser σ} {argument handle : String}
    (h : parser.handle? argument = some handle) : argument = parser.marker ++ handle := by
  unfold handle? at h
  split at h
  next hmarked =>
    obtain ⟨rest, hrest⟩ := hmarked
    obtain rfl := Option.some.inj h
    apply String.toList_inj.mp
    rw [String.toList_append, String.toList_ofList, ← hrest, List.drop_left]
  next => cases h

/-- Arguments are tokens, or name one params file, or mix a reference with others. -/
inductive Arguments (parser : Parser σ) : List String → Prop
  | unmarked {arguments : List String}
      (h : ∀ first, arguments.head? = some first → parser.handle? first = none) :
      Arguments parser arguments
  | reference (handle : String) : Arguments parser [parser.marker ++ handle]
  | mixed (handle second : String) (others : List String) :
      Arguments parser ((parser.marker ++ handle) :: second :: others)

theorem arguments_cases (parser : Parser σ) (arguments : List String) :
    Arguments parser arguments := by
  cases arguments with
  | nil => exact .unmarked (by simp)
  | cons first others =>
      cases hhandle : parser.handle? first with
      | none => exact .unmarked (by simp [hhandle])
      | some handle =>
          obtain rfl := eq_marker_append_of_handle? hhandle
          cases others with
          | nil => exact .reference handle
          | cons second others => exact .mixed handle second others

/-- The log event in front of an opening. -/
def tracingEvents (tracing : Bool) (handle : String) : List Event :=
  if tracing then [.logged (openingCall handle)] else []

/-- The events in front of the dispatch of a params file. -/
def openingEvents (tracing : Bool) (handle : String) : List Event :=
  (if tracing then [Event.logged (openingCall handle)] else []) ++ [.opened handle]

/-- The readings of the params file of a handle. -/
def fileReadings (handle : String) (stream : Stream) : List Reading :=
  lineReadings (some (Path.ofString handle)) .utf8 0 stream

theorem origin_of_head?_fileReadings {handle : String} {stream : Stream} {reading : Reading}
    (h : (fileReadings handle stream).head? = some reading) :
    reading.origin = ⟨some (.ofString handle), some 1⟩ := by
  cases stream with
  | nil => simp [fileReadings, lineReadings] at h
  | cons =>
      rw [fileReadings, lineReadings, List.head?_cons, Option.some.injEq] at h
      rw [← h]
      rfl

/-- One parse call, where `nested` carries out the parses that callbacks ask for. -/
def parseOnce (tracing : Bool) (nested : List String → State σ → Run σ) (arguments : List String)
    (state : State σ) : Run σ :=
  match arguments with
  | [] => .idle state
  | first :: others =>
    match state.parser.handle? first with
    | none => dispatch nested none (argumentReadings (first :: others)) state
    | some handle =>
      if others = [] then readParams tracing handle (dispatch nested none) state
      else .failed state .mixedReference

theorem parse_succ (tracing : Bool) (depth : Nat) (arguments : List String) (state : State σ) :
    parse tracing (depth + 1) arguments state
      = parseOnce tracing (parse tracing depth) arguments state := by
  cases arguments <;> rfl

section Call

variable {tracing : Bool}

/-- Arguments that start without the marker are the tokens themselves. -/
theorem parseOnce_unmarked {arguments : List String}
    (h : ∀ first, arguments.head? = some first → state.parser.handle? first = none) :
    parseOnce tracing nested arguments state
      = dispatch nested none (argumentReadings arguments) state := by
  cases arguments with
  | nil => rw [parseOnce, argumentReadings, List.map_nil, dispatch_nil]
  | cons first others => rw [parseOnce, h first rfl]

/-- A lone reference is the dispatch of the file's lines, between its opening and its closing. -/
theorem parseOnce_opened {handle : String} {stream : Stream}
    (h : state.parser.provider handle = .ok stream) :
    parseOnce tracing nested [state.parser.marker ++ handle] state
      = ((dispatch nested none (fileReadings handle stream) state).before
          [.closed handle]).after (openingEvents tracing handle) := by
  rw [parseOnce, handle?_marker_append]
  simp [readParams, h, openingEvents, fileReadings]

/-- Where the provider refuses the handle, its fault is the call's. -/
theorem parseOnce_refused {handle : String} {fault : Fault}
    (h : state.parser.provider handle = .error fault) :
    parseOnce tracing nested [state.parser.marker ++ handle] state
      = (Run.failed state fault).after (tracingEvents tracing handle ++ [.refused handle]) := by
  rw [parseOnce, handle?_marker_append]
  simp [readParams, h, tracingEvents]

theorem parseOnce_mixed (handle second : String) (others : List String) :
    parseOnce tracing nested ((state.parser.marker ++ handle) :: second :: others) state
      = .failed state .mixedReference := by
  rw [parseOnce, handle?_marker_append]
  simp

end Call

/-! ## Parses -/

theorem parse_of_unmarked {tracing : Bool} {depth : Nat} {arguments : List String}
    (h : ∀ first, arguments.head? = some first → ¬ state.parser.marker.toList <+: first.toList) :
    parse tracing (depth + 1) arguments state
      = dispatch (parse tracing depth) none (argumentReadings arguments) state := by
  rw [parse_succ]
  exact parseOnce_unmarked fun first hfirst => handle?_eq_none_iff.mpr (h first hfirst)

theorem parse_reference {tracing : Bool} {depth : Nat} {handle : String} {stream : Stream}
    (h : state.parser.provider handle = .ok stream) :
    parse tracing (depth + 1) [state.parser.marker ++ handle] state
      = ((dispatch (parse tracing depth) none (fileReadings handle stream) state).before
          [.closed handle]).after (openingEvents tracing handle) := by
  rw [parse_succ]
  exact parseOnce_opened h

/-- A parse leaves the state alone or leaves it as a dispatch of some readings does. -/
theorem parse_state_cases (tracing : Bool) (depth : Nat) (arguments : List String)
    (state : State σ) :
    (parse tracing depth arguments state).state = state
      ∨ ∃ readings nested, (parse tracing depth arguments state).state
          = (dispatch nested none readings state).state := by
  cases depth with
  | zero => exact .inl rfl
  | succ depth =>
      rw [parse_succ]
      cases arguments_cases state.parser arguments with
      | unmarked h =>
          rw [parseOnce_unmarked h]
          exact .inr ⟨_, _, rfl⟩
      | reference handle =>
          cases hprovider : state.parser.provider handle with
          | ok stream =>
              rw [parseOnce_opened hprovider]
              exact .inr ⟨_, _, rfl⟩
          | error fault =>
              rw [parseOnce_refused hprovider]
              exact .inl rfl
      | mixed handle second others =>
          rw [parseOnce_mixed]
          exact .inl rfl

end ArchiveRecord.Parser
