/- # Proofs.Parser.Release -- streams are closed, and nothing runs behind a fault

Every parse is disciplined, to any depth: one call is, if the parses in it are.

What a call does with streams *by itself* is told from what its callbacks have done
by leaving the streams of the parses in it out: `parseAlone` is the same call without
their events. Only a lone reference leaves anything there, and only its own handle.
-/
import ArchiveRecord.Proofs.Parser.Discipline

namespace ArchiveRecord.Parser

variable {σ : Type} {tracing : Bool} {nested : List String → State σ → Run σ} {state : State σ}

/-! ## Every parse is disciplined -/

/-- **One parse call is disciplined**, if the parses in it are. -/
theorem parseOnce_disciplined
    (hnested : ∀ arguments state, (nested arguments state).Disciplined state.PassesOn)
    (arguments : List String) :
    (parseOnce tracing nested arguments state).Disciplined state.PassesOn := by
  have hdispatch (readings : List Reading) :
      (dispatch nested none readings state).Disciplined state.PassesOn := by
    refine (dispatch_disciplined hnested none readings state).mono ?_
    intro hstate
    exact ⟨hstate, by simp⟩
  cases arguments_cases state.parser arguments with
  | unmarked h =>
      rw [parseOnce_unmarked h]
      exact hdispatch _
  | reference handle =>
      cases hprovider : state.parser.provider handle with
      | ok stream =>
          rw [parseOnce_opened hprovider]
          exact (hdispatch _).between tracing handle
      | error fault =>
          rw [parseOnce_refused hprovider]
          refine (Run.Disciplined.failed id fault).after ?_
          cases tracing <;> simp [tracingEvents, Event.isBracket, Event.isRaised]
  | mixed handle second others =>
      rw [parseOnce_mixed]
      exact .failed id _

/-- **Every parse is disciplined**, to any depth. -/
theorem parse_disciplined (tracing : Bool) (depth : Nat) (arguments : List String)
    (state : State σ) : (parse tracing depth arguments state).Disciplined state.PassesOn := by
  induction depth generalizing arguments state with
  | zero =>
      rw [parse]
      exact .still id (by simp)
  | succ depth ih =>
      rw [parse_succ]
      exact parseOnce_disciplined ih arguments

/-! ## The streams of a call itself -/

/-- The event belongs to a stream. -/
def Event.isStream : Event → Bool
  | .opened _ | .refused _ | .closed _ => true
  | _ => false

/-- The events of a run that belong to streams. -/
def Run.streams (run : Run σ) : List Event := run.events.filter Event.isStream

/-- The run without the events that belong to streams. -/
def Run.hushed (run : Run σ) : Run σ :=
  { run with events := run.events.filter fun event => !event.isStream }

/-- The same parses, without the events that belong to streams. -/
def hush (nested : List String → State σ → Run σ) : List String → State σ → Run σ :=
  fun arguments state => (nested arguments state).hushed

namespace Run

variable {run : Run σ} {events : List Event}

theorem hushed_after (h : ∀ event ∈ events, event.isStream = false) :
    (run.after events).hushed = run.hushed.after events := by
  have hkept : events.filter (fun event => !event.isStream) = events := by
    rw [List.filter_eq_self]
    intro event hevent
    rw [h event hevent, Bool.not_false]
  rw [hushed, after, List.filter_append, hkept]
  rfl

theorem hushed_after_events {first : Run σ} :
    (run.after first.events).hushed = run.hushed.after first.hushed.events := by
  rw [hushed, after, List.filter_append]
  rfl

/-- The streams of a run that has two parts are those of the parts. -/
theorem streams_between {front back : List Event} :
    ((run.before back).after front).streams
      = front.filter Event.isStream ++ run.streams ++ back.filter Event.isStream := by
  rw [streams, after, before, List.filter_append, List.filter_append, List.append_assoc]
  rfl

theorem hushed_between {front back : List Event} :
    ((run.before back).after front).hushed
      = (run.hushed.before (back.filter fun event => !event.isStream)).after
          (front.filter fun event => !event.isStream) := by
  rw [hushed, after, before, List.filter_append, List.filter_append]
  rfl

theorem hushed_hushed : run.hushed.hushed = run.hushed := by
  rw [hushed, hushed, List.filter_filter]
  simp only [Bool.and_self]

theorem streams_hushed : run.hushed.streams = [] := by
  rw [streams, List.filter_eq_nil_iff]
  intro event hevent
  have hstream := (List.mem_filter.mp hevent).2
  simpa using hstream

end Run

/-- A script does nothing with streams: without those of the parses in it none are left. -/
theorem Script.run_hush (script : Script σ) (state : State σ) :
    script.run (hush nested) state = (script.run nested state).hushed := by
  induction script generalizing state with
  | done => rfl
  | fail => rfl
  | note name value next ih =>
      rw [Script.run, Script.run, ih, Run.hushed_after (by simp [Event.isStream])]
  | log call next ih =>
      rw [Script.run, Script.run, ih, Run.hushed_after (by simp [Event.isStream])]
  | read next ih => exact ih state.host state
  | write host next ih => exact ih _
  | register flag callback next _ ih => exact ih _
  | reserve flag next ih => exact ih _
  | inspect next ih => exact ih state.parser.flags state
  | provide provider next ih => exact ih _
  | parse arguments next ih =>
      have houtcome : (hush nested arguments state).outcome = (nested arguments state).outcome := rfl
      rw [Script.run, Script.run, houtcome]
      cases (nested arguments state).outcome with
      | completed =>
          show ((next none).run (hush nested) _).after _ = _
          rw [ih none, Run.hushed_after_events]
          rfl
      | failed fault =>
          show ((next (some fault)).run (hush nested) _).after _ = _
          rw [ih (some fault), Run.hushed_after_events]
          rfl
      | unfinished => rfl

/-- Nor does a dispatch. -/
theorem dispatch_hush (active : Option (Callback σ)) (readings : List Reading) (state : State σ) :
    dispatch (hush nested) active readings state = (dispatch nested active readings state).hushed := by
  induction readings generalizing active state with
  | nil =>
      rw [dispatch_nil, dispatch_nil]
      rfl
  | cons reading rest ih =>
      obtain ⟨result, origin⟩ := reading
      cases result with
      | error fault =>
          rw [dispatch_unread, dispatch_unread]
          rfl
      | ok token =>
          cases hflag : state.parser.callback? token with
          | some bound => rw [dispatch_flag hflag, dispatch_flag hflag, ih]
          | none =>
              cases active with
              | none =>
                  rw [dispatch_unexpected hflag, dispatch_unexpected hflag]
                  rfl
              | some callback =>
                  rw [dispatch_value hflag, dispatch_value hflag, Script.run_hush]
                  by_cases houtcome : ((callback token).run nested state).outcome = .completed
                  · have hhushed : ((callback token).run nested state).hushed.outcome
                        = .completed := houtcome
                    rw [Run.andThen_of_completed houtcome, Run.andThen_of_completed hhushed,
                      Run.hushed_after_events, ih]
                    rfl
                  · have hhushed : ((callback token).run nested state).hushed.outcome
                        ≠ .completed := houtcome
                    rw [Run.andThen_of_not_completed houtcome,
                      Run.andThen_of_not_completed hhushed]

/-- One parse call, less what the parses in it do with streams. -/
def parseAlone (tracing : Bool) (depth : Nat) (arguments : List String) (state : State σ) :
    Run σ :=
  parseOnce tracing (hush (parse tracing depth)) arguments state

section Alone

variable {depth : Nat}

/-- It is the same call. -/
theorem hushed_parseAlone (arguments : List String) :
    (parseAlone tracing depth arguments state).hushed
      = (parse tracing (depth + 1) arguments state).hushed := by
  rw [parse_succ, parseAlone]
  cases arguments_cases state.parser arguments with
  | unmarked h =>
      rw [parseOnce_unmarked h, parseOnce_unmarked h, dispatch_hush, Run.hushed_hushed]
  | reference handle =>
      cases hprovider : state.parser.provider handle with
      | ok stream =>
          rw [parseOnce_opened hprovider, parseOnce_opened hprovider, dispatch_hush,
            Run.hushed_between, Run.hushed_between, Run.hushed_hushed]
      | error fault => rw [parseOnce_refused hprovider, parseOnce_refused hprovider]
  | mixed handle second others => rw [parseOnce_mixed, parseOnce_mixed]

theorem streams_parseAlone_reference (handle : String) :
    (parseAlone tracing depth [state.parser.marker ++ handle] state).streams
      = match state.parser.provider handle with
        | .ok _ => [.opened handle, .closed handle]
        | .error _ => [.refused handle] := by
  rw [parseAlone]
  cases hprovider : state.parser.provider handle with
  | ok stream =>
      rw [parseOnce_opened hprovider, dispatch_hush, Run.streams_between, Run.streams_hushed]
      cases tracing <;> rfl
  | error fault =>
      rw [parseOnce_refused hprovider]
      cases tracing <;> rfl

/-- A call does something with streams exactly where its one argument is a reference. -/
theorem streams_parseAlone_ne_nil_iff (arguments : List String) :
    (parseAlone tracing depth arguments state).streams ≠ []
      ↔ ∃ handle, arguments = [state.parser.marker ++ handle] := by
  constructor
  · intro hstreams
    cases arguments_cases state.parser arguments with
    | unmarked h =>
        rw [parseAlone, parseOnce_unmarked h, dispatch_hush, Run.streams_hushed] at hstreams
        exact absurd rfl hstreams
    | reference handle => exact ⟨handle, rfl⟩
    | mixed handle second others =>
        rw [parseAlone, parseOnce_mixed] at hstreams
        exact absurd rfl hstreams
  · rintro ⟨handle, rfl⟩
    rw [streams_parseAlone_reference]
    cases state.parser.provider handle <;> simp

end Alone

/-! ## What a parse does with streams -/

/-- **Streams are opened and released as brackets, and nothing runs behind a fault.** The events of
every parse are bracketed. The fault that it ends with is raised, and only closings follow; where no
callback holds a fault back, it is the first one that is raised. A params file is parsed between its
opening and its closing. A handle that the provider refuses is not closed, and its fault is the
call's; so is the fault of arguments behind a reference. By itself, a call does something with
streams exactly where its one argument is the marker and a handle, and only with that handle. -/
theorem parse_releases (tracing : Bool) (start : State σ) :
    (∀ depth arguments, Bracketed (parse tracing depth arguments start).events)
    ∧ (∀ depth arguments fault,
        (parse tracing depth arguments start).outcome = .failed fault →
          EndsIn fault (parse tracing depth arguments start).events
          ∧ (start.PassesOn → StopsAt fault (parse tracing depth arguments start).events))
    ∧ (∀ depth handle stream, start.parser.provider handle = .ok stream →
        Bracketed (dispatch (parse tracing depth) none (fileReadings handle stream) start).events
          ∧ parse tracing (depth + 1) [start.parser.marker ++ handle] start
            = ((dispatch (parse tracing depth) none (fileReadings handle stream) start).before
                [.closed handle]).after (tracingEvents tracing handle ++ [.opened handle]))
    ∧ (∀ depth handle fault, start.parser.provider handle = .error fault →
        parse tracing (depth + 1) [start.parser.marker ++ handle] start
          = ⟨tracingEvents tracing handle ++ [.refused handle, .raised fault], start,
              .failed fault⟩)
    ∧ (∀ depth handle second others,
        parse tracing (depth + 1) ((start.parser.marker ++ handle) :: second :: others) start
          = ⟨[.raised .mixedReference], start, .failed .mixedReference⟩)
    ∧ ∀ depth arguments,
        (parseAlone tracing depth arguments start).hushed
            = (parse tracing (depth + 1) arguments start).hushed
          ∧ ((parseAlone tracing depth arguments start).streams ≠ []
              ↔ ∃ handle, arguments = [start.parser.marker ++ handle])
          ∧ ∀ handle, arguments = [start.parser.marker ++ handle] →
              (parseAlone tracing depth arguments start).streams
                = match start.parser.provider handle with
                  | .ok _ => [.opened handle, .closed handle]
                  | .error _ => [.refused handle] := by
  refine ⟨?bracketed, ?ends, ?inside, ?refused, ?mixed, ?alone⟩
  case bracketed =>
    intro depth arguments
    exact (parse_disciplined tracing depth arguments start).bracketed
  case ends =>
    intro depth arguments fault hfault
    have hrun := parse_disciplined tracing depth arguments start
    exact ⟨hrun.ends fault hfault, fun hpassing => hrun.stops hpassing fault hfault⟩
  case inside =>
    intro depth handle stream hprovider
    have hinner := dispatch_disciplined (parse_disciplined tracing depth) none
      (fileReadings handle stream) start
    exact ⟨hinner.bracketed, parse_reference hprovider⟩
  case refused =>
    intro depth handle fault hprovider
    rw [parse_succ, parseOnce_refused hprovider, Run.after, List.append_assoc]
    rfl
  case mixed =>
    intro depth handle second others
    rw [parse_succ, parseOnce_mixed, Run.failed]
  case alone =>
    intro depth arguments
    refine ⟨hushed_parseAlone arguments, streams_parseAlone_ne_nil_iff arguments, ?_⟩
    rintro handle rfl
    exact streams_parseAlone_reference handle

end ArchiveRecord.Parser
