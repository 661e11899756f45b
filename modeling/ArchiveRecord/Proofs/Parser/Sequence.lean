/- # Proofs.Parser.Sequence -- one parse call and two

Beside the state, a dispatch holds one thing: the callback of the active flag. It is
gone when the call ends. So arguments may be cut in two and parsed by two calls
wherever a flag stands behind the cut, and nowhere else:

* readings are dispatched one part after the other, where the second part starts
  with the flag that the first part leaves active;
* in front of a flag it does not matter which one is active;
* in front of a value it does: the second call has no flag for it, whatever was
  active at the end of the first.

No step of a callback changes the marker, so both calls and the one that they are
cut from agree on which arguments are references.
-/
import ArchiveRecord.Proofs.Parser.Reference

namespace ArchiveRecord.Parser

variable {σ : Type} {nested : List String → State σ → Run σ}

/-! ## The marker -/

/-- **`KeepsMarker run`** -- each run leaves the marker as it finds it. -/
def KeepsMarker (run : State σ → Run σ) : Prop :=
  ∀ state, (run state).state.parser.marker = state.parser.marker

theorem Run.marker_andThen {run : Run σ} {next : State σ → Run σ} (hnext : KeepsMarker next) :
    (run.andThen next).state.parser.marker = run.state.parser.marker := by
  unfold Run.andThen
  split
  · exact hnext run.state
  · rfl

theorem Script.run_keepsMarker (hnested : ∀ arguments, KeepsMarker (nested arguments))
    (script : Script σ) : KeepsMarker (script.run nested) := by
  intro state
  induction script generalizing state with
  | done | fail => rfl
  | note _ _ _ ih | log _ _ ih => exact ih state
  | read next ih => exact ih state.host state
  | write host next ih => exact ih { state with host }
  | register flag callback next _ ih =>
      exact ih { state with parser := state.parser.register flag callback }
  | reserve flag next ih => exact ih { state with parser := state.parser.reserve flag }
  | inspect next ih => exact ih state.parser.flags state
  | provide provider next ih =>
      exact ih { state with parser := state.parser.withProvider provider }
  | parse arguments next ih =>
      have hinner := hnested arguments state
      rw [Script.run]
      cases (nested arguments state).outcome with
      | completed => exact (ih none _).trans hinner
      | failed fault => exact (ih (some fault) _).trans hinner
      | unfinished => exact hinner

theorem dispatch_keepsMarker (hnested : ∀ arguments, KeepsMarker (nested arguments))
    (active : Option (Callback σ)) (readings : List Reading) :
    KeepsMarker (dispatch nested active readings) := by
  intro state
  induction readings generalizing active state with
  | nil => rw [dispatch_nil]; rfl
  | cons reading rest ih =>
      obtain ⟨result, origin⟩ := reading
      cases result with
      | error fault => rw [dispatch_unread]; rfl
      | ok token =>
          cases hflag : state.parser.callback? token with
          | some bound =>
              rw [dispatch_flag hflag]
              exact ih (some bound) state
          | none =>
              cases active with
              | none => rw [dispatch_unexpected hflag]; rfl
              | some callback =>
                  rw [dispatch_value hflag]
                  have hcall := Script.run_keepsMarker hnested (callback token) state
                  exact (Run.marker_andThen (ih (some callback))).trans hcall

/-- **No parse changes the marker.** -/
theorem parse_keepsMarker (tracing : Bool) (depth : Nat) (arguments : List String) :
    KeepsMarker (parse tracing depth arguments : State σ → Run σ) := by
  induction depth generalizing arguments with
  | zero => exact fun _ => rfl
  | succ depth ih =>
      intro state
      rw [parse_succ]
      cases arguments_cases state.parser arguments with
      | unmarked h =>
          rw [parseOnce_unmarked h]
          exact dispatch_keepsMarker ih none _ state
      | reference handle =>
          cases hprovider : state.parser.provider handle with
          | ok stream =>
              rw [parseOnce_opened hprovider]
              exact dispatch_keepsMarker ih none _ state
          | error fault =>
              rw [parseOnce_refused hprovider]
              rfl
      | mixed handle second others =>
          rw [parseOnce_mixed]
          rfl

/-! ## Runs in sequence -/

namespace Run

variable {run : Run σ} {first second : State σ → Run σ} {state : State σ} {fault : Fault}

theorem idle_andThen : (idle state).andThen first = first state := rfl

theorem failed_andThen : (failed state fault).andThen first = failed state fault := rfl

theorem andThen_congr (h : run.outcome = .completed → first run.state = second run.state) :
    run.andThen first = run.andThen second := by
  by_cases hrun : run.outcome = .completed
  · rw [andThen_of_completed hrun, andThen_of_completed hrun, h hrun]
  · rw [andThen_of_not_completed hrun, andThen_of_not_completed hrun]

theorem after_andThen (events : List Event) :
    (run.after events).andThen first = (run.andThen first).after events := by
  obtain ⟨behind, state, outcome⟩ := run
  cases outcome with
  | completed => simp [andThen, after]
  | failed => rfl
  | unfinished => rfl

theorem andThen_andThen :
    (run.andThen first).andThen second = run.andThen fun state => (first state).andThen second := by
  by_cases hrun : run.outcome = .completed
  · rw [andThen_of_completed hrun, andThen_of_completed hrun, after_andThen]
  · rw [andThen_of_not_completed hrun, andThen_of_not_completed hrun, andThen_of_not_completed hrun]

end Run

/-! ## Readings in two parts -/

/-- Behind a flag, a dispatch hands one on. -/
theorem exists_dispatch_append_active (callback : Callback σ) (first : List Reading)
    (state : State σ) :
    ∃ later, ∀ second, dispatch nested (some callback) (first ++ second) state
      = (dispatch nested (some callback) first state).andThen
          (dispatch nested (some later) second) := by
  induction first generalizing callback state with
  | nil =>
      refine ⟨callback, fun second => ?_⟩
      rw [dispatch_nil, Run.idle_andThen, List.nil_append]
  | cons reading rest ih =>
      obtain ⟨result, origin⟩ := reading
      cases result with
      | error fault =>
          refine ⟨callback, fun second => ?_⟩
          rw [List.cons_append, dispatch_unread, dispatch_unread, Run.failed_andThen]
      | ok token =>
          cases hflag : state.parser.callback? token with
          | some bound =>
              obtain ⟨later, hlater⟩ := ih bound state
              refine ⟨later, fun second => ?_⟩
              rw [List.cons_append, dispatch_flag hflag, dispatch_flag hflag, hlater]
          | none =>
              -- The flag handed on is that of the rest, in the state that the call leaves.
              obtain ⟨later, hlater⟩ := ih callback ((callback token).run nested state).state
              refine ⟨later, fun second => ?_⟩
              rw [List.cons_append, dispatch_value hflag, dispatch_value hflag,
                Run.andThen_andThen]
              exact Run.andThen_congr fun _ => hlater second

/-- **Readings may be dispatched in two parts.** The first part hands a flag on, unless it is empty;
where it fails, the second part is not dispatched. -/
theorem exists_dispatch_append (nested : List String → State σ → Run σ) {first : List Reading}
    (hne : first ≠ []) (state : State σ) :
    ∃ later, ∀ second, dispatch nested none (first ++ second) state
      = (dispatch nested none first state).andThen (dispatch nested (some later) second) := by
  obtain ⟨⟨result, origin⟩, rest, rfl⟩ := List.exists_cons_of_ne_nil hne
  cases result with
  | error fault =>
      -- The second part is not dispatched, so any callback may stand for the one handed on.
      refine ⟨fun _ => .done, fun second => ?_⟩
      rw [List.cons_append, dispatch_unread, dispatch_unread, Run.failed_andThen]
  | ok token =>
      cases hflag : state.parser.callback? token with
      | some bound =>
          obtain ⟨later, hlater⟩ := exists_dispatch_append_active bound rest state
          refine ⟨later, fun second => ?_⟩
          rw [List.cons_append, dispatch_flag hflag, dispatch_flag hflag, hlater]
      | none =>
          refine ⟨fun _ => .done, fun second => ?_⟩
          rw [List.cons_append, dispatch_unexpected hflag, dispatch_unexpected hflag,
            Run.failed_andThen]

section Arguments

variable {state : State σ} {first second arguments : List String}

theorem argumentReadings_append :
    argumentReadings (first ++ second) = argumentReadings first ++ argumentReadings second :=
  List.map_append

/-- In front of a flag it does not count which one is active. -/
theorem dispatch_of_flag {active other : Option (Callback σ)}
    (h : ∀ token, arguments.head? = some token → state.parser.callback? token ≠ none) :
    dispatch nested active (argumentReadings arguments) state
      = dispatch nested other (argumentReadings arguments) state := by
  cases arguments with
  | nil => exact dispatch_nil.trans dispatch_nil.symm
  | cons token rest =>
      obtain ⟨callback, hcallback⟩ := Option.ne_none_iff_exists'.mp (h token rfl)
      rw [argumentReadings, List.map_cons, dispatch_flag hcallback, dispatch_flag hcallback]

/-- **A cut in front of a flag does not count.** -/
theorem dispatch_append_of_flag
    (h : (dispatch nested none (argumentReadings first) state).outcome = .completed →
      ∀ token, second.head? = some token →
        (dispatch nested none (argumentReadings first) state).state.parser.callback? token ≠ none) :
    dispatch nested none (argumentReadings (first ++ second)) state
      = (dispatch nested none (argumentReadings first) state).andThen
          (dispatch nested none (argumentReadings second)) := by
  rw [argumentReadings_append]
  cases first with
  | nil =>
      show dispatch nested none (argumentReadings second) state = Run.andThen (dispatch _ _ [] _) _
      rw [dispatch_nil, Run.idle_andThen]
  | cons token rest =>
      have hne : argumentReadings (token :: rest) ≠ [] := List.cons_ne_nil _ _
      obtain ⟨later, hlater⟩ := exists_dispatch_append nested hne state
      rw [hlater]
      exact Run.andThen_congr fun hcompleted => dispatch_of_flag (h hcompleted)

end Arguments

/-! ## Calls in a row -/

/-- The first arguments of both parts are no references. -/
theorem unmarked_append {first second : List String} (marker : String)
    (hfirst : ∀ token, first.head? = some token → ¬ marker.toList <+: token.toList)
    (hsecond : ∀ token, second.head? = some token → ¬ marker.toList <+: token.toList) :
    ∀ token, (first ++ second).head? = some token → ¬ marker.toList <+: token.toList := by
  cases first with
  | nil => exact hsecond
  | cons head rest => exact hfirst

/-- **Only the effects of callbacks outlast a parse call.** Arguments that start without the marker
may be cut in front of a flag and parsed by two calls, the second from the state that the first
leaves: what happens, the state left and the end are the same, and where the first call does not
complete there is no second one. Where the second part starts with no flag, its call refuses that
token at once, whichever flag was active when the first call ended. -/
theorem parse_append (tracing : Bool) (depth : Nat) (start : State σ) (first second : List String)
    (hfirst : ∀ token, first.head? = some token →
      ¬ start.parser.marker.toList <+: token.toList)
    (hsecond : ∀ token, second.head? = some token →
      ¬ start.parser.marker.toList <+: token.toList) :
    let front := parse tracing depth first start
    ((front.outcome = .completed → ∀ token, second.head? = some token →
          front.state.parser.callback? token ≠ none) →
        parse tracing depth (first ++ second) start
          = front.andThen (parse tracing depth second))
      ∧ (front.outcome = .completed → ∀ token, second.head? = some token →
          front.state.parser.callback? token = none →
          parse tracing depth second front.state
            = .failed front.state (.unexpectedFlag token .arguments)) := by
  cases depth with
  | zero => exact ⟨fun _ => rfl, nofun⟩
  | succ depth =>
      intro front
      have hmarker : front.state.parser.marker = start.parser.marker :=
        parse_keepsMarker tracing (depth + 1) first start
      have hfront : front = dispatch (parse tracing depth) none (argumentReadings first) start :=
        parse_of_unmarked hfirst
      have hback : parse tracing (depth + 1) second front.state
          = dispatch (parse tracing depth) none (argumentReadings second) front.state :=
        parse_of_unmarked (hmarker ▸ hsecond)
      -- Three dispatches without an active flag: of the first part, of the second, and of both.
      constructor
      · intro hflag
        rw [parse_of_unmarked (unmarked_append _ hfirst hsecond),
          dispatch_append_of_flag (hfront ▸ hflag), ← hfront]
        exact Run.andThen_congr fun _ => hback.symm
      · intro _ token htoken hvalue
        rw [hback]
        exact dispatch_argumentReadings_of_value htoken hvalue

/-- A parser with one flag, which notes its value and binds a second one. -/
def bindingParser : Parser Unit where
  registry := OrderedMap.insert ∅ "--a" (some fun value =>
    .note "--a" value (.register "--b" (fun value => .note "--b" value .done) .done))
  provider handle := .error (.refused .missing handle)

/-- The second call knows the flag that the first one bound, and not the one that was active. -/
theorem parse_append_binding :
    (∀ token, ["--a", "x"].head? = some token → ¬ "@".toList <+: token.toList)
      ∧ (∀ token, ["--b", "y"].head? = some token → ¬ "@".toList <+: token.toList)
      ∧ (parse false 1 ["--a", "x"] ⟨bindingParser, ()⟩).outcome = .completed
      ∧ (parse false 1 ["--a", "x", "--b", "y"] ⟨bindingParser, ()⟩).events
          = [.noted "--a" "x", .noted "--b" "y"]
      ∧ (parse false 1 ["y"] (parse false 1 ["--a", "x"] ⟨bindingParser, ()⟩).state).events
          = [.raised (.unexpectedFlag "y" .arguments)] := by
  have hfirst : ∀ token, ["--a", "x"].head? = some token → ¬ "@".toList <+: token.toList := by
    intro token htoken
    obtain rfl : "--a" = token := Option.some.inj htoken
    decide
  have hsecond : ∀ token, ["--b", "y"].head? = some token → ¬ "@".toList <+: token.toList := by
    intro token htoken
    obtain rfl : "--b" = token := Option.some.inj htoken
    decide
  have hvalue : ∀ token, ["y"].head? = some token → ¬ "@".toList <+: token.toList := by
    intro token htoken
    obtain rfl : "y" = token := Option.some.inj htoken
    decide
  refine ⟨hfirst, hsecond, rfl, ?_, ?_⟩
  · have hflag := (parse_append false 1 ⟨bindingParser, ()⟩ ["--a", "x"] ["--b", "y"] hfirst
      hsecond).1 fun _ token htoken => by
        obtain rfl : "--b" = token := Option.some.inj htoken
        exact Option.some_ne_none _
    exact (congrArg Run.events hflag).trans rfl
  · have hrefused := (parse_append false 1 ⟨bindingParser, ()⟩ ["--a", "x"] ["y"] hfirst
      hvalue).2 rfl "y" rfl rfl
    exact congrArg Run.events hrefused

end ArchiveRecord.Parser
