/- # Proofs.Parser.Announcing -- a parse and what it tells its logger

A parser makes one log call itself: it announces a params file that it is about to
open. Whether it does, and what arrives, depends on the trace switch and on the
logger that it was given. `parseTelling` is a parse with any announcement in the
place of that call, and a parse is the case of the logger of the parser's own name.

An announcement has no influence. Runs that differ in log calls only stay so,
whatever is put in front of them or behind them, through every script and every
dispatch, and so to any depth of parses inside one another.
-/
import ArchiveRecord.Proofs.Parser.Steps

namespace ArchiveRecord.Parser

variable {σ : Type}

/-! ## Runs without their log calls -/

/-- The event is no log call. -/
def Event.isUnlogged : Event → Bool
  | .logged _ => false
  | _ => true

/-- The run without its log calls. -/
def Run.unlogged (run : Run σ) : Run σ :=
  { run with events := run.events.filter Event.isUnlogged }

namespace Run

variable {run other : Run σ} {events otherEvents : List Event}

theorem unlogged_eq_iff : run.unlogged = other.unlogged
    ↔ run.events.filter Event.isUnlogged = other.events.filter Event.isUnlogged
      ∧ run.state = other.state ∧ run.outcome = other.outcome := by
  rw [unlogged, unlogged, Run.mk.injEq]

theorem unlogged_after :
    (run.after events).unlogged = run.unlogged.after (events.filter Event.isUnlogged) := by
  rw [unlogged, after, List.filter_append]
  rfl

theorem unlogged_before :
    (run.before events).unlogged = run.unlogged.before (events.filter Event.isUnlogged) := by
  rw [unlogged, before, List.filter_append]
  rfl

/-- Events that differ in log calls only may be put in front of runs that do. -/
theorem unlogged_after_congr (h : run.unlogged = other.unlogged)
    (hevents : events.filter Event.isUnlogged = otherEvents.filter Event.isUnlogged) :
    (run.after events).unlogged = (other.after otherEvents).unlogged := by
  rw [unlogged_after, unlogged_after, h, hevents]

/-- Runs that differ in log calls only go on alike. -/
theorem unlogged_andThen_congr (h : run.unlogged = other.unlogged)
    {next otherNext : State σ → Run σ}
    (hnext : ∀ state, (next state).unlogged = (otherNext state).unlogged) :
    (run.andThen next).unlogged = (other.andThen otherNext).unlogged := by
  obtain ⟨hevents, hstate, houtcome⟩ := unlogged_eq_iff.mp h
  by_cases hcompleted : run.outcome = .completed
  · have hother : other.outcome = .completed := houtcome.symm.trans hcompleted
    rw [andThen_of_completed hcompleted, andThen_of_completed hother, hstate]
    exact unlogged_after_congr (hnext other.state) hevents
  · have hother : other.outcome ≠ .completed := houtcome ▸ hcompleted
    rw [andThen_of_not_completed hcompleted, andThen_of_not_completed hother, h]

end Run

/-! ## Scripts and dispatches -/

section Congruence

variable {nested otherNested : List String → State σ → Run σ}

/-- Log calls of the parses in a script have no influence on what it does. -/
theorem Script.run_unlogged_congr
    (h : ∀ arguments state,
      (nested arguments state).unlogged = (otherNested arguments state).unlogged)
    (script : Script σ) (state : State σ) :
    (script.run nested state).unlogged = (script.run otherNested state).unlogged := by
  induction script generalizing state with
  | done => rfl
  | fail => rfl
  | note name value next ih => exact Run.unlogged_after_congr (ih state) rfl
  | log call next ih => exact Run.unlogged_after_congr (ih state) rfl
  | read next ih => exact ih state.host state
  | write host next ih => exact ih _
  | register flag callback next _ ih => exact ih _
  | reserve flag next ih => exact ih _
  | inspect next ih => exact ih state.parser.flags state
  | provide provider next ih => exact ih _
  | parse arguments next ih =>
      obtain ⟨hevents, hstate, houtcome⟩ := Run.unlogged_eq_iff.mp (h arguments state)
      rw [Script.run, Script.run, hstate, houtcome]
      -- Both parses end alike, so that the script goes on alike.
      cases (otherNested arguments state).outcome with
      | completed => exact Run.unlogged_after_congr (ih none _) hevents
      | failed fault => exact Run.unlogged_after_congr (ih (some fault) _) hevents
      | unfinished => exact h arguments state

/-- Nor have they on what a dispatch does. -/
theorem dispatch_unlogged_congr
    (h : ∀ arguments state,
      (nested arguments state).unlogged = (otherNested arguments state).unlogged)
    (active : Option (Callback σ)) (readings : List Reading) (state : State σ) :
    (dispatch nested active readings state).unlogged
      = (dispatch otherNested active readings state).unlogged := by
  induction readings generalizing active state with
  | nil => rw [dispatch_nil, dispatch_nil]
  | cons reading rest ih =>
      obtain ⟨result, origin⟩ := reading
      cases result with
      | error fault => rw [dispatch_unread, dispatch_unread]
      | ok token =>
          cases hflag : state.parser.callback? token with
          | some bound => rw [dispatch_flag hflag, dispatch_flag hflag, ih]
          | none =>
              cases active with
              | none => rw [dispatch_unexpected hflag, dispatch_unexpected hflag]
              | some callback =>
                  rw [dispatch_value hflag, dispatch_value hflag]
                  have hcall := Script.run_unlogged_congr h (callback token) state
                  exact Run.unlogged_andThen_congr hcall (ih (some callback))

end Congruence

/-! ## Announcements -/

/-- The log calls with which a parser announces, in a state, that it opens a handle. The state
covers trace switches that callbacks turn. -/
abbrev Announcement (σ : Type) := State σ → String → List Log.Call

/-- The announcement through the logger of the parser's own name. -/
def Announcement.ofSwitch (tracing : Bool) : Announcement σ :=
  fun _ handle => if tracing then [openingCall handle] else []

/-- Parses the params file of a handle with a dispatcher of its lines, and an announcement. -/
def readTelling (announce : Announcement σ) (handle : String)
    (dispatch : List Reading → State σ → Run σ) (state : State σ) : Run σ :=
  let told := (announce state handle).map Event.logged
  match state.parser.provider handle with
  | .error fault => (Run.failed state fault).after (told ++ [.refused handle])
  | .ok stream =>
    ((dispatch (fileReadings handle stream) state).before [.closed handle]).after
      (told ++ [.opened handle])

/-- Parses arguments with an announcement. -/
def parseTelling (announce : Announcement σ) (depth : Nat) (arguments : List String)
    (state : State σ) : Run σ :=
  match depth, arguments with
  | 0, _ => ⟨[], state, .unfinished⟩
  | _ + 1, [] => .idle state
  | depth + 1, first :: others =>
    match state.parser.handle? first with
    | none =>
      dispatch (parseTelling announce depth) none (argumentReadings (first :: others)) state
    | some handle =>
      if others = [] then
        readTelling announce handle (dispatch (parseTelling announce depth) none) state
      else .failed state .mixedReference

variable {announce other : Announcement σ}

theorem readTelling_ofSwitch (tracing : Bool) (handle : String)
    (dispatch : List Reading → State σ → Run σ) (state : State σ) :
    readTelling (.ofSwitch tracing) handle dispatch state
      = readParams tracing handle dispatch state := by
  cases tracing <;> rfl

/-- A parse announces through the logger of the parser's own name. -/
theorem parseTelling_ofSwitch (tracing : Bool) (depth : Nat) (arguments : List String)
    (state : State σ) :
    parseTelling (.ofSwitch tracing) depth arguments state
      = parse tracing depth arguments state := by
  induction depth generalizing arguments state with
  | zero => rfl
  | succ depth ih =>
      cases arguments with
      | nil => rfl
      | cons first others =>
          have hnested : parseTelling (.ofSwitch tracing) depth
              = parse (σ := σ) tracing depth := funext fun _ => funext fun _ => ih _ _
          rw [parseTelling, parse, hnested]
          cases state.parser.handle? first with
          | none => rfl
          | some handle => simp only [readTelling_ofSwitch]

/-- An announcement consists of log calls. -/
theorem filter_isUnlogged_told (calls : List Log.Call) (event : Event) :
    (calls.map Event.logged ++ [event]).filter Event.isUnlogged
      = [event].filter Event.isUnlogged := by
  have hcalls : (calls.map Event.logged).filter Event.isUnlogged = [] := by
    rw [List.filter_eq_nil_iff]
    intro told hmem
    obtain ⟨call, -, rfl⟩ := List.mem_map.mp hmem
    exact Bool.false_ne_true
  rw [List.filter_append, hcalls, List.nil_append]

theorem readTelling_unlogged_congr {dispatch otherDispatch : List Reading → State σ → Run σ}
    (h : ∀ readings state, (dispatch readings state).unlogged
      = (otherDispatch readings state).unlogged) (handle : String) (state : State σ) :
    (readTelling announce handle dispatch state).unlogged
      = (readTelling other handle otherDispatch state).unlogged := by
  rw [readTelling, readTelling]
  cases state.parser.provider handle with
  | error fault =>
      exact Run.unlogged_after_congr rfl
        ((filter_isUnlogged_told _ _).trans (filter_isUnlogged_told _ _).symm)
  | ok stream =>
      refine Run.unlogged_after_congr ?_
        ((filter_isUnlogged_told _ _).trans (filter_isUnlogged_told _ _).symm)
      rw [Run.unlogged_before, Run.unlogged_before, h]

/-- **An announcement has no influence on a parse.** -/
theorem parseTelling_unlogged_congr (depth : Nat) (arguments : List String) (state : State σ) :
    (parseTelling announce depth arguments state).unlogged
      = (parseTelling other depth arguments state).unlogged := by
  induction depth generalizing arguments state with
  | zero => rfl
  | succ depth ih =>
      cases arguments with
      | nil => rfl
      | cons first others =>
          rw [parseTelling, parseTelling]
          cases state.parser.handle? first with
          | none => exact dispatch_unlogged_congr ih none _ state
          | some handle =>
              by_cases hlone : others = []
              · simp only [if_pos hlone]
                exact readTelling_unlogged_congr (dispatch_unlogged_congr ih none) handle state
              · simp only [if_neg hlone]

end ArchiveRecord.Parser
