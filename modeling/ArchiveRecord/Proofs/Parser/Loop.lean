/- # Proofs.Parser.Loop -- the calls that a dispatch loop makes

`dispatch` keeps one callback, that of the flag it read last. The account here
keeps none and looks back instead: a loop has *moments*, one for each token that
it reads, with the state before and after; a token is a flag if the bindings *of
that moment* give it a callback; a value is handed to the callback that the
nearest flag below it was bound to when it was read.

`Loop` states this by places in the list of moments. A callback may do anything to
the parser in between -- bind the active flag again, parse, fail -- so nothing is
said about the bindings of one moment from those of another. What carries the
induction is that an active callback makes a first value harmless: behind a flag,
no value is ever unexpected.
-/
import ArchiveRecord.Proofs.Parser.Steps
import ArchiveRecord.Proofs.Source.Lines
import Mathlib.Data.List.Forall2

namespace ArchiveRecord.Parser

variable {σ : Type}

/-! ## Moments and calls -/

/-- A token that a loop reads, with the state in which it is read and the state in which the loop
goes on to the next token. -/
structure Moment (σ : Type) where
  token : String
  earlier : State σ
  later : State σ

/-- The callback that the token is bound to when it is read; with one, the token is a flag. -/
def Moment.flag? (moment : Moment σ) : Option (Callback σ) :=
  moment.earlier.parser.callback? moment.token

/-- A value that is handed to a callback. -/
structure Call (σ : Type) where
  callback : Callback σ
  value : String
  state : State σ

/-- What happens in a call. -/
def Call.run (nested : List String → State σ → Run σ) (call : Call σ) : Run σ :=
  (call.callback call.value).run nested call.state

/-- The call ends without a fault and without reaching the limit on nested parsing. -/
def Call.Completes (nested : List String → State σ → Run σ) (call : Call σ) : Prop :=
  (call.run nested).outcome = .completed

/-- What happens in calls, one after the other. -/
def callEvents (nested : List String → State σ → Run σ) (calls : List (Call σ)) : List Event :=
  calls.flatMap fun call => (call.run nested).events

/-- The places at which values are read, in order. -/
def valuePlaces (moments : List (Moment σ)) : List Nat :=
  (List.range moments.length).filter fun i => (moments[i]?.bind Moment.flag?).isNone

/-- **`ActiveAt initial moments i callback`** -- the greatest place below `i` that holds a flag
holds one bound to the callback; or no place below `i` holds a flag, and the callback was active
before the first moment. -/
def ActiveAt (initial : Option (Callback σ)) (moments : List (Moment σ)) (i : Nat)
    (callback : Callback σ) : Prop :=
  (∃ j moment, j < i ∧ moments[j]? = some moment ∧ moment.flag? = some callback ∧
      ∀ k between, j < k → k < i → moments[k]? = some between → between.flag? = none)
    ∨ (initial = some callback ∧ ∀ k below, k < i → moments[k]? = some below → below.flag? = none)

/-- **`CallAt nested initial moments i call`** -- the value at `i` is handed to the active callback
in the state in which it was read, and the loop goes on in the state that the call leaves. -/
def CallAt (nested : List String → State σ → Run σ) (initial : Option (Callback σ))
    (moments : List (Moment σ)) (i : Nat) (call : Call σ) : Prop :=
  ∃ moment, moments[i]? = some moment ∧ moment.flag? = none ∧
    ActiveAt initial moments i call.callback ∧
    call.value = moment.token ∧ call.state = moment.earlier ∧
    moment.later = (call.run nested).state

/-- How a loop over results of reading ends, by its events and its outcome: it reads all, or meets
a token that cannot be read, or stops at the first call that does not complete. -/
inductive Ending (nested : List String → State σ → Run σ) (results : List (Except Fault String))
    (initial : Option (Callback σ)) (moments : List (Moment σ)) (calls : List (Call σ)) :
    List Event → Outcome → Prop
  | completed (all : moments.length = results.length) (ok : ∀ call ∈ calls, call.Completes nested) :
      Ending nested results initial moments calls (callEvents nested calls) .completed
  | unread {fault : Fault} (next : results[moments.length]? = some (.error fault))
      (ok : ∀ call ∈ calls, call.Completes nested) :
      Ending nested results initial moments calls
        (callEvents nested calls ++ [.raised fault]) (.failed fault)
  | stopped {done : List (Call σ)} {last : Call σ} (split : calls = done ++ [last])
      (ok : ∀ call ∈ done, call.Completes nested) (stop : ¬ last.Completes nested)
      (place : CallAt nested initial moments (moments.length - 1) last) :
      Ending nested results initial moments calls
        (callEvents nested calls) (last.run nested).outcome

/-- **`Loop nested initial results start moments calls run`** -- the loop reads its tokens at the
moments, makes exactly the calls, and the calls are all that happens in the run. -/
structure Loop (nested : List String → State σ → Run σ) (initial : Option (Callback σ))
    (results : List (Except Fault String)) (start : State σ) (moments : List (Moment σ))
    (calls : List (Call σ)) (run : Run σ) : Prop where
  /-- The tokens are read in order. -/
  tokens : moments.map (fun moment => .ok moment.token) <+: results
  /-- Each token is read in the state in which the one before it was left. -/
  states : start :: moments.map Moment.later = moments.map Moment.earlier ++ [run.state]
  /-- A flag changes nothing. -/
  flags : ∀ moment ∈ moments, moment.flag? ≠ none → moment.later = moment.earlier
  /-- For each value, in order, there is one call, and there is no other. -/
  made : List.Forall₂ (CallAt nested initial moments) (valuePlaces moments) calls
  ending : Ending nested results initial moments calls run.events run.outcome

/-- **`Dispatched nested results origin start run`** -- the run is that of a dispatch loop which
starts without an active callback. A first token that is no flag is an unexpected flag, with that
token and the given origin, before any call. In every other case all that is raised comes from a
call or from a token that cannot be read, and the latter is no unexpected flag. -/
structure Dispatched (nested : List String → State σ → Run σ)
    (results : List (Except Fault String)) (origin : Origin) (start : State σ)
    (run : Run σ) : Prop where
  unexpected : ∀ token, results.head? = some (.ok token) → start.parser.callback? token = none →
    run = .failed start (.unexpectedFlag token origin)
  called : (∀ token, results.head? = some (.ok token) → start.parser.callback? token ≠ none) →
    ∃ moments calls, Loop nested none results start moments calls run
  unread : ∀ token place, .error (.unexpectedFlag token place) ∉ results

/-! ## One more moment in front -/

theorem valuePlaces_cons (moment : Moment σ) (moments : List (Moment σ)) :
    valuePlaces (moment :: moments)
      = (if moment.flag?.isNone then [0] else []) ++ (valuePlaces moments).map Nat.succ := by
  unfold valuePlaces
  rw [List.length_cons, List.range_succ_eq_map, List.filter_cons, List.filter_map]
  simp only [List.getElem?_cons_zero, Option.bind_some]
  split <;> rfl

/-- The callback that is active behind a moment: that of its flag, or else the one before. -/
theorem ActiveAt.cons {initial : Option (Callback σ)} {moment : Moment σ}
    {moments : List (Moment σ)} {i : Nat} {callback : Callback σ}
    (h : ActiveAt (moment.flag?.or initial) moments i callback) :
    ActiveAt initial (moment :: moments) (i + 1) callback := by
  rcases h with ⟨j, flag, hj, hget, hflag, hbetween⟩ | ⟨hinitial, hbelow⟩
  · refine .inl ⟨j + 1, flag, by omega, by simpa using hget, hflag, ?_⟩
    intro k between hjk hki hk
    obtain ⟨k, rfl⟩ : ∃ k', k = k' + 1 := ⟨k - 1, by omega⟩
    exact hbetween k between (by omega) (by omega) (by simpa using hk)
  · -- No later moment below `i` is a flag, so the moment in front decides.
    cases hflag : moment.flag? with
    | some bound =>
        rw [hflag, Option.some_or] at hinitial
        refine .inl ⟨0, moment, by omega, rfl, hflag.trans hinitial, ?_⟩
        intro k between h0k hki hk
        obtain ⟨k, rfl⟩ : ∃ k', k = k' + 1 := ⟨k - 1, by omega⟩
        exact hbelow k between (by omega) (by simpa using hk)
    | none =>
        rw [hflag, Option.none_or] at hinitial
        refine .inr ⟨hinitial, ?_⟩
        intro k below hki hk
        cases k with
        | zero =>
            simp only [List.getElem?_cons_zero, Option.some.injEq] at hk
            rw [← hk, hflag]
        | succ k => exact hbelow k below (by omega) (by simpa using hk)

theorem CallAt.cons {nested : List String → State σ → Run σ} {initial : Option (Callback σ)}
    {moment : Moment σ} {moments : List (Moment σ)} {i : Nat} {call : Call σ}
    (h : CallAt nested (moment.flag?.or initial) moments i call) :
    CallAt nested initial (moment :: moments) (i + 1) call := by
  obtain ⟨value, hget, hflag, hactive, hcall⟩ := h
  exact ⟨value, by simpa using hget, hflag, hactive.cons, hcall⟩

theorem callEvents_cons (nested : List String → State σ → Run σ) (call : Call σ)
    (calls : List (Call σ)) :
    callEvents nested (call :: calls) = (call.run nested).events ++ callEvents nested calls :=
  List.flatMap_cons

/-- A stop at the last moment is one at the last moment of a longer list. -/
theorem CallAt.cons_last {nested : List String → State σ → Run σ} {initial : Option (Callback σ)}
    {moment : Moment σ} {moments : List (Moment σ)} {call : Call σ}
    (h : CallAt nested (moment.flag?.or initial) moments (moments.length - 1) call) :
    CallAt nested initial (moment :: moments) ((moment :: moments).length - 1) call := by
  have hlength : (moment :: moments).length - 1 = moments.length - 1 + 1 := by
    obtain ⟨_, hget, _⟩ := h
    have := (List.getElem?_eq_some_iff.mp hget).1
    rw [List.length_cons]
    omega
  rw [hlength]
  exact h.cons

variable {nested : List String → State σ → Run σ} {initial : Option (Callback σ)}
  {results : List (Except Fault String)} {moments : List (Moment σ)} {calls : List (Call σ)}

theorem Ending.cons_flag {moment : Moment σ} {events : List Event} {outcome : Outcome}
    {result : Except Fault String}
    (h : Ending nested results (moment.flag?.or initial) moments calls events outcome) :
    Ending nested (result :: results) initial (moment :: moments) calls events outcome := by
  cases h with
  | completed all ok => exact .completed (by simp [all]) ok
  | unread next ok => exact .unread (by simpa using next) ok
  | stopped split ok stop place => exact .stopped split ok stop place.cons_last

theorem Ending.cons_value {moment : Moment σ} {events : List Event} {outcome : Outcome}
    {result : Except Fault String} {call : Call σ} (hcall : call.Completes nested)
    (h : Ending nested results (moment.flag?.or initial) moments calls events outcome) :
    Ending nested (result :: results) initial (moment :: moments) (call :: calls)
      ((call.run nested).events ++ events) outcome := by
  cases h with
  | completed all ok =>
      rw [← callEvents_cons]
      exact .completed (by simp [all]) (List.forall_mem_cons.mpr ⟨hcall, ok⟩)
  | unread next ok =>
      rw [← List.append_assoc, ← callEvents_cons]
      exact .unread (by simpa using next) (List.forall_mem_cons.mpr ⟨hcall, ok⟩)
  | stopped split ok stop place =>
      rw [← callEvents_cons]
      exact .stopped (by rw [split, List.cons_append]) (List.forall_mem_cons.mpr ⟨hcall, ok⟩) stop
        place.cons_last

/-- A value that is read first is handed to the callback from before the loop: nothing lies below
place 0. -/
theorem CallAt.first {start : State σ} {token : String} {callback : Callback σ}
    (hvalue : start.parser.callback? token = none) (moments : List (Moment σ)) :
    CallAt nested (some callback)
      (⟨token, start, (Call.run nested ⟨callback, token, start⟩).state⟩ :: moments) 0
      ⟨callback, token, start⟩ :=
  ⟨_, rfl, hvalue, .inr ⟨rfl, fun k _ hk => absurd hk (Nat.not_lt_zero k)⟩, rfl, rfl, rfl⟩

/-- A loop may read a flag first. -/
theorem Loop.cons_flag {start : State σ} {run : Run σ} {token : String} {callback : Callback σ}
    (hflag : start.parser.callback? token = some callback)
    (h : Loop nested (some callback) results start moments calls run) :
    Loop nested initial (.ok token :: results) start (⟨token, start, start⟩ :: moments) calls
      run := by
  have hor : (Moment.flag? ⟨token, start, start⟩).or initial = some callback := by
    rw [Moment.flag?, hflag, Option.some_or]
  rw [← hor] at h
  refine ⟨?_, ?_, ?_, ?_, h.ending.cons_flag⟩
  · exact List.cons_prefix_cons.mpr ⟨rfl, h.tokens⟩
  · rw [List.map_cons, List.map_cons, List.cons_append, ← h.states]
  · exact List.forall_mem_cons.mpr ⟨fun _ => rfl, h.flags⟩
  · have hsome : (Moment.flag? ⟨token, start, start⟩).isNone = false := by
      rw [Moment.flag?, hflag, Option.isNone_some]
    rw [valuePlaces_cons, hsome, if_neg Bool.false_ne_true, List.nil_append,
      List.forall₂_map_left_iff]
    exact h.made.imp fun _ _ => CallAt.cons

/-- A loop with an active callback may read a value first and hand it over. -/
theorem Loop.cons_value {start : State σ} {run : Run σ} {token : String} {callback : Callback σ}
    (hvalue : start.parser.callback? token = none)
    (hcall : Call.Completes nested ⟨callback, token, start⟩)
    (h : Loop nested (some callback) results (Call.run nested ⟨callback, token, start⟩).state
      moments calls run) :
    Loop nested (some callback) (.ok token :: results) start
      (⟨token, start, (Call.run nested ⟨callback, token, start⟩).state⟩ :: moments)
      (⟨callback, token, start⟩ :: calls)
      (run.after (Call.run nested ⟨callback, token, start⟩).events) := by
  set call : Call σ := ⟨callback, token, start⟩
  set moment : Moment σ := ⟨token, start, (call.run nested).state⟩
  have hnone : moment.flag? = none := hvalue
  have hor : moment.flag?.or (some callback) = some callback := by rw [hnone, Option.none_or]
  rw [← hor] at h
  refine ⟨?_, ?_, ?_, ?_, h.ending.cons_value hcall⟩
  · exact List.cons_prefix_cons.mpr ⟨rfl, h.tokens⟩
  · rw [List.map_cons, List.map_cons, List.cons_append, Run.after, ← h.states]
  · exact List.forall_mem_cons.mpr ⟨fun hflag => absurd hnone hflag, h.flags⟩
  · rw [valuePlaces_cons, hnone, Option.isNone_none, if_pos rfl, List.singleton_append]
    -- The new call is at place 0, and every other call is one place further up.
    refine .cons (.first hvalue moments) ?_
    rw [List.forall₂_map_left_iff]
    exact h.made.imp fun _ _ => CallAt.cons

/-- A loop stops at the call that does not complete. -/
theorem Loop.stop {start : State σ} {token : String} {callback : Callback σ}
    (hvalue : start.parser.callback? token = none)
    (hcall : ¬ Call.Completes nested ⟨callback, token, start⟩) :
    Loop nested (some callback) (.ok token :: results) start
      [⟨token, start, (Call.run nested ⟨callback, token, start⟩).state⟩]
      [⟨callback, token, start⟩] (Call.run nested ⟨callback, token, start⟩) := by
  set call : Call σ := ⟨callback, token, start⟩
  set moment : Moment σ := ⟨token, start, (call.run nested).state⟩
  have hnone : moment.flag? = none := hvalue
  have hfirst : CallAt nested (some callback) [moment] 0 call := .first hvalue []
  have hevents : (call.run nested).events = callEvents nested [call] := by
    rw [callEvents_cons, callEvents, List.flatMap_nil, List.append_nil]
  refine ⟨?_, rfl, ?_, ?_, ?_⟩
  · exact List.cons_prefix_cons.mpr ⟨rfl, List.nil_prefix⟩
  · exact List.forall_mem_singleton.mpr fun hflag => absurd hnone hflag
  · rw [valuePlaces_cons, hnone, Option.isNone_none, if_pos rfl, List.singleton_append]
    exact .cons hfirst .nil
  · rw [hevents]
    have hnone : ∀ call ∈ ([] : List (Call σ)), call.Completes nested := by simp
    exact .stopped (List.nil_append _).symm hnone hcall hfirst

/-! ## Every dispatch is such a loop -/

/-- **A dispatch with an active callback is a loop**, whatever the callbacks do. -/
theorem dispatch_loop (callback : Callback σ) (readings : List Reading) (start : State σ) :
    ∃ moments calls, Loop nested (some callback) (readings.map Reading.result) start moments calls
      (dispatch nested (some callback) readings start) := by
  -- Both change along the way: a flag replaces the callback, a call the state.
  induction readings generalizing callback start with
  | nil =>
      exact ⟨[], [], List.nil_prefix, rfl, by simp, .nil, .completed rfl (by simp)⟩
  | cons reading rest ih =>
      obtain ⟨result, origin⟩ := reading
      rw [List.map_cons]
      cases result with
      | error fault =>
          rw [dispatch_unread]
          exact ⟨[], [], List.nil_prefix, rfl, by simp, .nil, .unread rfl (by simp)⟩
      | ok token =>
          cases hflag : start.parser.callback? token with
          | some bound =>
              rw [dispatch_flag hflag]
              obtain ⟨moments, calls, h⟩ := ih bound start
              exact ⟨_, _, h.cons_flag hflag⟩
          | none =>
              have hrun : (callback token).run nested start
                  = Call.run nested ⟨callback, token, start⟩ := rfl
              rw [dispatch_value hflag, hrun]
              by_cases hcall : Call.Completes nested ⟨callback, token, start⟩
              · rw [Run.andThen_of_completed hcall]
                obtain ⟨moments, calls, h⟩ :=
                  ih callback (Call.run nested ⟨callback, token, start⟩).state
                exact ⟨_, _, h.cons_value hflag hcall⟩
              · -- Whatever is left to read is not read any more.
                rw [Run.andThen_of_not_completed hcall]
                exact ⟨_, _, .stop hflag hcall⟩

/-- A dispatch without an active callback refuses a first value and is a loop otherwise. -/
theorem dispatch_dispatched {readings : List Reading} {origin : Origin} (start : State σ)
    (horigin : ∀ reading, readings.head? = some reading → reading.origin = origin)
    (hunread : ∀ token place, .error (.unexpectedFlag token place) ∉ readings.map Reading.result) :
    Dispatched nested (readings.map Reading.result) origin start
      (dispatch nested none readings start) := by
  cases readings with
  | nil =>
      refine ⟨by simp, fun _ => ⟨[], [], List.nil_prefix, ?_, by simp, .nil, ?_⟩, hunread⟩
      · rw [dispatch_nil]
        rfl
      · rw [dispatch_nil]
        exact .completed rfl (by simp)
  | cons reading rest =>
      obtain ⟨result, place⟩ := reading
      obtain rfl : place = origin := horigin _ rfl
      cases result with
      | error fault =>
          rw [dispatch_unread]
          refine ⟨by simp, fun _ => ⟨[], [], List.nil_prefix, rfl, by simp, .nil, ?_⟩, hunread⟩
          exact .unread rfl (by simp)
      | ok token =>
          cases hflag : start.parser.callback? token with
          | none =>
              rw [dispatch_unexpected hflag]
              refine ⟨fun first hfirst _ => ?_, fun h => absurd hflag (h token rfl), hunread⟩
              simp only [List.map_cons, List.head?_cons, Option.some.injEq, Except.ok.injEq]
                at hfirst
              rw [hfirst]
          | some callback =>
              rw [dispatch_flag hflag]
              refine ⟨fun first hfirst hunbound => ?_, fun _ => ?_, hunread⟩
              · simp only [List.map_cons, List.head?_cons, Option.some.injEq, Except.ok.injEq]
                  at hfirst
                rw [← hfirst, hflag] at hunbound
                contradiction
              · obtain ⟨moments, calls, h⟩ := dispatch_loop callback rest start
                exact ⟨_, _, h.cons_flag hflag⟩

/-! ## Bindings -/

/-- Binds a name to a callback, or to none. -/
def assign (parser : Parser σ) (binding : String × Option (Callback σ)) : Parser σ :=
  match binding.2 with
  | some callback => parser.register binding.1 callback
  | none => parser.reserve binding.1

theorem callback?_assign (parser : Parser σ) (name : String) (bound : Option (Callback σ))
    (token : String) :
    (parser.assign (name, bound)).callback? token
      = if token = name then bound else parser.callback? token := by
  cases bound <;>
    simp only [assign, callback?, register, reserve, OrderedMap.get?_insert] <;> split <;> rfl

/-- The last binding of a name counts. -/
theorem callback?_foldl_assign (bindings : List (String × Option (Callback σ)))
    (parser : Parser σ) (token : String) :
    (bindings.foldl assign parser).callback? token
      = (bindings.reverse.lookup token).getD (parser.callback? token) := by
  induction bindings generalizing parser with
  | nil => rfl
  | cons binding bindings ih =>
      obtain ⟨name, bound⟩ := binding
      rw [List.foldl_cons, ih, callback?_assign, List.reverse_cons, List.lookup_append]
      cases bindings.reverse.lookup token with
      | some bound => rfl
      | none =>
          rw [Option.none_or, Option.getD_none, List.lookup_cons]
          by_cases htoken : token = name
          · rw [if_pos htoken, htoken, beq_self_eq_true]
            rfl
          · rw [if_neg htoken, beq_eq_false_iff_ne.mpr htoken]
            rfl

/-! ## Every parse -/

/-- **The calls of a parse.** Over arguments, and over the lines of a params file between its
opening and its closing, a parse makes one call for each value, of the callback that the nearest
flag below it was bound to when that was read, and nothing else happens in it; a first token that
is no flag is a fault before any call. What a name is bound to is what it was bound to last. -/
theorem parse_dispatched (tracing : Bool) (depth : Nat) (start : State σ) :
    (∀ arguments : List String,
        (∀ first, arguments.head? = some first →
          ¬ start.parser.marker.toList <+: first.toList) →
        Dispatched (parse tracing depth) (arguments.map .ok) .arguments start
          (parse tracing (depth + 1) arguments start))
      ∧ (∀ (handle : String) (stream : Stream), start.parser.provider handle = .ok stream →
          ∃ inner : Run σ,
            Dispatched (parse tracing depth) (stream.map (Line.token .utf8))
              ⟨some (.ofString handle), some 1⟩ start inner
            ∧ parse tracing (depth + 1) [start.parser.marker ++ handle] start
                = (inner.before [.closed handle]).after (openingEvents tracing handle))
      ∧ ∀ (bindings : List (String × Option (Callback σ))) (token : String),
          (bindings.foldl assign start.parser).callback? token
            = (bindings.reverse.lookup token).getD (start.parser.callback? token) := by
  refine ⟨?_, ?_, fun bindings token => callback?_foldl_assign bindings start.parser token⟩
  · intro arguments hfirst
    rw [parse_of_unmarked hfirst, ← map_result_argumentReadings]
    refine dispatch_dispatched start (fun reading => origin_of_head?_argumentReadings) ?_
    intro token place hmem
    rw [map_result_argumentReadings] at hmem
    obtain ⟨_, _, hread⟩ := List.mem_map.mp hmem
    cases hread
  · intro handle stream hprovider
    refine ⟨_, ?_, parse_reference hprovider⟩
    rw [← map_result_lineReadings (some (Path.ofString handle)) .utf8 0]
    refine dispatch_dispatched start (fun reading => origin_of_head?_fileReadings) ?_
    intro token place hmem
    rw [map_result_lineReadings] at hmem
    obtain ⟨line, _, hread⟩ := List.mem_map.mp hmem
    obtain ⟨_, hfault⟩ := Line.undecodable_of_token hread
    cases hfault

end ArchiveRecord.Parser
