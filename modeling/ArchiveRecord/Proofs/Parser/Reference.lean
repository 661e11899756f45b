/- # Proofs.Parser.Reference -- a params file means the arguments that it holds

A parse of a reference and a parse of the arguments in the file differ in two
places only: the stream is opened before and closed after, and a first token that
is no flag is reported with the first line of the file as its origin. The origin
is the only thing that a dispatch sees of where a token comes from, and behind a
first flag it does not look at it again.
-/
import ArchiveRecord.Proofs.Parser.Steps
import ArchiveRecord.Proofs.Source.Lines

namespace ArchiveRecord.Parser

variable {σ : Type} {nested : List String → State σ → Run σ}

/-- **Behind a flag, only what is read counts**, and not where it is read. -/
theorem dispatch_congr {first second : List Reading}
    (h : first.map Reading.result = second.map Reading.result) (callback : Callback σ)
    (state : State σ) :
    dispatch nested (some callback) first state = dispatch nested (some callback) second state := by
  induction first generalizing second callback state with
  | nil =>
      obtain rfl : second = [] := by simpa using h.symm
      rfl
  | cons reading rest ih =>
      obtain ⟨other, others, rfl⟩ : ∃ other others, second = other :: others := by
        cases second with
        | nil => simp at h
        | cons other others => exact ⟨other, others, rfl⟩
      obtain ⟨result, origin⟩ := reading
      obtain ⟨result', origin'⟩ := other
      simp only [List.map_cons, List.cons.injEq] at h
      obtain ⟨rfl, hrest⟩ := h
      cases result with
      | error fault => rw [dispatch_unread, dispatch_unread]
      | ok token =>
          cases hflag : state.parser.callback? token with
          | some bound => rw [dispatch_flag hflag, dispatch_flag hflag, ih hrest]
          | none =>
              rw [dispatch_value hflag, dispatch_value hflag]
              exact congrArg _ (funext fun state => ih hrest callback state)

section File

variable {tokens : List String} {handle : String} {stream : Stream} {state : State σ}

/-- Where the first token is a flag, the lines of a file are dispatched as arguments. -/
theorem dispatch_fileReadings_of_flag (h : stream.map (Line.token .utf8) = tokens.map .ok)
    (hflag : ∀ token, tokens.head? = some token → state.parser.callback? token ≠ none) :
    dispatch nested none (fileReadings handle stream) state
      = dispatch nested none (argumentReadings tokens) state := by
  have hresults : (fileReadings handle stream).map Reading.result
      = (argumentReadings tokens).map Reading.result := by
    rw [fileReadings, map_result_lineReadings, h, map_result_argumentReadings]
  cases tokens with
  | nil =>
      obtain rfl : stream = [] := by simpa using h
      rfl
  | cons token tokens =>
      obtain ⟨callback, hcallback⟩ := Option.ne_none_iff_exists'.mp (hflag token rfl)
      cases stream with
      | nil => simp at h
      | cons line stream =>
          simp only [List.map_cons, List.cons.injEq] at h
          rw [fileReadings, lineReadings, argumentReadings, List.map_cons] at hresults ⊢
          rw [List.map_cons, List.map_cons, List.cons.injEq] at hresults
          -- Behind the flag the origins do not count, and the results are the same.
          rw [h.1, dispatch_flag hcallback, dispatch_flag hcallback]
          exact dispatch_congr hresults.2 callback state

/-- Where the first token is no flag, the lines of a file are refused with their own origin. -/
theorem dispatch_fileReadings_of_value {token : String}
    (h : stream.map (Line.token .utf8) = tokens.map .ok) (hfirst : tokens.head? = some token)
    (hvalue : state.parser.callback? token = none) :
    dispatch nested none (fileReadings handle stream) state
      = .failed state (.unexpectedFlag token ⟨some (.ofString handle), some 1⟩) := by
  obtain ⟨tokens, rfl⟩ : ∃ more, tokens = token :: more := by
    cases tokens with
    | nil => simp at hfirst
    | cons other more => exact ⟨more, by simpa using hfirst⟩
  cases stream with
  | nil => simp at h
  | cons line stream =>
      simp only [List.map_cons, List.cons.injEq] at h
      rw [fileReadings, lineReadings, h.1, dispatch_unexpected hvalue]
      rfl

theorem dispatch_argumentReadings_of_value {token : String} (hfirst : tokens.head? = some token)
    (hvalue : state.parser.callback? token = none) :
    dispatch nested none (argumentReadings tokens) state
      = .failed state (.unexpectedFlag token .arguments) := by
  cases tokens with
  | nil => simp at hfirst
  | cons other more =>
      obtain rfl : other = token := by simpa using hfirst
      rw [argumentReadings, List.map_cons, dispatch_unexpected hvalue]

end File

/-- **A params file means the arguments that it holds**: between one opening and one closing of its
handle, a parse of the reference is the parse of the tokens, with the same events, the same state
left and the same end. Only where the first token is no flag does the fault name the first line of
the file in place of the arguments. -/
theorem parse_reference_eq_parse (tracing : Bool) (depth : Nat) (state : State σ)
    (handle : String) (tokens : List String) (text : List Char) (stream : Stream)
    (unmarked : ∀ first, tokens.head? = some first →
      ¬ state.parser.marker.toList <+: first.toList)
    (holds : ParamsText (tokens.map String.toList) text)
    (delivers : stream = .ofText text ∨ stream = .ofBytes (Encoding.Utf8.encode text))
    (provides : state.parser.provider handle = .ok stream) :
    ∃ inner : Run σ,
      parse tracing (depth + 1) [state.parser.marker ++ handle] state
          = (inner.before [.closed handle]).after (openingEvents tracing handle)
      ∧ ((∀ first, tokens.head? = some first → state.parser.callback? first ≠ none) →
          inner = parse tracing (depth + 1) tokens state)
      ∧ ∀ first, tokens.head? = some first → state.parser.callback? first = none →
          parse tracing (depth + 1) tokens state
              = .failed state (.unexpectedFlag first .arguments)
          ∧ inner = .failed state (.unexpectedFlag first ⟨some (.ofString handle), some 1⟩) := by
  have htokens := holds.map_token_stream delivers
  refine ⟨_, parse_reference provides, ?_, ?_⟩
  · intro hflag
    rw [parse_of_unmarked unmarked]
    exact dispatch_fileReadings_of_flag htokens hflag
  · intro first hfirst hvalue
    rw [parse_of_unmarked unmarked]
    exact ⟨dispatch_argumentReadings_of_value hfirst hvalue,
      dispatch_fileReadings_of_value htokens hfirst hvalue⟩

/-- A parser with one flag, which notes its values, and one params file, which holds the flag and a
value that ends in a carriage return. -/
def notingParser : Parser Unit where
  registry := OrderedMap.insert ∅ "--a" (some fun value => .note "--a" value .done)
  provider _ := .ok (.ofText "--a\nx\r\r\n".toList)

/-- The carriage return of a value is noted, and that of its terminator is not. -/
theorem parse_reference_eq_parse_noting :
    (∀ first, ["--a", "x\r"].head? = some first → ¬ "@".toList <+: first.toList)
      ∧ ParamsText (["--a", "x\r"].map String.toList) "--a\nx\r\r\n".toList
      ∧ notingParser.provider "p" = .ok (.ofText "--a\nx\r\r\n".toList)
      ∧ (parse false 1 ["@" ++ "p"] ⟨notingParser, ()⟩).events
          = [.opened "p", .noted "--a" "x\r", .closed "p"] := by
  have unmarked : ∀ first, ["--a", "x\r"].head? = some first →
      ¬ "@".toList <+: first.toList := by
    intro first hfirst
    obtain rfl : "--a" = first := Option.some.inj hfirst
    decide
  have holds : ParamsText (["--a", "x\r"].map String.toList) "--a\nx\r\r\n".toList :=
    .cons (by decide) (.lineFeed (by decide)) (.cons (by decide) .returned .nil)
  refine ⟨unmarked, holds, rfl, ?_⟩
  obtain ⟨inner, hreference, hflag, -⟩ := parse_reference_eq_parse false 0 ⟨notingParser, ()⟩ "p"
    ["--a", "x\r"] _ _ unmarked holds (.inl rfl) rfl
  have hinner := hflag fun first hfirst => by
    obtain rfl : "--a" = first := Option.some.inj hfirst
    exact Option.some_ne_none _
  have hevents : (parse false 1 ["--a", "x\r"] ⟨notingParser, ()⟩).events
      = [.noted "--a" "x\r"] := rfl
  rw [hinner] at hreference
  refine (congrArg Run.events hreference).trans ?_
  show openingEvents false "p"
      ++ ((parse false 1 ["--a", "x\r"] ⟨notingParser, ()⟩).events ++ [.closed "p"]) = _
  rw [hevents]
  rfl

end ArchiveRecord.Parser
