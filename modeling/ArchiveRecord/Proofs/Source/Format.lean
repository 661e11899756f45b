/- # Proofs.Source.Format -- line sources read exactly the params-file format

`ParamsText` says which texts hold which tokens, without reading anything. A line
source over the text, as it is or as its bytes, yields exactly those tokens and
then its end:

* a source that is drained yields the tokens of its lines, each once and in order,
  and fails only at a line that has no token;
* every text is a params file of the tokens of its lines, and of no other tokens.

So every text has its tokens and every list of tokens without line feeds has its
texts.
-/
import ArchiveRecord.Proofs.Source.Lines

namespace ArchiveRecord

/-! ## Draining -/

namespace Reader

variable {reader next : Reader}

theorem drain_of_token {token : String} (h : reader.next = (.token token, next)) :
    reader.drain = (token :: next.drain.1, next.drain.2) := by
  rw [drain]
  split
  next other hother =>
    obtain rfl := Answer.token.inj ((congrArg Prod.fst h).symm.trans hother)
    rw [h]
  next hother => exact absurd (congrArg Prod.fst h) (hother token)

/-- An answer that is no token is the last one. -/
theorem drain_of_stopped {answer : Answer} (h : reader.next = (answer, next))
    (hstop : ∀ token, answer ≠ .token token) : reader.drain = ([], answer, next) := by
  rw [drain]
  split
  next token htoken => exact absurd ((congrArg Prod.fst h).symm.trans htoken) (hstop token)
  next => rw [h]

variable {path : Option Path} {encoding : Encoding} {line : Line} {rest : Stream} {consumed : Nat}

theorem next_lines_nil :
    (lines ⟨path, encoding, [], consumed⟩ true).next
      = (.ended, lines ⟨path, encoding, [], consumed⟩ false) := rfl

theorem next_lines_token {token : String} (h : line.token encoding = .ok token) :
    (lines ⟨path, encoding, line :: rest, consumed⟩ true).next
      = (.token token, lines ⟨path, encoding, rest, consumed + 1⟩ true) := by
  simp [Reader.next, LineSource.next?, h]

/-- The line that has no token is read too, and the iterator is at its end behind it. -/
theorem next_lines_fault {fault : Fault} (h : line.token encoding = .error fault) :
    (lines ⟨path, encoding, line :: rest, consumed⟩ true).next
      = (.failed fault, lines ⟨path, encoding, rest, consumed + 1⟩ false) := by
  simp [Reader.next, LineSource.next?, h]

end Reader

namespace LineSource

/-- **`source.Yields tokens`** -- a live iterator delivers exactly the tokens and then its end. -/
def Yields (source : LineSource) (tokens : List String) : Prop :=
  (Reader.ofLines source).drain.1 = tokens ∧ (Reader.ofLines source).drain.2.1 = .ended

variable {path : Option Path} {encoding : Encoding} {stream : Stream} {consumed : Nat}

/-- **A source yields the tokens of its lines,** where all of them have one, and nothing else. -/
theorem yields_iff {tokens : List String} :
    Yields ⟨path, encoding, stream, consumed⟩ tokens
      ↔ stream.map (Line.token encoding) = tokens.map .ok := by
  unfold Yields Reader.ofLines
  induction stream generalizing consumed tokens with
  | nil =>
      rw [Reader.drain_of_stopped Reader.next_lines_nil (by simp)]
      simp [eq_comm]
  | cons line rest ih =>
      cases htoken : line.token encoding with
      | error fault =>
          rw [Reader.drain_of_stopped (Reader.next_lines_fault htoken) (by simp)]
          cases tokens <;> simp [htoken]
      | ok token =>
          rw [Reader.drain_of_token (Reader.next_lines_token htoken)]
          cases tokens with
          | nil => simp
          | cons other tokens =>
              have hrest := @ih (consumed + 1) tokens
              simp [htoken, ← hrest, and_assoc]

/-- **`source.Delivers text`** -- the source is at the start of the text, delivered as it is or as its
bytes, and cut behind each line feed. -/
inductive Delivers (text : List Char) : LineSource → Prop
  | asText (path : Option Path) (encoding : Encoding) :
      Delivers text { path, encoding, pending := .ofText text }
  | asBytes (path : Option Path) :
      Delivers text { path, encoding := .utf8, pending := .ofBytes (Encoding.Utf8.encode text) }

/-- A source of a text yields the tokens of its pieces. -/
theorem Delivers.yields_iff {text : List Char} {source : LineSource} (h : source.Delivers text)
    {tokens : List String} :
    source.Yields tokens
      ↔ (cutAfter '\n' text).map Line.chomp = tokens.map String.toList := by
  have hstrings : tokens.map (Except.ok : String → Except Fault String)
      = (tokens.map String.toList).map fun token => .ok (String.ofList token) := by
    simp [Function.comp_def]
  have hpieces : source.pending.map (Line.token source.encoding)
      = ((cutAfter '\n' text).map Line.chomp).map fun token => .ok (String.ofList token) := by
    cases h with
    | asText path encoding => exact Stream.map_token_ofText encoding text
    | asBytes path => rw [Stream.map_token_ofBytes, Stream.map_token_ofText]
  show Yields ⟨_, _, _, _⟩ tokens ↔ _
  rw [LineSource.yields_iff, hpieces, hstrings]
  exact List.map_inj_right fun _ _ heq => String.ofList_injective (Except.ok.inj heq)

end LineSource

/-! ## Every text is a params file -/

/-- A piece that ends in a line feed is the line of its token. -/
theorem Line.tokenLine_chomp {front : List Char} (h : '\n' ∉ front) :
    TokenLine (chomp (front ++ ['\n'])) (front ++ ['\n']) ∧ '\n' ∉ chomp (front ++ ['\n']) := by
  rw [chomp, dropLastIf_concat]
  by_cases hreturn : front.getLast? = some '\r'
  · obtain ⟨token, rfl⟩ := List.getLast?_eq_some_iff.mp hreturn
    rw [dropLastIf_concat, List.append_assoc]
    exact ⟨.returned, fun hmem => h (List.mem_append_left _ hmem)⟩
  · rw [dropLastIf_of_getLast?_ne hreturn]
    exact ⟨.lineFeed hreturn, h⟩

/-- A text is a params file of the tokens of its lines. -/
theorem ParamsText.of_text (text : List Char) :
    ParamsText ((cutAfter '\n' text).map Line.chomp) text := by
  induction text using cutAfter_induction '\n' with
  | nil => exact .nil
  | last piece hne hfeed =>
      rw [cutAfter_of_notMem hfeed hne, List.map_singleton]
      by_cases hreturn : piece.getLast? = some '\r'
      · obtain ⟨token, rfl⟩ := List.getLast?_eq_some_iff.mp hreturn
        have htoken : '\n' ∉ token := fun hmem => hfeed (List.mem_append_left _ hmem)
        rw [Line.chomp_of_lone_return htoken]
        exact .lastReturned htoken
      · rw [Line.chomp_of_unterminated hfeed hreturn]
        exact .last hfeed hne hreturn
  | piece front rest hfront ih =>
      obtain ⟨hline, htoken⟩ := Line.tokenLine_chomp hfront
      rw [cutAfter_append_mark hfront, List.map_cons]
      have hall := ParamsText.cons htoken hline ih
      rwa [List.append_assoc, List.singleton_append] at hall

/-- **A text is a params file of the tokens of its lines and of no others.** -/
theorem paramsText_iff {tokens : List (List Char)} {text : List Char} :
    ParamsText tokens text ↔ (cutAfter '\n' text).map Line.chomp = tokens := by
  constructor
  · exact ParamsText.map_token
  · rintro rfl
    exact ParamsText.of_text text

/-- A params file whose last line has its line feed may be followed by another one. -/
theorem ParamsText.append {first second : List (List Char)} {front rest : List Char}
    (hfront : front = [] ∨ front.getLast? = some '\n') (hfirst : ParamsText first front)
    (hsecond : ParamsText second rest) : ParamsText (first ++ second) (front ++ rest) := by
  rw [paramsText_iff] at hfirst hsecond ⊢
  rw [cutAfter_append_of_closed hfront, List.map_append, hfirst, hsecond]

/-- A blank line is the empty token. -/
theorem ParamsText.blank {line : List Char} (h : line = ['\n'] ∨ line = ['\r', '\n']) :
    ParamsText [[]] line := by
  rw [paramsText_iff]
  rcases h with rfl | rfl <;> rfl

/-- What is put behind an open last line goes to its piece. -/
theorem paramsText_terminated_iff {tokens : List (List Char)} {text terminator : List Char}
    (hne : text ≠ []) (hfeed : text.getLast? ≠ some '\n')
    (h : terminator = ['\n'] ∨ text.getLast? ≠ some '\r' ∧ terminator = ['\r', '\n']) :
    ParamsText tokens (text ++ terminator) ↔ ParamsText tokens text := by
  obtain ⟨front, piece, rfl, hfront, hpiece, hmark⟩ := exists_open_piece hne hfeed
  have hline : (cutAfter '\n' (piece ++ terminator)).map Line.chomp = [Line.chomp piece] := by
    rcases h with rfl | ⟨hreturn, rfl⟩
    · rw [cutAfter_append_mark hmark, cutAfter, List.map_singleton, Line.chomp, dropLastIf_concat,
        Line.chomp, dropLastIf_of_getLast?_ne (getLast?_ne_of_notMem hmark)]
    · have hlast : piece.getLast? ≠ some '\r' := by
        intro hlast
        exact hreturn (by rw [List.getLast?_append, hlast]; rfl)
      have hcut : cutAfter '\n' (piece ++ ['\r', '\n']) = [piece ++ ['\r', '\n']] := by
        have := TokenLine.returned.cutAfter_append hmark []
        rwa [List.append_nil] at this
      rw [hcut, List.map_singleton, Line.chomp_of_tokenLine .returned,
        Line.chomp_of_unterminated hmark hlast]
  rw [paramsText_iff, paramsText_iff, List.append_assoc, cutAfter_append_of_closed hfront,
    cutAfter_append_of_closed hfront, List.map_append, List.map_append, hline,
    cutAfter_of_notMem hmark hpiece, List.map_singleton]

/-! ## The whole -/

/-- **Line sources accept exactly the params-file format.** A source of a text yields the tokens
that the text is a params file of, and no others. Every text is one, and so every list of tokens
without line feeds has one; a blank line is the empty token, and a terminator at the end of the last
line adds no token. -/
theorem yields_iff_paramsText :
    (∀ (text : List Char) (source : LineSource), source.Delivers text →
        ∀ tokens : List String,
          source.Yields tokens ↔ ParamsText (tokens.map String.toList) text)
      ∧ (∀ text : List Char, ∃ tokens : List String, ParamsText (tokens.map String.toList) text)
      ∧ (∀ tokens : List String, (∀ token ∈ tokens, '\n' ∉ token.toList) →
          ∃ text, ParamsText (tokens.map String.toList) text)
      ∧ (∀ (first second : List (List Char)) (front line rest : List Char),
          front = [] ∨ front.getLast? = some '\n' → line = ['\n'] ∨ line = ['\r', '\n'] →
          ParamsText first front → ParamsText second rest →
          ParamsText (first ++ [] :: second) (front ++ (line ++ rest)))
      ∧ ∀ (tokens : List (List Char)) (text terminator : List Char),
          text ≠ [] → text.getLast? ≠ some '\n' →
          terminator = ['\n'] ∨ text.getLast? ≠ some '\r' ∧ terminator = ['\r', '\n'] →
          (ParamsText tokens (text ++ terminator) ↔ ParamsText tokens text) := by
  refine ⟨?_, ?_, ?_, ?_, ?_⟩
  · intro text source h tokens
    rw [h.yields_iff, paramsText_iff]
  · intro text
    refine ⟨((cutAfter '\n' text).map Line.chomp).map String.ofList, ?_⟩
    have hstrings (pieces : List (List Char)) :
        (pieces.map String.ofList).map String.toList = pieces := by
      simp [Function.comp_def]
    rw [hstrings]
    exact ParamsText.of_text text
  · intro tokens h
    exact ParamsText.exists_of_tokens (by simpa using h)
  · intro first second front line rest hfront hline hfirst hsecond
    have hclosed : line = [] ∨ line.getLast? = some '\n' := by
      rcases hline with rfl | rfl <;> exact .inr rfl
    exact hfirst.append hfront ((ParamsText.blank hline).append hclosed hsecond)
  · intro tokens text terminator hne hfeed h
    exact paramsText_terminated_iff hne hfeed h

end ArchiveRecord
