/- # Proofs.Source.Iteration -- a line source loses and repeats no line

However a client goes on -- one token at a time, all that are left, with a new
iterator before or behind the end -- the source reads its lines one after the other:

* what one step takes from the stream is what it answers, line by line (`Takes`);
* hence the answers of all steps are those of a prefix of the stream, each line once,
  and the count of lines is the length of that prefix.

The count goes up with an undecodable line too, so a new iterator goes on behind it.
Nothing of this looks at how a line is decoded.
-/
import ArchiveRecord.Proofs.Source.Format
import ArchiveRecord.Source.Iteration
import Mathlib.Data.List.Induction

namespace ArchiveRecord.Reader

/-! ## What a step takes -/

/-- An unread line is taken by a live iterator, which lives on where the line has a token. -/
theorem exists_next_lines (path : Option Path) (encoding : Encoding) (line : Line) (rest : Stream)
    (consumed : Nat) :
    ∃ answer : Answer, answer.result? = some (line.token encoding)
      ∧ (lines ⟨path, encoding, line :: rest, consumed⟩ true).next
        = (answer, lines ⟨path, encoding, rest, consumed + 1⟩ (!answer.isFinal)) := by
  cases htoken : line.token encoding with
  | ok token => exact ⟨.token token, rfl, next_lines_token htoken⟩
  | error fault => exact ⟨.failed fault, rfl, next_lines_fault htoken⟩

/-- **`Takes source live answers next`** -- the answers are those of lines taken from the source, in
order, and the next reader is behind these lines. The iterator is live there if it was and none of
the answers is final. -/
def Takes (source : LineSource) (live : Bool) (answers : List Answer) (next : Reader) : Prop :=
  ∃ taken rest : Stream, source.pending = taken ++ rest
    ∧ answers.filterMap Answer.result? = taken.map (Line.token source.encoding)
    ∧ next = lines ⟨source.path, source.encoding, rest, source.consumed + taken.length⟩
        (live && !answers.any Answer.isFinal)

section Takes

variable {source : LineSource} {live : Bool} {answers : List Answer} {reader : Reader}

theorem Takes.exists_lines (h : Takes source live answers reader) :
    ∃ middle still, reader = lines middle still := by
  obtain ⟨taken, rest, -, -, hreader⟩ := h
  exact ⟨_, _, hreader⟩

/-- What is taken in two parts is taken as a whole. -/
theorem Takes.append {middle : LineSource} {still : Bool} {more : List Answer}
    (h : Takes source live answers (lines middle still)) (hmore : Takes middle still more reader) :
    Takes source live (answers ++ more) reader := by
  obtain ⟨taken, rest, hpending, hanswers, hmiddle⟩ := h
  obtain ⟨rfl, rfl⟩ := Reader.lines.inj hmiddle
  obtain ⟨further, left, hrest, hfurther, rfl⟩ := hmore
  refine ⟨taken ++ further, left, ?_, ?_, ?_⟩
  · rw [hpending, List.append_assoc]
    exact congrArg (taken ++ ·) hrest
  · rw [List.filterMap_append, hanswers, hfurther, List.map_append]
  · simp [Nat.add_assoc, Bool.and_assoc]

/-- **One token is taken from one line**, unless the iterator or the stream has ended. -/
theorem takes_next (source : LineSource) (live : Bool) :
    Takes source live ((lines source live).step .next).1 ((lines source live).step .next).2 := by
  obtain ⟨path, encoding, pending, consumed⟩ := source
  cases live with
  | false => exact ⟨[], pending, rfl, rfl, rfl⟩
  | true =>
      cases pending with
      | nil => exact ⟨[], [], rfl, rfl, rfl⟩
      | cons line rest =>
          obtain ⟨answer, hresult, hnext⟩ := exists_next_lines path encoding line rest consumed
          rw [step, hnext]
          exact ⟨[line], rest, rfl, by simp [hresult], by simp⟩

end Takes

/-! ## Draining step by step -/

theorem Answer.isFinal_of_ne_token {answer : Answer} (h : ∀ token, answer = .token token → False) :
    answer.isFinal = true := by
  cases answer with
  | token token => exact (h token rfl).elim
  | failed | ended => rfl

theorem step_drain_of_token {reader next : Reader} {token : String}
    (h : reader.next = (.token token, next)) :
    reader.step .drain = (.token token :: (next.step .drain).1, (next.step .drain).2) := by
  simp [step, drain_of_token h]

theorem step_drain_of_final {reader next : Reader} {answer : Answer}
    (h : reader.next = (answer, next)) (hfinal : answer.isFinal = true) :
    reader.step .drain = ([answer], next) := by
  have hstop (token : String) : answer ≠ .token token := by
    rintro rfl
    cases hfinal
  simp [step, drain_of_stopped h hstop]

/-- **A drain is as many requests for one token as it takes** to get an answer that is final. -/
theorem drain_eq_nexts (reader : Reader) :
    ∃ (tokens : List String) (last : Answer),
      (reader.step .drain).1 = tokens.map .token ++ [last]
        ∧ last.isFinal = true
        ∧ answersOf (reader.transcript (List.replicate (tokens.length + 1) .next))
          = (reader.step .drain).1
        ∧ reader.after (List.replicate (tokens.length + 1) .next) = (reader.step .drain).2 := by
  induction reader using drain.induct with
  | case1 reader token htoken ih =>
      obtain ⟨tokens, last, hanswers, hfinal, htold, hafter⟩ := ih
      have hnext : reader.next = (.token token, reader.next.2) := Prod.ext htoken rfl
      rw [step_drain_of_token hnext]
      refine ⟨token :: tokens, last, ?_, hfinal, ?_, ?_⟩
      · rw [hanswers]
        rfl
      · rw [← htold, ← htoken]
        rfl
      · rw [← hafter]
        rfl
  | case2 reader hstop =>
      have hfinal := Answer.isFinal_of_ne_token hstop
      rw [step_drain_of_final rfl hfinal]
      exact ⟨[], reader.next.1, rfl, hfinal, rfl, rfl⟩

/-- What a drain answers is taken line by line. -/
theorem takes_drain (source : LineSource) (live : Bool) :
    Takes source live ((lines source live).step .drain).1 ((lines source live).step .drain).2 := by
  generalize hreader : lines source live = reader
  induction reader using drain.induct generalizing source live with
  | case1 reader token htoken ih =>
      have hnext : reader.next = (.token token, reader.next.2) := Prod.ext htoken rfl
      have htakes : Takes source live [.token token] reader.next.2 := by
        rw [← htoken, ← hreader]
        exact takes_next source live
      obtain ⟨middle, still, hmiddle⟩ := htakes.exists_lines
      rw [step_drain_of_token hnext]
      exact (hmiddle ▸ htakes).append (ih middle still hmiddle.symm)
  | case2 reader hstop =>
      rw [step_drain_of_final rfl (Answer.isFinal_of_ne_token hstop), ← hreader]
      exact takes_next source live

/-- **What a step answers is what it takes.** Only a new iterator is live again. -/
theorem takes_step (source : LineSource) (live : Bool) (step : Step) :
    Takes source (live || step = .renew) ((lines source live).step step).1
      ((lines source live).step step).2 := by
  cases step with
  | next => simpa using takes_next source live
  | drain => simpa using takes_drain source live
  | renew | origin => exact ⟨[], source.pending, rfl, rfl, by simp [step, renew]⟩

/-! ## What a transcript tells -/

theorem after_concat {reader : Reader} {steps : List Step} {step : Step} :
    reader.after (steps ++ [step]) = ((reader.after steps).step step).2 := by
  rw [after, List.foldl_append]
  rfl

theorem transcript_append (reader : Reader) (steps more : List Step) :
    reader.transcript (steps ++ more)
      = reader.transcript steps ++ (reader.after steps).transcript more := by
  induction steps generalizing reader with
  | nil => rfl
  | cons step steps ih =>
      rw [List.cons_append, transcript, ih, transcript]
      rfl

theorem isSpent_concat {told : List (Step × List Answer)} {step : Step} {answers : List Answer} :
    isSpent (told ++ [(step, answers)])
      = (decide (step ≠ .renew) && (answers.any Answer.isFinal || isSpent told)) := by
  by_cases h : step = .renew <;> simp [isSpent, h]

/-- **The lines consumed are a prefix of the stream,** and the answers are theirs. -/
theorem exists_consumed (path : Option Path) (encoding : Encoding) (stream : Stream)
    (steps : List Step) :
    let start := ofLines { path, encoding, pending := stream }
    let told := start.transcript steps
    ∃ consumed unread : Stream, stream = consumed ++ unread
      ∧ (answersOf told).filterMap Answer.result? = consumed.map (Line.token encoding)
      ∧ start.after steps = lines ⟨path, encoding, unread, consumed.length⟩ (!isSpent told) := by
  intro start
  induction steps using List.reverseRecOn with
  | nil => exact ⟨[], stream, rfl, rfl, rfl⟩
  | append_singleton steps step ih =>
      obtain ⟨consumed, unread, hstream, hanswers, hafter⟩ := ih
      obtain ⟨taken, rest, hunread, htaken, hnext⟩ :=
        takes_step ⟨path, encoding, unread, consumed.length⟩ (!isSpent (start.transcript steps)) step
      rw [← hafter] at htaken hnext
      -- What was consumed before the step and what the step takes are consumed behind it.
      refine ⟨consumed ++ taken, rest, ?_, ?_, ?_⟩
      · rw [hstream, List.append_assoc]
        exact congrArg (consumed ++ ·) hunread
      · rw [transcript_append, answersOf, List.flatMap_append, List.filterMap_append, ← answersOf,
          hanswers, List.map_append, ← htaken]
        simp [transcript]
      · rw [after_concat, hnext, transcript_append, transcript, transcript, isSpent_concat,
          List.length_append]
        cases step with
        | renew => simp [Reader.step]
        | next | drain | origin => simp [Bool.and_comm]

/-! ## The whole -/

/-- **A line source loses, repeats and miscounts nothing,** however it is iterated and whatever its
lines are decoded by. Behind any steps, the lines consumed are a prefix of the stream; their tokens
and faults are the answers given, each once and in order; and the origin shows how many they are. A
spent iterator takes nothing more. Any other takes the next unread line, whether that can be decoded
or not, and a drain is as many such requests as it takes. A new iterator takes nothing by itself and
goes on where the old one was. -/
theorem lines_read_once (path : Option Path) (encoding : Encoding) (stream : Stream)
    (steps : List Step) :
    let start := ofLines { path, encoding, pending := stream }
    let told := start.transcript steps
    let reader := start.after steps
    ∃ consumed unread : Stream,
      stream = consumed ++ unread
        ∧ (answersOf told).filterMap Answer.result? = consumed.map (Line.token encoding)
        ∧ reader.origin
          = ⟨path, if consumed.length = 0 then none else some (consumed.length : Nat)⟩
        ∧ (isSpent told = true →
          reader.step .next = ([.ended], reader) ∧ reader.step .drain = ([.ended], reader))
        ∧ (isSpent told = false →
          (unread = [] →
              (reader.step .next).1 = [.ended] ∧ (reader.step .next).2.origin = reader.origin)
            ∧ ∀ line rest, unread = line :: rest →
              (reader.step .next).1.filterMap Answer.result? = [line.token encoding]
                ∧ (reader.step .next).2.origin = ⟨path, some (consumed.length + 1 : Nat)⟩)
        ∧ (∃ (tokens : List String) (last : Answer),
          (reader.step .drain).1 = tokens.map .token ++ [last] ∧ last.isFinal = true
            ∧ answersOf (reader.transcript (List.replicate (tokens.length + 1) .next))
              = (reader.step .drain).1
            ∧ reader.after (List.replicate (tokens.length + 1) .next) = (reader.step .drain).2)
        ∧ reader.step .renew = ([], lines ⟨path, encoding, unread, consumed.length⟩ true)
        ∧ isSpent (start.transcript (steps ++ [.renew])) = false
        ∧ reader.step .origin = ([], reader) := by
  intro start told reader
  obtain ⟨consumed, unread, hstream, hanswers, hafter⟩ :=
    exists_consumed path encoding stream steps
  have hreader : reader = lines ⟨path, encoding, unread, consumed.length⟩ (!isSpent told) := hafter
  refine ⟨consumed, unread, hstream, hanswers, ?_, ?_, ?_, drain_eq_nexts reader, ?_, ?_, rfl⟩
  · rw [hreader]
    rfl
  · intro hspent
    have hdead : reader.next = (.ended, reader) := by
      rw [hreader, hspent]
      rfl
    exact ⟨by rw [step, hdead], step_drain_of_final hdead rfl⟩
  · intro hlive
    rw [hlive] at hreader
    refine ⟨?_, ?_⟩
    · rintro rfl
      rw [hreader]
      exact ⟨rfl, rfl⟩
    · rintro line rest rfl
      obtain ⟨answer, hresult, hnext⟩ := exists_next_lines path encoding line rest consumed.length
      rw [hreader, step, Bool.not_false, hnext]
      exact ⟨by simp [hresult], by simp [origin, LineSource.origin]⟩
  · rw [hreader]
    rfl
  · rw [transcript_append]
    exact isSpent_concat

end ArchiveRecord.Reader
