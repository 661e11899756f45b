/- # Proofs.Source.Lines -- the tokens of a params file

Three facts, each a step from a text to the tokens that a parse reads:

* the bytes of a text are cut where the text is, so the stream of its bytes and
  the stream of the text have lines with the same tokens;
* a line without its terminator is its token;
* hence the readings of any params file of a list of tokens are those tokens, and
  only the origins tell them from arguments.
-/
import ArchiveRecord.ParamsText
import ArchiveRecord.Proofs.Encoding.Utf8

namespace ArchiveRecord

/-! ## Cutting -/

section Cutting

variable {α : Type} [DecidableEq α] {mark : α}

theorem cutAfter_cons_mark (rest : List α) :
    cutAfter mark (mark :: rest) = [mark] :: cutAfter mark rest := by
  rw [cutAfter, if_pos rfl]

theorem cutAfter_cons_of_ne {a : α} (h : a ≠ mark) (rest : List α) :
    cutAfter mark (a :: rest)
      = match cutAfter mark rest with
        | [] => [[a]]
        | piece :: more => (a :: piece) :: more := by
  show (if a = mark then [a] :: cutAfter mark rest else _) = _
  exact if_neg h

/-- Elements that are no mark stay in front of the first piece. -/
theorem cutAfter_append_of_notMem {front rest : List α} (h : mark ∉ front) (hne : front ≠ []) :
    cutAfter mark (front ++ rest)
      = match cutAfter mark rest with
        | [] => [front]
        | piece :: more => (front ++ piece) :: more := by
  induction front with
  | nil => exact absurd rfl hne
  | cons a front ih =>
      simp only [List.mem_cons, not_or] at h
      obtain ⟨ha, hfront⟩ := h
      rw [List.cons_append, cutAfter_cons_of_ne (Ne.symm ha)]
      by_cases hnil : front = []
      · rw [hnil, List.nil_append]
        rfl
      · rw [ih hfront hnil]
        cases cutAfter mark rest <;> rfl

/-- A piece goes up to the mark that ends it. -/
theorem cutAfter_append_mark {front : List α} (h : mark ∉ front) (rest : List α) :
    cutAfter mark (front ++ mark :: rest) = (front ++ [mark]) :: cutAfter mark rest := by
  by_cases hnil : front = []
  · rw [hnil]
    exact cutAfter_cons_mark rest
  · rw [cutAfter_append_of_notMem h hnil, cutAfter_cons_mark]

/-- Without a mark there is one piece. -/
theorem cutAfter_of_notMem {front : List α} (h : mark ∉ front) (hne : front ≠ []) :
    cutAfter mark front = [front] := by
  have hall : cutAfter mark (front ++ []) = _ := cutAfter_append_of_notMem h hne
  rwa [List.append_nil] at hall

/-- A list is empty, or goes up to a first mark, or holds none. -/
theorem cutAfter_induction (mark : α) {motive : List α → Prop} (nil : motive [])
    (last : ∀ piece, piece ≠ [] → mark ∉ piece → motive piece)
    (piece : ∀ front rest, mark ∉ front → motive rest → motive (front ++ mark :: rest))
    (list : List α) : motive list := by
  by_cases hmark : mark ∈ list
  · obtain ⟨front, rest, hlist, hfront⟩ := List.eq_append_cons_of_mem hmark
    have hshorter : rest.length < list.length := by
      rw [hlist]
      simp
      omega
    rw [hlist]
    exact piece front rest hfront (cutAfter_induction mark nil last piece rest)
  · by_cases hnil : list = []
    · exact hnil ▸ nil
    · exact last list hnil hmark
termination_by list.length

/-- Behind a mark, a list is cut as if nothing stood in front of it. -/
theorem cutAfter_append_of_closed {front : List α} (h : front = [] ∨ front.getLast? = some mark)
    (rest : List α) : cutAfter mark (front ++ rest) = cutAfter mark front ++ cutAfter mark rest := by
  induction front using cutAfter_induction mark with
  | nil => rfl
  | last piece hne hpiece =>
      rcases h with rfl | hlast
      · exact absurd rfl hne
      · exact absurd (List.mem_of_getLast? hlast) hpiece
  | piece first more hfirst ih =>
      have hmore : more = [] ∨ more.getLast? = some mark := by
        rcases h with h | h
        · simp at h
        · cases more with
          | nil => exact .inl rfl
          | cons a more => exact .inr (by simpa using h)
      rw [List.append_assoc, List.cons_append, cutAfter_append_mark hfirst, ih hmore,
        cutAfter_append_mark hfirst, List.cons_append]

/-- Pieces that end in their only mark are cut apart. -/
theorem cutAfter_flatMap_concat {pieces : List (List α)} (h : ∀ piece ∈ pieces, mark ∉ piece) :
    cutAfter mark (pieces.flatMap fun piece => piece ++ [mark])
      = pieces.map fun piece => piece ++ [mark] := by
  induction pieces with
  | nil => rfl
  | cons piece pieces ih =>
      obtain ⟨hpiece, hpieces⟩ := List.forall_mem_cons.mp h
      rw [List.flatMap_cons, List.append_assoc, List.singleton_append, cutAfter_append_mark hpiece,
        ih hpieces, List.map_cons]

/-- A list that does not end in a mark ends in a piece without any. -/
theorem exists_open_piece {list : List α} (hne : list ≠ []) (hlast : list.getLast? ≠ some mark) :
    ∃ front piece, list = front ++ piece ∧ (front = [] ∨ front.getLast? = some mark)
      ∧ piece ≠ [] ∧ mark ∉ piece := by
  induction list using cutAfter_induction mark with
  | nil => exact absurd rfl hne
  | last piece hpiece hmark => exact ⟨[], piece, rfl, .inl rfl, hpiece, hmark⟩
  | piece first more _ ih =>
      have hmore : more ≠ [] := by
        rintro rfl
        exact hlast (by simp)
      have hend : more.getLast? ≠ some mark := by
        intro h
        obtain ⟨front, rfl⟩ := List.getLast?_eq_some_iff.mp h
        exact hlast (List.getLast?_eq_some_iff.mpr ⟨first ++ mark :: front, by simp⟩)
      obtain ⟨front, piece, rfl, hfront, hpiece, hmark⟩ := ih hmore hend
      refine ⟨first ++ mark :: front, piece, by simp, .inr ?_, hpiece, hmark⟩
      rcases hfront with rfl | hfront
      · simp
      · obtain ⟨front, rfl⟩ := List.getLast?_eq_some_iff.mp hfront
        exact List.getLast?_eq_some_iff.mpr ⟨first ++ mark :: front, by simp⟩

end Cutting

/-- **Cutting and encoding may change places.** -/
theorem cutAfter_encode (text : List Char) :
    cutAfter 0x0A (Encoding.Utf8.encode text)
      = (cutAfter '\n' text).map Encoding.Utf8.encode := by
  induction text with
  | nil => rfl
  | cons c rest ih =>
      show cutAfter 0x0A (Encoding.Utf8.encodeChar c ++ Encoding.Utf8.encode rest) = _
      by_cases hc : c = '\n'
      · rw [hc, Encoding.Utf8.encodeChar_newline, List.singleton_append, cutAfter_cons_mark,
          cutAfter_cons_mark, ih]
        rfl
      · -- The bytes of another character are not cut; they go in front of the first piece.
        rw [cutAfter_append_of_notMem (Encoding.Utf8.newline_notMem_encodeChar hc)
          (Encoding.Utf8.encodeChar_ne_nil c), cutAfter_cons_of_ne hc, ih]
        cases cutAfter '\n' rest with
        | nil => simp [Encoding.Utf8.encode]
        | cons piece more => simp [Encoding.Utf8.encode]

/-! ## Lines and their tokens -/

theorem dropLastIf_concat {α : Type} [DecidableEq α] (mark : α) (front : List α) :
    dropLastIf mark (front ++ [mark]) = front := by
  simp [dropLastIf]

theorem dropLastIf_of_getLast?_ne {α : Type} [DecidableEq α] {mark : α} {list : List α}
    (h : list.getLast? ≠ some mark) : dropLastIf mark list = list := by
  rw [dropLastIf, if_neg h]

theorem getLast?_ne_of_notMem {α : Type} {mark : α} {list : List α} (h : mark ∉ list) :
    list.getLast? ≠ some mark :=
  fun hlast => h (List.mem_of_getLast? hlast)

namespace Line

/-- What is left of a line without its terminator is its token. -/
theorem chomp_of_tokenLine {token line : List Char} (h : TokenLine token line) :
    chomp line = token := by
  cases h with
  | lineFeed hend => rw [chomp, dropLastIf_concat, dropLastIf_of_getLast?_ne hend]
  | returned =>
      have hline : token ++ ['\r', '\n'] = (token ++ ['\r']) ++ ['\n'] := by simp
      rw [chomp, hline, dropLastIf_concat, dropLastIf_concat]

theorem chomp_of_unterminated {token : List Char} (h : '\n' ∉ token)
    (hend : token.getLast? ≠ some '\r') : chomp token = token := by
  rw [chomp, dropLastIf_of_getLast?_ne (getLast?_ne_of_notMem h), dropLastIf_of_getLast?_ne hend]

theorem chomp_of_lone_return {token : List Char} (h : '\n' ∉ token) :
    chomp (token ++ ['\r']) = token := by
  have hmem : '\n' ∉ token ++ ['\r'] := by simp [h]
  rw [chomp, dropLastIf_of_getLast?_ne (getLast?_ne_of_notMem hmem), dropLastIf_concat]

/-- A line of bytes is read as the text that it encodes. -/
theorem token_bytes_encode (characters : List Char) :
    (Line.bytes (Encoding.Utf8.encode characters)).token .utf8
      = (Line.text characters).token .utf8 := by
  simp [token, decoded, Encoding.utf8, Encoding.Utf8.decode_encode, Except.mapError]

end Line

/-- A line has no token in UTF-8 only where its bytes are no text. -/
theorem Line.undecodable_of_token {line : Line} {fault : Fault}
    (h : line.token .utf8 = .error fault) : ∃ place, fault = .undecodable "utf-8" place := by
  cases line with
  | text characters => cases h
  | bytes raw =>
      rw [token, decoded, Encoding.utf8] at h
      obtain ⟨place, -, rfl⟩ :=
        Encoding.exists_of_mapError_eq_error (Encoding.eq_error_of_map_eq_error h)
      exact ⟨place, rfl⟩

/-! ## Streams and their tokens -/

/-- A line with its terminator is the first piece of a text. -/
theorem TokenLine.cutAfter_append {token line : List Char} (h : TokenLine token line)
    (hfeed : '\n' ∉ token) (rest : List Char) :
    cutAfter '\n' (line ++ rest) = line :: cutAfter '\n' rest := by
  cases h with
  | lineFeed =>
      rw [List.append_assoc, List.singleton_append]
      exact cutAfter_append_mark hfeed rest
  | returned =>
      have hreturned : '\n' ∉ token ++ ['\r'] := by simp [hfeed]
      have := cutAfter_append_mark hreturned rest
      simpa using this

/-- **A params file is read as its tokens.** -/
theorem ParamsText.map_token {tokens : List (List Char)} {text : List Char}
    (h : ParamsText tokens text) :
    (cutAfter '\n' text).map Line.chomp = tokens := by
  induction h with
  | nil => rfl
  | cons hfeed hline _ ih =>
      rw [hline.cutAfter_append hfeed, List.map_cons, ih, Line.chomp_of_tokenLine hline]
  | last hfeed hne hend =>
      rw [cutAfter_of_notMem hfeed hne, List.map_singleton, Line.chomp_of_unterminated hfeed hend]
  | lastReturned hfeed =>
      rw [cutAfter_of_notMem (by simp [hfeed]) (by simp), List.map_singleton,
        Line.chomp_of_lone_return hfeed]

/-- The stream of the bytes of a text has the tokens of the text. -/
theorem Stream.map_token_ofBytes (text : List Char) :
    (Stream.ofBytes (Encoding.Utf8.encode text)).map (Line.token .utf8)
      = (Stream.ofText text).map (Line.token .utf8) := by
  rw [ofBytes, ofText, cutAfter_encode]
  simp only [List.map_map]
  exact List.map_congr_left fun line _ => Line.token_bytes_encode line

/-- The tokens of a text are its pieces without their terminators, in every encoding. -/
theorem Stream.map_token_ofText (encoding : Encoding) (text : List Char) :
    (Stream.ofText text).map (Line.token encoding)
      = ((cutAfter '\n' text).map Line.chomp).map fun token => .ok (String.ofList token) := by
  have htoken : Line.token encoding ∘ Line.text
      = fun line => .ok (String.ofList (Line.chomp line)) := rfl
  rw [ofText, List.map_map, htoken, List.map_map]
  rfl

/-- The stream of a params file, as text or as bytes, delivers its tokens. -/
theorem ParamsText.map_token_stream {tokens : List String} {text : List Char} {stream : Stream}
    (h : ParamsText (tokens.map String.toList) text)
    (hstream : stream = .ofText text ∨ stream = .ofBytes (Encoding.Utf8.encode text)) :
    stream.map (Line.token .utf8) = tokens.map .ok := by
  have htext : (Stream.ofText text).map (Line.token .utf8) = tokens.map .ok := by
    rw [Stream.map_token_ofText, h.map_token, List.map_map]
    exact List.map_congr_left fun token _ => by simp
  rcases hstream with rfl | rfl
  · exact htext
  · rw [Stream.map_token_ofBytes, htext]

/-! ## Readings -/

theorem map_result_argumentReadings (arguments : List String) :
    (argumentReadings arguments).map Reading.result = arguments.map .ok := by
  rw [argumentReadings, List.map_map]
  rfl

theorem origin_of_head?_argumentReadings {arguments : List String} {reading : Reading}
    (h : (argumentReadings arguments).head? = some reading) : reading.origin = .arguments := by
  cases arguments with
  | nil => simp [argumentReadings] at h
  | cons =>
      rw [argumentReadings, List.map_cons, List.head?_cons, Option.some.injEq] at h
      rw [← h]

theorem map_result_lineReadings (path : Option Path) (encoding : Encoding) (consumed : Nat)
    (stream : Stream) :
    (lineReadings path encoding consumed stream).map Reading.result
      = stream.map (Line.token encoding) := by
  induction stream generalizing consumed with
  | nil => rfl
  | cons line rest ih => rw [lineReadings, List.map_cons, List.map_cons, ih]

end ArchiveRecord
