/- # Proofs.Source.Decoding -- decoding line by line is decoding the whole

A line source cuts bytes behind each line feed and decodes the pieces one by one.
Cut and decoded in the other order they give the same:

* where the whole is text, each piece is text, and the pieces are those of the text;
* where the whole fails, the pieces in front of the place are text, and the piece
  that holds the place fails there, for the same reason.

The positions of a piece are counted from its own start, so the piece that fails
reports the place less the length of the pieces in front.
-/
import ArchiveRecord.Proofs.Encoding.ByLines
import ArchiveRecord.Proofs.Source.Format

namespace ArchiveRecord

/-! ## Cutting before decoding -/

namespace Encoding.DecodesByLines

variable {decode : List UInt8 → Except Undecodable (List Char)} {bytes front rest : List UInt8}
  {text : List Char} {place : Undecodable}

/-- A line of text is decoded as text and a line feed. -/
theorem line (h : DecodesByLines decode) (hfront : decode front = .ok text) :
    decode (front ++ [0x0A]) = .ok (text ++ ['\n']) := by
  rw [h.afresh [] hfront, h.nil]
  rfl

/-- **Where the whole is text, so is each line**, and the lines are those of the text. -/
theorem cut_of_ok (h : DecodesByLines decode) (htext : decode bytes = .ok text) :
    (cutAfter 0x0A bytes).map decode = (cutAfter '\n' text).map .ok := by
  induction bytes using cutAfter_induction (0x0A : UInt8) generalizing text with
  | nil =>
      rw [h.nil] at htext
      rw [← Except.ok.inj htext]
      rfl
  | last piece hne hpiece =>
      -- An open last line is one piece on both sides.
      rw [cutAfter_of_notMem hpiece hne, List.map_singleton, htext,
        cutAfter_of_notMem (h.newline_notMem htext hpiece) (h.ne_nil htext hne), List.map_singleton]
  | piece front rest hfront ih =>
      cases hline : decode front with
      | error place => rw [h.unmended rest hline] at htext; cases htext
      | ok line =>
          rw [h.afresh rest hline, mapError_map] at htext
          obtain ⟨more, hmore, rfl⟩ := exists_of_map_eq_ok htext
          rw [cutAfter_append_mark hfront, List.map_cons, h.line hline,
            ih (eq_ok_of_mapError_eq_ok hmore),
            cutAfter_append_mark (h.newline_notMem hline hfront), List.map_cons]

/-- **Where the whole is no text, one line is none,** at the same place and for the same reason, and
the lines in front of it are text. -/
theorem cut_of_error (h : DecodesByLines decode) (hplace : decode bytes = .error place) :
    ∃ (before : List (List UInt8)) (line : List UInt8) (after : List (List UInt8))
        (texts : List (List Char)) (inner : Undecodable),
      cutAfter 0x0A bytes = before ++ line :: after ∧ before.map decode = texts.map .ok
        ∧ decode line = .error inner ∧ inner.start < line.length
        ∧ place = inner.behind before.flatten.length := by
  induction bytes using cutAfter_induction (0x0A : UInt8) generalizing place with
  | nil =>
      rw [h.nil] at hplace
      cases hplace
  | last piece hne hpiece =>
      exact ⟨[], piece, [], [], place, cutAfter_of_notMem hpiece hne, rfl, hplace,
        h.start_lt hplace, rfl⟩
  | piece front rest hfront ih =>
      rw [cutAfter_append_mark hfront]
      cases hline : decode front with
      | error inner =>
          -- The line and the whole fail alike, since both go on with the same line feed.
          have hfed := h.unmended [] hline
          rw [h.unmended rest hline] at hplace
          obtain rfl := Except.error.inj hplace
          exact ⟨[], front ++ [0x0A], cutAfter 0x0A rest, [], inner.fed, rfl, rfl, hfed,
            h.start_lt hfed, rfl⟩
      | ok text =>
          rw [h.afresh rest hline, mapError_map] at hplace
          obtain ⟨next, hnext, rfl⟩ :=
            exists_of_mapError_eq_error (eq_error_of_map_eq_error hplace)
          obtain ⟨before, line, after, texts, inner, hcut, htexts, hinner, hlt, rfl⟩ := ih hnext
          -- The piece in front is one more line of text, and moves the place by its length.
          refine ⟨(front ++ [0x0A]) :: before, line, after, (text ++ ['\n']) :: texts, inner,
            by rw [hcut]; rfl, by rw [List.map_cons, h.line hline, htexts]; rfl, hinner, hlt, ?_⟩
          rw [Undecodable.behind_behind]
          simp [Nat.add_assoc, Nat.add_comm 1]

end Encoding.DecodesByLines

/-! ## Encodings of a source -/

namespace Encoding

/-- **`encoding.Decodes codec decode`** -- bytes in the encoding are decoded so, and faults name the
codec. -/
def Decodes (encoding : Encoding) (codec : String)
    (decode : List UInt8 → Except Undecodable (List Char)) : Prop :=
  ∀ bytes, encoding.decode bytes = (decode bytes).mapError (Fault.undecodable codec)

/-- Each encoding but the marked form of UTF-8 is decoded by lines, where it is known. -/
theorem exists_decodesByLines {encoding : Encoding}
    (h : encoding = .utf8 ∨ encoding = .latin1 ∨ encoding = .ascii) :
    ∃ codec decode, encoding.Decodes codec decode ∧ DecodesByLines decode := by
  rcases h with rfl | rfl | rfl
  · exact ⟨"utf-8", Utf8.decode, fun _ => rfl, Utf8.decodesByLines⟩
  · exact ⟨"latin-1", _, fun _ => rfl, decodesByLines_latin1⟩
  · exact ⟨"ascii", _, fun _ => rfl, decodesByLines_ascii⟩

end Encoding

/-! ## Draining up to the line that fails -/

/-- A source whose line has no token yields the tokens of the lines in front of it, and stops with
that line read. -/
theorem Reader.drain_lines_of_fault (path : Option Path) {encoding : Encoding} {before : Stream}
    {line : Line} {fault : Fault} {tokens : List String} (after : Stream) (consumed : Nat)
    (hbefore : before.map (Line.token encoding) = tokens.map .ok)
    (hline : line.token encoding = .error fault) :
    (lines ⟨path, encoding, before ++ line :: after, consumed⟩ true).drain
      = (tokens, .failed fault,
          lines ⟨path, encoding, after, consumed + before.length + 1⟩ false) := by
  induction before generalizing tokens consumed with
  | nil =>
      obtain rfl := List.map_eq_nil_iff.mp hbefore.symm
      exact drain_of_stopped (next_lines_fault hline) (by simp)
  | cons first before ih =>
      cases tokens with
      | nil => cases hbefore
      | cons token tokens =>
          obtain ⟨hfirst, hmore⟩ := List.cons.inj hbefore
          rw [List.cons_append, drain_of_token (next_lines_token hfirst), ih _ hmore]
          simp [Nat.add_right_comm, Nat.add_assoc]

namespace Line

variable {encoding : Encoding} {codec : String}
  {decode : List UInt8 → Except Encoding.Undecodable (List Char)}

/-- Pieces that are text have the tokens of that text. -/
theorem map_token_bytes (h : encoding.Decodes codec decode) {pieces : List (List UInt8)}
    {texts : List (List Char)} (hpieces : pieces.map decode = texts.map .ok) :
    (pieces.map Line.bytes).map (token encoding)
      = (texts.map fun text => String.ofList (chomp text)).map .ok := by
  have hall : pieces.map (fun piece => (Line.bytes piece).token encoding)
      = (pieces.map decode).map fun result => (result.mapError (Fault.undecodable codec)).map
          fun text => String.ofList (chomp text) := by
    rw [List.map_map]
    exact List.map_congr_left fun piece _ => by rw [token, decoded, h piece]; rfl
  rw [List.map_map, List.map_map]
  exact hall.trans (by rw [hpieces, List.map_map]; rfl)

/-- A piece that is no text has no token, and the fault is that of its bytes. -/
theorem token_bytes_of_error (h : encoding.Decodes codec decode) {piece : List UInt8}
    {place : Encoding.Undecodable} (hpiece : decode piece = .error place) :
    (Line.bytes piece).token encoding = .error (.undecodable codec place) := by
  rw [token, decoded, h piece, hpiece]
  rfl

end Line

/-! ## The whole -/

/-- **`FailsInLine path encoding bytes codec place`** -- a source of the bytes yields the tokens of
the lines in front of the line that holds the place. That line fails for the reason of the place,
whose positions it counts from its own start, and the origin shows its number. -/
def FailsInLine (path : Option Path) (encoding : Encoding) (bytes : List UInt8) (codec : String)
    (place : Encoding.Undecodable) : Prop :=
  ∃ (before : List (List UInt8)) (line : List UInt8) (after : List (List UInt8))
      (tokens : List String) (inner : Encoding.Undecodable) (source : LineSource),
    cutAfter 0x0A bytes = before ++ line :: after
      ∧ before.flatten.length ≤ place.start
      ∧ place.start < before.flatten.length + line.length
      ∧ (before.map Line.bytes).map (Line.token encoding) = tokens.map .ok
      ∧ place = inner.behind before.flatten.length
      ∧ (Reader.ofLines { path, encoding, pending := .ofBytes bytes }).drain
          = (tokens, .failed (.undecodable codec inner), .lines source false)
      ∧ source.origin = ⟨path, some (before.length + 1)⟩

/-- **Decoding line by line is decoding the whole.** Bytes that are text yield the tokens of the
text; where the bytes as a whole are no text, the source fails in the line that holds the place. -/
theorem tokens_of_lines_decoded (path : Option Path) {encoding : Encoding}
    (h : encoding = .utf8 ∨ encoding = .latin1 ∨ encoding = .ascii) (bytes : List UInt8) :
    (∀ text, encoding.decode bytes = .ok text →
        ∃ tokens, LineSource.Yields { path, encoding, pending := .ofBytes bytes } tokens
          ∧ LineSource.Yields { path, encoding, pending := .ofText text } tokens)
      ∧ ∀ fault, encoding.decode bytes = .error fault →
        ∃ codec place, fault = .undecodable codec place
          ∧ FailsInLine path encoding bytes codec place := by
  obtain ⟨codec, decode, hdecodes, hlines⟩ := Encoding.exists_decodesByLines h
  rw [hdecodes bytes]
  constructor
  · intro text htext
    have hwhole := Encoding.eq_ok_of_mapError_eq_ok htext
    refine ⟨(cutAfter '\n' text).map fun line => String.ofList (Line.chomp line), ?_, ?_⟩
    · exact LineSource.yields_iff.mpr (Line.map_token_bytes hdecodes (hlines.cut_of_ok hwhole))
    · refine LineSource.yields_iff.mpr ?_
      rw [Stream.map_token_ofText, List.map_map, List.map_map]
      rfl
  · intro fault hfault
    obtain ⟨place, hwhole, rfl⟩ := Encoding.exists_of_mapError_eq_error hfault
    obtain ⟨before, line, after, texts, inner, hcut, htexts, hinner, hlt, rfl⟩ :=
      hlines.cut_of_error hwhole
    have htokens := Line.map_token_bytes hdecodes htexts
    refine ⟨codec, _, rfl, before, line, after, _, inner,
      ⟨path, encoding, after.map .bytes, before.length + 1⟩, hcut, Nat.le_add_left _ _, ?_,
      htokens, rfl, ?_, ?_⟩
    · show inner.start + _ < _
      omega
    · have hdrain := Reader.drain_lines_of_fault path (after.map .bytes) 0 htokens
        (Line.token_bytes_of_error hdecodes hinner)
      rw [Stream.ofBytes, hcut, List.map_append, List.map_cons]
      rwa [List.length_map, Nat.zero_add] at hdrain
    · simp [LineSource.origin]

/-- Two lines of text, the second with a sequence of two bytes. -/
def wholeSequence : List UInt8 := [0x61, 0x0A, 0xC3, 0xA9, 0x0A]

/-- Three lines, the second with a sequence that its line feed cuts off. -/
def brokenSequence : List UInt8 := [0x61, 0x0A, 0xE2, 0x82, 0x0A, 0xAC]

/-- A sequence that goes over two lines fails in the first of them, and one that ends in its line is
text. -/
theorem tokens_of_broken_and_whole_sequence :
    FailsInLine none .utf8 brokenSequence "utf-8" ⟨2, 4, 0xE2, .continuation⟩
      ∧ ∃ tokens,
        LineSource.Yields ⟨none, .utf8, .ofBytes wholeSequence, 0⟩ tokens
          ∧ LineSource.Yields ⟨none, .utf8, .ofText ['a', '\n', 'é', '\n'], 0⟩ tokens := by
  constructor
  · obtain ⟨codec, place, hfault, hfails⟩ := (tokens_of_lines_decoded none (.inl rfl)
      brokenSequence).2 (.undecodable "utf-8" ⟨2, 4, 0xE2, .continuation⟩) rfl
    obtain ⟨rfl, rfl⟩ := Fault.undecodable.inj hfault
    exact hfails
  · exact (tokens_of_lines_decoded none (.inl rfl) wholeSequence).1 _ rfl

end ArchiveRecord
