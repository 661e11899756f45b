/- # ParamsText -- which texts hold which tokens

A params file holds one token per line. A line ends in a line feed, in front of
which one carriage return may stand; the last line may lack the line feed. A
token holds no line feed, and one that ends in a carriage return needs a second
one behind it.
-/
import ArchiveRecord.Source

namespace ArchiveRecord

/-- **`TokenLine token line`** -- the line is the token and a terminator. -/
inductive TokenLine : List Char → List Char → Prop where
  | lineFeed {token : List Char} (h : token.getLast? ≠ some '\r') :
      TokenLine token (token ++ ['\n'])
  | returned {token : List Char} : TokenLine token (token ++ ['\r', '\n'])

/-- **`ParamsText tokens text`** -- the text is a params file of the tokens. -/
inductive ParamsText : List (List Char) → List Char → Prop where
  | nil : ParamsText [] []
  | cons {token line text : List Char} {tokens : List (List Char)} (h : '\n' ∉ token) :
      TokenLine token line → ParamsText tokens text → ParamsText (token :: tokens) (line ++ text)
  | last {token : List Char} (h : '\n' ∉ token) (ne : token ≠ [])
      (end_ne : token.getLast? ≠ some '\r') : ParamsText [token] token
  | lastReturned {token : List Char} (h : '\n' ∉ token) : ParamsText [token] (token ++ ['\r'])

/-- Every list of tokens without line feeds has a params file. -/
theorem ParamsText.exists_of_tokens {tokens : List (List Char)} (h : ∀ t ∈ tokens, '\n' ∉ t) :
    ∃ text, ParamsText tokens text := by
  induction tokens with
  | nil => exact ⟨[], .nil⟩
  | cons token tokens ih =>
    obtain ⟨text, htext⟩ := ih fun t ht => h t (List.mem_cons_of_mem _ ht)
    exact ⟨_, .cons (h token List.mem_cons_self) .returned htext⟩

end ArchiveRecord
