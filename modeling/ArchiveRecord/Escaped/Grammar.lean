/- # Escaped.Grammar -- which texts spell which fields

The grammar of escaped fields, said without splitting. A character of a field is
written behind an escape or, where it is neither delimiter nor escape, by itself.
Fields stand between delimiters, and one escape may be left over at the end.
-/
import ArchiveRecord.Escaped

namespace ArchiveRecord.Escaped

/-- **`Spells d e text field`** -- the text writes one field, for delimiter `d` and escape `e`. -/
inductive Spells (d e : Char) : List Char → List Char → Prop where
  | nil : Spells d e [] []
  | plain {c : Char} {text field : List Char} (hd : c ≠ d) (he : c ≠ e) :
      Spells d e text field → Spells d e (c :: text) (c :: field)
  | escaped {c : Char} {text field : List Char} :
      Spells d e text field → Spells d e (e :: c :: text) (c :: field)

/-- **`SpellsAll d e text fields`** -- the text writes the fields with a delimiter between each two
of them, and possibly one more escape at its end. -/
inductive SpellsAll (d e : Char) : List Char → List (List Char) → Prop where
  | last {text field : List Char} : Spells d e text field → SpellsAll d e text [field]
  | dangling {text field : List Char} :
      Spells d e text field → SpellsAll d e (text ++ [e]) [field]
  | cons {text rest field : List Char} {fields : List (List Char)} :
      Spells d e text field → SpellsAll d e rest fields →
        SpellsAll d e (text ++ d :: rest) (field :: fields)

/-- A field is spelled by its escaped form. -/
theorem Spells.of_escape (d e : Char) (field : List Char) :
    Spells d e (escape d e field) field := by
  induction field with
  | nil => exact .nil
  | cons c rest ih =>
    rw [escape, List.flatMap_cons]
    by_cases h : c = d ∨ c = e
    · rw [if_pos h]
      exact .escaped ih
    · obtain ⟨hd, he⟩ := not_or.mp h
      rw [if_neg h]
      exact .plain hd he ih

end ArchiveRecord.Escaped
