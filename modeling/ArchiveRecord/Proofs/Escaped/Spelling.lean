/- # Proofs.Escaped.Spelling -- the splitter reads exactly its grammar

`Escaped.split` keeps one bit of state, the escape that waits for its character;
`Spells` and `SpellsAll` say without any state which texts write which fields.
Both directions go through `fieldsFrom`:

* **sound** -- what `fieldsFrom` returns is spelled by the text, with an escape in
  front of it where the bit is set;
* **complete** -- a spelled field is put in front of whatever the rest of the text
  is split into, so a text has no second list of fields.

The escaped form is one spelling of a field, hence joining escaped fields and
splitting again gives the fields back.
-/
import ArchiveRecord.Escaped.Grammar
import Mathlib.Data.List.Forall2

namespace ArchiveRecord.Escaped

variable {d e : Char}

/-! ## A spelled field in front of spelled fields -/

/-- A character written by itself goes in front of the first field. -/
theorem SpellsAll.plain {c : Char} {text : List Char} {fields : List (List Char)} (hd : c ≠ d)
    (he : c ≠ e) (h : SpellsAll d e text fields) : SpellsAll d e (c :: text) (extend c fields) := by
  cases h with
  | last h => exact .last (.plain hd he h)
  | dangling h => exact .dangling (.plain hd he h)
  | cons h more => exact .cons (.plain hd he h) more

/-- A character written behind an escape goes in front of the first field, whatever it is. -/
theorem SpellsAll.escaped {c : Char} {text : List Char} {fields : List (List Char)}
    (h : SpellsAll d e text fields) : SpellsAll d e (e :: c :: text) (extend c fields) := by
  cases h with
  | last h => exact .last (.escaped h)
  | dangling h => exact .dangling (.escaped h)
  | cons h more => exact .cons (.escaped h) more

theorem foldr_extend (front field : List Char) (more : List (List Char)) :
    front.foldr extend (field :: more) = (front ++ field) :: more := by
  induction front with
  | nil => rfl
  | cons c front ih => rw [List.foldr_cons, ih, extend, List.cons_append]

/-- Splitting passes over a spelled field and goes on behind it. -/
theorem Spells.fieldsFrom_append {text field : List Char} (h : Spells d e text field)
    (rest : List Char) :
    fieldsFrom d e false (text ++ rest) = field.foldr extend (fieldsFrom d e false rest) := by
  induction h with
  | nil => rfl
  | plain hd he _ ih =>
      rw [List.cons_append, fieldsFrom, if_neg he, if_neg hd, ih, List.foldr_cons]
  | escaped _ ih =>
      rw [List.cons_append, List.cons_append, fieldsFrom, if_pos rfl, fieldsFrom, ih,
        List.foldr_cons]

/-! ## Sound and complete -/

/-- A text spells what it is split into. The bit stands for an escape that was read already. -/
theorem spellsAll_fieldsFrom (d e : Char) (behind : Bool) (text : List Char) :
    SpellsAll d e ((if behind then [e] else []) ++ text) (fieldsFrom d e behind text) := by
  induction text generalizing behind with
  | nil =>
      cases behind with
      | false => exact .last .nil
      | true => exact .dangling .nil
  | cons c rest ih =>
      cases behind with
      | true => exact (ih false).escaped
      | false =>
          -- An escape sets the bit and puts nothing in front of a field yet.
          show SpellsAll d e (c :: rest) (fieldsFrom d e false (c :: rest))
          rw [fieldsFrom]
          by_cases he : c = e
          · rw [if_pos he, he]
            exact ih true
          · rw [if_neg he]
            by_cases hd : c = d
            · rw [if_pos hd, hd]
              exact .cons .nil (ih false)
            · rw [if_neg hd]
              exact (ih false).plain hd he

/-- A text is split into no other fields than those it spells. -/
theorem SpellsAll.fields_eq {text : List Char} {fields : List (List Char)} (distinct : d ≠ e)
    (h : SpellsAll d e text fields) : Escaped.fields d e text = fields := by
  unfold Escaped.fields
  induction h with
  | last h =>
      have hall := h.fieldsFrom_append []
      rwa [List.append_nil, fieldsFrom, foldr_extend, List.append_nil] at hall
  | dangling h =>
      -- The escape at the end sets the bit, and the bit alone adds no character.
      rw [h.fieldsFrom_append, fieldsFrom, if_pos rfl, fieldsFrom, foldr_extend, List.append_nil]
  | cons h _ ih =>
      rw [h.fieldsFrom_append, fieldsFrom, if_neg distinct, if_pos rfl, foldr_extend,
        List.append_nil, ih]

/-- **Splitting is deciding the grammar.** -/
theorem fields_eq_iff {text : List Char} {fields : List (List Char)} (distinct : d ≠ e) :
    Escaped.fields d e text = fields ↔ SpellsAll d e text fields := by
  constructor
  · rintro rfl
    exact spellsAll_fieldsFrom d e false text
  · exact SpellsAll.fields_eq distinct

/-! ## The grammar as delimiters between parts -/

/-- The fields are spelled by parts with a delimiter between each two, and one escape may be left
over behind the last part. -/
theorem spellsAll_iff_intercalate {text : List Char} {fields : List (List Char)} :
    SpellsAll d e text fields ↔
      fields ≠ [] ∧ ∃ parts, List.Forall₂ (Spells d e) parts fields ∧
        (text = [d].intercalate parts ∨ text = [d].intercalate parts ++ [e]) := by
  constructor
  · intro h
    induction h with
    | @last text field h =>
        exact ⟨by simp, [text], .cons h .nil, .inl List.intercalate_singleton.symm⟩
    | @dangling text field h =>
        exact ⟨by simp, [text], .cons h .nil, .inr (by rw [List.intercalate_singleton])⟩
    | @cons text rest field fields h _ ih =>
        obtain ⟨hne, parts, hparts, hrest⟩ := ih
        obtain ⟨part, parts, rfl⟩ : ∃ part more, parts = part :: more := by
          cases hparts with
          | nil => exact absurd rfl hne
          | cons => exact ⟨_, _, rfl⟩
        refine ⟨by simp, text :: part :: parts, .cons h hparts, ?_⟩
        rw [List.intercalate_cons_cons]
        -- Whether an escape is left over is decided behind the last part.
        rcases hrest with rfl | rfl
        · exact .inl (by simp)
        · exact .inr (by simp)
  · rintro ⟨hne, parts, hparts, htext⟩
    induction hparts generalizing text with
    | nil => exact absurd rfl hne
    | @cons part field parts fields hpart hparts ih =>
        cases hparts with
        | nil =>
            rw [List.intercalate_singleton] at htext
            rcases htext with rfl | rfl
            · exact .last hpart
            · exact .dangling hpart
        | cons hnext hmore =>
            rw [List.intercalate_cons_cons, List.append_assoc, List.append_assoc] at htext
            rcases htext with rfl | rfl
            · exact .cons hpart (ih (by simp) (.inl rfl))
            · simp only [List.append_assoc]
              exact .cons hpart (ih (by simp) (.inr rfl))

/-! ## Values as strings -/

/-- The written form of fields: each escaped, with a delimiter between each two. -/
def joined (d e : Char) (fields : List String) : String :=
  String.ofList ([d].intercalate (fields.map fun field => escape d e field.toList))

theorem split_singleton (distinct : d ≠ e) (value : String) :
    split value (.singleton d) (.singleton e)
      = .ok ((fields d e value.toList).map String.ofList) := by
  simp [split, single, distinct, bind, Except.bind, pure, Except.pure]

theorem map_ofList_eq_iff {texts : List (List Char)} {strings : List String} :
    texts.map String.ofList = strings ↔ texts = strings.map String.toList := by
  constructor
  · rintro rfl
    simp [Function.comp_def]
  · rintro rfl
    simp [Function.comp_def]

/-- A value is split into the fields that it spells, and into no others. -/
theorem split_eq_ok_iff_spellsAll (distinct : d ≠ e) {value : String} {strings : List String} :
    split value (.singleton d) (.singleton e) = .ok strings
      ↔ SpellsAll d e value.toList (strings.map String.toList) := by
  rw [split_singleton distinct, Except.ok.injEq, map_ofList_eq_iff, fields_eq_iff distinct]

/-- The written form of fields spells them. -/
theorem spellsAll_joined {strings : List String} (hne : strings ≠ []) :
    SpellsAll d e (joined d e strings).toList (strings.map String.toList) := by
  rw [joined, String.toList_ofList, spellsAll_iff_intercalate]
  refine ⟨by simpa using hne, _, ?_, .inl rfl⟩
  rw [List.forall₂_map_left_iff, List.forall₂_map_right_iff, List.forall₂_same]
  exact fun string _ => Spells.of_escape d e string.toList

/-- A pair is the two fields of a token that has two. -/
theorem pair_of_split {token delimiter escape key value : String}
    (h : split token delimiter escape = .ok [key, value]) :
    pair token delimiter escape = .ok (key, value) := by
  simp [pair, h, bind, Except.bind, pure, Except.pure]

theorem split_joined (distinct : d ≠ e) {strings : List String} (hne : strings ≠ []) :
    split (joined d e strings) (.singleton d) (.singleton e) = .ok strings :=
  (split_eq_ok_iff_spellsAll distinct).mpr (spellsAll_joined hne)

/-- An escaped key and an escaped value are read as that pair. -/
theorem pair_escaped (distinct : d ≠ e) (key value : String) :
    pair (.ofList (escape d e key.toList ++ d :: escape d e value.toList))
      (.singleton d) (.singleton e) = .ok (key, value) := by
  have htoken : String.ofList (escape d e key.toList ++ d :: escape d e value.toList)
      = joined d e [key, value] := by
    simp [joined, List.intercalate_cons_cons]
  rw [htoken]
  exact pair_of_split (split_joined distinct (by simp))

/-- **`split` decides the escape grammar.** The fields of a value are those that its parts between
delimiters spell, one escape at the end being left over; so escaped fields that are joined are
split again, and an escaped key and value are read as that pair. -/
theorem split_iff_spelled (d e : Char) (distinct : d ≠ e) :
    (∀ (value : String) (strings : List String),
        split value (.singleton d) (.singleton e) = .ok strings ↔
          strings ≠ [] ∧ ∃ parts : List (List Char),
            List.Forall₂ (fun part string => Spells d e part string.toList) parts strings ∧
              (value.toList = [d].intercalate parts ∨
                value.toList = [d].intercalate parts ++ [e]))
      ∧ (∀ strings : List String, strings ≠ [] →
          split (joined d e strings) (.singleton d) (.singleton e) = .ok strings)
      ∧ ∀ key value : String,
          pair (.ofList (escape d e key.toList ++ d :: escape d e value.toList))
            (.singleton d) (.singleton e) = .ok (key, value) := by
  refine ⟨?_, fun _ hne => split_joined distinct hne, pair_escaped distinct⟩
  intro value strings
  rw [split_eq_ok_iff_spellsAll distinct, spellsAll_iff_intercalate]
  simp only [ne_eq, List.map_eq_nil_iff, List.forall₂_map_right_iff]

/-- A redundant escape, an escaped delimiter and a dangling escape, read by the grammar. -/
theorem split_iff_spelled_equals :
    '=' ≠ '\\' ∧ split "\\a\\==b\\" "=" "\\" = .ok ["a=", "b"] := by
  have distinct : '=' ≠ '\\' := by decide
  refine ⟨distinct, ((split_iff_spelled '=' '\\' distinct).1 _ _).mpr ⟨by simp, ?_⟩⟩
  refine ⟨["\\a\\=".toList, "b".toList], .cons ?_ (.cons ?_ .nil), .inr (by decide)⟩
  · exact .escaped (.escaped .nil)
  · exact .plain (by decide) (by decide) .nil

end ArchiveRecord.Escaped
