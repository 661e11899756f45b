/- # Proofs.Json.RoundTrip -- what is printed is read again

The reader gives back each printed value and the text behind it, whatever that
text is; only a number needs to be told where it ends, by anything that cannot go
on in it.

* **strings** -- one escaped character in front of any rest is read as that
  character, so a string is an induction on its characters;
* **numbers** -- the reader takes all digits that it finds, and these are the
  digits of the number;
* **values** -- one case for each kind of value, with the items of a list and the
  members of a mapping taken along. A step of the reader takes at least half a
  character, which bounds the counter by twice the length of the text.
-/
import ArchiveRecord.Json.Printer
import ArchiveRecord.Json.Reader
import ArchiveRecord.Proofs.Text.Numeral
import Mathlib.Tactic.SplitIfs

namespace ArchiveRecord.Json

/-! ## Strings -/

/-- The four digits of a code unit are read as the unit. -/
theorem readUnit?_numeral {n : Nat} (h : n < 0x10000) (rest : List Char) :
    readUnit? (Text.numeral 16 4 n ++ rest) = some (n, rest) := by
  have hnumber : Text.number? 16 (Text.numeral 16 4 n) = some n := by
    rw [Text.number?_numeral (by omega) (by omega)]
    exact congrArg some (Nat.mod_eq_of_lt h)
  obtain ⟨a, b, c, d, hdigits⟩ : ∃ a b c d, Text.numeral 16 4 n = [a, b, c, d] :=
    ⟨_, _, _, _, rfl⟩
  rw [hdigits] at hnumber ⊢
  show (Text.number? 16 [a, b, c, d]).map (·, rest) = some (n, rest)
  rw [hnumber, Option.map_some]

/-- An escape by code point is read as the character. -/
theorem readCode?_numeral {c : Char} (h : c.toNat < 0x20) (rest : List Char) :
    readCode? (Text.numeral 16 4 c.toNat ++ rest) = some (c, rest) := by
  have hunit := readUnit?_numeral (show c.toNat < 0x10000 by omega) rest
  have hhigh : isHighSurrogate c.toNat = false := by simp [isHighSurrogate]; omega
  have hlow : isLowSurrogate c.toNat = false := by simp [isLowSurrogate]; omega
  simp [readCode?, hunit, hhigh, hlow, Char.ofNat_toNat]

variable {steps : Nat}

/-- Behind a backslash an escape is read. -/
theorem readString?_escape {c : Char} {escape rest : List Char}
    (h : readEscape? (escape ++ rest) = some (c, rest)) :
    readString? (steps + 1) ('\\' :: escape ++ rest)
      = (readString? steps rest).map fun read => (c :: read.1, read.2) := by
  rw [List.cons_append, readString?, h, Option.bind_eq_bind, Option.bind_some]
  dsimp only
  cases readString? steps rest <;> rfl

/-- **One printed character is read as that character**, in front of any rest. -/
theorem readString?_escapedChar (c : Char) (rest : List Char) :
    readString? (steps + 1) (escapedChar c ++ rest)
      = (readString? steps rest).map fun read => (c :: read.1, read.2) := by
  unfold escapedChar
  -- One branch for each letter, then the code point, then the character itself.
  split_ifs with hquote hbackslash hfeed hreturn htab hpage hback hcontrol
  · subst hquote; exact readString?_escape rfl
  · subst hbackslash; exact readString?_escape rfl
  · subst hfeed; exact readString?_escape rfl
  · subst hreturn; exact readString?_escape rfl
  · subst htab; exact readString?_escape rfl
  · subst hpage; exact readString?_escape rfl
  · subst hback; exact readString?_escape rfl
  · exact readString?_escape (readCode?_numeral hcontrol rest)
  · rw [List.singleton_append, readString?, if_neg hcontrol]
    · cases readString? steps rest <;> rfl
    · exact hquote
    · exact hbackslash

/-- **A printed string is read as the string**, from behind its first quote. -/
theorem readString?_flatMap (text rest : List Char) (h : text.length < steps) :
    readString? steps (text.flatMap escapedChar ++ '"' :: rest) = some (text, rest) := by
  induction text generalizing steps with
  | nil =>
      obtain ⟨steps, rfl⟩ : ∃ n, steps = n + 1 := ⟨steps - 1, by simp at h; omega⟩
      rfl
  | cons c text ih =>
      rw [List.length_cons] at h
      obtain ⟨steps, rfl⟩ : ∃ n, steps = n + 1 := ⟨steps - 1, by omega⟩
      rw [List.flatMap_cons, List.append_assoc, readString?_escapedChar, ih (by omega)]
      rfl

theorem length_le_flatMap_escapedChar (text : List Char) :
    text.length ≤ (text.flatMap escapedChar).length := by
  have hchar (c : Char) : 1 ≤ (escapedChar c).length := by
    unfold escapedChar
    split_ifs <;> simp
  induction text with
  | nil => exact Nat.le_refl 0
  | cons c text ih =>
      have := hchar c
      rw [List.flatMap_cons, List.length_append, List.length_cons]
      omega

/-- The counter that the reader takes for a string is enough for a printed one. -/
theorem exists_stringText_append (text rest : List Char) :
    ∃ body, stringText text ++ rest = '"' :: body
      ∧ readString? (body.length + 1) body = some (text, rest) := by
  have hlength := length_le_flatMap_escapedChar text
  refine ⟨text.flatMap escapedChar ++ '"' :: rest, by simp [stringText], ?_⟩
  refine readString?_flatMap text rest ?_
  rw [List.length_append]
  omega

/-! ## Numbers -/

/-- **`NumberEnds rest`** -- the text cannot go on in a number. -/
def NumberEnds (rest : List Char) : Prop :=
  ∀ c, rest.head? = some c → c.isDigit = false ∧ c ≠ '.' ∧ c ≠ 'e' ∧ c ≠ 'E'

theorem numberEnds_cons {c : Char} {rest : List Char}
    (h : c.isDigit = false ∧ c ≠ '.' ∧ c ≠ 'e' ∧ c ≠ 'E') : NumberEnds (c :: rest) := by
  intro d hd
  obtain rfl := Option.some.inj hd
  exact h

theorem natural_ne_nil (n : Nat) : Text.natural n ≠ [] := Nat.toDigits_ne_nil

/-- The reader takes the digits of a number and no more. -/
theorem span_natural (n : Nat) {rest : List Char} (h : NumberEnds rest) :
    (Text.natural n ++ rest).takeWhile Char.isDigit = Text.natural n
      ∧ (Text.natural n ++ rest).dropWhile Char.isDigit = rest := by
  have hdigits : ∀ c ∈ Text.natural n, c.isDigit = true := fun c hc =>
    Text.isDigit_of_mem_natural hc
  rw [List.takeWhile_append_of_pos hdigits, List.dropWhile_append_of_pos hdigits]
  cases rest with
  | nil => simp
  | cons c rest =>
      have hc := (h c rfl).1
      simp [hc]

theorem readNatural?_natural (n : Nat) {rest : List Char} (h : NumberEnds rest) :
    readNatural? (Text.natural n ++ rest) = some (n, rest) := by
  obtain ⟨htake, hdrop⟩ := span_natural n h
  have hform : ¬ (Text.natural n = []
      ∨ ((Text.natural n).head? = some '0' ∧ Text.natural n ≠ ['0'])) := by
    rintro (hnil | ⟨hzero, hne⟩)
    · exact natural_ne_nil n hnil
    · by_cases hn : n = 0
      · exact hne (by rw [hn]; rfl)
      · exact Text.head?_natural_ne_zero hn hzero
  rw [readNatural?, htake, hdrop, if_neg hform, Text.number?_natural]
  -- What stands behind the digits is neither a fraction nor an exponent.
  split
  · exact absurd rfl (h '.' rfl).2.1
  · exact absurd rfl (h 'e' rfl).2.2.1
  · exact absurd rfl (h 'E' rfl).2.2.2
  · rfl

/-- **A printed integer is read as the integer.** -/
theorem readInteger?_integer (n : Int) {rest : List Char} (h : NumberEnds rest) :
    readInteger? (Text.integer n ++ rest) = some (n, rest) := by
  cases n with
  | ofNat n =>
      have hread := readNatural?_natural n h
      rw [Text.integer, readInteger?, hread]
      · rfl
      · -- A digit stands first, and the sign is none.
        intro other hother
        have hmem : '-' ∈ Text.natural n := by
          obtain ⟨c, digits, hdigits⟩ := List.exists_cons_of_ne_nil (natural_ne_nil n)
          rw [hdigits, List.cons_append, List.cons.injEq] at hother
          rw [hdigits, hother.1]
          exact List.mem_cons_self
        exact absurd (Text.isDigit_of_mem_natural hmem) (by decide)
  | negSucc n =>
      have hread := readNatural?_natural (n + 1) h
      rw [Text.integer, List.cons_append, readInteger?, hread]
      rfl

/-! ## Separators and blanks -/

/-- **`style.Separates`** -- items are separated by a comma and keys by a colon, each with nothing
but blanks behind it. -/
structure Style.Separates (style : Style) : Prop where
  betweenItems : ∃ blanks, style.betweenItems = ',' :: blanks ∧ ∀ c ∈ blanks, isSpace c = true
  afterKey : ∃ blanks, style.afterKey = ':' :: blanks ∧ ∀ c ∈ blanks, isSpace c = true

theorem separates_compact : compact.Separates :=
  ⟨⟨[], rfl, by simp⟩, ⟨[], rfl, by simp⟩⟩

theorem separates_spaced : spaced.Separates :=
  have hspace : ∀ c ∈ [' '], isSpace c = true := List.forall_mem_singleton.mpr rfl
  ⟨⟨[' '], rfl, hspace⟩, ⟨[' '], rfl, hspace⟩⟩

theorem skipSpace_append {blanks : List Char} (h : ∀ c ∈ blanks, isSpace c = true)
    (rest : List Char) : skipSpace (blanks ++ rest) = skipSpace rest :=
  List.dropWhile_append_of_pos h

theorem skipSpace_cons {c : Char} (h : isSpace c = false) (rest : List Char) :
    skipSpace (c :: rest) = c :: rest := by
  simp [skipSpace, h]

/-- Blanks in front of a value do not count. -/
theorem readValue?_append {blanks : List Char} (h : ∀ c ∈ blanks, isSpace c = true)
    (rest : List Char) : readValue? steps (blanks ++ rest) = readValue? steps rest := by
  cases steps with
  | zero => rw [readValue?, readValue?]
  | succ steps => rw [readValue?, readValue?, skipSpace_append h]

theorem readItems?_append {blanks : List Char} (h : ∀ c ∈ blanks, isSpace c = true)
    (rest : List Char) : readItems? steps (blanks ++ rest) = readItems? steps rest := by
  cases steps with
  | zero => rw [readItems?, readItems?]
  | succ steps => rw [readItems?, readItems?, readValue?_append h]

theorem readMembers?_append {blanks : List Char} (h : ∀ c ∈ blanks, isSpace c = true)
    (rest : List Char) : readMembers? steps (blanks ++ rest) = readMembers? steps rest := by
  cases steps with
  | zero => rw [readMembers?, readMembers?]
  | succ steps => rw [readMembers?, readMembers?, skipSpace_append h]

/-! ## Steps of the reader -/

section Steps

variable {text rest more : List Char} {item value : Value} {items : List Value}
  {members : List (String × Value)}

theorem readValue?_stringText (s : String) (rest : List Char) :
    readValue? (steps + 1) (stringText s.toList ++ rest) = some (.string s, rest) := by
  obtain ⟨body, hbody, hread⟩ := exists_stringText_append s.toList rest
  rw [hbody, readValue?, skipSpace_cons rfl]
  simp [hread]

/-- Items are read from behind a bracket, unless it is closed at once. -/
theorem readValue?_items {c : Char} (hspace : isSpace c = false) (hc : c ≠ ']')
    (h : readItems? steps (c :: text) = some (items, rest)) :
    readValue? (steps + 1) ('[' :: c :: text) = some (.list items, rest) := by
  rw [readValue?, skipSpace_cons rfl]
  simp [skipSpace_cons hspace, hc, h]

theorem readItems?_last (h : readValue? steps text = some (item, ']' :: rest)) :
    readItems? (steps + 1) text = some ([item], rest) := by
  rw [readItems?, h]
  rfl

theorem readItems?_more (h : readValue? steps text = some (item, ',' :: more))
    (hmore : readItems? steps more = some (items, rest)) :
    readItems? (steps + 1) text = some (item :: items, rest) := by
  rw [readItems?, h]
  show (readItems? steps more).bind _ = _
  rw [hmore]
  rfl

/-- Members are read from behind a brace, unless it is closed at once. -/
theorem readValue?_members (h : readMembers? steps ('"' :: text) = some (members, rest)) :
    readValue? (steps + 1) ('\x7b' :: '"' :: text) = some (.mapping members, rest) := by
  have hspace : skipSpace ('"' :: text) = '"' :: text := skipSpace_cons rfl text
  rw [readValue?, skipSpace_cons rfl]
  simp [hspace, h]

theorem readMembers?_last (key : String)
    (h : readValue? steps text = some (value, '\x7d' :: rest)) :
    readMembers? (steps + 1) (stringText key.toList ++ ':' :: text)
      = some ([(key, value)], rest) := by
  obtain ⟨body, hbody, hkey⟩ := exists_stringText_append key.toList (':' :: text)
  have hcolon : skipSpace (':' :: text) = ':' :: text := skipSpace_cons rfl text
  have hbrace : skipSpace ('\x7d' :: rest) = '\x7d' :: rest := skipSpace_cons rfl rest
  rw [hbody, readMembers?, skipSpace_cons rfl]
  simp [hkey, hcolon, h, hbrace]

theorem readMembers?_more (key : String)
    (h : readValue? steps text = some (value, ',' :: more))
    (hmore : readMembers? steps more = some (members, rest)) :
    readMembers? (steps + 1) (stringText key.toList ++ ':' :: text)
      = some ((key, value) :: members, rest) := by
  obtain ⟨body, hbody, hkey⟩ := exists_stringText_append key.toList (':' :: text)
  have hcolon : skipSpace (':' :: text) = ':' :: text := skipSpace_cons rfl text
  have hcomma : skipSpace (',' :: more) = ',' :: more := skipSpace_cons rfl more
  rw [hbody, readMembers?, skipSpace_cons rfl]
  simp [hkey, hcolon, h, hcomma, hmore]

/-- An integer starts with a digit or a sign. -/
theorem exists_integer_eq_cons (n : Int) :
    ∃ c tail, Text.integer n = c :: tail ∧ (c.isDigit = true ∨ c = '-') := by
  cases n with
  | ofNat n =>
      obtain ⟨c, digits, hdigits⟩ := List.exists_cons_of_ne_nil (natural_ne_nil n)
      have hmem : c ∈ Text.natural n := hdigits ▸ List.mem_cons_self
      exact ⟨c, digits, hdigits, .inl (Text.isDigit_of_mem_natural hmem)⟩
  | negSucc n => exact ⟨'-', _, rfl, .inr rfl⟩

theorem ne_of_number {c other : Char} (hc : c.isDigit = true ∨ c = '-')
    (h : other.isDigit = false ∧ other ≠ '-') : c ≠ other := by
  rintro rfl
  rcases hc with hdigit | hsign
  · exact Bool.false_ne_true (h.1.symm.trans hdigit)
  · exact h.2 hsign

/-- What starts with a digit or a sign is read as a number. -/
theorem readValue?_number {c : Char} (hc : c.isDigit = true ∨ c = '-') :
    readValue? (steps + 1) (c :: text)
      = (readInteger? (c :: text)).map fun read => (.int read.1, read.2) := by
  have hspace : isSpace c = false := by simp [isSpace, ne_of_number hc]
  rw [readValue?, skipSpace_cons hspace]
  simp [ne_of_number hc]

theorem readValue?_integer (n : Int) (h : NumberEnds rest) :
    readValue? (steps + 1) (Text.integer n ++ rest) = some (.int n, rest) := by
  have hread := readInteger?_integer n h
  obtain ⟨c, tail, hform, hc⟩ := exists_integer_eq_cons n
  rw [hform, List.cons_append] at hread ⊢
  rw [readValue?_number hc, hread, Option.map_some]

end Steps

/-! ## Values -/

/-- A value starts with what is neither a blank nor the end of a list. -/
theorem exists_text_eq_cons (style : Style) (value : Value) :
    ∃ c tail, text style value = c :: tail ∧ isSpace c = false ∧ c ≠ ']' := by
  cases value with
  | null => exact ⟨'n', _, rfl, by decide, by decide⟩
  | bool b => cases b <;> exact ⟨_, _, rfl, by decide, by decide⟩
  | int n =>
      obtain ⟨c, tail, hform, hc⟩ := exists_integer_eq_cons n
      have hspace : isSpace c = false := by simp [isSpace, ne_of_number hc]
      exact ⟨c, tail, by rw [text, hform], hspace, ne_of_number hc (by decide)⟩
  | string s => exact ⟨'"', _, rfl, by decide, by decide⟩
  | list items => exact ⟨'[', _, by rw [text]; rfl, by decide, by decide⟩
  | mapping members => exact ⟨'\x7b', _, by rw [text]; rfl, by decide, by decide⟩

theorem itemsText_cons_cons (style : Style) (item next : Value) (items : List Value) :
    itemsText style (item :: next :: items)
      = text style item ++ style.betweenItems ++ itemsText style (next :: items) := by
  rw [itemsText]
  simp

theorem membersText_cons_cons (style : Style) (key : String) (value : Value)
    (next : String × Value) (members : List (String × Value)) :
    membersText style ((key, value) :: next :: members)
      = stringText key.toList ++ style.afterKey ++ text style value ++ style.betweenItems
          ++ membersText style (next :: members) := by
  rw [membersText]
  simp

theorem exists_itemsText_eq_cons (style : Style) (item : Value) (items : List Value) :
    ∃ c tail, itemsText style (item :: items) = c :: tail ∧ isSpace c = false ∧ c ≠ ']' := by
  obtain ⟨c, tail, hform, hc⟩ := exists_text_eq_cons style item
  cases items with
  | nil => exact ⟨c, tail, by rw [itemsText, hform], hc⟩
  | cons next items =>
      refine ⟨c, tail ++ style.betweenItems ++ itemsText style (next :: items), ?_, hc⟩
      rw [itemsText_cons_cons, hform, List.cons_append, List.cons_append]

theorem exists_membersText_eq_cons (style : Style) (member : String × Value)
    (members : List (String × Value)) :
    ∃ tail, membersText style (member :: members) = '"' :: tail := by
  obtain ⟨key, value⟩ := member
  cases members with
  | nil => exact ⟨_, by rw [membersText]; rfl⟩
  | cons next members => exact ⟨_, by rw [membersText_cons_cons]; rfl⟩

mutual

/-- **A printed value is read as the value**, in front of anything that cannot go on in it. -/
theorem readValue?_text {style : Style} (h : style.Separates) (value : Value) (steps : Nat)
    (rest : List Char) (enough : 2 * (text style value).length ≤ steps) (ends : NumberEnds rest) :
    readValue? steps (text style value ++ rest) = some (value, rest) := by
  obtain ⟨c, tail, hform, hspace, hc⟩ := exists_text_eq_cons style value
  obtain ⟨steps, rfl⟩ : ∃ n, steps = n + 1 :=
    ⟨steps - 1, by rw [hform, List.length_cons] at enough; omega⟩
  cases value with
  | null => rfl
  | bool b => cases b <;> rfl
  | int n => rw [text]; exact readValue?_integer n ends
  | string s => rw [text]; exact readValue?_stringText s rest
  | list items =>
      rw [text] at enough ⊢
      cases items with
      | nil => rfl
      | cons item items =>
          simp only [List.length_cons, List.length_append, List.length_nil] at enough
          have hitems := readItems?_itemsText h (item :: items) steps rest
            (List.cons_ne_nil _ _) (by omega)
          obtain ⟨c, tail, hform, hspace, hc⟩ := exists_itemsText_eq_cons style item items
          rw [hform] at hitems ⊢
          have hread := readValue?_items hspace hc hitems
          simpa using hread
  | mapping members =>
      rw [text] at enough ⊢
      cases members with
      | nil => rfl
      | cons member members =>
          simp only [List.length_cons, List.length_append, List.length_nil] at enough
          have hmembers := readMembers?_membersText h (member :: members) steps rest
            (List.cons_ne_nil _ _) (by omega)
          obtain ⟨tail, hform⟩ := exists_membersText_eq_cons style member members
          rw [hform] at hmembers ⊢
          have hread := readValue?_members hmembers
          simpa using hread

theorem readItems?_itemsText {style : Style} (h : style.Separates) (items : List Value)
    (steps : Nat) (rest : List Char) (hne : items ≠ [])
    (enough : 2 * (itemsText style items).length + 1 ≤ steps) :
    readItems? steps (itemsText style items ++ ']' :: rest) = some (items, rest) := by
  obtain ⟨steps, rfl⟩ : ∃ n, steps = n + 1 := ⟨steps - 1, by omega⟩
  match items with
  | [] => exact absurd rfl hne
  | [item] =>
      rw [itemsText] at enough ⊢
      exact readItems?_last (readValue?_text h item steps _ (by omega) (numberEnds_cons (by decide)))
  | item :: next :: items =>
      obtain ⟨blanks, hbetween, hblanks⟩ := h.betweenItems
      rw [itemsText_cons_cons, hbetween] at enough ⊢
      simp only [List.length_append, List.length_cons] at enough
      have hitem := readValue?_text h item steps
        (',' :: (blanks ++ (itemsText style (next :: items) ++ ']' :: rest))) (by omega)
        (numberEnds_cons (by decide))
      have hmore := readItems?_itemsText h (next :: items) steps rest (List.cons_ne_nil _ _)
        (by omega)
      rw [← readItems?_append hblanks] at hmore
      have hread := readItems?_more hitem hmore
      simpa using hread

theorem readMembers?_membersText {style : Style} (h : style.Separates)
    (members : List (String × Value)) (steps : Nat) (rest : List Char) (hne : members ≠ [])
    (enough : 2 * (membersText style members).length + 1 ≤ steps) :
    readMembers? steps (membersText style members ++ '\x7d' :: rest) = some (members, rest) := by
  obtain ⟨steps, rfl⟩ : ∃ n, steps = n + 1 := ⟨steps - 1, by omega⟩
  obtain ⟨blanks, hkey, hblanks⟩ := h.afterKey
  match members with
  | [] => exact absurd rfl hne
  | [(key, value)] =>
      rw [membersText, hkey] at enough ⊢
      simp only [List.length_append, List.length_cons] at enough
      have hvalue := readValue?_text h value steps ('\x7d' :: rest) (by omega)
        (numberEnds_cons (by decide))
      rw [← readValue?_append hblanks] at hvalue
      have hread := readMembers?_last key hvalue
      simpa using hread
  | (key, value) :: next :: members =>
      obtain ⟨blanks', hbetween, hblanks'⟩ := h.betweenItems
      rw [membersText_cons_cons, hkey, hbetween] at enough ⊢
      simp only [List.length_append, List.length_cons] at enough
      have hvalue := readValue?_text h value steps
        (',' :: (blanks' ++ (membersText style (next :: members) ++ '\x7d' :: rest))) (by omega)
        (numberEnds_cons (by decide))
      have hmore := readMembers?_membersText h (next :: members) steps rest
        (List.cons_ne_nil _ _) (by omega)
      rw [← readValue?_append hblanks] at hvalue
      rw [← readMembers?_append hblanks'] at hmore
      have hread := readMembers?_more key hvalue hmore
      simpa using hread

end

/-- **Reading undoes printing**, with any blanks behind the text. -/
theorem read?_text {style : Style} (h : style.Separates) (value : Value) {blanks : List Char}
    (hblanks : ∀ c ∈ blanks, isSpace c = true) :
    read? (text style value ++ blanks) = some value := by
  have hends : NumberEnds blanks := by
    intro c hc
    have hspace := hblanks c (List.mem_of_mem_head? hc)
    simp only [isSpace, decide_eq_true_eq] at hspace
    rcases hspace with rfl | rfl | rfl | rfl <;> decide
  have hread := readValue?_text h value (2 * (text style value ++ blanks).length + 2) blanks
    (by rw [List.length_append]; omega) hends
  have hrest : skipSpace (blanks ++ []) = skipSpace [] := skipSpace_append hblanks []
  rw [List.append_nil] at hrest
  rw [read?, hread, Option.bind_eq_bind, Option.bind_some]
  exact if_pos hrest

end ArchiveRecord.Json
