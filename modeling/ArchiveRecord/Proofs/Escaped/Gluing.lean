/- # Proofs.Escaped.Gluing -- a text split in two pieces

Where a text is cut in two, the splitter goes on behind the cut with what the first
piece leaves: an open field, and the bit for an escape that waits. The open field is
the last field of the first piece. The bit is in no field, since an escape that waits
at the end of a text is dropped, but the run of escapes that ends the piece shows it.

So the fields of the whole are those of the two pieces, glued where they meet; and
where an escape waits, the character behind the cut belongs to the glue.
-/
import ArchiveRecord.Proofs.Escaped.Cuts

namespace ArchiveRecord.Escaped

variable {d e : Char}

/-! ## Gluing -/

/-- The last field of the first list goes on as the first field of the second. -/
def glue : List (List Char) → List (List Char) → List (List Char)
  | [], back => back
  | [last], back => last.foldr extend back
  | field :: next :: front, back => field :: glue (next :: front) back

theorem glue_cons (field : List Char) {front : List (List Char)} (h : front ≠ [])
    (back : List (List Char)) : glue (field :: front) back = field :: glue front back := by
  obtain ⟨next, front, rfl⟩ := List.exists_cons_of_ne_nil h
  rfl

theorem glue_extend (c : Char) {front : List (List Char)} (h : front ≠ [])
    (back : List (List Char)) : glue (extend c front) back = extend c (glue front back) := by
  obtain ⟨field, front, rfl⟩ := List.exists_cons_of_ne_nil h
  cases front <;> rfl

theorem glue_concat_cons (front : List (List Char)) (last first : List Char)
    (more : List (List Char)) :
    glue (front ++ [last]) (first :: more) = front ++ (last ++ first) :: more := by
  induction front with
  | nil => exact foldr_extend last first more
  | cons field front ih => rw [List.cons_append, glue_cons _ (by simp), ih, List.cons_append]

/-! ## The splitter behind a cut -/

theorem extend_ne_nil (c : Char) (fields : List (List Char)) : extend c fields ≠ [] := by
  cases fields <;> exact List.cons_ne_nil _ _

theorem fieldsFrom_ne_nil (behind : Bool) (text : List Char) : fieldsFrom d e behind text ≠ [] := by
  induction text generalizing behind with
  | nil => cases behind <;> exact List.cons_ne_nil _ _
  | cons c rest ih =>
      cases behind with
      | true => exact extend_ne_nil c _
      | false =>
          rw [fieldsFrom]
          split
          · exact ih true
          · split
            · exact List.cons_ne_nil _ _
            · exact extend_ne_nil c _

/-- **Behind a cut the splitter goes on** with the bit that the first piece leaves, and its fields
are glued to those of the piece. -/
theorem fieldsFrom_append (behind : Bool) (front text : List Char) :
    fieldsFrom d e behind (front ++ text)
      = glue (fieldsFrom d e behind front) (fieldsFrom d e (waits e behind front) text) := by
  induction front generalizing behind with
  | nil => cases behind <;> rfl
  | cons c rest ih =>
      have hne (bit : Bool) := fieldsFrom_ne_nil (d := d) (e := e) bit rest
      cases behind with
      | true =>
          rw [List.cons_append, fieldsFrom, ih, fieldsFrom, glue_extend c (hne false)]
          rfl
      | false =>
          rw [List.cons_append, fieldsFrom, fieldsFrom, waits_cons, Bool.not_false, Bool.true_and]
          by_cases he : c = e
          · rw [if_pos he, if_pos he, ih, decide_eq_true he]
          · rw [if_neg he, if_neg he, decide_eq_false he]
            -- A delimiter closes a field in the first piece; any other character opens none.
            by_cases hd : c = d
            · rw [if_pos hd, if_pos hd, ih, glue_cons _ (hne false)]
            · rw [if_neg hd, if_neg hd, ih, glue_extend c (hne false)]

theorem waits_of_even {text : List Char} (h : finalRun e text % 2 = 0) :
    waits e false text = false := by
  rw [← Bool.not_eq_true, waits_iff_odd]
  omega

/-- Behind a run of even length no escape waits. -/
theorem fields_append_of_even {front : List Char} (h : finalRun e front % 2 = 0)
    (text : List Char) :
    fields d e (front ++ text) = glue (fields d e front) (fields d e text) := by
  rw [fields, fieldsFrom_append, waits_of_even h]
  rfl

/-- Behind a run of odd length an escape waits, and makes the next character literal. -/
theorem fields_append_of_odd {front : List Char} (h : finalRun e front % 2 = 1) (c : Char)
    (text : List Char) :
    fields d e (front ++ c :: text) = glue (fields d e front) (extend c (fields d e text)) := by
  rw [fields, fieldsFrom_append, (waits_iff_odd front).mpr h]
  rfl

/-! ## Values as strings -/

/-- Where the fields of a value are glued, with a text in between, so are its strings. -/
theorem split_of_glue (distinct : d ≠ e) {value front back : String} {middle : List Char}
    (h : fields d e value.toList
      = glue (fields d e front.toList) (middle.foldr extend (fields d e back.toList))) :
    ∃ (before : List String) (last first : String) (more : List String),
      split front (.singleton d) (.singleton e) = .ok (before ++ [last])
        ∧ split back (.singleton d) (.singleton e) = .ok (first :: more)
        ∧ split value (.singleton d) (.singleton e)
          = .ok (before ++ (last ++ String.ofList middle ++ first) :: more) := by
  obtain ⟨before, last, hfront⟩ : ∃ before last, fields d e front.toList = before ++ [last] :=
    ⟨_, _, (List.dropLast_append_getLast (fieldsFrom_ne_nil false front.toList)).symm⟩
  obtain ⟨first, more, hback⟩ := List.exists_cons_of_ne_nil (fieldsFrom_ne_nil (d := d) (e := e)
    false back.toList)
  have hback : fields d e back.toList = first :: more := hback
  refine ⟨before.map .ofList, .ofList last, .ofList first, more.map .ofList, ?_, ?_, ?_⟩
  · rw [split_singleton distinct, hfront, List.map_append, List.map_singleton]
  · rw [split_singleton distinct, hback, List.map_cons]
  · rw [split_singleton distinct, h, hfront, hback, foldr_extend, glue_concat_cons]
    simp [String.ofList_append, String.append_assoc]

theorem fields_of_split (distinct : d ≠ e) {value field : String}
    (h : split value (.singleton d) (.singleton e) = .ok [field]) :
    fields d e value.toList = [field.toList] := by
  rw [split_singleton distinct, Except.ok.injEq, map_ofList_eq_iff] at h
  exact h

/-- A token with one field is no pair. -/
theorem pair_of_split_single {token delimiter escape field : String}
    (h : split token delimiter escape = .ok [field]) :
    pair token delimiter escape = .error (.malformedPair token) := by
  simp [pair, h, bind, Except.bind, throw, throwThe, MonadExceptOf.throw]

/-- A key and a value of one field each, with the delimiter between them: where no escape waits
behind the key they are a pair, and otherwise the delimiter stands in the only field. -/
theorem pair_append_cases (distinct : d ≠ e) {key value field other : String}
    (hkey : split key (.singleton d) (.singleton e) = .ok [field])
    (hvalue : split value (.singleton d) (.singleton e) = .ok [other]) :
    (finalRun e key.toList % 2 = 0
        ∧ pair (key ++ .singleton d ++ value) (.singleton d) (.singleton e) = .ok (field, other))
      ∨ (finalRun e key.toList % 2 = 1
        ∧ pair (key ++ .singleton d ++ value) (.singleton d) (.singleton e)
          = .error (.malformedPair (key ++ .singleton d ++ value))) := by
  have hkey := fields_of_split distinct hkey
  have hvalue := fields_of_split distinct hvalue
  have htoken : (key ++ String.singleton d ++ value).toList = key.toList ++ d :: value.toList := by
    simp
  rcases Nat.mod_two_eq_zero_or_one (finalRun e key.toList) with heven | hodd
  · have hdelimiter : fields d e (d :: value.toList) = [[], other.toList] := by
      rw [fields, fieldsFrom, if_neg distinct, if_pos rfl]
      exact congrArg ([] :: ·) hvalue
    have hglue : glue [field.toList] [[], other.toList] = [field.toList, other.toList] := by
      rw [glue, foldr_extend, List.append_nil]
    refine .inl ⟨heven, pair_of_split ?_⟩
    rw [split_singleton distinct, htoken, fields_append_of_even heven, hkey, hdelimiter, hglue]
    simp
  · have hglue : glue [field.toList] (extend d [other.toList])
        = [field.toList ++ d :: other.toList] := foldr_extend field.toList (d :: other.toList) []
    have hsplit : split (key ++ .singleton d ++ value) (.singleton d) (.singleton e)
        = .ok [.ofList (field.toList ++ d :: other.toList)] := by
      rw [split_singleton distinct, htoken, fields_append_of_odd hodd, hkey, hvalue, hglue,
        List.map_singleton]
    exact .inr ⟨hodd, pair_of_split_single hsplit⟩

/-! ## The whole -/

/-- **Splitting a concatenation is gluing the splits.** Behind a value whose run of escapes has even
length, the last field goes on as the first field of what follows. Behind a run of odd length the
next character belongs to that field first, whatever it is. So a key and a value of one field each
are read as a pair where the run behind the key has even length, and are malformed otherwise. -/
theorem split_append (d e : Char) (distinct : d ≠ e) :
    (∀ front back : String, finalRun e front.toList % 2 = 0 →
        ∃ (before : List String) (last first : String) (more : List String),
          split front (.singleton d) (.singleton e) = .ok (before ++ [last])
            ∧ split back (.singleton d) (.singleton e) = .ok (first :: more)
            ∧ split (front ++ back) (.singleton d) (.singleton e)
              = .ok (before ++ (last ++ first) :: more))
      ∧ (∀ (front : String) (c : Char) (back : String), finalRun e front.toList % 2 = 1 →
        ∃ (before : List String) (last first : String) (more : List String),
          split front (.singleton d) (.singleton e) = .ok (before ++ [last])
            ∧ split back (.singleton d) (.singleton e) = .ok (first :: more)
            ∧ split (front ++ (.singleton c ++ back)) (.singleton d) (.singleton e)
              = .ok (before ++ (last ++ .singleton c ++ first) :: more))
      ∧ ∀ key value field other : String,
          split key (.singleton d) (.singleton e) = .ok [field] →
          split value (.singleton d) (.singleton e) = .ok [other] →
          (pair (key ++ .singleton d ++ value) (.singleton d) (.singleton e) = .ok (field, other)
              ↔ finalRun e key.toList % 2 = 0)
            ∧ (finalRun e key.toList % 2 = 1 →
              pair (key ++ .singleton d ++ value) (.singleton d) (.singleton e)
                = .error (.malformedPair (key ++ .singleton d ++ value))) := by
  refine ⟨?_, ?_, ?_⟩
  · intro front back heven
    have hglue : fields d e (front ++ back).toList
        = glue (fields d e front.toList) (([] : List Char).foldr extend (fields d e back.toList)) := by
      rw [String.toList_append, fields_append_of_even heven]
      rfl
    simpa using split_of_glue distinct hglue
  · intro front c back hodd
    have hglue : fields d e (front ++ (String.singleton c ++ back)).toList
        = glue (fields d e front.toList) ([c].foldr extend (fields d e back.toList)) := by
      have htext : (front ++ (String.singleton c ++ back)).toList
          = front.toList ++ c :: back.toList := by simp
      rw [htext, fields_append_of_odd hodd]
      rfl
    exact split_of_glue distinct hglue
  · intro key value field other hkey hvalue
    rcases pair_append_cases distinct hkey hvalue with ⟨heven, hpair⟩ | ⟨hodd, hpair⟩
    · rw [hpair]
      simp [heven]
    · rw [hpair]
      simp [hodd]

/-- An escape that the first piece drops makes the delimiter behind the cut literal, and two of them
are one escape that leaves the delimiter alone. -/
theorem split_append_waiting :
    '=' ≠ '\\'
      ∧ (∃ (before : List String) (last first : String) (more : List String),
        split "a=b\\" "=" "\\" = .ok (before ++ [last])
          ∧ split "c=d" "=" "\\" = .ok (first :: more)
          ∧ split "a=b\\=c=d" "=" "\\" = .ok (before ++ (last ++ "=" ++ first) :: more))
      ∧ pair "k\\\\=x" "=" "\\" = .ok ("k\\", "x")
      ∧ pair "k\\=x" "=" "\\" = .error (.malformedPair "k\\=x") := by
  have distinct : '=' ≠ '\\' := by decide
  obtain ⟨-, hodd, hpairs⟩ := split_append '=' '\\' distinct
  have hpair := hpairs "k\\\\" "x" "k\\" "x" (by cbv) (by cbv)
  have hmalformed := hpairs "k\\" "x" "k" "x" (by cbv) (by cbv)
  exact ⟨distinct, hodd "a=b\\" '=' "c=d" (by decide), hpair.1.mpr (by decide),
    hmalformed.2 (by decide)⟩

end ArchiveRecord.Escaped
