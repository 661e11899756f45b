/- # Proofs.Escaped.Cuts -- the splitter agrees with the runs of escapes

`Escaped.split` reads a text once and keeps one bit, the escape that waits for its
character. `Escaped.fieldsByCuts` keeps nothing and looks back: a delimiter is a
cut where the run of escapes in front of it has even length, and a field is what
stands between two cuts, with its runs halved.

The two meet in `waits`, the bit of the splitter, which is the parity of the run
that ends the text (`waits_iff_odd`). The rest is by the grammar of fields: a part
that spells a field lets no escape wait behind it, holds no cut, and is turned
into the field when its runs are halved.
-/
import ArchiveRecord.Escaped.Cut
import ArchiveRecord.Proofs.Escaped.Spelling
import Mathlib.Data.List.SplitBy

namespace ArchiveRecord.Escaped

variable {d e : Char}

/-! ## The escape that waits -/

/-- Whether an escape waits for its character behind a text; one may wait in front of it. -/
def waits (e : Char) (behind : Bool) (text : List Char) : Bool :=
  text.foldl (fun behind c => !behind && decide (c = e)) behind

@[simp] theorem waits_nil (behind : Bool) : waits e behind [] = behind := rfl

@[simp] theorem waits_cons (behind : Bool) (c : Char) (text : List Char) :
    waits e behind (c :: text) = waits e (!behind && decide (c = e)) text := rfl

theorem waits_append (behind : Bool) (front text : List Char) :
    waits e behind (front ++ text) = waits e (waits e behind front) text :=
  List.foldl_append

theorem finalRun_concat (c : Char) (text : List Char) :
    finalRun e (text ++ [c]) = if c = e then finalRun e text + 1 else 0 := by
  by_cases h : c = e <;> simp [finalRun, h]

/-- **The bit of the splitter is the parity of the run behind it.** -/
theorem waits_iff_odd (text : List Char) : waits e false text = true ↔ finalRun e text % 2 = 1 := by
  -- The run grows at the end of the text, so the induction takes the last character off.
  induction text using List.reverseRecOn with
  | nil => simp [finalRun]
  | append_singleton text c ih =>
      rw [waits_append, finalRun_concat]
      by_cases hc : c = e
      · cases hwaits : waits e false text with
        | true =>
            have hodd := ih.mp hwaits
            simp [hc]
            omega
        | false =>
            have heven : ¬ finalRun e text % 2 = 1 := fun hodd => by simp [ih.mpr hodd] at hwaits
            simp [hc]
            omega
      · simp [hc]

/-- A delimiter is a cut where no escape waits for it. -/
theorem isCut_iff {text : List Char} {position : Nat} :
    isCut d e text position = true
      ↔ text[position]? = some d ∧ waits e false (text.take position) = false := by
  have hparity := waits_iff_odd (e := e) (text.take position)
  rw [isCut, decide_eq_true_iff, ← Bool.not_eq_true, hparity]
  constructor
  · rintro ⟨hd, heven⟩
    exact ⟨hd, by omega⟩
  · rintro ⟨hd, hodd⟩
    exact ⟨hd, by omega⟩

/-! ## Cuts of a text with something in front -/

theorem isCut_append_left {front text : List Char} {position : Nat} (h : position < front.length) :
    isCut d e (front ++ text) position = isCut d e front position := by
  rw [Bool.eq_iff_iff, isCut_iff, isCut_iff, List.getElem?_append_left h,
    List.take_append_of_le_length (by omega)]

theorem isCut_append_right {front text : List Char} (h : waits e false front = false)
    (position : Nat) :
    isCut d e (front ++ text) (front.length + position) = isCut d e text position := by
  rw [Bool.eq_iff_iff, isCut_iff, isCut_iff, List.getElem?_append_right (by omega),
    List.take_length_add_append, waits_append, h, Nat.add_sub_cancel_left]

/-- Behind a text that lets no escape wait, cuts are where they would be without it. -/
theorem cuts_append {front : List Char} (h : waits e false front = false) (text : List Char) :
    cuts d e (front ++ text)
      = cuts d e front ++ (cuts d e text).map (front.length + ·) := by
  have hleft : (List.range front.length).filter (isCut d e (front ++ text)) = cuts d e front :=
    List.filter_congr fun position hmem => isCut_append_left (List.mem_range.mp hmem)
  have hright : isCut d e (front ++ text) ∘ (front.length + ·) = isCut d e text :=
    funext (isCut_append_right h)
  rw [cuts, List.length_append, List.range_add, List.filter_append, hleft, List.filter_map, hright,
    cuts, cuts]

theorem cuts_singleton (c : Char) : cuts d e [c] = if c = d then [0] else [] := by
  have hcut : isCut d e [c] 0 = decide (c = d) := by
    rw [Bool.eq_iff_iff, isCut_iff]
    simp
  show [0].filter (isCut d e [c]) = _
  rw [List.filter_singleton, hcut]
  simp

/-- A character behind an escape is no cut, and neither is the escape. -/
theorem cuts_escaped (distinct : d ≠ e) (c : Char) : cuts d e [e, c] = [] := by
  have hescape : isCut d e [e, c] 0 = false := by
    rw [← Bool.not_eq_true, isCut_iff]
    simp [distinct.symm]
  have hescaped : isCut d e [e, c] 1 = false := by
    rw [← Bool.not_eq_true, isCut_iff]
    simp
  show ([0, 1].filter (isCut d e [e, c])) = []
  simp [hescape, hescaped]

/-! ## Runs halved -/

/-- A run of escapes that nothing extends is halved as a whole. -/
theorem halveRuns_replicate_append (n : Nat) {rest : List Char} (h : rest.head? ≠ some e) :
    halveRuns e (List.replicate n e ++ rest) = List.replicate (n / 2) e ++ halveRuns e rest := by
  cases n with
  | zero => rfl
  | succ n =>
      have hapart : ∀ x ∈ (List.replicate (n + 1) e).getLast?, ∀ y ∈ rest.head?,
          decide (x = e ∧ y = e) = false := by
        intro x _ y hy
        have hne : y ≠ e := fun hye => h (hye ▸ hy)
        simp [hne]
      have hrun : (List.replicate (n + 1) e).splitBy (fun a b => decide (a = e ∧ b = e))
          = [List.replicate (n + 1) e] := by
        refine List.splitBy_of_isChain (by simp) ?_
        exact List.isChain_replicate_of_rel (n + 1) (decide_eq_true ⟨rfl, rfl⟩)
      have hhead : (List.replicate (n + 1) e).head? = some e := rfl
      have hhalved : halved e (List.replicate (n + 1) e) = List.replicate ((n + 1) / 2) e := by
        rw [halved, if_pos hhead, List.length_replicate]
      rw [halveRuns, List.splitBy_append hapart, hrun, List.flatMap_append, List.flatMap_singleton,
        hhalved, halveRuns]

theorem halveRuns_cons_of_ne {c : Char} (h : c ≠ e) (text : List Char) :
    halveRuns e (c :: text) = c :: halveRuns e text := by
  have hapart : ∀ x ∈ [c].getLast?, ∀ y ∈ text.head?, decide (x = e ∧ y = e) = false := by
    intro x hx y _
    have hne : x ≠ e := fun hxe => h (by simpa [hxe] using hx)
    simp [hne]
  rw [halveRuns, ← List.singleton_append, List.splitBy_append hapart, List.flatMap_append]
  simp [List.splitBy, List.splitBy.loop, halved, h, halveRuns]

/-- A text starts with a run of escapes, possibly an empty one. -/
theorem exists_eq_replicate_append (e : Char) (text : List Char) :
    ∃ n rest, text = List.replicate n e ++ rest ∧ rest.head? ≠ some e := by
  induction text with
  | nil => exact ⟨0, [], rfl, by simp⟩
  | cons c text ih =>
      by_cases hc : c = e
      · obtain ⟨n, rest, rfl, hrest⟩ := ih
        exact ⟨n + 1, rest, by rw [hc, List.replicate_succ, List.cons_append], hrest⟩
      · exact ⟨0, c :: text, rfl, by simpa using hc⟩

/-- A character behind an escape is kept, whatever it is. -/
theorem halveRuns_escaped (c : Char) (text : List Char) :
    halveRuns e (e :: c :: text) = c :: halveRuns e text := by
  by_cases hc : c = e
  · -- Both belong to one run, which goes on in the text as far as escapes do.
    obtain ⟨n, rest, rfl, hrest⟩ := exists_eq_replicate_append e text
    have hlonger : e :: e :: (List.replicate n e ++ rest) = List.replicate (n + 2) e ++ rest := by
      simp [List.replicate_succ]
    rw [hc, hlonger, halveRuns_replicate_append _ hrest, halveRuns_replicate_append _ hrest,
      Nat.add_div_right n (by omega), List.replicate_succ, List.cons_append]
  · have hhead : (c :: text).head? ≠ some e := by simpa using hc
    have hsingle := halveRuns_replicate_append 1 hhead
    rw [← halveRuns_cons_of_ne hc]
    exact hsingle

/-- Half of a run of one escape is nothing. -/
theorem halveRuns_escape (e : Char) : halveRuns e [e] = [] := by
  have hrest : ([] : List Char).head? ≠ some e := by simp
  exact halveRuns_replicate_append 1 hrest

/-! ## Parts that spell fields -/

namespace Spells

variable {part field : List Char}

theorem waits (h : Spells d e part field) : Escaped.waits e false part = false := by
  induction h with
  | nil => rfl
  | plain _ he _ ih => simpa [he] using ih
  | escaped _ ih => simpa using ih

/-- A part that spells a field holds no cut. -/
theorem cuts (distinct : d ≠ e) (h : Spells d e part field) : Escaped.cuts d e part = [] := by
  induction h with
  | nil => rfl
  | @plain c text field hd he _ ih =>
      have hnone : Escaped.waits e false [c] = false := by simp [he]
      rw [← List.singleton_append, cuts_append hnone, cuts_singleton, if_neg hd, ih]
      rfl
  | @escaped c text field _ ih =>
      show Escaped.cuts d e ([e, c] ++ text) = []
      rw [cuts_append (by simp), cuts_escaped distinct, ih]
      rfl

/-- Runs are halved part by part, behind a part that spells a field. -/
theorem halveRuns_append (h : Spells d e part field) (rest : List Char) :
    halveRuns e (part ++ rest) = field ++ halveRuns e rest := by
  induction h with
  | nil => rfl
  | plain _ he _ ih =>
      rw [List.cons_append, halveRuns_cons_of_ne he, ih, List.cons_append]
  | escaped _ ih =>
      rw [List.cons_append, List.cons_append, halveRuns_escaped, ih, List.cons_append]

theorem halveRuns (h : Spells d e part field) : Escaped.halveRuns e part = field := by
  have hall := h.halveRuns_append []
  rwa [List.append_nil, show Escaped.halveRuns e [] = [] from rfl, List.append_nil] at hall

end Spells

/-! ## What stands between cuts -/

/-- Something in front of a text moves its cuts and changes nothing between them. -/
theorem between_append (front text : List Char) (start : Nat) (cuts : List Nat) :
    between (front ++ text) (front.length + start) (cuts.map (front.length + ·))
      = between text start cuts := by
  induction cuts generalizing start with
  | nil => simp [between, List.drop_append]
  | cons cut more ih =>
      rw [List.map_cons, between, between, Nat.add_assoc, ih]
      simp [List.take_append, List.drop_append]

/-- The parts of a text lie between the places behind its cuts, and the first at its start, and the
places of its cuts, and the last at its end. -/
theorem between_eq_zipWith (text : List Char) (start : Nat) (cuts : List Nat) :
    between text start cuts
      = List.zipWith (fun start stop => (text.take stop).drop start)
          (start :: cuts.map (· + 1)) (cuts ++ [text.length]) := by
  induction cuts generalizing start with
  | nil => simp [between]
  | cons cut more ih =>
      rw [between, ih]
      rfl

/-- **What a text spells are its parts between cuts, with their runs halved.** -/
theorem SpellsAll.fieldsByCuts_eq {text : List Char} {fields : List (List Char)} (distinct : d ≠ e)
    (h : SpellsAll d e text fields) : fieldsByCuts d e text = fields := by
  induction h with
  | last h =>
      rw [fieldsByCuts, h.cuts distinct, between, List.drop_zero, List.map_singleton, h.halveRuns]
  | dangling h =>
      -- The escape that is left over is a run of length one, and half of it is nothing.
      have hdangling : cuts d e [e] = [] := by rw [cuts_singleton, if_neg distinct.symm]
      rw [fieldsByCuts, cuts_append h.waits, h.cuts distinct, hdangling, List.map_nil,
        List.append_nil, between, List.drop_zero, List.map_singleton, h.halveRuns_append,
        halveRuns_escape, List.append_nil]
  | @cons part rest field fields h _ ih =>
      have hclosed : cuts d e (part ++ [d]) = [part.length] := by
        rw [cuts_append h.waits, h.cuts distinct, cuts_singleton, if_pos rfl]
        rfl
      have hbehind : waits e false (part ++ [d]) = false := by
        rw [waits_append, h.waits]
        simp [distinct]
      have htext : part ++ d :: rest = (part ++ [d]) ++ rest := by simp
      have hlength : part.length + 1 = (part ++ [d]).length + 0 := by simp
      have htake : ((part ++ [d]) ++ rest).take part.length = part := by simp
      rw [fieldsByCuts, htext, cuts_append hbehind, hclosed, List.singleton_append, between, htake,
        hlength, between_append, List.map_cons, List.drop_zero, h.halveRuns]
      exact congrArg (field :: ·) ih

/-- **The splitter cuts at the cuts and halves the runs between them.** -/
theorem fields_eq_fieldsByCuts (distinct : d ≠ e) (text : List Char) :
    fields d e text = fieldsByCuts d e text :=
  ((spellsAll_fieldsFrom d e false text).fieldsByCuts_eq distinct).symm

theorem length_fieldsByCuts (text : List Char) :
    (fieldsByCuts d e text).length = (cuts d e text).length + 1 := by
  rw [fieldsByCuts, List.length_map, length_between]

/-- The fields in order, each between the places of two cuts. -/
theorem fieldsByCuts_eq_zipWith (text : List Char) :
    fieldsByCuts d e text
      = List.zipWith (fun start stop => halveRuns e ((text.take stop).drop start))
          (0 :: (cuts d e text).map (· + 1)) (cuts d e text ++ [text.length]) := by
  rw [fieldsByCuts, between_eq_zipWith, List.map_zipWith]

/-! ## Pairs -/

/-- A token is a pair where it has one cut, and is malformed otherwise; it has no other fault. -/
theorem pair_cases (distinct : d ≠ e) (token : String) :
    ((cuts d e token.toList).length = 1
        ∧ ∃ entry, pair token (.singleton d) (.singleton e) = .ok entry)
      ∨ ((cuts d e token.toList).length ≠ 1
        ∧ pair token (.singleton d) (.singleton e) = .error (.malformedPair token)) := by
  have hlength : ((fields d e token.toList).map String.ofList).length
      = (cuts d e token.toList).length + 1 := by
    rw [List.length_map, fields_eq_fieldsByCuts distinct, length_fieldsByCuts]
  rw [pair, split_singleton distinct]
  -- The two outcomes of `pair` are told apart by the number of fields.
  rcases hfields : (fields d e token.toList).map String.ofList with
    _ | ⟨key, _ | ⟨value, _ | ⟨third, more⟩⟩⟩
  all_goals
    rw [hfields] at hlength
    simp only [List.length_cons, List.length_nil] at hlength
  · omega
  · exact .inr ⟨by omega, rfl⟩
  · exact .inl ⟨by omega, (key, value), rfl⟩
  · exact .inr ⟨by omega, rfl⟩

theorem pair_malformed_iff (distinct : d ≠ e) (token : String) :
    pair token (.singleton d) (.singleton e) = .error (.malformedPair token)
      ↔ (cuts d e token.toList).length ≠ 1 := by
  rcases pair_cases distinct token with ⟨hone, entry, hpair⟩ | ⟨hother, hpair⟩
  · simp [hone, hpair]
  · simp [hother, hpair]

theorem exists_pair_iff (distinct : d ≠ e) (token : String) :
    (∃ entry, pair token (.singleton d) (.singleton e) = .ok entry)
      ↔ (cuts d e token.toList).length = 1 := by
  rcases pair_cases distinct token with ⟨hone, entry, hpair⟩ | ⟨hother, hpair⟩
  · simp [hone, hpair]
  · simp [hother, hpair]

theorem isPair_iff {token : String} : IsPair token ↔ ∃ entry, pair token = .ok entry :=
  (exists_pair_iff (by decide) token).symm

theorem pair_of_not_isPair {token : String} (h : ¬ IsPair token) :
    pair token = .error (.malformedPair token) :=
  (pair_malformed_iff (by decide) token).mpr h

/-! ## The whole -/

/-- **One pass agrees with looking back.** The fields of a value are one more than its cuts; each
is what stands between the places of two cuts, the ends of the value counting as cuts, with each
run of escapes halved. So a token is a malformed pair exactly where it has not one cut. -/
theorem split_eq_fieldsByCuts (d e : Char) (distinct : d ≠ e) (value : String) :
    split value (.singleton d) (.singleton e)
        = .ok ((fieldsByCuts d e value.toList).map String.ofList)
      ∧ (fieldsByCuts d e value.toList).length = (cuts d e value.toList).length + 1
      ∧ fieldsByCuts d e value.toList
        = List.zipWith (fun start stop => halveRuns e ((value.toList.take stop).drop start))
            (0 :: (cuts d e value.toList).map (· + 1))
            (cuts d e value.toList ++ [value.toList.length])
      ∧ (pair value (.singleton d) (.singleton e) = .error (.malformedPair value)
        ↔ (cuts d e value.toList).length ≠ 1)
      ∧ ((∃ entry, pair value (.singleton d) (.singleton e) = .ok entry)
        ↔ (cuts d e value.toList).length = 1) := by
  refine ⟨?_, length_fieldsByCuts _, fieldsByCuts_eq_zipWith _, pair_malformed_iff distinct value,
    exists_pair_iff distinct value⟩
  rw [split_singleton distinct, fields_eq_fieldsByCuts distinct]

/-- A run of three in front of a delimiter hides it, a run of two does not, and the run of one at
the end is dropped. -/
theorem split_eq_fieldsByCuts_runs :
    '=' ≠ '\\' ∧ split "a\\\\\\=b\\\\=\\c\\" "=" "\\" = .ok ["a\\=b\\", "c"] := by
  have distinct : '=' ≠ '\\' := by decide
  refine ⟨distinct, ?_⟩
  have hfields : fieldsByCuts '=' '\\' "a\\\\\\=b\\\\=\\c\\".toList
      = ["a\\=b\\".toList, "c".toList] := by decide
  have hsplit := (split_eq_fieldsByCuts '=' '\\' distinct "a\\\\\\=b\\\\=\\c\\").1
  rw [hfields] at hsplit
  exact hsplit

end ArchiveRecord.Escaped
