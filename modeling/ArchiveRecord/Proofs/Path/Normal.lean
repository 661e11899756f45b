/- # Proofs.Path.Normal -- names and texts of paths in normal form

The names of a path text are pieces between slashes, so none of them is empty, a
dot or holds a slash; and names of this kind, joined by slashes, are read back as
they are. A path is ordinary when it leads from the working directory down and
keeps the limits of the system; then its parent does too, and an operation on it
is refused only for what it meets in the tree.
-/
import ArchiveRecord.FileTree.Basic

namespace ArchiveRecord.Path

/-! ## Pieces of a text -/

variable {separator : Char} {piece text : List Char}

/-- No piece holds the separator. -/
theorem notMem_of_mem_pieces (h : piece ∈ pieces separator text) : separator ∉ piece := by
  induction text generalizing piece with
  | nil =>
      obtain rfl := List.mem_singleton.mp h
      exact List.not_mem_nil
  | cons c rest ih =>
      rw [pieces] at h
      split at h
      · rcases List.mem_cons.mp h with rfl | hmore
        · exact List.not_mem_nil
        · exact ih hmore
      next hc =>
        split at h
        · obtain rfl := List.mem_singleton.mp h
          exact fun hmem => hc (List.mem_singleton.mp hmem).symm
        next first more hpieces =>
          rcases List.mem_cons.mp h with rfl | hmore
          · -- The first piece grows at its front by a character that is no separator.
            have hfirst : separator ∉ first := ih (hpieces ▸ List.mem_cons_self)
            exact fun hmem => (List.mem_cons.mp hmem).elim (fun e => hc e.symm) hfirst
          · exact ih (hpieces ▸ List.mem_cons_of_mem first hmore)

/-- A text without the separator is one piece. -/
theorem pieces_of_notMem (h : separator ∉ text) : pieces separator text = [text] := by
  induction text with
  | nil => rfl
  | cons c rest ih =>
      rw [List.mem_cons, not_or] at h
      rw [pieces, if_neg (Ne.symm h.1), ih h.2]

/-- What stands in front of a separator is a piece. -/
theorem pieces_append (h : separator ∉ piece) (rest : List Char) :
    pieces separator (piece ++ separator :: rest) = piece :: pieces separator rest := by
  induction piece with
  | nil => rw [List.nil_append, pieces, if_pos rfl]
  | cons c piece ih =>
      rw [List.mem_cons, not_or] at h
      rw [List.cons_append, pieces, if_neg (Ne.symm h.1), ih h.2]

/-! ## Names of a path text -/

/-- **`IsNormal name`** -- the normal form keeps the name. -/
def IsNormal (name : String) : Prop := name ≠ "" ∧ name ≠ "." ∧ '/' ∉ name.toList

theorem isNormal_of_mem_namesOf {name : String} (h : name ∈ namesOf text) : IsNormal name := by
  obtain ⟨piece, hpiece, rfl⟩ := List.mem_map.mp h
  obtain ⟨hmem, hkept⟩ := List.mem_filter.mp hpiece
  obtain ⟨hempty, hdot⟩ := of_decide_eq_true hkept
  refine ⟨?_, ?_, ?_⟩
  · intro hname
    exact hempty (by simpa using congrArg String.toList hname)
  · intro hname
    exact hdot (by simpa using congrArg String.toList hname)
  · rw [String.toList_ofList]
    exact notMem_of_mem_pieces hmem

/-- The names of a path text are all kept. -/
theorem isNormal_ofString {text name : String} (h : name ∈ (ofString text).names) :
    IsNormal name :=
  isNormal_of_mem_namesOf h

theorem pieces_intercalate {names : List String} (hne : names ≠ [])
    (h : ∀ name ∈ names, IsNormal name) :
    pieces '/' (String.intercalate "/" names).toList = names.map String.toList := by
  induction names with
  | nil => exact absurd rfl hne
  | cons name names ih =>
      obtain ⟨⟨-, -, hname⟩, hmore⟩ := List.forall_mem_cons.mp h
      cases names with
      | nil =>
          rw [String.intercalate_singleton, pieces_of_notMem hname]
          rfl
      | cons second names =>
          have hrest := ih (List.cons_ne_nil second names) hmore
          have htext : (String.intercalate "/" (name :: second :: names)).toList
              = name.toList ++ '/' :: (String.intercalate "/" (second :: names)).toList := by
            rw [String.intercalate_cons_cons, String.toList_append, String.toList_append,
              List.append_assoc]
            rfl
          rw [htext, pieces_append hname, hrest]
          rfl

/-- **Names joined by slashes are read back.** -/
theorem ofString_intercalate {names : List String} (hne : names ≠ [])
    (h : ∀ name ∈ names, IsNormal name) :
    ofString (String.intercalate "/" names) = ⟨.relative, names⟩ := by
  have hanchor : anchorOf (String.intercalate "/" names).toList = .relative := by
    cases names with
    | nil => exact absurd rfl hne
    | cons name names =>
        obtain ⟨⟨hempty, -, hslash⟩, -⟩ := List.forall_mem_cons.mp h
        -- The text starts as its first name does, which is not with a slash.
        obtain ⟨c, rest, hname⟩ : ∃ c rest, name.toList = c :: rest := by
          cases hlist : name.toList with
          | nil => exact absurd (String.toList_inj.mp hlist) hempty
          | cons c rest => exact ⟨c, rest, rfl⟩
        have hc : c ≠ '/' := by
          rintro rfl
          exact hslash (hname ▸ List.mem_cons_self)
        obtain ⟨tail, htail⟩ : ∃ tail,
            (String.intercalate "/" (name :: names)).toList = c :: tail := by
          cases names with
          | nil => exact ⟨rest, by rw [String.intercalate_singleton, hname]⟩
          | cons second names =>
              rw [String.intercalate_cons_cons, String.toList_append, String.toList_append,
                hname, List.cons_append, List.cons_append]
              exact ⟨_, rfl⟩
        rw [htail]
        unfold anchorOf
        split <;> simp_all
  have hnames : namesOf (String.intercalate "/" names).toList = names := by
    have hkept : (names.map String.toList).filter (fun name => decide (name ≠ [] ∧ name ≠ ['.']))
        = names.map String.toList := by
      rw [List.filter_eq_self]
      intro piece hpiece
      obtain ⟨name, hname, rfl⟩ := List.mem_map.mp hpiece
      obtain ⟨hempty, hdot, -⟩ := h name hname
      refine decide_eq_true ⟨fun hnil => hempty ?_, fun hlist => hdot ?_⟩
      · exact String.toList_inj.mp hnil
      · exact String.toList_inj.mp hlist
    rw [namesOf, pieces_intercalate hne h, hkept, List.map_map]
    have hcomp : (String.ofList ∘ String.toList) = id := funext fun name => String.ofList_toList
    rw [hcomp, List.map_id]
  rw [ofString, hanchor, hnames]

/-! ## Texts -/

/-- A relative path with names is written as its names, joined by slashes. -/
theorem text_relative {path : Path} (h : path.anchor = .relative) (hne : path.names ≠ []) :
    path.text = String.intercalate "/" path.names := by
  obtain ⟨anchor, names⟩ := path
  obtain rfl : anchor = .relative := h
  cases names with
  | nil => exact absurd rfl hne
  | cons name names =>
      show String.ofList ([] ++ (String.intercalate "/" (name :: names)).toList) = _
      rw [List.nil_append, String.ofList_toList]

/-- A relative path without names is written as a dot. -/
theorem text_dot {path : Path} (h : path.anchor = .relative) (hnil : path.names = []) :
    path.text = "." := by
  rw [text, h, hnil]

theorem parent_concat (anchor : Anchor) (front : List String) (name : String) :
    parent ⟨anchor, front ++ [name]⟩ = ⟨anchor, front⟩ := by
  rw [parent, List.dropLast_concat]

/-- The text of a relative path is that of its parent with a slash and the last name, unless its
parent is written as a dot. -/
theorem text_parent {path : Path} (h : path.anchor = .relative) :
    path.parent.text = "." ∨ ∃ name, path.text = path.parent.text ++ "/" ++ name := by
  obtain ⟨anchor, names⟩ := path
  obtain rfl : anchor = .relative := h
  rcases List.eq_nil_or_concat names with rfl | ⟨front, name, rfl⟩
  · exact .inl rfl
  · rw [List.concat_eq_append, parent_concat]
    by_cases hfront : front = []
    · exact .inl (text_dot rfl hfront)
    · have hne : front ++ [name] ≠ [] := List.append_ne_nil_of_left_ne_nil hfront [name]
      refine .inr ⟨name, ?_⟩
      rw [text_relative rfl hne, text_relative rfl hfront,
        String.intercalate_append_of_ne_nil hfront (List.cons_ne_nil name []),
        String.intercalate_singleton]

/-- The characters of joined names are those of the names, and slashes. -/
theorem mem_intercalate_iff {names : List String} {c : Char} (hc : c ≠ '/') :
    c ∈ (String.intercalate "/" names).toList ↔ ∃ name ∈ names, c ∈ name.toList := by
  induction names with
  | nil => simp
  | cons name names ih =>
      cases names with
      | nil => simp
      | cons second names =>
          rw [String.intercalate_cons_cons, String.toList_append, String.toList_append,
            List.mem_append, List.mem_append, ih]
          simp [hc]

/-! ## Ordinary paths -/

/-- **`path.Named`** -- the path leads from the working directory down, under names that entries can
have. -/
structure Named (path : Path) : Prop where
  relative : path.anchor = .relative
  isName : ∀ name ∈ path.names, FileTree.IsName name

/-- **`path.Ordinary`** -- the path leads from the working directory down, under names that entries
can have, and is short enough for the system. -/
structure Ordinary (path : Path) : Prop where
  relative : path.anchor = .relative
  isName : ∀ name ∈ path.names, FileTree.IsName name
  short : path.text.utf8ByteSize < FileTree.pathLimit

theorem ordinary_iff {path : Path} :
    path.Ordinary ↔ path.Named ∧ path.text.utf8ByteSize < FileTree.pathLimit :=
  ⟨fun h => ⟨⟨h.relative, h.isName⟩, h.short⟩, fun h => ⟨h.1.relative, h.1.isName, h.2⟩⟩

/-- The names of the normal form of a text are names of entries exactly where it is relative, has no
two dots and no U+0000, and keeps the limit on names. -/
theorem named_ofString_iff {text : String} :
    (ofString text).Named ↔ (ofString text).anchor = .relative
      ∧ ".." ∉ (ofString text).names ∧ '\x00' ∉ (ofString text).text.toList
      ∧ ∀ name ∈ (ofString text).names, name.utf8ByteSize ≤ FileTree.nameLimit := by
  have htext (h : (ofString text).anchor = .relative) : '\x00' ∈ (ofString text).text.toList
      ↔ ∃ name ∈ (ofString text).names, '\x00' ∈ name.toList := by
    by_cases hnil : (ofString text).names = []
    · rw [text_dot h hnil, hnil]
      simp
    · rw [text_relative h hnil, mem_intercalate_iff (by decide)]
  constructor
  · rintro ⟨relative, isName⟩
    refine ⟨relative, ?_, ?_, ?_⟩
    · intro hmem
      exact (isName ".." hmem).2.2.1 rfl
    · intro hnul
      obtain ⟨name, hmem, hname⟩ := (htext relative).mp hnul
      exact (isName name hmem).2.2.2.2.1 hname
    · intro name hmem
      exact (isName name hmem).2.2.2.2.2
  · rintro ⟨relative, hup, hnul, hsize⟩
    refine ⟨relative, ?_⟩
    intro name hmem
    obtain ⟨hempty, hdot, hslash⟩ := isNormal_ofString hmem
    refine ⟨hempty, hdot, ?_, hslash, ?_, hsize name hmem⟩
    · rintro rfl
      exact hup hmem
    · intro hname
      exact hnul ((htext relative).mpr ⟨name, hmem, hname⟩)

/-- The normal form of a text is ordinary exactly where it is relative, has no two dots and no
U+0000, and keeps the limits. -/
theorem ordinary_ofString_iff {text : String} :
    (ofString text).Ordinary ↔ (ofString text).anchor = .relative
      ∧ ".." ∉ (ofString text).names ∧ '\x00' ∉ (ofString text).text.toList
      ∧ (∀ name ∈ (ofString text).names, name.utf8ByteSize ≤ FileTree.nameLimit)
      ∧ (ofString text).text.utf8ByteSize < FileTree.pathLimit := by
  rw [ordinary_iff, named_ofString_iff, and_assoc, and_assoc, and_assoc]

namespace Named

variable {path : Path}

/-- Names of entries are kept by the normal form. -/
theorem isNormal (h : path.Named) : ∀ name ∈ path.names, IsNormal name :=
  fun name hmem => ⟨(h.isName name hmem).1, (h.isName name hmem).2.1, (h.isName name hmem).2.2.2.1⟩

/-- The text of a named path is read back. -/
theorem ofString_text (h : path.Named) (hne : path.names ≠ []) : ofString path.text = path := by
  obtain ⟨anchor, names⟩ := path
  obtain rfl : anchor = .relative := h.relative
  rw [text_relative rfl hne, ofString_intercalate hne h.isNormal]

theorem parent (h : path.Named) : path.parent.Named where
  relative := h.relative
  isName := fun name hmem => h.isName name (List.dropLast_subset path.names hmem)

/-- The text of a path under names names something, and holds no U+0000. -/
theorem text_ne_empty_and_nul_notMem (h : path.Named) :
    path.text ≠ "" ∧ '\x00' ∉ path.text.toList := by
  by_cases hnil : path.names = []
  · rw [text_dot h.relative hnil]
    decide
  · rw [text_relative h.relative hnil]
    constructor
    · -- The first name is not empty.
      obtain ⟨name, names, hnames⟩ := List.exists_cons_of_ne_nil hnil
      have hname := (h.isName name (hnames ▸ List.mem_cons_self)).1
      rw [hnames]
      intro hempty
      cases names with
      | nil => exact hname (by rwa [String.intercalate_singleton] at hempty)
      | cons second names =>
          rw [String.intercalate_cons_cons] at hempty
          simp at hempty
    · rw [mem_intercalate_iff (by decide)]
      rintro ⟨name, hmem, hname⟩
      exact (h.isName name hmem).2.2.2.2.1 hname

/-- An operation on a path that is too long is refused whatever it would meet. -/
theorem onPath_long {α : Type} (h : path.Named)
    (hlong : FileTree.pathLimit ≤ path.text.utf8ByteSize) (operation : Except Refusal α) :
    FileTree.onPath path.text operation = .error (.refused .nameTooLong path.text) := by
  obtain ⟨hne, hnul⟩ := h.text_ne_empty_and_nul_notMem
  rw [FileTree.onPath, if_neg hnul, if_neg hne, if_pos hlong]

end Named

namespace Ordinary

variable {path : Path}

theorem named (h : path.Ordinary) : path.Named := (ordinary_iff.mp h).1

/-- The parent of an ordinary path is ordinary. -/
theorem parent (h : path.Ordinary) : path.parent.Ordinary := by
  refine ordinary_iff.mpr ⟨h.named.parent, ?_⟩
  rcases text_parent h.relative with hdot | ⟨name, htext⟩
  · rw [hdot]
    decide
  · have hsize := h.short
    rw [htext, String.utf8ByteSize_append, String.utf8ByteSize_append] at hsize
    omega

/-- The last name of an ordinary path, and those in front of it. -/
theorem isName_concat (h : path.Ordinary) {front : List String} {name : String}
    (hnames : path.names = front ++ [name]) :
    (∀ other ∈ front, FileTree.IsName other) ∧ FileTree.IsName name := by
  have hall := h.isName
  rw [hnames] at hall
  exact ⟨fun other hmem => hall other (List.mem_append_left _ hmem),
    hall name (List.mem_append_right front List.mem_cons_self)⟩

/-- An operation on an ordinary path is refused only for what it meets. -/
theorem onPath {α : Type} (h : path.Ordinary) (operation : Except Refusal α) :
    FileTree.onPath path.text operation = operation.mapError (Fault.refused · path.text) := by
  obtain ⟨hne, hnul⟩ := h.named.text_ne_empty_and_nul_notMem
  rw [FileTree.onPath, if_neg hnul, if_neg hne, if_neg (Nat.not_le.mpr h.short)]

end Ordinary

end ArchiveRecord.Path
