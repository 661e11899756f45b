/- # Proofs.Command.Nested -- outputs below directories of one name

A path that repeats one name has as many directories on the way as one likes, and its
length follows from their number. In the empty tree all of them are missing. So such
paths lie on either side of each limit: that on the length of a path, and that on the
calls that fit into one another.
-/
import ArchiveRecord.Proofs.Command.Run
import ArchiveRecord.Proofs.FileTree.Writing

namespace ArchiveRecord

/-! ## Paths -/

namespace Path

/-- The path of a last name below a number of directories of one name. -/
def nested (name : String) (depth : Nat) (last : String) : Path :=
  ⟨.relative, List.replicate depth name ++ [last]⟩

variable {name last : String} {depth : Nat}

theorem names_nested_ne_nil : (nested name depth last).names ≠ [] :=
  List.append_ne_nil_of_right_ne_nil _ (List.cons_ne_nil last [])

theorem parent_nested : (nested name depth last).parent = ⟨.relative, List.replicate depth name⟩ := by
  rw [nested, parent_concat]

theorem named_nested (hname : FileTree.IsName name) (hlast : FileTree.IsName last) (depth : Nat) :
    (nested name depth last).Named where
  relative := rfl
  isName := by
    intro found hmem
    rcases List.mem_append.mp hmem with hfront | hend
    · rwa [List.eq_of_mem_replicate hfront]
    · rwa [List.mem_singleton.mp hend]

theorem text_nested : (nested name depth last).text
    = String.intercalate "/" (List.replicate depth name ++ [last]) :=
  text_relative rfl names_nested_ne_nil

/-- Each directory adds its name and a slash to the length. -/
theorem utf8ByteSize_text_nested : (nested name depth last).text.utf8ByteSize
    = depth * (name.utf8ByteSize + 1) + last.utf8ByteSize := by
  rw [text_nested]
  induction depth with
  | zero => simp
  | succ depth ih =>
      have hslash : "/".utf8ByteSize = 1 := rfl
      rw [List.replicate_succ, List.cons_append, String.intercalate_cons_of_ne_nil (by simp),
        String.utf8ByteSize_append, String.utf8ByteSize_append, ih, hslash, Nat.succ_mul]
      omega

/-- Names of entries make an ordinary path of them while it keeps the limit. -/
theorem ordinary_nested (hname : FileTree.IsName name) (hlast : FileTree.IsName last)
    (hshort : depth * (name.utf8ByteSize + 1) + last.utf8ByteSize < FileTree.pathLimit) :
    (nested name depth last).Ordinary :=
  ordinary_iff.mpr ⟨named_nested hname hlast depth, utf8ByteSize_text_nested ▸ hshort⟩

/-- Below a directory the text of a path holds a slash. -/
theorem slash_mem_text_nested : '/' ∈ (nested name (depth + 1) last).text.toList := by
  rw [text_nested, List.replicate_succ, List.cons_append,
    String.intercalate_cons_of_ne_nil (by simp), String.toList_append, String.toList_append]
  exact List.mem_append_left _ (List.mem_append_right _ (List.mem_singleton.mpr rfl))

end Path

/-! ## Fillings -/

/-- No flag has a slash in its name. -/
theorem Flag.ofName?_of_slash {text : String} (h : '/' ∈ text.toList) : ofName? text = none := by
  rw [ofName?_eq_none_iff]
  rintro flag rfl
  revert h
  cases flag <;> decide

/-- A text with a slash is taken for the output path. -/
theorem Archive.fills_of_slash {output : String} (h : '/' ∈ output.toList) (tracing : Bool)
    (provider : Parser.Provider) :
    empty.Fills output tracing provider [Flag.outputFile.name, output] := by
  refine fills_outputFile (Flag.ofName?_of_slash h) ?_ tracing provider
  rintro rfl
  exact absurd h List.not_mem_nil

/-- So is the text of a path below a directory. -/
theorem Archive.fills_nested {name last : String} {depth : Nat} (hdepth : 0 < depth)
    (tracing : Bool) (provider : Parser.Provider) :
    empty.Fills (Path.nested name depth last).text tracing provider
      [Flag.outputFile.name, (Path.nested name depth last).text] := by
  obtain ⟨above, rfl⟩ := Nat.exists_eq_add_one_of_ne_zero (Nat.ne_of_gt hdepth)
  exact fills_of_slash Path.slash_mem_text_nested tracing provider

/-! ## The empty tree -/

namespace FileTree

theorem get?_empty_concat (front : List String) {name : String} (h : IsName name) :
    FileTree.get? {} (front ++ [name]) = none := by
  rw [get?, isBase_concat front (isDots_of_isName h)]
  rfl

theorem get?_empty_nested {name last : String} {depth : Nat} (h : IsName last) :
    FileTree.get? {} (Path.nested name depth last).names = none :=
  get?_empty_concat (List.replicate depth name) h

/-- In the empty tree every directory on the way is missing. -/
theorem missing_empty {names : List String} (h : ∀ name ∈ names, IsName name) :
    missing {} names = names.length := by
  induction names using List.reverseRecOn with
  | nil => exact paved_nil.missing_eq
  | append_singleton front name ih =>
      have hname : IsName name := h name (by simp)
      rw [missing_concat, get?_empty_concat front hname, if_pos rfl, List.length_append,
        ih (fun found hmem => h found (List.mem_append_left _ hmem))]
      rfl

/-- Behind a way that is paved, no more than the rest is missing. -/
theorem Paved.missing_append_le {tree : FileTree} {front : List String} (h : Paved tree front)
    (rest : List String) : tree.missing (front ++ rest) ≤ rest.length := by
  induction rest using List.reverseRecOn with
  | nil =>
      rw [List.append_nil, h.missing_eq]
      exact Nat.zero_le _
  | append_singleton rest name ih =>
      rw [← List.append_assoc, missing_concat, List.length_append, List.length_singleton]
      split <;> omega

end FileTree

/-! ## Runs -/

section Runs

variable {provider : Option Parser.Provider} {host : Host} {tracing : Bool}
  {arguments : List String} {session : Session} {archive : Archive} {output : String}

/-- **A run whose output lies too deep fails**, and leaves the tree as it is: more directories are
missing on the way than calls fit into one another. -/
theorem run_deep (hreaches : host.ReachesWrite)
    (h : archive.Fills output tracing (session.paramsFiles provider) arguments)
    (htree : session.tree.WellFormed) (hpath : (Path.ofString output).Ordinary)
    (hclear : session.tree.Clear (Path.ofString output).parent.names)
    (hdeep : host.nesting + 1 < session.tree.missing (Path.ofString output).parent.names)
    (environment : Environment) (settings : Settings) :
    (run environment settings provider host arguments session).ending
        = .failed (.exhausted host.overflow)
      ∧ (run environment settings provider host arguments session).session.tree = session.tree :=
  run_refused hreaches h (FileTree.write_deep htree hpath.parent hclear hdeep) environment settings

/-- So does one whose output lies below too many directories in the empty tree, where nothing is in
the way. -/
theorem run_nested_deep {name last : String} {depth : Nat} (hreaches : host.ReachesWrite)
    (hname : FileTree.IsName name) (hlast : FileTree.IsName last)
    (hshort : depth * (name.utf8ByteSize + 1) + last.utf8ByteSize < FileTree.pathLimit)
    (hdeep : host.nesting + 1 < depth) (environment : Environment) (settings : Settings) :
    let path := Path.nested name depth last
    let arguments := [Flag.outputFile.name, path.text]
    let report := run environment settings none host arguments {}
    Archive.empty.Fills path.text false (Session.paramsFiles {} none) arguments
      ∧ (Path.ofString path.text).Ordinary
      ∧ FileTree.get? {} (Path.ofString path.text).names = none
      ∧ report.ending = .failed (.exhausted host.overflow) := by
  intro path arguments report
  have hpath : path.Ordinary := Path.ordinary_nested hname hlast hshort
  have hread : Path.ofString path.text = path := hpath.named.ofString_text Path.names_nested_ne_nil
  have hfills : Archive.empty.Fills path.text false (Session.paramsFiles {} none) arguments :=
    Archive.fills_nested (Nat.zero_lt_of_lt hdeep) false _
  have hmissing : FileTree.missing {} path.parent.names = depth := by
    rw [FileTree.missing_empty hpath.parent.isName, Path.parent_nested, List.length_replicate]
  have hnone : FileTree.get? {} path.names = none := FileTree.get?_empty_nested hlast
  rw [hread]
  refine ⟨hfills, hpath, hnone, ?_⟩
  refine (run_deep hreaches hfills FileTree.wellFormed_empty ?_ ?_ ?_ environment settings).1
  · rwa [hread]
  · exact FileTree.clear_empty _
  · rw [hread]
    exact hdeep.trans_eq hmissing.symm

end Runs

end ArchiveRecord
