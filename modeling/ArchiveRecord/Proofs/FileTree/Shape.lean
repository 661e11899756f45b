/- # Proofs.FileTree.Shape -- every write keeps a tree well-formed

A way that starts in a directory of a well-formed tree leads to a directory. Whatever
is put into a tree is put behind such a way, under a name that the system takes: the
normal form of a path leaves no other names but two dots, and two dots name nothing
new. So a tree stays well-formed whether a write succeeds or is refused half-way.
-/
import ArchiveRecord.Proofs.FileTree.Writing

namespace ArchiveRecord

/-- The characters of the names of a path stand in its text, but for slashes. -/
theorem Path.mem_text {path : Path} {name : String} {c : Char} (hc : c ≠ '/')
    (hname : name ∈ path.names) (hmem : c ∈ name.toList) : c ∈ path.text.toList := by
  obtain ⟨anchor, names⟩ := path
  have htext : text ⟨anchor, names⟩
      = String.ofList (anchor.text ++ (String.intercalate "/" names).toList) := by
    cases names with
    | nil => cases hname
    | cons first others => cases anchor <;> rfl
  rw [htext, String.toList_ofList, List.mem_append]
  exact .inr ((mem_intercalate_iff hc).mpr ⟨name, hname, hmem⟩)

namespace FileTree

variable {tree after : FileTree} {here there place : Place} {name : String} {names : List String}
  {content : List UInt8} {path : Path}

/-! ## Places -/

theorem IsPlace.isBase (h : IsPlace place) : Place.isBase place = false := by
  obtain ⟨base, names, rfl, -, hne, hnames⟩ := h
  obtain ⟨front, name, rfl⟩ := (List.eq_nil_or_concat' names).resolve_left hne
  have hname : IsName name := hnames name (List.mem_append_right front List.mem_cons_self)
  rw [← List.append_assoc]
  exact isBase_concat (base ++ front) (isDots_of_isName hname)

/-- What stands somewhere else than at the working directory and above is among the entries. -/
theorem mem_keys_of_get? {entry : Entry} (hbase : place.isBase = false)
    (h : tree.get? place = some entry) : place ∈ tree.entries.keys := by
  rw [get?, hbase] at h
  exact OrderedMap.mem_keys_of_get? h

namespace WellFormed

/-- A name in a directory is a place. -/
theorem isPlace_concat (h : tree.WellFormed) (hhere : tree.get? here = some .directory)
    (hname : IsName name) : IsPlace (here ++ [name]) := by
  cases hbase : here.isBase with
  | true => exact ⟨here, [name], rfl, hbase, by simp, by simpa using hname⟩
  | false =>
      obtain ⟨base, names, rfl, hfront, -, hnames⟩ := h.isPlace here (mem_keys_of_get? hbase hhere)
      refine ⟨base, names ++ [name], List.append_assoc base names [name], hfront, by simp, ?_⟩
      exact List.forall_mem_append.mpr ⟨hnames, by simpa using hname⟩

/-- **What is put into a directory keeps the tree well-formed**, if no directory becomes a file. -/
theorem put (h : tree.WellFormed) {entry : Entry} (hplace : IsPlace place)
    (hparent : tree.get? place.dropLast = some .directory)
    (hkept : tree.get? place = some .directory → entry = .directory) :
    (tree.put place entry).WellFormed := by
  have hdirectory (other : Place) (hother : tree.get? other = some .directory) :
      (tree.put place entry).get? other = some .directory := by
    rw [get?_put hplace.isBase]
    split
    next heq => rw [hkept (heq ▸ hother)]
    next => exact hother
  constructor
  · intro other hmem
    rcases OrderedMap.mem_keys_insert.mp hmem with rfl | hold
    · exact hplace
    · exact h.isPlace other hold
  · intro other hmem
    rcases OrderedMap.mem_keys_insert.mp hmem with rfl | hold
    · exact hdirectory _ hparent
    · exact hdirectory _ (h.parent other hold)

/-! ## Ways -/

theorem get?_back (h : tree.WellFormed) (hhere : tree.get? here = some .directory) :
    tree.get? here.back = some .directory := by
  unfold Place.back
  split
  next hbase =>
    have hup : Place.isBase (".." :: here) = true := by
      rw [Place.isBase, List.all_cons]
      exact hbase
    rw [get?, if_pos hup]
  next hbase => exact h.parent here (mem_keys_of_get? (Bool.eq_false_iff.mpr hbase) hhere)

theorem enter_directory (h : tree.WellFormed) (hhere : tree.get? here = some .directory)
    (henter : tree.enter here name = .ok there) : tree.get? there = some .directory := by
  unfold enter at henter
  split at henter
  · obtain rfl := Except.ok.inj henter
    exact hhere
  · split at henter
    · obtain rfl := Except.ok.inj henter
      exact h.get?_back hhere
    · split at henter
      · cases henter
      · cases henter
      · cases henter
      next hlook =>
        obtain rfl := Except.ok.inj henter
        exact (look_eq_ok_iff.mp hlook).2

/-- A way from a directory leads to a directory. -/
theorem reach_directory (h : tree.WellFormed) (hhere : tree.get? here = some .directory)
    (hreach : tree.reach here names = .ok there) : tree.get? there = some .directory := by
  induction names generalizing here with
  | nil =>
      obtain rfl := Except.ok.inj hreach
      exact hhere
  | cons name names ih =>
      rw [reach] at hreach
      cases hnext : tree.enter here name with
      | error refusal =>
          rw [hnext] at hreach
          cases hreach
      | ok next =>
          rw [hnext] at hreach
          exact ih (h.enter_directory hhere hnext) hreach

end WellFormed

/-! ## Operations -/

/-- **`Takes names`** -- those of the names that are no dots and short enough are names of entries. -/
def Takes (names : List String) : Prop :=
  ∀ name ∈ names, isDots name = false → name.utf8ByteSize ≤ nameLimit → IsName name

/-- The system takes the names of a normal form whose text it takes. -/
theorem takes_of_isNormal (h : ∀ name ∈ path.names, Path.IsNormal name)
    (hnul : '\x00' ∉ path.text.toList) : Takes path.names := by
  intro name hmem hdots hsize
  obtain ⟨hempty, hdot, hslash⟩ := h name hmem
  refine ⟨hempty, hdot, ?_, hslash, ?_, hsize⟩
  · rintro rfl
    exact absurd hdots (by decide)
  · intro hname
    exact hnul (Path.mem_text (by decide) hmem hname)

theorem nul_notMem_of_onPath {α : Type} {text : String} {operation : Except Refusal α} {result : α}
    (h : onPath text operation = .ok result) : '\x00' ∉ text.toList := by
  intro hnul
  rw [onPath, if_pos hnul] at h
  cases h

/-- A file that is filled stands in a directory that is reached, and was no directory. -/
theorem fillFile_eq_ok (h : tree.fillFile names content = .ok after) :
    ∃ front name here, names = front ++ [name] ∧ tree.reach [] front = .ok here
      ∧ isDots name = false ∧ name.utf8ByteSize ≤ nameLimit
      ∧ tree.get? (here ++ [name]) ≠ some .directory
      ∧ after = tree.put (here ++ [name]) (.file content) := by
  unfold fillFile at h
  split at h
  · cases h
  next name hlast =>
    split at h
    · cases h
    next here hreach =>
      split at h
      · cases h
      next hdots =>
        split at h
        · cases h
        · cases h
        next entry hentry hlook =>
          obtain ⟨hsize, hget⟩ := look_eq_ok_iff.mp hlook
          obtain ⟨front, rfl⟩ := List.getLast?_eq_some_iff.mp hlast
          rw [List.dropLast_concat] at hreach
          refine ⟨front, name, here, rfl, hreach, Bool.eq_false_iff.mpr hdots, hsize, ?_,
            (Except.ok.inj h).symm⟩
          rw [hget]
          exact hentry

theorem makeDirectory_wellFormed (h : tree.WellFormed) (hnames : Takes names)
    (hmade : tree.makeDirectory names = .ok after) : after.WellFormed := by
  obtain ⟨front, name, here, rfl, hreach, hdots, hsize, hnone, rfl⟩ := makeDirectory_eq_ok hmade
  have hhere := h.reach_directory get?_nil hreach
  have hname := hnames name (List.mem_append_right front List.mem_cons_self) hdots hsize
  refine h.put (h.isPlace_concat hhere hname) ?_ fun _ => rfl
  rwa [List.dropLast_concat]

theorem fillFile_wellFormed (h : tree.WellFormed) (hnames : Takes names)
    (hfilled : tree.fillFile names content = .ok after) : after.WellFormed := by
  obtain ⟨front, name, here, rfl, hreach, hdots, hsize, hfree, rfl⟩ := fillFile_eq_ok hfilled
  have hhere := h.reach_directory get?_nil hreach
  have hname := hnames name (List.mem_append_right front List.mem_cons_self) hdots hsize
  refine h.put (h.isPlace_concat hhere hname) ?_ fun hdirectory => absurd hdirectory hfree
  rwa [List.dropLast_concat]

theorem onPath_makeDirectory_wellFormed (h : tree.WellFormed)
    (hpath : ∀ name ∈ path.names, Path.IsNormal name)
    (hmade : onPath path.text (tree.makeDirectory path.names) = .ok after) : after.WellFormed :=
  makeDirectory_wellFormed h (takes_of_isNormal hpath (nul_notMem_of_onPath hmade))
    (onPath_eq_ok hmade)

theorem ensureDirectory_wellFormed (h : tree.WellFormed)
    (hpath : ∀ name ∈ path.names, Path.IsNormal name) :
    (tree.ensureDirectory path).1.WellFormed := by
  unfold ensureDirectory
  split
  next hmade => exact onPath_makeDirectory_wellFormed h hpath hmade
  next => exact h

theorem ensurePath_wellFormed (h : tree.WellFormed)
    (hpath : ∀ name ∈ path.names, Path.IsNormal name) (overflow : String) (calls : Nat) :
    (tree.ensurePath overflow path calls).1.WellFormed := by
  have hparent {path : Path} (hpath : ∀ name ∈ path.names, Path.IsNormal name) :
      ∀ name ∈ path.parent.names, Path.IsNormal name :=
    fun name hmem => hpath name (List.dropLast_subset path.names hmem)
  fun_induction ensurePath tree overflow path calls with
  | case1 path calls after hmade => exact onPath_makeDirectory_wellFormed h hpath hmade
  | case2 path fault hfault hmissing => exact h
  | case3 path fault hfault hmissing calls after refused hmade ih =>
      rw [hmade] at ih
      exact ih (hparent hpath)
  | case4 path fault hfault hmissing calls after hmade ih =>
      rw [hmade] at ih
      exact ensureDirectory_wellFormed (ih (hparent hpath)) hpath
  | case5 path calls fault hfault hother => exact h

theorem fill_wellFormed (h : tree.WellFormed) (hpath : ∀ name ∈ path.names, Path.IsNormal name)
    (content : Content) : (tree.fill path content).1.WellFormed := by
  unfold fill
  split
  next after hopen =>
    exact fillFile_wellFormed h (takes_of_isNormal hpath (nul_notMem_of_onPath hopen))
      (onPath_eq_ok hopen)
  next => exact h

/-- **Every write leaves a well-formed tree**, also where it is refused half-way. -/
theorem write_wellFormed (h : tree.WellFormed) (host : Host)
    (hpath : ∀ name ∈ path.names, Path.IsNormal name) (content : Content) :
    (tree.write host path content).1.WellFormed := by
  have hparent (name : String) (hmem : name ∈ path.parent.names) : Path.IsNormal name :=
    hpath name (List.dropLast_subset path.names hmem)
  have hmade := ensurePath_wellFormed h hparent host.overflow host.nesting
  unfold write
  split
  next made fault hresult =>
    rw [hresult] at hmade
    exact hmade
  next made hresult =>
    rw [hresult] at hmade
    exact fill_wellFormed hmade hpath content

end FileTree

end ArchiveRecord
