/- # Proofs.FileTree.Writing -- a file at an ordinary path

Under ordinary names a way meets one of three things: directories only, a file, or
nothing from some name on. In a well-formed tree the entry at the end of the way
tells which, so that making a path and writing a file are settled by three
questions: does a file stand in the way, how many directories are missing on it, and
what stands at the place itself?

A write that is refused leaves the tree as it is; one that succeeds leaves the
file at its place, directories on the way to it, and every other place as it was.
Where there are no bytes to write, the file is left empty.
-/
import ArchiveRecord.Proofs.FileTree.Growth
import ArchiveRecord.Proofs.Path.Normal
import Mathlib.Data.List.Basic
import Mathlib.Data.List.Induction
import Mathlib.Data.List.Infix

namespace ArchiveRecord.FileTree

variable {tree after : FileTree} {here place part : Place} {name : String} {names front : List String}
  {content : List UInt8} {refusal : Refusal}

/-! ## What stands on a way -/

theorem concat_not_part : ¬ front ++ [name] <+: front := by
  intro hpart
  have hlength := hpart.length_le
  rw [List.length_append, List.length_singleton] at hlength
  omega

theorem get?_nil : tree.get? [] = some .directory := rfl

theorem isDots_of_isName (h : IsName name) : isDots name = false :=
  decide_eq_false fun hdots => hdots.elim h.2.1 h.2.2.1

theorem enter_of_isName (h : IsName name) :
    tree.enter here name = match tree.get? (here ++ [name]) with
      | none => .error .missing
      | some (.file _) => .error .notDirectory
      | some .directory => .ok (here ++ [name]) := by
  rw [enter, if_neg h.2.1, if_neg h.2.2.1, look_eq_ok_iff.mpr ⟨h.2.2.2.2.2, rfl⟩]
  cases tree.get? (here ++ [name]) with
  | none => rfl
  | some entry => cases entry <;> rfl

/-- In a well-formed tree, what stands above an entry is a directory. -/
theorem WellFormed.directory_of_part (h : tree.WellFormed) {entry : Entry}
    (hentry : tree.get? place = some entry) (hpart : part <+: place) (hne : part ≠ place) :
    tree.get? part = some .directory := by
  obtain ⟨rest, rfl⟩ := hpart
  induction rest using List.reverseRecOn generalizing entry with
  | nil => exact absurd (List.append_nil part).symm hne
  | append_singleton rest name ih =>
      rw [← List.append_assoc] at hentry
      -- The entry stands in a directory.
      have habove : tree.get? (part ++ rest) = some .directory := by
        unfold get? at hentry
        split at hentry
        next hbase =>
          have hall : Place.isBase (part ++ rest) = true := by
            rw [Place.isBase, List.all_append, Bool.and_eq_true] at hbase
            exact hbase.1
          rw [get?, if_pos hall]
        next =>
          have hdrop := h.parent _ (OrderedMap.mem_keys_of_get? hentry)
          rwa [List.dropLast_concat] at hdrop
      by_cases hrest : part = part ++ rest
      · rwa [← hrest] at habove
      · exact ih habove hrest

/-- **`Clear tree names`** -- no file stands on the way of the names, nor at its end. -/
def Clear (tree : FileTree) (names : List String) : Prop :=
  ∀ part content, part <+: names → tree.get? part ≠ some (.file content)

instance (tree : FileTree) (names : List String) : Decidable (Clear tree names) :=
  decidable_of_iff (∀ part ∈ names.inits,
      tree.get? part = none ∨ tree.get? part = some .directory) <| by
    simp only [List.mem_inits]
    refine forall_congr' fun part => ?_
    cases tree.get? part with
    | none => simp
    | some entry => cases entry <;> simp

/-- **`Paved tree names`** -- directories stand on the way of the names and at its end. -/
def Paved (tree : FileTree) (names : List String) : Prop :=
  ∀ part, part <+: names → tree.get? part = some .directory

theorem paved_concat_iff : Paved tree (front ++ [name])
    ↔ Paved tree front ∧ tree.get? (front ++ [name]) = some .directory := by
  constructor
  · intro h
    exact ⟨fun part hpart => h part (hpart.trans (List.prefix_append front [name])),
      h _ (List.prefix_refl _)⟩
  · rintro ⟨hfront, hlast⟩ part hpart
    rcases List.prefix_concat_iff.mp hpart with rfl | hpart
    · exact hlast
    · exact hfront part hpart

theorem clear_concat_iff : Clear tree (front ++ [name])
    ↔ Clear tree front ∧ ∀ content, tree.get? (front ++ [name]) ≠ some (.file content) := by
  constructor
  · intro h
    exact ⟨fun part content hpart => h part content (hpart.trans (List.prefix_append front [name])),
      fun content => h _ content (List.prefix_refl _)⟩
  · rintro ⟨hfront, hlast⟩ part content hpart
    rcases List.prefix_concat_iff.mp hpart with rfl | hpart
    · exact hlast content
    · exact hfront part content hpart

/-- A file that is in the way stands at the end, if not before. -/
theorem exists_file_of_not_clear (hfront : Clear tree front) (h : ¬ Clear tree (front ++ [name])) :
    ∃ content, tree.get? (front ++ [name]) = some (.file content) := by
  by_contra hnone
  exact h (clear_concat_iff.mpr ⟨hfront, fun content hfile => hnone ⟨content, hfile⟩⟩)

theorem Paved.clear (h : Paved tree names) : Clear tree names := by
  intro part content hpart hfile
  rw [h part hpart] at hfile
  cases hfile

theorem paved_nil : Paved tree [] := by
  intro part hpart
  rw [List.prefix_nil.mp hpart]
  exact get?_nil

/-- Where a directory stands, the way to it is paved. -/
theorem WellFormed.paved (h : tree.WellFormed) (hdirectory : tree.get? names = some .directory) :
    Paved tree names := by
  intro part hpart
  by_cases hne : part = names
  · rwa [hne]
  · exact h.directory_of_part hdirectory hpart hne

/-- Where a file stands, the way to its directory is paved. -/
theorem WellFormed.paved_front (h : tree.WellFormed) {entry : Entry}
    (hentry : tree.get? (front ++ [name]) = some entry) : Paved tree front :=
  h.paved (h.directory_of_part hentry (List.prefix_append front [name]) (by simp))

/-- The number of directories that are missing on the way of the names. -/
def missing (tree : FileTree) (names : List String) : Nat :=
  names.inits.countP fun part => tree.get? part = none

theorem missing_concat : tree.missing (front ++ [name])
    = tree.missing front + if tree.get? (front ++ [name]) = none then 1 else 0 := by
  simp [missing, List.inits_append, List.countP_append]

theorem missing_pos (h : tree.get? names = none) : 0 < tree.missing names := by
  rw [missing, List.countP_pos_iff]
  exact ⟨names, (List.mem_inits names names).mpr (List.prefix_refl _), by simp [h]⟩

theorem Paved.missing_eq (h : Paved tree names) : tree.missing names = 0 := by
  rw [missing, List.countP_eq_zero]
  intro part hmem
  simp [h part (List.mem_inits part names |>.mp hmem)]

/-- No file is in the way to a path where none stands at a proper part of its names. -/
theorem clear_parent_iff {path : Path} : Clear tree path.parent.names
    ↔ ∀ part content, part <+: path.names → part ≠ path.names →
        tree.get? part ≠ some (.file content) := by
  rw [Path.parent]
  cases path.names using List.reverseRecOn with
  | nil =>
      constructor
      · intro _ part content hpart hne
        exact absurd (List.prefix_nil.mp hpart) hne
      · intro _
        exact paved_nil.clear
  | append_singleton front name _ =>
      rw [List.dropLast_concat]
      constructor
      · intro h part content hpart hne
        exact h part content ((List.prefix_concat_iff.mp hpart).resolve_left hne)
      · intro h part content hpart
        refine h part content (hpart.trans (List.prefix_append front [name])) ?_
        rintro rfl
        exact concat_not_part hpart

/-! ## The empty tree -/

theorem wellFormed_empty : WellFormed {} where
  isPlace := fun _ hmem => absurd hmem List.not_mem_nil
  parent := fun _ hmem => absurd hmem List.not_mem_nil

theorem clear_empty (names : List String) : Clear {} names := by
  intro part content _ hfile
  unfold get? at hfile
  split at hfile <;> cases hfile

/-! ## Ways under ordinary names -/

theorem reach_paved (hnames : ∀ name ∈ names, IsName name) (h : Paved tree names) :
    tree.reach [] names = .ok names := by
  induction names using List.reverseRecOn with
  | nil => rfl
  | append_singleton front name ih =>
      obtain ⟨hfront, hlast⟩ := paved_concat_iff.mp h
      obtain ⟨hnames, hname⟩ := List.forall_mem_append.mp hnames
      rw [reach_concat, ih hnames hfront]
      show tree.enter front name = _
      rw [enter_of_isName (hname name List.mem_cons_self), hlast]

theorem reach_blocked (htree : tree.WellFormed) (hnames : ∀ name ∈ names, IsName name)
    (h : ¬ Clear tree names) : tree.reach [] names = .error .notDirectory := by
  induction names using List.reverseRecOn with
  | nil => exact absurd paved_nil.clear h
  | append_singleton front name ih =>
      obtain ⟨hnames, hname⟩ := List.forall_mem_append.mp hnames
      rw [reach_concat]
      by_cases hfront : Clear tree front
      · -- The file stands at the end, so the way to it is paved.
        obtain ⟨content, hfile⟩ := exists_file_of_not_clear hfront h
        rw [reach_paved hnames (htree.paved_front hfile)]
        show tree.enter front name = _
        rw [enter_of_isName (hname name List.mem_cons_self), hfile]
      · rw [ih hnames hfront]
        rfl

theorem reach_missing (htree : tree.WellFormed) (hnames : ∀ name ∈ names, IsName name)
    (hclear : Clear tree names) (hnone : tree.get? names = none) :
    tree.reach [] names = .error .missing := by
  induction names using List.reverseRecOn with
  | nil => cases hnone
  | append_singleton front name ih =>
      obtain ⟨hnames, hname⟩ := List.forall_mem_append.mp hnames
      obtain ⟨hfront, -⟩ := clear_concat_iff.mp hclear
      rw [reach_concat]
      cases hentry : tree.get? front with
      | none =>
          rw [ih hnames hfront hentry]
          rfl
      | some entry =>
          cases entry with
          | file content => exact absurd hentry (hfront front content (List.prefix_refl front))
          | directory =>
              rw [reach_paved hnames (htree.paved hentry)]
              show tree.enter front name = _
              rw [enter_of_isName (hname name List.mem_cons_self), hnone]

/-! ## One directory, one file -/

theorem makeDirectory_unreached (h : tree.reach [] front = .error refusal) :
    tree.makeDirectory (front ++ [name]) = .error refusal := by
  rw [makeDirectory, List.getLast?_concat, List.dropLast_concat]
  simp only [h]

theorem makeDirectory_reached (hname : IsName name) (h : tree.reach [] front = .ok front) :
    tree.makeDirectory (front ++ [name]) = match tree.get? (front ++ [name]) with
      | some _ => .error .exists
      | none => .ok (tree.put (front ++ [name]) .directory) := by
  rw [makeDirectory, List.getLast?_concat, List.dropLast_concat]
  simp only [h, isDots_of_isName hname, look_eq_ok_iff.mpr ⟨hname.2.2.2.2.2, rfl⟩]
  cases tree.get? (front ++ [name]) <;> rfl

theorem fillFile_reached (hname : IsName name) (h : tree.reach [] front = .ok front) :
    tree.fillFile (front ++ [name]) content = match tree.get? (front ++ [name]) with
      | some .directory => .error .isDirectory
      | _ => .ok (tree.put (front ++ [name]) (.file content)) := by
  rw [fillFile, List.getLast?_concat, List.dropLast_concat]
  simp only [h, isDots_of_isName hname, look_eq_ok_iff.mpr ⟨hname.2.2.2.2.2, rfl⟩]
  cases tree.get? (front ++ [name]) with
  | none => rfl
  | some entry => cases entry <;> rfl

/-- Putting what stands there already changes nothing. -/
theorem put_eq_self {entry : Entry} (hplace : place.isBase = false)
    (h : tree.get? place = some entry) : tree.put place entry = tree := by
  rw [get?, hplace] at h
  exact congrArg FileTree.mk (OrderedMap.insert_of_get? h)

/-! ## Making an ordinary path -/

section Path

variable {host : Host} {path : Path} {overflow : String} {calls : Nat}

/-- A path that is there is left alone. -/
theorem ensurePath_paved (hpath : path.Ordinary) (h : Paved tree path.names) :
    tree.ensurePath overflow path calls = (tree, none) := by
  have hmake : tree.makeDirectory path.names = .error .exists := by
    rcases List.eq_nil_or_concat' path.names with hnil | ⟨front, name, hnames⟩
    · rw [hnil]
      rfl
    · rw [hnames] at h ⊢
      obtain ⟨hfront, hlast⟩ := paved_concat_iff.mp h
      obtain ⟨hordinary, hname⟩ := hpath.isName_concat hnames
      rw [makeDirectory_reached hname (reach_paved hordinary hfront), hlast]
  have hrefused : onPath path.text (tree.makeDirectory path.names)
      = .error (.refused .exists path.text) := by
    rw [hpath.onPath, hmake]
    rfl
  rw [ensurePath_refused hrefused (by simp), unlessDirectory, hpath.onPath, reachesDirectory,
    reach_paved hpath.isName h]
  rfl

/-- What making names a directory is refused for where a file is in the way: it exists at the end, or
stands where a directory has to be. -/
def blockage (tree : FileTree) (names : List String) : Refusal :=
  match tree.get? names with
  | some (.file _) => .exists
  | _ => .notDirectory

/-- Names with a file in the way cannot be made a directory. -/
theorem makeDirectory_blocked (htree : tree.WellFormed) (hnames : ∀ name ∈ names, IsName name)
    (h : ¬ Clear tree names) : tree.makeDirectory names = .error (tree.blockage names) := by
  rcases List.eq_nil_or_concat' names with rfl | ⟨front, name, rfl⟩
  · exact absurd paved_nil.clear h
  · obtain ⟨hordinary, hname⟩ := List.forall_mem_append.mp hnames
    by_cases hfront : Clear tree front
    · obtain ⟨content, hfile⟩ := exists_file_of_not_clear hfront h
      have hreach := reach_paved hordinary (htree.paved_front hfile)
      rw [makeDirectory_reached (hname name List.mem_cons_self) hreach, blockage, hfile]
    · -- A file at the end would stand in a directory, with a clear way to it.
      have hnone (content : List UInt8) : tree.get? (front ++ [name]) ≠ some (.file content) :=
        fun hfile => hfront (htree.paved_front hfile).clear
      rw [makeDirectory_unreached (reach_blocked htree hordinary hfront), blockage]
      split
      next content hfile => exact absurd hfile (hnone content)
      next => rfl

/-- A file on the way stops the making before anything is made. -/
theorem ensurePath_blocked (htree : tree.WellFormed) (hpath : path.Ordinary)
    (h : ¬ Clear tree path.names) : tree.ensurePath overflow path calls
      = (tree, some (.refused (tree.blockage path.names) path.text)) := by
  have hrefused : onPath path.text (tree.makeDirectory path.names)
      = .error (.refused (tree.blockage path.names) path.text) := by
    rw [hpath.onPath, makeDirectory_blocked htree hpath.isName h]
    rfl
  have hother : tree.blockage path.names ≠ .missing := by
    unfold blockage
    split <;> simp
  rw [ensurePath_refused hrefused (by simp [hother]), unlessDirectory, hpath.onPath,
    reachesDirectory, reach_blocked htree hpath.isName h]
  rfl

/-- A path that is too long is not made. -/
theorem ensurePath_long (hpath : path.Named) (hlong : pathLimit ≤ path.text.utf8ByteSize) :
    tree.ensurePath overflow path calls = (tree, some (.refused .nameTooLong path.text)) := by
  rw [ensurePath_refused (hpath.onPath_long hlong _) (by simp), unlessDirectory,
    hpath.onPath_long hlong]

/-- **`MadeAlong tree names after`** -- directories stand on the way of the names and at its end, and
every other place is as it was. -/
def MadeAlong (tree : FileTree) (names : List String) (after : FileTree) : Prop :=
  ∀ place, after.get? place = if place <+: names then some .directory else tree.get? place

theorem MadeAlong.paved (h : MadeAlong tree names after) : Paved after names := by
  intro part hpart
  rw [h, if_pos hpart]

theorem MadeAlong.get?_concat (h : MadeAlong tree front after) :
    after.get? (front ++ [name]) = tree.get? (front ++ [name]) := by
  rw [h, if_neg concat_not_part]

/-- Where the way is paved nothing has to be made. -/
theorem Paved.madeAlong (h : Paved tree names) : MadeAlong tree names tree := by
  intro place
  split
  next hplace => exact h place hplace
  next => rfl

/-- A directory that is put at the end of a paved way paves it one name further. -/
theorem MadeAlong.put (h : MadeAlong tree front after) (hname : IsName name) :
    MadeAlong tree (front ++ [name]) (after.put (front ++ [name]) .directory) := by
  intro place
  rw [get?_put (isBase_concat front (isDots_of_isName hname)), h]
  by_cases hlast : place = front ++ [name]
  · rw [if_pos hlast, if_pos (hlast ▸ List.prefix_refl _)]
  · rw [if_neg hlast]
    by_cases hfront : place <+: front
    · rw [if_pos hfront, if_pos (hfront.trans (List.prefix_append front [name]))]
    · have hapart : ¬ place <+: front ++ [name] := by
        intro h
        exact (List.prefix_concat_iff.mp h).elim hlast hfront
      rw [if_neg hfront, if_neg hapart]

/-- Once the way in front is paved, a directory can be made behind it where nothing stands. -/
theorem MadeAlong.makeDirectory (h : MadeAlong tree front after) (hpath : path.Ordinary)
    (hnames : path.names = front ++ [name]) (hfree : tree.get? (front ++ [name]) = none) :
    onPath path.text (after.makeDirectory path.names)
      = .ok (after.put (front ++ [name]) .directory) := by
  obtain ⟨hordinary, hname⟩ := hpath.isName_concat hnames
  rw [hpath.onPath, hnames, makeDirectory_reached hname (reach_paved hordinary h.paved),
    h.get?_concat, hfree]
  rfl

/-- Behind a directory that is missing nothing can be made a directory. -/
theorem onPath_makeDirectory_missing (htree : tree.WellFormed) (hpath : path.Ordinary)
    (hnames : path.names = front ++ [name]) (hclear : Clear tree front)
    (hmissing : tree.get? front = none) : onPath path.text (tree.makeDirectory path.names)
      = .error (.refused .missing path.text) := by
  obtain ⟨hordinary, -⟩ := hpath.isName_concat hnames
  rw [hpath.onPath, hnames,
    makeDirectory_unreached (reach_missing htree hordinary hclear hmissing)]
  rfl

/-- A path whose front is followed by one more name. -/
theorem ordinary_front (hpath : Path.Ordinary ⟨.relative, front ++ [name]⟩) :
    Path.Ordinary ⟨.relative, front⟩ := by
  rw [← Path.parent_concat .relative front name]
  exact hpath.parent

/-- **Without a file on the way a path is made**, if the calls for the directories that are missing
fit into one another. -/
theorem ensurePath_clear (overflow : String) (htree : tree.WellFormed) (hpath : path.Ordinary)
    (h : Clear tree path.names) (hfits : tree.missing path.names ≤ calls + 1) :
    ∃ after, tree.ensurePath overflow path calls = (after, none)
      ∧ MadeAlong tree path.names after := by
  obtain ⟨anchor, names⟩ := path
  obtain rfl : anchor = .relative := hpath.relative
  induction names using List.reverseRecOn generalizing calls with
  | nil => exact ⟨tree, ensurePath_paved hpath paved_nil, paved_nil.madeAlong⟩
  | append_singleton front name ih =>
      obtain ⟨-, hname⟩ := hpath.isName_concat rfl
      obtain ⟨hfront, hlast⟩ := clear_concat_iff.mp h
      rw [missing_concat] at hfits
      cases hentry : tree.get? (front ++ [name]) with
      | some entry =>
          -- What stands at the end is a directory, so the whole way is there.
          have hpaved : Paved tree (front ++ [name]) := by
            cases entry with
            | directory => exact htree.paved hentry
            | file content => exact absurd hentry (hlast content)
          exact ⟨tree, ensurePath_paved hpath hpaved, hpaved.madeAlong⟩
      | none =>
          cases habove : tree.get? front with
          | some entry =>
              have hpaved : Paved tree front := by
                cases entry with
                | directory => exact htree.paved habove
                | file content => exact absurd habove (hfront front content (List.prefix_refl _))
              have hmade := hpaved.madeAlong
              exact ⟨_, ensurePath_made (hmade.makeDirectory hpath rfl hentry), hmade.put hname⟩
          | none =>
              -- The parent is made first, by a call that fits in, and then the directory behind it.
              have hmissing := onPath_makeDirectory_missing htree hpath rfl hfront habove
              obtain ⟨calls, rfl⟩ : ∃ inner, calls = inner + 1 := by
                refine Nat.exists_eq_succ_of_ne_zero ?_
                rintro rfl
                have hpos := missing_pos habove
                simp only [hentry, if_true] at hfits
                omega
              have hfitsIn : tree.missing front ≤ calls + 1 := by
                simp only [hentry, if_true] at hfits
                omega
              obtain ⟨made, hparent, hmade⟩ := ih (ordinary_front hpath) hfront hfitsIn
              refine ⟨_, ?_, hmade.put hname⟩
              rw [ensurePath_missing hmissing (by simp), Path.parent_concat, hparent]
              show made.ensureDirectory _ = _
              rw [ensureDirectory, hmade.makeDirectory hpath rfl hentry]

/-- **Where the calls do not fit into one another nothing is made.** -/
theorem ensurePath_deep (htree : tree.WellFormed) (hpath : path.Ordinary)
    (h : Clear tree path.names) (hdeep : calls + 1 < tree.missing path.names) :
    tree.ensurePath overflow path calls = (tree, some (.exhausted overflow)) := by
  obtain ⟨anchor, names⟩ := path
  obtain rfl : anchor = .relative := hpath.relative
  induction names using List.reverseRecOn generalizing calls with
  | nil =>
      rw [paved_nil.missing_eq] at hdeep
      omega
  | append_singleton front name ih =>
      obtain ⟨hfront, -⟩ := clear_concat_iff.mp h
      have habove : tree.get? front = none := by
        by_contra hentry
        obtain ⟨entry, hentry⟩ := Option.ne_none_iff_exists'.mp hentry
        have hdirectory : tree.get? front = some .directory := by
          cases entry with
          | directory => exact hentry
          | file content => exact absurd hentry (hfront front content (List.prefix_refl _))
        rw [missing_concat, (htree.paved hdirectory).missing_eq] at hdeep
        split at hdeep <;> omega
      have hmissing := onPath_makeDirectory_missing htree hpath rfl hfront habove
      cases calls with
      | zero => exact ensurePath_exhausted hmissing (by simp)
      | succ calls =>
          have hdeepIn : calls + 1 < tree.missing front := by
            rw [missing_concat] at hdeep
            split at hdeep <;> omega
          rw [ensurePath_missing hmissing (by simp), Path.parent_concat,
            ih (ordinary_front hpath) hfront hdeepIn]

end Path

/-! ## Writing a file -/

section Write

variable {host : Host} {path : Path} {made : FileTree} {content : Content} {fault : Fault}

theorem fill_opened (h : onPath path.text (tree.fillFile path.names content.left) = .ok after) :
    tree.fill path content = (after, content.fault?) := by
  rw [fill]
  simp only [h]

theorem fill_refused (h : onPath path.text (tree.fillFile path.names content.left) = .error fault) :
    tree.fill path content = (tree, some fault) := by
  rw [fill]
  simp only [h]

/-- Where its parent cannot be made, a file is not written. -/
theorem write_unmade
    (hparent : tree.ensurePath host.overflow path.parent host.nesting = (after, some fault)) :
    tree.write host path content = (after, some fault) := by
  rw [write, hparent]

theorem write_made
    (hparent : tree.ensurePath host.overflow path.parent host.nesting = (made, none)) :
    tree.write host path content = made.fill path content := by
  rw [write, hparent]

/-- A file on the way stops the writing before anything is made. -/
theorem write_blocked (htree : tree.WellFormed) (hpath : path.Ordinary)
    (h : ¬ Clear tree path.parent.names) :
    ∃ fault, tree.write host path content = (tree, some fault) :=
  ⟨_, write_unmade (ensurePath_blocked htree hpath.parent h)⟩

/-- **So do too many directories that are missing on it.** -/
theorem write_deep (htree : tree.WellFormed) (hparent : path.parent.Ordinary)
    (hclear : Clear tree path.parent.names)
    (hdeep : host.nesting + 1 < tree.missing path.parent.names) :
    tree.write host path content = (tree, some (.exhausted host.overflow)) :=
  write_unmade (ensurePath_deep htree hparent hclear hdeep)

/-- The place of a path that is no directory lies behind its parent. -/
theorem exists_concat_of_ne_directory (h : tree.get? path.names ≠ some .directory) :
    ∃ front name, path.names = front ++ [name] ∧ path.parent.names = front := by
  rcases List.eq_nil_or_concat' path.names with hnil | ⟨front, name, hnames⟩
  · rw [hnil] at h
    exact absurd get?_nil h
  · exact ⟨front, name, hnames, by rw [Path.parent, hnames, List.dropLast_concat]⟩

/-- The file of an ordinary path is opened in a paved directory, if no directory stands there. -/
theorem fill_paved (hpath : path.Ordinary) (hpaved : Paved made path.parent.names)
    (hplace : made.get? path.names ≠ some .directory) : made.fill path content
      = (made.put path.names (.file content.left), content.fault?) := by
  obtain ⟨front, name, hnames, hfront⟩ := exists_concat_of_ne_directory hplace
  obtain ⟨hordinary, hname⟩ := hpath.isName_concat hnames
  have hreach : made.reach [] front = .ok front := reach_paved hordinary (hfront ▸ hpaved)
  have hfile : made.fillFile path.names content.left
      = .ok (made.put path.names (.file content.left)) := by
    rw [hnames] at hplace ⊢
    rw [fillFile_reached hname hreach]
    split
    next hdirectory => exact absurd hdirectory hplace
    next => rfl
  refine fill_opened ?_
  rw [hpath.onPath, hfile]
  rfl

/-- The way to a directory passes through its parent. -/
theorem Paved.parent (h : Paved tree path.names) : Paved tree path.parent.names := by
  intro part hpart
  have hparent := List.dropLast_prefix path.names
  exact h part (hpart.trans hparent)

/-- A directory at the place itself stops the writing, and nothing has to be made before. -/
theorem write_directory (htree : tree.WellFormed) (hpath : path.Ordinary)
    (h : tree.get? path.names = some .directory) :
    tree.write host path content = (tree, some (.refused .isDirectory path.text)) := by
  have hparent : tree.ensurePath host.overflow path.parent host.nesting = (tree, none) :=
    ensurePath_paved hpath.parent (htree.paved h).parent
  have hfill : tree.fillFile path.names content.left = .error .isDirectory := by
    rcases List.eq_nil_or_concat' path.names with hnil | ⟨front, name, hnames⟩
    · rw [hnil]
      rfl
    · obtain ⟨hordinary, hname⟩ := hpath.isName_concat hnames
      rw [hnames] at h ⊢
      rw [fillFile_reached hname (reach_paved hordinary (htree.paved_front h)), h]
  rw [write_made hparent]
  refine fill_refused ?_
  rw [hpath.onPath, hfill]
  rfl

/-- **`WrittenTo tree place bytes after`** -- a file of the bytes stands at its place, directories
stand on the way to it, and every other place is as it was. -/
def WrittenTo (tree : FileTree) (place : Place) (bytes : List UInt8) (after : FileTree) : Prop :=
  ∀ other, after.get? other = if other = place then some (.file bytes)
    else if other <+: place then some .directory else tree.get? other

/-- **A file is written where nothing is in the way**, and left empty where there are no bytes. -/
theorem write_clear (content : Content) (htree : tree.WellFormed) (hpath : path.Ordinary)
    (hclear : Clear tree path.parent.names)
    (hfits : tree.missing path.parent.names ≤ host.nesting + 1)
    (hplace : tree.get? path.names ≠ some .directory) :
    ∃ after, tree.write host path content = (after, content.fault?)
      ∧ WrittenTo tree path.names content.left after := by
  obtain ⟨made, hparent, hmade⟩ :=
    ensurePath_clear host.overflow htree hpath.parent hclear hfits
  obtain ⟨front, name, hnames, hfront⟩ := exists_concat_of_ne_directory hplace
  rw [hfront] at hmade
  have hpaved : Paved made path.parent.names := hfront ▸ hmade.paved
  obtain ⟨-, hname⟩ := hpath.isName_concat hnames
  have hlast : made.get? path.names = tree.get? path.names := by
    rw [hnames, hmade.get?_concat]
  refine ⟨_, (write_made hparent).trans (fill_paved hpath hpaved (hlast ▸ hplace)), ?_⟩
  intro other
  rw [hnames, get?_put (isBase_concat front (isDots_of_isName hname)), hmade]
  split
  next => rfl
  next hother =>
    have hpart : other <+: front ++ [name] ↔ other <+: front := by
      rw [List.prefix_concat_iff, or_iff_right hother]
    simp only [hpart]

namespace WrittenTo

variable {bytes : List UInt8}

theorem get?_place (h : WrittenTo tree place bytes after) :
    after.get? place = some (.file bytes) := by
  rw [h, if_pos rfl]

/-- The directory of a file that is written stands. -/
theorem paved_parent (h : WrittenTo tree path.names bytes after)
    (hplace : tree.get? path.names ≠ some .directory) : Paved after path.parent.names := by
  obtain ⟨front, name, hnames, hfront⟩ := exists_concat_of_ne_directory hplace
  rw [hfront]
  intro part hpart
  have hne : part ≠ path.names := by
    rintro rfl
    exact concat_not_part (hnames ▸ hpart)
  have hpath : part <+: path.names := by
    rw [hnames]
    exact hpart.trans (List.prefix_append front [name])
  rw [h, if_neg hne, if_pos hpath]

/-- No file comes to stand on a way that does not pass through it. -/
theorem clear (h : WrittenTo tree place bytes after) (hclear : Clear tree names)
    (hapart : ¬ place <+: names) : Clear after names := by
  intro part kept hpart
  rw [h]
  split
  next hplace => exact absurd (hplace ▸ hpart) hapart
  next =>
    split
    · simp
    · exact hclear part kept hpart

theorem keeps_directory (h : WrittenTo tree place bytes after)
    (hplace : tree.get? place ≠ some .directory) {other : Place}
    (hother : tree.get? other = some .directory) : after.get? other = some .directory := by
  have hne : other ≠ place := by
    rintro rfl
    exact hplace hother
  rw [h, if_neg hne, hother, ite_self]

theorem keeps_file (h : WrittenTo tree path.names bytes after)
    (hclear : Clear tree path.parent.names) {other : Place} {kept : List UInt8}
    (hne : other ≠ path.names) (hother : tree.get? other = some (.file kept)) :
    after.get? other = some (.file kept) := by
  have hapart : ¬ other <+: path.names := by
    intro hpart
    exact clear_parent_iff.mp hclear other kept hpart hne hother
  rw [h, if_neg hne, if_neg hapart, hother]

end WrittenTo

/-- **A write to an ordinary path succeeds** exactly where no file stands on the way to it, no more
directories are missing there than calls fit into one another, no directory stands at its place, and
there are bytes to write. -/
theorem write_succeeds_iff (htree : tree.WellFormed) (hpath : path.Ordinary) :
    (tree.write host path content).2 = none
      ↔ Clear tree path.parent.names ∧ tree.missing path.parent.names ≤ host.nesting + 1
        ∧ tree.get? path.names ≠ some .directory ∧ content.fault? = none := by
  constructor
  · intro hnone
    have hclear : Clear tree path.parent.names := by
      by_contra hblocked
      obtain ⟨fault, hwrite⟩ := write_blocked htree hpath hblocked
      rw [hwrite] at hnone
      cases hnone
    have hfits : tree.missing path.parent.names ≤ host.nesting + 1 := by
      by_contra hdeep
      rw [write_deep htree hpath.parent hclear (Nat.not_le.mp hdeep)] at hnone
      cases hnone
    have hplace : tree.get? path.names ≠ some .directory := by
      intro hdirectory
      rw [write_directory htree hpath hdirectory] at hnone
      cases hnone
    obtain ⟨after, hwrite, -⟩ := write_clear content htree hpath hclear hfits hplace
    rw [hwrite] at hnone
    exact ⟨hclear, hfits, hplace, hnone⟩
  · rintro ⟨hclear, hfits, hplace, hcontent⟩
    obtain ⟨after, hwrite, -⟩ := write_clear content htree hpath hclear hfits hplace
    rw [hwrite]
    exact hcontent

/-- **A write of bytes to an ordinary path that is refused changes nothing.** -/
theorem write_refused (htree : tree.WellFormed) (hpath : path.Ordinary)
    (hcontent : content.fault? = none) (h : (tree.write host path content).2 ≠ none) :
    (tree.write host path content).1 = tree := by
  by_cases hclear : Clear tree path.parent.names
  · by_cases hplace : tree.get? path.names = some .directory
    · rw [write_directory htree hpath hplace]
    · by_cases hfits : tree.missing path.parent.names ≤ host.nesting + 1
      · exact absurd ((write_succeeds_iff htree hpath).mpr ⟨hclear, hfits, hplace, hcontent⟩) h
      · rw [write_deep htree hpath.parent hclear (Nat.not_le.mp hfits)]
  · obtain ⟨fault, hwrite⟩ := write_blocked htree hpath hclear
    rw [hwrite]

/-- A path that is too long as a whole is refused only after its parent is made. -/
theorem write_too_long (htree : tree.WellFormed) (hparent : path.parent.Ordinary)
    (hclear : Clear tree path.parent.names)
    (hfits : tree.missing path.parent.names ≤ host.nesting + 1)
    (hnul : '\x00' ∉ path.text.toList) (hlong : pathLimit ≤ path.text.utf8ByteSize) :
    ∃ after, tree.write host path content = (after, some (.refused .nameTooLong path.text))
      ∧ MadeAlong tree path.parent.names after := by
  obtain ⟨made, hmake, hmade⟩ := ensurePath_clear host.overflow htree hparent hclear hfits
  have hne : path.text ≠ "" := by
    intro hempty
    rw [hempty] at hlong
    exact absurd hlong (by decide)
  refine ⟨made, (write_made hmake).trans (fill_refused ?_), hmade⟩
  rw [onPath, if_neg hnul, if_neg hne, if_pos hlong]

/-- A file that is there with its content is written again without a change. -/
theorem write_again {bytes : List UInt8} (hpath : path.Ordinary)
    (hparent : Paved tree path.parent.names) (hplace : tree.get? path.names = some (.file bytes)) :
    tree.write host path (.ok bytes) = (tree, none) := by
  have hbase : Place.isBase path.names = false := by
    by_contra hbase
    rw [get?, if_pos (Bool.not_eq_false _ ▸ hbase)] at hplace
    cases hplace
  have hfree : tree.get? path.names ≠ some .directory := by
    rw [hplace]
    simp
  rw [write_made (ensurePath_paved hpath.parent hparent), fill_paved hpath hparent hfree]
  exact Prod.ext (put_eq_self hbase hplace) rfl

end Write

end ArchiveRecord.FileTree
