/- # Proofs.FileTree.Growth -- what making directories changes

Whatever path a directory is made for, what stands in the tree stays as it is, and
what is new is a directory that a leading part of the path names. This is
`GrownAlong`: it holds of a single directory, it may be put one behind the other,
and a write that is refused has done nothing else.

A way that leads to a directory leads there in every tree that keeps the
directories.
-/
import ArchiveRecord.FileTree.Write

namespace ArchiveRecord.FileTree

variable {tree after final : FileTree} {here there place : Place} {name : String}
  {names : List String}

/-! ## Names and ways -/

theorem look_eq_ok_iff {entry : Option Entry} :
    tree.look here name = .ok entry
      ↔ name.utf8ByteSize ≤ nameLimit ∧ tree.get? (here ++ [name]) = entry := by
  unfold look
  split
  next hlong => simp [Nat.not_le.mpr hlong]
  next hshort => simp [Nat.not_lt.mp hshort]

/-- A place behind a name that is no dots is not the working directory nor above it. -/
theorem isBase_concat (here : Place) (h : isDots name = false) :
    Place.isBase (here ++ [name]) = false := by
  have hname : name ≠ ".." := by
    rintro rfl
    exact absurd h (by decide)
  simp [Place.isBase, hname]

theorem reach_concat :
    tree.reach here (names ++ [name]) = (tree.reach here names).bind (tree.enter · name) := by
  induction names generalizing here with
  | nil =>
      show tree.reach here [name] = tree.enter here name
      rw [reach]
      cases tree.enter here name with
      | error refusal => rfl
      | ok there => rfl
  | cons first names ih =>
      rw [List.cons_append, reach, reach]
      cases tree.enter here first with
      | error refusal => rfl
      | ok next => exact ih

/-- A name that leads to a directory leads there while the directories are kept. -/
theorem enter_kept
    (hkept : ∀ place, tree.get? place = some .directory → after.get? place = some .directory)
    (h : tree.enter here name = .ok there) : after.enter here name = .ok there := by
  unfold enter at h ⊢
  split at h
  next hdot => rwa [if_pos hdot]
  next hdot =>
    rw [if_neg hdot]
    split at h
    next hdots => rwa [if_pos hdots]
    next hdots =>
      rw [if_neg hdots]
      split at h
      · cases h
      · cases h
      · cases h
      next hlook =>
        obtain ⟨hsize, hget⟩ := look_eq_ok_iff.mp hlook
        rw [look_eq_ok_iff.mpr ⟨hsize, hkept _ hget⟩]
        exact h

theorem reach_kept
    (hkept : ∀ place, tree.get? place = some .directory → after.get? place = some .directory)
    (h : tree.reach here names = .ok there) : after.reach here names = .ok there := by
  induction names generalizing here with
  | nil => exact h
  | cons name names ih =>
      rw [reach] at h ⊢
      cases hnext : tree.enter here name with
      | error refusal => rw [hnext] at h; cases h
      | ok next =>
          rw [hnext] at h
          rw [enter_kept hkept hnext]
          exact ih h

/-! ## Growth -/

/-- **`GrownAlong names tree after`** -- what stands in the tree stands there afterwards, and what
is new is a directory that a leading part of the names leads to. -/
structure GrownAlong (names : List String) (tree after : FileTree) : Prop where
  kept : ∀ place entry, tree.get? place = some entry → after.get? place = some entry
  made : ∀ place entry, after.get? place = some entry → tree.get? place = some entry
    ∨ entry = .directory ∧ ∃ part, part <+: names ∧ after.reach [] part = .ok place

namespace GrownAlong

theorem refl (names : List String) (tree : FileTree) : GrownAlong names tree tree where
  kept := fun _ _ h => h
  made := fun _ _ h => .inl h

theorem mono {longer : List String} (h : GrownAlong names tree after) (hlonger : names <+: longer) :
    GrownAlong longer tree after where
  kept := h.kept
  made := by
    intro place entry hentry
    rcases h.made place entry hentry with hold | ⟨hdirectory, part, hpart, hreach⟩
    · exact .inl hold
    · exact .inr ⟨hdirectory, part, hpart.trans hlonger, hreach⟩

theorem trans (h : GrownAlong names tree after) (k : GrownAlong names after final) :
    GrownAlong names tree final where
  kept := fun place entry hentry => k.kept place entry (h.kept place entry hentry)
  made := by
    intro place entry hentry
    rcases k.made place entry hentry with hold | hnew
    · rcases h.made place entry hold with holder | ⟨hdirectory, part, hpart, hreach⟩
      · exact .inl holder
      · exact .inr ⟨hdirectory, part, hpart, reach_kept (fun place => k.kept place _) hreach⟩
    · exact .inr hnew

end GrownAlong

/-! ## Making directories -/

/-- A directory that is made is new, and its parent is reached. -/
theorem makeDirectory_eq_ok (h : tree.makeDirectory names = .ok after) :
    ∃ front name here, names = front ++ [name] ∧ tree.reach [] front = .ok here
      ∧ isDots name = false ∧ name.utf8ByteSize ≤ nameLimit
      ∧ tree.get? (here ++ [name]) = none ∧ after = tree.put (here ++ [name]) .directory := by
  unfold makeDirectory at h
  split at h
  · cases h
  next name hlast =>
    split at h
    · cases h
    next here hreach =>
      split at h
      · cases h
      next hdots =>
        split at h
        · cases h
        · cases h
        next hlook =>
          obtain ⟨hsize, hnone⟩ := look_eq_ok_iff.mp hlook
          obtain ⟨front, rfl⟩ := List.getLast?_eq_some_iff.mp hlast
          rw [List.dropLast_concat] at hreach
          have hname : isDots name = false := Bool.eq_false_iff.mpr hdots
          exact ⟨front, name, here, rfl, hreach, hname, hsize, hnone, (Except.ok.inj h).symm⟩

theorem makeDirectory_grown (h : tree.makeDirectory names = .ok after) :
    GrownAlong names tree after := by
  obtain ⟨front, name, here, rfl, hreach, hdots, hsize, hnone, rfl⟩ := makeDirectory_eq_ok h
  have hput (other : Place) : (tree.put (here ++ [name]) .directory).get? other
      = if other = here ++ [name] then some .directory else tree.get? other :=
    get?_put (isBase_concat here hdots)
  have hkept (other : Place) (entry : Entry) (hentry : tree.get? other = some entry) :
      (tree.put (here ++ [name]) .directory).get? other = some entry := by
    rw [hput, if_neg, hentry]
    rintro rfl
    rw [hnone] at hentry
    cases hentry
  refine ⟨hkept, ?_⟩
  intro other entry hentry
  rw [hput] at hentry
  split at hentry
  next hother =>
    -- The one new place is where all the names lead.
    obtain rfl := Option.some.inj hentry
    refine .inr ⟨rfl, front ++ [name], List.prefix_refl _, ?_⟩
    rw [reach_concat, reach_kept (fun place => hkept place _) hreach, Except.bind, hother]
    have hlook : (tree.put (here ++ [name]) .directory).look here name = .ok (some .directory) :=
      look_eq_ok_iff.mpr ⟨hsize, by rw [hput, if_pos rfl]⟩
    have hname : name ≠ "." ∧ name ≠ ".." := by
      constructor <;> (rintro rfl; exact absurd hdots (by decide))
    rw [enter, if_neg hname.1, if_neg hname.2, hlook]
  next => exact .inl hentry

theorem onPath_eq_ok {α : Type} {text : String} {operation : Except Refusal α} {result : α}
    (h : onPath text operation = .ok result) : operation = .ok result := by
  unfold onPath at h
  split at h
  · cases h
  · split at h
    · cases h
    · split at h
      · cases h
      · cases operation with
        | error refusal => cases h
        | ok found => exact congrArg Except.ok (Except.ok.inj h)

theorem ensureDirectory_grown (tree : FileTree) (path : Path) :
    GrownAlong path.names tree (tree.ensureDirectory path).1 := by
  unfold ensureDirectory
  split
  next hmade => exact makeDirectory_grown (onPath_eq_ok hmade)
  next => exact .refl _ _

section EnsurePath

variable {path : Path} {fault : Fault} {overflow : String} {calls : Nat}

theorem ensurePath_made (h : onPath path.text (tree.makeDirectory path.names) = .ok after) :
    tree.ensurePath overflow path calls = (after, none) := by
  rw [ensurePath.eq_def]
  split
  next hmade => rw [Except.ok.inj (hmade.symm.trans h)]
  next hfault => cases hfault.symm.trans h

/-- Where the parent is missing and no call fits in, nothing is made. -/
theorem ensurePath_exhausted
    (h : onPath path.text (tree.makeDirectory path.names) = .error (.refused .missing path.text))
    (hne : path.names ≠ []) :
    tree.ensurePath overflow path 0 = (tree, some (.exhausted overflow)) := by
  rw [ensurePath.eq_def]
  split
  next hmade => cases hmade.symm.trans h
  next fault hfault =>
    obtain rfl := Except.error.inj (hfault.symm.trans h)
    exact if_pos ⟨rfl, hne⟩

/-- Where the parent is missing it is made, and then the directory is tried again. -/
theorem ensurePath_missing
    (h : onPath path.text (tree.makeDirectory path.names) = .error (.refused .missing path.text))
    (hne : path.names ≠ []) :
    tree.ensurePath overflow path (calls + 1) = match tree.ensurePath overflow path.parent calls with
      | (after, some fault) => (after, some fault)
      | (after, none) => after.ensureDirectory path := by
  rw [ensurePath.eq_def]
  split
  next hmade => cases hmade.symm.trans h
  next fault hfault =>
    obtain rfl := Except.error.inj (hfault.symm.trans h)
    exact if_pos ⟨rfl, hne⟩

theorem ensurePath_refused (h : onPath path.text (tree.makeDirectory path.names) = .error fault)
    (hother : ¬ (fault = .refused .missing path.text ∧ path.names ≠ [])) :
    tree.ensurePath overflow path calls = (tree, tree.unlessDirectory path fault) := by
  rw [ensurePath.eq_def]
  split
  next hmade => cases hmade.symm.trans h
  next found hfault =>
    obtain rfl := Except.error.inj (hfault.symm.trans h)
    rw [if_neg hother]

end EnsurePath

/-- **Making a path grows the tree along its names**, also where it is refused half-way. -/
theorem ensurePath_grown (tree : FileTree) (overflow : String) (path : Path) (calls : Nat) :
    GrownAlong path.names tree (tree.ensurePath overflow path calls).1 := by
  have hfront (path : Path) : path.parent.names <+: path.names := List.dropLast_prefix path.names
  fun_induction ensurePath tree overflow path calls with
  | case1 path calls after hmade => exact makeDirectory_grown (onPath_eq_ok hmade)
  | case2 path fault hfault hmissing => exact .refl _ _
  | case3 path fault hfault hmissing calls after refused hparent ih =>
      rw [hparent] at ih
      exact ih.mono (hfront path)
  | case4 path fault hfault hmissing calls after hparent ih =>
      rw [hparent] at ih
      exact (ih.mono (hfront path)).trans (ensureDirectory_grown after path)
  | case5 path calls fault hfault hother => exact .refl _ _

section Write

variable {host : Host} {path : Path} {bytes : List UInt8} {fault : Fault}

/-- A file that there are bytes for is refused only where it cannot be opened. -/
theorem fill_eq_some (h : tree.fill path (.ok bytes) = (after, some fault)) :
    after = tree ∧ onPath path.text (tree.fillFile path.names bytes) = .error fault := by
  unfold fill at h
  split at h
  next => cases (Prod.mk.inj h).2
  next met hopen =>
    obtain ⟨htree, hfault⟩ := Prod.mk.inj h
    obtain rfl := Option.some.inj hfault
    exact ⟨htree.symm, hopen⟩

/-- A write of bytes that is refused has grown the tree along the parent of its path, and nothing
else. -/
theorem write_refused_grown (h : tree.write host path (.ok bytes) = (after, some fault)) :
    GrownAlong path.parent.names tree after := by
  have hgrown := ensurePath_grown tree host.overflow path.parent host.nesting
  unfold write at h
  split at h
  next made refused hparent =>
    rw [hparent] at hgrown
    obtain rfl := congrArg Prod.fst h
    exact hgrown
  next made hparent =>
    rw [hparent] at hgrown
    obtain ⟨rfl, -⟩ := fill_eq_some h
    exact hgrown

end Write

end ArchiveRecord.FileTree
