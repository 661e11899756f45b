/- # Proofs.FileTree.Reading -- what a read depends on

A path text that is read names one file, at one place. What is read is the content
of that file, and the way to it are directories; so the same is read from every
tree that keeps the directories and that file.
-/
import ArchiveRecord.FileTree.Read
import ArchiveRecord.Proofs.FileTree.Growth

namespace ArchiveRecord.FileTree

variable {tree after : FileTree} {names : List String} {asDirectory : Bool}
  {content : List UInt8} {text : String} {stream : Stream}

/-- The place that names lead to, where the last of them names an entry of a directory. -/
def placeOfNames? (tree : FileTree) (names : List String) : Option Place :=
  match names.getLast?, tree.reach [] names.dropLast with
  | some name, .ok here => some (here ++ [name])
  | _, _ => none

/-- The place of the file that a path text names. -/
def placeOf? (tree : FileTree) (text : String) : Option Place := tree.placeOfNames? (rawNames text)

/-- What is read is the content of the file that the names lead to. -/
theorem contentOf_eq_ok_iff : tree.contentOf names asDirectory = .ok content
    ↔ ∃ name here, names.getLast? = some name ∧ tree.reach [] names.dropLast = .ok here
      ∧ isDots name = false ∧ name.utf8ByteSize ≤ nameLimit
      ∧ tree.get? (here ++ [name]) = some (.file content) ∧ asDirectory = false := by
  constructor
  · intro h
    unfold contentOf at h
    split at h
    · cases h
    next name hlast =>
      split at h
      · cases h
      next here hreach =>
        split at h
        · cases h
        next hdots =>
          split at h
          · cases h
          · cases h
          · cases h
          next hlook =>
            split at h
            · cases h
            next hfile =>
              obtain rfl := Except.ok.inj h
              obtain ⟨hsize, hget⟩ := look_eq_ok_iff.mp hlook
              exact ⟨name, here, hlast, hreach, Bool.eq_false_iff.mpr hdots, hsize, hget,
                Bool.eq_false_iff.mpr hfile⟩
  · rintro ⟨name, here, hlast, hreach, hdots, hsize, hget, rfl⟩
    rw [contentOf, hlast]
    simp [hreach, hdots, look_eq_ok_iff.mpr ⟨hsize, hget⟩]

/-- The same is read while the directories and the file are kept. -/
theorem contentOf_kept
    (hkept : ∀ place, tree.get? place = some .directory → after.get? place = some .directory)
    (hfile : ∀ place, tree.placeOfNames? names = some place →
      tree.get? place = some (.file content) → after.get? place = some (.file content))
    (h : tree.contentOf names asDirectory = .ok content) :
    after.contentOf names asDirectory = .ok content := by
  obtain ⟨name, here, hlast, hreach, hdots, hsize, hget, hasFile⟩ := contentOf_eq_ok_iff.mp h
  have hplace : tree.placeOfNames? names = some (here ++ [name]) := by
    rw [placeOfNames?, hlast, hreach]
  exact contentOf_eq_ok_iff.mpr ⟨name, here, hlast, reach_kept hkept hreach, hdots, hsize,
    hfile _ hplace hget, hasFile⟩

/-- **A params file is given again** while the directories and that file are kept. -/
theorem provider_kept {handle : String}
    (hkept : ∀ place, tree.get? place = some .directory → after.get? place = some .directory)
    (hfile : ∀ place content, tree.placeOf? handle = some place →
      tree.get? place = some (.file content) → after.get? place = some (.file content))
    (h : tree.provider handle = .ok stream) : after.provider handle = tree.provider handle := by
  have hsame : after.read handle = tree.read handle := by
    rw [provider] at h
    cases hread : tree.read handle with
    | error fault =>
        rw [hread] at h
        cases h
    | ok content =>
        have hcontent := onPath_eq_ok hread
        rw [← hread, read, read, hcontent,
          contentOf_kept hkept (fun place => hfile place content) hcontent]
  rw [provider, provider, hsame]

end ArchiveRecord.FileTree
