/- # Proofs.FileTree.Commuting -- writes to paths that lie apart

A write under names does one of three things: it is refused at once, or once the
directories on the way are made, or it opens its file. Which of them, and for what it
is refused, depends on the files along the way, on how many directories are missing
there, and on whether a directory stands at the place itself; this is `effect`. What
the write lays over the tree depends on nothing else: directories, and at most one
file.

Where two paths lie apart, neither write lays a file along the way of the other, and
where both lay something they lay a directory. But a write may make directories that
are missing for the other, which without them is refused. Where neither write is short
of calls, each has the effect that it has by itself, and the order does not matter.
-/
import ArchiveRecord.Proofs.FileTree.Shape

namespace ArchiveRecord.FileTree

variable {tree after : FileTree} {host otherHost : Host} {path other : Path} {place part : Place}
  {names : List String} {content : Content} {bytes found : List UInt8}

/-! ## Effects -/

/-- What a write does. -/
inductive Effect where
  /-- It is refused at once. -/
  | refused (fault : Fault)
  /-- It is refused once the directories on the way are there. -/
  | unfilled (fault : Fault)
  /-- It opens its file. -/
  | opened
  deriving Repr, DecidableEq

namespace Effect

/-- The fault that the write meets. -/
def fault? (effect : Effect) (content : Content) : Option Fault :=
  match effect with
  | refused fault => some fault
  | unfilled fault => some fault
  | opened => content.fault?

/-- What the write lays over a place. -/
def laid (effect : Effect) (path : Path) (bytes : List UInt8) (place : Place) : Option Entry :=
  match effect with
  | refused _ => none
  | unfilled _ => if place <+: path.parent.names then some .directory else none
  | opened =>
    if place = path.names then some (.file bytes)
    else if place <+: path.names then some .directory
    else none

end Effect

/-- **`tree.effect host path`** -- what a write to the path does. -/
def effect (tree : FileTree) (host : Host) (path : Path) : Effect :=
  let parent := path.parent
  if pathLimit ≤ parent.text.utf8ByteSize then .refused (.refused .nameTooLong parent.text)
  else if ¬ Clear tree parent.names then
    .refused (.refused (tree.blockage parent.names) parent.text)
  else if host.nesting + 1 < tree.missing parent.names then .refused (.exhausted host.overflow)
  else if pathLimit ≤ path.text.utf8ByteSize then .unfilled (.refused .nameTooLong path.text)
  else if tree.get? path.names = some .directory then .unfilled (.refused .isDirectory path.text)
  else .opened

theorem or_ite_directory {condition : Prop} [Decidable condition] {below : Option Entry} :
    (if condition then some Entry.directory else none).or below
      = if condition then some .directory else below := by
  split <;> rfl

/-- **A write has its effect**: it meets the fault, and lays what it lays over the tree. -/
theorem write_effect (host : Host) (content : Content) (htree : tree.WellFormed)
    (hpath : path.Named) :
    (tree.write host path content).2 = (tree.effect host path).fault? content
      ∧ ∀ place, (tree.write host path content).1.get? place
        = ((tree.effect host path).laid path content.left place).or (tree.get? place) := by
  unfold effect
  dsimp only
  split
  next hlong =>
    rw [write_unmade (ensurePath_long hpath.parent hlong)]
    exact ⟨rfl, fun _ => rfl⟩
  next hshort =>
    have hparent : path.parent.Ordinary :=
      Path.ordinary_iff.mpr ⟨hpath.parent, Nat.not_le.mp hshort⟩
    split
    next hblocked =>
      rw [write_unmade (ensurePath_blocked htree hparent hblocked)]
      exact ⟨rfl, fun _ => rfl⟩
    next hclear =>
      have hclear : Clear tree path.parent.names := not_not.mp hclear
      split
      next hdeep =>
        rw [write_deep htree hparent hclear hdeep]
        exact ⟨rfl, fun _ => rfl⟩
      next hfits =>
        have hfits := Nat.not_lt.mp hfits
        split
        next hlong =>
          obtain ⟨-, hnul⟩ := hpath.text_ne_empty_and_nul_notMem
          obtain ⟨after, hwrite, hafter⟩ := write_too_long htree hparent hclear hfits hnul hlong
          rw [hwrite]
          refine ⟨rfl, fun place => ?_⟩
          rw [hafter]
          exact or_ite_directory.symm
        next hshort =>
          have hpath : path.Ordinary := Path.ordinary_iff.mpr ⟨hpath, Nat.not_le.mp hshort⟩
          split
          next hdirectory =>
            -- The way to the directory is paved, so that what is laid is there already.
            rw [write_directory htree hpath hdirectory]
            refine ⟨rfl, fun place => ?_⟩
            rw [Effect.laid, or_ite_directory]
            exact (htree.paved hdirectory).parent.madeAlong place
          next hplace =>
            obtain ⟨after, hwrite, hafter⟩ := write_clear content htree hpath hclear hfits hplace
            rw [hwrite]
            refine ⟨rfl, fun place => ?_⟩
            rw [hafter, Effect.laid]
            split
            · rfl
            · rw [or_ite_directory]

/-! ## What is laid -/

namespace Effect

variable {fault : Fault} {entry : Entry}

theorem laid_unfilled_iff : (unfilled fault).laid path bytes place = some entry
    ↔ place <+: path.parent.names ∧ entry = .directory := by
  show (if _ then _ else _) = _ ↔ _
  split
  next hpart => simp [hpart, eq_comm]
  next hapart => simp [hapart]

theorem laid_opened_iff : opened.laid path bytes place = some entry
    ↔ place = path.names ∧ entry = .file bytes
      ∨ place ≠ path.names ∧ place <+: path.names ∧ entry = .directory := by
  show (if _ then _ else if _ then _ else _) = _ ↔ _
  split
  next hplace => simp [hplace, eq_comm]
  next hplace =>
    split
    next hpart => simp [hplace, hpart, eq_comm]
    next hapart => simp [hplace, hapart]

/-- Where something is laid, the place is on the way of the path. -/
theorem part_of_laid {effect : Effect} (h : effect.laid path bytes place = some entry) :
    place <+: path.names := by
  cases effect with
  | refused fault => cases h
  | unfilled fault => exact (laid_unfilled_iff.mp h).1.trans (List.dropLast_prefix path.names)
  | opened =>
      rcases laid_opened_iff.mp h with ⟨rfl, -⟩ | ⟨-, hpart, -⟩
      · exact List.prefix_refl _
      · exact hpart

end Effect

/-- Directories are made where no file is in the way, and a file is filled where no directory is. -/
theorem effect_cases (tree : FileTree) (host : Host) (path : Path) :
    (∃ fault, tree.effect host path = .refused fault)
    ∨ (∃ fault, tree.effect host path = .unfilled fault) ∧ Clear tree path.parent.names
    ∨ tree.effect host path = .opened ∧ Clear tree path.parent.names
      ∧ tree.get? path.names ≠ some .directory := by
  unfold effect
  dsimp only
  split
  · exact .inl ⟨_, rfl⟩
  · split
    · exact .inl ⟨_, rfl⟩
    next hclear =>
      have hclear : Clear tree path.parent.names := not_not.mp hclear
      split
      · exact .inl ⟨_, rfl⟩
      · split
        · exact .inr (.inl ⟨⟨_, rfl⟩, hclear⟩)
        · split
          · exact .inr (.inl ⟨⟨_, rfl⟩, hclear⟩)
          next hplace => exact .inr (.inr ⟨rfl, hclear, hplace⟩)

/-- A file is laid at the path itself, where no directory stands. -/
theorem of_laid_file (h : (tree.effect host path).laid path bytes place = some (.file found)) :
    place = path.names ∧ tree.get? place ≠ some .directory := by
  rcases tree.effect_cases host path with ⟨fault, heffect⟩ | ⟨⟨fault, heffect⟩, -⟩ |
    ⟨heffect, -, hfree⟩
  · rw [heffect] at h
    cases h
  · rw [heffect, Effect.laid_unfilled_iff] at h
    cases h.2
  · rw [heffect, Effect.laid_opened_iff] at h
    rcases h with ⟨hplace, -⟩ | ⟨-, -, hfile⟩
    · exact ⟨hplace, hplace ▸ hfree⟩
    · cases hfile

/-- A directory is laid where no file stands. -/
theorem not_file_of_laid_directory
    (h : (tree.effect host path).laid path bytes place = some .directory) :
    tree.get? place ≠ some (.file found) := by
  rcases tree.effect_cases host path with ⟨fault, heffect⟩ | ⟨⟨fault, heffect⟩, hclear⟩ |
    ⟨heffect, hclear, -⟩
  · rw [heffect] at h
    cases h
  · rw [heffect, Effect.laid_unfilled_iff] at h
    exact hclear place found h.1
  · rw [heffect, Effect.laid_opened_iff] at h
    rcases h with ⟨-, hfile⟩ | ⟨hne, hpart, -⟩
    · cases hfile
    · exact clear_parent_iff.mp hclear place found hpart hne

/-- A write keeps directories. -/
theorem write_keeps_directory (htree : tree.WellFormed) (hpath : path.Named)
    (h : tree.get? place = some .directory) :
    (tree.write host path content).1.get? place = some .directory := by
  rw [(write_effect host content htree hpath).2]
  cases hlaid : (tree.effect host path).laid path content.left place with
  | none => exact h
  | some entry =>
      cases entry with
      | directory => rfl
      | file written => exact absurd h (of_laid_file hlaid).2

/-- A write keeps files at other places. -/
theorem write_keeps_file (htree : tree.WellFormed) (hpath : path.Named) (hne : place ≠ path.names)
    (h : tree.get? place = some (.file found)) :
    (tree.write host path content).1.get? place = some (.file found) := by
  rw [(write_effect host content htree hpath).2]
  cases hlaid : (tree.effect host path).laid path content.left place with
  | none => exact h
  | some entry =>
      cases entry with
      | directory => exact absurd h (not_file_of_laid_directory hlaid)
      | file laid => exact absurd (of_laid_file hlaid).1 hne

/-! ## Writes that are short of calls -/

/-- **`tree.Affords host path`** -- a write to the path is not short of calls. -/
def Affords (tree : FileTree) (host : Host) (path : Path) : Prop :=
  tree.effect host path ≠ .refused (.exhausted host.overflow)

/-- Where no file is in the way, the calls for the directories that are missing fit into one
another. -/
theorem Affords.missing_le (h : tree.Affords host path)
    (hshort : path.parent.text.utf8ByteSize < pathLimit) (hclear : Clear tree path.parent.names) :
    tree.missing path.parent.names ≤ host.nesting + 1 := by
  by_contra hdeep
  refine h ?_
  rw [effect, if_neg (Nat.not_le.mpr hshort), if_neg (not_not.mpr hclear),
    if_pos (Nat.not_le.mp hdeep)]

/-- A write that is not refused for want of calls is not short of them. -/
theorem affords_of_write (htree : tree.WellFormed) (hpath : path.Named)
    (h : (tree.write host path content).2 ≠ some (.exhausted host.overflow)) :
    tree.Affords host path := by
  intro heffect
  refine h ?_
  rw [(write_effect host content htree hpath).1, heffect]
  rfl

/-! ## Trees in which a write has the same effect -/

/-- **`SameWay names tree after`** -- both trees have the same files on the way of the names, and a
directory at its end or none. What stands on the way in the first stands there in the other. -/
structure SameWay (names : List String) (tree after : FileTree) : Prop where
  file : ∀ part content, part <+: names →
    (after.get? part = some (.file content) ↔ tree.get? part = some (.file content))
  directory : after.get? names = some .directory ↔ tree.get? names = some .directory
  present : ∀ part, part <+: names → after.get? part = none → tree.get? part = none

namespace SameWay

theorem clear_iff (h : SameWay names tree after) {front : List String} (hfront : front <+: names) :
    Clear after front ↔ Clear tree front :=
  forall_congr' fun part => forall_congr' fun content => forall_congr' fun hpart =>
    not_congr (h.file part content (hpart.trans hfront))

theorem blockage_eq (h : SameWay names tree after) {front : List String}
    (hfront : front <+: names) : after.blockage front = tree.blockage front := by
  have hfile (content : List UInt8) := h.file front content hfront
  unfold blockage
  split
  next content hafter => rw [(hfile content).mp hafter]
  next hafter =>
    split
    next content htree => exact absurd ((hfile content).mpr htree) (hafter content)
    next => rfl

/-- No more directories are missing in the other tree. -/
theorem missing_le (h : SameWay names tree after) {front : List String} (hfront : front <+: names) :
    after.missing front ≤ tree.missing front := by
  refine List.countP_mono_left fun part hmem hnone => ?_
  have hpart := ((List.mem_inits part front).mp hmem).trans hfront
  simpa using h.present part hpart (by simpa using hnone)

/-- **A write has the same effect in both trees**, if it is not short of calls in the first. -/
theorem effect_eq (h : SameWay path.names tree after) (hcalls : tree.Affords host path) :
    after.effect host path = tree.effect host path := by
  have hfront : path.parent.names <+: path.names := List.dropLast_prefix path.names
  unfold effect
  simp only [h.clear_iff hfront, h.blockage_eq hfront, h.directory]
  split
  · rfl
  next hshort =>
    split
    · rfl
    next hclear =>
      have hfits := hcalls.missing_le (Nat.not_le.mp hshort) (not_not.mp hclear)
      have hafter := (h.missing_le hfront).trans hfits
      rw [if_neg (Nat.not_lt.mpr hfits), if_neg (Nat.not_lt.mpr hafter)]

end SameWay

/-! ## Paths that lie apart -/

/-- **`Apart names others`** -- neither sequence of names is a leading part of the other. -/
def Apart (names others : List String) : Prop := ¬ names <+: others ∧ ¬ others <+: names

theorem Apart.symm {others : List String} (h : Apart names others) : Apart others names :=
  ⟨h.2, h.1⟩

/-- A write to a path that lies apart leaves the files on the way, and what the end is. -/
theorem write_sameWay (host : Host) (content : Content) (htree : tree.WellFormed)
    (hother : other.Named) (h : Apart path.names other.names) :
    SameWay path.names tree (tree.write host other content).1 := by
  obtain ⟨-, hget⟩ := write_effect host content htree hother
  refine ⟨?_, ?_, ?_⟩
  · intro part found hpart
    rw [hget]
    cases hlaid : (tree.effect host other).laid other content.left part with
    | none => rfl
    | some entry =>
        cases entry with
        | file laid => exact absurd ((of_laid_file hlaid).1 ▸ hpart) h.2
        | directory => simpa using not_file_of_laid_directory hlaid
  · rw [hget]
    cases hlaid : (tree.effect host other).laid other content.left path.names with
    | none => rfl
    | some entry => exact absurd (Effect.part_of_laid hlaid) h.1
  · intro part _ hnone
    rw [hget, Option.or_eq_none_iff] at hnone
    exact hnone.2

/-- Effects on paths that lie apart lay the same where both lay something. -/
theorem laid_comm {otherBytes : List UInt8} (h : Apart path.names other.names)
    (below : Option Entry) :
    ((tree.effect otherHost other).laid other otherBytes place).or
        (((tree.effect host path).laid path bytes place).or below)
      = ((tree.effect host path).laid path bytes place).or
        (((tree.effect otherHost other).laid other otherBytes place).or below) := by
  cases hlaid : (tree.effect host path).laid path bytes place with
  | none => rfl
  | some entry =>
      cases hother : (tree.effect otherHost other).laid other otherBytes place with
      | none => rfl
      | some otherEntry =>
          -- The place is on both ways, so a file there would end one way on the other.
          have hpart := Effect.part_of_laid hlaid
          have hotherPart := Effect.part_of_laid hother
          cases entry with
          | file => exact absurd ((of_laid_file hlaid).1 ▸ hotherPart) h.1
          | directory =>
              cases otherEntry with
              | file => exact absurd ((of_laid_file hother).1 ▸ hpart) h.2
              | directory => rfl

/-- Behind a write to a path that lies apart, a write has the effect that it has by itself. -/
theorem write_behind (content otherContent : Content) (htree : tree.WellFormed)
    (hpath : path.Named) (hother : other.Named) (h : Apart path.names other.names)
    (hcalls : tree.Affords otherHost other) :
    ((tree.write host path content).1.write otherHost other otherContent).2
        = (tree.write otherHost other otherContent).2
      ∧ ∀ place, ((tree.write host path content).1.write otherHost other otherContent).1.get? place
        = ((tree.effect otherHost other).laid other otherContent.left place).or
          (((tree.effect host path).laid path content.left place).or (tree.get? place)) := by
  have hafter : (tree.write host path content).1.WellFormed :=
    write_wellFormed htree host hpath.isNormal content
  have hsame : (tree.write host path content).1.effect otherHost other
      = tree.effect otherHost other :=
    (write_sameWay host content htree hpath h.symm).effect_eq hcalls
  obtain ⟨hfault, hget⟩ := write_effect otherHost otherContent hafter hother
  refine ⟨?_, ?_⟩
  · rw [hfault, hsame, (write_effect otherHost otherContent htree hother).1]
  · intro place
    rw [hget, hsame, (write_effect host content htree hpath).2]

/-- **Writes to paths that lie apart commute**, if neither is short of calls. Each meets in either
order the fault that it meets by itself, and the trees agree at every place. -/
theorem write_commute (content otherContent : Content) (htree : tree.WellFormed)
    (hpath : path.Named) (hother : other.Named) (h : Apart path.names other.names)
    (hcalls : tree.Affords host path) (hotherCalls : tree.Affords otherHost other) :
    ((tree.write host path content).1.write otherHost other otherContent).2
        = (tree.write otherHost other otherContent).2
      ∧ ((tree.write otherHost other otherContent).1.write host path content).2
        = (tree.write host path content).2
      ∧ ∀ place, ((tree.write host path content).1.write otherHost other otherContent).1.get? place
        = ((tree.write otherHost other otherContent).1.write host path content).1.get? place := by
  obtain ⟨hfault, hget⟩ := write_behind content otherContent htree hpath hother h hotherCalls
  obtain ⟨hotherFault, hotherGet⟩ :=
    write_behind otherContent content htree hother hpath h.symm hcalls
  refine ⟨hfault, hotherFault, fun place => ?_⟩
  rw [hget, hotherGet, laid_comm h]

end ArchiveRecord.FileTree
