/- # Proofs.Flag.Groups -- a pass over groups of values

Arguments that are written come in groups, each a flag and the values that follow
it. A pass over a group is a fold of its values, so the groups can be taken one by
one; and what the values of one flag do together can be said at once: sources are
sorted by their suffix, imports are inserted in the order of their entries.
-/
import ArchiveRecord.Proofs.Escaped.Spelling
import ArchiveRecord.Proofs.Flag.Pass

namespace ArchiveRecord.Flag

variable {flag : Flag} {target next : Target}

/-! ## A pass over groups -/

/-- A fold that succeeds has succeeded at its first element and behind it. -/
theorem exists_of_foldlM_cons {α β : Type} {step : β → α → Except Fault β} {a : α} {list : List α}
    {start last : β} (h : (a :: list).foldlM step start = .ok last) :
    ∃ between, step start a = .ok between ∧ list.foldlM step between = .ok last := by
  rw [List.foldlM_cons] at h
  cases hfirst : step start a with
  | error fault =>
      rw [hfirst] at h
      cases h
  | ok between =>
      rw [hfirst] at h
      exact ⟨between, rfl, h⟩

/-- Hands values to a flag, one after the other. -/
def applyAll (flag : Flag) (values : List String) (target : Target) : Except Fault Target :=
  values.foldlM (fun target value => flag.apply value target) target

theorem applyAll_cons {value : String} {values : List String}
    (h : flag.apply value target = .ok next) :
    flag.applyAll (value :: values) target = flag.applyAll values next := by
  rw [applyAll, List.foldlM_cons, h]
  rfl

/-- The tokens of groups, each a flag with the values that follow it. -/
def groupTokens (groups : List (Flag × List String)) : List String :=
  groups.flatMap fun group => group.1.name :: group.2

/-- Hands the values of groups to their flags. -/
def applyGroups (groups : List (Flag × List String)) (target : Target) : Except Fault Target :=
  groups.foldlM (fun target group => group.1.applyAll group.2 target) target

theorem applyGroups_cons {values : List String} {groups : List (Flag × List String)}
    (h : flag.applyAll values target = .ok next) :
    applyGroups ((flag, values) :: groups) target = applyGroups groups next := by
  rw [applyGroups, List.foldlM_cons, h]
  rfl

/-- A pass over values hands them to the active flag. -/
theorem pass_values {values : List String} (hvalues : ∀ value ∈ values, ofName? value = none)
    (happly : flag.applyAll values target = .ok next) (rest : List Reading) :
    pass (some flag) (argumentReadings values ++ rest) target = pass (some flag) rest next := by
  induction values generalizing target with
  | nil =>
      obtain rfl : target = next := Except.ok.inj happly
      rfl
  | cons value values ih =>
      obtain ⟨hvalue, hmore⟩ := List.forall_mem_cons.mp hvalues
      obtain ⟨between, hfirst, hrest⟩ := exists_of_foldlM_cons happly
      rw [argumentReadings, List.map_cons, List.cons_append, pass_value hvalue hfirst]
      exact ih hmore hrest

/-- **A pass over groups hands the values of each group to its flag.** -/
theorem pass_groupTokens {groups : List (Flag × List String)}
    (hvalues : ∀ group ∈ groups, ∀ value ∈ group.2, ofName? value = none)
    (happly : applyGroups groups target = .ok next) (active : Option Flag) :
    pass active (argumentReadings (groupTokens groups)) target = (next, none) := by
  induction groups generalizing target active with
  | nil =>
      obtain rfl : target = next := Except.ok.inj happly
      rfl
  | cons group groups ih =>
      obtain ⟨flag, values⟩ := group
      obtain ⟨hgroup, hmore⟩ := List.forall_mem_cons.mp hvalues
      obtain ⟨between, hfirst, hrest⟩ := exists_of_foldlM_cons happly
      have htokens : argumentReadings (groupTokens ((flag, values) :: groups))
          = ⟨.ok flag.name, .arguments⟩
            :: (argumentReadings values ++ argumentReadings (groupTokens groups)) := by
        simp [groupTokens, argumentReadings]
      -- The name of the flag makes it the active one, whichever was active before.
      rw [htokens, pass_flag (ofName?_name flag), pass_values hgroup hfirst]
      exact ih hmore hrest (some flag)

/-! ## The values of one flag -/

/-- Sources go to the list of their suffix, in order. -/
theorem applyAll_origSrcs (sources : List String) (target : Target) :
    origSrcs.applyAll sources target
      = .ok { target with archive := { target.archive with
          goFiles := target.archive.goFiles ++ sources.filter isGoSource
          otherFiles := target.archive.otherFiles
            ++ sources.filter fun file => !isGoSource file } } := by
  induction sources generalizing target with
  | nil => simp [applyAll, pure, Except.pure]
  | cons source sources ih =>
      by_cases hsource : isGoSource source = true
      · rw [applyAll_cons (by rw [apply, if_pos hsource]), ih]
        simp [hsource]
      · rw [applyAll_cons (by rw [apply, if_neg hsource]), ih]
        simp [hsource]

/-- Go sources among data sources are kept, in order. -/
theorem applyAll_dataSrcs (sources : List String) (target : Target) :
    dataSrcs.applyAll sources target
      = .ok { target with archive := { target.archive with
          compiledGoFiles := target.archive.compiledGoFiles ++ sources.filter isGoSource } } := by
  induction sources generalizing target with
  | nil => simp [applyAll, pure, Except.pure]
  | cons source sources ih =>
      by_cases hsource : isGoSource source = true
      · rw [applyAll_cons (by rw [apply, if_pos hsource]), ih]
        simp [hsource]
      · rw [applyAll_cons (by rw [apply, if_neg hsource]), ih]
        simp [hsource]

/-- A written import is read as its entry. -/
theorem apply_importText (entry : String × String) (target : Target) :
    imports.apply (Archive.importText entry.1 entry.2) target
      = .ok { target with archive := { target.archive with
          imports := target.archive.imports.insert entry.1 entry.2 } } := by
  have hpair : Escaped.pair (Archive.importText entry.1 entry.2) = .ok (entry.1, entry.2) :=
    Escaped.pair_escaped (by decide) entry.1 entry.2
  rw [apply, hpair]
  rfl

theorem applyAll_imports (entries : List (String × String)) (target : Target) :
    imports.applyAll (entries.map fun entry => Archive.importText entry.1 entry.2) target
      = .ok { target with archive := { target.archive with
          imports := target.archive.imports.insertAll entries } } := by
  induction entries generalizing target with
  | nil => rfl
  | cons entry entries ih =>
      rw [List.map_cons, applyAll_cons (apply_importText entry target), ih]
      rfl

/-- A written import holds an unescaped delimiter and is the name of no flag. -/
theorem ofName?_importText (entry : String × String) :
    ofName? (Archive.importText entry.1 entry.2) = none := by
  rw [ofName?_eq_none_iff]
  intro flag hname
  have hmem : '=' ∈ (Archive.importText entry.1 entry.2).toList := by simp [Archive.importText]
  rw [hname] at hmem
  -- None of the seven names holds the delimiter.
  revert hmem
  cases flag <;> decide

end ArchiveRecord.Flag
