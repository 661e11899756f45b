/- # Proofs.Flag.Values -- one pass gives each field the values of its own flag

A pass moves one active flag over the tokens and changes the target value by value.
What it leaves can be said without it: each field has what the values of its own
flag make of it (`Archive.assigned`), whatever stands between them. One value is
one step (`apply_assigned`), and over tokens that are all accepted the steps add up
(`pass_accepted`).
-/
import ArchiveRecord.Proofs.Escaped.Cuts
import ArchiveRecord.Proofs.Flag.Filling
import ArchiveRecord.Proofs.Source.Lines

open ArchiveRecord.Parser (Provider)

namespace ArchiveRecord

/-- The target with values assigned: those of its archive, and the last output path. -/
def Target.assigned (target : Target) (assignments : List (Flag × String)) : Target where
  archive := target.archive.assigned assignments
  outputPath :=
    ((assignments.filter fun assignment => assignment.1 = .outputFile).map Prod.snd).getLast?.or
      target.outputPath

theorem Target.assigned_nil (target : Target) : target.assigned [] = target := by
  simp [assigned, Archive.assigned, OrderedMap.insertAll]

namespace Flag

variable {flag : Flag} {active : Option Flag} {token value : String} {tokens : List String}
  {target next : Target}

/-! ## One value -/

/-- **What a flag does with a value is that one assignment,** in front of any others. -/
theorem apply_assigned (h : flag.apply value target = .ok next)
    (assignments : List (Flag × String)) :
    next.assigned assignments = target.assigned ((flag, value) :: assignments) := by
  cases flag with
  | id | pkgPath | exportFile | outputFile =>
      obtain rfl := Except.ok.inj h
      simp [Target.assigned, Archive.assigned, List.getLast?_cons]
  | origSrcs | dataSrcs =>
      rw [apply] at h
      split at h
      next hsource =>
        obtain rfl := Except.ok.inj h
        simp [Target.assigned, Archive.assigned, hsource]
      next hsource =>
        obtain rfl := Except.ok.inj h
        simp [Target.assigned, Archive.assigned, hsource]
  | imports =>
      rw [apply] at h
      cases hpair : Escaped.pair value with
      | error fault =>
          rw [hpair] at h
          cases h
      | ok entry =>
          rw [hpair] at h
          obtain rfl := Except.ok.inj h
          simp [Target.assigned, Archive.assigned, hpair, Except.toOption, OrderedMap.insertAll_cons]

/-- A value is taken, unless it is an import that is no pair. -/
theorem exists_apply (h : flag = .imports → Escaped.IsPair value) (target : Target) :
    ∃ next, flag.apply value target = .ok next := by
  cases flag with
  | imports =>
      obtain ⟨entry, hpair⟩ := Escaped.isPair_iff.mp (h rfl)
      exact ⟨_, by rw [apply, hpair]; rfl⟩
  | origSrcs | dataSrcs =>
      rw [apply]
      split <;> exact ⟨_, rfl⟩
  | id | pkgPath | exportFile | outputFile => exact ⟨_, rfl⟩

/-! ## Tokens one by one -/

theorem assignments_flag (h : ofName? token = some flag) :
    assignments active (token :: tokens) = assignments (some flag) tokens := by
  simp [assignments, h]

theorem assignments_value (h : ofName? token = none) :
    assignments (some flag) (token :: tokens) = (flag, token) :: assignments (some flag) tokens := by
  simp [assignments, h]

theorem activeBehind_flag (h : ofName? token = some flag) :
    activeBehind active (token :: tokens) = activeBehind (some flag) tokens := by
  rw [activeBehind, List.filterMap_cons_some h, List.getLast?_cons, activeBehind]
  cases (tokens.filterMap ofName?).getLast? <;> rfl

theorem activeBehind_value (h : ofName? token = none) :
    activeBehind active (token :: tokens) = activeBehind active tokens := by
  rw [activeBehind, List.filterMap_cons_none h, activeBehind]

/-- **`Accepted active tokens`** -- each token is a flag or a value that its flag takes: none stands
before the first flag, and imports are pairs. -/
structure Accepted (active : Option Flag) (tokens : List String) : Prop where
  flag_first : active = none → ∀ token, tokens.head? = some token → ofName? token ≠ none
  pairs : ∀ value, (imports, value) ∈ assignments active tokens → Escaped.IsPair value

theorem accepted_nil (active : Option Flag) : Accepted active [] where
  flag_first _ token htoken := by cases htoken
  pairs value hmem := by cases hmem

theorem accepted_flag_iff (h : ofName? token = some flag) :
    Accepted active (token :: tokens) ↔ Accepted (some flag) tokens := by
  constructor
  · intro haccepted
    refine ⟨by simp, fun value hmem => haccepted.pairs value ?_⟩
    rwa [assignments_flag h]
  · intro haccepted
    refine ⟨fun _ other hother => ?_, fun value hmem => haccepted.pairs value ?_⟩
    · obtain rfl := Option.some.inj hother
      rw [h]
      exact Option.some_ne_none flag
    · rwa [assignments_flag h] at hmem

theorem accepted_value_iff (h : ofName? token = none) :
    Accepted (some flag) (token :: tokens)
      ↔ (flag = imports → Escaped.IsPair token) ∧ Accepted (some flag) tokens := by
  constructor
  · intro haccepted
    refine ⟨?_, by simp, fun value hmem => haccepted.pairs value ?_⟩
    · rintro rfl
      exact haccepted.pairs token (by rw [assignments_value h]; exact List.mem_cons_self)
    · rw [assignments_value h]
      exact List.mem_cons_of_mem _ hmem
  · rintro ⟨hpair, haccepted⟩
    refine ⟨by simp, fun value hmem => ?_⟩
    rw [assignments_value h, List.mem_cons, Prod.mk.injEq] at hmem
    rcases hmem with ⟨rfl, rfl⟩ | hmem
    · exact hpair rfl
    · exact haccepted.pairs value hmem

/-- **A pass over accepted tokens assigns their values** and goes on behind them. -/
theorem pass_accepted {before : List Reading} (h : Accepted active tokens)
    (hbefore : before.map Reading.result = tokens.map .ok) (rest : List Reading)
    (target : Target) :
    pass active (before ++ rest) target
      = pass (activeBehind active tokens) rest (target.assigned (assignments active tokens)) := by
  induction tokens generalizing active before target with
  | nil =>
      obtain rfl := List.map_eq_nil_iff.mp hbefore
      rw [List.nil_append, assignments, target.assigned_nil]
      rfl
  | cons token tokens ih =>
      obtain ⟨⟨result, origin⟩, before, rfl, hresult, hmore⟩ := List.map_eq_cons_iff.mp hbefore
      obtain rfl : result = .ok token := hresult
      cases hname : ofName? token with
      | some flag =>
          rw [List.cons_append, pass_flag hname, activeBehind_flag hname, assignments_flag hname]
          exact ih ((accepted_flag_iff hname).mp h) hmore target
      | none =>
          cases active with
          | none => exact absurd hname (h.flag_first rfl token rfl)
          | some flag =>
              obtain ⟨hpair, hrest⟩ := (accepted_value_iff hname).mp h
              obtain ⟨next, happly⟩ := exists_apply hpair target
              rw [List.cons_append, pass_value hname happly, activeBehind_value hname,
                assignments_value hname, ← apply_assigned happly]
              exact ih hrest hmore next

/-- Before any flag, accepted tokens start with a flag, hence refer to no params file. -/
theorem Accepted.unmarked (h : Accepted none tokens) (first : String)
    (hfirst : tokens.head? = some first) : ¬ "@".toList <+: first.toList := by
  obtain ⟨flag, hname⟩ := Option.ne_none_iff_exists'.mp (h.flag_first rfl first hfirst)
  obtain rfl := ofName?_eq_some_iff.mp hname
  exact flag.unmarked_name

theorem mem_values_iff : value ∈ flag.values tokens ↔ (flag, value) ∈ assignments none tokens := by
  simp [values]

/-- Tokens that start with a flag and whose imports are pairs are accepted. -/
theorem accepted_of_head (hflag : tokens.head? = some flag.name)
    (hpairs : ∀ value ∈ imports.values tokens, Escaped.IsPair value) : Accepted none tokens where
  flag_first _ token htoken := by
    obtain rfl := Option.some.inj (hflag.symm.trans htoken)
    rw [ofName?_name]
    exact Option.some_ne_none flag
  pairs value hmem := hpairs value (mem_values_iff.mpr hmem)

end Flag

/-! ## A filling -/

/-- What a filling gives for the last output path that was named. -/
def outputOf : Option String → Except Fault String
  | some path => if path = "" then .error .noOutputPath else .ok path
  | none => .error .noOutputPath

theorem outputOf_eq_error_iff {path : Option String} {fault : Fault} :
    outputOf path = .error fault ↔ fault = .noOutputPath ∧ (path = none ∨ path = some "") := by
  cases path with
  | none => simp [outputOf, eq_comm]
  | some path => by_cases h : path = "" <;> simp [outputOf, h, eq_comm]

theorem outputOf_of_ne {path : String} (h : path ≠ "") : outputOf (some path) = .ok path := by
  rw [outputOf, if_neg h]

namespace Archive

variable {archive : Archive} {provider : Provider} {arguments : List String}

/-- **A filling is a pass over what is read,** and then gives the path of the target. -/
theorem fill_passOver (tracing : Bool) {target : Target} {stop : Option Fault}
    (h : Flag.passOver ((archive.fillStart provider).parser.readings arguments) { archive }
      = (target, stop)) :
    (archive.fill tracing provider arguments).archive = target.archive
      ∧ (archive.fill tracing provider arguments).result
        = stop.elim (outputOf target.outputPath) .error := by
  obtain ⟨hhost, houtcome⟩ := Parser.parseOnce_eq_passOver (archive.bindsFlags_fillStart provider)
    tracing (Parser.parse tracing 0) arguments
  rw [← Parser.parse_succ, fillStart] at hhost houtcome
  rw [fillStart] at h
  simp only [h] at hhost houtcome
  unfold fill
  simp only [hhost, houtcome]
  refine ⟨trivial, ?_⟩
  obtain ⟨filled, path⟩ := target
  cases stop with
  | some fault => rfl
  | none => cases path <;> rfl

/-- Accepted arguments are read themselves. -/
theorem readings_of_accepted (archive : Archive) (provider : Provider)
    (h : Flag.Accepted none arguments) :
    (archive.fillStart provider).parser.readings arguments = .ok (argumentReadings arguments) :=
  Parser.readings_unmarked fun first hfirst => Parser.handle?_eq_none_iff.mpr (h.unmarked first hfirst)

/-- Where accepted tokens are read, the archive is what they make of it, and the path the last one
that they name. -/
theorem fill_accepted (tracing : Bool) {readings : List Reading} {tokens : List String}
    (hreadings : (archive.fillStart provider).parser.readings arguments = .ok readings)
    (htokens : readings.map Reading.result = tokens.map .ok) (h : Flag.Accepted none tokens) :
    (archive.fill tracing provider arguments).archive = archive.filledBy tokens
      ∧ (archive.fill tracing provider arguments).result
        = outputOf (Flag.outputFile.values tokens).getLast? := by
  have hpass : Flag.passOver ((archive.fillStart provider).parser.readings arguments) { archive }
      = (Target.assigned { archive } (Flag.assignments none tokens), none) := by
    rw [hreadings]
    have hall := Flag.pass_accepted h htokens [] { archive }
    rwa [List.append_nil] at hall
  have hpath : (Target.assigned { archive } (Flag.assignments none tokens)).outputPath
      = (Flag.outputFile.values tokens).getLast? := Option.or_none
  obtain ⟨harchive, hresult⟩ := fill_passOver tracing hpass
  refine ⟨harchive, ?_⟩
  rw [hresult, hpath]
  rfl

/-- The pairs of values that are all pairs. -/
theorem filterMap_pair {values : List String} {pairs : List (String × String)}
    (h : (values.map fun value => Escaped.pair value) = pairs.map .ok) :
    (values.filterMap fun value => (Escaped.pair value).toOption) = pairs := by
  have hoptions := congrArg (List.filterMap Except.toOption) h
  rw [List.filterMap_map, List.filterMap_map] at hoptions
  rw [← Function.comp_def Except.toOption, hoptions]
  exact List.filterMap_some

/-- **A filling gives each field the values of its own flag.** Where the arguments start with a flag
and the values of `--imports` are pairs, a field that holds one string has the last value of its
flag, if there is one; the lists go on with the values of their flags, told apart by their suffix;
the imports keep their keys, take new ones in the order in which they first occur, and have the last
value of each; and the path is the last output path, unless there is none or it is empty. -/
theorem fill_by_values (archive : Archive) (tracing : Bool) (provider : Provider)
    (arguments : List String) (pairs : List (String × String)) (flag : Flag)
    (hflag : arguments.head? = some flag.name)
    (hpairs : ((Flag.imports.values arguments).map fun value => Escaped.pair value)
      = pairs.map .ok) :
    let filling := archive.fill tracing provider arguments
    filling.archive.id = (Flag.id.values arguments).getLast?.getD archive.id
      ∧ filling.archive.pkgPath = (Flag.pkgPath.values arguments).getLast?.getD archive.pkgPath
      ∧ filling.archive.exportFile
        = (Flag.exportFile.values arguments).getLast?.getD archive.exportFile
      ∧ filling.archive.goFiles
        = archive.goFiles ++ (Flag.origSrcs.values arguments).filter Flag.isGoSource
      ∧ filling.archive.otherFiles
        = archive.otherFiles
          ++ (Flag.origSrcs.values arguments).filter (fun file => !Flag.isGoSource file)
      ∧ filling.archive.compiledGoFiles
        = archive.compiledGoFiles ++ (Flag.dataSrcs.values arguments).filter Flag.isGoSource
      ∧ filling.archive.imports.keys
        = archive.imports.keys
          ++ ((pairs.map Prod.fst).removeAll archive.imports.keys).eraseDups
      ∧ (∀ key, filling.archive.imports.get? key
        = ((pairs.filter fun pair => pair.1 = key).map Prod.snd).getLast?.or
            (archive.imports.get? key))
      ∧ (∀ path, (Flag.outputFile.values arguments).getLast? = some path → path ≠ "" →
        filling.result = .ok path)
      ∧ ((Flag.outputFile.values arguments).getLast? = none
          ∨ (Flag.outputFile.values arguments).getLast? = some "" →
        filling.result = .error .noOutputPath) := by
  have haccepted : Flag.Accepted none arguments := by
    refine Flag.accepted_of_head hflag fun value hmem => ?_
    have hpair : Escaped.pair value ∈ pairs.map .ok :=
      hpairs ▸ List.mem_map.mpr ⟨value, hmem, rfl⟩
    obtain ⟨entry, -, hentry⟩ := List.mem_map.mp hpair
    exact Escaped.isPair_iff.mpr ⟨entry, hentry.symm⟩
  obtain ⟨harchive, hresult⟩ := fill_accepted tracing
    (readings_of_accepted archive provider haccepted) (map_result_argumentReadings arguments) haccepted
  have himports : (archive.filledBy arguments).imports = archive.imports.insertAll pairs :=
    congrArg archive.imports.insertAll (filterMap_pair hpairs)
  intro filling
  rw [show filling.archive = _ from harchive, show filling.result = _ from hresult, himports]
  refine ⟨rfl, rfl, rfl, rfl, rfl, rfl, ?_, ?_, ?_, ?_⟩
  · exact archive.imports.keys_insertAll pairs
  · exact archive.imports.get?_insertAll pairs
  · intro path hpath hne
    rw [hpath, outputOf_of_ne hne]
  · intro hpath
    exact outputOf_eq_error_iff.mpr ⟨rfl, hpath⟩

/-- Groups of one flag apart from each other, a key written twice and a key that is there already. -/
theorem fill_by_values_apart :
    let archive : Archive := { goFiles := ["z.go"], imports := .ofList [("k", "0")] }
    let arguments := ["--imports", "a=1", "k=2", "--orig-srcs", "x.go", "y.s", "--data-srcs", "n.h",
      "--imports", "b=", "a=\\=", "--id", "--orig-srcs", "x.go", "--output-file", "p", "o"]
    let pairs := [("a", "1"), ("k", "2"), ("b", ""), ("a", "=")]
    let filling := archive.fill false (fun _ => .error .embeddedNul) arguments
    arguments.head? = some Flag.imports.name
      ∧ ((Flag.imports.values arguments).map fun value => Escaped.pair value) = pairs.map .ok
      ∧ filling.archive.goFiles = ["z.go", "x.go", "x.go"]
      ∧ filling.archive.imports.keys = ["k", "a", "b"]
      ∧ filling.archive.imports.get? "a" = some "="
      ∧ filling.result = .ok "o" := by
  intro archive arguments pairs filling
  have hflag : arguments.head? = some Flag.imports.name := rfl
  have hpairs : ((Flag.imports.values arguments).map fun value => Escaped.pair value)
      = pairs.map .ok := by rfl
  obtain ⟨-, -, -, hgo, -, -, hkeys, hget, hpath, -⟩ := fill_by_values archive false
    (fun _ => .error .embeddedNul) arguments pairs .imports hflag hpairs
  refine ⟨hflag, hpairs, hgo.trans (by decide), hkeys.trans (by decide), (hget "a").trans (by decide),
    hpath "o" (by decide) (by decide)⟩

end Archive

end ArchiveRecord
