/- # Proofs.Command.Commuting -- runs that are independent commute

A run reads at most one file, its params file, and writes to at most one path. A run
that writes to a path that lies apart, and not to that params file, changes neither
what the other reads nor the effect of its write. So each run keeps its plan, and
plans for paths that lie apart are carried out in either order.

This needs that neither run is short of calls when it comes first. One that is finds
fewer directories missing behind the other, and then its write may succeed.
-/
import ArchiveRecord.Proofs.Command.Nested
import ArchiveRecord.Proofs.FileTree.Commuting
import ArchiveRecord.Proofs.FileTree.Reading

namespace ArchiveRecord

/-- **`plan.WritesTo path`** -- the plan is to write to the path. -/
def Plan.WritesTo (plan : Plan) (path : Path) : Prop := ∃ content, plan = .ok (path, content)

namespace FileTree

variable {tree after : FileTree} {host otherHost : Host} {arguments others : List String}
  {path : Path} {content : List UInt8} {place : Place}

/-! ## Carrying out plans -/

variable {plan other : Plan}

/-- A plan for a named path keeps directories. -/
theorem carryOut_keeps_directory (htree : tree.WellFormed)
    (hplan : ∀ path, plan.WritesTo path → path.Named) (h : tree.get? place = some .directory) :
    (tree.carryOut host plan).2.get? place = some .directory := by
  cases plan with
  | error ending => exact h
  | ok written => exact write_keeps_directory htree (hplan written.1 ⟨written.2, rfl⟩) h

/-- It keeps files at other places. -/
theorem carryOut_keeps_file (htree : tree.WellFormed)
    (hplan : ∀ path, plan.WritesTo path → path.Named ∧ place ≠ path.names)
    (h : tree.get? place = some (.file content)) :
    (tree.carryOut host plan).2.get? place = some (.file content) := by
  cases plan with
  | error ending => exact h
  | ok written =>
      obtain ⟨hnamed, hne⟩ := hplan written.1 ⟨written.2, rfl⟩
      exact write_keeps_file htree hnamed hne h

/-- A plan that does not fail for want of calls is not short of them. -/
theorem affords_of_carryOut (htree : tree.WellFormed)
    (hplan : ∀ path, plan.WritesTo path → path.Named)
    (h : (tree.carryOut host plan).1 ≠ .failed (.exhausted host.overflow))
    (hwrites : plan.WritesTo path) : tree.Affords host path := by
  obtain ⟨content, rfl⟩ := hwrites
  have hcalls : (tree.write host path content).2 ≠ some (.exhausted host.overflow) := by
    exact mt carryOut_failed_iff.mpr h
  exact affords_of_write htree (hplan path ⟨content, rfl⟩) hcalls

/-- **Plans for paths that lie apart commute**, if neither is short of calls. -/
theorem carryOut_commute (htree : tree.WellFormed) (hplan : ∀ path, plan.WritesTo path → path.Named)
    (hother : ∀ path, other.WritesTo path → path.Named)
    (hapart : ∀ path otherPath, plan.WritesTo path → other.WritesTo otherPath →
      Apart path.names otherPath.names)
    (hcalls : (tree.carryOut host plan).1 ≠ .failed (.exhausted host.overflow))
    (hotherCalls : (tree.carryOut otherHost other).1 ≠ .failed (.exhausted otherHost.overflow)) :
    ((tree.carryOut host plan).2.carryOut otherHost other).1 = (tree.carryOut otherHost other).1
      ∧ ((tree.carryOut otherHost other).2.carryOut host plan).1 = (tree.carryOut host plan).1
      ∧ ∀ place, ((tree.carryOut host plan).2.carryOut otherHost other).2.get? place
        = ((tree.carryOut otherHost other).2.carryOut host plan).2.get? place := by
  cases plan with
  | error ending => exact ⟨rfl, rfl, fun _ => rfl⟩
  | ok written =>
      cases other with
      | error ending => exact ⟨rfl, rfl, fun _ => rfl⟩
      | ok otherWritten =>
          obtain ⟨path, content⟩ := written
          obtain ⟨otherPath, otherContent⟩ := otherWritten
          have hwrites : Plan.WritesTo (.ok (path, content)) path := ⟨content, rfl⟩
          have hotherWrites : Plan.WritesTo (.ok (otherPath, otherContent)) otherPath :=
            ⟨otherContent, rfl⟩
          obtain ⟨hotherFault, hfault, hget⟩ := write_commute content otherContent htree
            (hplan path hwrites) (hother otherPath hotherWrites)
            (hapart path otherPath hwrites hotherWrites)
            (affords_of_carryOut htree hplan hcalls hwrites)
            (affords_of_carryOut htree hother hotherCalls hotherWrites)
          refine ⟨?_, ?_, hget⟩
          · simp only [carryOut, hotherFault]
          · simp only [carryOut, hfault]

/-! ## Independent arguments -/

/-- The path that arguments give for the output, where they fill an archive. -/
def outputPath? (tree : FileTree) (arguments : List String) : Option Path :=
  (Archive.empty.fill false tree.provider arguments).result.toOption.map Path.ofString

/-- **`tree.Independent arguments others`** -- the output of the arguments, if they give any, is named
and is no leading part of that of the others; and the params file that they name, if they name one,
is a file of the tree and not the output of the others. -/
structure Independent (tree : FileTree) (arguments others : List String) : Prop where
  named : ∀ path, tree.outputPath? arguments = some path → path.Named
  notPart : ∀ path other, tree.outputPath? arguments = some path →
    tree.outputPath? others = some other → ¬ path.names <+: other.names
  reads : ∀ handle, arguments = ["@" ++ handle] → (∃ content, tree.read handle = .ok content)
    ∧ ∀ other, tree.outputPath? others = some other → tree.placeOf? handle ≠ some other.names

/-- Where both outputs are known, only these matter. -/
theorem Independent.of_outputs {other : Path} (hpath : tree.outputPath? arguments = some path)
    (hother : tree.outputPath? others = some other) (hnamed : path.Named)
    (hapart : ¬ path.names <+: other.names)
    (hreads : ∀ handle, arguments = ["@" ++ handle] →
      (∃ content, tree.read handle = .ok content) ∧ tree.placeOf? handle ≠ some other.names) :
    tree.Independent arguments others := by
  have houtput (found : Path) (h : tree.outputPath? arguments = some found) : path = found :=
    Option.some.inj (hpath.symm.trans h)
  have hothers (found : Path) (h : tree.outputPath? others = some found) : other = found :=
    Option.some.inj (hother.symm.trans h)
  refine ⟨?_, ?_, ?_⟩
  · intro found hfound
    exact houtput found hfound ▸ hnamed
  · intro found otherFound hfound hotherFound
    exact houtput found hfound ▸ hothers otherFound hotherFound ▸ hapart
  · intro handle harguments
    obtain ⟨hread, hplace⟩ := hreads handle harguments
    exact ⟨hread, fun found hfound => hothers found hfound ▸ hplace⟩

/-- A run plans to write to the output path of its arguments. -/
theorem outputPath?_of_writesTo (h : Plan.WritesTo (tree.plan none host arguments) path) :
    tree.outputPath? arguments = some path := by
  obtain ⟨content, hplan⟩ := h
  rcases tree.plan_cases none host arguments with hinterrupted | ⟨fault, -, hfailed⟩ |
    ⟨output, hresult, -, hwrites⟩
  · cases hinterrupted.symm.trans hplan
  · cases hfailed.symm.trans hplan
  · obtain rfl := congrArg Prod.fst (Except.ok.inj (hwrites.symm.trans hplan))
    dsimp only [Option.getD] at hresult
    rw [outputPath?, hresult]
    rfl

/-- A plan depends on the params file that the arguments name. -/
theorem plan_congr
    (h : ∀ handle, arguments = ["@" ++ handle] → after.provider handle = tree.provider handle) :
    after.plan none host arguments = tree.plan none host arguments := by
  obtain ⟨hresult, harchive⟩ := Archive.empty.fill_congr h false false
  unfold plan
  simp only [Option.getD, hresult, harchive]

/-- **Independent arguments have the same plan behind the run of the others.** -/
theorem Independent.plan_kept (h : tree.Independent arguments others) (htree : tree.WellFormed)
    (hothers : ∀ path, tree.outputPath? others = some path → path.Named) (otherHost : Host) :
    (tree.carryOut otherHost (tree.plan none otherHost others)).2.plan none host arguments
      = tree.plan none host arguments := by
  refine plan_congr fun handle harguments => ?_
  obtain ⟨⟨content, hread⟩, hplace⟩ := h.reads handle harguments
  have hstream : tree.provider handle = .ok (Stream.ofBytes content) := by
    rw [provider, hread]
    rfl
  refine provider_kept ?_ ?_ hstream
  · intro place hdirectory
    exact carryOut_keeps_directory htree
      (fun path hpath => hothers path (outputPath?_of_writesTo hpath)) hdirectory
  · intro place found hfound hfile
    refine carryOut_keeps_file htree (fun path hpath => ?_) hfile
    have houtput := outputPath?_of_writesTo hpath
    refine ⟨hothers path houtput, ?_⟩
    rintro rfl
    exact hplace path houtput hfound

end FileTree

/-! ## Runs -/

section Runs

variable {session after : Session} {host otherHost : Host} {arguments others : List String}

/-- Behind a run of others that it is independent of, a run carries out the plan that it has by
itself. -/
theorem run_behind (h : session.tree.Independent arguments others) (htree : session.tree.WellFormed)
    (hothers : ∀ path, session.tree.outputPath? others = some path → path.Named)
    (hafter : after.tree
      = (session.tree.carryOut otherHost (session.tree.plan none otherHost others)).2)
    (environment : Environment) (settings : Settings) :
    ((run environment settings none host arguments after).ending,
        (run environment settings none host arguments after).session.tree)
      = after.tree.carryOut host (session.tree.plan none host arguments) := by
  rw [run_eq_carryOut, hafter, h.plan_kept htree hothers]

end Runs

/-- **Independent runs commute.** Where each of two runs writes, if at all, to a named path, neither
path is a leading part of the other, the params files are files of the tree other than these outputs,
and neither run fails for want of calls when it comes first, each run ends the same in either order,
and the trees agree at every place. -/
theorem runs_commute (session : Session) (htree : session.tree.WellFormed)
    (arguments others : List String) (h : session.tree.Independent arguments others)
    (hothers : session.tree.Independent others arguments)
    (environment otherEnvironment : Environment) (settings otherSettings : Settings)
    (host otherHost : Host) :
    let first := run environment settings none host arguments session
    let second := run otherEnvironment otherSettings none otherHost others first.session
    let otherFirst := run otherEnvironment otherSettings none otherHost others session
    let otherSecond := run environment settings none host arguments otherFirst.session
    first.ending ≠ .failed (.exhausted host.overflow) →
    otherFirst.ending ≠ .failed (.exhausted otherHost.overflow) →
    first.ending = otherSecond.ending ∧ second.ending = otherFirst.ending
      ∧ ∀ place, second.session.tree.get? place = otherSecond.session.tree.get? place := by
  intro first second otherFirst otherSecond hcalls hotherCalls
  let plan := session.tree.plan none host arguments
  let otherPlan := session.tree.plan none otherHost others
  obtain ⟨hfirst, hfirstTree⟩ : first.ending = (session.tree.carryOut host plan).1
      ∧ first.session.tree = (session.tree.carryOut host plan).2 :=
    Prod.mk.inj (run_eq_carryOut none host arguments environment settings session)
  obtain ⟨hotherFirst, hotherFirstTree⟩ :
      otherFirst.ending = (session.tree.carryOut otherHost otherPlan).1
        ∧ otherFirst.session.tree = (session.tree.carryOut otherHost otherPlan).2 :=
    Prod.mk.inj (run_eq_carryOut none otherHost others otherEnvironment otherSettings session)
  obtain ⟨hsecond, hsecondTree⟩ :
      second.ending = (first.session.tree.carryOut otherHost otherPlan).1
        ∧ second.session.tree = (first.session.tree.carryOut otherHost otherPlan).2 :=
    Prod.mk.inj (run_behind hothers htree h.named hfirstTree otherEnvironment otherSettings)
  obtain ⟨hotherSecond, hotherSecondTree⟩ :
      otherSecond.ending = (otherFirst.session.tree.carryOut host plan).1
        ∧ otherSecond.session.tree = (otherFirst.session.tree.carryOut host plan).2 :=
    Prod.mk.inj (run_behind h htree hothers.named hotherFirstTree environment settings)
  have hnamed (path : Path) (hpath : plan.WritesTo path) : path.Named :=
    h.named path (FileTree.outputPath?_of_writesTo hpath)
  have hotherNamed (path : Path) (hpath : otherPlan.WritesTo path) : path.Named :=
    hothers.named path (FileTree.outputPath?_of_writesTo hpath)
  have hapart (path other : Path) (hpath : plan.WritesTo path) (hother : otherPlan.WritesTo other) :
      FileTree.Apart path.names other.names :=
    have hpath := FileTree.outputPath?_of_writesTo hpath
    have hother := FileTree.outputPath?_of_writesTo hother
    ⟨h.notPart path other hpath hother, hothers.notPart other path hother hpath⟩
  obtain ⟨hother, hplan, hget⟩ := FileTree.carryOut_commute htree hnamed hotherNamed hapart
    (hfirst ▸ hcalls) (hotherFirst ▸ hotherCalls)
  refine ⟨?_, ?_, ?_⟩
  · rw [hfirst, hotherSecond, hotherFirstTree, hplan]
  · rw [hsecond, hotherFirst, hfirstTree, hother]
  · intro place
    rw [hsecondTree, hotherSecondTree, hfirstTree, hotherFirstTree]
    exact hget place

/-- A run that reads its arguments from a file, and a run that writes beside its output. -/
theorem runs_commute_beside :
    let lines := Encoding.Utf8.encode "--output-file\nd/a.json\n".toList
    let session : Session := ⟨{}, FileTree.empty.put ["p"] (.file lines)⟩
    let others := [Flag.outputFile.name, "d/b.json"]
    let first := run ∅ {} none {} ["@p"] session
    let second := run ∅ {} none {} others first.session
    let otherFirst := run ∅ {} none {} others session
    let otherSecond := run ∅ {} none {} ["@p"] otherFirst.session
    session.tree.WellFormed ∧ session.tree.Independent ["@p"] others
      ∧ session.tree.Independent others ["@p"]
      ∧ first.ending = .wrote ⟨.relative, ["d", "a.json"]⟩
      ∧ otherFirst.ending = .wrote ⟨.relative, ["d", "b.json"]⟩
      ∧ first.ending = otherSecond.ending ∧ second.ending = otherFirst.ending
      ∧ second.session.tree.get? ["d", "a.json"]
        = otherSecond.session.tree.get? ["d", "a.json"] := by
  intro lines session others first second otherFirst otherSecond
  have htree : session.tree.WellFormed := by
    have hplace : FileTree.IsPlace ["p"] :=
      FileTree.wellFormed_empty.isPlace_concat FileTree.get?_nil (by decide)
    exact FileTree.wellFormed_empty.put hplace rfl fun hdirectory => nomatch hdirectory
  have houtput : session.tree.outputPath? ["@p"] = some ⟨.relative, ["d", "a.json"]⟩ := by
    decide +kernel
  have hother : session.tree.outputPath? others = some ⟨.relative, ["d", "b.json"]⟩ := by
    decide +kernel
  have hread : session.tree.read "p" = .ok lines := by decide +kernel
  have hplace : session.tree.placeOf? "p" = some ["p"] := by decide +kernel
  have hfirst : first.ending = .wrote ⟨.relative, ["d", "a.json"]⟩ := by decide +kernel
  have hotherFirst : otherFirst.ending = .wrote ⟨.relative, ["d", "b.json"]⟩ := by decide +kernel
  have h : session.tree.Independent ["@p"] others := by
    refine .of_outputs houtput hother ⟨rfl, by decide⟩ (by decide) fun handle harguments => ?_
    obtain rfl : handle = "p" :=
      (String.append_right_inj "@").mp (List.singleton_inj.mp harguments).symm
    exact ⟨⟨lines, hread⟩, hplace ▸ by decide⟩
  have hothers : session.tree.Independent others ["@p"] := by
    refine .of_outputs hother houtput ⟨rfl, by decide⟩ (by decide) fun handle harguments => ?_
    have hlength := congrArg List.length harguments
    cases hlength
  have hcalls : first.ending ≠ .failed (.exhausted ({} : Host).overflow) := by
    rw [hfirst]
    exact Ending.noConfusion
  have hotherCalls : otherFirst.ending ≠ .failed (.exhausted ({} : Host).overflow) := by
    rw [hotherFirst]
    exact Ending.noConfusion
  obtain ⟨hending, hotherEnding, hget⟩ :=
    runs_commute session htree ["@p"] others h hothers ∅ ∅ {} {} {} {} hcalls hotherCalls
  exact ⟨htree, h, hothers, hfirst, hotherFirst, hending, hotherEnding, hget ["d", "a.json"]⟩

/-! ## A run that is short of calls -/

namespace FileTree

variable {tree : FileTree} {arguments others : List String} {output otherOutput : String}
  {name last otherLast : String} {depth otherDepth : Nat}

theorem outputPath?_of_fills {archive : Archive}
    (h : archive.Fills output false tree.provider arguments) :
    tree.outputPath? arguments = some (Path.ofString output) := by
  rw [outputPath?, h.2]
  rfl

/-- A path below fewer directories lies apart, if its last name is not on the way of the other. -/
theorem apart_nested (hne : otherLast ≠ name) (hneLast : otherLast ≠ last)
    (hless : otherDepth < depth) :
    Apart (Path.nested name depth last).names (Path.nested name otherDepth otherLast).names := by
  constructor
  · intro hpart
    have hlength := hpart.length_le
    simp only [Path.nested, List.length_append, List.length_replicate, List.length_singleton]
      at hlength
    omega
  · intro hpart
    have hmem : otherLast ∈ List.replicate depth name ++ [last] :=
      hpart.subset (List.mem_append_right _ (List.mem_singleton.mpr rfl))
    rcases List.mem_append.mp hmem with hfront | hend
    · exact hne (List.eq_of_mem_replicate hfront)
    · exact hneLast (List.mem_singleton.mp hend)

/-- Arguments that name outputs apart, and no params file, are independent. -/
theorem Independent.of_apart {path other : Path} (hpath : tree.outputPath? arguments = some path)
    (hother : tree.outputPath? others = some other) (hnamed : path.Named)
    (hapart : Apart path.names other.names) (hlength : arguments.length = 2) :
    tree.Independent arguments others := by
  refine .of_outputs hpath hother hnamed hapart.1 fun handle harguments => ?_
  rw [harguments] at hlength
  cases hlength

/-- What a file below directories of one name leaves for a path below more of them. -/
theorem WrittenTo.nested {after : FileTree} {bytes : List UInt8}
    (h : WrittenTo {} (Path.nested name otherDepth otherLast).names bytes after)
    (hlast : IsName last) (hotherLast : IsName otherLast)
    (hne : otherLast ≠ name) (hneLast : otherLast ≠ last) (hless : otherDepth < depth) :
    Clear after (Path.nested name depth last).parent.names
      ∧ after.missing (Path.nested name depth last).parent.names ≤ depth - otherDepth
      ∧ after.get? (Path.nested name depth last).names = none := by
  obtain ⟨hpart, hotherPart⟩ := apart_nested hne hneLast hless
  have hfree : FileTree.get? {} (Path.nested name otherDepth otherLast).names ≠ some .directory := by
    rw [get?_empty_nested hotherLast]
    simp
  have hpaved : Paved after (List.replicate otherDepth name) := by
    have hparent := h.paved_parent hfree
    rwa [Path.parent_nested] at hparent
  have hsplit : List.replicate depth name
      = List.replicate otherDepth name ++ List.replicate (depth - otherDepth) name := by
    rw [List.replicate_append_replicate, Nat.add_sub_cancel' (Nat.le_of_lt hless)]
  refine ⟨?_, ?_, ?_⟩
  · refine h.clear (clear_empty _) fun hfront => hotherPart ?_
    exact hfront.trans (List.dropLast_prefix _)
  · have hmissing := hpaved.missing_append_le (List.replicate (depth - otherDepth) name)
    rw [← hsplit, List.length_replicate] at hmissing
    rwa [Path.parent_nested]
  · have hplace : (Path.nested name depth last).names
        ≠ (Path.nested name otherDepth otherLast).names := by
      intro heq
      exact hpart (heq ▸ List.prefix_refl _)
    rw [h, if_neg hplace, if_neg hpart, get?_empty_nested hlast]

/-- Behind it the write to that path is not short of calls. -/
theorem write_nested_behind {host : Host} (content otherContent : Content)
    (hname : IsName name) (hlast : IsName last) (hotherLast : IsName otherLast)
    (hne : otherLast ≠ name) (hneLast : otherLast ≠ last)
    (hshort : depth * (name.utf8ByteSize + 1) + last.utf8ByteSize < pathLimit)
    (hotherShort : otherDepth * (name.utf8ByteSize + 1) + otherLast.utf8ByteSize < pathLimit)
    (hless : otherDepth < depth) (hfits : otherDepth ≤ host.nesting + 1)
    (hrest : depth - otherDepth ≤ host.nesting + 1) :
    ((write {} host (Path.nested name otherDepth otherLast) otherContent).1.write host
      (Path.nested name depth last) content).2 = content.fault? := by
  have hpath := Path.ordinary_nested hname hlast hshort
  have hother := Path.ordinary_nested hname hotherLast hotherShort
  have hotherMissing : missing {} (Path.nested name otherDepth otherLast).parent.names
      ≤ host.nesting + 1 := by
    rw [missing_empty hother.parent.isName, Path.parent_nested, List.length_replicate]
    exact hfits
  have hotherFree : FileTree.get? {} (Path.nested name otherDepth otherLast).names
      ≠ some .directory := by
    rw [get?_empty_nested hotherLast]
    simp
  have hafter := write_wellFormed wellFormed_empty host hother.named.isNormal otherContent
  obtain ⟨after, hwrite, hwritten⟩ :=
    write_clear otherContent wellFormed_empty hother (clear_empty _) hotherMissing hotherFree
  rw [hwrite] at hafter ⊢
  obtain ⟨hclear, hmissing, hfree⟩ := hwritten.nested hlast hotherLast hne hneLast hless
  obtain ⟨_, hagain, -⟩ := write_clear content hafter hpath hclear (hmissing.trans hrest)
    (by rw [hfree]; simp)
  rw [hagain]

end FileTree

/-- **A run that fails for want of calls may succeed behind another** that makes some of the
directories on its way. -/
theorem run_nested_behind {host : Host} {name last otherLast : String} {depth otherDepth : Nat}
    (hgoes : host.interrupt? = none) (hencodable : Archive.empty.Encodable host)
    (hname : FileTree.IsName name) (hlast : FileTree.IsName last)
    (hotherLast : FileTree.IsName otherLast) (hne : otherLast ≠ name) (hneLast : otherLast ≠ last)
    (hshort : depth * (name.utf8ByteSize + 1) + last.utf8ByteSize < FileTree.pathLimit)
    (hotherShort :
      otherDepth * (name.utf8ByteSize + 1) + otherLast.utf8ByteSize < FileTree.pathLimit)
    (hpos : 0 < otherDepth) (hfits : otherDepth ≤ host.nesting + 1)
    (hdeep : host.nesting + 1 < depth) (hrest : depth - otherDepth ≤ host.nesting + 1) :
    let path := Path.nested name depth last
    let other := Path.nested name otherDepth otherLast
    let arguments := [Flag.outputFile.name, path.text]
    let others := [Flag.outputFile.name, other.text]
    FileTree.Independent {} arguments others ∧ FileTree.Independent {} others arguments
      ∧ (run ∅ {} none host arguments {}).ending = .failed (.exhausted host.overflow)
      ∧ (run ∅ {} none host arguments (run ∅ {} none host others {}).session).ending
        = .wrote path := by
  intro path other arguments others
  have hless : otherDepth < depth := Nat.lt_of_le_of_lt hfits hdeep
  have hreaches : host.ReachesWrite := Host.reachesWrite_of_none hgoes
  have hpath : path.Named := Path.named_nested hname hlast depth
  have hother : other.Named := Path.named_nested hname hotherLast otherDepth
  have hread : Path.ofString path.text = path := hpath.ofString_text Path.names_nested_ne_nil
  have hotherRead : Path.ofString other.text = other :=
    hother.ofString_text Path.names_nested_ne_nil
  have hfills (files : Parser.Provider) : Archive.empty.Fills path.text false files arguments :=
    Archive.fills_nested (Nat.zero_lt_of_lt hdeep) false files
  have hotherFills (files : Parser.Provider) : Archive.empty.Fills other.text false files others :=
    Archive.fills_nested hpos false files
  have hapart : FileTree.Apart path.names other.names := FileTree.apart_nested hne hneLast hless
  have houtput : FileTree.outputPath? {} arguments = some path :=
    (FileTree.outputPath?_of_fills (hfills _)).trans (congrArg some hread)
  have hotherOutput : FileTree.outputPath? {} others = some other :=
    (FileTree.outputPath?_of_fills (hotherFills _)).trans (congrArg some hotherRead)
  obtain ⟨-, -, -, hends⟩ := run_nested_deep hreaches hname hlast hshort hdeep ∅ {}
  refine ⟨.of_apart houtput hotherOutput hpath hapart rfl,
    .of_apart hotherOutput houtput hother hapart.symm rfl, hends, ?_⟩
  let content := Archive.empty.content host
  let otherSession := (run ∅ {} none host others {}).session
  obtain ⟨-, hotherTree⟩ :=
    run_filled hreaches (hotherFills (Session.paramsFiles {} none)) ∅ {}
  obtain ⟨hwrote, -⟩ := run_filled hreaches (hfills (otherSession.paramsFiles none)) ∅ {}
  have hbehind : ((FileTree.write {} host other content).1.write host path content).2 = none := by
    rw [← Archive.fault?_content_eq_none_iff.mpr hencodable]
    exact FileTree.write_nested_behind content content hname hlast hotherLast hne hneLast hshort
      hotherShort hless hfits hrest
  rw [hotherRead] at hotherTree
  rw [hread, hotherTree, hbehind] at hwrote
  exact hwrote.trans (host.closing_eq_wrote hgoes path)

/-- Below 1200 directories of the empty tree a run fails, and behind one below 400 of them it
succeeds. -/
theorem runs_commute_not_deep :
    let path := Path.nested "a" 1200 "p"
    let other := Path.nested "a" 400 "q"
    let arguments := [Flag.outputFile.name, path.text]
    let others := [Flag.outputFile.name, other.text]
    FileTree.Independent {} arguments others ∧ FileTree.Independent {} others arguments
      ∧ (run ∅ {} none {} arguments {}).ending
        = .failed (.exhausted "maximum recursion depth exceeded")
      ∧ (run ∅ {} none {} arguments (run ∅ {} none {} others {}).session).ending
        = .wrote path := by
  have hgoes : ({} : Host).interrupt? = none := rfl
  have hname : FileTree.IsName "a" := by decide
  have hlast : FileTree.IsName "p" := by decide
  have hotherLast : FileTree.IsName "q" := by decide
  exact run_nested_behind hgoes (fun _ _ => rfl) hname hlast hotherLast (by decide) (by decide)
    (by decide) (by decide) (by decide) (by decide) (by decide) (by decide)

end ArchiveRecord
