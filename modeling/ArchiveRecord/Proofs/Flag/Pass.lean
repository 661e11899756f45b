/- # Proofs.Flag.Pass -- a dispatch over the flags as a pass over a target

The callbacks of the flags are scripts, but they do little: each changes the target
or fails, and none touches the parser. A dispatch over them is therefore a pass
that carries the active flag and the target and nothing else. `dispatch_eq_pass`
says so for every list of readings; statements about filled archives are proved
about `pass`.
-/
import ArchiveRecord.Flag.Arguments
import ArchiveRecord.Proofs.Parser.Steps

open ArchiveRecord.Parser (Event Provider Run State)

namespace ArchiveRecord

/-! ## Flags by name -/

namespace Flag

/-- A flag is found under its own name and under no other. -/
theorem ofName?_eq_some_iff {name : String} {flag : Flag} :
    ofName? name = some flag ↔ name = flag.name := by
  constructor
  · intro h
    have := List.find?_some h
    simpa using (of_decide_eq_true this).symm
  · rintro rfl
    exact ofName?_name flag

theorem ofName?_eq_none_iff {name : String} : ofName? name = none ↔ ∀ flag : Flag, name ≠ flag.name := by
  constructor
  · intro h flag hname
    rw [ofName?_eq_some_iff.mpr hname] at h
    contradiction
  · intro h
    cases hname : ofName? name with
    | none => rfl
    | some flag => exact absurd (ofName?_eq_some_iff.mp hname) (h flag)

end Flag

/-- **`BindsFlags parser`** -- the flags and nothing else are bound, each to its own callback. -/
def Parser.BindsFlags (parser : Parser Target) : Prop :=
  ∀ token, parser.callback? token = (Flag.ofName? token).map Flag.callback

/-- The parser of the command line binds the flags. -/
theorem Parser.bindsFlags_bindFlags (provider : Provider) :
    BindsFlags (bindFlags { provider }) := by
  intro token
  cases h : Flag.ofName? token with
  | some flag =>
      rw [Flag.ofName?_eq_some_iff.mp h]
      cases flag <;> rfl
  | none =>
      have hname := Flag.ofName?_eq_none_iff.mp h
      simp only [bindFlags, Flag.all, List.foldl_cons, List.foldl_nil, callback?, register,
        OrderedMap.get?_insert, hname, if_false]
      rfl

/-! ## One value -/

/-- The log events of a value: a data source that is no Go source is reported. -/
def Flag.logEvents (flag : Flag) (value : String) : List Event :=
  if flag = dataSrcs ∧ isGoSource value = false then [.logged (ignoringCall value)] else []

/-- The callback of a flag does to the target what the flag does, and fails where the flag does. -/
theorem Flag.run_callback (nested : List String → State Target → Run Target) (flag : Flag)
    (value : String) (parser : Parser Target) (target : Target) :
    (flag.callback value).run nested ⟨parser, target⟩
      = match flag.apply value target with
        | .error fault => .failed ⟨parser, target⟩ fault
        | .ok next => ⟨flag.logEvents value, ⟨parser, next⟩, .completed⟩ := by
  rw [callback, Parser.Script.run]
  cases h : flag.apply value target with
  | error fault => rw [Parser.Script.run]
  | ok next =>
      by_cases hignored : flag = dataSrcs ∧ isGoSource value = false
      · -- The one case that logs: the target is then left as it is.
        obtain ⟨rfl, hgo⟩ := hignored
        obtain rfl : target = next := by simpa [apply, hgo] using h
        simp [logEvents, hgo, Parser.Script.run, Run.after, Run.idle]
      · simp [logEvents, hignored, Parser.Script.run, Run.idle]

/-! ## A pass -/

namespace Flag

/-- What readings do to a target: the target that is left, and the fault that ends the pass, if one
does. -/
def pass : Option Flag → List Reading → Target → Target × Option Fault
  | _, [], target => (target, none)
  | active, reading :: rest, target =>
    match reading.result with
    | .error fault => (target, some fault)
    | .ok token =>
      match ofName? token, active with
      | some flag, _ => pass (some flag) rest target
      | none, some flag =>
        match flag.apply token target with
        | .error fault => (target, some fault)
        | .ok next => pass active rest next
      | none, none => (target, some (.unexpectedFlag token reading.origin))

variable {active : Option Flag} {flag : Flag} {rest : List Reading} {target next : Target}
  {token : String} {origin : Origin}

theorem pass_unread {fault : Fault} :
    pass active (⟨.error fault, origin⟩ :: rest) target = (target, some fault) := by
  rw [pass]

theorem pass_flag (h : ofName? token = some flag) :
    pass active (⟨.ok token, origin⟩ :: rest) target = pass (some flag) rest target := by
  simp [pass, h]

theorem pass_value (h : ofName? token = none) (happly : flag.apply token target = .ok next) :
    pass (some flag) (⟨.ok token, origin⟩ :: rest) target = pass (some flag) rest next := by
  simp [pass, h, happly]

theorem pass_fault {fault : Fault} (h : ofName? token = none)
    (happly : flag.apply token target = .error fault) :
    pass (some flag) (⟨.ok token, origin⟩ :: rest) target = (target, some fault) := by
  simp [pass, h, happly]

theorem pass_unexpected (h : ofName? token = none) :
    pass none (⟨.ok token, origin⟩ :: rest) target
      = (target, some (.unexpectedFlag token origin)) := by
  simp [pass, h]

/-- What each value keeps, a pass keeps. -/
theorem pass_invariant {P : Target → Prop}
    (step : ∀ (flag : Flag) (value : String) (target next : Target), ofName? value = none →
      flag.apply value target = .ok next → P target → P next)
    (active : Option Flag) (readings : List Reading) {target : Target} (h : P target) :
    P (pass active readings target).1 := by
  induction readings generalizing active target with
  | nil => exact h
  | cons reading rest ih =>
      obtain ⟨result, origin⟩ := reading
      cases result with
      | error fault => rwa [pass_unread]
      | ok token =>
          cases hname : ofName? token with
          | some flag =>
              rw [pass_flag hname]
              exact ih (some flag) h
          | none =>
              cases active with
              | none => rwa [pass_unexpected hname]
              | some flag =>
                  cases happly : flag.apply token target with
                  | error fault => rwa [pass_fault hname happly]
                  | ok next =>
                      rw [pass_value hname happly]
                      exact ih (some flag) (step flag token target next hname happly h)

end Flag

/-! ## Dispatch is a pass -/

/-- **A dispatch over the flags is a pass.** It leaves the parser as it is, the target as the pass
leaves it, and ends with the fault of the pass. -/
theorem Parser.dispatch_eq_pass (nested : List String → State Target → Run Target)
    {parser : Parser Target} (h : parser.BindsFlags) (active : Option Flag)
    (readings : List Reading) (target : Target) :
    (dispatch nested (active.map Flag.callback) readings ⟨parser, target⟩).state
        = ⟨parser, (Flag.pass active readings target).1⟩
      ∧ (dispatch nested (active.map Flag.callback) readings ⟨parser, target⟩).outcome
        = (Flag.pass active readings target).2.elim .completed .failed := by
  induction readings generalizing active target with
  | nil =>
      rw [dispatch_nil]
      exact ⟨rfl, rfl⟩
  | cons reading rest ih =>
      obtain ⟨result, origin⟩ := reading
      cases result with
      | error fault =>
          rw [dispatch_unread, Flag.pass_unread]
          exact ⟨rfl, rfl⟩
      | ok token =>
          have htoken := h token
          cases hname : Flag.ofName? token with
          | some flag =>
              -- What is active before does not matter, so `ih` is taken at the flag.
              rw [hname, Option.map_some] at htoken
              rw [dispatch_flag htoken, Flag.pass_flag hname]
              exact ih (some flag) target
          | none =>
              rw [hname, Option.map_none] at htoken
              cases active with
              | none =>
                  rw [Option.map_none, dispatch_unexpected htoken, Flag.pass_unexpected hname]
                  exact ⟨rfl, rfl⟩
              | some flag =>
                  rw [Option.map_some, dispatch_value htoken, Flag.run_callback]
                  cases happly : flag.apply token target with
                  | error fault =>
                      rw [Flag.pass_fault hname happly]
                      exact ⟨rfl, rfl⟩
                  | ok next =>
                      -- The call leaves the parser alone: the bindings are still those of `h`.
                      rw [Flag.pass_value hname happly]
                      exact ih (some flag) next

end ArchiveRecord
