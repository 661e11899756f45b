/- # Proofs.Log.Configuration -- a history tells the logging configuration

A set-up is effective where it is asked for directly, or where a factory carries it
out because it is asked for the first time. Told with its latest step first, a
history says which set-ups were effective, and which of them came after all handlers
were removed. From these two lists the configuration can be read off:

* the level and the layout are those of the last effective set-up;
* a handler is attached where some effective set-up came after the last removal,
  and its sink is that of the first such set-up.

The history does not say which factories have been used, so the induction carries
that each of them owes what the history says that it owes.
-/
import ArchiveRecord.Proofs.Log.Handlers
import Mathlib.Data.List.Induction

namespace ArchiveRecord.Log

/-! ## What a history says -/

namespace Step

/-- The step makes the factory of a name, or asks it for a logger. -/
def concerns (id : String) : Step → Bool
  | makeFactory other _ | askFactory other _ => other = id
  | _ => false

/-- What the factory that the step concerns is left to set up. -/
def left? : Step → Option Setup
  | makeFactory _ setup => some setup
  | _ => none

end Step

/-- What the factory of a name has still to set up: it has not been asked since it was made. The
past is told with its latest step first. -/
def owed? (id : String) (past : List Step) : Option Setup :=
  (past.find? (Step.concerns id)).bind Step.left?

/-- The set-up of a step behind a past, where it is effective. -/
def Step.effective? (past : List Step) : Step → Option Setup
  | setUp setup => some setup
  | askFactory id _ => owed? id past
  | _ => none

/-- The effective set-ups of a past, the latest first. -/
def effectives : List Step → List Setup
  | [] => []
  | step :: past => (step.effective? past).toList ++ effectives past

/-- The effective set-ups since all handlers were removed, the latest first. -/
def sinceDetached : List Step → List Setup
  | [] => []
  | step :: past =>
    if step.isDetach then [] else (step.effective? past).toList ++ sinceDetached past

/-- **`state.ToldBy past`** -- the state is the one that a past tells of. -/
structure State.ToldBy (past : List Step) (state : State) : Prop where
  /-- The level is that of the last effective set-up. -/
  level : state.level = ((effectives past).head?.map Setup.level).getD 0
  /-- A handler is attached where a set-up was effective since the last removal. -/
  attached : state.handler.isSome ↔ sinceDetached past ≠ []
  /-- The layout is that of the last effective set-up. -/
  layout : ∀ handler, state.handler = some handler →
    (effectives past).head?.map (fun setup => Layout.ofSwitch setup.json) = some handler.layout
  /-- The sink is that of the first effective set-up since the last removal. -/
  sink : ∀ handler, state.handler = some handler →
    (sinceDetached past).getLast?.map Setup.sink = some handler.sink

/-! ## What one step changes -/

section Lists

variable {past : List Step} {step : Step} {setup : Setup}

theorem effectives_cons_of_some (h : step.effective? past = some setup) :
    effectives (step :: past) = setup :: effectives past := by
  rw [effectives, h]
  rfl

theorem effectives_cons_of_none (h : step.effective? past = none) :
    effectives (step :: past) = effectives past := by
  rw [effectives, h]
  rfl

theorem sinceDetached_cons_of_some (hdetach : step.isDetach = false)
    (h : step.effective? past = some setup) :
    sinceDetached (step :: past) = setup :: sinceDetached past := by
  rw [sinceDetached, hdetach, h]
  rfl

theorem sinceDetached_cons_of_none (hdetach : step.isDetach = false)
    (h : step.effective? past = none) : sinceDetached (step :: past) = sinceDetached past := by
  rw [sinceDetached, hdetach, h]
  rfl

theorem owed?_cons (id : String) :
    owed? id (step :: past) = if step.concerns id then step.left? else owed? id past := by
  rw [owed?, List.find?_cons]
  split
  next h => rw [if_pos h]; rfl
  next h => rw [if_neg (by simp [h])]; rfl

end Lists

namespace State.ToldBy

variable {past : List Step} {step : Step} {setup : Setup} {state next : State}

theorem initial : State.initial.ToldBy [] where
  level := rfl
  attached := by simp [State.initial, sinceDetached]
  layout := nofun
  sink := nofun

/-- An effective set-up decides level and layout; it decides the sink where no handler is
attached. -/
theorem setUp (h : state.ToldBy past) (hdetach : step.isDetach = false)
    (heffective : step.effective? past = some setup) :
    (state.setUp setup).ToldBy (step :: past) where
  level := by rw [effectives_cons_of_some heffective]; rfl
  attached := by
    rw [sinceDetached_cons_of_some hdetach heffective]
    simp [State.setUp]
  layout := by
    rintro handler hhandler
    obtain rfl := Option.some.inj hhandler
    rw [effectives_cons_of_some heffective]
    rfl
  sink := by
    rintro handler hhandler
    obtain rfl := Option.some.inj hhandler
    rw [sinceDetached_cons_of_some hdetach heffective]
    cases hbefore : state.handler with
    | none =>
        -- This set-up is the first one since the removal.
        have hnone : sinceDetached past = [] := by
          have := h.attached
          rw [hbefore] at this
          simpa using this
        rw [hnone]
        rfl
    | some before =>
        -- The first one is further back, and the handler keeps its sink.
        have hsink := h.sink before hbefore
        have hsome : sinceDetached past ≠ [] := h.attached.mp (by rw [hbefore]; rfl)
        rw [List.getLast?_cons_of_ne_nil hsome, hsink]

theorem detach (h : state.ToldBy past) : state.detach.ToldBy (.detach :: past) where
  level := h.level
  attached := by simp [State.detach, sinceDetached, Step.isDetach]
  layout := nofun
  sink := nofun

/-- Any other step leaves level and handler alone. -/
theorem other (h : state.ToldBy past) (hdetach : step.isDetach = false)
    (heffective : step.effective? past = none) (hlevel : next.level = state.level)
    (hhandler : next.handler = state.handler) : next.ToldBy (step :: past) where
  level := by rw [hlevel, effectives_cons_of_none heffective]; exact h.level
  attached := by
    rw [hhandler, sinceDetached_cons_of_none hdetach heffective]
    exact h.attached
  layout := by
    rw [hhandler, effectives_cons_of_none heffective]
    exact h.layout
  sink := by
    rw [hhandler, sinceDetached_cons_of_none hdetach heffective]
    exact h.sink

end State.ToldBy

/-! ## Factories and what they owe -/

/-- **`FactoriesToldBy past factories`** -- each factory owes what a past says that it does. -/
def FactoriesToldBy (past : List Step) (factories : OrderedMap String Factory) : Prop :=
  ∀ id, owedBy? factories id = owed? id past

section Factories

variable {past : List Step} {factories : OrderedMap String Factory}

theorem FactoriesToldBy.carriedOut?_eq (h : FactoriesToldBy past factories) (step : Step) :
    carriedOut? factories step = step.effective? past := by
  cases step with
  | askFactory id name => exact h id
  | _ => rfl

/-- **A step leaves each factory with what the step says**, if it concerns it. -/
theorem FactoriesToldBy.step (h : FactoriesToldBy past factories) (step : Step) :
    FactoriesToldBy (step :: past) (factoriesAfter factories step) := by
  intro id
  rw [owed?_cons, ← h id]
  cases step with
  | makeFactory other setup =>
      simp [factoriesAfter, owedBy?_insert, Step.concerns, Step.left?, Factory.owed?, eq_comm]
  | askFactory other name =>
      simp [factoriesAfter, owedBy?_asked, Step.concerns, Step.left?, eq_comm]
  | _ => rfl

end Factories

/-! ## Histories -/

section Histories

variable {world : World}

/-- **Behind one more step, a world is the one that is told.** -/
theorem World.state_toldBy_step {past : List Step} (hstate : world.state.ToldBy past)
    (hfactories : FactoriesToldBy past world.factories) (step : Step) :
    (world.step step).state.ToldBy (step :: past) := by
  have heffective := hfactories.carriedOut?_eq step
  rcases World.step_cases world step with
    ⟨setup, hdetach, hsetup, hnext⟩ | ⟨rfl, hnext⟩ | ⟨hdetach, hnone, hlevel, hhandler⟩
  · rw [hnext]
    exact hstate.setUp hdetach (heffective.symm.trans hsetup)
  · rw [hnext]
    exact hstate.detach
  · exact hstate.other hdetach (heffective.symm.trans hnone) hlevel hhandler

/-- **A world is the one that its history tells of.** -/
theorem World.toldBy_after (environment : Environment) (history : List Step) :
    (World.after { environment } history).state.ToldBy history.reverse
      ∧ FactoriesToldBy history.reverse (World.after { environment } history).factories := by
  induction history using List.reverseRecOn with
  | nil => exact ⟨.initial, fun _ => rfl⟩
  | append_singleton history step ih =>
      obtain ⟨hstate, hfactories⟩ := ih
      rw [List.reverse_concat, World.after_concat]
      refine ⟨World.state_toldBy_step hstate hfactories step, ?_⟩
      rw [World.factories_step]
      exact hfactories.step step

end Histories

/-- A factory that was asked owes nothing until one of its name is made again. -/
theorem owed?_of_asked {id name : String} {later past : List Step}
    (h : ∀ setup, Step.makeFactory id setup ∉ later) :
    owed? id (later ++ .askFactory id name :: past) = none := by
  induction later with
  | nil => simp [owed?_cons, Step.concerns, Step.left?]
  | cons step later ih =>
      rw [List.cons_append, owed?_cons]
      split
      next hconcerns =>
        -- What concerns the name is not its making, so it is asked once more.
        cases step with
        | makeFactory other setup =>
            obtain rfl : other = id := of_decide_eq_true hconcerns
            exact absurd List.mem_cons_self (h setup)
        | _ => rfl
      next => exact ih fun setup hmem => h setup (List.mem_cons_of_mem _ hmem)

/-- **The configuration is determined by its history in one way.** Behind every history of steps,
the base logger has at most one handler. Its level, whether it has a handler, and the layout and
the sink of that handler are those that the effective set-ups tell. A factory that has been asked
changes nothing when it is asked again, whatever stands in between. -/
theorem configuration_toldBy (environment : Environment) (history : List Step) :
    let past := history.reverse
    let world := World.after { environment } history
    let records := Records.after {} history
    records.base.attached.length ≤ 1
      ∧ records.base.level = world.state.level
      ∧ records.base.attached.map Prod.snd = world.state.handler.toList
      ∧ (world.state.handler.isSome ↔ sinceDetached past ≠ [])
      ∧ world.state.level = ((effectives past).head?.map Setup.level).getD 0
      ∧ (∀ handler, world.state.handler = some handler →
          (effectives past).head?.map (fun setup => Layout.ofSwitch setup.json)
              = some handler.layout
            ∧ (sinceDetached past).getLast?.map Setup.sink = some handler.sink)
      ∧ ∀ id name older later, history = older ++ .askFactory id name :: later →
          (∀ setup, Step.makeFactory id setup ∉ later) → ∀ again,
          world.step (.askFactory id again) = world
            ∧ records.step (.askFactory id again) = records := by
  obtain ⟨hstate, hfactories⟩ := World.toldBy_after environment history
  have hshown := (Records.shownBy_initial environment).after history
  have hattached := hshown.holds.attached_eq
  refine ⟨?_, hshown.level, hattached, hstate.attached, hstate.level,
    fun handler hhandler => ⟨hstate.layout handler hhandler, hstate.sink handler hhandler⟩, ?_⟩
  · rw [← List.length_map Prod.snd, hattached]
    exact Option.length_toList_le
  · intro id name older later hsplit hlater again
    have hpast : history.reverse = later.reverse ++ .askFactory id name :: older.reverse := by
      simp [hsplit]
    have howed : owedBy? (World.after { environment } history).factories id = none := by
      rw [hfactories id, hpast]
      exact owed?_of_asked fun setup hmem => hlater setup (List.mem_reverse.mp hmem)
    refine ⟨World.askFactory_of_none howed, Records.step_askFactory_of_none ?_ again⟩
    rw [hshown.factories, howed]

/-- Two set-ups behind a removal, with a factory that was asked before it. -/
def staleHistory : List Step :=
  [.makeFactory "f" ⟨true, debug, .named "a"⟩, .askFactory "f" "parser",
   .setUp ⟨false, info, .named "b"⟩, .detach,
   .setUp ⟨false, error, .named "c"⟩, .setUp ⟨true, critical, .named "d"⟩]

/-- The handler that is remembered from before the removal is replaced by one to the sink of the
first set-up behind it, and the layout is that of the second. -/
theorem configuration_toldBy_stale :
    (World.after {} staleHistory).state.handler = some ⟨.json programVersion, .named "c"⟩
      ∧ (effectives staleHistory.reverse).head?.map (fun setup => Layout.ofSwitch setup.json)
          = some (.json programVersion)
      ∧ (sinceDetached staleHistory.reverse).getLast?.map Setup.sink = some (.named "c")
      ∧ (Records.after {} staleHistory).base.attached.length ≤ 1
      ∧ (World.after {} staleHistory).step (.askFactory "f" "") = World.after {} staleHistory := by
  obtain ⟨hone, -, -, -, -, htold, hasked⟩ := configuration_toldBy ∅ staleHistory
  obtain ⟨hlayout, hsink⟩ := htold ⟨.json programVersion, .named "c"⟩ rfl
  have hagain := hasked "f" "parser" [_] [_, _, _, _] rfl (fun setup hmem => by simp at hmem) ""
  exact ⟨rfl, hlayout, hsink, hone, hagain.1⟩

end ArchiveRecord.Log
