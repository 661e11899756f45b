/- # Proofs.Log.Handlers -- the one handler of a state is the only one there is

`World` keeps one handler or none; `Records` keeps the list of handlers, the handler
that a set-up remembers, and the factories. Both take the same set-ups: those that
are asked for, and those that a factory still owes when it is asked. What carries the
induction is that a handler on the list is the only one and is the one remembered, so
a memory that a removal has left behind never leads to a second handler.
-/
import ArchiveRecord.Log.Handlers

namespace ArchiveRecord.Log

/-! ## Steps and factories -/

/-- The step removes all handlers. -/
def Step.isDetach : Step → Bool
  | detach => true
  | _ => false

/-- What a factory would set up if it were asked. -/
def Factory.owed? (factory : Factory) : Option Setup :=
  if factory.used then none else some factory.setup

/-- What the factory of a name would set up if it were asked. -/
def owedBy? (factories : OrderedMap String Factory) (id : String) : Option Setup :=
  (factories.get? id).bind Factory.owed?

/-- The factories when one of them has been asked. -/
def asked (factories : OrderedMap String Factory) (id : String) : OrderedMap String Factory :=
  match owedBy? factories id with
  | some setup => factories.insert id { setup, used := true }
  | none => factories

/-- The factories that a step leaves. -/
def factoriesAfter (factories : OrderedMap String Factory) : Step → OrderedMap String Factory
  | .makeFactory id setup => factories.insert id { setup }
  | .askFactory id _ => asked factories id
  | _ => factories

/-- The set-up that a step carries out, with the factories that stand there. -/
def carriedOut? (factories : OrderedMap String Factory) : Step → Option Setup
  | .setUp setup => some setup
  | .askFactory id _ => owedBy? factories id
  | _ => none

section Factories

variable {factories : OrderedMap String Factory} {id other : String} {setup : Setup}

theorem owedBy?_insert (factory : Factory) :
    owedBy? (factories.insert other factory) id
      = if id = other then factory.owed? else owedBy? factories id := by
  rw [owedBy?, OrderedMap.get?_insert]
  split <;> rfl

/-- A factory that has been asked owes nothing, and the others owe what they did. -/
theorem owedBy?_asked :
    owedBy? (asked factories other) id = if id = other then none else owedBy? factories id := by
  rw [asked]
  split
  next setup howed => exact owedBy?_insert _
  next howed =>
    split
    next hid => rw [hid, howed]
    next => rfl

theorem get?_of_owedBy?_eq_some (h : owedBy? factories id = some setup) :
    factories.get? id = some ⟨setup, false⟩ := by
  obtain ⟨⟨setup, used⟩, hget, howed⟩ := Option.bind_eq_some_iff.mp h
  cases used with
  | true => cases howed
  | false =>
      obtain rfl := Option.some.inj howed
      exact hget

theorem get?_of_owedBy?_eq_none (h : owedBy? factories id = none) :
    factories.get? id = none ∨ ∃ setup, factories.get? id = some ⟨setup, true⟩ := by
  rw [owedBy?] at h
  cases hget : factories.get? id with
  | none => exact .inl rfl
  | some factory =>
      obtain ⟨setup, used⟩ := factory
      rw [hget] at h
      cases used with
      | true => exact .inr ⟨setup, rfl⟩
      | false => cases h

end Factories

/-! ## The two machines, step by step -/

namespace World

variable {world : World} {id : String} {setup : Setup}

/-- **A factory that owes nothing changes nothing.** -/
theorem askFactory_of_none (h : owedBy? world.factories id = none) :
    world.askFactory id = world := by
  rw [askFactory]
  rcases get?_of_owedBy?_eq_none h with hget | ⟨setup, hget⟩
  · rw [hget]
  · rw [hget]
    rfl

theorem askFactory_of_some (h : owedBy? world.factories id = some setup) :
    world.askFactory id
      = { world with state := world.state.setUp setup, factories := asked world.factories id } := by
  rw [askFactory, asked, h, get?_of_owedBy?_eq_some h]
  rfl

theorem factories_step (world : World) (step : Step) :
    (world.step step).factories = factoriesAfter world.factories step := by
  cases step with
  | askFactory id name =>
      show (world.askFactory id).factories = asked world.factories id
      cases howed : owedBy? world.factories id with
      | none => rw [askFactory_of_none howed, asked, howed]
      | some setup => rw [askFactory_of_some howed]
  | _ => rfl

/-- **A step of the world** carries out one set-up, or removes the handler, or leaves level and
handler alone. -/
theorem step_cases (world : World) (step : Step) :
    (∃ setup, step.isDetach = false ∧ carriedOut? world.factories step = some setup
        ∧ (world.step step).state = world.state.setUp setup)
      ∨ (step = .detach ∧ (world.step step).state = world.state.detach)
      ∨ (step.isDetach = false ∧ carriedOut? world.factories step = none
        ∧ (world.step step).state.level = world.state.level
        ∧ (world.step step).state.handler = world.state.handler) := by
  cases step with
  | setUp setup => exact .inl ⟨setup, rfl, rfl, rfl⟩
  | detach => exact .inr (.inl ⟨rfl, rfl⟩)
  | askFactory id name =>
      cases howed : owedBy? world.factories id with
      | none =>
          have hsame : world.step (.askFactory id name) = world := askFactory_of_none howed
          exact .inr (.inr ⟨rfl, howed, by rw [hsame], by rw [hsame]⟩)
      | some setup =>
          exact .inl ⟨setup, rfl, howed, congrArg World.state (askFactory_of_some howed)⟩
  | makeFactory | askLogger | switchTrace | changeEnvironment | call | trace =>
      exact .inr (.inr ⟨rfl, rfl, rfl, rfl⟩)

end World

namespace Records

variable {records : Records} {id : String} {setup : Setup}

theorem step_askFactory_of_none (h : owedBy? records.factories id = none) (name : String) :
    records.step (.askFactory id name) = records := by
  rw [step]
  rcases get?_of_owedBy?_eq_none h with hget | ⟨setup, hget⟩
  · rw [hget]
  · rw [hget]
    rfl

theorem step_askFactory_of_some (h : owedBy? records.factories id = some setup) (name : String) :
    records.step (.askFactory id name)
      = ⟨records.base.setUp setup, asked records.factories id⟩ := by
  rw [step, asked, h, get?_of_owedBy?_eq_some h]
  rfl

theorem factories_step (records : Records) (step : Step) :
    (records.step step).factories = factoriesAfter records.factories step := by
  cases step with
  | askFactory id name =>
      show _ = asked records.factories id
      cases howed : owedBy? records.factories id with
      | none => rw [step_askFactory_of_none howed, asked, howed]
      | some setup => rw [step_askFactory_of_some howed]
  | _ => rfl

/-- **A step of the records** carries out the set-up that is asked for or owed. -/
theorem base_step_of_some {step : Step} (h : carriedOut? records.factories step = some setup) :
    (records.step step).base = records.base.setUp setup := by
  cases step with
  | setUp other =>
      obtain rfl := Option.some.inj h
      rfl
  | askFactory id name => rw [step_askFactory_of_some h]
  | _ => cases h

theorem base_step_of_none {step : Step} (hdetach : step.isDetach = false)
    (h : carriedOut? records.factories step = none) :
    (records.step step).base = records.base := by
  cases step with
  | setUp other => cases h
  | askFactory id name => rw [step_askFactory_of_none h]
  | detach => cases hdetach
  | _ => rfl

end Records

/-! ## At most one handler -/

namespace Base

variable {base : Base} {setup : Setup} {handler : Handler} {number : Nat}

/-- Without a handler on the list, a set-up attaches one, whatever is remembered. -/
theorem setUp_of_detached (h : base.attached = []) :
    base.setUp setup
      = { base with level := setup.level }.attach ⟨.ofSwitch setup.json, setup.sink⟩ := by
  have habsent (number : Nat) : base.isAttached number = false := by simp [isAttached, h]
  rw [setUp]
  cases base.remembered with
  | none => rfl
  | some number => simp [habsent]

/-- Where the remembered handler is on the list, a set-up changes its layout. -/
theorem setUp_of_attached (h : base.attached = [(number, handler)])
    (hremembered : base.remembered = some number) :
    base.setUp setup
      = { base with
            level := setup.level
            attached := [(number, { handler with layout := .ofSwitch setup.json })] } := by
  have hpresent : base.isAttached number = true := by simp [isAttached, h]
  simp [setUp, hremembered, hpresent, relayout, h]

/-- **`base.Holds handler`** -- the handler is the only one on the list and the one that is
remembered; or none is on the list, whatever is remembered. -/
def Holds (base : Base) : Option Handler → Prop
  | some handler =>
    ∃ number, base.attached = [(number, handler)] ∧ base.remembered = some number
  | none => base.attached = []

theorem detach_holds : base.detach.Holds none := rfl

theorem Holds.attached_eq {handler? : Option Handler} (h : base.Holds handler?) :
    base.attached.map Prod.snd = handler?.toList := by
  cases handler? with
  | none => rw [(h : base.attached = [])]; rfl
  | some handler =>
      obtain ⟨number, hattached, -⟩ := h
      rw [hattached]
      rfl

/-- **A set-up holds one handler**, the one that the state has. -/
theorem Holds.setUp {state : State} (h : base.Holds state.handler) (setup : Setup) :
    (base.setUp setup).Holds (state.setUp setup).handler := by
  cases hhandler : state.handler with
  | none =>
      -- What is remembered is not on the empty list, so a new handler is attached.
      rw [hhandler] at h
      have hdetached : base.attached = [] := h
      rw [setUp_of_detached hdetached]
      exact ⟨base.made, by simp [attach, hdetached, hhandler], rfl⟩
  | some handler =>
      rw [hhandler] at h
      obtain ⟨number, hattached, hremembered⟩ := h
      rw [setUp_of_attached hattached hremembered]
      exact ⟨number, by simp [hhandler], hremembered⟩

theorem setUp_level : (base.setUp setup).level = setup.level := by
  rw [setUp]
  split
  · split <;> rfl
  · rfl

end Base

/-- **`records.ShownBy world`** -- the world shows the level, the handler and the factories of the
records. -/
structure Records.ShownBy (world : World) (records : Records) : Prop where
  factories : records.factories = world.factories
  level : records.base.level = world.state.level
  holds : records.base.Holds world.state.handler

/-- **The records take each step as the world does.** -/
theorem Records.ShownBy.step {world : World} {records : Records} (h : records.ShownBy world)
    (step : Step) : (records.step step).ShownBy (world.step step) := by
  have hfactories : (records.step step).factories = (world.step step).factories := by
    rw [Records.factories_step, World.factories_step, h.factories]
  rcases World.step_cases world step with
    ⟨setup, -, hsetup, hstate⟩ | ⟨rfl, hstate⟩ | ⟨hdetach, hnone, hlevel, hhandler⟩
  -- The factories are the same, so both machines carry out the same set-up or none.
  · rw [← h.factories] at hsetup
    have hbase := Records.base_step_of_some hsetup
    refine ⟨hfactories, ?_, ?_⟩
    · rw [hbase, hstate]
      exact Base.setUp_level
    · rw [hbase, hstate]
      exact h.holds.setUp setup
  · refine ⟨hfactories, ?_, ?_⟩
    · rw [hstate]
      exact h.level
    · rw [hstate]
      exact Base.detach_holds
  · rw [← h.factories] at hnone
    have hbase := Records.base_step_of_none hdetach hnone
    exact ⟨hfactories, by rw [hbase, hlevel, h.level], by rw [hbase, hhandler]; exact h.holds⟩

/-! ## Histories -/

/-- The world behind a history of steps. -/
def World.after (world : World) (history : List Step) : World := history.foldl World.step world

/-- The records behind a history. -/
def Records.after (records : Records) (history : List Step) : Records :=
  history.foldl Records.step records

section Histories

variable {world : World} {records : Records}

theorem World.after_concat (world : World) (history : List Step) (step : Step) :
    world.after (history ++ [step]) = (world.after history).step step := by
  rw [after, List.foldl_append]
  rfl

theorem Records.after_concat (records : Records) (history : List Step) (step : Step) :
    records.after (history ++ [step]) = (records.after history).step step := by
  rw [after, List.foldl_append]
  rfl

/-- **The records behind a history are shown by its world.** -/
theorem Records.ShownBy.after (h : records.ShownBy world) (history : List Step) :
    (records.after history).ShownBy (world.after history) := by
  induction history generalizing world records with
  | nil => exact h
  | cons step history ih => exact ih (h.step step)

/-- Where nothing is configured yet, nothing is shown. -/
theorem Records.shownBy_initial (environment : Environment) :
    Records.ShownBy { environment } {} := ⟨rfl, rfl, rfl⟩

end Histories

end ArchiveRecord.Log
